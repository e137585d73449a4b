import HtnPlanning.Proofs.Logic.Renaming
import HtnPlanning.Proofs.Network.FanOut

namespace HtnPlanning

def TaskId.moved (r : Renumbering) (id : TaskId) : TaskId :=
  ⟨r.task id.number⟩

theorem TaskId.moved_injective {r : Renumbering} : Function.Injective (TaskId.moved r) := by
  rintro ⟨k⟩ ⟨k'⟩ same
  exact congrArg _ (r.taskMono.injective (TaskId.mk.inj same))

theorem TaskId.compare_moved {r : Renumbering} (p q : TaskId) :
    compare (p.moved r) (q.moved r) = compare p q :=
  compare_strictMono r.taskMono p.number q.number

theorem TaskSet.toList_image_moved (r : Renumbering) (ids : TaskSet) :
    (ids.image (·.moved r)).toList = ids.toList.map (·.moved r) :=
  toList_eq_map TaskId.compare_moved fun _ => mem_image

theorem TaskSet.image_image (f g : TaskId → TaskId) (ids : TaskSet) :
    (ids.image f).image g = ids.image (g ∘ f) := by
  refine Std.ExtTreeSet.ext_mem fun id => ?_
  simp only [mem_image]
  constructor
  · rintro ⟨-, ⟨source, member, rfl⟩, rfl⟩
    exact ⟨source, member, rfl⟩
  · rintro ⟨source, member, rfl⟩
    exact ⟨_, ⟨source, member, rfl⟩, rfl⟩

theorem TaskSet.isEmpty_image (f : TaskId → TaskId) (ids : TaskSet) :
    (ids.image f).isEmpty = ids.isEmpty := by
  rw [Bool.eq_iff_iff, Std.ExtTreeSet.isEmpty_iff, Std.ExtTreeSet.isEmpty_iff,
    Std.ExtTreeSet.eq_empty_iff_forall_not_mem, Std.ExtTreeSet.eq_empty_iff_forall_not_mem]
  simp only [mem_image, not_exists, not_and]
  exact ⟨fun none id member => none (f id) id member rfl, fun none _ id member _ => none id member⟩

/-! ## Tasks -/

namespace Task

variable {r : Renumbering} {f g : Variable → Term} {t u : Task} {v : Variable}

def subst (f : Variable → Term) (t : Task) : Task :=
  { t with args := t.args.map (·.subst f) }

def moved (r : Renumbering) (t : Task) : Task :=
  { t.subst fun v => .var (v.moved r) with id := t.id.moved r }

theorem mem_varList : v ∈ t.varList ↔ .var v ∈ t.args :=
  Term.mem_vars

theorem mem_vars : v ∈ t.vars ↔ v ∈ t.varList := by
  simp [vars]

theorem apply_eq_subst (s : Substitution) (t : Task) : t.apply s = t.subst s.image := by
  simp only [apply, subst, Term.apply_eq_subst]

theorem subst_congr (same : ∀ v ∈ t.varList, f v = g v) : t.subst f = t.subst g := by
  have args : t.args.map (·.subst f) = t.args.map (·.subst g) :=
    List.map_congr_left fun x member => Term.subst_congr fun v is =>
      same v (mem_varList.mpr (is ▸ member))
  rw [subst, subst, args]

theorem subst_subst (t : Task) : (t.subst f).subst g = t.subst fun v => (f v).subst g := by
  simp [subst, Term.subst_subst]

theorem mem_varList_subst : v ∈ (t.subst f).varList ↔ ∃ w ∈ t.varList, f w = .var v := by
  simp only [mem_varList, subst, List.mem_map]
  constructor
  · rintro ⟨x, arg, result⟩
    obtain ⟨w, rfl, image⟩ := Term.subst_eq_var result
    exact ⟨w, arg, image⟩
  · rintro ⟨w, arg, image⟩
    exact ⟨.var w, arg, image⟩

theorem mem_varList_apply {s : Substitution} :
    v ∈ (t.apply s).varList ↔ ∃ w ∈ t.varList, s.image w = .var v := by
  rw [apply_eq_subst, mem_varList_subst]

theorem moved_congr {r r' : Renumbering} (id : r.task t.id.number = r'.task t.id.number)
    (scopes : ∀ v ∈ t.varList, r.scope v.scope = r'.scope v.scope) : t.moved r = t.moved r' := by
  have args : (t.subst fun v => .var (v.moved r)) = t.subst fun v => .var (v.moved r') :=
    subst_congr fun v member => by rw [Variable.moved, Variable.moved, scopes v member]
  rw [moved, moved, args, TaskId.moved, TaskId.moved, id]

theorem subst_var (t : Task) : t.subst .var = t := by
  have args : t.args.map (·.subst .var) = t.args :=
    (List.map_congr_left fun x _ => by cases x <;> rfl).trans (List.map_id _)
  rw [subst, args]

theorem moved_refl : t.moved .refl = t :=
  t.subst_var

theorem subst_moved (images : ∀ v, g (v.moved r) = (f v).moved r) (t : Task) :
    (t.moved r).subst g = (t.subst f).moved r := by
  have args : (t.args.map (·.moved r)).map (·.subst g) =
      (t.args.map (·.subst f)).map (·.moved r) := by
    rw [List.map_map, List.map_map]
    refine List.map_congr_left fun x _ => ?_
    cases x with
    | var v => exact images v
    | const c => rfl
  exact congrArg (fun args => { t.moved r with args := args }) args

theorem moved_injective : Function.Injective (moved r) := by
  rintro ⟨id, name, args, primitive⟩ ⟨id', name', args', primitive'⟩ same
  simp only [moved, subst, mk.injEq] at same
  obtain ⟨ids, rfl, terms, rfl⟩ := same
  rw [TaskId.moved_injective ids, Term.moved_injective.list_map terms]

@[simp] theorem id_moved : (t.moved r).id = t.id.moved r := rfl

@[simp] theorem name_moved : (t.moved r).name = t.name := rfl

@[simp] theorem primitive_moved : (t.moved r).primitive = t.primitive := rfl

@[simp] theorem arity_moved : (t.moved r).arity = t.arity :=
  List.length_map _

theorem args_moved : (t.moved r).args = t.args.map (·.moved r) := rfl

end Task

/-! ## Constraints -/

namespace Constraint

variable {r : Renumbering} {f g : Variable → Term} {h h' : TaskId → TaskId} {c d : Constraint}
  {v : Variable} {old : TaskId} {new side : TaskSet}

def subst (f : Variable → Term) : Constraint → Constraint
  | .precedence earlier later => .precedence earlier later
  | .before tasks condition => .before tasks (condition.subst f)
  | .after tasks condition => .after tasks (condition.subst f)
  | .between earlier later condition => .between earlier later (condition.subst f)

def moved (r : Renumbering) (c : Constraint) : Constraint :=
  (c.subst fun v => .var (v.moved r)).rename (·.moved r)

def varList (c : Constraint) : List Variable :=
  c.condition?.toList.flatMap Condition.varList

theorem apply_eq_subst (s : Substitution) (c : Constraint) : c.apply s = c.subst s.image := by
  cases c <;> simp only [apply, subst, Condition.apply_eq_subst]

theorem subst_congr (same : ∀ v ∈ c.varList, f v = g v) : c.subst f = c.subst g := by
  cases c with
  | precedence earlier later => rfl
  | before _ a | after _ a | between _ _ a =>
      simp only [varList, condition?, Option.toList_some, List.flatMap_singleton] at same
      rw [subst, subst, Condition.subst_congr same]

theorem subst_subst (c : Constraint) : (c.subst f).subst g = c.subst fun v => (f v).subst g := by
  cases c <;> simp only [subst, Condition.subst_subst]

theorem subst_var (c : Constraint) : c.subst .var = c := by
  cases c <;> simp only [subst, Condition.subst_var]

theorem subst_rename (c : Constraint) : (c.rename h).subst f = (c.subst f).rename h := by
  cases c <;> rfl

theorem rename_id (c : Constraint) : c.rename id = c := by
  have image (side : TaskSet) : side.image id = side :=
    Std.ExtTreeSet.ext_mem fun id => by simp [TaskSet.mem_image]
  cases c <;> simp only [rename, image]

theorem rename_rename (c : Constraint) : (c.rename h).rename h' = c.rename (h' ∘ h) := by
  cases c <;> simp only [rename, TaskSet.image_image]

theorem subst_moved (images : ∀ v, g (v.moved r) = (f v).moved r) (c : Constraint) :
    (c.moved r).subst g = (c.subst f).moved r := by
  rw [moved, subst_rename, subst_subst, moved, subst_subst]
  exact congrArg (fun f => (c.subst f).rename _) (funext images)

theorem varList_rename (c : Constraint) : (c.rename h).varList = c.varList := by
  rw [varList, varList, condition?_rename]

theorem mem_varList_subst : v ∈ (c.subst f).varList ↔ ∃ w ∈ c.varList, f w = .var v := by
  cases c <;> simp [varList, subst, condition?, Condition.mem_varList_subst]

theorem mem_varList_apply {s : Substitution} :
    v ∈ (c.apply s).varList ↔ ∃ w ∈ c.varList, s.image w = .var v := by
  rw [apply_eq_subst, mem_varList_subst]

@[simp] theorem edges_subst : (c.subst f).edges = c.edges := by
  cases c <;> rfl

@[simp] theorem references_subst : (c.subst f).references = c.references := by
  cases c <;> rfl

theorem moved_congr {r r' : Renumbering}
    (ids : ∀ id ∈ c.references, r.task id.number = r'.task id.number)
    (scopes : ∀ v ∈ c.varList, r.scope v.scope = r'.scope v.scope) : c.moved r = c.moved r' := by
  have conditions : (c.subst fun v => .var (v.moved r)) = c.subst fun v => .var (v.moved r') :=
    subst_congr fun v member => by rw [Variable.moved, Variable.moved, scopes v member]
  rw [moved, moved, conditions]
  refine rename_congr fun id reference => ?_
  rw [references_subst] at reference
  rw [TaskId.moved, TaskId.moved, ids id reference]

@[simp] theorem kind_moved : (c.moved r).kind = c.kind := by
  cases c <;> rfl

@[simp] theorem first_moved : (c.moved r).first = c.first.image (·.moved r) := by
  cases c <;> rfl

@[simp] theorem second_moved : (c.moved r).second = c.second.image (·.moved r) := by
  cases c <;> rfl

theorem mem_image_moved {id : TaskId} : id.moved r ∈ side.image (·.moved r) ↔ id ∈ side := by
  rw [TaskSet.mem_image]
  constructor
  · rintro ⟨source, member, same⟩
    exact TaskId.moved_injective same ▸ member
  · exact fun member => ⟨id, member, rfl⟩

theorem mentions_moved {id : TaskId} : (c.moved r).mentions (id.moved r) = c.mentions id := by
  rw [Bool.eq_iff_iff, mentions_iff, mentions_iff, first_moved, second_moved, mem_image_moved,
    mem_image_moved]

theorem moved_refl : c.moved .refl = c := by
  have image (side : TaskSet) : side.image (·.moved .refl) = side :=
    Std.ExtTreeSet.ext_mem fun id => mem_image_moved (r := .refl)
  have condition (a : Condition) : (a.subst fun v => .var (v.moved .refl)) = a := a.subst_var
  cases c <;> simp only [moved, subst, rename, image, condition]

@[simp] theorem condition?_moved : (c.moved r).condition? = c.condition?.map (·.moved r) := by
  cases c <;> rfl

theorem compare_moved (c d : Constraint) : compare (c.moved r) (d.moved r) = compare c d := by
  have condition (a b : Option Condition) : compare (a.map (·.moved r)).toList (b.map (·.moved r)).toList =
      compare a.toList b.toList := by
    rw [Option.toList_map, Option.toList_map, compare_map Condition.compare_moved]
  have order (c d : Constraint) : compare c d =
      (compare c.kind.rank d.kind.rank).then ((compare c.first.toList d.first.toList).then
        ((compare c.second.toList d.second.toList).then
          (compare c.condition?.toList d.condition?.toList))) := rfl
  simp only [order, kind_moved, first_moved, second_moved, condition?_moved, condition,
    TaskSet.toList_image_moved, compare_map TaskId.compare_moved]

theorem replaceInSide_moved : replaceInSide (old.moved r) (new.image (·.moved r)) (side.image (·.moved r)) =
    (replaceInSide old new side).map (·.image (·.moved r)) := by
  have replaced : (if old.moved r ∈ side.image (·.moved r) then
      (side.image (·.moved r)).erase (old.moved r) ∪ new.image (·.moved r)
        else side.image (·.moved r)) =
      TaskSet.image (·.moved r) (if old ∈ side then side.erase old ∪ new else side) := by
    simp only [mem_image_moved]
    split
    next =>
      refine Std.ExtTreeSet.ext_mem fun id => ?_
      simp only [Std.ExtTreeSet.mem_union_iff, Std.ExtTreeSet.mem_erase, TaskSet.mem_image, ne_eq,
        Std.LawfulEqOrd.compare_eq_iff_eq]
      constructor
      · rintro (⟨other, source, member, rfl⟩ | ⟨source, member, rfl⟩)
        · exact ⟨source, .inl ⟨fun same => other (same ▸ rfl), member⟩, rfl⟩
        · exact ⟨source, .inr member, rfl⟩
      · rintro ⟨source, ⟨other, member⟩ | member, rfl⟩
        · exact .inl ⟨fun same => other (TaskId.moved_injective same), source, member, rfl⟩
        · exact .inr ⟨source, member, rfl⟩
    next => rfl
  rw [replaceInSide, replaceInSide, replaced]
  generalize (if old ∈ side then side.erase old ∪ new else side) = whole
  rw [TaskSet.isEmpty_image]
  cases Std.ExtTreeSet.isEmpty whole <;> rfl

theorem replaceTask_moved : (c.moved r).replaceTask (old.moved r) (new.image (·.moved r)) =
    (c.replaceTask old new).map (·.moved r) := by
  cases c with
  | precedence earlier later | between earlier later condition =>
      simp only [moved, subst, rename, replaceTask, replaceInSide_moved]
      cases replaceInSide old new earlier <;> cases replaceInSide old new later <;> rfl
  | before tasks condition | after tasks condition =>
      simp only [moved, subst, rename, replaceTask, replaceInSide_moved]
      cases replaceInSide old new tasks <;> rfl

theorem fans_moved : Fans (old.moved r) (new.image (·.moved r)) (c.moved r) d ↔
    ∃ left, Fans old new c left ∧ left.moved r = d := by
  cases mentions : c.mentions old with
  | true =>
      rw [← replaceTask_eq_some (by rw [mentions_moved, mentions]), replaceTask_moved,
        Option.map_eq_some_iff]
      simp only [replaceTask_eq_some mentions]
  | false =>
      rw [Fans.of_not_mentions (by rw [mentions_moved, mentions])]
      simp only [Fans.of_not_mentions mentions, exists_eq_left, eq_comm (a := d)]

end Constraint

/-! ## Networks -/

namespace Network

structure Moved (r : Renumbering) (n n' : Network) : Prop where
  tasks : ∀ u, u ∈ n'.taskList ↔ ∃ t ∈ n.taskList, t.moved r = u
  constraints : ∀ d, d ∈ n'.constraints ↔ ∃ c ∈ n.constraints, c.moved r = d

variable {r : Renumbering} {n n' : Network} {t u : Task}

theorem mem_vars {v : Variable} : v ∈ n.vars ↔ v ∈ n.varList := by
  simp [vars]

theorem mem_varList {v : Variable} : v ∈ n.varList ↔
    (∃ t ∈ n.taskList, v ∈ t.varList) ∨ ∃ c ∈ n.constraints, v ∈ c.varList := by
  simp only [varList, List.mem_append, List.mem_flatMap, Std.ExtTreeSet.mem_toList, Constraint.varList]

theorem moved_refl (n : Network) : n.Moved .refl n := by
  constructor <;> simp [Task.moved_refl, Constraint.moved_refl]

theorem Moved.toList_constraints (moved : n.Moved r n') :
    n'.constraints.toList = n.constraints.toList.map (·.moved r) :=
  toList_eq_map Constraint.compare_moved moved.constraints

theorem Moved.isPrimitive (moved : n.Moved r n') : n'.isPrimitive = n.isPrimitive := by
  rw [Bool.eq_iff_iff, Network.isPrimitive, Network.isPrimitive, List.all_eq_true, List.all_eq_true]
  simp only [moved.tasks]
  constructor
  · exact fun all t listed => all (t.moved r) ⟨t, listed, rfl⟩
  · rintro all - ⟨t, listed, rfl⟩
    exact all t listed

theorem Moved.firstCompound (moved : n.Moved r n') (formed : n.WellFormed) (formed' : n'.WellFormed)
    (first : n.firstCompound = .ok t) : n'.firstCompound = .ok (t.moved r) := by
  obtain ⟨member, open_, least⟩ := formed.firstCompound_eq_ok.mp first
  refine formed'.firstCompound_eq_ok.mpr ⟨(moved.tasks _).mpr ⟨t, member, rfl⟩, open_, ?_⟩
  intro u listed openU
  obtain ⟨v, inV, rfl⟩ := (moved.tasks u).mp listed
  exact r.taskMono.monotone (least v inV openU)

end Network

theorem Method.mem_vars {m : Method} {v : Variable} :
    v ∈ m.vars ↔ v ∈ m.pattern.varList ∨ v ∈ m.template.varList := by
  simp [vars]

end HtnPlanning
