import HtnPlanning.Proofs.Search.Choice
import HtnPlanning.Samples.Juggling

namespace HtnPlanning

theorem size_eq_iff_injOn {α β : Type} [Ord α] [Std.TransOrd α] [Std.LawfulEqOrd α] [Ord β]
    [Std.TransOrd β] [Std.LawfulEqOrd β] {left : Std.ExtTreeSet α} {right : Std.ExtTreeSet β}
    {f : α → β} (onto : ∀ y, y ∈ right ↔ ∃ x ∈ left, f x = y) :
    right.size = left.size ↔ Set.InjOn f {x | x ∈ left} := by
  have distinct : left.toList.Nodup :=
    Std.ExtTreeSet.distinct_toList.imp Std.ReflCmp.ne_of_cmp_ne_eq
  have distinct' : right.toList.Nodup :=
    Std.ExtTreeSet.distinct_toList.imp Std.ReflCmp.ne_of_cmp_ne_eq
  have members (y : β) : y ∈ right.toList ↔ y ∈ left.toList.map f := by
    simp only [Std.ExtTreeSet.mem_toList, onto, List.mem_map]
  rw [← Std.ExtTreeSet.length_toList, ← Std.ExtTreeSet.length_toList]
  constructor
  · intro same x inX y inY
    have subperm := List.subperm_of_subset distinct' fun y => (members y).mp
    have perm := subperm.perm_of_length_le (by rw [List.length_map, same])
    exact List.inj_on_of_nodup_map (perm.nodup_iff.mp distinct') (Std.ExtTreeSet.mem_toList.mpr inX)
      (Std.ExtTreeSet.mem_toList.mpr inY)
  · intro injective
    have mapped := distinct.map_on fun x inX y inY =>
      injective (Std.ExtTreeSet.mem_toList.mp inX) (Std.ExtTreeSet.mem_toList.mp inY)
    rw [((List.perm_ext_iff_of_nodup distinct' mapped).mpr members).length_eq, List.length_map]

namespace Method

variable {m copy : Method} {f : Variable → Variable} {h : TaskId → TaskId} {scope : Nat} {v : Variable}

/-- A method has the pattern, tasks and constraints of another one, with other variables and other
occurrences. -/
structure Rewritten (m : Method) (f : Variable → Variable) (h : TaskId → TaskId) (copy : Method) :
    Prop where
  name : copy.name = m.name
  pattern : copy.pattern = { m.pattern.subst (.var ∘ f) with id := copy.pattern.id }
  tasks : ∀ u, u ∈ copy.template.taskList ↔
    ∃ t ∈ m.template.taskList, { t.subst (.var ∘ f) with id := h t.id } = u
  constraints : ∀ d, d ∈ copy.template.constraints ↔
    ∃ c ∈ m.template.constraints, (c.subst (.var ∘ f)).rename h = d

structure Renamed (m : Method) (f : Variable → Variable) (h : TaskId → TaskId) (scope : Nat)
    (copy : Method) : Prop extends m.Rewritten f h copy where
  within : ∀ v ∈ m.vars, (f v).scope = scope
  apart : Set.InjOn f {v | v ∈ m.vars}
  tasksApart : Set.InjOn h {id | m.template.contains id = true}
  constraintsApart :
    Set.InjOn (fun c => (c.subst (.var ∘ f)).rename h) {c | c ∈ m.template.constraints}
  variableCount : copy.vars.size = m.vars.size
  taskCount : copy.template.size = m.template.size
  constraintCount : copy.template.constraints.size = m.template.constraints.size

theorem mem_vars_of_constraint {c : Constraint} (held : c ∈ m.template.constraints)
    (inCondition : v ∈ c.varList) : v ∈ m.vars :=
  mem_vars.mpr (.inr (Network.mem_varList.mpr (.inr ⟨c, held, inCondition⟩)))

theorem exists_var_iff {vs : List Variable} :
    (∃ w ∈ vs, (Term.var ∘ f) w = .var v) ↔ ∃ w ∈ vs, f w = v := by
  simp only [Function.comp_apply, Term.var.injEq]

theorem Rewritten.mem_pattern (rewritten : m.Rewritten f h copy) :
    v ∈ copy.pattern.varList ↔ ∃ w ∈ m.pattern.varList, f w = v := by
  rw [rewritten.pattern]
  exact Task.mem_varList_subst.trans exists_var_iff

theorem Rewritten.mem_template (rewritten : m.Rewritten f h copy) :
    v ∈ copy.template.varList ↔ ∃ w ∈ m.template.varList, f w = v := by
  have task (t : Task) (id : TaskId) :
      v ∈ ({ t.subst (.var ∘ f) with id := id } : Task).varList ↔ ∃ w ∈ t.varList, f w = v :=
    Task.mem_varList_subst.trans exists_var_iff
  have constraint (c : Constraint) :
      v ∈ ((c.subst (.var ∘ f)).rename h).varList ↔ ∃ w ∈ c.varList, f w = v := by
    rw [Constraint.varList_rename]
    exact Constraint.mem_varList_subst.trans exists_var_iff
  simp only [Network.mem_varList, rewritten.tasks, rewritten.constraints]
  constructor
  · rintro (⟨-, ⟨t, member, rfl⟩, inTask⟩ | ⟨-, ⟨c, held, rfl⟩, inCondition⟩)
    · obtain ⟨w, inOwn, rfl⟩ := (task t _).mp inTask
      exact ⟨w, .inl ⟨t, member, inOwn⟩, rfl⟩
    · obtain ⟨w, inOwn, rfl⟩ := (constraint c).mp inCondition
      exact ⟨w, .inr ⟨c, held, inOwn⟩, rfl⟩
  · rintro ⟨w, ⟨t, member, inTask⟩ | ⟨c, held, inCondition⟩, rfl⟩
    · exact .inl ⟨_, ⟨t, member, rfl⟩, (task t _).mpr ⟨w, inTask, rfl⟩⟩
    · exact .inr ⟨_, ⟨c, held, rfl⟩, (constraint c).mpr ⟨w, inCondition, rfl⟩⟩

theorem Rewritten.mem_vars (rewritten : m.Rewritten f h copy) (v : Variable) :
    v ∈ copy.vars ↔ ∃ w ∈ m.vars, f w = v := by
  simp only [Method.mem_vars, rewritten.mem_pattern, rewritten.mem_template]
  constructor
  · rintro (⟨w, inPattern, rfl⟩ | ⟨w, inTemplate, rfl⟩)
    · exact ⟨w, .inl inPattern, rfl⟩
    · exact ⟨w, .inr inTemplate, rfl⟩
  · rintro ⟨w, inPattern | inTemplate, rfl⟩
    · exact .inl ⟨w, inPattern, rfl⟩
    · exact .inr ⟨w, inTemplate, rfl⟩

theorem constraintsApart (template : m.template.Valid) (apart : Set.InjOn f {v | v ∈ m.vars})
    (tasksApart : Set.InjOn h {id | m.template.contains id = true}) :
    Set.InjOn (fun c => (c.subst (.var ∘ f)).rename h) {c | c ∈ m.template.constraints} := by
  let original := Function.invFunOn f {v | v ∈ m.vars}
  let own := Function.invFunOn h {id | m.template.contains id = true}
  have inverse : Set.LeftInvOn (fun d => (d.rename own).subst (.var ∘ original))
      (fun c => (c.subst (.var ∘ f)).rename h) {c | c ∈ m.template.constraints} := by
    intro c held
    have references : (c.subst (.var ∘ f)).rename (own ∘ h) = c.subst (.var ∘ f) := by
      refine (Constraint.rename_congr fun id reference => ?_).trans (Constraint.rename_id _)
      rw [Constraint.references_subst] at reference
      exact tasksApart.leftInvOn_invFunOn (template.closed c held id reference)
    have conditions : c.subst (fun v => .var (original (f v))) = c :=
      (Constraint.subst_congr fun v inCondition => congrArg Term.var
        (apart.leftInvOn_invFunOn (mem_vars_of_constraint held inCondition))).trans c.subst_var
    dsimp only
    rw [Constraint.rename_rename, references, Constraint.subst_subst]
    exact conditions
  exact inverse.injOn

section

variable (supply : Supply)

def copyId (m : Method) (supply : Supply) : TaskId → TaskId :=
  m.template.issued ⟨supply.task + 1, supply.scope + 1⟩

theorem rewritten_standardizeApart (template : m.template.Valid) :
    m.Rewritten (·.rescoped supply.scope) (m.copyId supply) (m.standardizeApart supply).1 where
  name := rfl
  pattern := congrArg (fun t : Task => { t with id := ⟨supply.task⟩ })
    (apply_rescoping_pattern supply.scope)
  tasks u := by
    simp only [Network.mem_taskList, find?_standardizeApart]
    constructor
    · rintro ⟨-, own, t, found, rfl, rfl⟩
      refine ⟨t, ⟨own, found⟩, ?_⟩
      rw [copyId, template.keyed found]
      rfl
    · rintro ⟨t, ⟨own, found⟩, rfl⟩
      refine ⟨_, own, t, found, rfl, ?_⟩
      rw [copyId, template.keyed found]
      rfl
  constraints _ := mem_constraints_standardizeApart template

theorem copyId_injOn : Set.InjOn (m.copyId supply) {id | m.template.contains id = true} :=
  Network.issued_injOn (Supply.enough_unbounded _)

/-- A copy of a method is the method under a renaming exactly when the names of the method's
variables tell them apart. -/
theorem standardizeApart_renamed_iff (template : m.template.Valid) :
    (∃ f h, m.Renamed f h supply.scope (m.standardizeApart supply).1) ↔
      ∀ v ∈ m.vars, ∀ w ∈ m.vars, v.name = w.name → v = w := by
  have rewritten := rewritten_standardizeApart supply template
  have counts := size_eq_iff_injOn rewritten.mem_vars
  have names : Set.InjOn (·.rescoped supply.scope) {v | v ∈ m.vars} ↔
      ∀ v ∈ m.vars, ∀ w ∈ m.vars, v.name = w.name → v = w := by
    have same (v w : Variable) :
        v.rescoped supply.scope = w.rescoped supply.scope ↔ v.name = w.name := by
      simp [Variable.rescoped]
    simp only [Set.InjOn, Set.mem_ofPred_eq, same]
  constructor
  · rintro ⟨f, h, renamed⟩
    exact names.mp (counts.mp renamed.variableCount)
  · intro distinct
    have apart := names.mpr distinct
    have constraints := constraintsApart template apart (copyId_injOn supply)
    exact ⟨_, _, {
      toRewritten := rewritten
      within := fun _ _ => rfl
      apart
      tasksApart := copyId_injOn supply
      constraintsApart := constraints
      variableCount := counts.mpr apart
      taskCount := size_standardizeApart
      constraintCount := (size_eq_iff_injOn rewritten.constraints).mpr constraints }⟩

end

theorem standardizeApart_renamed_swap :
    let swap := (Juggling.swapMethod "swap-direct" "?x" "?y" ⟨1, 1⟩).1
    swap.template.Valid ∧ ∃ f h, swap.Renamed f h 1 (swap.standardizeApart ⟨4, 1⟩).1 := by
  intro swap
  have template : swap.template.Valid := Juggling.valid_template
  refine ⟨template, (standardizeApart_renamed_iff ⟨4, 1⟩ template).mpr ?_⟩
  have vars : swap.vars.toList = [⟨"x", 0⟩, ⟨"y", 0⟩] := by decide
  simp only [← Std.ExtTreeSet.mem_toList, vars]
  decide

/-- The pattern of this method has two variables of one name. They are one variable of the copy, so
the copy fits a task only when both arguments are the same. -/
def scopedSwap : Method where
  name := "swap"
  pattern := ⟨⟨3⟩, "swap", [.var ⟨"x", 0⟩, .var ⟨"x", 7⟩], false⟩
  template := .ofLists [⟨⟨1⟩, "drop", [.var ⟨"x", 0⟩], true⟩, ⟨⟨2⟩, "pickup", [.var ⟨"x", 7⟩], true⟩]
    [.precedence {⟨1⟩} {⟨2⟩}]

theorem standardizeApart_identifies :
    let goal : Task := ⟨⟨4⟩, "swap", [.const ⟨"kiwi"⟩, .const ⟨"banjo"⟩], false⟩
    let copy := (scopedSwap.standardizeApart ⟨5, 8⟩).1
    scopedSwap.template.Valid ∧ (scopedSwap.unifier goal).isOk = true ∧
      (copy.unifier goal).isOk = false ∧ ¬ ∃ f h, scopedSwap.Renamed f h 8 copy := by
  intro goal copy
  refine ⟨Network.valid_ofLists (by decide) (by decide) (by decide), by decide +kernel,
    by decide +kernel, ?_⟩
  rintro ⟨f, h, renamed⟩
  exact absurd renamed.variableCount (by decide)

end Method

end HtnPlanning
