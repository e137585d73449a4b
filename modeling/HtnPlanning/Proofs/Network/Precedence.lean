import HtnPlanning.Decomposition
import Mathlib.Logic.Relation
import Mathlib.Data.Set.Insert
import Mathlib.Data.List.Nodup

/-!
# The order that constraints put on tasks

The precedences of a set of constraints span a graph. A network is valid when each of its tasks is
kept under its own identity, its constraints are about its own tasks, and the graph has no cycle.
-/

namespace HtnPlanning

theorem TaskSet.mem_image {f : TaskId → TaskId} {ids : TaskSet} {id : TaskId} :
    id ∈ TaskSet.image f ids ↔ ∃ source ∈ ids, f source = id := by
  simp [TaskSet.image]

namespace Constraint

variable {c : Constraint} {id p q : TaskId}

theorem mem_references : id ∈ c.references ↔ id ∈ c.first ∨ id ∈ c.second := by
  simp [references]

theorem mentions_iff : c.mentions id = true ↔ id ∈ c.first ∨ id ∈ c.second := by
  simp [mentions]

theorem mem_edges : (p, q) ∈ c.edges ↔ c.kind = .precedence ∧ p ∈ c.first ∧ q ∈ c.second := by
  cases c <;> simp [edges, kind, first, second]

variable (s : Substitution) (f : TaskId → TaskId)

@[simp] theorem first_apply : (c.apply s).first = c.first := by
  cases c <;> rfl

@[simp] theorem second_apply : (c.apply s).second = c.second := by
  cases c <;> rfl

@[simp] theorem edges_apply : (c.apply s).edges = c.edges := by
  cases c <;> rfl

@[simp] theorem kind_rename : (c.rename f).kind = c.kind := by
  cases c <;> rfl

@[simp] theorem first_rename : (c.rename f).first = c.first.image f := by
  cases c <;> rfl

@[simp] theorem condition?_rename : (c.rename f).condition? = c.condition? := by
  cases c <;> rfl

@[simp] theorem second_rename : (c.rename f).second = c.second.image f := by
  cases c <;> rfl

theorem mem_references_rename :
    id ∈ (c.rename f).references ↔ ∃ source ∈ c.references, f source = id := by
  simp only [mem_references, first_rename, second_rename, TaskSet.mem_image]
  constructor
  · rintro (⟨source, side, rfl⟩ | ⟨source, side, rfl⟩)
    · exact ⟨source, .inl side, rfl⟩
    · exact ⟨source, .inr side, rfl⟩
  · rintro ⟨source, side | side, rfl⟩
    · exact .inl ⟨source, side, rfl⟩
    · exact .inr ⟨source, side, rfl⟩

theorem mem_edges_rename : (p, q) ∈ (c.rename f).edges ↔
    ∃ p' q', (p', q') ∈ c.edges ∧ f p' = p ∧ f q' = q := by
  simp only [mem_edges, kind_rename, first_rename, second_rename, TaskSet.mem_image]
  constructor
  · rintro ⟨kind, ⟨p', first, rfl⟩, q', second, rfl⟩
    exact ⟨p', q', ⟨kind, first, second⟩, rfl, rfl⟩
  · rintro ⟨p', q', ⟨kind, first, second⟩, rfl, rfl⟩
    exact ⟨kind, ⟨p', first, rfl⟩, q', second, rfl⟩

theorem rename_congr {f g : TaskId → TaskId} (same : ∀ id ∈ c.references, f id = g id) :
    c.rename f = c.rename g := by
  have image (side : TaskSet) (inside : ∀ id ∈ side, id ∈ c.references) :
      side.image f = side.image g := by
    rw [TaskSet.image, TaskSet.image, List.map_congr_left fun id member =>
      same id (inside id (Std.ExtTreeSet.mem_toList.mp member))]
  have first := image c.first fun id member => mem_references.mpr (.inl member)
  have second := image c.second fun id member => mem_references.mpr (.inr member)
  cases c <;> simp only [rename, Constraint.first, Constraint.second] at first second ⊢ <;>
    simp only [first, second]

theorem ext_parts {c d : Constraint} (kind : c.kind = d.kind)
    (first : ∀ id, id ∈ c.first ↔ id ∈ d.first) (second : ∀ id, id ∈ c.second ↔ id ∈ d.second)
    (condition : c.condition? = d.condition?) : c = d :=
  eq_of_parts (congrArg _ kind) (Std.ExtTreeSet.ext_mem first) (Std.ExtTreeSet.ext_mem second)
    condition

end Constraint

/-! ## Order -/

def Orders (held : Set Constraint) (p q : TaskId) : Prop :=
  ∃ c ∈ held, (p, q) ∈ c.edges

def Acyclic (held : Set Constraint) : Prop :=
  ∀ id, ¬ Relation.TransGen (Orders held) id id

theorem Orders.of_precedence {held : Set Constraint} {p q : TaskId}
    (known : .precedence {p} {q} ∈ held) : Orders held p q :=
  ⟨_, known, Constraint.mem_edges.mpr ⟨rfl, by simp [Constraint.first], by simp [Constraint.second]⟩⟩

theorem Orders.mono {held more : Set Constraint} (le : held ⊆ more) {p q : TaskId}
    (orders : Orders held p q) : Orders more p q := by
  obtain ⟨c, member, edge⟩ := orders
  exact ⟨c, le member, edge⟩

theorem orders_renamed {held renamed : Set Constraint} {f : TaskId → TaskId} {g : Constraint → Constraint}
    (edges : ∀ c, (g c).edges = c.edges) (image : ∀ d, d ∈ renamed ↔ ∃ c ∈ held, (g c).rename f = d)
    {p q : TaskId} : Orders renamed p q ↔ ∃ p' q', Orders held p' q' ∧ f p' = p ∧ f q' = q := by
  constructor
  · rintro ⟨d, member, edge⟩
    obtain ⟨c, source, rfl⟩ := (image d).mp member
    obtain ⟨p', q', edge, first, second⟩ := (Constraint.mem_edges_rename f).mp edge
    exact ⟨p', q', ⟨c, source, edges c ▸ edge⟩, first, second⟩
  · rintro ⟨p', q', ⟨c, source, edge⟩, first, second⟩
    exact ⟨_, (image _).mpr ⟨c, source, rfl⟩,
      (Constraint.mem_edges_rename f).mpr ⟨p', q', (edges c).symm ▸ edge, first, second⟩⟩

theorem Acyclic.anti {held more : Set Constraint} (acyclic : Acyclic more) (le : held ⊆ more) :
    Acyclic held :=
  fun id cycle => acyclic id (Relation.TransGen.mono (fun _ _ => Orders.mono le) _ _ cycle)

theorem acyclic_empty : Acyclic ∅ := by
  intro id cycle
  obtain ⟨q, ⟨c, member, -⟩, -⟩ := Relation.TransGen.head'_iff.mp cycle
  exact member

theorem Acyclic.of_rank {held : Set Constraint} (rank : TaskId → Nat)
    (rises : ∀ c ∈ held, ∀ edge ∈ c.edges, rank edge.1 < rank edge.2) : Acyclic held := by
  have climbs {p q : TaskId} (path : Relation.TransGen (Orders held) p q) : rank p < rank q := by
    induction path with
    | single edge =>
        obtain ⟨c, member, edge⟩ := edge
        exact rises c member _ edge
    | tail _ edge ih =>
        obtain ⟨c, member, edge⟩ := edge
        exact ih.trans (rises c member _ edge)
  exact fun id cycle => (climbs cycle).false

namespace Network

def held (n : Network) : Set Constraint :=
  {c | c ∈ n.constraints}

structure WellFormed (n : Network) : Prop where
  keyed : ∀ {id t}, n.find? id = some t → t.id = id
  closed : ∀ c ∈ n.constraints, ∀ id ∈ c.references, n.contains id = true

/-- A network is valid when it is well-formed and the order of its tasks has no cycle. -/
structure Valid (n : Network) : Prop extends n.WellFormed where
  acyclic : Acyclic n.held

variable {n : Network} {id : TaskId} {t u : Task}

@[simp] theorem empty_tasks : (∅ : Network).tasks = ∅ := rfl

@[simp] theorem empty_constraints : (∅ : Network).constraints = ∅ := rfl

@[simp] theorem mem_held {c : Constraint} : c ∈ n.held ↔ c ∈ n.constraints :=
  Iff.rfl

theorem mem_ids : id ∈ n.ids ↔ n.contains id = true := by
  simp [ids, contains]

theorem contains_iff : n.contains id = true ↔ ∃ t, n.find? id = some t := by
  rw [contains, ← Std.ExtTreeMap.isSome_getElem?_eq_contains]
  exact Option.isSome_iff_exists

theorem find?_eq_none : n.find? id = none ↔ n.contains id = false := by
  rw [contains, ← Std.ExtTreeMap.isSome_getElem?_eq_contains]
  exact (Option.isSome_eq_false_iff.trans Option.isNone_iff_eq_none).symm

theorem mem_taskList : t ∈ n.taskList ↔ ∃ id, n.find? id = some t := by
  simp [taskList, find?]

theorem length_taskList : n.taskList.length = n.size := by
  simp [taskList, size]

theorem mem_keys : id ∈ n.tasks.keys ↔ n.contains id = true := by
  rw [contains, Std.ExtTreeMap.contains_iff_mem, Std.ExtTreeMap.mem_keys]

theorem exists_mem_ids (filled : n.size ≠ 0) : ∃ id, id ∈ n.ids := by
  have keys : n.tasks.keys ≠ [] := fun none_ =>
    filled (by rw [size, ← Std.ExtTreeMap.length_keys, none_, List.length_nil])
  obtain ⟨id, member⟩ := List.exists_mem_of_ne_nil _ keys
  exact ⟨id, mem_ids.mpr (mem_keys.mp member)⟩

theorem pairwise_keys (n : Network) : n.tasks.keys.Pairwise fun p q => p.number < q.number := by
  have ordered : n.tasks.keys.Pairwise fun p q => compare p q = .lt := Std.ExtTreeMap.ordered_keys
  exact ordered.imp Nat.compare_eq_lt.mp

theorem WellFormed.map_id_taskList (formed : n.WellFormed) :
    n.taskList.map Task.id = n.tasks.keys := by
  rw [taskList, List.map_map, ← Std.ExtTreeMap.map_fst_toList_eq_keys]
  refine List.map_congr_left fun entry member => ?_
  exact formed.keyed (Std.ExtTreeMap.mem_toList_iff_getElem?_eq_some.mp member)

theorem WellFormed.nodup_taskList (formed : n.WellFormed) : n.taskList.Nodup :=
  List.Nodup.of_map Task.id (formed.map_id_taskList ▸ n.tasks.nodup_keys)

theorem WellFormed.contains_of_mem (formed : n.WellFormed) (member : t ∈ n.taskList) :
    n.contains t.id = true := by
  obtain ⟨id, found⟩ := mem_taskList.mp member
  rw [formed.keyed found]
  exact contains_iff.mpr ⟨t, found⟩

theorem WellFormed.find?_of_mem (formed : n.WellFormed) (member : t ∈ n.taskList) :
    n.find? t.id = some t := by
  obtain ⟨id, found⟩ := mem_taskList.mp member
  rwa [formed.keyed found]

theorem valid_empty : (∅ : Network).Valid where
  keyed found := by simp [find?] at found
  closed c member := by simp at member
  acyclic := acyclic_empty.anti fun c member => by simp at member

theorem WellFormed.contains_of_orders (formed : n.WellFormed) {p q : TaskId}
    (orders : Orders n.held p q) :
    n.contains p = true ∧ n.contains q = true := by
  obtain ⟨c, member, edge⟩ := orders
  obtain ⟨-, earlier, later⟩ := Constraint.mem_edges.mp edge
  exact ⟨formed.closed c member p (Constraint.mem_references.mpr (.inl earlier)),
    formed.closed c member q (Constraint.mem_references.mpr (.inr later))⟩

theorem WellFormed.contains_of_path (formed : n.WellFormed) {p q : TaskId}
    (path : Relation.TransGen (Orders n.held) p q) : n.contains p = true ∧ n.contains q = true := by
  obtain ⟨_, first, -⟩ := Relation.TransGen.head'_iff.mp path
  obtain ⟨_, -, last⟩ := Relation.TransGen.tail'_iff.mp path
  exact ⟨(formed.contains_of_orders first).1, (formed.contains_of_orders last).2⟩

/-! ## The first compound task -/

theorem mem_compoundTasks : t ∈ n.compoundTasks ↔ t ∈ n.taskList ∧ t.primitive = false := by
  simp [compoundTasks]

theorem firstCompound_eq_error {error : NoCompoundTask} :
    n.firstCompound = .error error ↔ n.isPrimitive = true := by
  have primitive : n.isPrimitive = true ↔ ∀ t, t ∉ n.compoundTasks := by
    simp only [isPrimitive, List.all_eq_true, mem_compoundTasks, not_and, Bool.not_eq_false]
  rw [firstCompound, primitive]
  cases n.compoundTasks with
  | nil => simp
  | cons first rest => simpa using ⟨first, fun other => (other rfl).elim⟩

theorem WellFormed.pairwise_taskList (formed : n.WellFormed) :
    n.taskList.Pairwise fun t u => t.id.number < u.id.number := by
  have ordered := n.pairwise_keys
  rw [← formed.map_id_taskList] at ordered
  exact List.pairwise_map (f := Task.id).mp ordered

theorem WellFormed.eq_of_id (formed : n.WellFormed) (inT : t ∈ n.taskList) (inU : u ∈ n.taskList)
    (same : t.id = u.id) : t = u :=
  Option.some.inj ((formed.find?_of_mem inT).symm.trans (same ▸ formed.find?_of_mem inU))

theorem WellFormed.firstCompound_eq_ok (formed : n.WellFormed) : n.firstCompound = .ok t ↔
    t ∈ n.taskList ∧ t.primitive = false ∧
      ∀ u ∈ n.taskList, u.primitive = false → t.id.number ≤ u.id.number := by
  rw [firstCompound]
  cases listed : n.compoundTasks with
  | nil =>
      simp only [reduceCtorEq, false_iff, not_and]
      intro member open_
      exact absurd (mem_compoundTasks.mpr ⟨member, open_⟩) (by simp [listed])
  | cons first rest =>
      have sorted : (first :: rest).Pairwise fun t u => t.id.number < u.id.number :=
        listed ▸ formed.pairwise_taskList.filter _
      have least : ∀ u ∈ n.compoundTasks, first.id.number ≤ u.id.number := by
        rw [listed, List.forall_mem_cons]
        exact ⟨Nat.le_refl _, fun u later => Nat.le_of_lt ((List.pairwise_cons.mp sorted).1 u later)⟩
      obtain ⟨inFirst, openFirst⟩ := mem_compoundTasks.mp (listed ▸ List.mem_cons_self)
      constructor
      · rintro ⟨⟩
        exact ⟨inFirst, openFirst, fun u member open_ => least u (mem_compoundTasks.mpr ⟨member, open_⟩)⟩
      · rintro ⟨member, open_, smallest⟩
        have number := Nat.le_antisymm (smallest first inFirst openFirst)
          (least t (mem_compoundTasks.mpr ⟨member, open_⟩))
        have same : t.id = first.id := congrArg TaskId.mk number
        rw [formed.eq_of_id member inFirst same]

/-! ## Networks from lists -/

theorem find?_ofLists {ts : List Task} {cs : List Constraint}
    (distinct : ts.Pairwise fun a b => a.id ≠ b.id) :
    (ofLists ts cs).find? id = some t ↔ t ∈ ts ∧ t.id = id := by
  have apart : (ts.map fun t => (t.id, t)).Pairwise fun a b => ¬ compare a.1 b.1 = .eq :=
    List.pairwise_map.mpr (distinct.imp fun different same =>
      different (Std.LawfulEqOrd.eq_of_compare same))
  rw [find?, ofLists]
  constructor
  · intro found
    by_cases listed : id ∈ ts.map Task.id
    · obtain ⟨v, member, rfl⟩ := List.mem_map.mp listed
      rw [Std.ExtTreeMap.getElem?_ofList_of_mem Std.ReflCmp.compare_self apart
        (List.mem_map_of_mem member)] at found
      obtain rfl : v = t := Option.some.inj found
      exact ⟨member, rfl⟩
    · rw [Std.ExtTreeMap.getElem?_ofList_of_contains_eq_false] at found
      · cases found
      · simpa using listed
  · rintro ⟨member, rfl⟩
    exact Std.ExtTreeMap.getElem?_ofList_of_mem Std.ReflCmp.compare_self apart
      (List.mem_map_of_mem (f := fun t => (t.id, t)) member)

theorem mem_taskList_ofLists {ts : List Task} {cs : List Constraint}
    (distinct : ts.Pairwise fun a b => a.id ≠ b.id) : t ∈ (ofLists ts cs).taskList ↔ t ∈ ts := by
  simp only [mem_taskList, find?_ofLists distinct, exists_and_left, exists_eq', and_true]

theorem mem_constraints_ofLists {ts : List Task} {cs : List Constraint} {c : Constraint} :
    c ∈ (ofLists ts cs).constraints ↔ c ∈ cs := by
  simp [ofLists]

theorem valid_ofLists {ts : List Task} {cs : List Constraint}
    (distinct : ts.Pairwise fun a b => a.id ≠ b.id)
    (known : ∀ c ∈ cs, ∀ id ∈ c.references, id ∈ ts.map Task.id)
    (rises : ∀ c ∈ cs, ∀ edge ∈ c.edges, edge.1.number < edge.2.number) : (ofLists ts cs).Valid where
  keyed found := ((find?_ofLists distinct).mp found).2
  closed c member id reference := by
    obtain ⟨t, listed, same⟩ := List.mem_map.mp (known c (mem_constraints_ofLists.mp member) id reference)
    exact contains_iff.mpr ⟨t, (find?_ofLists distinct).mpr ⟨listed, same⟩⟩
  acyclic := Acyclic.of_rank TaskId.number fun c member => rises c (mem_constraints_ofLists.mp member)

end Network

end HtnPlanning
