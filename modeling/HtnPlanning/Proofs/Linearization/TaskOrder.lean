import HtnPlanning.Linearization.TaskOrder
import HtnPlanning.Proofs.Network.Precedence
import Mathlib.Data.Finset.Card
import Mathlib.Data.Finset.Filter
import Mathlib.Data.List.NodupEquivFin
import Mathlib.Data.Set.Finite.Basic
import Mathlib.Order.WellFounded
import Mathlib.Tactic.Tauto

namespace HtnPlanning

theorem TaskId.compare_eq_lt {a b : TaskId} : compare a b = .lt ↔ a.number < b.number :=
  Nat.compare_eq_lt

theorem lt_of_pair_sublist {α : Type} {l : List α} {x y : α} {i j : Nat} (nodup : l.Nodup)
    (pair : [x, y].Sublist l) (atX : l[i]? = some x) (atY : l[j]? = some y) : i < j := by
  obtain ⟨f, places⟩ := List.sublist_iff_exists_orderEmbedding_getElem?_eq.mp pair
  have inside {k : Nat} {z : α} (at_ : l[k]? = some z) : k < l.length :=
    (List.getElem?_eq_some_iff.mp at_).1
  have first : i = f 0 := (List.getElem?_inj (inside atX) nodup).mp (atX.trans (places 0))
  have second : j = f 1 := (List.getElem?_inj (inside atY) nodup).mp (atY.trans (places 1))
  rw [first, second]
  exact f.strictMono Nat.zero_lt_one

namespace TaskOrder

variable {members placed : Finset TaskId} {edges : Finset (TaskId × TaskId)} {id p q : TaskId}
  {order order' : List TaskId}

def Ready (members : Finset TaskId) (edges : Finset (TaskId × TaskId)) (placed : Finset TaskId)
    (id : TaskId) : Prop :=
  id ∈ members ∧ id ∉ placed ∧ ∀ p, (p, id) ∈ edges → p ∈ placed

inductive Greedy (members : Finset TaskId) (edges : Finset (TaskId × TaskId)) :
    Finset TaskId → List TaskId → Prop where
  | stuck {placed : Finset TaskId} (none : ∀ id, ¬ Ready members edges placed id) :
      Greedy members edges placed []
  | next {placed : Finset TaskId} {id : TaskId} {rest : List TaskId}
      (ready : Ready members edges placed id)
      (least : ∀ other, Ready members edges placed other → id.number ≤ other.number)
      (more : Greedy members edges (insert id placed) rest) :
      Greedy members edges placed (id :: rest)

namespace Greedy

theorem unique (first : Greedy members edges placed order)
    (second : Greedy members edges placed order') : order = order' := by
  induction first generalizing order' with
  | stuck none =>
      cases second with
      | stuck => rfl
      | next ready => exact absurd ready (none _)
  | @next placed id rest ready least more ih =>
      cases second with
      | stuck none => exact absurd ready (none _)
      | @next _ id' rest' ready' least' more' =>
          have same : id = id' := by
            have number := Nat.le_antisymm (least id' ready') (least' id ready)
            cases id
            cases id'
            exact congrArg _ number
          subst same
          rw [ih more']

theorem mem (greedy : Greedy members edges placed order) (member : id ∈ order) :
    id ∈ members ∧ id ∉ placed := by
  induction greedy with
  | stuck => cases member
  | next ready _ _ ih =>
      rcases List.mem_cons.mp member with rfl | later
      · exact ⟨ready.1, ready.2.1⟩
      · obtain ⟨inside, fresh⟩ := ih later
        exact ⟨inside, fun old => fresh (Finset.mem_insert_of_mem old)⟩

theorem nodup (greedy : Greedy members edges placed order) : order.Nodup := by
  induction greedy with
  | stuck => exact List.nodup_nil
  | next _ _ more ih =>
      exact List.nodup_cons.mpr ⟨fun again => (more.mem again).2 (Finset.mem_insert_self ..), ih⟩

theorem sublist (greedy : Greedy members edges placed order) (member : q ∈ order)
    (edge : (p, q) ∈ edges) : p ∈ placed ∨ [p, q].Sublist order := by
  induction greedy with
  | stuck => cases member
  | @next placed id rest ready _ more ih =>
      rcases List.mem_cons.mp member with rfl | later
      · exact .inl (ready.2.2 p edge)
      · rcases ih later with known | inRest
        · rcases Finset.mem_insert.mp known with rfl | old
          · exact .inr (List.Sublist.cons_cons p (List.singleton_sublist.mpr later))
          · exact .inl old
        · exact .inr (inRest.cons id)

end Greedy

theorem exists_ready (acyclic : ∀ p, ¬ Relation.TransGen (fun p q => (p, q) ∈ edges) p p)
    (inside : ∀ p q, (p, q) ∈ edges → p ∈ members) (member : id ∈ members) (waits : id ∉ placed) :
    ∃ first, Ready members edges placed first := by
  let before (p q : members) : Prop := Relation.TransGen (fun p q => (p, q) ∈ edges) p.1 q.1
  have : IsTrans members before := ⟨fun _ _ _ first second => first.trans second⟩
  have : Std.Irrefl before := ⟨fun p => acyclic p.1⟩
  obtain ⟨⟨first, inFirst⟩, unplaced, least⟩ :=
    (Finite.wellFounded_of_trans_of_irrefl before).has_min {p | p.1 ∉ placed} ⟨⟨id, member⟩, waits⟩
  refine ⟨first, inFirst, unplaced, fun p edge => ?_⟩
  by_contra open_
  exact least ⟨p, inside p first edge⟩ open_ (.single edge)

theorem Greedy.all (greedy : Greedy members edges placed order)
    (acyclic : ∀ p, ¬ Relation.TransGen (fun p q => (p, q) ∈ edges) p p)
    (inside : ∀ p q, (p, q) ∈ edges → p ∈ members) (member : id ∈ members) :
    id ∈ placed ∨ id ∈ order := by
  induction greedy with
  | stuck none =>
      by_contra neither
      obtain ⟨first, ready⟩ := exists_ready acyclic inside member (not_or.mp neither).1
      exact none first ready
  | next _ _ _ ih =>
      rcases ih with known | later
      · exact (Finset.mem_insert.mp known).elim (fun same => .inr (same ▸ List.mem_cons_self)) .inl
      · exact .inr (List.mem_cons_of_mem _ later)

/-! ## The graph -/

structure Graph.Reflects (g : Graph) (members : Finset TaskId) (edges : Finset (TaskId × TaskId)) :
    Prop where
  successors : ∀ p q, q ∈ g.after p ↔ (p, q) ∈ edges
  inDegree : ∀ q, g.inDegree[q]? =
    if q ∈ members then some (edges.filter fun edge => edge.2 = q).card else none

theorem Graph.Reflects.addEdge {g : Graph} (reflects : g.Reflects members edges)
    (member : q ∈ members) : (g.addEdge (p, q)).Reflects members (insert (p, q) edges) := by
  by_cases known : q ∈ g.after p
  · have present : (p, q) ∈ edges := (reflects.successors p q).mp known
    rw [Finset.insert_eq_of_mem present, Graph.addEdge]
    simpa only [if_pos known] using reflects
  · have absent : (p, q) ∉ edges := fun present => known ((reflects.successors p q).mpr present)
    simp only [Graph.addEdge, if_neg known]
    constructor
    · intro p' q'
      simp only [Graph.after, Std.ExtTreeMap.getElem?_insert, Finset.mem_insert, Prod.mk.injEq,
        ← reflects.successors]
      by_cases same : p = p'
      · simp only [same, Std.LawfulEqOrd.compare_eq_iff_eq, if_true, Option.getD_some,
          Std.ExtTreeSet.mem_insert, true_and, eq_comm (a := q')]
      · simp [same, Ne.symm same]
    · intro q'
      rw [Std.ExtTreeMap.getElem?_insert, reflects.inDegree, reflects.inDegree, if_pos member,
        Finset.filter_insert]
      by_cases same : q = q'
      · subst same
        simp [member, absent]
      · simp [same]

theorem edges_inside {tasks : Std.ExtTreeMap TaskId Task} {constraints : List Constraint}
    {edge : TaskId × TaskId} (member : edge ∈ TaskOrder.edges tasks constraints) :
    edge.2 ∈ tasks.keys.toFinset := by
  have known := (List.mem_filter.mp member).2
  rw [List.mem_toFinset, Std.ExtTreeMap.mem_keys, ← Std.ExtTreeMap.contains_iff_mem]
  exact (Bool.and_eq_true_iff.mp known).2

theorem graph_reflects (tasks : Std.ExtTreeMap TaskId Task) (constraints : List Constraint) :
    (graph tasks constraints).Reflects tasks.keys.toFinset (TaskOrder.edges tasks constraints).toFinset := by
  have start : Graph.Reflects { successors := ∅, inDegree := tasks.map fun _ _ => 0 }
      tasks.keys.toFinset ∅ := by
    constructor
    · intro p q
      simp [Graph.after]
    · intro q
      simp only [Std.ExtTreeMap.getElem?_map, List.mem_toFinset, Std.ExtTreeMap.mem_keys]
      by_cases present : q ∈ tasks
      · simp [present]
      · simp [present]
  have adds (es : List (TaskId × TaskId)) (g : Graph) (seen : Finset (TaskId × TaskId))
      (inside : ∀ edge ∈ es, edge.2 ∈ tasks.keys.toFinset)
      (reflects : g.Reflects tasks.keys.toFinset seen) :
      (es.foldl Graph.addEdge g).Reflects tasks.keys.toFinset (es.toFinset ∪ seen) := by
    induction es generalizing g seen with
    | nil => simpa using reflects
    | cons edge es ih =>
        obtain ⟨p, q⟩ := edge
        have added := ih _ _ (fun edge later => inside edge (List.mem_cons_of_mem _ later))
          (reflects.addEdge (p := p) (inside (p, q) List.mem_cons_self))
        rwa [Finset.union_insert, ← Finset.insert_union, ← List.toFinset_cons] at added
  have built := adds (TaskOrder.edges tasks constraints) _ ∅ (fun _ => edges_inside) start
  rwa [Finset.union_empty] at built

/-! ## Placing tasks -/

def pending (edges : Finset (TaskId × TaskId)) (placed : Finset TaskId) (q : TaskId) :
    Finset (TaskId × TaskId) :=
  edges.filter fun edge => edge.2 = q ∧ edge.1 ∉ placed

theorem mem_pending {edge : TaskId × TaskId} :
    edge ∈ pending edges placed q ↔ edge ∈ edges ∧ edge.2 = q ∧ edge.1 ∉ placed := by
  rw [pending, Finset.mem_filter]

theorem pending_insert : pending edges (insert id placed) q = (pending edges placed q).erase (id, q) := by
  ext ⟨p, q'⟩
  simp only [mem_pending, Finset.mem_erase, Finset.mem_insert, not_or, ne_eq, Prod.mk.injEq, not_and]
  constructor
  · rintro ⟨edge, rfl, other, waits⟩
    exact ⟨fun same => absurd same other, edge, rfl, waits⟩
  · rintro ⟨other, edge, rfl, waits⟩
    exact ⟨edge, rfl, fun same => other same rfl, waits⟩

theorem ready_iff_pending :
    Ready members edges placed q ↔ q ∈ members ∧ q ∉ placed ∧ (pending edges placed q).card = 0 := by
  simp only [Ready, Finset.card_eq_zero, Finset.eq_empty_iff_forall_notMem, mem_pending, Prod.forall]
  refine and_congr_right fun _ => and_congr_right fun _ => ⟨?_, ?_⟩
  · rintro before p q' ⟨edge, rfl, waits⟩
    exact waits (before p edge)
  · intro none p edge
    by_contra waits
    exact none p q ⟨edge, rfl, waits⟩

structure Waiting.Stands (w : Waiting) (members : Finset TaskId) (edges : Finset (TaskId × TaskId))
    (placed : Finset TaskId) : Prop where
  ready : ∀ id, id ∈ w.ready ↔ Ready members edges placed id
  inDegree : ∀ q ∈ members, w.inDegree[q]? = some (pending edges placed q).card
  closed : ∀ p q, (p, q) ∈ edges → q ∈ placed → p ∈ placed

theorem Waiting.release_spec {w : Waiting} {n : Nat} (found : w.inDegree[id]? = some n) :
    (∀ q, (w.release id).inDegree[q]? = if id = q then some (n - 1) else w.inDegree[q]?) ∧
    (∀ q, q ∈ (w.release id).ready ↔ q ∈ w.ready ∨ q = id ∧ n - 1 = 0) := by
  simp only [release, found, Std.ExtTreeMap.getElem?_insert, Std.LawfulEqOrd.compare_eq_iff_eq,
    implies_true, true_and]
  intro q
  split
  next last =>
    simp only [Std.ExtTreeSet.mem_insert, Std.LawfulEqOrd.compare_eq_iff_eq, last, and_true,
      eq_comm (a := q), or_comm]
  next more => simp [more]

theorem foldl_release (ids : List TaskId) (w : Waiting) (distinct : ids.Nodup)
    (known : ∀ id ∈ ids, ∃ n, w.inDegree[id]? = some n) :
    (∀ q, (ids.foldl Waiting.release w).inDegree[q]? =
      if q ∈ ids then w.inDegree[q]?.map (· - 1) else w.inDegree[q]?) ∧
    (∀ q, q ∈ (ids.foldl Waiting.release w).ready ↔
      q ∈ w.ready ∨ q ∈ ids ∧ ∃ n, w.inDegree[q]? = some n ∧ n - 1 = 0) := by
  induction ids generalizing w with
  | nil => simp
  | cons id ids ih =>
      obtain ⟨n, found⟩ := known id List.mem_cons_self
      obtain ⟨fresh, distinct⟩ := List.nodup_cons.mp distinct
      obtain ⟨degree, ready⟩ := Waiting.release_spec found
      have others : ∀ id' ∈ ids, ∃ n, (w.release id).inDegree[id']? = some n := by
        intro id' later
        have different : id ≠ id' := fun same => fresh (same ▸ later)
        rw [degree, if_neg different]
        exact known id' (List.mem_cons_of_mem _ later)
      obtain ⟨restDegree, restReady⟩ := ih (w.release id) distinct others
      constructor
      · intro q
        rw [List.foldl_cons, restDegree, degree]
        by_cases same : id = q
        · subst same
          simp [fresh, found]
        · simp [same, Ne.symm same]
      · intro q
        rw [List.foldl_cons, restReady, ready, degree]
        by_cases same : id = q
        · subst same
          simp [fresh, found]
        · simp [same, Ne.symm same]

theorem Waiting.Stands.release {g : Graph} {w : Waiting} (reflects : g.Reflects members edges)
    (inside : ∀ p q, (p, q) ∈ edges → q ∈ members)
    (stands : w.Stands members edges placed) (ready : Ready members edges placed id) :
    ((g.after id).toList.foldl Waiting.release { w with ready := w.ready.erase id }).Stands members
      edges (insert id placed) := by
  have later (q : TaskId) : q ∈ (g.after id).toList ↔ (id, q) ∈ edges := by
    rw [Std.ExtTreeSet.mem_toList, reflects.successors]
  have after (q : TaskId) : (pending edges (insert id placed) q).card =
      if (id, q) ∈ edges then (pending edges placed q).card - 1 else (pending edges placed q).card := by
    rw [pending_insert]
    split
    next edge => exact Finset.card_erase_of_mem (mem_pending.mpr ⟨edge, rfl, ready.2.1⟩)
    next none => rw [Finset.erase_eq_of_notMem fun waits => none (mem_pending.mp waits).1]
  obtain ⟨degree, becomes⟩ := foldl_release (g.after id).toList
    { w with ready := w.ready.erase id }
    (Std.ExtTreeSet.distinct_toList.imp Std.ReflCmp.ne_of_cmp_ne_eq) fun q edge =>
      ⟨_, stands.inDegree q (inside id q ((later q).mp edge))⟩
  constructor
  · intro q
    rw [becomes, later, ready_iff_pending, after, Std.ExtTreeSet.mem_erase, stands.ready]
    by_cases edge : (id, q) ∈ edges
    · have member := inside id q edge
      have waits : ¬ Ready members edges placed q := fun old => ready.2.1 (old.2.2 id edge)
      have outside : q ∉ insert id placed := fun known => by
        rcases Finset.mem_insert.mp known with rfl | old
        · exact waits ready
        · exact ready.2.1 (stands.closed id q edge old)
      simp [edge, waits, member, outside, stands.inDegree q member]
    · rw [ready_iff_pending]
      simp only [edge, false_and, or_false, if_false, Finset.mem_insert, not_or, ne_eq,
        Std.LawfulEqOrd.compare_eq_iff_eq, eq_comm (a := id)]
      tauto
  · intro q member
    rw [degree, stands.inDegree q member, after]
    simp only [later, Option.map_some]
    split <;> rfl
  · intro p q edge known
    rcases Finset.mem_insert.mp known with rfl | old
    · exact Finset.mem_insert_of_mem (ready.2.2 p edge)
    · exact Finset.mem_insert_of_mem (stands.closed p q edge old)

theorem place_greedy {g : Graph} (reflects : g.Reflects members edges)
    (inside : ∀ p q, (p, q) ∈ edges → q ∈ members) (bound : Nat) (w : Waiting)
    (stands : w.Stands members edges placed) (enough : (members \ placed).card ≤ bound) :
    Greedy members edges placed (place g bound w) := by
  induction bound generalizing w placed with
  | zero =>
      refine .stuck fun id ready => ?_
      have none := Finset.card_eq_zero.mp (Nat.le_zero.mp enough)
      exact Finset.notMem_empty id (none ▸ Finset.mem_sdiff.mpr ⟨ready.1, ready.2.1⟩)
  | succ bound ih =>
      rw [place]
      cases list : w.ready.toList with
      | nil =>
          refine .stuck fun id ready => ?_
          have member := Std.ExtTreeSet.mem_toList.mpr ((stands.ready id).mpr ready)
          rw [list] at member
          cases member
      | cons id others =>
          have inReady {other : TaskId} : other ∈ id :: others ↔ Ready members edges placed other := by
            rw [← list, Std.ExtTreeSet.mem_toList, stands.ready]
          have ready := inReady.mp List.mem_cons_self
          refine .next ready (fun other otherReady => ?_) ?_
          · have sorted := w.ready.ordered_toList
            rw [list, List.pairwise_cons] at sorted
            rcases List.mem_cons.mp (inReady.mpr otherReady) with rfl | later
            · exact Nat.le_refl _
            · exact Nat.le_of_lt (TaskId.compare_eq_lt.mp (sorted.1 other later))
          · refine ih _ (stands.release reflects inside ready) ?_
            rw [Finset.sdiff_insert, Finset.card_erase_of_mem (Finset.mem_sdiff.mpr ⟨ready.1, ready.2.1⟩)]
            omega

def Graph.start (g : Graph) : Waiting where
  ready := .ofList (g.inDegree.filter fun _ n => n = 0).keys compare
  inDegree := g.inDegree

theorem Graph.Reflects.start {g : Graph} (reflects : g.Reflects members edges) :
    g.start.Stands members edges ∅ where
  ready id := by
    rw [Graph.start, ready_iff_pending, Std.ExtTreeSet.mem_ofList, List.contains_iff_mem,
      Std.ExtTreeMap.mem_keys, Std.ExtTreeMap.mem_iff_isSome_getElem?, Std.ExtTreeMap.getElem?_filter',
      reflects.inDegree]
    by_cases member : id ∈ members
    · rw [if_pos member]
      simp only [Option.isSome_filter, Option.any_some, decide_eq_true_eq, pending, Finset.notMem_empty,
        not_false_eq_true, and_true, true_and, member]
    · rw [if_neg member, Option.filter_none]
      simp only [Option.isSome_none, member, false_and, Bool.false_eq_true]
  inDegree q member := by
    simp only [Graph.start, reflects.inDegree, if_pos member, pending, Finset.notMem_empty,
      not_false_eq_true, and_true]
  closed p q _ known := absurd known (Finset.notMem_empty q)

theorem placed_greedy (tasks : Std.ExtTreeMap TaskId Task) (constraints : List Constraint) :
    Greedy tasks.keys.toFinset (TaskOrder.edges tasks constraints).toFinset ∅
      (TaskOrder.placed tasks constraints) := by
  have reflects := graph_reflects tasks constraints
  refine place_greedy reflects (fun p q edge => edges_inside (List.mem_toFinset.mp edge)) _ _
    reflects.start ?_
  rw [Finset.sdiff_empty, List.toFinset_card_of_nodup Std.ExtTreeMap.nodup_keys,
    Std.ExtTreeMap.length_keys]

theorem placed_inside (tasks : Std.ExtTreeMap TaskId Task) (constraints : List Constraint) :
    ∀ id ∈ TaskOrder.placed tasks constraints, id ∈ tasks :=
  fun _ member => Std.ExtTreeMap.mem_keys.mp
    (List.mem_toFinset.mp ((placed_greedy tasks constraints).mem member).1)

/-! ## The order of listed tasks -/

def Before (tasks : List Task) (constraints : List Constraint) (p q : TaskId) : Prop :=
  Orders {c | c ∈ constraints} p q ∧ p ∈ tasks.map Task.id ∧ q ∈ tasks.map Task.id

theorem mem_edges {tasks : Std.ExtTreeMap TaskId Task} {constraints : List Constraint} :
    (p, q) ∈ TaskOrder.edges tasks constraints ↔
      (∃ c ∈ constraints, (p, q) ∈ c.edges) ∧ p ∈ tasks ∧ q ∈ tasks := by
  simp [TaskOrder.edges]

theorem topological_error {tasks : List Task} {constraints : List Constraint} {failure : SearchFailure}
    (failed : topological tasks constraints = .error failure) : failure = .unorderable := by
  simp only [topological] at failed
  split at failed <;> cases failed
  rfl

section Listed

variable {tasks ordered : List Task} {constraints : List Constraint}
  (distinct : tasks.Pairwise fun t u => t.id ≠ u.id)
include distinct

theorem getElem?_byId {t : Task} : (byId tasks)[id]? = some t ↔ t ∈ tasks ∧ t.id = id :=
  @Network.find?_ofLists id t tasks [] distinct

theorem mem_byId : id ∈ byId tasks ↔ id ∈ tasks.map Task.id := by
  rw [Std.ExtTreeMap.mem_iff_isSome_getElem?, Option.isSome_iff_exists, List.mem_map]
  simp only [getElem?_byId distinct]

theorem mem_edges_byId :
    (p, q) ∈ (TaskOrder.edges (byId tasks) constraints).toFinset ↔ Before tasks constraints p q := by
  rw [List.mem_toFinset, mem_edges, mem_byId distinct, mem_byId distinct]
  rfl

theorem mem_keys_byId : id ∈ (byId tasks).keys.toFinset ↔ id ∈ tasks.map Task.id := by
  rw [List.mem_toFinset, Std.ExtTreeMap.mem_keys, mem_byId distinct]

theorem size_byId : (byId tasks).size = tasks.length := by
  have perm : (byId tasks).keys.Perm (tasks.map Task.id) :=
    (List.perm_ext_iff_of_nodup Std.ExtTreeMap.nodup_keys (List.pairwise_map.mpr distinct)).mpr
      fun id => by rw [Std.ExtTreeMap.mem_keys, mem_byId distinct]
  rw [← Std.ExtTreeMap.length_keys, perm.length_eq, List.length_map]

theorem map_id_filterMap {ids : List TaskId} (inside : ∀ id ∈ ids, id ∈ byId tasks) :
    (ids.filterMap fun id => (byId tasks)[id]?).map Task.id = ids := by
  induction ids with
  | nil => rfl
  | cons id ids ih =>
      obtain ⟨t, found⟩ := Option.isSome_iff_exists.mp
        (Std.ExtTreeMap.mem_iff_isSome_getElem?.mp (inside id List.mem_cons_self))
      rw [List.filterMap_cons, found, List.map_cons, ((getElem?_byId distinct).mp found).2,
        ih fun id later => inside id (List.mem_cons_of_mem _ later)]

theorem filterMap_map_id (listed : ∀ t ∈ ordered, t ∈ tasks) :
    (ordered.map Task.id).filterMap (fun id => (byId tasks)[id]?) = ordered := by
  rw [List.filterMap_map]
  exact (List.filterMap_congr fun t member =>
    (getElem?_byId distinct).mpr ⟨listed t member, rfl⟩).trans List.filterMap_some

theorem topological_eq_ok_iff : topological tasks constraints = .ok ordered ↔
    Greedy (byId tasks).keys.toFinset (TaskOrder.edges (byId tasks) constraints).toFinset ∅
      (ordered.map Task.id) ∧ ordered.Perm tasks := by
  have greedy := placed_greedy (byId tasks) constraints
  have ids := map_id_filterMap distinct (placed_inside _ constraints)
  simp only [topological, size_byId distinct]
  generalize TaskOrder.placed (byId tasks) constraints = order at greedy ids
  constructor
  · intro result
    split at result
    next all =>
      obtain rfl := Except.ok.inj result
      refine ⟨ids.symm ▸ greedy, ?_⟩
      refine (List.subperm_of_subset (List.Nodup.of_map Task.id (ids.symm ▸ greedy.nodup))
        fun t member => ?_).perm_of_length_le (Nat.le_of_eq all.symm)
      obtain ⟨id, -, found⟩ := List.mem_filterMap.mp member
      exact ((getElem?_byId distinct).mp found).1
    next => cases result
  · rintro ⟨again, perm⟩
    obtain rfl := greedy.unique again
    rw [filterMap_map_id distinct fun t member => perm.mem_iff.mp member]
    exact if_pos perm.length_eq

theorem topological_isOk_of_length
    (all : (TaskOrder.placed (byId tasks) constraints).length = tasks.length) :
    ∃ ordered, topological tasks constraints = .ok ordered := by
  have length := congrArg List.length (map_id_filterMap distinct (placed_inside _ constraints))
  rw [List.length_map, all, ← size_byId distinct] at length
  exact ⟨_, if_pos length⟩

theorem topological_isOk_of_acyclic
    (acyclic : ∀ id, ¬ Relation.TransGen (Before tasks constraints) id id) :
    ∃ ordered, topological tasks constraints = .ok ordered := by
  have greedy := placed_greedy (byId tasks) constraints
  have all : (TaskOrder.placed (byId tasks) constraints).Perm (byId tasks).keys := by
    refine (List.perm_ext_iff_of_nodup greedy.nodup (byId tasks).nodup_keys).mpr fun id =>
      ⟨fun member => Std.ExtTreeMap.mem_keys.mpr (placed_inside _ _ id member), fun key => ?_⟩
    have cycle (id : TaskId) : ¬ Relation.TransGen (fun p q =>
        (p, q) ∈ (TaskOrder.edges (byId tasks) constraints).toFinset) id id := by
      simp only [mem_edges_byId distinct]
      exact acyclic id
    refine (greedy.all cycle (fun p q edge => ?_) (List.mem_toFinset.mpr key)).resolve_left
      (Finset.notMem_empty id)
    exact (mem_keys_byId distinct).mpr ((mem_edges_byId distinct).mp edge).2.1
  refine topological_isOk_of_length distinct ?_
  rw [all.length_eq, Std.ExtTreeMap.length_keys, size_byId distinct]

theorem sublist_of_topological (sorted : topological tasks constraints = .ok ordered)
    (before : Before tasks constraints p q) : [p, q].Sublist (ordered.map Task.id) := by
  obtain ⟨greedy, perm⟩ := (topological_eq_ok_iff distinct).mp sorted
  have placedQ : q ∈ ordered.map Task.id := (perm.map Task.id).mem_iff.mpr before.2.2
  exact (greedy.sublist placedQ ((mem_edges_byId distinct).mpr before)).resolve_left
    (Finset.notMem_empty p)

end Listed

/-! ## The order of a network's tasks -/

theorem distinct_taskList {n : Network} (formed : n.WellFormed) :
    n.taskList.Pairwise fun t u => t.id ≠ u.id := by
  rw [← List.pairwise_map, formed.map_id_taskList]
  exact n.tasks.nodup_keys

theorem distinct_of_perm {n : Network} {ordered : List Task} (formed : n.WellFormed)
    (perm : ordered.Perm n.taskList) : ordered.Pairwise fun t u => t.id ≠ u.id :=
  perm.symm.pairwise (distinct_taskList formed) Ne.symm

theorem byId_taskList {n : Network} (formed : n.WellFormed) : byId n.taskList = n.tasks := by
  refine Std.ExtTreeMap.ext_getElem? fun {id} => Option.ext fun t => ?_
  refine (getElem?_byId (distinct_taskList formed)).trans ⟨?_, fun found => ?_⟩
  · rintro ⟨member, rfl⟩
    exact formed.find?_of_mem member
  · exact ⟨Network.mem_taskList.mpr ⟨id, found⟩, formed.keyed found⟩

theorem before_taskList {n : Network} (formed : n.WellFormed) :
    Before n.taskList n.constraints.toList p q ↔ Orders n.held p q := by
  have listed (id : TaskId) : id ∈ n.taskList.map Task.id ↔ n.contains id = true := by
    rw [formed.map_id_taskList, Network.mem_keys]
  simp only [Before, listed, Std.ExtTreeSet.mem_toList]
  exact and_iff_left_of_imp formed.contains_of_orders

theorem topological_eq_ok {n : Network} (formed : n.WellFormed) {ordered : List Task} :
    topological n.taskList n.constraints.toList = .ok ordered ↔
      Greedy n.tasks.keys.toFinset (TaskOrder.edges n.tasks n.constraints.toList).toFinset ∅
        (ordered.map Task.id) ∧ ordered.Perm n.taskList := by
  rw [topological_eq_ok_iff (distinct_taskList formed), byId_taskList formed]

theorem topological_isOk {n : Network} (valid : n.Valid) :
    ∃ ordered, topological n.taskList n.constraints.toList = .ok ordered :=
  topological_isOk_of_acyclic (distinct_taskList valid.toWellFormed) fun id cycle =>
    valid.acyclic id (Relation.TransGen.mono
      (fun _ _ => (before_taskList valid.toWellFormed).mp) _ _ cycle)

theorem pairwise_of_topological {n : Network} (formed : n.WellFormed) {ordered : List Task}
    (sorted : topological n.taskList n.constraints.toList = .ok ordered) :
    ordered.Pairwise fun t u => t.id ≠ u.id :=
  List.pairwise_map.mp ((topological_eq_ok formed).mp sorted).1.nodup

theorem topological_respects {n : Network} (formed : n.WellFormed) {ordered : List Task}
    (sorted : topological n.taskList n.constraints.toList = .ok ordered)
    (orders : Orders n.held p q) : [p, q].Sublist (ordered.map Task.id) :=
  sublist_of_topological (distinct_taskList formed) sorted ((before_taskList formed).mpr orders)

end TaskOrder

end HtnPlanning
