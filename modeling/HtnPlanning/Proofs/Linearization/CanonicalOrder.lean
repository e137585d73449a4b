import HtnPlanning.Proofs.Linearization.TaskOrder

namespace HtnPlanning.TaskOrder

open Relation (TransGen)

variable {members placed : Finset TaskId} {edges : Finset (TaskId × TaskId)} {id p q : TaskId}
  {order other rest : List TaskId}

structure Completes (members : Finset TaskId) (edges : Finset (TaskId × TaskId))
    (placed : Finset TaskId) (order : List TaskId) : Prop where
  mem : ∀ id, id ∈ order ↔ id ∈ members ∧ id ∉ placed
  nodup : order.Nodup
  respects : ∀ p q, (p, q) ∈ edges → q ∈ order → p ∈ placed ∨ [p, q].Sublist order

namespace Completes

theorem ready (completes : Completes members edges placed (id :: rest)) :
    Ready members edges placed id := by
  obtain ⟨inside, waits⟩ := (completes.mem id).mp List.mem_cons_self
  obtain ⟨fresh, -⟩ := List.nodup_cons.mp completes.nodup
  refine ⟨inside, waits, fun p edge => ?_⟩
  refine (completes.respects p id edge List.mem_cons_self).resolve_right fun before => ?_
  rcases List.cons_sublist_cons'.mp before with later | ⟨-, later⟩
  · exact fresh (later.subset (by simp))
  · exact fresh (List.singleton_sublist.mp later)

theorem tail (completes : Completes members edges placed (id :: rest)) :
    Completes members edges (insert id placed) rest where
  mem other := by
    obtain ⟨fresh, -⟩ := List.nodup_cons.mp completes.nodup
    have listed := completes.mem other
    by_cases same : other = id
    · simp [same, fresh]
    · simpa [same] using listed
  nodup := (List.nodup_cons.mp completes.nodup).2
  respects p q edge later := by
    rcases completes.respects p q edge (List.mem_cons_of_mem id later) with known | before
    · exact .inl (Finset.mem_insert_of_mem known)
    · rcases List.cons_sublist_cons'.mp before with inRest | ⟨rfl, -⟩
      · exact .inr inRest
      · exact .inl (Finset.mem_insert_self ..)

end Completes

theorem Greedy.least (greedy : Greedy members edges placed order)
    (completes : Completes members edges placed other) :
    other = order ∨ List.Lex (fun p q => p.number < q.number) order other := by
  induction greedy generalizing other with
  | @stuck placed none =>
      cases other with
      | nil => exact .inl rfl
      | cons first rest => exact absurd completes.ready (none first)
  | @next placed id rest ready least more ih =>
      cases other with
      | nil => exact absurd ((completes.mem id).mpr ⟨ready.1, ready.2.1⟩) List.not_mem_nil
      | cons first others =>
          rcases Nat.lt_or_eq_of_le (least first completes.ready) with smaller | same
          · exact .inr (.rel smaller)
          · obtain rfl : id = first := congrArg TaskId.mk same
            rcases ih completes.tail with equal | later
            · exact .inl (congrArg _ equal)
            · exact .inr (.cons later)

/-- Like `Waiting.release`, but a count of zero is not lowered. -/
def Waiting.release? (w : Waiting) (id : TaskId) : Option Waiting :=
  if w.inDegree[id]? = some 0 then none else some (w.release id)

/-- Like `place`, but gives nothing when a count of zero would have to be lowered. -/
def place? (g : Graph) : Nat → Waiting → Option (List TaskId)
  | 0, _ => some []
  | bound + 1, w =>
    match w.ready.toList with
    | [] => some []
    | id :: _ => do
      let next ← (g.after id).toList.foldlM Waiting.release? { w with ready := w.ready.erase id }
      return id :: (← place? g bound next)

def placed? (tasks : Std.ExtTreeMap TaskId Task) (constraints : List Constraint) :
    Option (List TaskId) :=
  let g := graph tasks constraints
  place? g tasks.size g.start

theorem foldlM_release? (ids : List TaskId) (w : Waiting) (distinct : ids.Nodup)
    (waits : ∀ id ∈ ids, ∃ n, w.inDegree[id]? = some (n + 1)) :
    ids.foldlM Waiting.release? w = some (ids.foldl Waiting.release w) := by
  induction ids generalizing w with
  | nil => rfl
  | cons id ids ih =>
      obtain ⟨fresh, distinct⟩ := List.nodup_cons.mp distinct
      obtain ⟨n, count⟩ := waits id List.mem_cons_self
      have lowered : w.release? id = some (w.release id) := by simp [Waiting.release?, count]
      rw [List.foldlM_cons, lowered]
      refine ih (w.release id) distinct fun id' later => ?_
      have other : id ≠ id' := fun same => fresh (same ▸ later)
      rw [(Waiting.release_spec count).1, if_neg other]
      exact waits id' (List.mem_cons_of_mem id later)

theorem Waiting.Stands.waits {w : Waiting} (stands : w.Stands members edges placed)
    (inside : q ∈ members) (unplaced : p ∉ placed) (edge : (p, q) ∈ edges) :
    ∃ n, w.inDegree[q]? = some (n + 1) := by
  have counted : (p, q) ∈ pending edges placed q := mem_pending.mpr ⟨edge, rfl, unplaced⟩
  obtain ⟨n, size⟩ := Nat.exists_eq_succ_of_ne_zero (Finset.card_ne_zero_of_mem counted)
  exact ⟨n, by rw [stands.inDegree q inside, size]⟩

theorem place?_eq {g : Graph} (reflects : g.Reflects members edges)
    (inside : ∀ p q, (p, q) ∈ edges → q ∈ members) (bound : Nat) (w : Waiting)
    (stands : w.Stands members edges placed) : place? g bound w = some (place g bound w) := by
  induction bound generalizing w placed with
  | zero => rfl
  | succ bound ih =>
      rw [place?, place]
      cases list : w.ready.toList with
      | nil => rfl
      | cons id others =>
          have ready : Ready members edges placed id := by
            rw [← stands.ready, ← Std.ExtTreeSet.mem_toList, list]
            exact List.mem_cons_self
          have counts := foldlM_release? (g.after id).toList { w with ready := w.ready.erase id }
            (Std.ExtTreeSet.distinct_toList.imp Std.ReflCmp.ne_of_cmp_ne_eq) fun q later => by
              have edge := (reflects.successors id q).mp (Std.ExtTreeSet.mem_toList.mp later)
              exact stands.waits (inside id q edge) ready.2.1 edge
          simp [counts, ih _ (stands.release reflects inside ready)]

theorem placed?_eq (tasks : Std.ExtTreeMap TaskId Task) (constraints : List Constraint) :
    placed? tasks constraints = some (TaskOrder.placed tasks constraints) :=
  have reflects := graph_reflects tasks constraints
  place?_eq reflects (fun _ _ edge => edges_inside (List.mem_toFinset.mp edge)) _ _ reflects.start

structure Arranges (tasks : List Task) (constraints : List Constraint) (ordered : List Task) :
    Prop where
  perm : ordered.Perm tasks
  respects : ∀ p q, Before tasks constraints p q → [p, q].Sublist (ordered.map Task.id)

theorem pairwise_idxOf {ids : List TaskId} (distinct : ids.Nodup) :
    ids.Pairwise fun p q => ids.idxOf p < ids.idxOf q := by
  refine List.pairwise_iff_getElem.mpr fun i j below below' less => ?_
  rwa [distinct.idxOf_getElem i below, distinct.idxOf_getElem j below']

section Listed

variable {tasks ordered : List Task} {constraints : List Constraint}
  (distinct : tasks.Pairwise fun t u => t.id ≠ u.id)
include distinct

theorem arranges_of_topological (sorted : topological tasks constraints = .ok ordered) :
    Arranges tasks constraints ordered :=
  ⟨((topological_eq_ok_iff distinct).mp sorted).2, fun _ _ => sublist_of_topological distinct sorted⟩

theorem Arranges.nodup (arranges : Arranges tasks constraints ordered) :
    (ordered.map Task.id).Nodup :=
  (arranges.perm.map Task.id).nodup_iff.mpr (List.pairwise_map.mpr distinct)

theorem Arranges.idxOf_lt (arranges : Arranges tasks constraints ordered)
    (before : Before tasks constraints p q) :
    (ordered.map Task.id).idxOf p < (ordered.map Task.id).idxOf q := by
  have places := (pairwise_idxOf (arranges.nodup distinct)).sublist (arranges.respects p q before)
  simpa using places

theorem Arranges.acyclic (arranges : Arranges tasks constraints ordered) (id : TaskId) :
    ¬ TransGen (Before tasks constraints) id id := by
  have climbs {p q : TaskId} (path : TransGen (Before tasks constraints) p q) :
      (ordered.map Task.id).idxOf p < (ordered.map Task.id).idxOf q := by
    induction path with
    | single before => exact arranges.idxOf_lt distinct before
    | tail _ before ih => exact ih.trans (arranges.idxOf_lt distinct before)
  exact fun cycle => (climbs cycle).false

theorem Arranges.completes (arranges : Arranges tasks constraints ordered) :
    Completes (byId tasks).keys.toFinset (TaskOrder.edges (byId tasks) constraints).toFinset ∅
      (ordered.map Task.id) where
  mem id := by
    rw [mem_keys_byId distinct, (arranges.perm.map Task.id).mem_iff]
    simp
  nodup := arranges.nodup distinct
  respects p q edge _ := .inr (arranges.respects p q ((mem_edges_byId distinct).mp edge))

theorem Arranges.eq_of_ids {other : List Task} (arranges : Arranges tasks constraints ordered)
    (arrangesOther : Arranges tasks constraints other)
    (same : other.map Task.id = ordered.map Task.id) : other = ordered := by
  have listed {t : Task} := arranges.perm.mem_iff (a := t)
  have listedOther {t : Task} := arrangesOther.perm.mem_iff (a := t)
  rw [← filterMap_map_id distinct (fun _ => listed.mp), ← same,
    filterMap_map_id distinct (fun _ => listedOther.mp)]

/-- Tasks can be put into an order exactly when the precedences between them close no cycle. The
order respects these precedences and is the lexicographically smallest to do so, and no task is
counted to wait for fewer than no tasks. -/
theorem topological_canonical (constraints : List Constraint) :
    ((∃ ordered, topological tasks constraints = .ok ordered) ↔
      ∀ id, ¬ TransGen (Before tasks constraints) id id) ∧
    (∀ failure, topological tasks constraints = .error failure → failure = .unorderable) ∧
    (∀ ordered, topological tasks constraints = .ok ordered →
      Arranges tasks constraints ordered ∧ ∀ other, Arranges tasks constraints other →
        other = ordered ∨
          List.Lex (fun p q => p.number < q.number) (ordered.map Task.id) (other.map Task.id)) ∧
    placed? (byId tasks) constraints = some (TaskOrder.placed (byId tasks) constraints) := by
  refine ⟨⟨?_, topological_isOk_of_acyclic distinct⟩, fun _ => topological_error, ?_,
    placed?_eq _ constraints⟩
  · intro ⟨ordered, sorted⟩
    exact (arranges_of_topological distinct sorted).acyclic distinct
  · intro ordered sorted
    have arranges := arranges_of_topological distinct sorted
    refine ⟨arranges, fun other arrangesOther => ?_⟩
    have greedy := ((topological_eq_ok_iff distinct).mp sorted).1
    rcases greedy.least (arrangesOther.completes distinct) with same | later
    · exact .inl (arranges.eq_of_ids distinct arrangesOther same)
    · exact .inr later

end Listed

-- The same precedence is there twice, and others are about tasks that are not listed.
theorem topological_canonical_foreign :
    let go (k : Nat) := (Task.newPrimitive "go" ["home"] ⟨k, 1⟩).1
    let tasks := [go 3, go 1, go 2]
    let constraints : List Constraint :=
      [.precedence {⟨3⟩} {⟨1⟩}, .precedence {⟨3⟩, ⟨10⟩} {⟨1⟩, ⟨8⟩}]
    (tasks.Pairwise fun t u => t.id ≠ u.id) ∧
      topological tasks constraints = .ok [go 2, go 3, go 1] ∧
      ∀ other, Arranges tasks constraints other → other = [go 2, go 3, go 1] ∨
        List.Lex (fun p q => p.number < q.number) [⟨2⟩, ⟨3⟩, ⟨1⟩] (other.map Task.id) := by
  intro go tasks constraints
  have distinct : tasks.Pairwise fun t u => t.id ≠ u.id := by decide
  have sorted : topological tasks constraints = .ok [go 2, go 3, go 1] := by decide +kernel
  exact ⟨distinct, sorted, ((topological_canonical distinct constraints).2.2.1 _ sorted).2⟩

end HtnPlanning.TaskOrder
