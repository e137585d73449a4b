import HtnPlanning.Proofs.Decomposition

namespace HtnPlanning

open Relation (TransGen)
open Constraint (StandsFor collapse)

variable {old p q : TaskId} {new : TaskSet}

theorem standsFor_empty {p' : TaskId} : StandsFor old ∅ p p' ↔ p' = p ∧ p ≠ old :=
  or_iff_left fun stands => Std.ExtTreeSet.not_mem_empty stands.2

namespace Network

variable {n result : Network} {s : Substitution} {t : Task} {m : Method} {supply supply' : Supply}

theorem held_decompose (done : n.decompose s t m supply = (.ok result, supply')) : result.held =
    {d | (∃ c ∈ (n.apply s).held, c.Fans t.id (subtasks m s supply).ids d) ∨
      d ∈ (subtasks m s supply).constraints} := by
  obtain ⟨-, -, -, constraints, -⟩ := decompose_sound done
  ext d
  rw [mem_held, constraints]
  refine or_congr ⟨?_, ?_⟩ Iff.rfl
  · rintro ⟨c, held, fans⟩
    exact ⟨_, mem_constraints_apply.mpr ⟨c, held, rfl⟩, fans⟩
  · rintro ⟨d, applied, fans⟩
    obtain ⟨c, held, rfl⟩ := mem_constraints_apply.mp applied
    exact ⟨c, held, fans⟩

theorem orders_decompose (done : n.decompose s t m supply = (.ok result, supply')) {p' q' : TaskId} :
    Orders result.held p' q' ↔
      (∃ p q, Orders n.held p q ∧ StandsFor t.id (m.template.issuedIds supply) p p' ∧
        StandsFor t.id (m.template.issuedIds supply) q q') ∨
      Orders (subtasks m s supply).held p' q' := by
  rw [held_decompose done, ← ids_subtasks (s := s)]
  simp only [← orders_apply (n := n) (s := s)]
  exact orders_fanned

theorem mem_issuedIds {id : TaskId} :
    id ∈ n.issuedIds supply ↔ ∃ source, n.contains source = true ∧ n.issued supply source = id := by
  simp only [issuedIds, TaskSet.mem_image, mem_ids]

theorem issuedIds_eq_empty (empty : n.size = 0) : n.issuedIds supply = ∅ := by
  refine Std.ExtTreeSet.eq_empty_iff_forall_not_mem.mpr fun id issued => ?_
  obtain ⟨source, member, -⟩ := mem_issuedIds.mp issued
  have tasks : n.tasks = ∅ := Std.ExtTreeMap.eq_empty_iff_size_eq_zero.mpr empty
  simp [contains, tasks] at member

theorem exists_issuedIds (supply : Supply) (filled : n.size ≠ 0) : ∃ id, id ∈ n.issuedIds supply := by
  obtain ⟨source, member⟩ := exists_mem_ids filled
  exact ⟨_, mem_issuedIds.mpr ⟨source, mem_ids.mp member, rfl⟩⟩

theorem contains_decompose (done : n.decompose s t m supply = (.ok result, supply')) {id : TaskId} :
    result.contains id = true ↔
      id ∈ m.template.issuedIds supply ∨ id ≠ t.id ∧ n.contains id = true := by
  obtain ⟨-, -, lookup, -⟩ := decompose_sound done
  rw [← ids_subtasks (s := s), mem_ids, contains_iff, lookup]
  cases own : (subtasks m s supply).find? id with
  | some u => simp [contains_iff, own]
  | none =>
      rw [find?_eq_none.mp own, Option.none_or]
      by_cases same : id = t.id
      · simp [same]
      · simp [same, contains_iff]

theorem orders_decompose_empty (template : m.template.Valid) (empty : m.template.size = 0)
    (done : n.decompose s t m supply = (.ok result, supply')) {p q : TaskId} :
    Orders result.held p q ↔ Orders n.held p q ∧ p ≠ t.id ∧ q ≠ t.id := by
  have own : ¬ Orders (subtasks m s supply).held p q := by
    intro orders
    have formed := ((template.apply s).reissued supply).toWellFormed
    have inside := mem_ids.mpr (formed.contains_of_orders orders).1
    rw [← subtasks, ids_subtasks, issuedIds_eq_empty empty] at inside
    exact Std.ExtTreeSet.not_mem_empty inside
  simp only [orders_decompose done, issuedIds_eq_empty empty, standsFor_empty, own, or_false]
  constructor
  · rintro ⟨_, _, orders, ⟨rfl, otherP⟩, rfl, otherQ⟩
    exact ⟨orders, otherP, otherQ⟩
  · rintro ⟨orders, otherP, otherQ⟩
    exact ⟨p, q, orders, ⟨rfl, otherP⟩, rfl, otherQ⟩

theorem Valid.path_of_decompose (valid : n.Valid) (template : m.template.Valid)
    (fresh : n.Fresh m supply) (done : n.decompose s t m supply = (.ok result, supply'))
    {x y : TaskId} (inX : n.contains x = true) (inY : n.contains y = true)
    (path : TransGen (Orders result.held) x y) : TransGen (Orders n.held) x y := by
  have issued : (subtasks m s supply).Valid := (template.apply s).reissued supply
  have apart : ∀ c ∈ (n.apply s).held, ∀ id ∈ c.references,
      (subtasks m s supply).contains id = false := by
    intro c held id reference
    have known := (valid.apply s).closed c held id reference
    rw [contains_apply] at known
    exact fresh.not_issued known
  have stays {id : TaskId} (known : n.contains id = true) :
      collapse t.id (subtasks m s supply).ids id = id := by
    rw [collapse, if_neg]
    rw [mem_ids, fresh.not_issued known]
    exact Bool.false_ne_true
  rw [held_decompose done] at path
  rcases path_collapse (fun _ _ => collapse_orders issued.toWellFormed apart) path with
    outer | ⟨same, inner⟩
  · rw [stays inX, stays inY] at outer
    exact TransGen.mono (fun _ _ => orders_apply.mp) _ _ outer
  · rw [stays inX, stays inY] at same
    exact absurd (same ▸ inner) (issued.acyclic x)

/-- A decomposition by a template with tasks keeps the order of all other tasks as it was. By an
empty template it keeps what does not lead through the task. -/
theorem decompose_order (valid : n.Valid) (template : m.template.Valid) (fresh : n.Fresh m supply)
    (member : n.contains t.id = true) : ∃ result, (n.decompose s t m supply).1 = .ok result ∧
      ∀ x y, n.contains x = true → n.contains y = true → x ≠ t.id → y ≠ t.id →
        (m.template.size ≠ 0 →
          (TransGen (Orders result.held) x y ↔ TransGen (Orders n.held) x y)) ∧
        (m.template.size = 0 → (TransGen (Orders result.held) x y ↔
          TransGen (fun p q => Orders n.held p q ∧ p ≠ t.id ∧ q ≠ t.id) x y)) := by
  obtain ⟨result, done⟩ := valid.decompose_isOk (s := s) template fresh member
  refine ⟨result, by rw [done], fun x y inX inY otherX otherY => ⟨fun filled => ⟨?_, ?_⟩, ?_⟩⟩
  · exact valid.path_of_decompose template fresh done inX inY
  · intro path
    obtain ⟨id, issued⟩ := exists_issuedIds supply filled
    exact path_standsFor issued
      (fun orders forP forQ => (orders_decompose done).mpr (.inl ⟨_, _, orders, forP, forQ⟩))
      path (.of_ne otherX) (.of_ne otherY)
  · intro empty
    have edges : Orders result.held = fun p q => Orders n.held p q ∧ p ≠ t.id ∧ q ≠ t.id := by
      funext p q
      exact propext (orders_decompose_empty template empty done)
    rw [edges]

theorem decompose_order_transport :
    let delivery := (Logistics.deliverMethod ⟨1, 1⟩).1.template
    let transport := (Task.newCompound "transport" ["?p", "?from", "?to"] ⟨2, 1⟩).1
    let byRoad := (Logistics.transportMethod "by-road" "drive" ⟨5, 1⟩).1
    delivery.Valid ∧ byRoad.template.Valid ∧ delivery.Fresh byRoad ⟨7, 1⟩ ∧
      delivery.contains transport.id = true ∧ byRoad.template.size ≠ 0 ∧
      ∃ result, (delivery.decompose ∅ transport byRoad ⟨7, 1⟩).1 = .ok result ∧
        (TransGen (Orders result.held) ⟨1⟩ ⟨3⟩ ↔ TransGen (Orders delivery.held) ⟨1⟩ ⟨3⟩) := by
  intro delivery transport byRoad
  have valid : delivery.Valid := Logistics.valid_deliver
  have template : byRoad.template.Valid := Logistics.valid_transport
  have fresh : delivery.Fresh byRoad ⟨7, 1⟩ := by
    intro k above below
    obtain rfl : k = 7 := Nat.le_antisymm (Nat.le_of_lt_succ below) above
    decide
  have member : delivery.contains transport.id = true := by decide
  have filled : byRoad.template.size ≠ 0 := by decide
  obtain ⟨result, done, order⟩ := decompose_order (s := ∅) (t := transport) valid template fresh member
  have same := (order ⟨1⟩ ⟨3⟩ (by decide) (by decide) (by decide) (by decide)).1 filled
  exact ⟨valid, template, fresh, member, filled, result, done, same⟩

/-- A parcel is picked up before it is put down only because the transport is in between. A method
that skips the transport leaves the two without an order. -/
theorem decompose_order_skip :
    let delivery := (Logistics.deliverMethod ⟨1, 1⟩).1.template
    let transport := (Task.newCompound "transport" ["?p", "?from", "?to"] ⟨2, 1⟩).1
    let skip : Method := ⟨"skip", (Task.newCompound "transport" ["?p", "?from", "?to"] ⟨5, 1⟩).1, ∅⟩
    delivery.Valid ∧ skip.template.Valid ∧ delivery.Fresh skip ⟨6, 1⟩ ∧
      delivery.contains transport.id = true ∧ (⟨1⟩ : TaskId) ≠ transport.id ∧
      (⟨3⟩ : TaskId) ≠ transport.id ∧ TransGen (Orders delivery.held) ⟨1⟩ ⟨3⟩ ∧
      ∃ result, (delivery.decompose ∅ transport skip ⟨6, 1⟩).1 = .ok result ∧
        result.contains ⟨1⟩ = true ∧ result.contains ⟨3⟩ = true ∧
        ¬ TransGen (Orders result.held) ⟨1⟩ ⟨3⟩ := by
  intro delivery transport skip
  have valid : delivery.Valid := Logistics.valid_deliver
  have fresh : delivery.Fresh skip ⟨6, 1⟩ := fun k above below => absurd below (Nat.not_lt.mpr above)
  have first : Orders delivery.held ⟨1⟩ ⟨2⟩ :=
    ⟨.precedence {⟨1⟩} {⟨2⟩}, mem_held.mpr (by decide), by decide⟩
  have second : Orders delivery.held ⟨2⟩ ⟨3⟩ :=
    ⟨.precedence {⟨2⟩} {⟨3⟩}, mem_held.mpr (by decide), by decide⟩
  refine ⟨valid, valid_empty, fresh, by decide, by decide, by decide,
    .tail (.single first) second, .ofLists (delivery.taskList.filter fun u => u.id ≠ transport.id) [],
    by decide, by decide, by decide, ?_⟩
  intro path
  obtain ⟨q, ⟨c, held, -⟩, -⟩ := TransGen.head'_iff.mp path
  exact absurd held Std.ExtTreeSet.not_mem_empty

end Network

end HtnPlanning
