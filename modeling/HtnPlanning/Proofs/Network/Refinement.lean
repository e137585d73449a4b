import HtnPlanning.Proofs.Network.Rewriting

namespace HtnPlanning

open Relation (TransGen)
open Constraint (StandsFor collapse)

theorem Constraint.standsFor_collapse {old id : TaskId} {new : TaskSet} (left : id ∈ new ∨ id ≠ old) :
    StandsFor old new (collapse old new id) id := by
  by_cases inside : id ∈ new
  · rw [collapse, if_pos inside]
    exact .inr ⟨rfl, inside⟩
  · rw [collapse, if_neg inside]
    exact .of_ne (left.resolve_left inside)

section Fanned

variable {held : Set Constraint} {n : Network} {old x y : TaskId} (formed : n.WellFormed)
  (apart : ∀ c ∈ held, ∀ id ∈ c.references, n.contains id = false)
include formed apart

theorem path_fanned_of_inside (acyclic : Acyclic held) (inX : x ∈ n.ids) (inY : y ∈ n.ids) :
    TransGen (Orders {d | (∃ c ∈ held, c.Fans old n.ids d) ∨ d ∈ n.constraints}) x y ↔
      TransGen (Orders n.held) x y := by
  constructor
  · intro path
    rcases path_collapse (fun _ _ => collapse_orders formed apart) path with outer | ⟨-, inner⟩
    · rw [collapse, collapse, if_pos inX, if_pos inY] at outer
      exact absurd outer (acyclic old)
    · exact inner
  · exact TransGen.mono (fun _ _ => Orders.mono fun _ => .inr) x y

theorem path_fanned_of_outside {id : TaskId} (filled : id ∈ n.ids) (outside : ¬ (x ∈ n.ids ∧ y ∈ n.ids))
    (leftX : x ∈ n.ids ∨ x ≠ old) (leftY : y ∈ n.ids ∨ y ≠ old) :
    TransGen (Orders {d | (∃ c ∈ held, c.Fans old n.ids d) ∨ d ∈ n.constraints}) x y ↔
      TransGen (Orders held) (collapse old n.ids x) (collapse old n.ids y) := by
  constructor
  · intro path
    rcases path_collapse (fun _ _ => collapse_orders formed apart) path with outer | ⟨-, inner⟩
    · exact outer
    · have ends := formed.contains_of_path inner
      exact absurd ⟨Network.mem_ids.mpr ends.1, Network.mem_ids.mpr ends.2⟩ outside
  · intro path
    exact path_standsFor filled
      (fun orders forP forQ => orders_fanned.mpr (.inl ⟨_, _, orders, forP, forQ⟩)) path
      (Constraint.standsFor_collapse leftX) (Constraint.standsFor_collapse leftY)

end Fanned

namespace Network

variable {n new result : Network} {old id : TaskId}

theorem replace_eq_ok : n.replace old new = .ok result ↔
    ∃ b, (NetworkBuilder.copy n).replace old new = (b, none) ∧ b.build = result := by
  unfold Network.replace
  rcases (NetworkBuilder.copy n).replace old new with ⟨b, _ | error⟩ <;> simp

theorem contains_replace (replaced : n.replace old new = .ok result) : result.contains id = true ↔
    n.contains id = true ∧ id ≠ old ∨ new.contains id = true := by
  obtain ⟨b, built, rfl⟩ := replace_eq_ok.mp replaced
  obtain ⟨coherent, spec⟩ := (NetworkBuilder.coherent_copy n).replace built
  have known (b : NetworkBuilder) : b.build.contains id = true ↔ id ∈ b.tasks :=
    Std.ExtTreeMap.contains_iff_mem
  rw [known, ← coherent.members, spec.members, (NetworkBuilder.coherent_copy n).members, ← known]
  rfl

theorem held_replace (replaced : n.replace old new = .ok result) :
    result.held = {d | (∃ c ∈ n.held, c.Fans old new.ids d) ∨ d ∈ new.constraints} := by
  obtain ⟨b, built, rfl⟩ := replace_eq_ok.mp replaced
  have before := NetworkBuilder.coherent_copy n
  obtain ⟨coherent, spec⟩ := before.replace built
  ext d
  rw [mem_held, NetworkBuilder.build, coherent.constraints, spec.held]
  simp only [← before.constraints]
  rfl

theorem Valid.replace_isOk (valid : n.Valid) (member : n.contains old = true) (newValid : new.Valid)
    (apart : ∀ id, new.contains id = true → n.contains id = false) :
    ∃ result, n.replace old new = .ok result := by
  have copied := NetworkBuilder.valid_copy valid
  have known (id : TaskId) : id ∈ (NetworkBuilder.copy n).validator.members ↔ n.contains id = true := by
    rw [copied.members, contains, Std.ExtTreeMap.contains_iff_mem]
    rfl
  have fresh : ∀ id ∈ (NetworkBuilder.copy n).validator.members, new.contains id = false := by
    intro id inside
    by_contra shared
    simp [apart id (by simpa using shared), known] at inside
  obtain ⟨v, replaced⟩ := Validator.replace_ok ((known old).mpr member) copied.validator.closed
    copied.validator.acyclic newValid fresh
  exact ⟨_, replace_eq_ok.mpr ⟨_, NetworkBuilder.replace_eq_ok.mpr ⟨v, replaced, rfl⟩, rfl⟩⟩

/-- When a network with tasks takes the place of a task, one of its tasks comes before or after
another task exactly when the replaced task did. Its own order and the order of all others are what
they were. -/
theorem replace_order (valid : n.Valid) (member : n.contains old = true) (newValid : new.Valid)
    (filled : new.size ≠ 0) (apart : ∀ id, new.contains id = true → n.contains id = false) :
    ∃ result, n.replace old new = .ok result ∧
      ∀ x y, result.contains x = true → result.contains y = true →
        (TransGen (Orders result.held) x y ↔
          new.contains x = true ∧ new.contains y = true ∧ TransGen (Orders new.held) x y ∨
          new.contains x = false ∧ new.contains y = false ∧ TransGen (Orders n.held) x y ∨
          new.contains x = true ∧ new.contains y = false ∧ TransGen (Orders n.held) old y ∨
          new.contains x = false ∧ new.contains y = true ∧ TransGen (Orders n.held) x old) := by
  obtain ⟨result, replaced⟩ := valid.replace_isOk member newValid apart
  refine ⟨result, replaced, fun x y inX inY => ?_⟩
  have references : ∀ c ∈ n.held, ∀ id ∈ c.references, new.contains id = false := by
    intro c held id reference
    by_contra shared
    have known := valid.closed c held id reference
    rw [apart id (by simpa using shared)] at known
    cases known
  have left {id : TaskId} (inside : result.contains id = true) : id ∈ new.ids ∨ id ≠ old := by
    rcases (contains_replace replaced).mp inside with ⟨-, other⟩ | own
    · exact .inr other
    · exact .inl (mem_ids.mpr own)
  obtain ⟨first, isFirst⟩ := exists_mem_ids filled
  have outside (apart : ¬ (x ∈ new.ids ∧ y ∈ new.ids)) :=
    path_fanned_of_outside newValid.toWellFormed references isFirst apart (left inX) (left inY)
  rw [held_replace replaced]
  cases ownX : new.contains x <;> cases ownY : new.contains y
  case true.true =>
    rw [path_fanned_of_inside newValid.toWellFormed references valid.acyclic (mem_ids.mpr ownX)
      (mem_ids.mpr ownY)]
    simp
  all_goals
    rw [outside (by simp [mem_ids, ownX, ownY])]
    simp [collapse, mem_ids, ownX, ownY]

theorem replace_order_relay :
    let go (k : Nat) := (Task.newPrimitive "go" ["home"] ⟨k, 1⟩).1
    let n := ofLists [go 1, go 2, go 3] [.precedence {⟨1⟩} {⟨2⟩}, .precedence {⟨2⟩} {⟨3⟩}]
    let new := ofLists [go 4, go 5] [.precedence {⟨4⟩} {⟨5⟩}]
    n.Valid ∧ n.contains ⟨2⟩ = true ∧ new.Valid ∧ new.size ≠ 0 ∧
      (∀ id, new.contains id = true → n.contains id = false) ∧
      ∃ result, n.replace ⟨2⟩ new = .ok result ∧ TransGen (Orders result.held) ⟨1⟩ ⟨5⟩ ∧
        ¬ TransGen (Orders result.held) ⟨5⟩ ⟨4⟩ := by
  intro go n new
  have valid : n.Valid := valid_ofLists (by decide) (by decide) (by decide)
  have newValid : new.Valid := valid_ofLists (by decide) (by decide) (by decide)
  have member : n.contains ⟨2⟩ = true := by decide
  have filled : new.size ≠ 0 := by decide
  have keys : new.tasks.keys = [⟨4⟩, ⟨5⟩] := by decide
  have apart : ∀ id, new.contains id = true → n.contains id = false := by
    intro id own
    rw [← mem_keys, keys] at own
    rcases List.mem_pair.mp own with rfl | rfl <;> decide
  obtain ⟨result, replaced, order⟩ := replace_order valid member newValid filled apart
  have known (id : TaskId) (left : n.contains id = true ∧ id ≠ ⟨2⟩ ∨ new.contains id = true) :
      result.contains id = true := (contains_replace replaced).mpr left
  refine ⟨valid, member, newValid, filled, apart, result, replaced, ?_, ?_⟩
  · have before : Orders n.held ⟨1⟩ ⟨2⟩ :=
      ⟨.precedence {⟨1⟩} {⟨2⟩}, mem_held.mpr (by decide), by decide⟩
    exact (order ⟨1⟩ ⟨5⟩ (known _ (by decide)) (known _ (by decide))).mpr
      (.inr (.inr (.inr ⟨by decide, by decide, .single before⟩)))
  · intro path
    have inside := (order ⟨5⟩ ⟨4⟩ (known _ (by decide)) (known _ (by decide))).mp path
    have own : Orders new.held ⟨4⟩ ⟨5⟩ :=
      ⟨.precedence {⟨4⟩} {⟨5⟩}, mem_held.mpr (by decide), by decide⟩
    have back : TransGen (Orders new.held) ⟨5⟩ ⟨4⟩ := by
      simpa [show new.contains ⟨4⟩ = true by decide, show new.contains ⟨5⟩ = true by decide] using inside
    exact newValid.acyclic ⟨4⟩ (.head own back)

end Network

end HtnPlanning
