import HtnPlanning.Proofs.Workspace

namespace HtnPlanning

open Relation (ReflTransGen TransGen)
open Constraint (StandsFor)

namespace Validator

variable {v : Validator} {old p q : TaskId} {n : Network}

/-- The order of tasks after a replacement: that of the network, and the old one with the tasks of
the network in the place of the replaced task. -/
def OrdersReplaced (v : Validator) (old : TaskId) (n : Network) (p' q' : TaskId) : Prop :=
  (∃ p q, Orders v.held p q ∧ StandsFor old n.ids p p' ∧ StandsFor old n.ids q q') ∨
    Orders n.held p' q'

structure Replaces (v : Validator) (old : TaskId) (n : Network)
    (result : Validator × Option ReplacementError) : Prop where
  succeeds : result.2 = none ↔ ∀ id, ¬ TransGen (v.OrdersReplaced old n) id id
  members : result.2 = none → ∀ id, id ∈ result.1.members ↔
    id ∈ v.members ∧ id ≠ old ∨ n.contains id = true
  constraints : result.2 = none → ∀ d, d ∈ result.1.constraints ↔
    (∃ c ∈ v.constraints, c.Fans old n.ids d) ∨ d ∈ n.constraints
  unchanged : result.2 ≠ none → result.1 = v
  cycle : ∀ error, result.2 = some error →
    ∃ p q, error = .invalidConstraint ⟨.precedence, .cycle p q⟩ ∧
      v.OrdersReplaced old n p q ∧ ReflTransGen (v.OrdersReplaced old n) q p

theorem orders_fanned_eq : Orders (v.fanned old n) = v.OrdersReplaced old n := by
  funext p q
  exact propext orders_fanned

theorem replaces_replaceListed (valid : v.Valid) (member : old ∈ v.members) (formed : n.WellFormed)
    {cs : List Constraint} (lists : {d | d ∈ cs} = v.fanned old n) :
    v.Replaces old n (v.replaceListed old n cs) := by
  unfold replaceListed
  cases merged : v.mergeListed old n cs with
  | ok next =>
      have replaced := replaced_of_mergeListed lists member merged
      have acyclic := (mergeListed_isOk_iff lists valid.closed formed).mp ⟨next, merged⟩
      exact ⟨iff_of_true rfl (orders_fanned_eq ▸ acyclic), fun _ => replaced.members,
        fun _ => replaced.held, fun refused => absurd rfl refused, nofun⟩
  | error failure =>
      obtain ⟨p, q, rfl, edge, back⟩ := mergeListed_error lists valid.closed formed merged
      rw [orders_fanned_eq] at edge back
      have closed : ¬ ∀ id, ¬ TransGen (v.OrdersReplaced old n) id id :=
        fun acyclic => acyclic p (.head' edge back)
      refine ⟨iff_of_false (Option.some_ne_none _) closed, nofun, nofun, fun _ => rfl, ?_⟩
      rintro _ ⟨⟩
      exact ⟨p, q, rfl, edge, back⟩

theorem replaces_replace (valid : v.Valid) (member : old ∈ v.members) (formed : n.WellFormed) :
    v.Replaces old n (v.replace old n) :=
  replace_of_member member ▸ replaces_replaceListed valid member formed lists_rewritten

theorem replace_eq_unknownTask (valid : v.Valid) (formed : n.WellFormed) :
    (v.replace old n).2 = some (.unknownTask old) ↔ old ∉ v.members := by
  refine ⟨fun refused member => ?_, fun absent => congrArg Prod.snd (replace_of_notMem absent)⟩
  obtain ⟨p, q, other, -⟩ := (replaces_replace valid member formed).cycle _ refused
  cases other

end Validator

namespace Workspace

theorem perform_replace {w : List Value} {place new : Nat} {v left : Validator} {n : Network}
    {old : TaskId} {error : ReplacementError} (at_ : w[place]? = some (.validator v))
    (new_ : networkAt w new = .ok n) (refused : v.replace old n = (left, some error)) :
    perform w (.replace place old new) = (w, some (.replacement error)) := by
  have reason : (perform w (.replace place old new)).2 = some (.replacement error) := by
    simp [perform, new_, change, at_, Value.replace, refused]
  exact Prod.ext (perform_unchanged reason) reason

/-- A member can be replaced by a network exactly when the order of tasks that results has no cycle,
whether or not they have tasks in common. It makes no difference in which order the constraints are
merged, and a replacement that fails leaves everything as it is. -/
theorem replace_exact (ops : List Operation) {v : Validator} (reached : .validator v ∈ obtained ops)
    (old : TaskId) {n : Network} (valid : n.Valid) :
    ((v.replace old n).2 = some (.unknownTask old) ↔ old ∉ v.members) ∧
    (old ∈ v.members → v.Replaces old n (v.replace old n) ∧
      ∀ cs : List Constraint,
        (∀ d, d ∈ cs ↔ (∃ c ∈ v.constraints, c.Fans old n.ids d) ∨ d ∈ n.constraints) →
        v.Replaces old n (v.replaceListed old n cs)) ∧
    ∀ left error, v.replace old n = (left, some error) → left = v ∧
      ∀ w place new, w[place]? = some (.validator v) → networkAt w new = .ok n →
        perform w (.replace place old new) = (w, some (.replacement error)) := by
  have kept : v.Valid := valid_obtained ops _ reached
  refine ⟨Validator.replace_eq_unknownTask kept valid.toWellFormed, fun member => ⟨?_, ?_⟩,
    fun left error refused => ⟨?_, fun w place new at_ new_ => perform_replace at_ new_ refused⟩⟩
  · exact Validator.replaces_replace kept member valid.toWellFormed
  · intro cs lists
    exact Validator.replaces_replaceListed kept member valid.toWellFormed (Set.ext lists)
  · have unchanged := Validator.replace_unchanged (congrArg Prod.snd refused)
    rwa [refused] at unchanged

-- The network holds the task that comes before the replaced one, so this task would come before
-- itself.
theorem replace_exact_shared :
    let first := (Task.newPrimitive "go" ["home"] ⟨1, 1⟩).1
    let second := (Task.newCompound "stay" [] ⟨2, 1⟩).1
    let third := (Task.newPrimitive "go" ["back"] ⟨3, 1⟩).1
    let order : Constraint := .precedence {first.id} {second.id}
    let v := (((∅ : Validator).addTask first.id).addTask second.id).record order
    let n := Network.ofLists [first, third] []
    let ops : List Operation :=
      [.newValidator, .addTask 0 first, .addTask 0 second, .addConstraint 0 order]
    .validator v ∈ obtained ops ∧ n.Valid ∧ second.id ∈ v.members ∧
      ∃ p q, v.replace second.id n =
        (v, some (.invalidConstraint ⟨.precedence, .cycle p q⟩)) := by
  intro first second third order v n ops
  have reached : .validator v ∈ obtained ops := List.mem_of_getElem? (i := 0) rfl
  have valid : n.Valid :=
    Network.valid_ofLists (by decide) (by simp) (by simp)
  have member : second.id ∈ v.members := by decide +kernel
  have replaces := ((replace_exact ops reached second.id valid).2.1 member).1
  have again : v.OrdersReplaced second.id n first.id first.id := by
    refine .inl ⟨first.id, second.id, ⟨order, ?_, ?_⟩, .inl ⟨rfl, by decide⟩, .inr ⟨rfl, ?_⟩⟩
    · exact Validator.held_record ▸ Set.mem_insert order _
    · decide +kernel
    · decide +kernel
  refine ⟨reached, valid, member, ?_⟩
  rcases result : v.replace second.id n with ⟨left, _ | error⟩
  · exact absurd (.single again) (replaces.succeeds.mp (congrArg Prod.snd result) first.id)
  · obtain ⟨p, q, rfl, -⟩ := replaces.cycle error (congrArg Prod.snd result)
    obtain ⟨rfl, -⟩ := (replace_exact ops reached second.id valid).2.2 left _ result
    exact ⟨p, q, rfl⟩

end Workspace

end HtnPlanning
