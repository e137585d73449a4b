import HtnPlanning.Proofs.Network.Validation

namespace HtnPlanning

open Relation (ReflTransGen TransGen)

namespace Validator

variable {v : Validator} {c : Constraint}

theorem Consistent.closingEdge?_eq_none (consistent : v.Consistent) : v.closingEdge? c = none ↔
    ∀ p q, (p, q) ∈ c.edges → ¬ ReflTransGen (Orders v.held) q p := by
  simp only [closingEdge?, List.find?_eq_none, Prod.forall, Bool.or_eq_true, decide_eq_true_eq,
    not_or, consistent.reachable_iff]
  refine forall₃_congr fun p q edge => and_iff_right_of_imp ?_
  rintro open_ rfl
  exact open_ .refl

end Validator

theorem Orders.cross {held : Set Constraint} {c : Constraint} {x y : TaskId}
    (free : ∀ p q, (p, q) ∈ c.edges → ¬ ReflTransGen (Orders held) q p)
    (path : TransGen (Orders (insert c held)) x y) :
    TransGen (Orders held) x y ∨ ∃ p q, (p, q) ∈ c.edges ∧
      ReflTransGen (Orders held) x p ∧ ReflTransGen (Orders held) q y := by
  have split {p q : TaskId} (step : Orders (insert c held) p q) :
      Orders held p q ∨ (p, q) ∈ c.edges := by
    obtain ⟨d, rfl | member, edge⟩ := step
    · exact .inr edge
    · exact .inl ⟨d, member, edge⟩
  induction path with
  | single step =>
      rcases split step with old | edge
      · exact .inl (.single old)
      · exact .inr ⟨_, _, edge, .refl, .refl⟩
  | @tail y z _ step ih =>
      rcases split step with old | edge
      · rcases ih with before | ⟨p, q, first, toP, fromQ⟩
        · exact .inl (before.tail old)
        · exact .inr ⟨p, q, first, toP, fromQ.tail old⟩
      · rcases ih with before | ⟨p, q, first, -, fromQ⟩
        · exact .inr ⟨y, z, edge, before.to_reflTransGen, .refl⟩
        · -- A second edge would start where the first one could have ended.
          obtain ⟨kind, -, second⟩ := Constraint.mem_edges.mp first
          obtain ⟨-, onFirst, -⟩ := Constraint.mem_edges.mp edge
          exact absurd fromQ (free y q (Constraint.mem_edges.mpr ⟨kind, onFirst, second⟩))

theorem acyclic_insert_iff {held : Set Constraint} {c : Constraint} :
    Acyclic (insert c held) ↔
      Acyclic held ∧ ∀ p q, (p, q) ∈ c.edges → ¬ ReflTransGen (Orders held) q p := by
  constructor
  · refine fun acyclic => ⟨acyclic.anti (Set.subset_insert _ _), fun p q edge back => ?_⟩
    have step : Orders (insert c held) p q := ⟨c, Set.mem_insert _ _, edge⟩
    exact acyclic p (.head' step
      (ReflTransGen.mono (fun _ _ => Orders.mono (Set.subset_insert _ _)) _ _ back))
  · rintro ⟨acyclic, free⟩ id cycle
    rcases Orders.cross free cycle with around | ⟨p, q, edge, toP, fromQ⟩
    · exact acyclic id around
    · exact free p q edge (fromQ.trans toP)

namespace Validator

variable {v next : Validator} {c : Constraint}

structure Valid (v : Validator) : Prop extends v.Consistent where
  closed : ∀ c ∈ v.held, ∀ id ∈ c.references, id ∈ v.members
  acyclic : Acyclic v.held

theorem valid_of_members (members : TaskSet) :
    ({ (∅ : Validator) with members } : Validator).Valid where
  toConsistent := consistent_of_members members
  closed c member := by simp [held_of_members] at member
  acyclic := held_of_members members ▸ acyclic_empty

theorem valid_empty : (∅ : Validator).Valid :=
  valid_of_members ∅

theorem check_eq_ok : v.check c = .ok () ↔
    (∀ id ∈ c.references, id ∈ v.members) ∧ v.contains c = false ∧ v.closingEdge? c = none := by
  have known : (c.references.find? fun id => !v.members.contains id) = none ↔
      ∀ id ∈ c.references, id ∈ v.members := by simp [List.find?_eq_none]
  rw [← known, check]
  cases c.references.find? fun id => !v.members.contains id with
  | some id => simp
  | none => cases v.contains c <;> cases v.closingEdge? c <;> simp

theorem Valid.record (valid : v.Valid) (accepted : v.check c = .ok ()) : (v.record c).Valid := by
  obtain ⟨closed, -, free⟩ := check_eq_ok.mp accepted
  refine ⟨valid.toConsistent.record c, ?_, ?_⟩
  · rw [held_record, members_record]
    rintro d (rfl | member)
    · exact closed
    · exact valid.closed d member
  · rw [held_record, acyclic_insert_iff]
    exact ⟨valid.acyclic, valid.closingEdge?_eq_none.mp free⟩

theorem addConstraint_eq_ok :
    v.addConstraint c = (next, none) ↔ v.check c = .ok () ∧ v.record c = next := by
  unfold addConstraint
  cases v.check c <;> simp

theorem addConstraint_unchanged {error : InvalidConstraint}
    (refused : (v.addConstraint c).2 = some error) : (v.addConstraint c).1 = v := by
  unfold addConstraint at refused ⊢
  cases check : v.check c with
  | ok => simp [check] at refused
  | error => rfl

theorem Valid.addConstraint (valid : v.Valid) (c : Constraint) : (v.addConstraint c).1.Valid := by
  unfold Validator.addConstraint
  split
  next accepted => exact valid.record accepted
  next => exact valid

theorem Valid.merge (valid : v.Valid) (merged : v.merge c = .ok next) : next.Valid := by
  unfold Validator.merge at merged
  split at merged
  case h_1 accepted => exact Except.ok.inj merged ▸ valid.record accepted
  case h_2 => exact Except.ok.inj merged ▸ valid
  case h_3 => cases merged

theorem Valid.foldlM_merge (valid : v.Valid) (cs : List Constraint)
    (merged : cs.foldlM Validator.merge v = .ok next) : next.Valid :=
  foldlM_keeps (fun _ _ _ valid merged => valid.merge merged) valid merged

theorem Valid.addTask (valid : v.Valid) (id : TaskId) : (v.addTask id).Valid where
  toConsistent := ⟨valid.kinds, valid.indexed⟩
  closed c member reference side :=
    Std.ExtTreeSet.mem_insert.mpr (.inr (valid.closed c member reference side))
  acyclic := valid.acyclic

end Validator

end HtnPlanning
