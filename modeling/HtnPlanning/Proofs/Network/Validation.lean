import HtnPlanning.Proofs.Network.Visiting
import Mathlib.Tactic.Tauto

namespace HtnPlanning.Validator

def held (v : Validator) : Set Constraint :=
  {c | c ∈ v.constraints}

/-- Every bucket holds constraints of its kind, and the index leads from each task to the
precedences that it comes first in. -/
structure Consistent (v : Validator) : Prop where
  kinds : ∀ k, ∀ c ∈ v.ofKind k, c.kind = k
  indexed : ∀ p c, c ∈ v.outgoing[p]?.getD ∅ ↔ c ∈ v.precedences ∧ p ∈ c.first

variable {v : Validator} {c d : Constraint} {p q source target : TaskId}

theorem mem_held_iff : c ∈ v.held ↔ ∃ k, c ∈ v.ofKind k := by
  simp only [held, constraints, Set.mem_ofPred_eq, List.mem_append, Std.ExtTreeSet.mem_toList]
  constructor
  · rintro (((member | member) | member) | member)
    exacts [⟨.precedence, member⟩, ⟨.before, member⟩, ⟨.after, member⟩, ⟨.between, member⟩]
  · rintro ⟨k, member⟩
    cases k with
    | precedence => exact .inl (.inl (.inl member))
    | before => exact .inl (.inl (.inr member))
    | after => exact .inl (.inr member)
    | between => exact .inr member

theorem Consistent.mem_held (consistent : v.Consistent) : c ∈ v.held ↔ c ∈ v.ofKind c.kind := by
  rw [mem_held_iff]
  constructor
  · rintro ⟨k, member⟩
    rwa [consistent.kinds k c member]
  · exact fun member => ⟨c.kind, member⟩

theorem Consistent.contains_iff (consistent : v.Consistent) : v.contains c = true ↔ c ∈ v.held := by
  rw [consistent.mem_held, contains, Std.ExtTreeSet.contains_iff_mem]

/-! ## Recording -/

theorem mem_indexed {outgoing : Std.ExtTreeMap TaskId ConstraintSet} {earlier : TaskSet} :
    d ∈ (indexed outgoing c earlier)[p]?.getD ∅ ↔
      d ∈ outgoing[p]?.getD ∅ ∨ p ∈ earlier ∧ d = c := by
  have entries (ids : List TaskId) (index : Std.ExtTreeMap TaskId ConstraintSet) :
      d ∈ (ids.foldl (fun (index : Std.ExtTreeMap TaskId ConstraintSet) id =>
          index.insert id ((index[id]?.getD (∅ : ConstraintSet)).insert c)) index)[p]?.getD ∅ ↔
        d ∈ index[p]?.getD ∅ ∨ p ∈ ids ∧ d = c := by
    induction ids generalizing index with
    | nil => simp
    | cons id ids ih =>
        rw [List.foldl_cons, ih, Std.ExtTreeMap.getElem?_insert]
        by_cases same : id = p
        · simp only [same, Std.LawfulEqOrd.compare_eq_iff_eq, if_true, Option.getD_some,
            Std.ExtTreeSet.mem_insert, List.mem_cons, true_or, true_and, eq_comm (a := c)]
          tauto
        · simp [same, Ne.symm same]
  rw [indexed, entries, Std.ExtTreeSet.mem_toList]

@[simp] theorem members_record : (v.record c).members = v.members := by
  cases c <;> rfl

theorem mem_ofKind_record {k : ConstraintKind} :
    d ∈ (v.record c).ofKind k ↔ d ∈ v.ofKind k ∨ k = c.kind ∧ d = c := by
  cases c <;> cases k <;>
    simp [record, ofKind, Constraint.kind, eq_comm (b := d), or_comm]

@[simp] theorem held_record : (v.record c).held = insert c v.held := by
  ext d
  simp only [mem_held_iff, mem_ofKind_record, Set.mem_insert_iff]
  constructor
  · rintro ⟨k, member | ⟨-, rfl⟩⟩
    · exact .inr ⟨k, member⟩
    · exact .inl rfl
  · rintro (rfl | ⟨k, member⟩)
    · exact ⟨d.kind, .inr ⟨rfl, rfl⟩⟩
    · exact ⟨k, .inl member⟩

theorem Consistent.record (consistent : v.Consistent) (c : Constraint) :
    (v.record c).Consistent where
  kinds k d member := by
    rcases mem_ofKind_record.mp member with old | ⟨rfl, rfl⟩
    · exact consistent.kinds k d old
    · rfl
  indexed p d := by
    cases c with
    | precedence earlier later =>
        simp only [Validator.record, mem_indexed, Std.ExtTreeSet.mem_insert,
          Std.LawfulEqOrd.compare_eq_iff_eq, consistent.indexed]
        constructor
        · rintro (⟨member, first⟩ | ⟨first, rfl⟩)
          · exact ⟨.inr member, first⟩
          · exact ⟨.inl rfl, first⟩
        · rintro ⟨rfl | member, first⟩
          · exact .inr ⟨first, rfl⟩
          · exact .inl ⟨member, first⟩
    | before tasks condition => exact consistent.indexed p d
    | after tasks condition => exact consistent.indexed p d
    | between earlier later condition => exact consistent.indexed p d

theorem consistent_of_members (members : TaskSet) :
    ({ (∅ : Validator) with members } : Validator).Consistent where
  kinds k c member := by
    cases k <;> exact absurd member Std.ExtTreeSet.not_mem_empty
  indexed p c := by
    change c ∈ (∅ : Std.ExtTreeMap TaskId ConstraintSet)[p]?.getD ∅ ↔ c ∈ (∅ : ConstraintSet) ∧ _
    simp

theorem held_of_members (members : TaskSet) :
    ({ (∅ : Validator) with members } : Validator).held = ∅ := by
  ext c
  rw [mem_held_iff]
  constructor
  · rintro ⟨k, member⟩
    cases k <;> exact absurd member Std.ExtTreeSet.not_mem_empty
  · exact fun member => absurd member (Set.notMem_empty c)

theorem foldl_record (cs : List Constraint) (v : Validator) :
    (cs.foldl record v).held = {c | c ∈ cs} ∪ v.held ∧
      (cs.foldl record v).members = v.members ∧
      (v.Consistent → (cs.foldl record v).Consistent) := by
  induction cs generalizing v with
  | nil => simp
  | cons c cs ih =>
      obtain ⟨heldEq, membersEq, keeps⟩ := ih (v.record c)
      refine ⟨?_, membersEq.trans members_record, fun consistent => keeps (consistent.record c)⟩
      rw [List.foldl_cons, heldEq, held_record]
      ext d
      simp [or_assoc]

/-! ## Paths -/

theorem mem_laterTasks {precedences : ConstraintSet} (kinds : ∀ c ∈ precedences, c.kind = .precedence) :
    q ∈ laterTasks precedences ↔ ∃ c ∈ precedences, q ∈ c.second := by
  simp only [laterTasks, List.mem_flatMap, Std.ExtTreeSet.mem_toList]
  constructor
  · rintro ⟨c, member, later⟩
    refine ⟨c, member, ?_⟩
    cases c with
    | precedence => simpa [Constraint.second] using later
    | before => cases later
    | after => cases later
    | between => cases later
  · rintro ⟨c, member, later⟩
    refine ⟨c, member, ?_⟩
    have kind := kinds c member
    cases c with
    | precedence => simpa [Constraint.second] using later
    | before => cases kind
    | after => cases kind
    | between => cases kind

theorem Consistent.leads_iff (consistent : v.Consistent) : v.Leads p q ↔ Orders v.held p q := by
  have kinds : ∀ c ∈ v.outgoing[p]?.getD ∅, c.kind = .precedence := fun c entry =>
    consistent.kinds .precedence c ((consistent.indexed p c).mp entry).1
  rw [Leads, successors, mem_laterTasks kinds]
  constructor
  · rintro ⟨c, entry, second⟩
    obtain ⟨bucket, first⟩ := (consistent.indexed p c).mp entry
    exact ⟨c, mem_held_iff.mpr ⟨.precedence, bucket⟩,
      Constraint.mem_edges.mpr ⟨kinds c entry, first, second⟩⟩
  · rintro ⟨c, member, edge⟩
    obtain ⟨kind, first, second⟩ := Constraint.mem_edges.mp edge
    have bucket : c ∈ v.precedences := by
      simpa [kind, ofKind] using consistent.mem_held.mp member
    exact ⟨c, (consistent.indexed p c).mpr ⟨bucket, first⟩, second⟩

theorem Consistent.reachable_iff (consistent : v.Consistent) :
    v.reachable source target = true ↔ Relation.ReflTransGen (Orders v.held) source target := by
  have leads : v.Leads = Orders v.held := funext₂ fun _ _ => propext consistent.leads_iff
  rw [reachable_iff_leads, leads]

theorem Consistent.path_of_closingEdge (consistent : v.Consistent)
    (closing : v.closingEdge? c = some (p, q)) :
    (p, q) ∈ c.edges ∧ Relation.ReflTransGen (Orders v.held) q p := by
  have closes := List.find?_some closing
  simp only [Bool.or_eq_true, decide_eq_true_eq] at closes
  refine ⟨List.mem_of_find?_eq_some closing, ?_⟩
  rcases closes with rfl | reachable
  · exact .refl
  · exact consistent.reachable_iff.mp reachable

/-! ## Merging -/

theorem foldlM_keeps {σ α ε : Type} {f : σ → α → Except ε σ} {holds : σ → Prop} {xs : List α}
    {s last : σ} (keeps : ∀ s x next, holds s → f s x = .ok next → holds next) (first : holds s)
    (done : xs.foldlM f s = .ok last) : holds last := by
  induction xs generalizing s with
  | nil => exact Except.ok.inj done ▸ first
  | cons x xs ih =>
      rw [List.foldlM_cons] at done
      cases step : f s x with
      | error failure => simp [step, bind, Except.bind] at done
      | ok next => exact ih (keeps s x next first step) (by simpa [step, bind, Except.bind] using done)

theorem Consistent.merge_sound {next : Validator} (consistent : v.Consistent)
    (merged : v.merge c = .ok next) :
    (∀ id ∈ c.references, id ∈ v.members) ∧ next.members = v.members ∧
      next.held = insert c v.held ∧ next.Consistent := by
  unfold merge check at merged
  cases known : c.references.find? fun id => !v.members.contains id with
  | some id => simp [known] at merged
  | none =>
      have closed : ∀ id ∈ c.references, id ∈ v.members := by
        simpa [List.find?_eq_none] using known
      cases again : v.contains c with
      | true =>
          obtain rfl : v = next := by simpa [known, again] using merged
          refine ⟨closed, rfl, ?_, consistent⟩
          exact (Set.insert_eq_of_mem (consistent.contains_iff.mp again)).symm
      | false =>
          cases closing : v.closingEdge? c with
          | some edge => simp [known, again, closing] at merged
          | none =>
              obtain rfl : v.record c = next := by simpa [known, again, closing] using merged
              exact ⟨closed, members_record, held_record, consistent.record c⟩

theorem Consistent.merge_error {failure : InvalidConstraint} (consistent : v.Consistent)
    (closed : ∀ id ∈ c.references, id ∈ v.members) (refused : v.merge c = .error failure) :
    ∃ p q, failure = ⟨.precedence, .cycle p q⟩ ∧ (p, q) ∈ c.edges ∧
      Relation.ReflTransGen (Orders v.held) q p := by
  have known : (c.references.find? fun id => !v.members.contains id) = none := by
    simpa [List.find?_eq_none] using closed
  cases again : v.contains c with
  | true => simp [merge, check, known, again] at refused
  | false =>
      cases closing : v.closingEdge? c with
      | none => simp [merge, check, known, again, closing] at refused
      | some edge =>
          obtain ⟨p, q⟩ := edge
          obtain ⟨spans, back⟩ := consistent.path_of_closingEdge closing
          have kind := (Constraint.mem_edges.mp spans).1
          exact ⟨p, q, by simpa [merge, check, known, again, closing, kind] using refused.symm,
            spans, back⟩

theorem Consistent.foldlM_merge_sound {next : Validator} (consistent : v.Consistent)
    (cs : List Constraint) (merged : cs.foldlM merge v = .ok next) :
    (∀ c ∈ cs, ∀ id ∈ c.references, id ∈ v.members) ∧ next.members = v.members ∧
      next.held = {c | c ∈ cs} ∪ v.held ∧ next.Consistent := by
  induction cs generalizing v with
  | nil =>
      obtain rfl : v = next := by simpa [pure, Except.pure] using merged
      simpa using consistent
  | cons c cs ih =>
      rw [List.foldlM_cons] at merged
      cases step : v.merge c with
      | error failure => simp [step, bind, Except.bind] at merged
      | ok middle =>
          simp only [step, bind, Except.bind] at merged
          obtain ⟨closed, sameMembers, heldEq, middleConsistent⟩ := consistent.merge_sound step
          obtain ⟨restClosed, nextMembers, nextHeld, nextConsistent⟩ := ih middleConsistent merged
          rw [sameMembers] at restClosed nextMembers
          refine ⟨fun d member => ?_, nextMembers, ?_, nextConsistent⟩
          · rcases List.mem_cons.mp member with rfl | below
            · exact closed
            · exact restClosed d below
          · rw [nextHeld, heldEq]
            ext d
            simp [or_assoc]

theorem Consistent.foldlM_merge_error {failure : InvalidConstraint} (consistent : v.Consistent)
    (cs : List Constraint) (closed : ∀ c ∈ cs, ∀ id ∈ c.references, id ∈ v.members)
    (refused : cs.foldlM merge v = .error failure) :
    ∃ p q, failure = ⟨.precedence, .cycle p q⟩ ∧ Orders ({c | c ∈ cs} ∪ v.held) p q ∧
      Relation.ReflTransGen (Orders ({c | c ∈ cs} ∪ v.held)) q p := by
  induction cs generalizing v with
  | nil => cases refused
  | cons c cs ih =>
      rw [List.foldlM_cons] at refused
      have ofHead : {d | d ∈ c :: cs} ∪ v.held = {d | d ∈ cs} ∪ insert c v.held := by
        ext d
        simp [or_assoc]
      rw [ofHead]
      cases step : v.merge c with
      | error first =>
          obtain rfl : first = failure := by simpa [step, bind, Except.bind] using refused
          obtain ⟨p, q, rfl, edge, back⟩ := consistent.merge_error (closed c List.mem_cons_self) step
          refine ⟨p, q, rfl, ⟨c, .inr (Set.mem_insert _ _), edge⟩, ?_⟩
          exact Relation.ReflTransGen.mono (fun _ _ => Orders.mono fun d member =>
            .inr (Set.mem_insert_of_mem _ member)) _ _ back
      | ok middle =>
          obtain ⟨-, sameMembers, heldEq, middleConsistent⟩ := consistent.merge_sound step
          rw [← heldEq]
          refine ih middleConsistent (fun d member id => ?_)
            (by simpa [step, bind, Except.bind] using refused)
          exact sameMembers ▸ closed d (List.mem_cons_of_mem _ member) id

theorem Consistent.foldlM_merge_ok (consistent : v.Consistent) (cs : List Constraint)
    (closed : ∀ c ∈ cs, ∀ id ∈ c.references, id ∈ v.members)
    (acyclic : Acyclic ({c | c ∈ cs} ∪ v.held)) :
    ∃ next, cs.foldlM merge v = .ok next := by
  cases merged : cs.foldlM merge v with
  | ok next => exact ⟨next, rfl⟩
  | error failure =>
      obtain ⟨p, q, -, edge, back⟩ := consistent.foldlM_merge_error cs closed merged
      exact absurd (Relation.TransGen.head' edge back) (acyclic p)

end HtnPlanning.Validator
