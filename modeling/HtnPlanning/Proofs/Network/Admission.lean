import HtnPlanning.Proofs.Workspace

namespace HtnPlanning

open Relation (ReflTransGen TransGen)

namespace Validator

variable {v next : Validator} {c : Constraint} {error : InvalidConstraint}

/-- A constraint can be added: it is about members, it is not there yet, and if it is a precedence,
the order together with all its pairs has no cycle. -/
structure Admissible (v : Validator) (c : Constraint) : Prop where
  known : ∀ id ∈ c.references, id ∈ v.members
  unheld : c ∉ v.constraints
  acyclic : ∀ earlier later, c = .precedence earlier later →
    ∀ id, ¬ TransGen (fun p q => Orders v.held p q ∨ p ∈ earlier ∧ q ∈ later) id id

/-- What is to be said against a constraint. Each objection is raised only if none before it can
be. -/
inductive Objection (v : Validator) (c : Constraint) : Rejection → Prop where
  | unknownTask {before after : List TaskId} {id : TaskId}
      (listed : c.references = before ++ id :: after) (known : ∀ other ∈ before, other ∈ v.members)
      (unknown : id ∉ v.members) : Objection v c (.unknownTask id)
  | duplicate (known : ∀ id ∈ c.references, id ∈ v.members) (held : c ∈ v.constraints) :
      Objection v c .duplicate
  | cycle {earlier later : TaskSet} {p q : TaskId} (known : ∀ id ∈ c.references, id ∈ v.members)
      (unheld : c ∉ v.constraints) (precedence : c = .precedence earlier later)
      (first : p ∈ earlier) (second : q ∈ later) (back : ReflTransGen (Orders v.held) q p) :
      Objection v c (.cycle p q)

theorem orders_insert {earlier later : TaskSet} {held : Set Constraint} :
    Orders (insert (.precedence earlier later) held) =
      fun p q => Orders held p q ∨ p ∈ earlier ∧ q ∈ later := by
  funext p q
  have spans : (p, q) ∈ (Constraint.precedence earlier later).edges ↔ p ∈ earlier ∧ q ∈ later := by
    simp [Constraint.edges]
  simp [Orders, or_and_right, exists_or, spans, or_comm]

theorem Consistent.nodup_constraints (consistent : v.Consistent) : v.constraints.Nodup := by
  have buckets : v.constraints = [ConstraintKind.precedence, .before, .after, .between].flatMap
      fun k => (v.ofKind k).toList := by
    simp [constraints, ofKind]
  have apart {k l : ConstraintKind} (other : k ≠ l) :
      (v.ofKind k).toList.Disjoint (v.ofKind l).toList := by
    intro d inK inL
    have kindK := consistent.kinds k d (Std.ExtTreeSet.mem_toList.mp inK)
    have kindL := consistent.kinds l d (Std.ExtTreeSet.mem_toList.mp inL)
    exact other (kindK.symm.trans kindL)
  rw [buckets, List.nodup_flatMap]
  refine ⟨fun k _ => Std.ExtTreeSet.distinct_toList.imp Std.ReflCmp.ne_of_cmp_ne_eq, ?_⟩
  exact List.Pairwise.imp apart (by decide)

theorem Consistent.perm_record (consistent : v.Consistent) (unheld : c ∉ v.constraints) :
    (v.record c).constraints.Perm (c :: v.constraints) := by
  refine (List.perm_ext_iff_of_nodup (consistent.record c).nodup_constraints
    (List.nodup_cons.mpr ⟨unheld, consistent.nodup_constraints⟩)).mpr fun d => ?_
  change d ∈ (v.record c).held ↔ d ∈ c :: v.constraints
  rw [held_record, List.mem_cons]
  rfl

theorem Valid.check_eq_ok_iff (valid : v.Valid) : v.check c = .ok () ↔ v.Admissible c := by
  have unheld : v.contains c = false ↔ c ∉ v.constraints := by
    rw [← Bool.not_eq_true, valid.contains_iff]
    rfl
  rw [check_eq_ok, unheld, valid.closingEdge?_eq_none]
  constructor
  · intro ⟨known, unheld, free⟩
    refine ⟨known, unheld, fun earlier later precedence => ?_⟩
    rw [← orders_insert, ← precedence]
    exact acyclic_insert_iff.mpr ⟨valid.acyclic, free⟩
  · intro ⟨known, unheld, acyclic⟩
    refine ⟨known, unheld, fun p q edge => ?_⟩
    cases c with
    | before | after | between => cases edge
    | precedence earlier later =>
        have ordered : Acyclic (insert (.precedence earlier later) v.held) := by
          rw [Acyclic, orders_insert]
          exact acyclic earlier later rfl
        exact (acyclic_insert_iff.mp ordered).2 p q edge

theorem Valid.objection_of_check (valid : v.Valid) {reason : Rejection}
    (refused : v.check c = .error reason) : v.Objection c reason := by
  unfold check at refused
  cases unknown : c.references.find? fun id => !v.members.contains id with
  | some id =>
      obtain rfl : Rejection.unknownTask id = reason := by simpa [unknown] using refused
      obtain ⟨outside, before, after, listed, inside⟩ := List.find?_eq_some_iff_append.mp unknown
      refine .unknownTask listed (by simpa using inside) fun member => ?_
      simp [Std.ExtTreeSet.contains_iff_mem.mpr member] at outside
  | none =>
      have known : ∀ id ∈ c.references, id ∈ v.members := by
        simpa using List.find?_eq_none.mp unknown
      cases again : v.contains c with
      | true =>
          obtain rfl : Rejection.duplicate = reason := by simpa [unknown, again] using refused
          exact .duplicate known (valid.contains_iff.mp again)
      | false =>
          have unheld : c ∉ v.constraints := fun held => by
            simp [valid.contains_iff.mpr held] at again
          cases closing : v.closingEdge? c with
          | none => simp [unknown, again, closing] at refused
          | some edge =>
              obtain ⟨p, q⟩ := edge
              obtain rfl : Rejection.cycle p q = reason := by
                simpa [unknown, again, closing] using refused
              obtain ⟨spans, back⟩ := valid.path_of_closingEdge closing
              cases c with
              | before | after | between => cases spans
              | precedence earlier later =>
                  have sides := Constraint.mem_edges.mp spans
                  exact .cycle known unheld rfl sides.2.1 sides.2.2 back

theorem addConstraint_eq_error : (v.addConstraint c).2 = some error ↔
    error.kind = c.kind ∧ v.check c = .error error.reason := by
  obtain ⟨kind, reason⟩ := error
  unfold addConstraint
  cases v.check c <;> simp [eq_comm]

end Validator

theorem orders_iff {held : Set Constraint} {p q : TaskId} : Orders held p q ↔
    ∃ earlier later, .precedence earlier later ∈ held ∧ p ∈ earlier ∧ q ∈ later := by
  constructor
  · rintro ⟨c, member, edge⟩
    obtain ⟨kind, first, second⟩ := Constraint.mem_edges.mp edge
    cases c with
    | precedence earlier later => exact ⟨earlier, later, member, first, second⟩
    | before | after | between => cases kind
  · rintro ⟨earlier, later, member, first, second⟩
    exact ⟨_, member, Constraint.mem_edges.mpr ⟨rfl, first, second⟩⟩

namespace Workspace

theorem perform_addConstraint {w : List Value} {place : Nat} {v left : Validator} {c : Constraint}
    {error : InvalidConstraint} (at_ : w[place]? = some (.validator v))
    (refused : v.addConstraint c = (left, some error)) :
    perform w (.addConstraint place c) = (w, some (.invalidConstraint error)) := by
  have reason : (perform w (.addConstraint place c)).2 = some (.invalidConstraint error) := by
    simp [perform, change, at_, Value.addConstraint, refused]
  exact Prod.ext (perform_unchanged reason) reason

/-- A constraint is accepted exactly when it is about members, is new and closes no cycle, and then
it is all that is added. Otherwise everything stays as it is, and the error tells the first thing
that is to be said against the constraint. -/
theorem addConstraint_exact (ops : List Operation) {v : Validator}
    (reached : .validator v ∈ obtained ops) (c : Constraint) :
    ((v.addConstraint c).2 = none ↔ v.Admissible c) ∧
    (∀ next, v.addConstraint c = (next, none) →
      next.members = v.members ∧ next.constraints.Perm (c :: v.constraints)) ∧
    ∀ left error, v.addConstraint c = (left, some error) →
      left = v ∧ error.kind = c.kind ∧ v.Objection c error.reason ∧
        ∀ w place, w[place]? = some (.validator v) →
          perform w (.addConstraint place c) = (w, some (.invalidConstraint error)) := by
  have kept : v.Valid := valid_obtained ops _ reached
  have accepts : (v.addConstraint c).2 = none ↔ v.Admissible c := by
    rw [← kept.check_eq_ok_iff, Validator.addConstraint]
    cases v.check c <;> simp
  refine ⟨accepts, ?_, ?_⟩
  · intro next added
    obtain ⟨-, recorded⟩ := Validator.addConstraint_eq_ok.mp added
    have admissible := accepts.mp (congrArg Prod.snd added)
    rw [← recorded]
    exact ⟨Validator.members_record, kept.perm_record admissible.unheld⟩
  · intro left error refused
    have unchanged := Validator.addConstraint_unchanged (congrArg Prod.snd refused)
    rw [refused] at unchanged
    obtain ⟨kind, objection⟩ := Validator.addConstraint_eq_error.mp (congrArg Prod.snd refused)
    exact ⟨unchanged, kind, kept.objection_of_check objection, fun w place at_ =>
      perform_addConstraint at_ refused⟩

-- The new pairs close a cycle through all four tasks with the two that are there.
theorem addConstraint_exact_crossed :
    let go (k : Nat) := (Task.newPrimitive "go" ["home"] ⟨k, 1⟩).1
    let first : Constraint := .precedence {⟨1⟩} {⟨2⟩}
    let second : Constraint := .precedence {⟨3⟩} {⟨4⟩}
    let crossed : Constraint := .precedence {⟨2⟩, ⟨4⟩} {⟨1⟩, ⟨3⟩}
    let members := ((((∅ : Validator).addTask ⟨1⟩).addTask ⟨2⟩).addTask ⟨3⟩).addTask ⟨4⟩
    let v := (members.record first).record second
    let ops : List Operation := [.newValidator, .addTask 0 (go 1), .addTask 0 (go 2),
      .addTask 0 (go 3), .addTask 0 (go 4), .addConstraint 0 first, .addConstraint 0 second]
    .validator v ∈ obtained ops ∧
      ∃ p q, v.addConstraint crossed = (v, some ⟨.precedence, .cycle p q⟩) := by
  intro go first second crossed members v ops
  have reached : .validator v ∈ obtained ops := List.mem_of_getElem? (i := 0) (by decide +kernel)
  have outcome := addConstraint_exact ops reached crossed
  refine ⟨reached, ?_⟩
  rcases result : v.addConstraint crossed with ⟨left, _ | ⟨kind, reason⟩⟩
  case none =>
    have free := (outcome.1.mp (congrArg Prod.snd result)).acyclic {⟨2⟩, ⟨4⟩} {⟨1⟩, ⟨3⟩} rfl ⟨1⟩
    have toFirst : Orders v.held ⟨1⟩ ⟨2⟩ :=
      ⟨first, (by decide +kernel : first ∈ v.constraints), by decide +kernel⟩
    have toThird : Orders v.held ⟨3⟩ ⟨4⟩ :=
      ⟨second, (by decide +kernel : second ∈ v.constraints), by decide +kernel⟩
    have across : (⟨2⟩ : TaskId) ∈ ({⟨2⟩, ⟨4⟩} : TaskSet) ∧ (⟨3⟩ : TaskId) ∈ ({⟨1⟩, ⟨3⟩} : TaskSet) := by
      decide +kernel
    have back : (⟨4⟩ : TaskId) ∈ ({⟨2⟩, ⟨4⟩} : TaskSet) ∧ (⟨1⟩ : TaskId) ∈ ({⟨1⟩, ⟨3⟩} : TaskSet) := by
      decide +kernel
    exact absurd (.head (.inl toFirst) (.head (.inr across) (.head (.inl toThird) (.single (.inr back)))))
      free
  case some =>
    obtain ⟨rfl, sameKind, objection, -⟩ := outcome.2.2 _ _ result
    obtain rfl : kind = .precedence := sameKind
    have known : ∀ id ∈ crossed.references, id ∈ v.members := by decide +kernel
    cases objection with
    | unknownTask listed before unknown => exact absurd (known _ (by simp [listed])) unknown
    | duplicate _ held => exact absurd held (by decide +kernel)
    | cycle => exact ⟨_, _, rfl⟩

/-- Whatever validator is obtained, and whether two tasks are members of it or not, the second is
reached from the first exactly when they are the same or pairs of earlier and later tasks of its
precedences lead from the one to the other. The walk that marks tasks ends with the same answer. -/
theorem reachable_exact (ops : List Operation) {v : Validator}
    (reached : .validator v ∈ obtained ops) (source target : TaskId) :
    (v.reachable source target = true ↔ source = target ∨ TransGen (fun p q =>
      ∃ earlier later, .precedence earlier later ∈ v.constraints ∧ p ∈ earlier ∧ q ∈ later)
        source target) ∧
    ∃ bound, ∀ steps, bound ≤ steps →
      v.visit target steps ⟨∅, [source]⟩ = some (v.reachable source target) := by
  have valid : v.Valid := valid_obtained ops _ reached
  have edges : Orders v.held = fun p q =>
      ∃ earlier later, .precedence earlier later ∈ v.constraints ∧ p ∈ earlier ∧ q ∈ later := by
    funext p q
    exact propext orders_iff
  constructor
  · rw [valid.reachable_iff, Relation.reflTransGen_iff_eq_or_transGen, edges, eq_comm]
  · exact ⟨_, fun steps enough => Validator.visit_eq_reachable enough⟩

-- Both later tasks of the first precedence are reached, the last task only through one of them.
theorem reachable_exact_fanned :
    let go (k : Nat) := (Task.newPrimitive "go" ["home"] ⟨k, 1⟩).1
    let fan : Constraint := .precedence {⟨1⟩} {⟨2⟩, ⟨3⟩}
    let edge : Constraint := .precedence {⟨3⟩} {⟨4⟩}
    let members := ((((∅ : Validator).addTask ⟨1⟩).addTask ⟨2⟩).addTask ⟨3⟩).addTask ⟨4⟩
    let v := (members.record fan).record edge
    let ops : List Operation := [.newValidator, .addTask 0 (go 1), .addTask 0 (go 2),
      .addTask 0 (go 3), .addTask 0 (go 4), .addConstraint 0 fan, .addConstraint 0 edge]
    let after := TransGen fun p q =>
      ∃ earlier later, .precedence earlier later ∈ v.constraints ∧ p ∈ earlier ∧ q ∈ later
    .validator v ∈ obtained ops ∧ after ⟨1⟩ ⟨4⟩ ∧ ¬ after ⟨2⟩ ⟨4⟩ ∧
      v.reachable ⟨9⟩ ⟨9⟩ = true := by
  intro go fan edge members v ops after
  have reached : .validator v ∈ obtained ops := List.mem_of_getElem? (i := 0) (by decide +kernel)
  have finds (source target : TaskId) := (reachable_exact ops reached source target).1
  refine ⟨reached, ?_, ?_, (finds ⟨9⟩ ⟨9⟩).mpr (.inl rfl)⟩
  · exact ((finds ⟨1⟩ ⟨4⟩).mp (by decide +kernel)).resolve_left (by decide)
  · exact fun path => absurd ((finds ⟨2⟩ ⟨4⟩).mpr (.inr path)) (by decide +kernel)

end Workspace

end HtnPlanning
