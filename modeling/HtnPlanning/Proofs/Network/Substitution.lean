import HtnPlanning.Proofs.Network.Refinement

namespace HtnPlanning

variable {s : Substitution} {old id : TaskId} {c d : Constraint}

namespace Constraint

variable {new : TaskSet}

def isPrecedence (c : Constraint) : Bool :=
  c.kind = .precedence

@[simp] theorem kind_apply : (c.apply s).kind = c.kind := by
  cases c <;> rfl

theorem apply_of_precedence (kind : c.kind = .precedence) : c.apply s = c := by
  cases c with
  | precedence => rfl
  | before | after | between => cases kind

theorem kind_of_replaceTask (result : c.replaceTask old new = some d) : d.kind = c.kind :=
  (fans_of_replaceTask result).kind

@[simp] theorem mentions_apply : (c.apply s).mentions old = c.mentions old := by
  simp [mentions]

theorem replaceTask_apply :
    (c.apply s).replaceTask old new = (c.replaceTask old new).map (·.apply s) := by
  cases c with
  | precedence earlier later | between earlier later condition =>
      cases left : replaceInSide old new earlier <;> cases right : replaceInSide old new later <;>
        simp [apply, replaceTask, left, right]
  | before tasks condition | after tasks condition =>
      cases side : replaceInSide old new tasks <;> simp [apply, replaceTask, side]

theorem fans_apply : (c.apply s).Fans old new d ↔ ∃ e, c.Fans old new e ∧ e.apply s = d := by
  cases mentions : c.mentions old with
  | true =>
      have applied : (c.apply s).mentions old = true := mentions_apply.trans mentions
      simp only [← replaceTask_eq_some mentions, ← replaceTask_eq_some applied, replaceTask_apply,
        Option.map_eq_some_iff]
  | false =>
      have applied : (c.apply s).mentions old = false := mentions_apply.trans mentions
      simp [Fans.of_not_mentions mentions, Fans.of_not_mentions applied, eq_comm]

end Constraint

/-! ## Only precedences are refused -/

open Constraint (isPrecedence)

namespace Validator

variable {v w : Validator} {n new new' : Network} {cs : List Constraint} {failure : InvalidConstraint}

structure SameOrder (v w : Validator) : Prop where
  members : v.members = w.members
  precedences : v.precedences = w.precedences
  outgoing : v.outgoing = w.outgoing

theorem SameOrder.check (same : v.SameOrder w) (kind : c.kind = .precedence) :
    v.check c = w.check c := by
  have contains : v.contains c = w.contains c := by
    simp only [Validator.contains, kind, ofKind, same.precedences]
  have closing : v.closingEdge? c = w.closingEdge? c := by
    simp only [closingEdge?, reachable_congr same.outgoing]
  simp only [Validator.check, same.members, contains, closing]

theorem SameOrder.record (same : v.SameOrder w) (kind : c.kind = .precedence) :
    (v.record c).SameOrder (w.record c) := by
  obtain ⟨members, precedences, outgoing⟩ := same
  cases c with
  | precedence earlier later =>
      exact ⟨members, by simp [Validator.record, precedences], by simp [Validator.record, outgoing]⟩
  | before | after | between => cases kind

theorem SameOrder.record_other (same : v.SameOrder w) (kind : c.kind ≠ .precedence) :
    (v.record c).SameOrder w := by
  cases c with
  | precedence => exact absurd rfl kind
  | before | after | between => exact ⟨same.members, same.precedences, same.outgoing⟩

theorem SameOrder.merge_other (same : v.SameOrder w) (kind : c.kind ≠ .precedence)
    (closed : ∀ id ∈ c.references, id ∈ v.members) :
    ∃ next, v.merge c = .ok next ∧ next.SameOrder w ∧ next.members = v.members := by
  have known : (c.references.find? fun id => !v.members.contains id) = none := by
    simpa [List.find?_eq_none] using closed
  have closing : v.closingEdge? c = none := by
    cases c with
    | precedence => exact absurd rfl kind
    | before | after | between => rfl
  cases again : v.contains c with
  | true => exact ⟨v, by simp [merge, Validator.check, known, again], same, rfl⟩
  | false =>
      exact ⟨v.record c, by simp [merge, Validator.check, known, again, closing],
        same.record_other kind, members_record⟩

theorem SameOrder.merge_precedence (same : v.SameOrder w) (kind : c.kind = .precedence) :
    (∃ failure, v.merge c = .error failure ∧ w.merge c = .error failure) ∨
      ∃ next next', v.merge c = .ok next ∧ w.merge c = .ok next' ∧ next.SameOrder next' ∧
        next.members = v.members := by
  rw [merge, merge, ← same.check kind]
  cases v.check c with
  | ok => exact .inr ⟨_, _, rfl, rfl, same.record kind, members_record⟩
  | error reason =>
      cases reason with
      | duplicate => exact .inr ⟨_, _, rfl, rfl, same, rfl⟩
      | unknownTask | cycle => exact .inl ⟨_, rfl, rfl⟩

theorem SameOrder.foldlM_merge_eq_error (same : v.SameOrder w)
    (closed : ∀ c ∈ cs, ∀ id ∈ c.references, id ∈ v.members) :
    cs.foldlM merge v = .error failure ↔
      (cs.filter isPrecedence).foldlM merge w = .error failure := by
  induction cs generalizing v w with
  | nil => simp [pure, Except.pure]
  | cons c cs ih =>
      obtain ⟨here, later⟩ := List.forall_mem_cons.mp closed
      by_cases kind : c.kind = .precedence
      · rw [List.filter_cons_of_pos (by simpa [isPrecedence] using kind), List.foldlM_cons,
          List.foldlM_cons]
        rcases same.merge_precedence kind with ⟨first, refused, refused'⟩ | ⟨_, _, merged, merged', same, members⟩
        · simp [refused, refused', bind, Except.bind]
        · simp only [merged, merged', bind, Except.bind]
          exact ih same (members ▸ later)
      · -- Only the first validator takes this one, and it knows no more about the order then.
        obtain ⟨next, merged, same, members⟩ := same.merge_other kind here
        rw [List.filter_cons_of_neg (by simpa [isPrecedence] using kind), List.foldlM_cons, merged]
        exact ih same (members ▸ later)

theorem filter_rewritten {ids : TaskSet} : (v.rewritten old ids).filter isPrecedence =
    (v.constraints.filter isPrecedence).filterMap fun c =>
      if c.mentions old then c.replaceTask old ids else some c := by
  rw [rewritten, List.filter_filterMap, List.filterMap_filter]
  refine List.filterMap_congr fun c _ => ?_
  cases mentions : c.mentions old with
  | false => cases kind : isPrecedence c <;> simp [Option.filter, kind]
  | true =>
      cases result : c.replaceTask old ids with
      | none => simp
      | some d =>
          have kind : isPrecedence d = isPrecedence c := by
            rw [isPrecedence, isPrecedence, Constraint.kind_of_replaceTask result]
          cases own : isPrecedence c <;> simp [Option.filter, kind, own]

theorem Consistent.filter_constraints (consistent : v.Consistent) :
    v.constraints.filter isPrecedence = v.precedences.toList := by
  have kinds {k : ConstraintKind} (c : Constraint) (member : c ∈ (v.ofKind k).toList) : c.kind = k :=
    consistent.kinds k c (Std.ExtTreeSet.mem_toList.mp member)
  have own : v.precedences.toList.filter isPrecedence = v.precedences.toList :=
    List.filter_eq_self.mpr fun c member => by
      simp [isPrecedence, kinds (k := .precedence) c member]
  have others {k : ConstraintKind} (other : k ≠ .precedence) :
      (v.ofKind k).toList.filter isPrecedence = [] :=
    List.filter_eq_nil_iff.mpr fun c member => by simp [isPrecedence, kinds c member, other]
  have befores := others (k := .before) (by decide)
  have afters := others (k := .after) (by decide)
  have betweens := others (k := .between) (by decide)
  simp only [ofKind] at befores afters betweens
  simp [constraints, own, befores, afters, betweens]

theorem Consistent.replace_eq_error (consistent : v.Consistent)
    (closed : ∀ c ∈ v.held, ∀ id ∈ c.references, id ∈ v.members) (formed : new.WellFormed)
    {error : ReplacementError} : (v.replace old new).2 = some error ↔
      old ∉ v.members ∧ error = .unknownTask old ∨
        old ∈ v.members ∧ ∃ failure, error = .invalidConstraint failure ∧
          v.mergeListed old new ((v.precedences.toList.filterMap fun c =>
              if c.mentions old then c.replaceTask old new.ids else some c) ++
            new.constraints.toList.filter isPrecedence) = .error failure := by
  by_cases member : old ∈ v.members
  · have refused {failure : InvalidConstraint} :
        v.mergeListed old new (v.rewritten old new.ids ++ new.constraints.toList) = .error failure ↔
          v.mergeListed old new ((v.rewritten old new.ids ++ new.constraints.toList).filter isPrecedence) =
            .error failure := by
      refine SameOrder.foldlM_merge_eq_error ⟨rfl, rfl, rfl⟩ fun c listed => ?_
      exact mem_references_fanned closed formed c (lists_rewritten ▸ listed)
    rw [List.filter_append, filter_rewritten, consistent.filter_constraints] at refused
    simp only [← refused, replace_of_member member, replaceListed_eq_error, member, not_true_eq_false,
      false_and, true_and, false_or]
  · simp only [replace_of_notMem member, Option.some.injEq, eq_comm (b := error), member, false_and,
      not_false_eq_true, true_and, or_false]

end Validator

/-! ## Networks -/

namespace Network

variable {n new result : Network} {error : ReplacementError}

theorem mem_filter_isPrecedence {held : ConstraintSet} :
    c ∈ held.filter isPrecedence ↔ c ∈ held ∧ c.kind = .precedence := by
  simp [Std.ExtTreeSet.mem_filter, isPrecedence]

theorem filter_constraints_apply :
    (n.apply s).constraints.filter isPrecedence = n.constraints.filter isPrecedence := by
  refine Std.ExtTreeSet.ext_mem fun c => ?_
  rw [mem_filter_isPrecedence, mem_filter_isPrecedence, mem_constraints_apply]
  constructor
  · rintro ⟨⟨source, held, rfl⟩, kind⟩
    rw [Constraint.kind_apply] at kind
    exact ⟨(Constraint.apply_of_precedence kind).symm ▸ held, by simpa using kind⟩
  · rintro ⟨held, kind⟩
    exact ⟨⟨c, held, Constraint.apply_of_precedence kind⟩, kind⟩

theorem precedences_copy (n : Network) :
    (NetworkBuilder.copy n).validator.precedences = n.constraints.filter isPrecedence := by
  obtain ⟨consistent, -, constraints⟩ := NetworkBuilder.coherent_copy n
  refine Std.ExtTreeSet.ext_mem fun c => ?_
  rw [mem_filter_isPrecedence]
  change _ ↔ c ∈ (NetworkBuilder.copy n).constraints ∧ _
  rw [constraints, consistent.mem_held]
  constructor
  · intro member
    have kind := consistent.kinds .precedence c member
    exact ⟨kind ▸ member, kind⟩
  · rintro ⟨member, kind⟩
    rwa [kind] at member

theorem members_copy (n : Network) : (NetworkBuilder.copy n).validator.members = n.ids :=
  (Validator.foldl_record _ _).2.1

@[simp] theorem ids_apply : (n.apply s).ids = n.ids :=
  Std.ExtTreeSet.ext_mem fun id => by rw [mem_ids, mem_ids, contains_apply]

theorem replace_eq_error : n.replace old new = .error error ↔
    ((NetworkBuilder.copy n).validator.replace old new).2 = some error := by
  unfold Network.replace NetworkBuilder.replace
  rcases (NetworkBuilder.copy n).validator.replace old new with ⟨v, _ | error⟩ <;> simp

theorem Valid.replace_apply_eq_error (valid : n.Valid) (newValid : new.Valid) :
    (n.apply s).replace old (new.apply s) = .error error ↔ n.replace old new = .error error := by
  have copied := (NetworkBuilder.valid_copy valid).validator
  have applied := (NetworkBuilder.valid_copy (valid.apply s)).validator
  rw [replace_eq_error, replace_eq_error,
    copied.toConsistent.replace_eq_error copied.closed newValid.toWellFormed,
    applied.toConsistent.replace_eq_error applied.closed (newValid.apply s).toWellFormed]
  simp only [Validator.mergeListed, precedences_copy, members_copy, ids_apply,
    ← Std.ExtTreeSet.toList_filter, filter_constraints_apply]

theorem find?_replace (replaced : n.replace old new = .ok result) :
    result.find? id = (new.find? id).or (if id = old then none else n.find? id) := by
  obtain ⟨b, built, rfl⟩ := replace_eq_ok.mp replaced
  exact NetworkBuilder.getElem?_replace built id

theorem mem_constraints_replace (replaced : n.replace old new = .ok result) :
    d ∈ result.constraints ↔ (∃ c ∈ n.constraints, c.Fans old new.ids d) ∨ d ∈ new.constraints :=
  Set.ext_iff.mp (held_replace replaced) d

theorem ext_find? {n n' : Network} (tasks : ∀ id, n.find? id = n'.find? id)
    (constraints : ∀ c, c ∈ n.constraints ↔ c ∈ n'.constraints) : n = n' := by
  have sameTasks : n.tasks = n'.tasks := Std.ExtTreeMap.ext_getElem? fun {id} => tasks id
  have sameConstraints : n.constraints = n'.constraints := Std.ExtTreeSet.ext_mem constraints
  cases n
  cases n'
  simp_all

theorem apply_replace {applied : Network} (replaced : n.replace old new = .ok result)
    (replacedApplied : (n.apply s).replace old (new.apply s) = .ok applied) :
    applied = result.apply s := by
  refine ext_find? (fun id => ?_) fun d => ?_
  · rw [find?_apply, find?_replace replaced, find?_replace replacedApplied, find?_apply, find?_apply,
      Option.map_or, apply_ite (Option.map _), Option.map_none]
  · simp only [mem_constraints_apply, mem_constraints_replace replaced,
      mem_constraints_replace replacedApplied, ids_apply]
    constructor
    · rintro (⟨-, ⟨c, held, rfl⟩, fans⟩ | ⟨c, own, rfl⟩)
      · obtain ⟨e, left, rfl⟩ := Constraint.fans_apply.mp fans
        exact ⟨e, .inl ⟨c, held, left⟩, rfl⟩
      · exact ⟨c, .inr own, rfl⟩
    · rintro ⟨e, ⟨c, held, fans⟩ | own, rfl⟩
      · exact .inl ⟨c.apply s, ⟨c, held, rfl⟩, Constraint.fans_apply.mpr ⟨e, fans, rfl⟩⟩
      · exact .inr ⟨e, own, rfl⟩

/-- It makes no difference whether a substitution is applied to a network in which a task was replaced
or, before that, to the network and to what takes the place of the task. -/
theorem Valid.replace_apply (valid : n.Valid) (newValid : new.Valid) (old : TaskId)
    (s : Substitution) :
    (n.apply s).replace old (new.apply s) = (n.replace old new).map (·.apply s) := by
  cases replaced : n.replace old new with
  | error failure => exact (valid.replace_apply_eq_error newValid).mpr replaced
  | ok result =>
      cases replacedApplied : (n.apply s).replace old (new.apply s) with
      | error failure =>
          rw [valid.replace_apply_eq_error newValid, replaced] at replacedApplied
          cases replacedApplied
      | ok applied => exact congrArg Except.ok (apply_replace replaced replacedApplied)

-- The networks share a task, and the conditions become the same. The shared task would have to come
-- before itself if it took the place of the one before it.
theorem Valid.replace_apply_shared :
    let go (k : Nat) := (Task.newPrimitive "go" ["?x", "?y"] ⟨k, 1⟩).1
    let n := ofLists [go 1, go 2, go 3] [.precedence {⟨1⟩} {⟨2⟩},
      .before {⟨3⟩} (.holds "at" ["?x"]), .before {⟨3⟩} (.holds "at" ["?y"])]
    let new := ofLists [go 2, go 4] [.after {⟨4⟩} (.holds "at" ["?y"])]
    let s : Substitution := .ofList [(⟨"x", 0⟩, .const ⟨"home"⟩), (⟨"y", 0⟩, .const ⟨"home"⟩)]
    n.Valid ∧ new.Valid ∧
      (n.apply s).replace ⟨1⟩ (new.apply s) =
        .error (.invalidConstraint ⟨.precedence, .cycle ⟨2⟩ ⟨2⟩⟩) ∧
      ∃ result, n.replace ⟨3⟩ new = .ok result ∧ result.constraints.size = 4 ∧
        (n.apply s).replace ⟨3⟩ (new.apply s) = .ok (result.apply s) ∧
        (result.apply s).constraints.size = 3 := by
  intro go n new s
  have valid : n.Valid := valid_ofLists (by decide) (by decide) (by decide)
  have newValid : new.Valid := valid_ofLists (by decide) (by decide) (by decide)
  have refused : n.replace ⟨1⟩ new = .error (.invalidConstraint ⟨.precedence, .cycle ⟨2⟩ ⟨2⟩⟩) := by
    decide +kernel
  have merges : (n.replace ⟨3⟩ new).map (fun result => (result.constraints.size,
      (result.apply s).constraints.size)) = .ok (4, 3) := by decide +kernel
  cases replaced : n.replace ⟨3⟩ new with
  | error failure => simp [replaced, Except.map] at merges
  | ok result =>
      obtain ⟨size, merged⟩ : result.constraints.size = 4 ∧ (result.apply s).constraints.size = 3 := by
        simpa [replaced, Except.map] using merges
      refine ⟨valid, newValid, ?_, result, rfl, size, ?_, merged⟩
      · rw [valid.replace_apply newValid, refused]
        rfl
      · rw [valid.replace_apply newValid, replaced]
        rfl

end Network

end HtnPlanning
