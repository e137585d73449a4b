import HtnPlanning.Proofs.Linearization.Execution
import HtnPlanning.Proofs.Linearization.Refusal
import HtnPlanning.Proofs.Linearization.TaskOrder
import HtnPlanning.Samples.Juggling
import Mathlib.Data.Finset.Max

namespace HtnPlanning

inductive Domain.NoAction (d : Domain) (t : Task) : NotActionableReason → Prop where
  | unknownOperator (unknown : d.operator? t.name = none) : NoAction d t (.unknownOperator t.name)
  | arityMismatch {o : Operator} (operator : d.operator? t.name = some o) (arity : o.arity ≠ t.arity) :
      NoAction d t (.arityMismatch o.arity t.arity)
  | unboundArgument {o : Operator} {bound : List Constant} {v : Variable} {rest : List Term}
      (operator : d.operator? t.name = some o) (arity : o.arity = t.arity)
      (arguments : t.args = bound.map Term.const ++ .var v :: rest) :
      NoAction d t (.unboundArgument v)

inductive Domain.Stops (d : Domain) (s : State) (t : Task) : SearchFailure → Prop where
  | notActionable {reason : NotActionableReason} (noAction : d.NoAction t reason) :
      Stops d s t (.notActionable ⟨t.call, reason⟩)
  | preconditionFailed {o : Operator} {arguments : List Constant} {a : Action}
      (operator : d.operator? t.name = some o) (arity : o.arity = t.arity)
      (constants : t.args = arguments.map Term.const) (action : a = o.action arguments)
      (fails : s.ask (a.ground o.precondition) = false) :
      Stops d s t (.preconditionFailed a (a.ground o.precondition))

/-- Why no plan carries out tasks in an order, under the constraints on them: a task stops the ones
after it or, with no such task, the condition of a constraint does not hold. -/
inductive Domain.Rejects (d : Domain) (initial : State) (config : PlannerConfig)
    (constraints : ConstraintSet) (ordered : List Task) : SearchFailure → Prop where
  | stopped {plan : Plan} {done rest : List Task} {t : Task} {failure : SearchFailure}
      (order : ordered = done ++ t :: rest) (carriesOut : plan.CarriesOut d initial config ∅ done)
      (stops : d.Stops (d.stateAt config.stateProgression initial plan.actions done.length) t failure) :
      Rejects d initial config constraints ordered failure
  | violated {plan : Plan} {c : Constraint} {condition : Condition}
      (carriesOut : plan.CarriesOut d initial config ∅ ordered)
      (checks : config.checkConditions = true) (held : c ∈ constraints)
      (requires : c.condition? = some condition)
      (fails : ¬ c.HoldsAlong ordered (d.stateAt config.stateProgression initial plan.actions))
      (least : ∀ smaller ∈ constraints, compare smaller c = .lt →
        smaller.HoldsAlong ordered (d.stateAt config.stateProgression initial plan.actions)) :
      Rejects d initial config constraints ordered (.conditionViolated c.kind condition)

variable {d : Domain} {s initial : State} {progression : StateProgression} {t : Task}
  {e : Execution} {done ordered : List Task} {failure : SearchFailure} {setting : Setting}

theorem DomainIndex.action_ofDomain_eq_error {error : TaskNotActionable} :
    (DomainIndex.ofDomain d).action t = .error error ↔
      ∃ reason, d.NoAction t reason ∧ error = ⟨t.call, reason⟩ := by
  rw [action, operator?_ofDomain]
  constructor
  · intro failed
    split at failed
    next unknown =>
      cases failed
      exact ⟨_, .unknownOperator unknown, rfl⟩
    next o operator =>
      split at failed
      next arity =>
        cases failed
        exact ⟨_, .arityMismatch operator arity, rfl⟩
      next arity =>
        split at failed
        next v unbound =>
          cases failed
          obtain ⟨bound, rest, arguments⟩ := Constant.ofTerms_eq_error.mp unbound
          exact ⟨_, .unboundArgument operator (Decidable.not_not.mp arity) arguments, rfl⟩
        next => cases failed
  · rintro ⟨reason, noAction, rfl⟩
    cases noAction with
    | unknownOperator unknown => rw [unknown]
    | arityMismatch operator arity => simp only [operator, arity, ne_eq, not_false_eq_true, if_true]
    | unboundArgument operator arity arguments =>
        simp only [operator, arity, Constant.ofTerms_eq_error.mpr ⟨_, _, arguments⟩, ne_eq,
          not_true_eq_false, if_false]

theorem Domain.stops_iff : d.Stops s t failure ↔
    (∃ error, (DomainIndex.ofDomain d).action t = .error error ∧ failure = .notActionable error) ∨
      ∃ a o, (DomainIndex.ofDomain d).action t = .ok (a, o) ∧
        s.ask (a.ground o.precondition) = false ∧
        failure = .preconditionFailed a (a.ground o.precondition) := by
  constructor
  · intro stops
    cases stops with
    | notActionable noAction =>
        exact .inl ⟨_, DomainIndex.action_ofDomain_eq_error.mpr ⟨_, noAction, rfl⟩, rfl⟩
    | preconditionFailed operator arity constants action fails =>
        exact .inr ⟨_, _, DomainIndex.action_eq_ok.mpr ⟨operator, arity, _, constants, action⟩, fails, rfl⟩
  · rintro (⟨error, failed, rfl⟩ | ⟨a, o, action, fails, rfl⟩)
    · obtain ⟨reason, noAction, rfl⟩ := DomainIndex.action_ofDomain_eq_error.mp failed
      exact .notActionable noAction
    · obtain ⟨operator, arity, arguments, constants, same⟩ := DomainIndex.action_eq_ok.mp action
      exact .preconditionFailed operator arity constants same fails

namespace Execution

theorem Carried.perform_eq_error (carried : e.Carried d initial progression done) :
    e.perform (.ofDomain d) t = .error failure ↔
      d.Stops (d.stateAt progression initial e.actions done.length) t failure := by
  rw [Execution.perform_eq_error, Domain.stops_iff, carried.length, carried.before_eq (Nat.le_refl _)]

theorem Carried.carriesOut
    (carried : e.Carried d setting.state setting.config.stateProgression done) :
    (⟨e.actions⟩ : Plan).CarriesOut d setting.state setting.config ∅ done where
  length := carried.length
  performs := carried.performs
  conditions _ _ none := absurd none Std.ExtTreeSet.not_mem_empty

end Execution

theorem findSome?_toList {β : Type} {constraints : ConstraintSet} {f : Constraint → Option β} {b : β} :
    constraints.toList.findSome? f = some b ↔ ∃ c ∈ constraints, f c = some b ∧
      ∀ smaller ∈ constraints, compare smaller c = .lt → f smaller = none := by
  have sorted := constraints.ordered_toList
  simp only [← Std.ExtTreeSet.mem_toList]
  generalize constraints.toList = cs at sorted
  rw [List.findSome?_eq_some_iff]
  constructor
  · rintro ⟨earlier, c, later, rfl, found, passed⟩
    refine ⟨c, by simp, found, fun smaller member lt => ?_⟩
    obtain ⟨-, after, -⟩ := List.pairwise_append.mp sorted
    rcases List.mem_append.mp member with before | rest
    · exact passed smaller before
    · rcases List.mem_cons.mp rest with rfl | behind
      · exact absurd lt (by simp)
      · have gt := Std.OrientedCmp.gt_of_lt ((List.pairwise_cons.mp after).1 smaller behind)
        cases gt.symm.trans lt
  · rintro ⟨c, member, found, least⟩
    obtain ⟨earlier, later, rfl⟩ := List.append_of_mem member
    obtain ⟨-, -, across⟩ := List.pairwise_append.mp sorted
    exact ⟨earlier, c, later, rfl, found, fun smaller before =>
      least smaller (by simp [before]) (across smaller before c List.mem_cons_self)⟩

theorem Execution.Carried.findSome?_violation? {constraints : ConstraintSet}
    (carried : e.Carried d initial progression ordered) :
    constraints.toList.findSome? e.violation? = some failure ↔
      ∃ c ∈ constraints, ∃ condition, c.condition? = some condition ∧
        failure = .conditionViolated c.kind condition ∧
        ¬ c.HoldsAlong ordered (d.stateAt progression initial e.actions) ∧
        ∀ smaller ∈ constraints, compare smaller c = .lt →
          smaller.HoldsAlong ordered (d.stateAt progression initial e.actions) := by
  simp only [findSome?_toList, Execution.violation?_eq_some, Execution.violation?_eq_none,
    ← carried.satisfies_iff, Bool.not_eq_true]
  tauto

theorem exists_firstAt_lastAt {ids : TaskSet} (listed : t ∈ ordered) (member : t.id ∈ ids) :
    (∃ i, FirstAt ordered ids i) ∧ ∃ i, LastAt ordered ids i := by
  classical
  let places := {i ∈ Finset.range ordered.length | ∃ t, ordered[i]? = some t ∧ t.id ∈ ids}
  have place {i : Nat} : i ∈ places ↔ ∃ t, ordered[i]? = some t ∧ t.id ∈ ids := by
    rw [Finset.mem_filter, Finset.mem_range]
    refine and_iff_right_of_imp ?_
    rintro ⟨t, present, -⟩
    exact (List.getElem?_eq_some_iff.mp present).1
  obtain ⟨i, present⟩ := List.mem_iff_getElem?.mp listed
  have filled : places.Nonempty := ⟨i, place.mpr ⟨t, present, member⟩⟩
  refine ⟨⟨places.min' filled, place.mp (places.min'_mem filled), fun j u atJ inside => ?_⟩,
    places.max' filled, place.mp (places.max'_mem filled), fun j u atJ inside => ?_⟩
  · exact places.min'_le j (place.mpr ⟨u, atJ, inside⟩)
  · exact places.le_max' j (place.mpr ⟨u, atJ, inside⟩)

variable {n : Network}

theorem Setting.linearize_eq_error_iff (indexed : setting.index = .ofDomain d)
    (sorted : setting.sorter n.taskList n.constraints.toList = .ok ordered)
    (distinct : ordered.Pairwise fun t u => t.id ≠ u.id) :
    setting.linearize n = .error failure ↔
      d.Rejects setting.state setting.config n.constraints ordered failure := by
  rw [linearize_eq_error sorted, indexed]
  constructor
  · rintro (stopped | ⟨e, performed, checks, violated⟩)
    · obtain ⟨done, t, rest, e, rfl, performed, stops⟩ := Execution.performAll_eq_error.mp stopped
      have carried := Execution.carried_of_performAll (List.pairwise_append.mp distinct).1 performed
      exact .stopped rfl carried.carriesOut (carried.perform_eq_error.mp stops)
    · have carried := Execution.carried_of_performAll distinct performed
      obtain ⟨c, held, condition, requires, rfl, fails, least⟩ :=
        carried.findSome?_violation?.mp violated
      exact .violated carried.carriesOut checks held requires fails least
  · intro rejects
    cases rejects with
    | @stopped plan done rest t _ order carriesOut stops =>
        subst order
        have distinct := (List.pairwise_append.mp distinct).1
        obtain ⟨e, performed, actions⟩ := carriesOut.performAll distinct
        have carried := Execution.carried_of_performAll distinct performed
        rw [← actions] at stops
        exact .inl (Execution.performAll_eq_error.mpr
          ⟨done, t, rest, e, rfl, performed, carried.perform_eq_error.mpr stops⟩)
    | @violated plan c condition carriesOut checks held requires fails least =>
        obtain ⟨e, performed, actions⟩ := carriesOut.performAll distinct
        have carried := Execution.carried_of_performAll distinct performed
        rw [← actions] at fails least
        exact .inr ⟨e, performed, checks, carried.findSome?_violation?.mpr
          ⟨c, held, condition, requires, rfl, fails, least⟩⟩

/-- Whatever order the tasks of a valid network are put into, its plan is the one that carries them
out in that order. Without one, the failure is that of the first task that stops the others or of
the smallest constraint that does not hold. Every side of a constraint that names a task has a first
and a last position in the order. -/
theorem Setting.linearize_decides (indexed : setting.index = .ofDomain d) (valid : n.Valid)
    (sorted : setting.sorter n.taskList n.constraints.toList = .ok ordered)
    (perm : ordered.Perm n.taskList) :
    (∀ plan, setting.linearize n = .ok plan ↔
      plan.CarriesOut d setting.state setting.config n.constraints ordered) ∧
    (∀ failure, setting.linearize n = .error failure ↔
      d.Rejects setting.state setting.config n.constraints ordered failure) ∧
    ∀ c ∈ n.constraints, ∀ ids ∈ [c.first, c.second], ids ≠ ∅ →
      (∃ i, FirstAt ordered ids i) ∧ ∃ i, LastAt ordered ids i := by
  have distinct : ordered.Pairwise fun t u => t.id ≠ u.id :=
    perm.symm.pairwise (TaskOrder.distinct_taskList valid.toWellFormed) Ne.symm
  refine ⟨fun _ => linearize_eq_ok_of_sorted indexed sorted distinct,
    fun _ => linearize_eq_error_iff indexed sorted distinct, fun c held ids side filled => ?_⟩
  obtain ⟨id, inside⟩ := List.exists_mem_of_ne_nil _ (mt Std.ExtTreeSet.toList_eq_nil_iff.mp filled)
  have named : id ∈ c.references := by
    rw [Constraint.references, List.mem_append]
    rcases List.mem_pair.mp side with rfl | rfl
    · exact .inl inside
    · exact .inr inside
  obtain ⟨t, found⟩ := Network.contains_iff.mp (valid.closed c held id named)
  obtain rfl := valid.keyed found
  exact exists_firstAt_lastAt (perm.mem_iff.mpr (Network.mem_taskList.mpr ⟨_, found⟩))
    (Std.ExtTreeSet.mem_toList.mp inside)

-- The constraint asks for what its task takes away.
theorem Setting.linearize_decides_juggling :
    let drop := (Task.newPrimitive "drop" ["a"] ⟨1, 1⟩).1
    let pickup := (Task.newPrimitive "pickup" ["b"] ⟨2, 1⟩).1
    let held : Condition := .holds "have" ["a"]
    let n := Network.ofLists [drop, pickup] [.precedence {⟨1⟩} {⟨2⟩}, .after {⟨1⟩} held]
    let d := (Juggling.domain ⟨3, 1⟩).1
    let setting : Setting :=
      { index := .ofDomain d
        state := .ofList [.ofSymbols "have" ["a"]]
        config := { stateProgression := .apply, checkConditions := true } }
    n.Valid ∧ setting.sorter n.taskList n.constraints.toList = .ok [drop, pickup] ∧
      [drop, pickup].Perm n.taskList ∧
      d.Rejects setting.state setting.config n.constraints [drop, pickup]
        (.conditionViolated .after held) := by
  intro drop pickup held n d setting
  have valid : n.Valid := Network.valid_ofLists (by decide) (by decide) (by decide)
  have sorted : setting.sorter n.taskList n.constraints.toList = .ok [drop, pickup] := by
    decide +kernel
  have perm : [drop, pickup].Perm n.taskList := by decide +kernel
  have fails : setting.linearize n = .error (.conditionViolated .after held) := by decide +kernel
  exact ⟨valid, sorted, perm, ((linearize_decides rfl valid sorted perm).2.1 _).mp fails⟩

end HtnPlanning
