import HtnPlanning.Linearization
import HtnPlanning.Proofs.Domain.Index

/-!
# What it means to carry out an order of tasks

The states along a plan are those that its actions lead through from the initial state. A plan
carries out an order of tasks when each of its actions is the action of the task in its place and
may be done in the state it sees, and when every condition holds where its constraint asks for it.
-/

namespace HtnPlanning

namespace Domain

def after (d : Domain) (s : State) (a : Action) : State :=
  match d.operator? a.operator with
  | some o => s.applyEffects (a.groundEffects o)
  | none => s

def stateAt (d : Domain) (progression : StateProgression) (initial : State) (actions : List Action)
    (position : Nat) : State :=
  match progression with
  | .initial => initial
  | .apply => (actions.take position).foldl d.after initial

def Performs (d : Domain) (s : State) (t : Task) (a : Action) : Prop :=
  ∃ o arguments, d.operator? t.name = some o ∧ o.arity = t.arity ∧
    t.args = arguments.map Term.const ∧ a = o.action arguments ∧
    s.ask (a.ground o.precondition) = true

end Domain

/-! ## Where conditions have to hold -/

def FirstAt (ordered : List Task) (ids : TaskSet) (i : Nat) : Prop :=
  (∃ t, ordered[i]? = some t ∧ t.id ∈ ids) ∧ ∀ j t, ordered[j]? = some t → t.id ∈ ids → i ≤ j

def LastAt (ordered : List Task) (ids : TaskSet) (i : Nat) : Prop :=
  (∃ t, ordered[i]? = some t ∧ t.id ∈ ids) ∧ ∀ j t, ordered[j]? = some t → t.id ∈ ids → j ≤ i

/-- The condition of a constraint holds in the states along a plan: right before the first of the
tasks, right after the last one, or in every state between the two sets. -/
def Constraint.HoldsAlong (ordered : List Task) (stateAt : Nat → State) : Constraint → Prop
  | .precedence .. => True
  | .before tasks condition => ∀ i, FirstAt ordered tasks i → (stateAt i).ask condition = true
  | .after tasks condition => ∀ i, LastAt ordered tasks i → (stateAt (i + 1)).ask condition = true
  | .between earlier later condition => ∀ i j, LastAt ordered earlier i → FirstAt ordered later j →
      ∀ k, i < k → k ≤ j → (stateAt k).ask condition = true

structure Plan.CarriesOut (plan : Plan) (d : Domain) (initial : State) (config : PlannerConfig)
    (constraints : ConstraintSet) (ordered : List Task) : Prop where
  length : plan.actions.length = ordered.length
  performs : ∀ i t, ordered[i]? = some t → ∃ a, plan.actions[i]? = some a ∧
    d.Performs (d.stateAt config.stateProgression initial plan.actions i) t a
  conditions : config.checkConditions = true → ∀ c ∈ constraints,
    c.HoldsAlong ordered (d.stateAt config.stateProgression initial plan.actions)

/-! ## Actions -/

theorem Constant.ofTerms_eq_ok {terms : List Term} {constants : List Constant} :
    Constant.ofTerms terms = .ok constants ↔ terms = constants.map Term.const := by
  induction terms generalizing constants with
  | nil => cases constants <;> simp [ofTerms]
  | cons t terms ih =>
      cases t with
      | var v => cases constants <;> simp [ofTerms]
      | const c =>
          cases constants with
          | nil => cases rest : ofTerms terms <;> simp [ofTerms, rest, Except.map]
          | cons c' constants =>
              rw [List.map_cons, List.cons.injEq, ← ih, ofTerms]
              cases rest : ofTerms terms <;> simp [Except.map]

variable {d : Domain} {t : Task} {a : Action} {o : Operator}

theorem DomainIndex.action_eq_ok : (DomainIndex.ofDomain d).action t = .ok (a, o) ↔
    d.operator? t.name = some o ∧ o.arity = t.arity ∧
      ∃ arguments : List Constant, t.args = arguments.map Term.const ∧ a = o.action arguments := by
  rw [action, operator?_ofDomain]
  constructor
  · intro result
    split at result
    next => cases result
    next o' operator =>
      split at result
      next => cases result
      next arity =>
        split at result
        next => cases result
        next arguments constants =>
          cases result
          exact ⟨operator, Decidable.not_not.mp arity, arguments, Constant.ofTerms_eq_ok.mp constants, rfl⟩
  · rintro ⟨operator, arity, arguments, constants, rfl⟩
    simp only [operator, arity, Constant.ofTerms_eq_ok.mpr constants, ne_eq, not_true_eq_false, if_false]

theorem Domain.performs_iff {s : State} : d.Performs s t a ↔
    ∃ o, (DomainIndex.ofDomain d).action t = .ok (a, o) ∧ s.ask (a.ground o.precondition) = true := by
  simp only [DomainIndex.action_eq_ok, Performs]
  constructor
  · rintro ⟨o, arguments, operator, arity, constants, rfl, holds⟩
    exact ⟨o, ⟨operator, arity, arguments, constants, rfl⟩, holds⟩
  · rintro ⟨o, ⟨operator, arity, arguments, constants, rfl⟩, holds⟩
    exact ⟨o, arguments, operator, arity, constants, rfl, holds⟩

def Domain.action? (d : Domain) (t : Task) : Option Action :=
  ((DomainIndex.ofDomain d).action t).toOption.map Prod.fst

theorem Domain.Performs.action?_eq {s : State} (performs : d.Performs s t a) : d.action? t = some a := by
  obtain ⟨o, action, -⟩ := Domain.performs_iff.mp performs
  simp [action?, action, Except.toOption]

theorem Domain.performs_iff_ask {s : State} (action : (DomainIndex.ofDomain d).action t = .ok (a, o)) :
    d.Performs s t a ↔ s.ask (a.ground o.precondition) = true := by
  simp [Domain.performs_iff, action]

theorem Domain.Performs.eq {s : State} {b : Action} (performs : d.Performs s t b)
    (action : (DomainIndex.ofDomain d).action t = .ok (a, o)) : b = a := by
  have same := performs.action?_eq
  simpa [Domain.action?, action, Except.toOption, eq_comm] using same

theorem Plan.CarriesOut.actions_eq {plan : Plan} {initial : State} {config : PlannerConfig}
    {constraints : ConstraintSet} {ordered : List Task}
    (carriesOut : plan.CarriesOut d initial config constraints ordered) :
    plan.actions = ordered.filterMap d.action? := by
  have same : plan.actions.map some = ordered.map d.action? := by
    refine List.ext_getElem (by simp [carriesOut.length]) fun i inside inside' => ?_
    simp only [List.length_map] at inside inside'
    obtain ⟨a, present, performs⟩ := carriesOut.performs i _ (List.getElem?_eq_getElem inside')
    rw [List.getElem_map, List.getElem_map, performs.action?_eq]
    exact (List.getElem?_eq_getElem inside).symm.trans present
  calc plan.actions = (plan.actions.map some).filterMap id := by simp [List.filterMap_map]
    _ = (ordered.map d.action?).filterMap id := by rw [same]
    _ = ordered.filterMap d.action? := by rw [List.filterMap_map]; rfl

/-! ## Carrying out tasks one after another -/

structure Execution.Carried (d : Domain) (initial : State) (progression : StateProgression)
    (done : List Task) (e : Execution) : Prop where
  length : e.actions.length = done.length
  start : e.trajectory.initial = initial
  policy : e.trajectory.progression = progression
  applied : e.trajectory.applied.length = (if progression = .apply then done.length else 0)
  states : progression = .apply → ∀ i < done.length,
    e.trajectory.applied[i]? = some (d.stateAt progression initial e.actions (i + 1))
  positions : ∀ id i, e.positions[id]? = some i ↔ ∃ t : Task, done[i]? = some t ∧ t.id = id
  performs : ∀ i t, done[i]? = some t → ∃ a, e.actions[i]? = some a ∧
    d.Performs (d.stateAt progression initial e.actions i) t a

variable {initial : State} {progression : StateProgression} {done : List Task} {e next : Execution}

theorem Domain.stateAt_append {actions : List Action} {more : List Action} {i : Nat}
    (le : i ≤ actions.length) :
    d.stateAt progression initial (actions ++ more) i = d.stateAt progression initial actions i := by
  cases progression with
  | initial => rfl
  | apply => rw [stateAt, stateAt, List.take_append_of_le_length le]

theorem Domain.stateAt_succ {actions : List Action} :
    d.stateAt .apply initial (actions ++ [a]) (actions.length + 1) =
      d.after (d.stateAt .apply initial actions actions.length) a := by
  rw [stateAt, stateAt, List.take_of_length_le (by simp), List.take_length, List.foldl_append]
  rfl

theorem getElem?_concat {α : Type} {xs : List α} {x y : α} {i : Nat} :
    (xs ++ [x])[i]? = some y ↔ xs[i]? = some y ∨ i = xs.length ∧ x = y := by
  rw [List.getElem?_append]
  split
  next below => simp [Nat.ne_of_lt below]
  next above =>
    rw [List.getElem?_eq_none (Nat.le_of_not_lt above), List.getElem?_singleton]
    have place : i - xs.length = 0 ↔ i = xs.length := by omega
    simp [place]

namespace Execution

theorem carried_nil (setting : Setting) (d : Domain) :
    setting.execution.Carried d setting.state setting.config.stateProgression [] where
  length := rfl
  start := rfl
  policy := rfl
  applied := by split <;> rfl
  states _ i below := absurd below (Nat.not_lt_zero i)
  positions id i := by simp [Setting.execution]
  performs i t present := by simp at present

theorem Carried.before_eq (carried : e.Carried d initial progression done) {i : Nat}
    (le : i ≤ done.length) : e.trajectory.before i = d.stateAt progression initial e.actions i := by
  simp only [Trajectory.before, carried.policy, carried.start]
  cases progression with
  | initial => rfl
  | apply =>
      cases i with
      | zero => rfl
      | succ i => simp only [carried.states rfl i le, Option.getD_some]

theorem Carried.latest_eq (carried : e.Carried d initial .apply done) :
    e.trajectory.latest = d.stateAt .apply initial e.actions done.length := by
  have length := carried.applied
  rw [if_pos rfl] at length
  rw [Trajectory.latest, List.getLast?_eq_getElem?, length]
  cases size : done.length with
  | zero =>
      have empty := List.eq_nil_of_length_eq_zero (length.trans size)
      simp [empty, carried.start, Domain.stateAt]
  | succ last =>
      rw [Nat.add_sub_cancel, carried.states rfl last (by omega), Option.getD_some]

def recorded (e : Execution) (t : Task) (a : Action) (o : Operator) : Execution where
  trajectory := e.trajectory.advance (a.groundEffects o)
  positions := e.positions.insert t.id e.actions.length
  actions := e.actions ++ [a]

theorem perform_eq_ok {index : DomainIndex} : e.perform index t = .ok next ↔
    ∃ a o, index.action t = .ok (a, o) ∧
      (e.trajectory.before e.actions.length).ask (a.ground o.precondition) = true ∧
      e.recorded t a o = next := by
  rw [perform]
  cases index.action t with
  | error failure => simp
  | ok pair =>
      obtain ⟨a, o⟩ := pair
      simp only [Except.ok.injEq, Prod.mk.injEq]
      constructor
      · intro result
        split at result
        next holds => exact ⟨a, o, ⟨rfl, rfl⟩, holds, Except.ok.inj result⟩
        next => cases result
      · rintro ⟨a, o, ⟨rfl, rfl⟩, holds, rfl⟩
        rw [if_pos holds]
        rfl

theorem applied_recorded : (e.recorded t a o).trajectory.applied =
    if e.trajectory.progression = .apply then
      e.trajectory.applied ++ [e.trajectory.latest.applyEffects (a.groundEffects o)]
    else e.trajectory.applied := by
  rw [recorded, Trajectory.advance]
  cases e.trajectory.progression <;> rfl

theorem initial_recorded : (e.recorded t a o).trajectory.initial = e.trajectory.initial := by
  rw [recorded, Trajectory.advance]
  split <;> rfl

theorem progression_recorded :
    (e.recorded t a o).trajectory.progression = e.trajectory.progression := by
  rw [recorded, Trajectory.advance]
  split <;> rfl

theorem after_action {s : State} (action : (DomainIndex.ofDomain d).action t = .ok (a, o)) :
    d.after s a = s.applyEffects (a.groundEffects o) := by
  obtain ⟨operator, -, arguments, -, rfl⟩ := DomainIndex.action_eq_ok.mp action
  have name : o.name = t.name := by simpa using List.find?_some operator
  have same : d.operator? (o.action arguments).operator = some o := by
    rw [Operator.action, name, operator]
  rw [Domain.after, same]

theorem Carried.recorded (carried : e.Carried d initial progression done)
    (fresh : ∀ u ∈ done, u.id ≠ t.id) (action : (DomainIndex.ofDomain d).action t = .ok (a, o))
    (performs : d.Performs (d.stateAt progression initial e.actions done.length) t a) :
    (e.recorded t a o).Carried d initial progression (done ++ [t]) where
  length := by simp [Execution.recorded, carried.length]
  start := initial_recorded.trans carried.start
  policy := progression_recorded.trans carried.policy
  applied := by
    rw [applied_recorded, carried.policy]
    have length := carried.applied
    split <;> simp_all
  states apply i below := by
    subst apply
    have length := carried.applied
    rw [if_pos rfl] at length
    rw [applied_recorded, carried.policy, if_pos rfl]
    by_cases earlier : i < done.length
    · rw [List.getElem?_append_left (length.symm ▸ earlier), carried.states rfl i earlier,
        Execution.recorded, Domain.stateAt_append (carried.length.symm ▸ earlier)]
    · obtain rfl : i = done.length := by
        simp only [List.length_append, List.length_singleton] at below
        omega
      rw [← length, List.getElem?_concat_length, carried.latest_eq, ← after_action action, length,
        ← carried.length, ← Domain.stateAt_succ]
      rfl
  positions id i := by
    change (e.positions.insert t.id e.actions.length)[id]? = some i ↔ _
    simp only [Std.ExtTreeMap.getElem?_insert, Std.LawfulEqOrd.compare_eq_iff_eq, carried.length,
      getElem?_concat]
    by_cases same : t.id = id
    · rw [if_pos same, Option.some.injEq]
      constructor
      · rintro rfl
        exact ⟨t, .inr ⟨rfl, rfl⟩, same⟩
      · rintro ⟨u, present | ⟨last, -⟩, same'⟩
        · exact absurd (same'.trans same.symm) (fresh u (List.mem_of_getElem? present))
        · exact last.symm
    · rw [if_neg same, carried.positions]
      constructor
      · rintro ⟨u, present, same'⟩
        exact ⟨u, .inl present, same'⟩
      · rintro ⟨u, present | ⟨-, rfl⟩, same'⟩
        · exact ⟨u, present, same'⟩
        · exact absurd same' same
  performs i u present := by
    change ∃ b, (e.actions ++ [a])[i]? = some b ∧ d.Performs (d.stateAt _ _ (e.actions ++ [a]) i) u b
    rcases getElem?_concat.mp present with earlier | ⟨rfl, rfl⟩
    · obtain ⟨b, action, performs⟩ := carried.performs i u earlier
      have bound := (List.getElem?_eq_some_iff.mp action).1
      refine ⟨b, getElem?_concat.mpr (.inl action), ?_⟩
      rwa [Domain.stateAt_append (Nat.le_of_lt bound)]
    · refine ⟨a, getElem?_concat.mpr (.inr ⟨carried.length.symm, rfl⟩), ?_⟩
      rwa [Domain.stateAt_append (Nat.le_of_eq carried.length.symm)]

theorem Carried.performAll (carried : e.Carried d initial progression done) (tasks : List Task)
    (distinct : (done ++ tasks).Pairwise fun t u => t.id ≠ u.id)
    (performed : e.performAll (.ofDomain d) tasks = .ok next) :
    next.Carried d initial progression (done ++ tasks) := by
  induction tasks generalizing e done with
  | nil =>
      obtain rfl : e = next := by simpa [Execution.performAll, pure, Except.pure] using performed
      rwa [List.append_nil]
  | cons t tasks ih =>
      rw [Execution.performAll, List.foldlM_cons] at performed
      cases step : e.perform (.ofDomain d) t with
      | error failure => simp [step, bind, Except.bind] at performed
      | ok middle =>
          simp only [step, bind, Except.bind] at performed
          obtain ⟨a, o, action, holds, rfl⟩ := perform_eq_ok.mp step
          rw [carried.length, carried.before_eq (Nat.le_refl _)] at holds
          have fresh : ∀ u ∈ done, u.id ≠ t.id := fun u member =>
            (List.pairwise_append.mp distinct).2.2 u member t List.mem_cons_self
          rw [← List.singleton_append, ← List.append_assoc] at distinct ⊢
          exact ih (carried.recorded fresh action (Domain.performs_iff.mpr ⟨o, action, holds⟩)) distinct
            performed

theorem Carried.performAll_isOk (carried : e.Carried d initial progression done) (tasks : List Task)
    {actions : List Action} (distinct : (done ++ tasks).Pairwise fun t u => t.id ≠ u.id)
    (length : actions.length = (done ++ tasks).length) (begins : e.actions = actions.take done.length)
    (performs : ∀ i t, (done ++ tasks)[i]? = some t → ∃ a, actions[i]? = some a ∧
      d.Performs (d.stateAt progression initial actions i) t a) :
    ∃ next, e.performAll (.ofDomain d) tasks = .ok next ∧ next.actions = actions := by
  induction tasks generalizing e done with
  | nil =>
      rw [List.append_nil] at length
      refine ⟨e, rfl, ?_⟩
      rw [begins, ← length, List.take_length]
  | cons t tasks ih =>
      have place : (done ++ t :: tasks)[done.length]? = some t := by simp
      obtain ⟨a, present, doesIt⟩ := performs done.length t place
      have known : d.stateAt progression initial actions done.length =
          d.stateAt progression initial e.actions done.length := by
        rw [← List.take_append_drop done.length actions, ← begins,
          Domain.stateAt_append (Nat.le_of_eq carried.length.symm)]
      rw [known] at doesIt
      obtain ⟨o, action, holds⟩ := Domain.performs_iff.mp doesIt
      have step : e.perform (.ofDomain d) t = .ok (e.recorded t a o) := by
        refine perform_eq_ok.mpr ⟨a, o, action, ?_, rfl⟩
        rwa [carried.length, carried.before_eq (Nat.le_refl _)]
      have fresh : ∀ u ∈ done, u.id ≠ t.id := fun u member =>
        (List.pairwise_append.mp distinct).2.2 u member t List.mem_cons_self
      have begins' : (e.recorded t a o).actions = actions.take (done ++ [t]).length := by
        rw [List.length_append, List.length_singleton, List.take_add_one, present, ← begins]
        rfl
      rw [← List.singleton_append, ← List.append_assoc] at distinct length performs
      obtain ⟨next, performed, same⟩ :=
        ih (carried.recorded fresh action doesIt) distinct length begins' performs
      refine ⟨next, ?_, same⟩
      rw [Execution.performAll, List.foldlM_cons, step]
      exact performed

theorem carried_of_performAll {setting : Setting} {tasks : List Task}
    (distinct : tasks.Pairwise fun t u => t.id ≠ u.id)
    (performed : setting.execution.performAll (.ofDomain d) tasks = .ok e) :
    e.Carried d setting.state setting.config.stateProgression tasks :=
  (carried_nil setting d).performAll tasks distinct performed

/-! ## Conditions -/

theorem Carried.mem_positionsOf (carried : e.Carried d initial progression done) {ids : TaskSet}
    {i : Nat} : i ∈ e.positionsOf ids ↔ ∃ t, done[i]? = some t ∧ t.id ∈ ids := by
  simp only [positionsOf, List.mem_filterMap, Std.ExtTreeSet.mem_toList, carried.positions]
  constructor
  · rintro ⟨id, member, t, present, rfl⟩
    exact ⟨t, present, member⟩
  · rintro ⟨t, present, member⟩
    exact ⟨t.id, member, t, present, rfl⟩

theorem Carried.first?_eq_some (carried : e.Carried d initial progression done) {ids : TaskSet}
    {i : Nat} : e.first? ids = some i ↔ FirstAt done ids i := by
  rw [first?, List.min?_eq_some_iff, FirstAt, carried.mem_positionsOf]
  refine and_congr_right fun _ => ⟨fun least j t present member => ?_, fun least j known => ?_⟩
  · exact least j (carried.mem_positionsOf.mpr ⟨t, present, member⟩)
  · obtain ⟨t, present, member⟩ := carried.mem_positionsOf.mp known
    exact least j t present member

theorem Carried.last?_eq_some (carried : e.Carried d initial progression done) {ids : TaskSet}
    {i : Nat} : e.last? ids = some i ↔ LastAt done ids i := by
  rw [last?, List.max?_eq_some_iff, LastAt, carried.mem_positionsOf]
  refine and_congr_right fun _ => ⟨fun last j t present member => ?_, fun last j known => ?_⟩
  · exact last j (carried.mem_positionsOf.mpr ⟨t, present, member⟩)
  · obtain ⟨t, present, member⟩ := carried.mem_positionsOf.mp known
    exact last j t present member

theorem Carried.satisfies_iff (carried : e.Carried d initial progression done) {c : Constraint} :
    e.satisfies c = true ↔ c.HoldsAlong done (d.stateAt progression initial e.actions) := by
  have bound {i : Nat} {t : Task} (present : done[i]? = some t) : i < done.length :=
    (List.getElem?_eq_some_iff.mp present).1
  have holds (condition : Condition) {i : Nat} (le : i ≤ done.length) :
      e.holdsBefore condition i = (d.stateAt progression initial e.actions i).ask condition := by
    rw [holdsBefore, carried.before_eq le]
  cases c with
  | precedence earlier later => simp [satisfies, Constraint.HoldsAlong]
  | before tasks condition =>
      simp only [satisfies, Constraint.HoldsAlong, ← carried.first?_eq_some]
      cases first : e.first? tasks with
      | none => simp
      | some i =>
          obtain ⟨⟨t, present, -⟩, -⟩ := carried.first?_eq_some.mp first
          simp [holds condition (Nat.le_of_lt (bound present))]
  | after tasks condition =>
      simp only [satisfies, Constraint.HoldsAlong, ← carried.last?_eq_some]
      cases last : e.last? tasks with
      | none => simp
      | some i =>
          obtain ⟨⟨t, present, -⟩, -⟩ := carried.last?_eq_some.mp last
          simp [holds condition (bound present)]
  | between earlier later condition =>
      simp only [satisfies, Constraint.HoldsAlong, ← carried.last?_eq_some, ← carried.first?_eq_some]
      cases opening : e.last? earlier with
      | none => simp
      | some i =>
          cases closing : e.first? later with
          | none => simp
          | some j =>
              obtain ⟨⟨t, present, -⟩, -⟩ := carried.first?_eq_some.mp closing
              have inside (k : Nat) : k ∈ List.range' (i + 1) (j - i) ↔ i < k ∧ k ≤ j := by
                rw [List.mem_range'_1]
                omega
              simp only [List.all_eq_true, inside, Option.some.injEq]
              constructor
              · rintro all _ _ rfl rfl k after upTo
                have holdsAt := all k ⟨after, upTo⟩
                rwa [holds condition (Nat.le_trans upTo (Nat.le_of_lt (bound present)))] at holdsAt
              · rintro all k ⟨after, upTo⟩
                rw [holds condition (Nat.le_trans upTo (Nat.le_of_lt (bound present)))]
                exact all i j rfl rfl k after upTo

theorem violation?_eq_none {c : Constraint} : e.violation? c = none ↔ e.satisfies c = true := by
  rw [violation?]
  split
  next satisfied => simp [satisfied]
  next violated =>
    cases c with
    | precedence => simp [satisfies] at violated
    | before | after | between => simp [violated, Constraint.condition?]

end Execution

/-! ## Plans from networks -/

section Sorted

variable {setting : Setting} {n : Network} {plan : Plan} {ordered : List Task}

theorem Plan.CarriesOut.performAll {constraints : ConstraintSet}
    (carriesOut : plan.CarriesOut d setting.state setting.config constraints ordered)
    (distinct : ordered.Pairwise fun t u => t.id ≠ u.id) :
    ∃ e, setting.execution.performAll (.ofDomain d) ordered = .ok e ∧ e.actions = plan.actions :=
  (Execution.carried_nil setting d).performAll_isOk ordered distinct carriesOut.length rfl
    carriesOut.performs

theorem Setting.linearize_of_sorted
    (sorted : setting.sorter n.taskList n.constraints.toList = .ok ordered) :
    setting.linearize n = .ok plan ↔ ∃ e,
      setting.execution.performAll setting.index ordered = .ok e ∧
      (setting.config.checkConditions = true → ∀ c ∈ n.constraints, e.satisfies c = true) ∧
      ⟨e.actions⟩ = plan := by
  simp only [linearize, sorted, bind, Except.bind]
  cases setting.execution.performAll setting.index ordered with
  | error failure => simp
  | ok e =>
      have satisfied : n.constraints.toList.findSome? e.violation? = none ↔
          ∀ c ∈ n.constraints, e.satisfies c = true := by
        simp only [List.findSome?_eq_none_iff, Std.ExtTreeSet.mem_toList,
          Execution.violation?_eq_none]
      simp only [Except.ok.injEq, exists_eq_left', ← satisfied]
      cases setting.config.checkConditions with
      | false => simp [pure, Except.pure]
      | true =>
          cases n.constraints.toList.findSome? e.violation? <;>
            simp [throw, throwThe, MonadExceptOf.throw, pure, Except.pure]

theorem Setting.linearize_eq_ok_of_sorted (indexed : setting.index = .ofDomain d)
    (sorted : setting.sorter n.taskList n.constraints.toList = .ok ordered)
    (distinct : ordered.Pairwise fun t u => t.id ≠ u.id) :
    setting.linearize n = .ok plan ↔
      plan.CarriesOut d setting.state setting.config n.constraints ordered := by
  rw [linearize_of_sorted sorted, indexed]
  constructor
  · rintro ⟨e, performed, satisfied, rfl⟩
    have carried := Execution.carried_of_performAll distinct performed
    refine ⟨carried.length, carried.performs, fun checks c member => ?_⟩
    exact carried.satisfies_iff.mp (satisfied checks c member)
  · intro carriesOut
    obtain ⟨e, performed, actions⟩ := carriesOut.performAll distinct
    have carried := Execution.carried_of_performAll distinct performed
    refine ⟨e, performed, fun checks c member => carried.satisfies_iff.mpr ?_, by rw [actions]⟩
    rw [actions]
    exact carriesOut.conditions checks c member

theorem Setting.linearize_eq_ok (indexed : setting.index = .ofDomain d) (distinct : ∀ ordered,
      setting.sorter n.taskList n.constraints.toList = .ok ordered →
      ordered.Pairwise fun t u => t.id ≠ u.id) :
    setting.linearize n = .ok plan ↔
      ∃ ordered, setting.sorter n.taskList n.constraints.toList = .ok ordered ∧
        plan.CarriesOut d setting.state setting.config n.constraints ordered := by
  cases sorted : setting.sorter n.taskList n.constraints.toList with
  | error failure => simp [linearize, sorted, bind, Except.bind]
  | ok ordered => simp [linearize_eq_ok_of_sorted indexed sorted (distinct ordered sorted)]

end Sorted

end HtnPlanning
