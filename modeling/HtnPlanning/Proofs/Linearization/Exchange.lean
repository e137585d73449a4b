import HtnPlanning.Proofs.Linearization.CanonicalOrder
import HtnPlanning.Proofs.Linearization.Decision
import HtnPlanning.Proofs.Logic.Frame
import Mathlib.Logic.Equiv.Basic

/-!
# Exchanging tasks of a plan

When every action sees what those before it have done, the order of tasks decides whether there is a
plan, and only one order is tried. Another order can be brought to it by exchanging neighbours that
stand the wrong way round. So a plan is missed only if it cannot bear such an exchange.
-/

namespace HtnPlanning

open Relation (ReflTransGen)

/-! ## Neighbours in a list -/

section Lists

variable {α : Type} {may : α → α → Prop} {l l' before after : List α} {x y : α}

def Exchanged (may : α → α → Prop) (l l' : List α) : Prop :=
  ∃ before x y after, may x y ∧ l = before ++ x :: y :: after ∧ l' = before ++ y :: x :: after

theorem exchanges_cons (x : α) (steps : ReflTransGen (Exchanged may) l l') :
    ReflTransGen (Exchanged may) (x :: l) (x :: l') := by
  refine steps.lift (x :: ·) ?_
  rintro - - ⟨before, y, z, after, allowed, rfl, rfl⟩
  exact ⟨x :: before, y, z, after, allowed, rfl, rfl⟩

theorem exchanges_front (allowed : ∀ y ∈ before, may y x) :
    ReflTransGen (Exchanged may) (before ++ x :: after) (x :: (before ++ after)) := by
  induction before with
  | nil => exact .refl
  | cons y before ih =>
      have moved := exchanges_cons y (ih fun z member => allowed z (List.mem_cons_of_mem y member))
      exact moved.tail ⟨[], y, x, before ++ after, allowed y List.mem_cons_self, rfl, rfl⟩

theorem exchanges_of_perm (perm : l.Perm l')
    (allowed : ∀ x y, [x, y].Sublist l → [y, x].Sublist l' → may x y) :
    ReflTransGen (Exchanged may) l l' := by
  induction l' generalizing l with
  | nil => exact perm.eq_nil ▸ .refl
  | cons x rest ih =>
      obtain ⟨before, after, rfl⟩ := List.append_of_mem (perm.mem_iff.mpr List.mem_cons_self)
      have perm : (before ++ after).Perm rest := (List.perm_middle.symm.trans perm).cons_inv
      have fewer : (before ++ after).Sublist (before ++ x :: after) :=
        (List.sublist_cons_self x after).append_left before
      -- Those before the first of the target come after it there, so it may pass all of them.
      have front : ReflTransGen (Exchanged may) (before ++ x :: after) (x :: (before ++ after)) := by
        refine exchanges_front fun y member => ?_
        have first : [y, x].Sublist (before ++ x :: after) :=
          (List.singleton_sublist.mpr member).append (List.singleton_sublist.mpr List.mem_cons_self)
        have later : y ∈ rest := perm.subset (List.mem_append_left after member)
        exact allowed y x first (List.cons_sublist_cons.mpr (List.singleton_sublist.mpr later))
      refine front.trans (exchanges_cons x (ih perm fun y z inOrder turned => ?_))
      exact allowed y z (inOrder.trans fewer) (turned.cons x)

theorem getElem?_exchanged (k : Nat) : (before ++ y :: x :: after)[k]? =
    (before ++ x :: y :: after)[Equiv.swap before.length (before.length + 1) k]? := by
  rw [Equiv.swap_apply_def]
  split
  next first => simp [first]
  next =>
    split
    next second => simp [second]
    next =>
      rcases Nat.lt_or_ge k before.length with inside | beyond
      · simp [List.getElem?_append_left inside]
      · obtain ⟨j, rfl⟩ : ∃ j, k = before.length + (j + 2) := ⟨k - before.length - 2, by omega⟩
        simp [List.getElem?_append_right]

end Lists

/-! ## Where tasks and conditions are -/

section Places

variable {before after : List Task} {t u : Task} {ids : TaskSet} {i : Nat} {c : Constraint}
  {states states' : Nat → State}

theorem mem_exchanged {v : Task} :
    v ∈ before ++ u :: t :: after ↔ v ∈ before ++ t :: u :: after := by
  simp only [List.mem_append, List.mem_cons, or_left_comm (a := v = u)]

theorem FirstAt.exchange (first : FirstAt (before ++ u :: t :: after) ids i) :
    ∃ j, FirstAt (before ++ t :: u :: after) ids j ∧ (j = i ∨
      (before.length ≤ i ∧ i ≤ before.length + 1) ∧ before.length ≤ j ∧ j ≤ before.length + 1) := by
  obtain ⟨⟨v, place, member⟩, least⟩ := first
  obtain ⟨j, firstAt⟩ :=
    (exists_firstAt_lastAt (mem_exchanged.mp (List.mem_of_getElem? place)) member).1
  obtain ⟨⟨w, place', member'⟩, least'⟩ := id firstAt
  rw [getElem?_exchanged, Equiv.swap_apply_def] at place place'
  have below := least' _ v place member
  have above := least _ w place' member'
  exact ⟨j, firstAt, by split_ifs at below above <;> omega⟩

theorem LastAt.exchange (last : LastAt (before ++ u :: t :: after) ids i) :
    ∃ j, LastAt (before ++ t :: u :: after) ids j ∧ (j = i ∨
      (before.length ≤ i ∧ i ≤ before.length + 1) ∧ before.length ≤ j ∧ j ≤ before.length + 1) := by
  obtain ⟨⟨v, place, member⟩, greatest⟩ := last
  obtain ⟨j, lastAt⟩ :=
    (exists_firstAt_lastAt (mem_exchanged.mp (List.mem_of_getElem? place)) member).2
  obtain ⟨⟨w, place', member'⟩, greatest'⟩ := id lastAt
  rw [getElem?_exchanged, Equiv.swap_apply_def] at place place'
  have above := greatest' _ v place member
  have below := greatest _ w place' member'
  exact ⟨j, lastAt, by split_ifs at below above <;> omega⟩

theorem Constraint.HoldsAlong.exchange (holds : c.HoldsAlong (before ++ t :: u :: after) states)
    (same : ∀ condition, c.condition? = some condition → ∀ k,
      (states' k).ask condition = (states k).ask condition)
    (flat : ∀ condition, c.condition? = some condition → ∀ k, before.length ≤ k →
      k ≤ before.length + 2 → (states k).ask condition = (states before.length).ask condition)
    (apart : ¬ (u.id ∈ c.first ∧ t.id ∈ c.second)) :
    c.HoldsAlong (before ++ u :: t :: after) states' := by
  cases c with
  | precedence => trivial
  | before tasks condition =>
      intro i first
      obtain ⟨j, first, near⟩ := first.exchange
      rw [same condition rfl, ← holds j first]
      rcases near with rfl | ⟨⟨_, _⟩, _, _⟩
      · rfl
      · rw [flat condition rfl i (by omega) (by omega), flat condition rfl j (by omega) (by omega)]
  | after tasks condition =>
      intro i last
      obtain ⟨j, last, near⟩ := last.exchange
      rw [same condition rfl, ← holds j last]
      rcases near with rfl | ⟨⟨_, _⟩, _, _⟩
      · rfl
      · rw [flat condition rfl (i + 1) (by omega) (by omega),
          flat condition rfl (j + 1) (by omega) (by omega)]
  | between earlier later condition =>
      intro i j last first k after upTo
      obtain ⟨i₀, last₀, nearLast⟩ := last.exchange
      obtain ⟨j₀, first₀, nearFirst⟩ := first.exchange
      -- The two tasks do not become the end of one side and the start of the other.
      have open_ : ¬ (i = before.length ∧ j = before.length + 1) := by
        rintro ⟨rfl, rfl⟩
        obtain ⟨⟨v, place, member⟩, -⟩ := last
        obtain ⟨⟨w, place', member'⟩, -⟩ := first
        simp at place place'
        exact apart ⟨place ▸ member, place' ▸ member'⟩
      rw [same condition rfl]
      by_cases inside : i₀ < k ∧ k ≤ j₀
      · exact holds i₀ j₀ last₀ first₀ k inside.1 inside.2
      · obtain ⟨k₀, opened, closed, _, _, _, _⟩ : ∃ k₀, i₀ < k₀ ∧ k₀ ≤ j₀ ∧ before.length ≤ k₀ ∧
            k₀ ≤ before.length + 2 ∧ before.length ≤ k ∧ k ≤ before.length + 2 := by
          by_cases early : k ≤ i₀
          · exact ⟨before.length + 2, by omega, by omega, by omega, by omega, by omega, by omega⟩
          · exact ⟨before.length, by omega, by omega, by omega, by omega, by omega, by omega⟩
        rw [flat condition rfl k (by omega) (by omega), ← flat condition rfl k₀ (by omega) (by omega)]
        exact holds i₀ j₀ last₀ first₀ k₀ opened closed

end Places

/-! ## Plans -/

def Domain.InTurn (d : Domain) (s : State) (t u : Task) (a b : Action) : Prop :=
  d.Performs s t a ∧ d.Performs (d.after s a) u b

/-- Of two tasks carried out in turn the second may as well come first: the first can still follow it,
to the same state. Where conditions are checked, none notices, and none is asked from the end of the
second task to the start of the first. -/
structure Domain.Exchangeable (d : Domain) (config : PlannerConfig) (constraints : ConstraintSet)
    (t u : Task) : Prop where
  turned : ∀ {s a b}, d.InTurn s t u a b → d.InTurn s u t b a
  same : ∀ {s a b}, d.InTurn s t u a b → d.after (d.after s b) a = d.after (d.after s a) b
  unnoticed : config.checkConditions = true → ∀ {s a b}, d.InTurn s t u a b → ∀ c ∈ constraints,
    ∀ condition, c.condition? = some condition →
      ∀ s' ∈ [d.after s a, d.after s b, d.after (d.after s a) b], s'.ask condition = s.ask condition
  apart : config.checkConditions = true → ∀ c ∈ constraints, ¬ (u.id ∈ c.first ∧ t.id ∈ c.second)

theorem Domain.exchangeable_of_apart {d : Domain} {config : PlannerConfig}
    {constraints : ConstraintSet} {t u : Task} {a b : Action} {o p : Operator}
    (first : (DomainIndex.ofDomain d).action t = .ok (a, o))
    (second : (DomainIndex.ofDomain d).action u = .ok (b, p))
    (agree : ∀ e ∈ a.groundEffects o, ∀ f ∈ b.groundEffects p, e.atom = f.atom → e = f)
    (kept : ∀ e ∈ a.groundEffects o, e.atom ∉ (b.ground p.precondition).atoms)
    (keptFirst : ∀ f ∈ b.groundEffects p, f.atom ∉ (a.ground o.precondition).atoms)
    (unasked : ∀ e ∈ a.groundEffects o ++ b.groundEffects p, ∀ c ∈ constraints, ∀ condition,
      c.condition? = some condition → e.atom ∉ condition.atoms)
    (apart : ∀ c ∈ constraints, ¬ (u.id ∈ c.first ∧ t.id ∈ c.second)) :
    d.Exchangeable config constraints t u := by
  have after (s : State) : d.after s a = s.applyEffects (a.groundEffects o) :=
    Execution.after_action first
  have afterSecond (s : State) : d.after s b = s.applyEffects (b.groundEffects p) :=
    Execution.after_action second
  constructor
  · intro s a' b' inTurn
    obtain ⟨rfl, rfl⟩ := And.intro (inTurn.1.eq first) (inTurn.2.eq second)
    obtain ⟨start, next⟩ := inTurn
    rw [performs_iff_ask first] at start
    rw [performs_iff_ask second, after, State.ask_applyEffects kept] at next
    refine ⟨(performs_iff_ask second).mpr next, (performs_iff_ask first).mpr ?_⟩
    rwa [afterSecond, State.ask_applyEffects keptFirst]
  · intro s a' b' inTurn
    obtain ⟨rfl, rfl⟩ := And.intro (inTurn.1.eq first) (inTurn.2.eq second)
    simp only [after, afterSecond]
    exact (State.applyEffects_comm agree).symm
  · intro _ s a' b' inTurn c held condition requires
    obtain ⟨rfl, rfl⟩ := And.intro (inTurn.1.eq first) (inTurn.2.eq second)
    rw [List.forall_mem_append] at unasked
    have free (s : State) : (d.after s a').ask condition = s.ask condition := by
      rw [after, State.ask_applyEffects fun e member => unasked.1 e member c held condition requires]
    have freeSecond (s : State) : (d.after s b').ask condition = s.ask condition := by
      rw [afterSecond,
        State.ask_applyEffects fun e member => unasked.2 e member c held condition requires]
    simp [free, freeSecond]
  · exact fun _ => apart

section Plans

variable {d : Domain} {initial : State} {config : PlannerConfig} {constraints : ConstraintSet}
  {t u : Task} {before after ordered : List Task} {a b : Action} {as bs : List Action} {k : Nat}

theorem Domain.stateAt_length {progression : StateProgression} :
    d.stateAt progression initial (as ++ bs) as.length = d.stateAt progression initial as as.length :=
  d.stateAt_append (Nat.le_refl _)

theorem Domain.stateAt_length_succ : d.stateAt .apply initial (as ++ a :: bs) (as.length + 1) =
    d.after (d.stateAt .apply initial as as.length) a := by
  have whole : as.take (as.length + 1) = as := List.take_of_length_le (by omega)
  simp [stateAt, List.take_append, whole]

theorem Domain.stateAt_length_add : d.stateAt .apply initial (as ++ a :: b :: bs) (as.length + 2 + k) =
    (bs.take k).foldl d.after (d.after (d.after (d.stateAt .apply initial as as.length) a) b) := by
  have whole : as.take (as.length + 2 + k) = as := List.take_of_length_le (by omega)
  have rest : as.length + 2 + k - as.length = k + 2 := by omega
  simp [stateAt, List.take_append, whole, rest]

theorem Domain.stateAt_exchanged
    (same : d.after (d.after (d.stateAt .apply initial as as.length) b) a =
      d.after (d.after (d.stateAt .apply initial as as.length) a) b) (other : k ≠ as.length + 1) :
    d.stateAt .apply initial (as ++ b :: a :: bs) k = d.stateAt .apply initial (as ++ a :: b :: bs) k := by
  by_cases early : k ≤ as.length
  · rw [stateAt_append early, stateAt_append early]
  · -- Both actions were done, to the same state, and the same actions follow.
    obtain ⟨j, rfl⟩ : ∃ j, k = as.length + 2 + j := ⟨k - as.length - 2, by omega⟩
    rw [stateAt_length_add, stateAt_length_add, same]

theorem exists_split (length : as.length = (before ++ t :: u :: after).length) :
    ∃ first a b rest, as = first ++ a :: b :: rest ∧ first.length = before.length := by
  have bound : before.length + 2 ≤ as.length := by simp [length]
  refine ⟨as.take before.length, as[before.length], as[before.length + 1],
    as.drop (before.length + 2), ?_, by simp; omega⟩
  rw [List.getElem_cons_drop, List.getElem_cons_drop, List.take_append_drop]

section Neighbours

variable {plan : Plan} (apply : config.stateProgression = .apply)
  (carriesOut : plan.CarriesOut d initial config constraints (before ++ t :: u :: after))
  (actions : plan.actions = as ++ a :: b :: bs) (place : as.length = before.length)
include apply carriesOut actions place

theorem Plan.CarriesOut.inTurn : d.InTurn (d.stateAt .apply initial as as.length) t u a b := by
  have performs := carriesOut.performs
  rw [apply, actions] at performs
  obtain ⟨a', at_, first⟩ := performs as.length t (by simp [place])
  obtain ⟨b', at_', second⟩ := performs (as.length + 1) u (by simp [place])
  obtain rfl : a = a' := by simpa using at_
  obtain rfl : b = b' := by simpa using at_'
  rw [Domain.stateAt_length] at first
  rw [Domain.stateAt_length_succ] at second
  exact ⟨first, second⟩

variable (exchangeable : d.Exchangeable config constraints t u)
include exchangeable

theorem Plan.CarriesOut.performs_exchanged {i : Nat} {v : Task}
    (listed : (before ++ u :: t :: after)[i]? = some v) :
    ∃ c, (as ++ b :: a :: bs)[i]? = some c ∧
      d.Performs (d.stateAt .apply initial (as ++ b :: a :: bs) i) v c := by
  have inTurn := carriesOut.inTurn apply actions place
  obtain ⟨turnedFirst, turnedSecond⟩ := exchangeable.turned inTurn
  by_cases first : i = as.length
  · subst first
    obtain rfl : u = v := by simpa [place] using listed
    exact ⟨b, by simp, Domain.stateAt_length ▸ turnedFirst⟩
  · by_cases second : i = as.length + 1
    · subst second
      obtain rfl : t = v := by simpa [place] using listed
      exact ⟨a, by simp, Domain.stateAt_length_succ ▸ turnedSecond⟩
    · have performs := carriesOut.performs i v
      rw [apply, actions] at performs
      rw [Domain.stateAt_exchanged (exchangeable.same inTurn) second, getElem?_exchanged,
        Equiv.swap_apply_of_ne_of_ne first second]
      rw [getElem?_exchanged, ← place, Equiv.swap_apply_of_ne_of_ne first second] at listed
      exact performs listed

theorem Plan.CarriesOut.holdsAlong_exchanged (checks : config.checkConditions = true) {c : Constraint}
    (held : c ∈ constraints) :
    c.HoldsAlong (before ++ u :: t :: after) (d.stateAt .apply initial (as ++ b :: a :: bs)) := by
  have inTurn := carriesOut.inTurn apply actions place
  have holds := carriesOut.conditions checks c held
  rw [apply, actions] at holds
  have unnoticed := exchangeable.unnoticed checks inTurn c held
  simp only [List.forall_mem_cons] at unnoticed
  have here : d.stateAt .apply initial (as ++ a :: b :: bs) as.length =
    d.stateAt .apply initial as as.length := Domain.stateAt_length
  have next : d.stateAt .apply initial (as ++ a :: b :: bs) (as.length + 1) = _ :=
    Domain.stateAt_length_succ
  have last : d.stateAt .apply initial (as ++ a :: b :: bs) (as.length + 2) = _ :=
    Domain.stateAt_length_add (k := 0)
  refine holds.exchange ?_ ?_ (exchangeable.apart checks c held)
  · intro condition requires k
    obtain ⟨first, second, -⟩ := unnoticed condition requires
    by_cases between : k = as.length + 1
    · rw [between, next, Domain.stateAt_length_succ, first, second]
    · rw [Domain.stateAt_exchanged (exchangeable.same inTurn) between]
  · intro condition requires k above below
    obtain ⟨first, -, both, -⟩ := unnoticed condition requires
    rw [← place] at above below ⊢
    obtain rfl | rfl | rfl : k = as.length ∨ k = as.length + 1 ∨ k = as.length + 2 := by omega
    · rfl
    · rw [next, here, first]
    · rw [last, here]
      exact both

end Neighbours

theorem Plan.CarriesOut.exchange {plan : Plan} (apply : config.stateProgression = .apply)
    (carriesOut : plan.CarriesOut d initial config constraints (before ++ t :: u :: after))
    (exchangeable : d.Exchangeable config constraints t u) :
    ∃ plan : Plan, plan.CarriesOut d initial config constraints (before ++ u :: t :: after) := by
  obtain ⟨as, a, b, bs, actions, place⟩ := exists_split carriesOut.length
  refine ⟨⟨as ++ b :: a :: bs⟩, ?_, fun i v listed => ?_, fun checks c held => ?_⟩
  · have length := carriesOut.length
    rw [actions] at length
    simpa using length
  · rw [apply]
    exact carriesOut.performs_exchanged apply actions place exchangeable listed
  · rw [apply]
    exact carriesOut.holdsAlong_exchanged apply actions place exchangeable checks held

theorem Plan.CarriesOut.exchanges {ordered tried : List Task} {plan : Plan}
    (apply : config.stateProgression = .apply)
    (steps : ReflTransGen (Exchanged (d.Exchangeable config constraints)) ordered tried)
    (carriesOut : plan.CarriesOut d initial config constraints ordered) :
    ∃ plan : Plan, plan.CarriesOut d initial config constraints tried := by
  induction steps with
  | refl => exact ⟨plan, carriesOut⟩
  | tail _ step ih =>
      obtain ⟨before, t, u, after, exchangeable, rfl, rfl⟩ := step
      obtain ⟨plan, carriesOut⟩ := ih
      exact carriesOut.exchange apply exchangeable

end Plans

section Tried

variable {d : Domain} {setting : Setting} {n : Network}

/-- In the states that its actions lead to, a valid network has one order that is tried, and a plan
is found exactly if one carries out that order. It is found if one carries out any order in which
every two tasks that are tried the other way round can be exchanged, and has the same actions. -/
theorem Setting.linearize_of_exchangeable (indexed : setting.index = .ofDomain d)
    (sorts : setting.sorter = TaskOrder.topological)
    (applied : setting.config.stateProgression = .apply) (valid : n.Valid) :
    ∃ tried, TaskOrder.Arranges n.taskList n.constraints.toList tried ∧
      setting.sorter n.taskList n.constraints.toList = .ok tried ∧
      (∀ plan, setting.linearize n = .ok plan ↔
        plan.CarriesOut d setting.state setting.config n.constraints tried) ∧
      ∀ ordered, TaskOrder.Arranges n.taskList n.constraints.toList ordered →
        (∀ t u, [t, u].Sublist ordered → [u, t].Sublist tried →
          d.Exchangeable setting.config n.constraints t u) →
        ∀ plan : Plan, plan.CarriesOut d setting.state setting.config n.constraints ordered →
          ∃ found, setting.linearize n = .ok found ∧ found.actions.Perm plan.actions := by
  have distinct := TaskOrder.distinct_taskList valid.toWellFormed
  obtain ⟨tried, sorted⟩ := TaskOrder.topological_isOk valid
  have arranges := TaskOrder.arranges_of_topological distinct sorted
  rw [← sorts] at sorted
  have decides {plan : Plan} : setting.linearize n = .ok plan ↔
      plan.CarriesOut d setting.state setting.config n.constraints tried :=
    linearize_eq_ok_of_sorted indexed sorted
      (TaskOrder.distinct_of_perm valid.toWellFormed arranges.perm)
  refine ⟨tried, arranges, sorted, fun _ => decides, fun ordered other exchangeable plan carriesOut => ?_⟩
  have perm := other.perm.trans arranges.perm.symm
  obtain ⟨found, carriesOutTried⟩ :=
    carriesOut.exchanges applied (exchanges_of_perm perm exchangeable)
  refine ⟨found, decides.mpr carriesOutTried, ?_⟩
  rw [carriesOut.actions_eq, carriesOutTried.actions_eq]
  exact (perm.filterMap _).symm

theorem TaskOrder.arranges_of_perm {tasks ordered : List Task} {constraints : List Constraint}
    (free : ∀ c ∈ constraints, c.edges = []) (perm : ordered.Perm tasks) :
    Arranges tasks constraints ordered := by
  refine ⟨perm, fun p q before => ?_⟩
  obtain ⟨⟨c, held, edge⟩, -⟩ := before
  simp [free c held] at edge

theorem Setting.exists_carriesOut {ordered : List Task} (indexed : setting.index = .ofDomain d)
    (distinct : ordered.Pairwise fun t u => t.id ≠ u.id)
    (isOk : ({ setting with sorter := fun _ _ => .ok ordered }.linearize n).isOk = true) :
    ∃ plan : Plan, plan.CarriesOut d setting.state setting.config n.constraints ordered := by
  cases result : { setting with sorter := fun _ _ => .ok ordered }.linearize n with
  | error failure => simp [result, Except.isOk, Except.toBool] at isOk
  | ok plan =>
      let setting : Setting := { setting with sorter := fun _ _ => .ok ordered }
      have decides : setting.linearize n = .ok plan ↔ _ :=
        linearize_eq_ok_of_sorted indexed rfl distinct
      exact ⟨plan, decides.mp result⟩

-- The task that is tried last comes first, and a condition is asked after it.
theorem Setting.linearize_of_exchangeable_juggling :
    let drop := (Task.newPrimitive "drop" ["a"] ⟨1, 1⟩).1
    let pickup := (Task.newPrimitive "pickup" ["b"] ⟨2, 1⟩).1
    let n := Network.ofLists [drop, pickup] [.after {⟨2⟩} (.lacks "have" ["c"])]
    let d := (Juggling.domain ⟨3, 1⟩).1
    let setting : Setting :=
      { index := .ofDomain d
        state := .ofList [.ofSymbols "have" ["a"]]
        config := { stateProgression := .apply } }
    n.Valid ∧ TaskOrder.Arranges n.taskList n.constraints.toList [pickup, drop] ∧
      setting.sorter n.taskList n.constraints.toList = .ok [drop, pickup] ∧
      d.Exchangeable setting.config n.constraints pickup drop ∧
      ∃ plan : Plan,
        plan.CarriesOut d setting.state setting.config n.constraints [pickup, drop] ∧
        ∃ found, setting.linearize n = .ok found ∧ found.actions.Perm plan.actions := by
  intro drop pickup n d setting
  have valid : n.Valid := Network.valid_ofLists (by decide) (by decide) (by decide)
  have arranges : TaskOrder.Arranges n.taskList n.constraints.toList [pickup, drop] :=
    TaskOrder.arranges_of_perm (by decide +kernel) (by decide +kernel)
  have sorted : setting.sorter n.taskList n.constraints.toList = .ok [drop, pickup] := by
    decide +kernel
  have picks : (DomainIndex.ofDomain d).action pickup =
      .ok (Juggling.pickup.action [⟨"b"⟩], Juggling.pickup) := by decide +kernel
  have drops : (DomainIndex.ofDomain d).action drop =
      .ok (Juggling.drop.action [⟨"a"⟩], Juggling.drop) := by decide +kernel
  have exchangeable : d.Exchangeable setting.config n.constraints pickup drop := by
    refine Domain.exchangeable_of_apart picks drops (by decide +kernel) (by decide +kernel)
      (by decide +kernel) ?_ ?_
    all_goals simp only [← Std.ExtTreeSet.mem_toList, ← Option.mem_def]
    all_goals decide +kernel
  obtain ⟨plan, carriesOut⟩ : ∃ plan : Plan,
      plan.CarriesOut d setting.state setting.config n.constraints [pickup, drop] :=
    exists_carriesOut rfl (by decide) (by decide +kernel)
  refine ⟨valid, arranges, sorted, exchangeable, plan, carriesOut, ?_⟩
  obtain ⟨tried, -, triedFirst, -, finds⟩ :=
    linearize_of_exchangeable (d := d) (show setting.index = .ofDomain d from rfl) rfl rfl valid
  obtain rfl := Except.ok.inj (sorted.symm.trans triedFirst)
  refine finds _ arranges (fun t u inOrder _ => ?_) plan carriesOut
  obtain ⟨rfl, rfl⟩ : t = pickup ∧ u = drop := by simpa using inOrder.eq_of_length rfl
  exact exchangeable

-- What is picked up can be dropped, but dropping it is tried first.
theorem Setting.linearize_misses :
    let drop := (Task.newPrimitive "drop" ["a"] ⟨1, 1⟩).1
    let pickup := (Task.newPrimitive "pickup" ["a"] ⟨2, 1⟩).1
    let n := Network.ofLists [drop, pickup] []
    let d := (Juggling.domain ⟨3, 1⟩).1
    let setting : Setting :=
      { index := .ofDomain d, state := ∅, config := { stateProgression := .apply } }
    n.Valid ∧ n.isPrimitive = true ∧ setting.sorter = TaskOrder.topological ∧
      TaskOrder.Arranges n.taskList n.constraints.toList [pickup, drop] ∧
      (∃ plan : Plan,
        plan.CarriesOut d setting.state setting.config n.constraints [pickup, drop]) ∧
      ∀ plan, setting.linearize n ≠ .ok plan := by
  intro drop pickup n d setting
  have isOk : (setting.linearize n).isOk = false := by decide +kernel
  refine ⟨Network.valid_ofLists (by decide) (by decide) (by decide), by decide +kernel, rfl,
    TaskOrder.arranges_of_perm (by decide +kernel) (by decide +kernel),
    exists_carriesOut rfl (by decide) (by decide +kernel), fun plan result => ?_⟩
  simp [result, Except.isOk, Except.toBool] at isOk

end Tried

end HtnPlanning
