import HtnPlanning.Proofs.Linearization.Decision

namespace HtnPlanning

/-- Every task can be carried out in a state and, where conditions are checked, that of every
constraint on some task holds in it. -/
structure Domain.Admits (d : Domain) (initial : State) (config : PlannerConfig) (n : Network) :
    Prop where
  performs : ∀ t ∈ n.taskList, ∃ a, d.Performs initial t a
  conditions : config.checkConditions = true → ∀ c ∈ n.constraints, c.first ≠ ∅ →
    ∀ condition, c.condition? = some condition → initial.ask condition = true

variable {d : Domain} {initial : State} {config : PlannerConfig} {n : Network} {c : Constraint}
  {ordered : List Task} {ids : TaskSet} {plan : Plan} {setting : Setting}

theorem filled_of_place {i : Nat} (place : ∃ t, ordered[i]? = some t ∧ t.id ∈ ids) : ids ≠ ∅ := by
  obtain ⟨t, -, member⟩ := place
  exact Std.ExtTreeSet.ne_empty_of_mem member

theorem exists_places (formed : n.WellFormed) (held : c ∈ n.constraints)
    (perm : ordered.Perm n.taskList) (filled : c.first ≠ ∅) :
    (∃ i, FirstAt ordered c.first i) ∧ ∃ i, LastAt ordered c.first i := by
  obtain ⟨id, listed⟩ := List.exists_mem_of_ne_nil _ (mt Std.ExtTreeSet.toList_eq_nil_iff.mp filled)
  have inside := Std.ExtTreeSet.mem_toList.mp listed
  obtain ⟨t, found⟩ := Network.contains_iff.mp
    (formed.closed c held id (Constraint.mem_references.mpr (.inl inside)))
  obtain rfl := formed.keyed found
  exact exists_firstAt_lastAt (perm.mem_iff.mpr (Network.mem_taskList.mpr ⟨_, found⟩)) inside

theorem Constraint.holdsAlong_iff_of_fixed (formed : n.WellFormed) (held : c ∈ n.constraints)
    (perm : ordered.Perm n.taskList) (kind : c.kind ≠ .between) :
    c.HoldsAlong ordered (fun _ => initial) ↔
      (c.first ≠ ∅ → ∀ condition, c.condition? = some condition → initial.ask condition = true) := by
  have places := exists_places formed held perm
  cases c with
  | precedence => simp [HoldsAlong, condition?]
  | between => exact absurd rfl kind
  | before tasks condition =>
      simp only [HoldsAlong, condition?, first, Option.some.injEq, forall_eq'] at places ⊢
      constructor
      · intro holds filled
        obtain ⟨i, first⟩ := (places filled).1
        exact holds i first
      · intro holds i first
        exact holds (filled_of_place first.1)
  | after tasks condition =>
      simp only [HoldsAlong, condition?, first, Option.some.injEq, forall_eq'] at places ⊢
      constructor
      · intro holds filled
        obtain ⟨i, last⟩ := (places filled).2
        exact holds i last
      · intro holds i last
        exact holds (filled_of_place last.1)

section Fixed

variable (fixed : config.stateProgression = .initial) (formed : n.WellFormed)
  (oneSided : ∀ c ∈ n.constraints, c.kind ≠ .between) (perm : ordered.Perm n.taskList)
include fixed formed oneSided perm

theorem Plan.CarriesOut.admits
    (carriesOut : plan.CarriesOut d initial config n.constraints ordered) :
    d.Admits initial config n where
  performs t listed := by
    obtain ⟨i, place⟩ := List.mem_iff_getElem?.mp (perm.mem_iff.mpr listed)
    obtain ⟨a, -, performs⟩ := carriesOut.performs i t place
    rw [fixed] at performs
    exact ⟨a, performs⟩
  conditions checks c held := by
    have holds := carriesOut.conditions checks c held
    rw [fixed] at holds
    exact (Constraint.holdsAlong_iff_of_fixed formed held perm (oneSided c held)).mp holds

theorem Domain.Admits.exists_plan (admits : d.Admits initial config n) :
    ∃ plan : Plan, plan.CarriesOut d initial config n.constraints ordered := by
  have known : ∀ t ∈ ordered, ∃ a, d.Performs initial t a := fun t listed =>
    admits.performs t (perm.mem_iff.mp listed)
  choose act does using known
  refine ⟨⟨ordered.pmap act fun _ => id⟩, by simp, fun i t place => ?_, fun checks c held => ?_⟩
  · rw [fixed]
    exact ⟨act t (List.mem_of_getElem? place), by simp [place], does t _⟩
  · rw [fixed]
    exact (Constraint.holdsAlong_iff_of_fixed formed held perm (oneSided c held)).mpr
      (admits.conditions checks c held)

end Fixed

theorem Setting.linearize_isOk_iff_admits (indexed : setting.index = .ofDomain d)
    (fixed : setting.config.stateProgression = .initial) (formed : n.WellFormed)
    (oneSided : ∀ c ∈ n.constraints, c.kind ≠ .between)
    (sorted : setting.sorter n.taskList n.constraints.toList = .ok ordered)
    (perm : ordered.Perm n.taskList) :
    (∃ plan, setting.linearize n = .ok plan) ↔ d.Admits setting.state setting.config n := by
  have distinct := TaskOrder.distinct_of_perm formed perm
  simp only [linearize_eq_ok_of_sorted indexed sorted distinct]
  constructor
  · rintro ⟨plan, carriesOut⟩
    exact carriesOut.admits fixed formed oneSided perm
  · exact fun admits => admits.exists_plan fixed formed oneSided perm

theorem Setting.linearize_actions (result : setting.linearize n = .ok plan)
    (indexed : setting.index = .ofDomain d) (formed : n.WellFormed)
    (sorted : setting.sorter n.taskList n.constraints.toList = .ok ordered)
    (perm : ordered.Perm n.taskList) :
    plan.actions.Perm (n.taskList.filterMap d.action?) := by
  have distinct := TaskOrder.distinct_of_perm formed perm
  rw [((linearize_eq_ok_of_sorted indexed sorted distinct).mp result).actions_eq]
  exact perm.filterMap _

/-- Without conditions between tasks, the verdict on a network in the initial state is a matter of its
tasks and constraints. It is the same for every two ways to order the tasks, and their plans have
the same actions equally often. -/
theorem Setting.linearize_of_sorters {sorter : Sorter} {other : List Task}
    (indexed : setting.index = .ofDomain d) (fixed : setting.config.stateProgression = .initial)
    (formed : n.WellFormed) (oneSided : ∀ c ∈ n.constraints, c.kind ≠ .between)
    (sorted : setting.sorter n.taskList n.constraints.toList = .ok ordered)
    (perm : ordered.Perm n.taskList)
    (sortedOther : sorter n.taskList n.constraints.toList = .ok other)
    (permOther : other.Perm n.taskList) :
    ((∃ plan, setting.linearize n = .ok plan) ↔
      ∃ plan, { setting with sorter }.linearize n = .ok plan) ∧
    (∀ plan plan', setting.linearize n = .ok plan →
      { setting with sorter }.linearize n = .ok plan' → plan.actions.Perm plan'.actions) ∧
    ((∃ plan, setting.linearize n = .ok plan) ↔ d.Admits setting.state setting.config n) := by
  have verdict := linearize_isOk_iff_admits indexed fixed formed oneSided sorted perm
  have verdictOther : (∃ plan, { setting with sorter }.linearize n = .ok plan) ↔
      d.Admits setting.state setting.config n :=
    linearize_isOk_iff_admits indexed fixed formed oneSided sortedOther permOther
  refine ⟨verdict.trans verdictOther.symm, fun plan plan' result result' => ?_, verdict⟩
  have actions := linearize_actions result indexed formed sorted perm
  exact actions.trans (linearize_actions result' indexed formed sortedOther permOther).symm

-- The condition after the first task is asked in the state that the task would change.
theorem Setting.linearize_of_sorters_juggling :
    let drop := (Task.newPrimitive "drop" ["a"] ⟨1, 1⟩).1
    let pickup := (Task.newPrimitive "pickup" ["b"] ⟨2, 1⟩).1
    let held : Condition := .holds "have" ["a"]
    let n := Network.ofLists [drop, pickup] [.before {⟨1⟩, ⟨2⟩} held, .after {⟨1⟩} held]
    let backwards : Sorter := fun tasks _ => .ok tasks.reverse
    let d := (Juggling.domain ⟨3, 1⟩).1
    let setting : Setting :=
      { index := .ofDomain d, state := .ofList [.ofSymbols "have" ["a"]] }
    n.WellFormed ∧ (∀ c ∈ n.constraints, c.kind ≠ .between) ∧
      setting.sorter n.taskList n.constraints.toList = .ok [drop, pickup] ∧
      [drop, pickup].Perm n.taskList ∧
      backwards n.taskList n.constraints.toList = .ok [pickup, drop] ∧
      [pickup, drop].Perm n.taskList ∧
      ∃ plan, { setting with sorter := backwards }.linearize n = .ok plan := by
  intro drop pickup held n backwards d setting
  have valid : n.Valid := Network.valid_ofLists (by decide) (by decide) (by decide)
  have oneSided : ∀ c ∈ n.constraints, c.kind ≠ .between := by
    simp only [← Std.ExtTreeSet.mem_toList]
    decide +kernel
  have sorted : setting.sorter n.taskList n.constraints.toList = .ok [drop, pickup] := by
    decide +kernel
  have perm : [drop, pickup].Perm n.taskList := by decide +kernel
  have sortedOther : backwards n.taskList n.constraints.toList = .ok [pickup, drop] := by
    decide +kernel
  have permOther : [pickup, drop].Perm n.taskList := by decide +kernel
  have isOk : (setting.linearize n).isOk = true := by decide +kernel
  obtain ⟨verdict, -, -⟩ := linearize_of_sorters rfl rfl valid.toWellFormed oneSided sorted perm
    sortedOther permOther
  refine ⟨valid.toWellFormed, oneSided, sorted, perm, sortedOther, permOther, verdict.mp ?_⟩
  cases result : setting.linearize n with
  | ok plan => exact ⟨plan, rfl⟩
  | error failure => simp [result, Except.isOk, Except.toBool] at isOk

-- A condition between two tasks is asked only when the first of them comes first.
example :
    let drop := (Task.newPrimitive "drop" ["a"] ⟨1, 1⟩).1
    let pickup := (Task.newPrimitive "pickup" ["b"] ⟨2, 1⟩).1
    let n := Network.ofLists [drop, pickup] [.between {⟨1⟩} {⟨2⟩} (.lacks "have" ["a"])]
    let setting : Setting :=
      { index := .ofDomain (Juggling.domain ⟨3, 1⟩).1, state := .ofList [.ofSymbols "have" ["a"]] }
    (setting.linearize n).isOk = false ∧
      ({ setting with sorter := fun tasks _ => .ok tasks.reverse }.linearize n).isOk = true := by
  decide +kernel

end HtnPlanning
