import HtnPlanning.Proofs.Decomposition.Order
import HtnPlanning.Proofs.Search.Soundness

namespace HtnPlanning

open Constraint (StandsFor)

namespace Attempt

def issued (a : Attempt) : TaskSet :=
  (a.method.standardizeApart a.supply).1.template.issuedIds (a.method.standardizeApart a.supply).2

/-- The task that a task comes from by one decomposition: a new occurrence comes from the task that
is decomposed, any other task from itself. -/
def parent (a : Attempt) (id : TaskId) : TaskId :=
  if id ∈ a.issued then a.task.id else id

end Attempt

def origin : List Attempt → TaskId → TaskId
  | [], id => id
  | a :: trail, id => a.parent (origin trail id)

/-- Whatever comes from one of the earlier tasks is done before whatever comes from one of the later
tasks. -/
def DoneInOrder (trail : List Attempt) (ordered : List Task) (earlier later : TaskSet) : Prop :=
  ∀ (i j : Nat) (t u : Task), ordered[i]? = some t → ordered[j]? = some u →
    origin trail t.id ∈ earlier → origin trail u.id ∈ later → i < j

variable {d : Domain} {n next final : Network} {a : Attempt} {supply : Supply} {trail : List Attempt}
  {p q : TaskId}

section Step

variable (accepted : a.network.tryMethod a.task a.method a.supply = (some next, supply))
include accepted

theorem Attempt.contains_iff : next.contains p = true ↔
    p ∈ a.issued ∨ p ≠ a.task.id ∧ a.network.contains p = true := by
  obtain ⟨s, -, decomposed⟩ := Network.tryMethod_eq_some.mp accepted
  exact Network.contains_decompose decomposed

theorem Attempt.standsFor_parent (inP : next.contains p = true) :
    StandsFor a.task.id a.issued (a.parent p) p := by
  rw [parent]
  split
  next issued => exact .inr ⟨rfl, issued⟩
  next old => exact .of_ne (((contains_iff accepted).mp inP).resolve_left old).1

theorem Attempt.contains_parent (inP : next.contains p = true) :
    a.network.contains (a.parent p) = true := by
  rw [parent]
  split
  next =>
    obtain ⟨s, -, decomposed⟩ := Network.tryMethod_eq_some.mp accepted
    exact (Network.decompose_sound decomposed).1
  next old => exact (((contains_iff accepted).mp inP).resolve_left old).2

theorem Attempt.orders_of_parent (inP : next.contains p = true) (inQ : next.contains q = true)
    (orders : Orders a.network.held (a.parent p) (a.parent q)) : Orders next.held p q := by
  obtain ⟨s, -, decomposed⟩ := Network.tryMethod_eq_some.mp accepted
  exact (Network.orders_decompose decomposed).mpr
    (.inl ⟨_, _, orders, standsFor_parent accepted inP, standsFor_parent accepted inQ⟩)

end Step

theorem Domain.Trail.contains_origin (leads : d.Trail n trail final)
    (inP : final.contains p = true) : n.contains (origin trail p) = true := by
  induction leads with
  | here => exact inP
  | step first known accepted _ ih =>
      rw [origin]
      exact Attempt.contains_parent accepted (ih inP)

theorem Domain.Trail.orders_of_origin (leads : d.Trail n trail final)
    (inP : final.contains p = true) (inQ : final.contains q = true)
    (orders : Orders n.held (origin trail p) (origin trail q)) : Orders final.held p q := by
  induction leads with
  | here => exact orders
  | step first known accepted rest ih =>
      rw [origin, origin] at orders
      exact ih inP inQ (Attempt.orders_of_parent accepted (rest.contains_origin inP)
        (rest.contains_origin inQ) orders)

theorem findPlan_trail {p : Problem} {config : PlannerConfig} {steps : Nat} {report : Report}
    {plan : Plan} (formed : p.network.WellFormed)
    (found : p.findPlan d config TaskOrder.topological supply steps = some report)
    (solved : report.result = .ok plan) :
    let setting := p.setting d config TaskOrder.topological
    ∃ trail final ordered,
      trail.Sublist (Search.attempts setting steps (setting.start p.network supply)) ∧
      d.Trail p.network trail final ∧ final.WellFormed ∧
      TaskOrder.topological final.taskList final.constraints.toList = .ok ordered ∧
      plan.CarriesOut d p.state config final.constraints ordered := by
  intro setting
  obtain ⟨calls, solves⟩ := Setting.run_iff_solve.mp ⟨steps, found, rfl⟩
  obtain ⟨e, explored, pair⟩ := Option.map_eq_some_iff.mp solves
  obtain ⟨rfl, attempts⟩ := Prod.mk.inj pair
  have indexed : setting.index = .ofDomain d := rfl
  obtain ⟨trail, final, among, leads, -, gives⟩ :=
    Setting.explore_trail indexed explored plan (Exploration.result_eq_ok.mp solved)
  have finalFormed := wellFormed_of_decompositions formed leads.decompositions
  obtain ⟨ordered, sorted, carriesOut⟩ := (Setting.linearize_eq_ok indexed fun ordered sorted =>
    TaskOrder.pairwise_of_topological finalFormed sorted).mp gives
  exact ⟨trail, final, ordered, attempts ▸ among, leads, finalFormed, sorted, carriesOut⟩

/-- A plan that is found does tasks that come from the problem by some of the attempts that the
search made, and every precedence of the problem orders them: whatever comes from an earlier task of
it is done before whatever comes from a later one. -/
theorem findPlan_respects_precedences {p : Problem} {d : Domain} {config : PlannerConfig}
    {supply : Supply} {steps : Nat} {report : Report} {plan : Plan} (formed : p.network.WellFormed)
    (found : p.findPlan d config TaskOrder.topological supply steps = some report)
    (solved : report.result = .ok plan) :
    let setting := p.setting d config TaskOrder.topological
    ∃ trail final ordered,
      trail.Sublist (Search.attempts setting steps (setting.start p.network supply)) ∧
      d.Trail p.network trail final ∧ ordered.Perm final.taskList ∧
      plan.CarriesOut d p.state config final.constraints ordered ∧
      (∀ t ∈ ordered, p.network.contains (origin trail t.id) = true) ∧
      ∀ earlier later, .precedence earlier later ∈ p.network.constraints →
        DoneInOrder trail ordered earlier later := by
  intro setting
  obtain ⟨trail, final, ordered, among, leads, finalFormed, sorted, carriesOut⟩ :=
    findPlan_trail formed found solved
  obtain ⟨greedy, perm⟩ := (TaskOrder.topological_eq_ok finalFormed).mp sorted
  have inside {t : Task} (member : t ∈ ordered) : final.contains t.id = true :=
    finalFormed.contains_of_mem (perm.mem_iff.mp member)
  refine ⟨trail, final, ordered, among, leads, perm, carriesOut,
    fun t member => leads.contains_origin (inside member), ?_⟩
  intro earlier later held i j t u atI atJ fromEarlier fromLater
  have origins : Orders p.network.held (origin trail t.id) (origin trail u.id) :=
    ⟨_, held, Constraint.mem_edges.mpr ⟨rfl, fromEarlier, fromLater⟩⟩
  have orders := leads.orders_of_origin (inside (List.mem_of_getElem? atI))
    (inside (List.mem_of_getElem? atJ)) origins
  have pair := TaskOrder.topological_respects finalFormed sorted orders
  exact lt_of_pair_sublist greedy.nodup pair (by rw [List.getElem?_map, atI, Option.map_some])
    (by rw [List.getElem?_map, atJ, Option.map_some])

theorem findPlan_respects_precedences_swap_back :
    let domain := Juggling.domain ⟨1, 1⟩
    let there := Task.newCompound "swap" ["kiwi", "banjo"] domain.2
    let back := Task.newCompound "swap" ["banjo", "kiwi"] there.2
    let problem : Problem :=
      ⟨"swap-back", .ofList [.ofSymbols "have" ["kiwi"]],
        .ofLists [there.1, back.1] [.precedence {there.1.id} {back.1.id}]⟩
    let config : PlannerConfig := { stateProgression := .apply }
    let setting := problem.setting domain.1 config TaskOrder.topological
    problem.network.WellFormed ∧ ∃ report plan,
      problem.findPlan domain.1 config TaskOrder.topological back.2 8 = some report ∧
      report.result = .ok plan ∧ ∃ trail final ordered,
        trail.Sublist (Search.attempts setting 8 (setting.start problem.network back.2)) ∧
        domain.1.Trail problem.network trail final ∧ ordered.Perm final.taskList ∧
        plan.CarriesOut domain.1 problem.state config final.constraints ordered ∧
        (∀ t ∈ ordered, problem.network.contains (origin trail t.id) = true) ∧
        DoneInOrder trail ordered {there.1.id} {back.1.id} := by
  intro domain there back problem config setting
  have formed : problem.network.WellFormed :=
    (Network.valid_ofLists (by decide) (by decide) (by decide)).toWellFormed
  have ends : ((problem.findPlan domain.1 config TaskOrder.topological back.2 8).any fun report =>
      report.result.isOk) = true := by
    decide +kernel
  cases found : problem.findPlan domain.1 config TaskOrder.topological back.2 8 with
  | none =>
      rw [found] at ends
      cases ends
  | some report =>
      cases solved : report.result with
      | error failure => simp [found, solved, Except.isOk, Except.toBool] at ends
      | ok plan =>
          obtain ⟨trail, final, ordered, among, leads, perm, carriesOut, inside, respects⟩ :=
            findPlan_respects_precedences formed found solved
          exact ⟨formed, report, plan, rfl, solved, trail, final, ordered, among, leads, perm,
            carriesOut, inside, respects _ _ (by decide)⟩

end HtnPlanning
