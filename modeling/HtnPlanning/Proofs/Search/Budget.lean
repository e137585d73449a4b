import HtnPlanning.Proofs.Search.Failures
import HtnPlanning.Samples.Spin

namespace HtnPlanning

def Setting.withBudget (setting : Setting) (budget : Option Nat) : Setting :=
  { setting with config := { setting.config with nodeBudget := budget } }

def Exceeds (other : Option Nat) (budget : Nat) : Prop :=
  ∀ more, other = some more → budget < more

theorem Setting.examine_withBudget {setting : Setting} {stats : Stats} {budget other : Option Nat}
    (n : Network) (depth : Nat) (within : (setting.withBudget budget).WithinBudget stats)
    (within' : (setting.withBudget other).WithinBudget stats) :
    (setting.withBudget budget).examine n depth stats =
      (setting.withBudget other).examine n depth stats := by
  simp only [examine, within.filter_eq_none, within'.filter_eq_none]
  rfl

def Progress.stats : Progress → Stats
  | .running search => search.stats
  | .finished report => report.stats

namespace Search

variable {setting : Setting} {search : Search} {p q : Progress} {root : Task} {stack : List Frame}
  {n : Network} {depth budget : Nat} {other : Option Nat} {stats : Stats} {supply : Supply}
  {log : List Attempt} {report : Report}

/-! ## Steps -/

/-- The work that is left on a stack: the methods still to be tried, and the frames to be given up. -/
def pending (stack : List Frame) : Nat :=
  (stack.flatMap Frame.candidates).length + stack.length

theorem step_cases (search : Search) :
    (∃ q : Progress, (∀ setting, search.step setting = q) ∧ q.stats.nodes = search.stats.nodes ∧
      ∀ next, q = .running next → pending next.stack < pending search.stack) ∨
    ∃ parent below n supply, ∀ setting, search.step setting =
      arrive setting search.root (parent :: below) n (parent.depth + 1) search.stats.decomposed
        supply := by
  cases search.turn with
  | ended empty steps => exact .inl ⟨_, steps, rfl, nofun⟩
  | gaveUp top below stack spent steps =>
      refine .inl ⟨_, steps, by cases below <;> rfl, fun next running => ?_⟩
      cases below with
      | nil => cases running
      | cons parent rest =>
          cases running
          simp [pending, stack, spent]
  | skipped top below m rest supply stack candidates rejected steps =>
      refine .inl ⟨_, steps, rfl, ?_⟩
      rintro _ ⟨⟩
      simp [pending, stack, candidates]
  | entered top below m rest n supply stack candidates accepted steps =>
      exact .inr ⟨_, below, n, supply, steps⟩

theorem nodes_arrive : (arrive setting root stack n depth stats supply).stats.nodes =
    stats.nodes + 1 := by
  simp only [arrive]
  cases setting.examine n depth (stats.examined depth) with
  | failed failure => cases stack <;> rfl
  | solved _ | stopped _ | opened _ => rfl

theorem Leads.nodes_le (leads : Leads setting p log q) : p.stats.nodes ≤ q.stats.nodes := by
  induction leads with
  | refl => exact Nat.le_refl _
  | @step search _ _ _ ih =>
      refine Nat.le_trans ?_ ih
      rcases step_cases search with ⟨next, same, nodes, -⟩ | ⟨parent, below, n, supply, comes⟩
      · rw [same, nodes]
        exact Nat.le_refl _
      · rw [comes, nodes_arrive]
        exact Nat.le_succ _

/-! ## Used up -/

theorem arrive_over (past : budget < stats.nodes + 1) :
    arrive (setting.withBudget (some budget)) root stack n depth stats supply =
      .finished ⟨.error (.budgetExhausted budget), stats.examined depth, supply⟩ := by
  have stopped : (setting.withBudget (some budget)).examine n depth (stats.examined depth) =
      .stopped (.budgetExhausted budget) := (Setting.Examined.overBudget rfl past).eq
  simp only [arrive, stopped]

theorem within_of_arrive {next : Search}
    (running : arrive (setting.withBudget (some budget)) root stack n depth stats supply =
      .running next) : next.stats.nodes = stats.nodes + 1 ∧ next.stats.nodes ≤ budget := by
  have nodes : next.stats.nodes = stats.nodes + 1 :=
    (congrArg (fun p : Progress => p.stats.nodes) running).symm.trans nodes_arrive
  refine ⟨nodes, nodes ▸ Nat.le_of_not_lt fun past => ?_⟩
  rw [arrive_over past] at running
  cases running

theorem run_ends (setting : Setting) (search : Search) (within : search.stats.nodes ≤ budget) :
    ∃ steps report, run (setting.withBudget (some budget)) steps (.running search) = some report := by
  have go (q : Progress) (stepped : search.step (setting.withBudget (some budget)) = q)
      (rest : ∀ next, q = .running next → ∃ steps report,
        run (setting.withBudget (some budget)) steps (.running next) = some report) :
      ∃ steps report,
        run (setting.withBudget (some budget)) steps (.running search) = some report := by
    cases q with
    | finished report => exact ⟨1, report, by rw [run, stepped, run]⟩
    | running next =>
        obtain ⟨steps, report, ended⟩ := rest next rfl
        exact ⟨steps + 1, report, by rw [run, stepped, ended]⟩
  rcases step_cases search with ⟨q, same, nodes, less⟩ | ⟨parent, below, n, supply, comes⟩
  · refine go q (same _) fun next running => ?_
    have less := less next running
    have nodes : next.stats.nodes = search.stats.nodes := by rw [← nodes, running]; rfl
    exact run_ends setting next (nodes ▸ within)
  · refine go _ (comes _) fun next running => ?_
    obtain ⟨nodes, within'⟩ := within_of_arrive running
    change next.stats.nodes = search.stats.nodes + 1 at nodes
    exact run_ends setting next within'
termination_by (budget - search.stats.nodes, pending search.stack)
decreasing_by
  · exact nodes ▸ Prod.Lex.right _ less
  · exact Prod.Lex.left _ _ (by omega)

theorem arrive_ends (setting : Setting) (budget : Nat) (root : Task) (stack : List Frame) (n : Network)
    (depth : Nat) (stats : Stats) (supply : Supply) : ∃ steps report,
      run (setting.withBudget (some budget)) steps
        (arrive (setting.withBudget (some budget)) root stack n depth stats supply) = some report := by
  cases arrives : arrive (setting.withBudget (some budget)) root stack n depth stats supply with
  | finished report => exact ⟨0, report, by rw [run]⟩
  | running next => exact run_ends setting next (within_of_arrive arrives).2

/-! ## A smaller and a larger budget -/

/-- Where a search is when the same search with a larger budget, or with none, is at some point: at
that point as well, or at its end with the budget used up. -/
inductive Truncates (budget : Nat) : Progress → Progress → Prop where
  | together {p : Progress} (within : p.stats.nodes ≤ budget) : Truncates budget p p
  | cut {report : Report} {q : Progress} (stopped : report.result = .error (.budgetExhausted budget))
      (count : report.stats.nodes = budget + 1) (beyond : q.stats.nodes = budget + 1) :
      Truncates budget (.finished report) q

theorem arrive_truncates (setting : Setting) (root : Task) (stack : List Frame) (n : Network)
    (depth : Nat) (supply : Supply) (exceeds : Exceeds other budget) (within : stats.nodes ≤ budget) :
    Truncates budget (arrive (setting.withBudget (some budget)) root stack n depth stats supply)
      (arrive (setting.withBudget other) root stack n depth stats supply) := by
  rcases Nat.lt_or_ge budget (stats.nodes + 1) with past | room
  · have last : stats.nodes = budget := by omega
    rw [arrive_over past]
    exact .cut rfl (congrArg (· + 1) last) (nodes_arrive.trans (congrArg (· + 1) last))
  · have smaller : (setting.withBudget (some budget)).WithinBudget (stats.examined depth) := by
      rintro _ ⟨⟩
      exact room
    have larger : (setting.withBudget other).WithinBudget (stats.examined depth) :=
      fun more known => Nat.le_trans room (Nat.le_of_lt (exceeds more known))
    have same := Setting.examine_withBudget n depth smaller larger
    have arrives : arrive (setting.withBudget (some budget)) root stack n depth stats supply =
        arrive (setting.withBudget other) root stack n depth stats supply := by
      simp only [arrive, same]
    rw [arrives]
    exact .together (nodes_arrive.trans_le room)

theorem step_truncates (exceeds : Exceeds other budget) (within : search.stats.nodes ≤ budget) :
    Truncates budget (search.step (setting.withBudget (some budget)))
      (search.step (setting.withBudget other)) := by
  rcases step_cases search with ⟨q, same, nodes, -⟩ | ⟨parent, below, n, supply, comes⟩
  · rw [same, same]
    exact .together (nodes ▸ within)
  · rw [comes, comes]
    exact arrive_truncates _ _ _ _ _ _ exceeds within

theorem Truncates.leads (setting : Setting)
    (leads : Leads (setting.withBudget (some budget)) p log (.finished report))
    (truncates : Truncates budget p q) (exceeds : Exceeds other budget) :
    report.stats.nodes ≤ budget ∧ Leads (setting.withBudget other) q log (.finished report) ∨
      report.result = .error (.budgetExhausted budget) ∧ report.stats.nodes = budget + 1 ∧
        ∃ q', Leads (setting.withBudget other) q log q' ∧ q'.stats.nodes = budget + 1 := by
  generalize goal : Progress.finished report = last at leads
  induction leads generalizing q with
  | refl p =>
      subst goal
      cases truncates with
      | together within => exact .inl ⟨within, .refl _⟩
      | cut stopped count beyond => exact .inr ⟨stopped, count, q, .refl q, beyond⟩
  | step rest ih =>
      cases truncates with
      | together within =>
          rcases ih (step_truncates exceeds within) goal with ⟨count, same⟩ | ⟨stopped, count, q', on, beyond⟩
          · exact .inl ⟨count, .step same⟩
          · exact .inr ⟨stopped, count, q', .step on, beyond⟩

end Search

/-! ## The search for a plan -/

section

variable {p : Problem} {d : Domain} {config : PlannerConfig} {supply : Supply} {budget : Nat}
  {other : Option Nat} {report report' : Report}

theorem Problem.ends_withBudget (p : Problem) (d : Domain) (config : PlannerConfig) (supply : Supply)
    (budget : Nat) : ∃ report, p.Ends d { config with nodeBudget := some budget } supply report := by
  obtain ⟨root, start⟩ := Setting.start_eq_arrive p.network supply
  obtain ⟨steps, report, ended⟩ := Search.arrive_ends (p.setting d config TaskOrder.topological) budget
    root [] p.network 0 {} supply
  rw [← start] at ended
  exact ⟨report, steps, ended⟩

theorem Problem.Ends.exceeds (ends : p.Ends d { config with nodeBudget := some budget } supply report)
    (exceeds : Exceeds other budget) :
    report.stats.nodes ≤ budget ∧ p.Ends d { config with nodeBudget := other } supply report ∨
      report.result = .error (.budgetExhausted budget) ∧ report.stats.nodes = budget + 1 ∧
        ∃ log q, Search.Leads (p.setting d { config with nodeBudget := other } TaskOrder.topological)
          ((p.setting d { config with nodeBudget := other } TaskOrder.topological).start p.network
            supply) log q ∧ q.stats.nodes = budget + 1 := by
  obtain ⟨steps, ended⟩ := ends
  obtain ⟨root, start⟩ := Setting.start_eq_arrive p.network supply
  have truncates := Search.arrive_truncates (p.setting d config TaskOrder.topological) root [] p.network
    0 supply exceeds (show ({} : Stats).nodes ≤ budget from budget.zero_le)
  rw [← start, ← start] at truncates
  rcases truncates.leads (p.setting d config TaskOrder.topological) (Search.leads_of_run ended) exceeds
    with ⟨within, same⟩ | ⟨stopped, count, q, on, beyond⟩
  · obtain ⟨steps', ended', -⟩ := same.run_eq
    exact .inl ⟨within, steps', ended'⟩
  · exact .inr ⟨stopped, count, _, q, on, beyond⟩

theorem Problem.Ends.count (ends : p.Ends d { config with nodeBudget := some budget } supply report)
    {b : Nat} (overBudget : report.result = .error (.budgetExhausted b)) :
    b = budget ∧ report.stats.nodes = budget + 1 := by
  have unlimited : Exceeds none budget := nofun
  rcases ends.exceeds unlimited with ⟨-, same⟩ | ⟨stopped, count, -⟩
  · exact absurd ⟨b, rfl⟩ (same.not_overBudget rfl overBudget)
  · rw [overBudget] at stopped
    cases stopped
    exact ⟨rfl, count⟩

end

/-- The budget of a search only cuts it short. With a budget the search ends. When it does so without
having used up the budget, the search ends with the same report under any larger budget and under
none. When it has used up the budget, it is at the first network beyond it; every smaller budget is
used up too, at the first network beyond it, and every search with a larger budget or none comes to
more networks. -/
theorem findPlan_budget (p : Problem) (d : Domain) (config : PlannerConfig) (supply : Supply)
    (budget : Nat) :
    let ends (budget : Option Nat) := p.Ends d { config with nodeBudget := budget } supply
    let setting (budget : Option Nat) :=
      p.setting d { config with nodeBudget := budget } TaskOrder.topological
    (∃! report, ends (some budget) report) ∧
    ∀ report, ends (some budget) report →
      ((∀ b, report.result ≠ .error (.budgetExhausted b)) →
        ∀ other, Exceeds other budget → ∀ report', ends other report' ↔ report' = report) ∧
      ∀ b, report.result = .error (.budgetExhausted b) →
        b = budget ∧ report.stats.nodes = budget + 1 ∧
        (∀ less < budget, ∃ report', ends (some less) report' ∧
          report'.result = .error (.budgetExhausted less) ∧ report'.stats.nodes = less + 1) ∧
        ∀ other, Exceeds other budget →
          (∃ log q, Search.Leads (setting other) ((setting other).start p.network supply) log q ∧
            budget < q.stats.nodes) ∧
          ∀ report', ends other report' → budget < report'.stats.nodes := by
  intro ends setting
  obtain ⟨report, ended⟩ := p.ends_withBudget d config supply budget
  refine ⟨⟨report, ended, fun report' ended' => ended'.unique ended⟩, fun report ended => ⟨?_, ?_⟩⟩
  · intro within other exceeds report'
    rcases ended.exceeds exceeds with ⟨-, same⟩ | ⟨stopped, -⟩
    · exact ⟨fun ended' => ended'.unique same, fun is => is ▸ same⟩
    · exact absurd stopped (within budget)
  · intro b overBudget
    obtain ⟨same, count⟩ := ended.count overBudget
    refine ⟨same, count, fun less smaller => ?_, fun other exceeds => ?_⟩
    · obtain ⟨report', ended'⟩ := p.ends_withBudget d config supply less
      have exceeds : Exceeds (some budget) less := by
        rintro _ ⟨⟩
        exact smaller
      rcases ended'.exceeds exceeds with ⟨within, again⟩ | ⟨stopped, count', -⟩
      · rw [again.unique ended, count] at within
        omega
      · exact ⟨report', ended', stopped, count'⟩
    · rcases ended.exceeds exceeds with ⟨within, -⟩ | ⟨-, -, log, q, leads, beyond⟩
      · omega
      · have further : budget < q.stats.nodes := beyond ▸ Nat.lt_succ_self budget
        refine ⟨⟨log, q, leads, further⟩, fun report' ⟨steps', ended'⟩ => ?_⟩
        obtain ⟨fewer, -, rest⟩ := leads.run_rest ended'
        exact Nat.lt_of_lt_of_le further (Search.leads_of_run rest).nodes_le

theorem findPlan_budget_spin :
    let domain := (Spin.domain ⟨1, 1⟩).1
    let problem := (Spin.problem (Spin.domain ⟨1, 1⟩).2).1
    let supply := (Spin.problem (Spin.domain ⟨1, 1⟩).2).2
    let setting := problem.setting domain {} TaskOrder.topological
    ∃ report, problem.Ends domain { nodeBudget := some 3 } supply report ∧
      report.result = .error (.budgetExhausted 3) ∧ report.stats.nodes = 4 ∧
      ∃ log q, Search.Leads setting (setting.start problem.network supply) log q ∧
        3 < q.stats.nodes := by
  intro domain problem supply setting
  have stops : (problem.findPlan domain { nodeBudget := some 3 } TaskOrder.topological supply 3).map
      Report.result = some (.error (.budgetExhausted 3)) := by
    decide +kernel
  obtain ⟨report, found, overBudget⟩ := Option.map_eq_some_iff.mp stops
  have ends : problem.Ends domain { nodeBudget := some 3 } supply report := ⟨3, found⟩
  have unlimited : Exceeds none 3 := nofun
  obtain ⟨-, reports⟩ := findPlan_budget problem domain {} supply 3
  obtain ⟨-, count, -, larger⟩ := (reports report ends).2 3 overBudget
  exact ⟨report, ends, overBudget, count, (larger none unlimited).1⟩

end HtnPlanning
