import HtnPlanning.Proofs.Linearization.Refusal
import HtnPlanning.Proofs.Linearization.TaskOrder
import HtnPlanning.Proofs.Search.Stack

namespace HtnPlanning

variable {failure : SearchFailure} {budget : Nat}

def SearchFailure.OverBudget (failure : SearchFailure) : Prop :=
  ∃ budget, failure = .budgetExhausted budget

theorem SearchFailure.not_overBudget_exhausted (call : Atom) :
    ¬ (methodsExhausted call).OverBudget := by
  rintro ⟨_, ⟨⟩⟩

namespace Setting

variable {setting : Setting} {n : Network} {depth calls : Nat} {stats : Stats} {supply : Supply}
  {e : Exploration}

theorem linearize_error (sorted : setting.sorter = TaskOrder.topological)
    (failed : setting.linearize n = .error failure) : ¬ failure.OverBudget := by
  rintro ⟨budget, rfl⟩
  cases refuses_of_linearize failed with
  | unordered unsorted =>
      rw [sorted] at unsorted
      cases TaskOrder.topological_error unsorted

theorem examine_failed_overBudget (sorted : setting.sorter = TaskOrder.topological)
    (failed : setting.examine n depth stats = .failed failure) : ¬ failure.OverBudget := by
  cases examine_eq_iff.mp failed with
  | pruned => rintro ⟨_, ⟨⟩⟩
  | unplanned _ _ _ gives => exact linearize_error sorted gives
  | tooDeep => rintro ⟨_, ⟨⟩⟩

end Setting

def Verdict.Fails (v : Verdict) (failure : SearchFailure) : Prop :=
  v = .refused failure ∨ v = .exhausted failure

theorem Exploration.result_eq_error {e : Exploration} : e.result = .error failure ↔
    e.verdict = .stopped failure ∨ e.verdict.Fails failure := by
  unfold result Verdict.Fails
  cases e.verdict <;> simp

structure Verdict.Accounts (v : Verdict) (setting : Setting) : Prop where
  stopped : ∀ failure, v = .stopped failure →
    ∃ budget, setting.config.nodeBudget = some budget ∧ failure = .budgetExhausted budget
  failed : ∀ failure, v.Fails failure → ¬ failure.OverBudget

namespace Setting

variable {setting : Setting} {n : Network} {depth calls : Nat} {stats : Stats} {supply : Supply}
  {e : Exploration}

theorem explore_accounts (sorted : setting.sorter = TaskOrder.topological)
    (found : setting.explore calls n depth stats supply = some e) : e.verdict.Accounts setting := by
  refine @explore_induction setting
    (fun _ _ _ _ e => e.verdict.Accounts setting)
    (fun _ _ _ _ last _ _ e => (∀ failure, last = some failure → ¬ failure.OverBudget) →
      e.verdict.Accounts setting)
    ?solved ?stopped ?refused ?opened ?exhausted ?rejected ?childRefused ?childExhausted ?childDecided
    calls n depth stats supply e found
  case solved =>
    intro n depth stats supply plan examination
    constructor <;> simp [Verdict.Fails]
  case stopped =>
    intro n depth stats supply failure examination
    cases examine_eq_iff.mp examination with
    | overBudget known => constructor <;> simp [Verdict.Fails, known]
  case refused =>
    intro n depth stats supply failure examination
    have other := examine_failed_overBudget sorted examination
    constructor <;> simp [Verdict.Fails, other]
  case opened => exact fun n depth stats supply frame e examination ih => ih nofun
  case exhausted =>
    intro n t depth last stats supply others
    have other : ¬ (last.getD (.methodsExhausted t.call)).OverBudget := by
      cases last with
      | none => exact SearchFailure.not_overBudget_exhausted t.call
      | some failure => exact others failure rfl
    constructor <;> simp [Verdict.Fails, other]
  case rejected => exact fun n t depth m rest last stats supply supply' e attempt ih others => ih others
  case childRefused =>
    intro n t depth m rest last stats supply next supply' e failure others attempt child verdict ih _
    exact ih fun _ same => child.failed _ (.inl (verdict.trans (congrArg _ (Option.some.inj same))))
  case childExhausted =>
    intro n t depth m rest last stats supply next supply' e failure others attempt child verdict ih _
    exact ih fun _ same => child.failed _ (.inr (verdict.trans (congrArg _ (Option.some.inj same))))
  case childDecided =>
    exact fun n t depth m rest last stats supply next supply' e attempt child _ _ _ => child

end Setting

def Problem.Ends (p : Problem) (d : Domain) (config : PlannerConfig) (supply : Supply)
    (report : Report) : Prop :=
  ∃ steps, p.findPlan d config TaskOrder.topological supply steps = some report

namespace Problem

variable {p : Problem} {d : Domain} {config : PlannerConfig} {supply : Supply} {report report' : Report}

theorem ends_iff : p.Ends d config supply report ↔ ∃ calls e,
    (p.setting d config TaskOrder.topological).explore calls p.network 0 {} supply = some e ∧
      e.report = report := by
  constructor
  · rintro ⟨steps, ended⟩
    obtain ⟨calls, solves⟩ := Setting.run_iff_solve.mp ⟨steps, ended, rfl⟩
    obtain ⟨e, explored, pair⟩ := Option.map_eq_some_iff.mp solves
    exact ⟨calls, e, explored, (Prod.mk.inj pair).1⟩
  · rintro ⟨calls, e, explored, rfl⟩
    obtain ⟨steps, ended, -⟩ := Setting.run_iff_solve.mpr
      ⟨calls, Option.map_eq_some_iff.mpr ⟨e, explored, rfl⟩⟩
    exact ⟨steps, ended⟩

theorem Ends.unique (ends : p.Ends d config supply report) (ends' : p.Ends d config supply report') :
    report = report' := by
  obtain ⟨steps, ended⟩ := ends
  obtain ⟨steps', ended'⟩ := ends'
  exact ((Search.leads_of_run ended).finished_eq (Search.leads_of_run ended')).1

theorem Ends.not_overBudget (ends : p.Ends d config supply report) (unbounded : config.nodeBudget = none)
    (failed : report.result = .error failure) : ¬ failure.OverBudget := by
  obtain ⟨calls, e, explored, rfl⟩ := ends_iff.mp ends
  have accounts := Setting.explore_accounts rfl explored
  rcases Exploration.result_eq_error.mp failed with stopped | fails
  · obtain ⟨budget, known, -⟩ := accounts.stopped failure stopped
    rw [show (p.setting d config TaskOrder.topological).config.nodeBudget = none from unbounded] at known
    cases known
  · exact accounts.failed failure fails

end Problem

end HtnPlanning
