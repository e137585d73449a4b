import HtnPlanning.Proofs.Search.Completeness
import HtnPlanning.Proofs.Search.Visits
import Mathlib.Algebra.Ring.GeomSum

namespace HtnPlanning

namespace Setting

variable {setting : Setting} {n : Network} {depth calls limit width : Nat} {stats : Stats}
  {supply : Supply} {e : Exploration}

theorem nodes_le_of_explore (limited : setting.config.maxDepth = some limit)
    (narrow : ∀ t, (setting.index.methodsFor t).length ≤ width)
    (found : setting.explore calls n depth stats supply = some e) : depth ≤ limit →
      e.stats.nodes ≤ stats.nodes + ∑ i ∈ Finset.range (limit - depth + 1), width ^ i := by
  have positive (k : Nat) : 1 ≤ ∑ i ∈ Finset.range (k + 1), width ^ i :=
    geom_sum_succ (x := width) ▸ Nat.le_add_left ..
  -- Each candidate that is left stands for a tree of one level less.
  refine @explore_induction setting
    (fun _ depth stats _ e => depth ≤ limit →
      e.stats.nodes ≤ stats.nodes + ∑ i ∈ Finset.range (limit - depth + 1), width ^ i)
    (fun _ _ depth candidates _ stats _ e => depth < limit →
      e.stats.nodes ≤ stats.nodes + candidates.length * ∑ i ∈ Finset.range (limit - depth), width ^ i)
    ?solved ?stopped ?refused ?opened ?exhausted ?rejected ?childRefused ?childExhausted ?childDecided
    calls n depth stats supply e found
  case solved | stopped | refused =>
    intro n depth stats supply _ examination le
    exact Nat.add_le_add_left (positive _) stats.nodes
  case opened =>
    intro n depth stats supply frame e examination ih le
    have form := (examine_opened examination).2
    have wide : frame.candidates.length ≤ width := by
      rw [form]
      exact narrow _
    calc e.stats.nodes
        ≤ stats.nodes + 1 + frame.candidates.length * ∑ i ∈ Finset.range (limit - depth), width ^ i :=
          ih (examine_opened_lt limited examination)
      _ ≤ stats.nodes + 1 + width * ∑ i ∈ Finset.range (limit - depth), width ^ i :=
          Nat.add_le_add_left (Nat.mul_le_mul_right _ wide) _
      _ = stats.nodes + ∑ i ∈ Finset.range (limit - depth + 1), width ^ i := by
          rw [geom_sum_succ, Nat.add_assoc, Nat.add_comm 1]
  case exhausted =>
    intro n t depth last stats supply less
    exact Nat.le_add_right ..
  case rejected =>
    intro n t depth m rest last stats supply supply' others attempt ih less
    rw [List.length_cons, Nat.succ_mul]
    exact Nat.le_trans (ih less) (Nat.add_le_add_left (Nat.le_add_right ..) _)
  case childRefused | childExhausted =>
    intro n t depth m rest last stats supply next supply' e failure others attempt child verdict ih less
    have below := child less
    have after := ih less
    rw [List.length_cons, Nat.succ_mul]
    rw [show limit - (depth + 1) + 1 = limit - depth by omega] at below
    change e.stats.nodes ≤ stats.nodes + _ at below
    change others.stats.nodes ≤ e.stats.nodes + _ at after
    change others.stats.nodes ≤ _
    omega
  case childDecided =>
    intro n t depth m rest last stats supply next supply' e attempt child notRefused notExhausted less
    have below := child less
    rw [List.length_cons, Nat.succ_mul]
    rw [show limit - (depth + 1) + 1 = limit - depth by omega] at below
    change e.stats.nodes ≤ stats.nodes + _ at below
    change e.stats.nodes ≤ _
    omega

theorem length_methodsFor_le (d : Domain) (t : Task) :
    ((DomainIndex.ofDomain d).methodsFor t).length ≤ d.methods.length := by
  rw [DomainIndex.methodsFor_ofDomain]
  exact List.length_filter_le ..

theorem passesOn_depth (setting : Setting) : setting.PassesOn fun _ depth _ =>
    ∀ limit, setting.config.maxDepth = some limit → depth ≤ limit where
  mono holds _ := holds
  child _ _ _ room _ := room

end Setting

namespace Search

variable {budget : Nat}

def InBudget (budget : Nat) : Progress → Prop
  | .running search => search.stats.nodes ≤ budget
  | .finished report => report.stats.nodes ≤ budget + 1

theorem InBudget.nodes_le {p : Progress} (within : InBudget budget p) : p.stats.nodes ≤ budget + 1 := by
  cases p with
  | running search => exact Nat.le_succ_of_le within
  | finished report => exact within

theorem inBudget_arrive {setting : Setting} (root : Task) (stack : List Frame) (n : Network)
    (depth : Nat) {stats : Stats} (supply : Supply) (within : stats.nodes ≤ budget) :
    InBudget budget
      (arrive (setting.withBudget (some budget)) root stack n depth stats supply) := by
  cases arrives : arrive (setting.withBudget (some budget)) root stack n depth stats supply with
  | running next => exact (within_of_arrive arrives).2
  | finished report =>
      have nodes : (Progress.finished report).stats.nodes = stats.nodes + 1 := arrives ▸ nodes_arrive
      exact nodes.trans_le (Nat.succ_le_succ within)

theorem inBudget_advance (setting : Setting) (steps : Nat) {p : Progress}
    (within : InBudget budget p) :
    InBudget budget (advance (setting.withBudget (some budget)) steps p) := by
  induction steps generalizing p with
  | zero => exact within
  | succ steps ih =>
      cases p with
      | finished report => exact within
      | running search =>
          refine ih ?_
          rcases step_cases search with ⟨q, same, nodes, -⟩ | ⟨parent, below, n, supply, comes⟩
          · rw [same]
            cases q with
            | running next => exact nodes.trans_le within
            | finished report => exact Nat.le_succ_of_le (nodes.trans_le within)
          · rw [comes]
            exact inBudget_arrive _ _ _ _ _ within

end Search

section

variable {p : Problem} {d : Domain} {config : PlannerConfig} {sorter : Sorter} {supply : Supply}

theorem setting_withBudget {budget : Nat} (limited : config.nodeBudget = some budget) :
    (p.setting d config sorter).withBudget (some budget) = p.setting d config sorter := by
  rw [Setting.withBudget, ← limited]
  rfl

theorem findPlan_ends_of_budget {budget : Nat} (limited : config.nodeBudget = some budget) :
    ∃ steps report, p.findPlan d config sorter supply steps = some report := by
  obtain ⟨root, start⟩ := Setting.start_eq_arrive p.network supply
  have ends := Search.arrive_ends (p.setting d config sorter) budget root [] p.network 0 {} supply
  rwa [setting_withBudget limited, ← start] at ends

theorem length_visits_le_budget {budget : Nat} (limited : config.nodeBudget = some budget)
    (steps : Nat) :
    ((p.setting d config sorter).visits p.network supply steps).length ≤ budget + 1 := by
  obtain ⟨root, start⟩ := Setting.start_eq_arrive p.network supply
  rw [← Search.nodes_eq_length_visits, start, ← setting_withBudget limited]
  exact (Search.inBudget_advance _ steps
    (Search.inBudget_arrive root [] p.network 0 supply (Nat.zero_le _))).nodes_le

theorem length_visits_le_tree {limit : Nat} (limited : config.maxDepth = some limit) (steps : Nat) :
    ((p.setting d config sorter).visits p.network supply steps).length ≤
      ∑ i ∈ Finset.range (limit + 1), d.methods.length ^ i := by
  have limited : (p.setting d config sorter).config.maxDepth = some limit := limited
  obtain ⟨e, explored⟩ := Setting.explore_ends limited limit (by omega) p.network {} supply
  have bound := Setting.nodes_le_of_explore limited (Setting.length_methodsFor_le d) explored
    (Nat.zero_le _)
  obtain ⟨more, ended, -⟩ := Setting.run_iff_solve.mpr
    ⟨limit + 1, show Setting.solve _ _ _ _ = some (e.report, e.attempts) by
      rw [Setting.solve, explored]; rfl⟩
  -- The search is at this point on its way to the end that the recursion gives.
  obtain ⟨fewer, -, rest⟩ := (Search.leads_advance _ steps _).run_rest ended
  rw [← Search.nodes_eq_length_visits]
  calc _ ≤ e.report.stats.nodes := (Search.leads_of_run rest).nodes_le
    _ ≤ _ := by simpa [Exploration.report] using bound

end

/-- A limit on the depth or a budget ends the search, for every domain and every way to put tasks into
an order. The search comes to one network more than the budget allows at most; with a limit on the depth
it comes to no more networks than a tree of that depth has when each method gives a branch, and to none
that is deeper. Its statistics count the networks that it comes to. -/
theorem findPlan_terminates (p : Problem) (d : Domain) (config : PlannerConfig) (sorter : Sorter)
    (supply : Supply) :
    (config.maxDepth.isSome ∨ config.nodeBudget.isSome →
      ∃ steps report, p.findPlan d config sorter supply steps = some report) ∧
    ∀ steps,
      let visits := (p.setting d config sorter).visits p.network supply steps
      (∀ report, p.findPlan d config sorter supply steps = some report →
        report.stats.nodes = visits.length) ∧
      (∀ budget, config.nodeBudget = some budget → visits.length ≤ budget + 1) ∧
      ∀ limit, config.maxDepth = some limit →
        visits.length ≤ ∑ i ∈ Finset.range (limit + 1), d.methods.length ^ i ∧
        ∀ visit ∈ visits, visit.depth ≤ limit := by
  refine ⟨?_, fun steps => ⟨fun report found => ?_, ?_, fun limit limited => ⟨?_, ?_⟩⟩⟩
  · rintro (limited | limited)
    · obtain ⟨limit, limited⟩ := Option.isSome_iff_exists.mp limited
      exact findPlan_ends p d supply limited
    · obtain ⟨budget, limited⟩ := Option.isSome_iff_exists.mp limited
      exact findPlan_ends_of_budget limited
  · have ended := Search.run_eq_some_iff.mp found
    rw [← Search.nodes_eq_length_visits, ended]
    rfl
  · exact fun budget limited => length_visits_le_budget limited steps
  · exact length_visits_le_tree limited steps
  · intro visit member
    have shallow := (p.setting d config sorter).passesOn_depth
    obtain ⟨-, within⟩ := Setting.holds_of_visit shallow (fun _ _ => Nat.zero_le _) visit member
    exact within limit limited

theorem findPlan_terminates_spin :
    let domain := (Spin.domain ⟨1, 1⟩).1
    let problem := (Spin.problem (Spin.domain ⟨1, 1⟩).2).1
    let supply := (Spin.problem (Spin.domain ⟨1, 1⟩).2).2
    let visits (config : PlannerConfig) (sorter : Sorter) :=
      (problem.setting domain config sorter).visits problem.network supply
    (∀ sorter, (∃ steps report,
      problem.findPlan domain { nodeBudget := some 3 } sorter supply steps = some report) ∧
        ∀ steps, (visits { nodeBudget := some 3 } sorter steps).length ≤ 4) ∧
    ∀ sorter, (∃ steps report,
      problem.findPlan domain { maxDepth := some 3 } sorter supply steps = some report) ∧
        ∀ steps, (visits { maxDepth := some 3 } sorter steps).length ≤ 15 := by
  intro domain problem supply visits
  constructor
  · intro sorter
    obtain ⟨ends, bounds⟩ :=
      findPlan_terminates problem domain { nodeBudget := some 3 } sorter supply
    exact ⟨ends (.inr rfl), fun steps => (bounds steps).2.1 3 rfl⟩
  · intro sorter
    obtain ⟨ends, bounds⟩ := findPlan_terminates problem domain { maxDepth := some 3 } sorter supply
    have tree : ∑ i ∈ Finset.range (3 + 1), domain.methods.length ^ i = 15 := by decide
    exact ⟨ends (.inl rfl), fun steps => ((bounds steps).2.2 3 rfl).1.trans_eq tree⟩

end HtnPlanning
