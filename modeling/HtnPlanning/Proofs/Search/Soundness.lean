import HtnPlanning.Proofs.Decomposition
import HtnPlanning.Proofs.Linearization.Execution
import HtnPlanning.Proofs.Linearization.TaskOrder
import HtnPlanning.Proofs.Search.Stack
import HtnPlanning.Samples.Juggling

namespace HtnPlanning

def Domain.Decomposes (d : Domain) (n next : Network) : Prop :=
  ∃ t m supply s, n.firstCompound = .ok t ∧ m ∈ d.methods ∧
    (m.standardizeApart supply).1.unifier t = .ok s ∧
    (n.decompose s t (m.standardizeApart supply).1 (m.standardizeApart supply).2).1 = .ok next

/-- Attempts that succeed, each on the network that the one before it gave. -/
inductive Domain.Trail (d : Domain) : Network → List Attempt → Network → Prop where
  | here (n : Network) : d.Trail n [] n
  | step {a : Attempt} {next final : Network} {supply : Supply} {trail : List Attempt}
      (first : a.network.firstCompound = .ok a.task) (known : a.method ∈ d.methods)
      (accepted : a.network.tryMethod a.task a.method a.supply = (some next, supply))
      (rest : d.Trail next trail final) : d.Trail a.network (a :: trail) final

namespace Network

variable {n next : Network} {t : Task} {m : Method} {supply supply' : Supply}

theorem tryMethod_eq_some : n.tryMethod t m supply = (some next, supply') ↔
    ∃ s, (m.standardizeApart supply).1.unifier t = .ok s ∧
      n.decompose s t (m.standardizeApart supply).1 (m.standardizeApart supply).2 =
        (.ok next, supply') := by
  simp only [tryMethod]
  cases (m.standardizeApart supply).1.unifier t with
  | error failure => simp
  | ok s =>
      simp only [Except.ok.injEq, exists_eq_left']
      rcases n.decompose s t (m.standardizeApart supply).1 (m.standardizeApart supply).2 with
        ⟨error | result, after⟩
      · simp
      · simp

end Network

theorem Domain.Trail.decompositions {d : Domain} {n final : Network} {trail : List Attempt}
    (leads : d.Trail n trail final) : Relation.ReflTransGen d.Decomposes n final := by
  induction leads with
  | here => exact .refl
  | @step a next final supply trail first known accepted _ ih =>
      obtain ⟨s, unifies, decomposed⟩ := Network.tryMethod_eq_some.mp accepted
      exact .head ⟨a.task, a.method, a.supply, s, first, known, unifies, by rw [decomposed]⟩ ih

namespace Setting

variable {setting : Setting} {d : Domain} {n : Network}

theorem explore_trail (indexed : setting.index = .ofDomain d) {calls depth : Nat} {stats : Stats}
    {supply : Supply} {e : Exploration}
    (found : setting.explore calls n depth stats supply = some e) :
    ∀ plan, e.verdict = .solved plan → ∃ trail final, trail.Sublist e.attempts ∧
      d.Trail n trail final ∧ final.isPrimitive = true ∧ setting.linearize final = .ok plan := by
  refine @explore_induction setting
    (fun n _ _ _ e => ∀ plan, e.verdict = .solved plan → ∃ trail final, trail.Sublist e.attempts ∧
      d.Trail n trail final ∧ final.isPrimitive = true ∧ setting.linearize final = .ok plan)
    (fun n t _ candidates _ _ _ e => n.firstCompound = .ok t → (∀ m ∈ candidates, m ∈ d.methods) →
      ∀ plan, e.verdict = .solved plan → ∃ trail final, trail.Sublist e.attempts ∧
        d.Trail n trail final ∧ final.isPrimitive = true ∧ setting.linearize final = .ok plan)
    ?solved ?stopped ?refused ?opened ?exhausted ?rejected ?childRefused ?childExhausted ?childDecided
    calls n depth stats supply e found
  case solved =>
    intro n depth stats supply plan' examination plan verdict
    cases verdict
    obtain ⟨primitive, gives⟩ := examine_solved examination
    exact ⟨[], n, List.nil_sublist _, .here n, primitive, gives⟩
  case stopped =>
    intro n depth stats supply failure examination plan verdict
    cases verdict
  case refused =>
    intro n depth stats supply failure examination plan verdict
    cases verdict
  case opened =>
    intro n depth stats supply frame e examination ih
    obtain ⟨first, form⟩ := examine_opened examination
    refine ih first fun m member => ?_
    rw [form, indexed] at member
    exact DomainIndex.mem_of_methodsFor member
  case exhausted =>
    intro n t depth last stats supply first candidates plan verdict
    cases verdict
  case rejected =>
    intro n t depth m rest last stats supply supply' others attempt ih first candidates plan verdict
    obtain ⟨trail, final, among, ends⟩ :=
      ih first (fun m' later => candidates m' (List.mem_cons_of_mem m later)) plan verdict
    exact ⟨trail, final, among.trans (List.sublist_append_right ..), ends⟩
  case childRefused | childExhausted =>
    intro n t depth m rest last stats supply next supply' e failure others attempt child failed ih
      first candidates plan verdict
    obtain ⟨trail, final, among, ends⟩ :=
      ih first (fun m' later => candidates m' (List.mem_cons_of_mem m later)) plan verdict
    exact ⟨trail, final, among.trans (List.sublist_append_right ..), ends⟩
  case childDecided =>
    intro n t depth m rest last stats supply next supply' e attempt child notRefused notExhausted
      first candidates plan verdict
    obtain ⟨trail, final, among, rest, ends⟩ := child plan verdict
    have step : d.Trail n (⟨n, t, m, supply⟩ :: trail) final :=
      .step (a := ⟨n, t, m, supply⟩) first (candidates m List.mem_cons_self) attempt rest
    exact ⟨_, final, among.cons_cons _, step, ends⟩

theorem explore_sound (indexed : setting.index = .ofDomain d) {calls depth : Nat} {stats : Stats}
    {supply : Supply} {e : Exploration}
    (found : setting.explore calls n depth stats supply = some e) :
    ∀ plan, e.verdict = .solved plan → ∃ final, Relation.ReflTransGen d.Decomposes n final ∧
      final.isPrimitive = true ∧ setting.linearize final = .ok plan := by
  intro plan verdict
  obtain ⟨trail, final, -, leads, ends⟩ := explore_trail indexed found plan verdict
  exact ⟨final, leads.decompositions, ends⟩

end Setting

theorem Domain.Decomposes.wellFormed {d : Domain} {n next : Network} (decomposes : d.Decomposes n next)
    (formed : n.WellFormed) : next.WellFormed := by
  obtain ⟨t, m, supply, s, -, -, -, decomposed⟩ := decomposes
  exact formed.decompose (Prod.ext decomposed rfl)

theorem wellFormed_of_decompositions {d : Domain} {n final : Network} (formed : n.WellFormed)
    (path : Relation.ReflTransGen d.Decomposes n final) : final.WellFormed := by
  induction path with
  | refl => exact formed
  | tail _ step ih => exact step.wellFormed ih

/-- A plan that is found for a problem belongs to a network of primitive tasks. Decompositions of
the first compound task, each by a copy of a method under its unifier, lead to it from the network
of the problem. The plan has an action for each task of it, in an order that respects all
precedences. Every action is the first operator declared for its task, may be done in the state it
sees, and every condition holds where its constraint asks for it. -/
theorem findPlan_sound {p : Problem} {d : Domain} {config : PlannerConfig} {supply : Supply}
    {steps : Nat} {report : Report} {plan : Plan} (formed : p.network.WellFormed)
    (found : p.findPlan d config TaskOrder.topological supply steps = some report)
    (solved : report.result = .ok plan) :
    ∃ final ordered, Relation.ReflTransGen d.Decomposes p.network final ∧
      final.isPrimitive = true ∧ ordered.Perm final.taskList ∧
      (∀ a b, Orders final.held a b → [a, b].Sublist (ordered.map Task.id)) ∧
      plan.CarriesOut d p.state config final.constraints ordered := by
  let setting := p.setting d config TaskOrder.topological
  obtain ⟨calls, solves⟩ := Setting.run_iff_solve.mp ⟨steps, found, rfl⟩
  obtain ⟨e, explored, pair⟩ := Option.map_eq_some_iff.mp solves
  obtain ⟨rfl, -⟩ := Prod.mk.inj pair
  have indexed : setting.index = .ofDomain d := rfl
  obtain ⟨final, path, primitive, gives⟩ :=
    Setting.explore_sound indexed explored plan (Exploration.result_eq_ok.mp solved)
  have finalFormed := wellFormed_of_decompositions formed path
  obtain ⟨ordered, sorted, carriesOut⟩ := (Setting.linearize_eq_ok indexed fun ordered sorted =>
    TaskOrder.pairwise_of_topological finalFormed sorted).mp gives
  exact ⟨final, ordered, path, primitive, (TaskOrder.topological_eq_ok finalFormed).mp sorted |>.2,
    fun a b => TaskOrder.topological_respects finalFormed sorted, carriesOut⟩

theorem findPlan_sound_swap :
    let domain := Juggling.domain ⟨1, 1⟩
    let problem := (Juggling.problem "kiwi" "kiwi" "banjo" domain.2).1
    let supply := (Juggling.problem "kiwi" "kiwi" "banjo" domain.2).2
    let config : PlannerConfig := { stateProgression := .apply }
    problem.network.WellFormed ∧ ∃ report plan,
      problem.findPlan domain.1 config TaskOrder.topological supply 5 = some report ∧
      report.result = .ok plan ∧
      ∃ final ordered, Relation.ReflTransGen domain.1.Decomposes problem.network final ∧
        final.isPrimitive = true ∧ ordered.Perm final.taskList ∧
        (∀ a b, Orders final.held a b → [a, b].Sublist (ordered.map Task.id)) ∧
        plan.CarriesOut domain.1 problem.state config final.constraints ordered := by
  intro domain problem supply config
  have formed : problem.network.WellFormed :=
    (NetworkBuilder.valid_ofTasks _).build.toWellFormed
  have ends : ((problem.findPlan domain.1 config TaskOrder.topological supply 5).any fun report =>
      report.result.isOk) = true := by
    decide +kernel
  cases found : problem.findPlan domain.1 config TaskOrder.topological supply 5 with
  | none =>
      rw [found] at ends
      cases ends
  | some report =>
      cases solved : report.result with
      | error failure => simp [found, solved, Except.isOk, Except.toBool] at ends
      | ok plan => exact ⟨formed, report, plan, rfl, solved, findPlan_sound formed found solved⟩

end HtnPlanning
