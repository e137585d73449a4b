import HtnPlanning.Proofs.Search.Pruning

namespace HtnPlanning

structure Setting.Unlimited (setting : Setting) : Prop where
  depth : setting.config.maxDepth = none
  nodes : setting.config.nodeBudget = none

def SearchFailure.inTurn (failure : SearchFailure) :
    List (Except SearchFailure Plan) → Except SearchFailure Plan
  | [] => .error failure
  | .ok plan :: _ => .ok plan
  | .error failure :: rest => failure.inTurn rest

theorem SearchFailure.inTurn_singleton (failure : SearchFailure) (result : Except SearchFailure Plan) :
    failure.inTurn [result] = result := by
  cases result <;> rfl

namespace Setting

variable {setting : Setting} {calls : Nat} {n : Network} {t : Task} {m : Method}
  {candidates rest : List Method} {last : Option SearchFailure} {plan : Plan} {failure : SearchFailure}
  {result : Except SearchFailure Plan} {results : List (Except SearchFailure Plan)}

def Concludes (setting : Setting) (calls : Nat) (n : Network) (result : Except SearchFailure Plan) :
    Prop :=
  ∀ depth stats supply, n.IssuedBefore supply → ∃ e,
    setting.explore calls n depth stats supply = some e ∧ e.Decided ∧ e.result = result ∧
      supply ≤ e.supply

def ConcludesWith (setting : Setting) (calls : Nat) (n : Network) (t : Task) (candidates : List Method)
    (last : Option SearchFailure) (result : Except SearchFailure Plan) : Prop :=
  ∀ depth stats supply, n.IssuedBefore supply → ∃ e,
    n.tryAll t (fun next => setting.explore calls next (depth + 1)) candidates last stats supply =
      some e ∧ e.Decided ∧ e.result = result ∧ supply ≤ e.supply

def ConcludesBy (setting : Setting) (calls : Nat) (n : Network) (t : Task) (m : Method)
    (result : Except SearchFailure Plan) : Prop :=
  ∀ supply, n.IssuedBefore supply → ∃ next, n.tryMethod t m supply = (some next, supply.used m) ∧
    next.IssuedBefore (supply.used m) ∧ setting.Concludes calls next result

theorem ConcludesBy.solved (concludes : setting.ConcludesBy calls n t m (.ok plan)) :
    setting.ConcludesWith calls n t (m :: rest) last (.ok plan) := by
  intro depth stats supply before
  obtain ⟨next, accepted, issued, concludes⟩ := concludes supply before
  obtain ⟨e, child, decided, gives, le⟩ :=
    concludes (depth + 1) stats.decomposed (supply.used m) issued
  exact ⟨_, Network.tryAll_solved accepted child (Exploration.result_eq_ok.mp gives), decided, gives,
    Supply.le_trans (supply.le_used m) le⟩

theorem ConcludesBy.failed (concludes : setting.ConcludesBy calls n t m (.error failure))
    (others : setting.ConcludesWith calls n t rest (some failure) result) :
    setting.ConcludesWith calls n t (m :: rest) last result := by
  intro depth stats supply before
  let explore (next : Network) := setting.explore calls next (depth + 1)
  obtain ⟨next, accepted, issued, concludes⟩ := concludes supply before
  obtain ⟨e, child, decided, gives, le⟩ :=
    concludes (depth + 1) stats.decomposed (supply.used m) issued
  have fails := (Exploration.result_eq_error.mp gives).resolve_left (decided failure)
  have le := Supply.le_trans (supply.le_used m) le
  obtain ⟨counted, -, left⟩ : ∃ counted : Stats, counted.nodes = e.stats.nodes ∧
      n.tryAll t explore (m :: rest) last stats supply =
        (n.tryAll t explore rest (some failure) counted e.supply).map
          (·.after (⟨n, t, m, supply⟩ :: e.attempts)) :=
    Network.tryAll_failed accepted child fails
  obtain ⟨e', among, decided', gives', le'⟩ := others depth counted e.supply (before.mono le)
  exact ⟨e'.after (⟨n, t, m, supply⟩ :: e.attempts), left.trans (congrArg _ among), decided', gives',
    Supply.le_trans le le'⟩

theorem concludesWith_inTurn (each : List.Forall₂ (setting.ConcludesBy calls n t) candidates results) :
    setting.ConcludesWith calls n t candidates last
      ((last.getD (.methodsExhausted t.call)).inTurn results) := by
  induction each generalizing last with
  | nil => exact fun _ _ supply _ => ⟨_, rfl, fun _ => Verdict.noConfusion, rfl, supply.le_refl⟩
  | @cons m result _ _ concludes _ ih =>
      cases result with
      | ok plan => exact concludes.solved
      | error failure => exact concludes.failed ih

section Networks

variable (unlimited : setting.Unlimited) (alive : ∀ t ∈ n.taskList, setting.isDeadEnd t = false)

include alive in
theorem not_prunes_of_alive : ¬ setting.Prunes n := by
  rintro ⟨-, unsolvable⟩
  obtain ⟨t, listed, dead⟩ := List.any_eq_true.mp unsolvable
  rw [alive t listed] at dead
  cases dead

include unlimited in
theorem Unlimited.withinBudget (stats : Stats) : setting.WithinBudget stats := by
  intro budget known
  rw [unlimited.nodes] at known
  cases known

include unlimited alive

theorem concludes_primitive (primitive : n.isPrimitive = true) :
    setting.Concludes (calls + 1) n (setting.linearize n) := by
  intro depth stats supply _
  have within := unlimited.withinBudget (stats.examined depth)
  have kept := not_prunes_of_alive alive
  cases gives : setting.linearize n with
  | ok plan =>
      have examination : setting.examine n depth (stats.examined depth) = .solved plan :=
        (Examined.planned within kept primitive gives).eq
      refine ⟨⟨.solved plan, stats.examined depth, supply, []⟩, ?_, fun _ => ?_, rfl, supply.le_refl⟩
      · rw [explore, examination]
      · exact Verdict.noConfusion
  | error failure =>
      have examination : setting.examine n depth (stats.examined depth) = .failed failure :=
        (Examined.unplanned within kept primitive gives).eq
      refine ⟨⟨.refused failure, stats.examined depth, supply, []⟩, ?_, fun _ => ?_, rfl,
        supply.le_refl⟩
      · rw [explore, examination]
      · exact Verdict.noConfusion

theorem concludes_inTurn (first : n.firstCompound = .ok t)
    (each : List.Forall₂ (setting.ConcludesBy calls n t) (setting.index.methodsFor t) results) :
    setting.Concludes (calls + 1) n ((SearchFailure.methodsExhausted t.call).inTurn results) := by
  intro depth stats supply before
  have room (limit : Nat) (limited : setting.config.maxDepth = some limit) : depth < limit := by
    rw [unlimited.depth] at limited
    cases limited
  have examination : setting.examine n depth (stats.examined depth) =
      .opened ⟨n, t, setting.index.methodsFor t, depth, none⟩ :=
    (Examined.opened (unlimited.withinBudget _) (not_prunes_of_alive alive) first room).eq
  rw [explore, examination]
  exact concludesWith_inTurn each depth (stats.examined depth) supply before

end Networks

end Setting

theorem Problem.ends_of_concludes {p : Problem} {d : Domain} {config : PlannerConfig} {supply : Supply}
    {calls : Nat} {result : Except SearchFailure Plan} (before : p.network.IssuedBefore supply)
    (concludes : (p.setting d config TaskOrder.topological).Concludes calls p.network result) :
    ∃ report, p.Ends d config supply report ∧ report.result = result := by
  obtain ⟨e, explored, -, gives, -⟩ := concludes 0 {} supply before
  exact ⟨e.report, ends_iff.mpr ⟨calls, e, explored, rfl⟩, gives⟩

end HtnPlanning
