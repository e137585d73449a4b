import HtnPlanning.Proofs.Search.Akin
import HtnPlanning.Proofs.Search.DeadEnds
import HtnPlanning.Proofs.Search.Failures

/-!
# Searches with and without pruning

A search that prunes follows one that does not: at every network that both come to they do the same,
and where the one turns a network down the other looks for a plan in vain. The networks differ in the
numbers issued for them, since the search that prunes tries fewer methods.
-/

namespace HtnPlanning

structure Exploration.Follows (e' e : Exploration) : Prop where
  nodes : e'.stats.nodes ≤ e.stats.nodes
  solved : ∀ plan, e.verdict = .solved plan → e'.verdict = .solved plan
  failed : ∀ failure, e.verdict.Fails failure → ∃ failure', e'.verdict.Fails failure'

def Exploration.Decided (e : Exploration) : Prop :=
  ∀ failure, e.verdict ≠ .stopped failure

namespace Exploration.Follows

variable {e' e : Exploration} {plan : Plan} {failure failure' : SearchFailure}

theorem after (follows : e'.Follows e) (log' log : List Attempt) :
    (e'.after log').Follows (e.after log) :=
  ⟨follows.nodes, follows.solved, follows.failed⟩

theorem of_solved (nodes : e'.stats.nodes ≤ e.stats.nodes) (solved : e.verdict = .solved plan)
    (solved' : e'.verdict = .solved plan) : e'.Follows e where
  nodes := nodes
  solved plan' same := by rw [solved', ← solved, same]
  failed failure fails := by simp [Verdict.Fails, solved] at fails

theorem of_fails (nodes : e'.stats.nodes ≤ e.stats.nodes) (fails : e.verdict.Fails failure)
    (fails' : e'.verdict.Fails failure') : e'.Follows e where
  nodes := nodes
  solved plan solved := by simp [Verdict.Fails, solved] at fails
  failed _ _ := ⟨failure', fails'⟩

end Exploration.Follows

/-! ## One task -/

namespace Network

variable {n n' next : Network} {t t' : Task} {m : Method} {candidates rest : List Method}
  {last last' : Option SearchFailure} {stats stats' : Stats} {supply supply' : Supply}
  {e : Exploration} {failure : SearchFailure}
  {explore explore' : Network → Stats → Supply → Option Exploration}

def Follows (explore' explore : Network → Stats → Supply → Option Exploration) : Prop :=
  ∀ n stats supply e, explore n stats supply = some e → e.Decided → ∀ n' stats' supply',
    n.Akin supply n' supply' → stats'.nodes ≤ stats.nodes →
    ∃ e', explore' n' stats' supply' = some e' ∧ e'.Follows e

theorem tryAll_failed (accepted : n.tryMethod t m supply = (some next, supply'))
    (child : explore next stats.decomposed supply' = some e) (fails : e.verdict.Fails failure) :
    ∃ stats', stats'.nodes = e.stats.nodes ∧
      n.tryAll t explore (m :: rest) last stats supply =
        (n.tryAll t explore rest (some failure) stats' e.supply).map
          (·.after (⟨n, t, m, supply⟩ :: e.attempts)) := by
  rw [tryAll_accepted accepted child]
  rcases fails with refused | exhausted
  · exact ⟨e.stats.backtracked, rfl, by rw [refused]⟩
  · exact ⟨e.stats, rfl, by rw [exhausted]⟩

theorem tryAll_solved (accepted : n.tryMethod t m supply = (some next, supply'))
    (child : explore next stats.decomposed supply' = some e) {plan : Plan}
    (solved : e.verdict = .solved plan) :
    n.tryAll t explore (m :: rest) last stats supply = some (e.after [⟨n, t, m, supply⟩]) := by
  rw [tryAll_accepted accepted child, solved]

theorem Follows.tryAll (follows : Follows explore' explore)
    (grows : ∀ n stats supply e, explore n stats supply = some e → supply ≤ e.supply)
    (grows' : ∀ n stats supply e, explore' n stats supply = some e → supply ≤ e.supply)
    (templates : ∀ m ∈ candidates, m.template.Valid) (first : n.firstCompound = .ok t)
    (first' : n'.firstCompound = .ok t')
    (found : n.tryAll t explore candidates last stats supply = some e) (decided : e.Decided)
    (akin : n.Akin supply n' supply') (nodes : stats'.nodes ≤ stats.nodes) :
    ∃ e', n'.tryAll t' explore' candidates last' stats' supply' = some e' ∧ e'.Follows e := by
  -- Both turn down the same candidates, so they have the same ones left all along. What one of them
  -- issues below a network is not what the other issues, but the network itself stays akin.
  induction candidates generalizing last last' stats stats' supply supply' e with
  | nil =>
      obtain rfl := Option.some.inj found
      exact ⟨_, rfl, .of_fails nodes (.inr rfl) (.inr rfl)⟩
  | cons m rest ih =>
      obtain ⟨template, templates⟩ := List.forall_mem_cons.mp templates
      rcases akin.tryMethod first first' template with
        ⟨rejected, rejected'⟩ | ⟨next, next', accepted, accepted', below⟩
      · rw [tryAll_rejected rejected] at found
        obtain ⟨others, among, rfl⟩ := Option.map_eq_some_iff.mp found
        obtain ⟨others', among', same⟩ := ih templates among decided
          (akin.mono (supply.le_copied m) (supply'.le_copied m))
          (show stats'.backtracked.nodes ≤ stats.backtracked.nodes from nodes)
        exact ⟨others'.after _, by rw [tryAll_rejected rejected', among', Option.map_some],
          same.after _ _⟩
      · cases child : explore next stats.decomposed (supply.used m) with
        | none => simp [Network.tryAll, accepted, child] at found
        | some c =>
            have decidedChild : c.Decided := by
              intro failure stopped
              rw [tryAll_accepted accepted child, stopped] at found
              obtain rfl := Option.some.inj found
              exact decided failure stopped
            obtain ⟨c', child', same⟩ := follows _ _ _ _ child decidedChild next' stats'.decomposed
              (supply'.used m) below nodes
            cases verdict : c.verdict with
            | stopped failure => exact absurd verdict (decidedChild failure)
            | solved plan =>
                rw [tryAll_solved accepted child verdict] at found
                obtain rfl := Option.some.inj found
                exact ⟨_, tryAll_solved accepted' child' (same.solved plan verdict), same.after _ _⟩
            | refused failure | exhausted failure =>
                have fails : c.verdict.Fails failure := by simp [Verdict.Fails, verdict]
                obtain ⟨failure', fails'⟩ := same.failed failure fails
                obtain ⟨counted, count, left⟩ := tryAll_failed accepted child fails
                obtain ⟨counted', count', right⟩ := tryAll_failed accepted' child' fails'
                rw [left] at found
                obtain ⟨others, among, rfl⟩ := Option.map_eq_some_iff.mp found
                have le := Supply.le_trans (supply.le_used m) (grows _ _ _ _ child)
                have le' := Supply.le_trans (supply'.le_used m) (grows' _ _ _ _ child')
                obtain ⟨others', among', later⟩ := ih templates among decided (akin.mono le le')
                  (show counted'.nodes ≤ counted.nodes from count ▸ count' ▸ same.nodes)
                exact ⟨others'.after _, by rw [right, among', Option.map_some], later.after _ _⟩

end Network

/-! ## One network -/

namespace Setting

variable {setting : Setting} {d : Domain} {n n' : Network} {depth calls : Nat} {stats stats' : Stats}
  {supply supply' : Supply} {e : Exploration} {plan : Plan}

def withPruning (setting : Setting) (prune : Bool) : Setting :=
  { setting with config := { setting.config with pruneDeadEnds := prune } }

theorem not_isUnsolvable_of_explore (indexed : setting.index = .ofDomain d)
    (sorted : setting.sorter = TaskOrder.topological) (templates : ∀ m ∈ d.methods, m.template.Valid)
    (before : n.IssuedBefore supply)
    (found : setting.explore calls n depth stats supply = some e) (solved : e.verdict = .solved plan) :
    setting.isUnsolvable n = false := by
  obtain ⟨final, path, issued, primitive, gives⟩ :=
    (explore_applies indexed templates found).2 before plan solved
  rw [← Bool.not_eq_true]
  intro unsolvable
  exact not_linearize_of_isUnsolvable indexed before.toWellFormed unsolvable path primitive
    (permutes_of_topological sorted issued.toWellFormed) gives

theorem within_of_explore (found : setting.explore (calls + 1) n depth stats supply = some e)
    (decided : e.Decided) : setting.WithinBudget (stats.examined depth) := by
  rcases setting.withinBudget_or (stats.examined depth) with within | ⟨budget, known, past⟩
  · exact within
  · have stopped : setting.examine n depth (stats.examined depth) =
        .stopped (.budgetExhausted budget) := (Examined.overBudget known past).eq
    simp only [explore, stopped, Option.some.injEq] at found
    subst found
    exact absurd rfl (decided _)

theorem examine_withPruning (depth : Nat) (sorted : setting.sorter = TaskOrder.topological) (akin : n.Akin supply n' supply')
    (alive : setting.isUnsolvable n = false)
    (within : (setting.withPruning false).WithinBudget stats) (count : stats'.nodes ≤ stats.nodes) :
    (∃ plan, (setting.withPruning false).examine n depth stats = .solved plan ∧
      (setting.withPruning true).examine n' depth stats' = .solved plan) ∨
    (∃ failure failure', (setting.withPruning false).examine n depth stats = .failed failure ∧
      (setting.withPruning true).examine n' depth stats' = .failed failure') ∨
    ∃ t t', n.firstCompound = .ok t ∧ n'.firstCompound = .ok t' ∧
      (setting.withPruning false).examine n depth stats =
        .opened ⟨n, t, setting.index.methodsFor t, depth, none⟩ ∧
      (setting.withPruning true).examine n' depth stats' =
        .opened ⟨n', t', setting.index.methodsFor t, depth, none⟩ := by
  have within' : (setting.withPruning true).WithinBudget stats' :=
    fun budget known => Nat.le_trans count (within budget known)
  have kept : ¬ (setting.withPruning true).Prunes n' := by
    rintro ⟨-, unsolvable⟩
    have dead : setting.isUnsolvable n' = true := unsolvable
    rw [akin.isUnsolvable, alive] at dead
    cases dead
  have plans (plan : Plan) : setting.linearize n' = .ok plan ↔ setting.linearize n = .ok plan :=
    akin.linearize sorted
  generalize same : (setting.withPruning false).examine n depth stats = examination
  cases examine_eq_iff.mp same with
  | overBudget known past => exact absurd (within _ known) (Nat.not_le.mpr past)
  | pruned _ prunes => cases prunes.1
  | @planned plan _ _ primitive gives =>
      exact .inl ⟨plan, rfl, (Examined.planned within' kept (akin.isPrimitive.trans primitive)
        ((plans plan).mpr gives)).eq⟩
  | @unplanned failure _ _ primitive gives =>
      cases gives' : setting.linearize n' with
      | ok plan =>
          have gives : setting.linearize n = .error failure := gives
          rw [(plans plan).mp gives'] at gives
          cases gives
      | error failure' =>
          exact .inr (.inl ⟨failure, failure', rfl,
            (Examined.unplanned within' kept (akin.isPrimitive.trans primitive) gives').eq⟩)
  | tooDeep _ _ first limited reached =>
      obtain ⟨t', first', -⟩ := akin.firstCompound first
      exact .inr (.inl ⟨_, _, rfl, (Examined.tooDeep within' kept first' limited reached).eq⟩)
  | @opened t _ _ first room =>
      obtain ⟨t', first', name⟩ := akin.firstCompound first
      have candidates : setting.index.methodsFor t' = setting.index.methodsFor t := by
        rw [DomainIndex.methodsFor, DomainIndex.methodsFor, name]
      exact .inr (.inr ⟨t, t', first, first', rfl,
        candidates ▸ (Examined.opened within' kept first' room).eq⟩)

theorem explore_follows_of_isUnsolvable (indexed : setting.index = .ofDomain d)
    (sorted : setting.sorter = TaskOrder.topological) (templates : ∀ m ∈ d.methods, m.template.Valid)
    (akin : n.Akin supply n' supply')
    (found : (setting.withPruning false).explore (calls + 1) n depth stats supply = some e)
    (unsolvable : setting.isUnsolvable n = true)
    (within : (setting.withPruning true).WithinBudget (stats'.examined depth))
    (nodes : stats'.nodes ≤ stats.nodes) :
    ∃ e', (setting.withPruning true).explore (calls + 1) n' depth stats' supply' = some e' ∧
      e'.Follows e := by
  have unsolvable' : setting.isUnsolvable n' = true := akin.isUnsolvable.trans unsolvable
  have pruned : (setting.withPruning true).examine n' depth (stats'.examined depth) =
      .failed .pruned := (Examined.pruned within ⟨rfl, unsolvable'⟩).eq
  refine ⟨_, by simp only [explore, pruned]; rfl, ?nodes, ?solved, ?failed⟩
  case nodes => exact Nat.le_trans (Nat.succ_le_succ nodes) (nodes_lt_of_explore found)
  case solved =>
    intro plan solved
    have alive : (setting.withPruning false).isUnsolvable n = false :=
      not_isUnsolvable_of_explore indexed sorted templates akin.left found solved
    exact absurd (alive.symm.trans unsolvable) Bool.false_ne_true
  case failed => exact fun failure _ => ⟨_, .inl rfl⟩

theorem explore_follows (setting : Setting) (indexed : setting.index = .ofDomain d)
    (sorted : setting.sorter = TaskOrder.topological) (templates : ∀ m ∈ d.methods, m.template.Valid)
    (calls depth : Nat) :
    Network.Follows (fun n => (setting.withPruning true).explore calls n depth)
      (fun n => (setting.withPruning false).explore calls n depth) := by
  have grows (prune : Bool) (calls depth : Nat) (n : Network) (stats : Stats) (supply : Supply)
      (e : Exploration)
      (found : (setting.withPruning prune).explore calls n depth stats supply = some e) :
      supply ≤ e.supply := by
    have indexed : (setting.withPruning prune).index = .ofDomain d := indexed
    exact (explore_applies indexed templates found).1
  -- Only at a dead end do the two part: one stops there, the other goes on and counts more networks.
  induction calls generalizing depth with
  | zero => exact fun n stats supply e found => by cases found
  | succ calls ih =>
      intro n stats supply e found decided n' stats' supply' akin nodes
      change (setting.withPruning false).explore (calls + 1) n depth stats supply = some e at found
      have within := within_of_explore found decided
      have count : (stats'.examined depth).nodes ≤ (stats.examined depth).nodes := Nat.succ_le_succ nodes
      cases unsolvable : setting.isUnsolvable n with
      | true =>
          exact explore_follows_of_isUnsolvable indexed sorted templates akin found unsolvable
            (fun budget known => Nat.le_trans count (within budget known)) nodes
      | false =>
          rcases examine_withPruning depth sorted akin unsolvable within count with
            ⟨plan, left, right⟩ | ⟨failure, failure', left, right⟩ | ⟨t, t', first, first', left, right⟩
          · simp only [explore, left, Option.some.injEq] at found
            subst found
            exact ⟨{ verdict := .solved plan, stats := stats'.examined depth, supply := supply' },
              by simp only [explore, right], .of_solved count rfl rfl⟩
          · simp only [explore, left, Option.some.injEq] at found
            subst found
            exact ⟨_, by simp only [explore, right]; rfl, .of_fails count (.inl rfl) (.inl rfl)⟩
          · simp only [explore, left] at found
            simp only [explore, right]
            refine (ih (depth + 1)).tryAll (grows false _ _) (grows true _ _) (fun m member => ?_) first first'
              found decided akin count
            rw [indexed] at member
            exact templates m (DomainIndex.mem_of_methodsFor member)

end Setting

/-! ## The search for a plan -/

theorem Problem.Ends.withPruning {p : Problem} {d : Domain} {config : PlannerConfig}
    {supply supply' : Supply} {report : Report} (templates : ∀ m ∈ d.methods, m.template.Valid)
    (before : p.network.IssuedBefore supply) (before' : p.network.IssuedBefore supply')
    (ends : p.Ends d { config with pruneDeadEnds := false } supply report)
    (decided : ∀ failure, report.result = .error failure → ¬ failure.OverBudget) :
    ∃ report', p.Ends d { config with pruneDeadEnds := true } supply' report' ∧
      report'.stats.nodes ≤ report.stats.nodes ∧
      (∀ plan, report.result = .ok plan → report'.result = .ok plan) ∧
      ∀ failure, report.result = .error failure →
        ∃ failure', report'.result = .error failure' ∧ ¬ failure'.OverBudget := by
  obtain ⟨calls, e, explored, rfl⟩ := ends_iff.mp ends
  have accounts := Setting.explore_accounts rfl explored
  have decidedE : e.Decided := by
    intro failure stopped
    obtain ⟨budget, -, is⟩ := accounts.stopped failure stopped
    exact decided failure (Exploration.result_eq_error.mpr (.inl stopped)) ⟨budget, is⟩
  have follows := Setting.explore_follows (p.setting d config TaskOrder.topological) rfl rfl templates
    calls 0
  obtain ⟨e', explored', follows⟩ := follows p.network {} supply e explored decidedE p.network {} supply'
    (before.akin before') (Nat.le_refl _)
  have accounts' := Setting.explore_accounts rfl explored'
  refine ⟨e'.report, ends_iff.mpr ⟨calls, e', explored', rfl⟩, follows.nodes, fun plan solved => ?_,
    fun failure failed => ?_⟩
  · exact Exploration.result_eq_ok.mpr (follows.solved plan (Exploration.result_eq_ok.mp solved))
  · have fails := (Exploration.result_eq_error.mp failed).resolve_left (decidedE failure)
    obtain ⟨failure', fails'⟩ := follows.failed failure fails
    exact ⟨failure', Exploration.result_eq_error.mpr (.inr fails'), accounts'.failed failure' fails'⟩

end HtnPlanning
