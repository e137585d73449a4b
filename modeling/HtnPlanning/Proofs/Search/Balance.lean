import HtnPlanning.Proofs.Search.Visits
import HtnPlanning.Samples.Juggling

/-!
# What the counters of a search add up to

Every method that is tried is an alternative, and so is the first network. An alternative is given up
once, when the method does not fit, when the decomposition or the network that it gives is turned down,
or when the frame of that network has no methods left. So while a search is under way, the alternatives
that were given up and those that are still open, one for every frame, are together as many as there
were. At the end, those still open lead from the first network to the last.
-/

namespace HtnPlanning

/-! ## What comes of a method -/

inductive Outcome where
  | unfit
  | rejected
  | decomposed
deriving DecidableEq

namespace Attempt

def outcome (a : Attempt) : Outcome :=
  let (m, supply) := a.method.standardizeApart a.supply
  match m.unifier a.task with
  | .error _ => .unfit
  | .ok s =>
    match (a.network.decompose s a.task m supply).1 with
    | .error _ => .rejected
    | .ok _ => .decomposed

theorem outcome_eq_decomposed {a : Attempt} : a.outcome = .decomposed ↔
    (a.network.tryMethod a.task a.method a.supply).1.isSome = true := by
  simp only [outcome, Network.tryMethod]
  cases (a.method.standardizeApart a.supply).1.unifier a.task with
  | error _ => simp
  | ok s =>
      dsimp only
      rcases a.network.decompose s a.task (a.method.standardizeApart a.supply).1
        (a.method.standardizeApart a.supply).2 with ⟨error | n, supply⟩
      · simp
      · simp

variable {n next : Network} {t : Task} {m : Method} {supply supply' : Supply}

theorem outcome_of_accepted (accepted : n.tryMethod t m supply = (some next, supply')) :
    (⟨n, t, m, supply⟩ : Attempt).outcome = .decomposed := by
  rw [outcome_eq_decomposed, accepted, Option.isSome_some]

theorem outcome_of_rejected (rejected : n.tryMethod t m supply = (none, supply')) :
    (⟨n, t, m, supply⟩ : Attempt).outcome ≠ .decomposed := by
  rw [ne_eq, outcome_eq_decomposed, rejected, Option.isSome_none]
  exact Bool.false_ne_true

def count (log : List Attempt) (o : Outcome) : Nat :=
  log.countP (·.outcome = o)

theorem count_add (log : List Attempt) :
    count log .unfit + count log .rejected + count log .decomposed = log.length := by
  induction log with
  | nil => rfl
  | cons a log ih =>
      simp only [count, List.countP_cons, List.length_cons] at ih ⊢
      cases a.outcome <;> simp <;> omega

end Attempt

/-! ## The balance -/

namespace Stats

variable {stats : Stats} {log : List Attempt} {a : Attempt} {depth : Nat}

structure Counts (stats : Stats) (log : List Attempt) : Prop where
  decompositions : stats.decompositions = Attempt.count log .decomposed
  nodes : stats.nodes = stats.decompositions + 1
  maxDepth : stats.maxDepth ≤ stats.decompositions

theorem Counts.backtracked (counts : stats.Counts log) : stats.backtracked.Counts log :=
  { counts with }

theorem Counts.skip (counts : stats.Counts log) (failed : a.outcome ≠ .decomposed) :
    stats.Counts (log ++ [a]) := by
  refine ⟨counts.decompositions.trans ?_, counts.nodes, counts.maxDepth⟩
  simp [Attempt.count, failed]

theorem Counts.enter (counts : stats.Counts log) (succeeded : a.outcome = .decomposed)
    (within : depth ≤ stats.decompositions + 1) :
    (stats.decomposed.examined depth).Counts (log ++ [a]) := by
  refine ⟨(congrArg (· + 1) counts.decompositions).trans ?_, congrArg (· + 1) counts.nodes,
    max_le (Nat.le_succ_of_le counts.maxDepth) within⟩
  simp [Attempt.count, succeeded]

end Stats

inductive Stacked : List Frame → Prop where
  | nil : Stacked []
  | cons {frame : Frame} {below : List Frame} (depth : frame.depth = below.length)
      (failure : ∀ failure, frame.failure = some failure → ¬ failure.OverBudget)
      (rest : Stacked below) : Stacked (frame :: below)

/-- A search opens its first network when this has a compound task, is not pruned, and is not as deep as
the search may go. -/
def Setting.Opens (setting : Setting) (n : Network) : Prop :=
  n.isPrimitive = false ∧ ¬ setting.Prunes n ∧
    ∀ limit, setting.config.maxDepth = some limit → 0 < limit

/-- Where a search that starts with a network can be when it has tried some methods and come to a last
network. -/
inductive Progress.Balanced (setting : Setting) (first : Network) (log : List Attempt)
    (last : Visit) : Progress → Prop where
  -- Every open frame stands for the alternative that led to its network.
  | running {search : Search} (opens : setting.Opens first) (counts : search.stats.Counts log)
      (stacked : Stacked search.stack)
      (open_ : search.stats.backtracks + search.stack.length = log.length + 1)
      (within : search.stack.length ≤ search.stats.decompositions + 1) :
      Balanced setting first log last (.running search)
  | solved {report : Report} {plan : Plan} (counts : report.stats.Counts log)
      (open_ : report.stats.backtracks + last.depth = log.length)
      (gives : setting.examine last.network last.depth report.stats = .solved plan)
      (result : report.result = .ok plan) : Balanced setting first log last (.finished report)
  | stopped {report : Report} {failure : SearchFailure} (counts : report.stats.Counts log)
      (open_ : report.stats.backtracks + last.depth = log.length)
      (gives : setting.examine last.network last.depth report.stats = .stopped failure)
      (result : report.result = .error failure) : Balanced setting first log last (.finished report)
  | refused {report : Report} {failure : SearchFailure} (closed : ¬ setting.Opens first)
      (counts : report.stats.Counts log) (none : report.stats.backtracks = 0)
      (result : report.result = .error failure) (other : ¬ failure.OverBudget) :
      Balanced setting first log last (.finished report)
  | exhausted {report : Report} {failure : SearchFailure} (opens : setting.Opens first)
      (counts : report.stats.Counts log) (all : report.stats.backtracks = log.length + 1)
      (result : report.result = .error failure) (other : ¬ failure.OverBudget) :
      Balanced setting first log last (.finished report)

namespace Setting

variable {setting : Setting} {n : Network} {stats : Stats} {frame : Frame} {failure : SearchFailure}

theorem opens_of_examine (opened : setting.examine n 0 stats = .opened frame) : setting.Opens n := by
  cases examine_eq_iff.mp opened with
  | opened _ kept found room =>
      refine ⟨Bool.eq_false_iff.mpr fun primitive => ?_, kept, room⟩
      have none : n.firstCompound = .error {} := Network.firstCompound_eq_error.mpr primitive
      cases found.symm.trans none

theorem not_opens_of_examine (failed : setting.examine n 0 stats = .failed failure) :
    ¬ setting.Opens n := by
  rintro ⟨compound, kept, room⟩
  cases examine_eq_iff.mp failed with
  | pruned _ prunes => exact kept prunes
  | unplanned _ _ primitive => exact Bool.false_ne_true (compound.symm.trans primitive)
  | tooDeep _ _ _ limited reached => exact absurd (room _ limited) (Nat.not_lt.mpr reached)

end Setting

namespace Search

variable {setting : Setting} {first : Network} {log : List Attempt} {last : Visit} {p : Progress}
  (sorted : setting.sorter = TaskOrder.topological)

include sorted

theorem balanced_arrive {root : Task} {stack : List Frame} {n : Network} {stats : Stats}
    {supply : Supply} (counts : (stats.examined stack.length).Counts log) (stacked : Stacked stack)
    (open_ : stats.backtracks + stack.length = log.length)
    (within : stack.length ≤ stats.decompositions)
    (start : stack = [] → n = first ∧ stats.backtracks = 0)
    (opens : stack ≠ [] → setting.Opens first) :
    (arrive setting root stack n stack.length stats supply).Balanced setting first log
      ⟨n, stack.length⟩ := by
  cases examination : setting.examine n stack.length (stats.examined stack.length) with
  | solved plan =>
      simp only [arrive, examination]
      exact .solved counts open_ examination rfl
  | stopped failure =>
      simp only [arrive, examination]
      exact .stopped counts open_ examination rfl
  | failed failure =>
      have other := Setting.examine_failed_overBudget sorted examination
      simp only [arrive, examination]
      cases stacked with
      | nil =>
          obtain ⟨rfl, none⟩ := start rfl
          exact .refused (Setting.not_opens_of_examine examination) counts none rfl other
      | cons depth _ rest =>
          refine .running (opens (List.cons_ne_nil _ _)) counts.backtracked
            (.cons depth (fun _ same => Option.some.inj same ▸ other) rest) ?_ (Nat.le_succ_of_le within)
          exact (Nat.succ_add ..).trans (congrArg (· + 1) open_)
  | opened frame =>
      obtain ⟨-, is⟩ := Setting.examine_opened examination
      have fresh : frame.failure = none := congrArg Frame.failure is
      simp only [arrive, examination]
      refine .running ?_ counts (.cons (congrArg Frame.depth is) (by simp [fresh]) stacked)
        (congrArg (· + 1) open_) (Nat.succ_le_succ within)
      cases stack with
      | nil => exact (start rfl).1 ▸ Setting.opens_of_examine examination
      | cons parent below => exact opens (List.cons_ne_nil parent below)

theorem balanced_step {search : Search}
    (balanced : (Progress.running search).Balanced setting first log last) :
    (search.step setting).Balanced setting first (log ++ search.attempt?.toList)
      (search.visit?.getD last) := by
  obtain ⟨opens, counts, stacked, open_, within⟩ := balanced
  cases search.turn with
  | ended empty steps =>
      have none : search.attempt? = none := by simp [attempt?, empty]
      rw [empty] at open_
      rw [steps, none, Option.toList_none, List.append_nil]
      exact .exhausted opens counts open_ rfl (SearchFailure.not_overBudget_exhausted _)
  | gaveUp top below stack spent steps =>
      have none : search.attempt? = none := by simp [attempt?, stack, spent]
      rw [stack] at stacked open_ within
      rw [steps, none, Option.toList_none, List.append_nil]
      obtain - | ⟨depth, failure, rest⟩ := stacked
      have other : ¬ (top.failure.getD (.methodsExhausted top.task.call)).OverBudget := by
        cases given : top.failure with
        | none => exact SearchFailure.not_overBudget_exhausted _
        | some failure' => exact failure failure' given
      obtain - | ⟨depthBelow, -, rest⟩ := rest
      · exact .exhausted opens counts.backtracked open_ rfl other
      · refine .running opens counts.backtracked
          (.cons depthBelow (fun _ same => Option.some.inj same ▸ other) rest) ?_ (Nat.le_of_succ_le within)
        exact (Nat.succ_add ..).trans open_
  | skipped top below m rest supply stack candidates rejected steps =>
      have tries : search.attempt? = some ⟨top.network, top.task, m, search.supply⟩ := by
        simp [attempt?, stack, candidates]
      rw [stack] at stacked open_ within
      obtain - | ⟨depth, failure, lower⟩ := stacked
      rw [steps, tries, Option.toList_some]
      refine .running opens (counts.skip (Attempt.outcome_of_rejected rejected)).backtracked
        (.cons depth failure lower) ?_ within
      rw [List.length_append]
      exact (Nat.succ_add ..).trans (congrArg (· + 1) open_)
  | entered top below m rest n supply stack candidates accepted steps =>
      have tries : search.attempt? = some ⟨top.network, top.task, m, search.supply⟩ := by
        simp [attempt?, stack, candidates]
      have comes : search.visit? = some ⟨n, top.depth + 1⟩ := by
        simp [visit?, stack, candidates, accepted]
      rw [stack] at stacked open_ within
      obtain - | ⟨depth, failure, lower⟩ := stacked
      have height : top.depth + 1 = ({ top with candidates := rest } :: below).length :=
        congrArg (· + 1) depth
      rw [steps, tries, comes, Option.toList_some, Option.getD_some, height]
      refine balanced_arrive sorted (counts.enter (Attempt.outcome_of_accepted accepted) within)
        (.cons depth failure lower) ?_ within (fun empty => absurd empty (List.cons_ne_nil _ _))
        fun _ => opens
      rw [List.length_append]
      exact open_

theorem balanced_advance (balanced : p.Balanced setting first log last) (steps : Nat) :
    (advance setting steps p).Balanced setting first (log ++ attempts setting steps p)
      ((visits setting steps p).getLast?.getD last) := by
  induction steps generalizing p log last with
  | zero => simpa [advance, attempts, visits] using balanced
  | succ steps ih =>
      cases p with
      | finished report => simpa [advance, attempts, visits] using balanced
      | running search =>
          have rest := ih (balanced_step sorted balanced)
          rw [List.append_assoc, ← Option.getD_or] at rest
          rw [advance, attempts, visits, List.getLast?_append]
          cases comes : search.visit? <;> simpa [comes] using rest

theorem balanced_start (n : Network) (supply : Supply) :
    (setting.start n supply).Balanced setting n [] ⟨n, 0⟩ := by
  obtain ⟨root, start⟩ := Setting.start_eq_arrive n supply
  have counts : (({} : Stats).examined ([] : List Frame).length).Counts [] :=
    ⟨rfl, rfl, Nat.le_refl 0⟩
  rw [start]
  exact balanced_arrive sorted counts .nil rfl (Nat.le_refl 0) (fun _ => ⟨rfl, rfl⟩)
    fun filled => absurd rfl filled

end Search

/-- The counters of a search balance. It comes to one network more than it gives decompositions, and
never deeper than there are decompositions. A search that ends with a plan or out of its budget has
given up all methods that it tried but those that led to the last network. A search that ends otherwise
has given up all of them and the first network, which it opened, or it did not open the first network
and gave up nothing. -/
theorem findPlan_balance {p : Problem} {d : Domain} {config : PlannerConfig} {supply : Supply}
    {steps : Nat} {report : Report}
    (found : p.findPlan d config TaskOrder.topological supply steps = some report) :
    let setting := p.setting d config TaskOrder.topological
    let log := Search.attempts setting steps (setting.start p.network supply)
    let tried := Attempt.count log .unfit + Attempt.count log .rejected + Attempt.count log .decomposed
    tried = log.length ∧
    report.stats.decompositions = Attempt.count log .decomposed ∧
    report.stats.nodes = report.stats.decompositions + 1 ∧
    report.stats.maxDepth ≤ report.stats.decompositions ∧
    (∃ last, (setting.visits p.network supply steps).getLast? = some last ∧
      (∀ plan, report.result = .ok plan →
        last.network.isPrimitive = true ∧ setting.linearize last.network = .ok plan ∧
          report.stats.backtracks + last.depth = tried) ∧
      ∀ budget, report.result = .error (.budgetExhausted budget) →
        config.nodeBudget = some budget ∧ budget < report.stats.nodes ∧
          report.stats.backtracks + last.depth = tried) ∧
    ∀ failure, report.result = .error failure → (∀ budget, failure ≠ .budgetExhausted budget) →
      (setting.Opens p.network → report.stats.backtracks = tried + 1) ∧
        (¬ setting.Opens p.network → report.stats.backtracks = 0) := by
  intro setting log tried
  have all : tried = log.length := Attempt.count_add log
  have sorted : setting.sorter = TaskOrder.topological := rfl
  have balanced := Search.balanced_advance sorted (Search.balanced_start sorted p.network supply) steps
  rw [Search.run_eq_some_iff.mp found, List.nil_append] at balanced
  have visits : (setting.visits p.network supply steps).getLast? = _ := List.getLast?_cons
  generalize (Search.visits setting steps (setting.start p.network supply)).getLast?.getD ⟨p.network, 0⟩ =
    last at balanced visits
  rw [all]
  have counts : report.stats.Counts log := by cases balanced <;> assumption
  refine ⟨rfl, counts.decompositions, counts.nodes, counts.maxDepth, ⟨last, visits, ?_, ?_⟩, ?_⟩
  · intro plan is
    cases balanced with
    | solved _ open_ gives result =>
        obtain rfl := Except.ok.inj (result.symm.trans is)
        obtain ⟨primitive, linearized⟩ := Setting.examine_solved gives
        exact ⟨primitive, linearized, open_⟩
    | stopped _ _ _ result | refused _ _ _ result | exhausted _ _ _ result =>
        cases result.symm.trans is
  · intro budget is
    cases balanced with
    | solved _ _ _ result => cases result.symm.trans is
    | stopped _ open_ gives result =>
        obtain rfl := Except.error.inj (result.symm.trans is)
        cases Setting.examine_eq_iff.mp gives with
        | overBudget known past => exact ⟨known, past, open_⟩
    | refused _ _ _ result other | exhausted _ _ _ result other =>
        exact absurd ⟨budget, Except.error.inj (result.symm.trans is)⟩ other
  · intro failure is other
    cases balanced with
    | solved _ _ _ result => cases result.symm.trans is
    | stopped _ _ gives result =>
        obtain rfl := Except.error.inj (result.symm.trans is)
        cases Setting.examine_eq_iff.mp gives with
        | overBudget => exact absurd rfl (other _)
    | refused closed _ none => exact ⟨fun opens => absurd opens closed, fun _ => none⟩
    | exhausted opens _ all => exact ⟨fun _ => all, fun closed => absurd opens closed⟩

-- With the banjo in hand the first method fails and the second does not; with neither in hand both fail.
theorem findPlan_balance_swap :
    let domain := Juggling.domain ⟨1, 1⟩
    let problem (held : String) := (Juggling.problem held "kiwi" "banjo" domain.2).1
    let supply := (Juggling.problem "banjo" "kiwi" "banjo" domain.2).2
    let run (held : String) := (problem held).findPlan domain.1 {} TaskOrder.topological supply 10
    (∃ report plan, run "banjo" = some report ∧ report.result = .ok plan ∧
      report.stats.nodes = 3 ∧ report.stats.backtracks = 1) ∧
    ∃ report failure, run "yoyo" = some report ∧ report.result = .error failure ∧
      report.stats.nodes = 3 ∧ report.stats.backtracks = 3 := by
  intro domain problem supply run
  let setting (held : String) := (problem held).setting domain.1 {} TaskOrder.topological
  let log (held : String) :=
    Search.attempts (setting held) 10 ((setting held).start (problem held).network supply)
  have tried (held : String) (known : held ∈ ["banjo", "yoyo"]) :
      (log held).length = 2 ∧ Attempt.count (log held) .decomposed = 2 := by
    revert held
    decide +kernel
  constructor
  · have solves : (run "banjo").map (·.result.isOk) = some true := by decide +kernel
    have depth : ((setting "banjo").visits (problem "banjo").network supply 10).getLast?.map
        Visit.depth = some 1 := by decide +kernel
    obtain ⟨length, decomposed⟩ := tried "banjo" (by simp)
    obtain ⟨report, found, ok⟩ := Option.map_eq_some_iff.mp solves
    obtain ⟨all, decompositions, nodes, -, ⟨last, comes, planned, -⟩, -⟩ := findPlan_balance found
    cases result : report.result with
    | error failure =>
        rw [result] at ok
        cases ok
    | ok plan =>
        obtain ⟨-, -, balance⟩ := planned plan result
        rw [comes] at depth
        have height : last.depth = 1 := Option.some.inj depth
        have balance : report.stats.backtracks + last.depth = 2 := balance.trans (all.trans length)
        exact ⟨report, plan, found, result,
          nodes.trans (congrArg (· + 1) (decompositions.trans decomposed)), by omega⟩
  · have fails : (run "yoyo").map (·.result.isOk) = some false := by decide +kernel
    have opens : (setting "yoyo").Opens (problem "yoyo").network :=
      ⟨by decide +kernel, fun prunes => absurd prunes.2 (by decide +kernel), nofun⟩
    obtain ⟨length, decomposed⟩ := tried "yoyo" (by simp)
    obtain ⟨report, found, failed⟩ := Option.map_eq_some_iff.mp fails
    obtain ⟨all, decompositions, nodes, -, ⟨last, -, -, stopped⟩, ended⟩ := findPlan_balance found
    cases result : report.result with
    | ok plan =>
        rw [result] at failed
        cases failed
    | error failure =>
        have other (budget : Nat) : failure ≠ .budgetExhausted budget := by
          rintro rfl
          cases (stopped budget result).1
        obtain ⟨balance, -⟩ := ended failure result other
        exact ⟨report, failure, found, result,
          nodes.trans (congrArg (· + 1) (decompositions.trans decomposed)),
          (balance opens).trans (congrArg (· + 1) (all.trans length))⟩

end HtnPlanning
