import HtnPlanning.Proofs.Search.Akin
import HtnPlanning.Proofs.Search.Visits

namespace HtnPlanning

variable {r : Renumbering} {setting : Setting}

/-! ## Examinations -/

structure Frame.Moved (r : Renumbering) (frame frame' : Frame) : Prop where
  network : frame.network.Moved r frame'.network
  task : frame'.task = frame.task.moved r
  candidates : frame'.candidates = frame.candidates
  depth : frame'.depth = frame.depth
  failure : frame'.failure = frame.failure.map (·.moved r)

inductive Examination.Moved (r : Renumbering) : Examination → Examination → Prop where
  | solved (plan : Plan) : Moved r (.solved plan) (.solved plan)
  | opened {frame frame' : Frame} (frames : frame.Moved r frame') :
      Moved r (.opened frame) (.opened frame')
  | failed (failure : SearchFailure) : Moved r (.failed failure) (.failed (failure.moved r))
  | stopped (failure : SearchFailure) : Moved r (.stopped failure) (.stopped (failure.moved r))

theorem Setting.examine_moved {n n' : Network} (sorted : setting.sorter = TaskOrder.topological)
    (networks : n.Moved r n') (formed : n.WellFormed) (formed' : n'.WellFormed) (depth : Nat)
    (stats : Stats) :
    (setting.examine n depth stats).Moved r (setting.examine n' depth stats) := by
  have prunes : setting.Prunes n' ↔ setting.Prunes n := by
    rw [Prunes, Prunes, networks.isUnsolvable]
  have plans := setting.linearize_moved sorted networks formed formed'
  generalize found : setting.examine n depth stats = examination
  cases examine_eq_iff.mp found with
  | @overBudget budget known past =>
      rw [(Examined.overBudget known past).eq]
      exact .stopped (.budgetExhausted budget)
  | pruned within pruned =>
      rw [(Examined.pruned within (prunes.mpr pruned)).eq]
      exact .failed .pruned
  | @planned plan within kept primitive gives =>
      rw [gives] at plans
      rw [(Examined.planned within (mt prunes.mp kept) (networks.isPrimitive.trans primitive) plans).eq]
      exact .solved plan
  | @unplanned failure within kept primitive gives =>
      rw [gives] at plans
      rw [(Examined.unplanned within (mt prunes.mp kept) (networks.isPrimitive.trans primitive) plans).eq]
      exact .failed failure
  | @tooDeep t limit within kept first limited reached =>
      have first' := networks.firstCompound formed formed' first
      rw [(Examined.tooDeep within (mt prunes.mp kept) first' limited reached).eq]
      exact .failed (.depthLimit limit)
  | opened within kept first room =>
      have first' := networks.firstCompound formed formed' first
      rw [(Examined.opened within (mt prunes.mp kept) first' room).eq]
      exact .opened ⟨networks, rfl, rfl, rfl, rfl⟩

/-! ## Steps -/

structure Report.Moved (r : Renumbering) (report report' : Report) : Prop where
  result : report'.result = report.result.mapError (·.moved r)
  stats : report'.stats = report.stats
  issues : r.Issues report.supply report'.supply

structure Search.Moved (r : Renumbering) (search search' : Search) : Prop where
  root : search'.root = search.root.moved r
  stack : List.Forall₂ (Frame.Moved r) search.stack search'.stack
  stats : search'.stats = search.stats
  issues : r.Issues search.supply search'.supply

inductive Progress.Moved (r : Renumbering) : Progress → Progress → Prop where
  | running {search search' : Search} (searches : search.Moved r search') :
      Moved r (.running search) (.running search')
  | finished {report report' : Report} (reports : report.Moved r report') :
      Moved r (.finished report) (.finished report')

namespace Search

variable {search search' : Search} {root root' : Task} {stack stack' : List Frame} {n n' : Network}
  {depth depth' : Nat} {stats stats' : Stats} {supply supply' : Supply}

theorem arrive_moved (sorted : setting.sorter = TaskOrder.topological) (roots : root' = root.moved r)
    (frames : List.Forall₂ (Frame.Moved r) stack stack') (networks : n.Moved r n')
    (formed : n.WellFormed) (formed' : n'.WellFormed) (depths : depth' = depth) (counts : stats' = stats)
    (issues : r.Issues supply supply') :
    (arrive setting root stack n depth stats supply).Moved r
      (arrive setting root' stack' n' depth' stats' supply') := by
  subst depths counts
  have examinations := setting.examine_moved sorted networks formed formed' depth' (stats'.examined depth')
  simp only [arrive]
  generalize setting.examine n depth' (stats'.examined depth') = examination at examinations
  generalize setting.examine n' depth' (stats'.examined depth') = examination' at examinations
  cases examinations with
  | solved plan => exact .finished ⟨rfl, rfl, issues⟩
  | stopped failure => exact .finished ⟨rfl, rfl, issues⟩
  | opened opened => exact .running ⟨roots, .cons opened frames, rfl, issues⟩
  | failed failure =>
      cases frames with
      | nil => exact .finished ⟨rfl, rfl, issues⟩
      | cons parents below =>
          exact .running ⟨roots, .cons { parents with failure := rfl } below, rfl, issues⟩

theorem Moved.pop {top top' : Frame} {below below' : List Frame} (searches : search.Moved r search')
    (tops : top.Moved r top') (belows : List.Forall₂ (Frame.Moved r) below below') :
    (search.pop top below).Moved r (search'.pop top' below') := by
  have failures : top'.failure.getD (.methodsExhausted top'.task.call) =
      (top.failure.getD (.methodsExhausted top.task.call)).moved r := by
    rw [tops.failure, tops.task]
    cases top.failure <;> rfl
  have stats := congrArg Stats.backtracked searches.stats
  cases belows with
  | nil => exact .finished ⟨congrArg Except.error failures, stats, searches.issues⟩
  | cons parents rest =>
      exact .running ⟨searches.root, .cons { parents with failure := congrArg some failures } rest,
        stats, searches.issues⟩

abbrev Issued (setting : Setting) (p : Progress) : Prop :=
  p.Known setting (fun n _ supply => n.IssuedBefore supply) fun _ => True

end Search

/-! ## Runs -/

section

variable (sorted : setting.sorter = TaskOrder.topological)
  (templates : ∀ t, ∀ m ∈ setting.index.methodsFor t, m.template.Valid)

include templates

include sorted

namespace Search

variable {search search' : Search} {p p' : Progress}

theorem Moved.step (searches : search.Moved r search') (issued : Issued setting (.running search))
    (issued' : Issued setting (.running search')) :
    (search.step setting).Moved r (search'.step setting) := by
  cases stack : search.stack with
  | nil =>
      have stack' := List.forall₂_nil_left_iff.mp (stack ▸ searches.stack)
      rw [step_of_empty stack, step_of_empty stack', searches.root]
      exact .finished ⟨rfl, searches.stats, searches.issues⟩
  | cons top below =>
      obtain ⟨top', below', tops, belows, stack'⟩ :=
        List.forall₂_cons_left_iff.mp (stack ▸ searches.stack)
      have here := issued top (stack ▸ List.mem_cons_self)
      have here' := issued' top' (stack' ▸ List.mem_cons_self)
      cases candidates : top.candidates with
      | nil =>
          rw [step_of_spent stack candidates, step_of_spent stack' (tops.candidates.trans candidates)]
          exact searches.pop tops belows
      | cons m rest =>
          have candidates' := tops.candidates.trans candidates
          have frames : List.Forall₂ (Frame.Moved r) ({ top with candidates := rest } :: below)
              ({ top' with candidates := rest } :: below') :=
            .cons { tops with candidates := rfl } belows
          have member := (here.holds.firstCompound_eq_ok.mp here.first).1
          have template := templates _ m (here.candidates m (candidates ▸ List.mem_cons_self))
          have attempts := Network.tryMethod_moved searches.issues tops.network here.holds here'.holds
            member template
          rw [← tops.task] at attempts
          rcases attempts with
            ⟨rejected, rejected'⟩ | ⟨next, next', accepted, accepted', valid, valid', networks⟩
          · rw [step_of_rejected stack candidates rejected, step_of_rejected stack' candidates' rejected']
            exact .running ⟨searches.root, frames, congrArg Stats.backtracked searches.stats,
              searches.issues.add _ _⟩
          · rw [step_of_accepted stack candidates accepted, step_of_accepted stack' candidates' accepted']
            exact arrive_moved sorted searches.root frames networks valid.toWellFormed
              valid'.toWellFormed (congrArg (· + 1) tops.depth)
              (congrArg Stats.decomposed searches.stats) (searches.issues.add _ _)

end Search

end

/-! ## What is issued elsewhere -/

namespace Supply

/-- Where a number goes when those from a first one on are issued from another one on. -/
def reissue (first other k : Nat) : Nat :=
  if k < first then k else k - first + other

end Supply

def Variable.reissued (supply supply' : Supply) (v : Variable) : Variable :=
  v.rescoped (Supply.reissue supply.scope supply'.scope v.scope)

def Report.reissued (supply supply' : Supply) (report : Report) : Report where
  result := report.result.mapError (·.renamed (Variable.reissued supply supply'))
  stats := report.stats
  supply :=
    ⟨Supply.reissue supply.task supply'.task report.supply.task,
      Supply.reissue supply.scope supply'.scope report.supply.scope⟩

section

variable {p : Problem} {d : Domain} {config : PlannerConfig} {source supply supply' : Supply}

end

/-! An errand is run by buying something. The method does not say what, so the task that it leads to has
an argument that nothing binds. -/

namespace Errand

def buy : Operator where
  name := "buy"
  parameters := [.ofSymbol "?item"]

def domain [Counters] (supply : Supply) : Domain × Supply :=
  let (purchase, supply) := Task.newPrimitive "buy" ["?item"] supply
  let (pattern, supply) := Task.newCompound "errand" [] supply
  let template := (NetworkBuilder.ofTasks [purchase]).build
  ({ name := "errands", operators := [buy], methods := [{ name := "shopping", pattern, template }] },
    supply)

def problem [Counters] (supply : Supply) : Problem × Supply :=
  let (goal, supply) := Task.newCompound "errand" [] supply
  ({ name := "errand", state := ∅, network := (NetworkBuilder.ofTasks [goal]).build }, supply)

end Errand

end HtnPlanning
