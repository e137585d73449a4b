import HtnPlanning.Decomposition
import HtnPlanning.Linearization

/-!
# Search for a plan

Depth-first search with backtracking. The first compound task of a network is decomposed by each
method of its name in turn, until a network of primitive tasks gives a plan. The choices that are
still open are kept on a stack of frames.
-/

namespace HtnPlanning

structure Stats where
  nodes : Nat := 0
  decompositions : Nat := 0
  backtracks : Nat := 0
  maxDepth : Nat := 0
deriving DecidableEq

namespace Stats

def examined (stats : Stats) (depth : Nat) : Stats :=
  { stats with nodes := stats.nodes + 1, maxDepth := max stats.maxDepth depth }

def decomposed (stats : Stats) : Stats :=
  { stats with decompositions := stats.decompositions + 1 }

def backtracked (stats : Stats) : Stats :=
  { stats with backtracks := stats.backtracks + 1 }

end Stats

structure Frame where
  network : Network
  task : Task
  candidates : List Method
  depth : Nat
  failure : Option SearchFailure := none
deriving DecidableEq

inductive Examination where
  | solved (plan : Plan)
  | opened (frame : Frame)
  | failed (failure : SearchFailure)
  | stopped (failure : SearchFailure)
deriving DecidableEq

/-- A search under way: the frames still open, the latest one first, and the task that the first of
them was opened for. -/
structure Search where
  root : Task
  stack : List Frame
  stats : Stats
  supply : Supply
deriving DecidableEq

structure Report where
  result : Except SearchFailure Plan
  stats : Stats
  supply : Supply

inductive Progress where
  | running (search : Search)
  | finished (report : Report)

namespace Setting

def isDeadEnd (setting : Setting) (t : Task) : Bool :=
  if t.primitive then
    match setting.index.operator? t.name with
    | none => true
    | some o => o.arity ≠ t.arity
  else
    !(setting.index.methodsFor t).any fun m => m.pattern.arity = t.arity

def isUnsolvable (setting : Setting) (n : Network) : Bool :=
  n.taskList.any setting.isDeadEnd

def examine (setting : Setting) (n : Network) (depth : Nat) (stats : Stats) : Examination :=
  match setting.config.nodeBudget.filter (· < stats.nodes) with
  | some budget => .stopped (.budgetExhausted budget)
  | none =>
    if setting.config.pruneDeadEnds && setting.isUnsolvable n then
      .failed .pruned
    else
      match n.firstCompound with
      | .error _ =>
        match setting.linearize n with
        | .ok plan => .solved plan
        | .error failure => .failed failure
      | .ok t =>
        match setting.config.maxDepth.filter (· ≤ depth) with
        | some limit => .failed (.depthLimit limit)
        | none =>
          .opened { network := n, task := t, candidates := setting.index.methodsFor t, depth }

end Setting

def Network.tryMethod [Counters] (n : Network) (t : Task) (m : Method)
    (supply : Supply) : Option Network × Supply :=
  let (m, supply) := m.standardizeApart supply
  match m.unifier t with
  | .error _ => (none, supply)
  | .ok s =>
    match n.decompose s t m supply with
    | (.error _, supply) => (none, supply)
    | (.ok n, supply) => (some n, supply)

namespace Search

def pop (search : Search) (top : Frame) (below : List Frame) : Progress :=
  let stats := search.stats.backtracked
  let failure := top.failure.getD (.methodsExhausted top.task.call)
  match below with
  | [] => .finished { result := .error failure, stats, supply := search.supply }
  | parent :: rest =>
    .running { search with stack := { parent with failure := some failure } :: rest, stats }

def skip (search : Search) (supply : Supply) : Progress :=
  .running { search with stats := search.stats.backtracked, supply }

def enter (setting : Setting) (search : Search) (parent : Frame) (below : List Frame) (n : Network)
    (supply : Supply) : Progress :=
  let depth := parent.depth + 1
  let stats := search.stats.decomposed.examined depth
  match setting.examine n depth stats with
  | .solved plan => .finished { result := .ok plan, stats, supply }
  | .stopped failure => .finished { result := .error failure, stats, supply }
  | .opened frame => .running { search with stack := frame :: parent :: below, stats, supply }
  | .failed failure =>
    .running
      { search with
        stack := { parent with failure := some failure } :: below
        stats := stats.backtracked
        supply }

/-- One step of a search: the next method is tried on the frame at the top, or the frame is given
up. Without a frame the search would end with the failure of its first task. -/
def step [Counters] (setting : Setting) (search : Search) : Progress :=
  match search.stack with
  | [] =>
    .finished
      { result := .error (.methodsExhausted search.root.call)
        stats := search.stats
        supply := search.supply }
  | top :: below =>
    match top.candidates with
    | [] => search.pop top below
    | m :: rest =>
      let top := { top with candidates := rest }
      let search := { search with stack := top :: below }
      match top.network.tryMethod top.task m search.supply with
      | (none, supply) => search.skip supply
      | (some n, supply) => search.enter setting top below n supply

def run [Counters] (setting : Setting) : Nat → Progress → Option Report
  | _, .finished report => some report
  | 0, .running _ => none
  | steps + 1, .running search => run setting steps (search.step setting)

end Search

namespace Setting

def start (setting : Setting) (n : Network) (supply : Supply) : Progress :=
  let stats := ({} : Stats).examined 0
  match setting.examine n 0 stats with
  | .solved plan => .finished { result := .ok plan, stats, supply }
  | .stopped failure => .finished { result := .error failure, stats, supply }
  | .failed failure => .finished { result := .error failure, stats, supply }
  | .opened frame => .running { root := frame.task, stack := [frame], stats, supply }

end Setting

def Problem.setting (p : Problem) (d : Domain) (config : PlannerConfig) (sorter : Sorter) :
    Setting where
  index := .ofDomain d
  state := p.state
  config := config
  sorter := sorter

def Problem.findPlan [Counters] (p : Problem) (d : Domain) (config : PlannerConfig) (sorter : Sorter)
    (supply : Supply) (steps : Nat) : Option Report :=
  let setting := p.setting d config sorter
  Search.run setting steps (setting.start p.network supply)

end HtnPlanning
