import HtnPlanning.Failure

/-!
# Ordering tasks

Puts tasks into an order that respects the precedences between them. A task is ready once all tasks
before it are placed, and of the ready tasks the one with the smallest identity is placed next.
-/

namespace HtnPlanning

abbrev Sorter := List Task → List Constraint → Except SearchFailure (List Task)

namespace TaskOrder

structure Graph where
  successors : Std.ExtTreeMap TaskId TaskSet
  inDegree : Std.ExtTreeMap TaskId Nat

namespace Graph

def after (g : Graph) (id : TaskId) : TaskSet :=
  g.successors[id]?.getD ∅

def addEdge (g : Graph) (edge : TaskId × TaskId) : Graph :=
  let (p, q) := edge
  if q ∈ g.after p then
    g
  else
    { successors := g.successors.insert p ((g.after p).insert q)
      inDegree := g.inDegree.insert q (g.inDegree[q]?.getD 0 + 1) }

end Graph

def byId (tasks : List Task) : Std.ExtTreeMap TaskId Task :=
  .ofList (tasks.map fun t => (t.id, t)) compare

def edges (tasks : Std.ExtTreeMap TaskId Task) (constraints : List Constraint) :
    List (TaskId × TaskId) :=
  (constraints.flatMap Constraint.edges).filter fun (p, q) => tasks.contains p && tasks.contains q

def graph (tasks : Std.ExtTreeMap TaskId Task) (constraints : List Constraint) : Graph :=
  (edges tasks constraints).foldl Graph.addEdge
    { successors := ∅, inDegree := tasks.map fun _ _ => 0 }

structure Waiting where
  ready : TaskSet
  inDegree : Std.ExtTreeMap TaskId Nat

def Waiting.release (w : Waiting) (id : TaskId) : Waiting :=
  match w.inDegree[id]? with
  | none => w
  | some n =>
    { ready := if n - 1 = 0 then w.ready.insert id else w.ready
      inDegree := w.inDegree.insert id (n - 1) }

/-- Places ready tasks one after another. The bound is the number of tasks: each of them becomes
ready at most once. -/
def place (g : Graph) : Nat → Waiting → List TaskId
  | 0, _ => []
  | bound + 1, w =>
    match w.ready.toList with
    | [] => []
    | id :: _ =>
      let rest := { w with ready := w.ready.erase id }
      id :: place g bound ((g.after id).toList.foldl Waiting.release rest)

def placed (tasks : Std.ExtTreeMap TaskId Task) (constraints : List Constraint) : List TaskId :=
  let g := graph tasks constraints
  let ready := .ofList (g.inDegree.filter fun _ n => n = 0).keys compare
  place g tasks.size { ready, inDegree := g.inDegree }

/-- The order by precedence, ties broken by identity. It fails when some task is never ready. -/
def topological : Sorter := fun tasks constraints =>
  let tasks := byId tasks
  let ordered := (placed tasks constraints).filterMap fun id => tasks[id]?
  if ordered.length = tasks.size then .ok ordered else .error .unorderable

end TaskOrder

end HtnPlanning
