import Std.Data.ExtTreeMap
import HtnPlanning.Constraint
import HtnPlanning.Task

namespace HtnPlanning

structure NoCompoundTask where
deriving DecidableEq

instance : ToString NoCompoundTask where
  toString _ := "network contains no non-primitive task"

structure Network where
  tasks : Std.ExtTreeMap TaskId Task
  constraints : ConstraintSet
deriving DecidableEq

namespace Network

instance : EmptyCollection Network := ⟨⟨∅, ∅⟩⟩

def ofLists (tasks : List Task) (constraints : List Constraint) : Network where
  tasks := .ofList (tasks.map fun t => (t.id, t)) compare
  constraints := .ofList constraints compare

def taskList (n : Network) : List Task :=
  n.tasks.toList.map Prod.snd

def ids (n : Network) : TaskSet :=
  .ofList n.tasks.keys compare

def find? (n : Network) (id : TaskId) : Option Task :=
  n.tasks[id]?

def contains (n : Network) (id : TaskId) : Bool :=
  n.tasks.contains id

def size (n : Network) : Nat :=
  n.tasks.size

def isPrimitive (n : Network) : Bool :=
  n.taskList.all Task.primitive

def compoundTasks (n : Network) : List Task :=
  n.taskList.filter fun t => !t.primitive

def firstCompound (n : Network) : Except NoCompoundTask Task :=
  match n.compoundTasks with
  | [] => .error {}
  | t :: _ => .ok t

def varList (n : Network) : List Variable :=
  n.taskList.flatMap Task.varList ++
    n.constraints.toList.flatMap fun c => c.condition?.toList.flatMap Condition.varList

def vars (n : Network) : VariableSet :=
  .ofList n.varList compare

instance : ToString Network where
  toString n :=
    "tasks:" ++
      String.join (n.taskList.map fun t => " " ++ toString t.id ++ "=" ++ toString t) ++
      String.join (n.constraints.toList.map fun c => "\n  " ++ toString c)

end Network

end HtnPlanning
