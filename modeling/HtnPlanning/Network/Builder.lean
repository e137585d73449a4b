import HtnPlanning.Network.Validator

namespace HtnPlanning

structure NetworkBuilder where
  tasks : Std.ExtTreeMap TaskId Task
  constraints : ConstraintSet
  validator : Validator
deriving DecidableEq

namespace NetworkBuilder

instance : EmptyCollection NetworkBuilder := ⟨⟨∅, ∅, ∅⟩⟩

def copy (n : Network) : NetworkBuilder where
  tasks := n.tasks
  constraints := n.constraints
  validator := n.constraints.toList.foldl Validator.record { (∅ : Validator) with members := n.ids }

def addTask (b : NetworkBuilder) (t : Task) : NetworkBuilder :=
  { b with
    tasks := b.tasks.insert t.id t
    validator := b.validator.addTask t.id }

def ofTasks (ts : List Task) : NetworkBuilder :=
  ts.foldl addTask ∅

def addConstraint (b : NetworkBuilder) (c : Constraint) : NetworkBuilder × Option InvalidConstraint :=
  match b.validator.addConstraint c with
  | (validator, none) => ({ b with constraints := b.constraints.insert c, validator }, none)
  | (validator, some error) => ({ b with validator }, some error)

def addConstraints (b : NetworkBuilder) :
    List Constraint → NetworkBuilder × Option InvalidConstraint
  | [] => (b, none)
  | c :: rest =>
    match b.addConstraint c with
    | (b, none) => b.addConstraints rest
    | (b, some error) => (b, some error)

def chain (b : NetworkBuilder) (ids : List TaskId) : NetworkBuilder × Option InvalidConstraint :=
  b.addConstraints ((ids.zip ids.tail).map fun (p, q) => .precedence {p} {q})

def accepted (v : Validator) : ConstraintSet :=
  .ofList v.constraints compare

def apply (s : Substitution) (b : NetworkBuilder) : NetworkBuilder :=
  let validator := b.validator.apply s
  { tasks := b.tasks.map fun _ t => t.apply s
    constraints := accepted validator
    validator := validator }

def replace (b : NetworkBuilder) (old : TaskId) (n : Network) :
    NetworkBuilder × Option ReplacementError :=
  match b.validator.replace old n with
  | (validator, none) =>
    ({ tasks := b.tasks.erase old ∪ n.tasks, constraints := accepted validator, validator }, none)
  | (validator, some error) => ({ b with validator }, some error)

def taskList (b : NetworkBuilder) : List Task :=
  b.tasks.toList.map Prod.snd

def build (b : NetworkBuilder) : Network where
  tasks := b.tasks
  constraints := b.constraints

end NetworkBuilder

end HtnPlanning
