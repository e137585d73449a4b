import HtnPlanning.Config
import HtnPlanning.Linearization.TaskOrder

/-!
# Linearization

A network of primitive tasks is put into an order, its tasks become actions, and the order becomes a
plan when every precondition holds in the state its action sees and every condition of a constraint
holds where the constraint asks for it.
-/

namespace HtnPlanning

structure Trajectory where
  initial : State
  progression : StateProgression
  applied : List State := []
deriving DecidableEq

namespace Trajectory

def latest (t : Trajectory) : State :=
  t.applied.getLast?.getD t.initial

def advance (t : Trajectory) (effects : List Effect) : Trajectory :=
  match t.progression with
  | .initial => t
  | .apply => { t with applied := t.applied ++ [t.latest.applyEffects effects] }

def before (t : Trajectory) (position : Nat) : State :=
  match t.progression, position with
  | .apply, previous + 1 => t.applied[previous]?.getD t.initial
  | _, _ => t.initial

end Trajectory

structure Execution where
  trajectory : Trajectory
  positions : Std.ExtTreeMap TaskId Nat := ∅
  actions : List Action := []
deriving DecidableEq

namespace Execution

def perform (e : Execution) (index : DomainIndex) (t : Task) : Except SearchFailure Execution :=
  match index.action t with
  | .error error => .error (.notActionable error)
  | .ok (action, o) =>
    let position := e.actions.length
    let precondition := action.ground o.precondition
    if (e.trajectory.before position).ask precondition then
      .ok
        { trajectory := e.trajectory.advance (action.groundEffects o)
          positions := e.positions.insert t.id position
          actions := e.actions ++ [action] }
    else
      .error (.preconditionFailed action precondition)

def performAll (e : Execution) (index : DomainIndex) (tasks : List Task) :
    Except SearchFailure Execution :=
  tasks.foldlM (·.perform index) e

def positionsOf (e : Execution) (ids : TaskSet) : List Nat :=
  ids.toList.filterMap fun id => e.positions[id]?

def first? (e : Execution) (ids : TaskSet) : Option Nat :=
  (e.positionsOf ids).min?

def last? (e : Execution) (ids : TaskSet) : Option Nat :=
  (e.positionsOf ids).max?

def holdsBefore (e : Execution) (condition : Condition) (position : Nat) : Bool :=
  (e.trajectory.before position).ask condition

/-- Whether a constraint's condition holds where the constraint asks for it. A constraint on tasks
that are not in the plan asks for nothing. -/
def satisfies (e : Execution) : Constraint → Bool
  | .precedence .. => true
  | .before tasks condition =>
    match e.first? tasks with
    | none => true
    | some i => e.holdsBefore condition i
  | .after tasks condition =>
    match e.last? tasks with
    | none => true
    | some i => e.holdsBefore condition (i + 1)
  | .between earlier later condition =>
    match e.last? earlier, e.first? later with
    | some opening, some closing =>
      (List.range' (opening + 1) (closing - opening)).all (e.holdsBefore condition)
    | _, _ => true

def violation? (e : Execution) (c : Constraint) : Option SearchFailure :=
  if e.satisfies c then none else c.condition?.map (.conditionViolated c.kind)

end Execution

structure Setting where
  index : DomainIndex
  state : State
  config : PlannerConfig := {}
  sorter : Sorter := TaskOrder.topological

namespace Setting

def execution (setting : Setting) : Execution where
  trajectory := { initial := setting.state, progression := setting.config.stateProgression }

def linearize (setting : Setting) (n : Network) : Except SearchFailure Plan := do
  let constraints := n.constraints.toList
  let ordered ← setting.sorter n.taskList constraints
  let execution ← setting.execution.performAll setting.index ordered
  if setting.config.checkConditions then
    match constraints.findSome? execution.violation? with
    | some failure => throw failure
    | none => return ⟨execution.actions⟩
  else
    return ⟨execution.actions⟩

end Setting

end HtnPlanning
