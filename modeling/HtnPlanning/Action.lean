import HtnPlanning.Domain.Index
import HtnPlanning.Unification

namespace HtnPlanning

structure Action where
  operator : String
  arguments : List Constant
  bindings : Std.ExtTreeMap Variable Constant
deriving DecidableEq

namespace Action

def substitution (a : Action) : Substitution :=
  ⟨a.bindings.map fun _ c => .const c⟩

def ground (a : Action) (c : Condition) : Condition :=
  c.apply a.substitution

def groundEffects (a : Action) (o : Operator) : List Effect :=
  o.effects.map (·.apply a.substitution)

instance : ToString Action where
  toString a := Text.call a.operator (a.arguments.map toString)

end Action

structure Plan where
  actions : List Action
deriving DecidableEq

instance : ToString Plan where
  toString p := Text.brackets (p.actions.map toString)

inductive NotActionableReason where
  | unknownOperator (name : String)
  | arityMismatch (expected found : Nat)
  | unboundArgument (v : Variable)
deriving DecidableEq

instance : ToString NotActionableReason where
  toString
    | .unknownOperator name => "no operator named " ++ name
    | .arityMismatch expected found =>
      "operator takes " ++ toString expected ++ " parameters, task has " ++ toString found
    | .unboundArgument v => "argument " ++ toString v ++ " is unbound"

structure TaskNotActionable where
  task : Atom
  reason : NotActionableReason
deriving DecidableEq

instance : ToString TaskNotActionable where
  toString error :=
    "task " ++ toString error.task ++ " is not actionable: " ++ toString error.reason

def Constant.ofTerms : List Term → Except Variable (List Constant)
  | [] => .ok []
  | .var v :: _ => .error v
  | .const c :: rest => (ofTerms rest).map (c :: ·)

/-- An operator applied to constants; a repeated parameter takes its last constant. -/
def Operator.action (o : Operator) (arguments : List Constant) : Action where
  operator := o.name
  arguments := arguments
  bindings := .ofList (o.parameters.zip arguments) compare

def DomainIndex.action (index : DomainIndex) (t : Task) :
    Except TaskNotActionable (Action × Operator) :=
  match index.operator? t.name with
  | none => .error ⟨t.call, .unknownOperator t.name⟩
  | some o =>
    if o.arity ≠ t.arity then
      .error ⟨t.call, .arityMismatch o.arity t.arity⟩
    else
      match Constant.ofTerms t.args with
      | .error v => .error ⟨t.call, .unboundArgument v⟩
      | .ok arguments => .ok (o.action arguments, o)

end HtnPlanning
