import HtnPlanning.Logic.State
import HtnPlanning.Network.Rewriting

namespace HtnPlanning

structure Operator where
  name : String
  parameters : List Variable
  precondition : Condition := .truth
  effects : List Effect := []
deriving DecidableEq

def Operator.arity (o : Operator) : Nat :=
  o.parameters.length

structure Method where
  name : String
  pattern : Task
  template : Network
deriving DecidableEq

namespace Method

def vars (m : Method) : VariableSet :=
  .ofList (m.pattern.varList ++ m.template.varList) compare

def rescoping (m : Method) (scope : Nat) : Substitution :=
  .ofList (m.vars.toList.map fun v => (v, .var (v.rescoped scope)))

/-- A copy of a method for one use: its variables are in a new scope, and its tasks are new
occurrences. -/
def standardizeApart [Counters] (m : Method) (supply : Supply) : Method × Supply :=
  let (scope, supply) := supply.newScope
  let s := m.rescoping scope
  let (pattern, supply) := (m.pattern.apply s).reissued supply
  let (template, supply) := (m.template.apply s).reissued supply
  ({ name := m.name, pattern, template }, supply)

end Method

structure Domain where
  name : String
  operators : List Operator
  methods : List Method
deriving DecidableEq

structure Problem where
  name : String
  state : State
  network : Network
deriving DecidableEq

end HtnPlanning
