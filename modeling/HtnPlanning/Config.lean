namespace HtnPlanning

inductive StateProgression where
  | initial
  | apply
deriving DecidableEq, Inhabited

structure PlannerConfig where
  maxDepth : Option Nat := none
  nodeBudget : Option Nat := none
  stateProgression : StateProgression := .initial
  checkConditions : Bool := true
  pruneDeadEnds : Bool := true
deriving DecidableEq, Inhabited

end HtnPlanning
