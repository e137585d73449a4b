import HtnPlanning.Action

namespace HtnPlanning

inductive SearchFailure where
  | methodsExhausted (task : Atom)
  | pruned
  | unorderable
  | notActionable (error : TaskNotActionable)
  | preconditionFailed (action : Action) (condition : Condition)
  | conditionViolated (kind : ConstraintKind) (condition : Condition)
  | depthLimit (limit : Nat)
  | budgetExhausted (budget : Nat)
deriving DecidableEq

instance : ToString SearchFailure where
  toString
    | .methodsExhausted task => "no method decomposes " ++ toString task
    | .pruned => "network pruned as unsolvable"
    | .unorderable => "constraints admit no linear order"
    | .notActionable error => toString error
    | .preconditionFailed action condition =>
      "precondition " ++ toString condition ++ " of " ++ toString action ++ " does not hold"
    | .conditionViolated kind condition =>
      toString kind ++ " condition " ++ toString condition ++ " does not hold"
    | .depthLimit limit => "decomposition depth limit " ++ toString limit ++ " reached"
    | .budgetExhausted budget => "search budget of " ++ toString budget ++ " nodes exhausted"

structure PlanNotFound where
  cause : SearchFailure
deriving DecidableEq

instance : ToString PlanNotFound where
  toString error := "plan not found: " ++ toString error.cause

end HtnPlanning
