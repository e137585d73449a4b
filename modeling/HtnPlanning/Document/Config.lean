import HtnPlanning.Config
import HtnPlanning.Document.Fields

namespace HtnPlanning

namespace StateProgression

def toJson : StateProgression → Json
  | .initial => .str "initial"
  | .apply => .str "apply"

def ofJson? : Json → Option StateProgression
  | .str "initial" => some .initial
  | .str "apply" => some .apply
  | .obj [("initial", .null)] => some .initial
  | .obj [("apply", .null)] => some .apply
  | _ => none

end StateProgression

namespace PlannerConfig

def limitJson : Option Nat → Json
  | none => .null
  | some n => .nat n

def limit? : Json → Option (Option Nat)
  | .null => some none
  | .nat n => some (some n)
  | _ => none

def toJson (c : PlannerConfig) : Json :=
  .obj
    [("max_depth", limitJson c.maxDepth), ("node_budget", limitJson c.nodeBudget),
      ("state_progression", c.stateProgression.toJson),
      ("check_constraint_conditions", .bool c.checkConditions),
      ("prune_dead_ends", .bool c.pruneDeadEnds)]

def fieldOr {α : Type} (default : α) (read : Json → Option α) : Option Json → Option α
  | none => some default
  | some j => read j

def ofJson? (j : Json) : Option PlannerConfig := do
  let names := ["max_depth", "node_budget", "state_progression", "check_constraint_conditions",
    "prune_dead_ends"]
  let default : PlannerConfig := {}
  match ← j.partialRecord? names with
  | [maxDepth, nodeBudget, stateProgression, checkConditions, pruneDeadEnds] =>
    return {
      maxDepth := ← fieldOr default.maxDepth limit? maxDepth
      nodeBudget := ← fieldOr default.nodeBudget limit? nodeBudget
      stateProgression :=
        ← fieldOr default.stateProgression StateProgression.ofJson? stateProgression
      checkConditions := ← fieldOr default.checkConditions Json.bool? checkConditions
      pruneDeadEnds := ← fieldOr default.pruneDeadEnds Json.bool? pruneDeadEnds }
  | _ => none

end PlannerConfig

end HtnPlanning
