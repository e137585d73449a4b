import HtnPlanning.Constraint
import HtnPlanning.Document.Logic
import HtnPlanning.Task

namespace HtnPlanning

namespace TaskId

def toJson (id : TaskId) : Json :=
  .nat id.number

def ofJson? (j : Json) : Option TaskId :=
  j.nat?.map TaskId.mk

end TaskId

namespace Task

def toJson (t : Task) : Json :=
  .obj
    [("id", t.id.toJson), ("name", .str t.name), ("args", .arr (t.args.map Term.toJson)),
      ("primitive", .bool t.primitive)]

def ofJson? (j : Json) : Option Task := do
  match ← j.record? ["id", "name", "args", "primitive"] with
  | [id, name, args, primitive] =>
    return {
      id := ← TaskId.ofJson? id
      name := ← name.str?
      args := ← (← args.items?).mapM Term.ofJson?
      primitive := ← primitive.bool? }
  | _ => none

end Task

namespace TaskSet

def toJson (ids : TaskSet) : Json :=
  .arr (ids.toList.map TaskId.toJson)

def ofJson? (j : Json) : Option TaskSet := do
  return .ofList (← (← j.items?).mapM TaskId.ofJson?) compare

end TaskSet

namespace Constraint

def toJson : Constraint → Json
  | .precedence earlier later =>
    .variant "Precedence" (.obj [("preceding", earlier.toJson), ("proceeding", later.toJson)])
  | .before tasks condition =>
    .variant "Before" (.obj [("tasks", tasks.toJson), ("condition", condition.toJson)])
  | .after tasks condition =>
    .variant "After" (.obj [("tasks", tasks.toJson), ("condition", condition.toJson)])
  | .between earlier later condition =>
    .variant "Between"
      (.obj [("preceding", earlier.toJson), ("proceeding", later.toJson),
        ("condition", condition.toJson)])

def oneSided? (build : TaskSet → Condition → Constraint) (body : Json) : Option Constraint := do
  match ← body.record? ["tasks", "condition"] with
  | [tasks, condition] => return build (← TaskSet.ofJson? tasks) (← Condition.ofJson? condition)
  | _ => none

def ofJson? : Json → Option Constraint
  | .obj [("Precedence", body)] => do
    match ← body.record? ["preceding", "proceeding"] with
    | [earlier, later] => return .precedence (← TaskSet.ofJson? earlier) (← TaskSet.ofJson? later)
    | _ => none
  | .obj [("Before", body)] => oneSided? .before body
  | .obj [("After", body)] => oneSided? .after body
  | .obj [("Between", body)] => do
    match ← body.record? ["preceding", "proceeding", "condition"] with
    | [earlier, later, condition] =>
      return .between (← TaskSet.ofJson? earlier) (← TaskSet.ofJson? later)
        (← Condition.ofJson? condition)
    | _ => none
  | _ => none

end Constraint

end HtnPlanning
