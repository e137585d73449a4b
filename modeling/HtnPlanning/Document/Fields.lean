import HtnPlanning.Json.Value

namespace HtnPlanning.Json

def nat? : Json → Option Nat
  | .nat n => some n
  | _ => none

def str? : Json → Option String
  | .str s => some s
  | _ => none

def bool? : Json → Option Bool
  | .bool b => some b
  | _ => none

def items? : Json → Option (List Json)
  | .arr items => some items
  | _ => none

def field? (fields : List (String × Json)) (name : String) : Option (Option Json) :=
  match fields.filter fun (key, _) => key = name with
  | [] => some none
  | [(_, j)] => some (some j)
  | _ => none

/-- The fields of a record, in the order of their names, as far as they are present. Other fields
are ignored, and an array may lack the last ones. -/
def partialRecord? (names : List String) : Json → Option (List (Option Json))
  | .obj fields => names.mapM (field? fields)
  | .arr items =>
    if items.length ≤ names.length then
      some (items.map some ++ List.replicate (names.length - items.length) none)
    else
      none
  | _ => none

def record? (names : List String) (j : Json) : Option (List Json) :=
  (partialRecord? names j).bind (·.mapM id)

def variant (tag : String) (body : Json) : Json :=
  .obj [(tag, body)]

end HtnPlanning.Json
