import HtnPlanning.Document.Fields
import HtnPlanning.Logic.State

namespace HtnPlanning

namespace Variable

def toJson (v : Variable) : Json :=
  .obj [("name", .str v.name), ("scope", .nat v.scope)]

def ofJson? (j : Json) : Option Variable := do
  match ← j.record? ["name", "scope"] with
  | [name, scope] => return { name := ← name.str?, scope := ← scope.nat? }
  | _ => none

end Variable

namespace Constant

def toJson (c : Constant) : Json :=
  .str c.name

def ofJson? (j : Json) : Option Constant :=
  j.str?.map Constant.mk

end Constant

namespace Term

def toJson : Term → Json
  | .var v => .variant "Variable" v.toJson
  | .const c => .variant "Constant" c.toJson

def ofJson? : Json → Option Term
  | .obj [("Variable", body)] => (Variable.ofJson? body).map .var
  | .obj [("Constant", body)] => (Constant.ofJson? body).map .const
  | _ => none

end Term

namespace Atom

def toJson (a : Atom) : Json :=
  .obj [("predicate", .str a.predicate), ("args", .arr (a.args.map Term.toJson))]

def ofJson? (j : Json) : Option Atom := do
  match ← j.record? ["predicate", "args"] with
  | [predicate, args] =>
    return { predicate := ← predicate.str?, args := ← (← args.items?).mapM Term.ofJson? }
  | _ => none

end Atom

namespace Condition

mutual

def toJson : Condition → Json
  | .atom a => .variant "Atom" a.toJson
  | .not c => .variant "Not" (toJson c)
  | .and parts => .variant "And" (.arr (toJsonAll parts))
  | .or parts => .variant "Or" (.arr (toJsonAll parts))

def toJsonAll : List Condition → List Json
  | [] => []
  | c :: rest => toJson c :: toJsonAll rest

end

mutual

def ofJson? : Json → Option Condition
  | .obj [("Atom", body)] => (Atom.ofJson? body).map .atom
  | .obj [("Not", body)] => (ofJson? body).map .not
  | .obj [("And", .arr items)] => (ofJsonAll? items).map .and
  | .obj [("Or", .arr items)] => (ofJsonAll? items).map .or
  | _ => none

def ofJsonAll? : List Json → Option (List Condition)
  | [] => some []
  | j :: rest => do return (← ofJson? j) :: (← ofJsonAll? rest)

end

end Condition

namespace Effect

def toJson : Effect → Json
  | .add a => .variant "Add" a.toJson
  | .delete a => .variant "Delete" a.toJson

def ofJson? : Json → Option Effect
  | .obj [("Add", body)] => (Atom.ofJson? body).map .add
  | .obj [("Delete", body)] => (Atom.ofJson? body).map .delete
  | _ => none

end Effect

namespace State

def toJson (s : State) : Json :=
  .obj [("facts", .arr (s.toList.map Atom.toJson))]

def ofJson? (j : Json) : Option State := do
  match ← j.record? ["facts"] with
  | [facts] => return ⟨.ofList (← (← facts.items?).mapM Atom.ofJson?) compare⟩
  | _ => none

end State

namespace Substitution

def toJson? (s : Substitution) : Option Json :=
  if s.toList.isEmpty then some (.obj [("bindings", .obj [])]) else none

def ofJson? (j : Json) : Option Substitution := do
  match ← j.record? ["bindings"] with
  | [.obj []] => return ∅
  | _ => none

end Substitution

end HtnPlanning
