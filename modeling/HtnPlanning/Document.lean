import HtnPlanning.ConfigStore
import HtnPlanning.Document.Config
import HtnPlanning.Document.Network
import HtnPlanning.Json.Printer
import HtnPlanning.Json.Reader

/-!
# Documents

A document is the printed JSON form of a value. Documents have limits: a value is nested at most
127 levels deep, and a variable scope takes at most 32 bits.
-/

namespace HtnPlanning

class Stored (α : Type) where
  toJson? : α → Option Json
  ofJson? : Json → Option α
  vars : α → List Variable

instance : Stored Variable where
  toJson? v := some v.toJson
  ofJson? := Variable.ofJson?
  vars v := [v]

instance : Stored Constant where
  toJson? c := some c.toJson
  ofJson? := Constant.ofJson?
  vars _ := []

instance : Stored Term where
  toJson? t := some t.toJson
  ofJson? := Term.ofJson?
  vars t := t.toVariable?.toList

instance : Stored Atom where
  toJson? a := some a.toJson
  ofJson? := Atom.ofJson?
  vars := Atom.varList

instance : Stored Condition where
  toJson? c := some c.toJson
  ofJson? := Condition.ofJson?
  vars := Condition.varList

instance : Stored Effect where
  toJson? e := some e.toJson
  ofJson? := Effect.ofJson?
  vars e := e.atom.varList

instance : Stored State where
  toJson? s := some s.toJson
  ofJson? := State.ofJson?
  vars s := s.toList.flatMap Atom.varList

instance : Stored Substitution where
  toJson? := Substitution.toJson?
  ofJson? := Substitution.ofJson?
  vars _ := []

instance : Stored TaskId where
  toJson? id := some id.toJson
  ofJson? := TaskId.ofJson?
  vars _ := []

instance : Stored Task where
  toJson? t := some t.toJson
  ofJson? := Task.ofJson?
  vars := Task.varList

instance : Stored Constraint where
  toJson? c := some c.toJson
  ofJson? := Constraint.ofJson?
  vars c := c.condition?.toList.flatMap Condition.varList

instance : Stored PlannerConfig where
  toJson? c := some c.toJson
  ofJson? := PlannerConfig.ofJson?
  vars _ := []

namespace Document

def maxDepth : Nat := 127

def fits {α : Type} [Stored α] (value : α) : Bool :=
  (Stored.toJson? value).all (·.depth ≤ maxDepth) &&
    (Stored.vars value).all (·.scope < UInt32.size)

def read {α : Type} [Stored α] (document : List UInt8) : Option α := do
  let j ← Json.parse document
  let value ← Stored.ofJson? j
  if fits value then some value else none

def write {α : Type} [Stored α] (value : α) : Option (List UInt8) :=
  (Stored.toJson? value).map fun j => j.text.toUTF8.toList

def codec {α : Type} [Stored α] : Codec α :=
  ⟨write, read⟩

end Document

end HtnPlanning
