import HtnPlanning.Domain

namespace HtnPlanning

structure DomainIndex where
  domain : Domain
  methods : Std.ExtTreeMap String (List (Fin domain.methods.length))
  operators : Std.ExtTreeMap String (Fin domain.operators.length)
deriving DecidableEq

namespace DomainIndex

section

variable {α : Type} (named : α → String)

def addToList (table : Std.ExtTreeMap String (List α)) (a : α) : Std.ExtTreeMap String (List α) :=
  table.insert (named a) (table[named a]?.getD [] ++ [a])

def addIfNew (table : Std.ExtTreeMap String α) (a : α) : Std.ExtTreeMap String α :=
  table.insertIfNew (named a) a

end

def methodPositions (d : Domain) : Std.ExtTreeMap String (List (Fin d.methods.length)) :=
  (List.finRange d.methods.length).foldl (addToList fun i => (d.methods.get i).pattern.name) ∅

def operatorPositions (d : Domain) : Std.ExtTreeMap String (Fin d.operators.length) :=
  (List.finRange d.operators.length).foldl (addIfNew fun i => (d.operators.get i).name) ∅

def ofDomain (d : Domain) : DomainIndex where
  domain := d
  methods := methodPositions d
  operators := operatorPositions d

def methodsFor (index : DomainIndex) (t : Task) : List Method :=
  (index.methods[t.name]?.getD []).map index.domain.methods.get

def operator? (index : DomainIndex) (name : String) : Option Operator :=
  index.operators[name]?.map index.domain.operators.get

end DomainIndex

end HtnPlanning
