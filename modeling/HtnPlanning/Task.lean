import HtnPlanning.Logic.Atom
import HtnPlanning.Supply

namespace HtnPlanning

structure Task where
  id : TaskId
  name : String
  args : List Term
  primitive : Bool
deriving DecidableEq, Inhabited

namespace Task

def new [Counters] (name : String) (args : List Term) (primitive : Bool) (supply : Supply) :
    Task × Supply :=
  let (id, supply) := supply.newTask
  (⟨id, name, args, primitive⟩, supply)

def newPrimitive [Counters] (name : String) (symbols : List String) (supply : Supply) :
    Task × Supply :=
  new name (symbols.map Term.ofSymbol) true supply

def newCompound [Counters] (name : String) (symbols : List String) (supply : Supply) :
    Task × Supply :=
  new name (symbols.map Term.ofSymbol) false supply

def arity (t : Task) : Nat :=
  t.args.length

def isGround (t : Task) : Bool :=
  t.args.all Term.isGround

def sameStructure (t u : Task) : Bool :=
  decide (t.name = u.name ∧ t.args = u.args ∧ t.primitive = u.primitive)

def varList (t : Task) : List Variable :=
  t.args.filterMap Term.toVariable?

def vars (t : Task) : VariableSet :=
  .ofList t.varList compare

def apply (s : Substitution) (t : Task) : Task :=
  { t with args := t.args.map (·.apply s) }

def reissued [Counters] (t : Task) (supply : Supply) : Task × Supply :=
  let (id, supply) := supply.newTask
  ({ t with id := id }, supply)

def call (t : Task) : Atom :=
  ⟨t.name, t.args⟩

instance : ToString Task where
  toString t := toString t.call

end Task

end HtnPlanning
