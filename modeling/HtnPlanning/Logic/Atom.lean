import HtnPlanning.Logic.Substitution

namespace HtnPlanning

structure Atom where
  predicate : String
  args : List Term
deriving DecidableEq, Inhabited

namespace Atom

def ofSymbols (predicate : String) (symbols : List String) : Atom :=
  ⟨predicate, symbols.map Term.ofSymbol⟩

def isGround (a : Atom) : Bool :=
  a.args.all Term.isGround

def apply (s : Substitution) (a : Atom) : Atom :=
  { a with args := a.args.map (·.apply s) }

def varList (a : Atom) : List Variable :=
  a.args.filterMap Term.toVariable?

instance : Ord Atom := ⟨compareLex (compareOn Atom.predicate) (compareOn Atom.args)⟩

instance : Std.TransOrd Atom :=
  inferInstanceAs (Std.TransCmp (compareLex (compareOn Atom.predicate) (compareOn Atom.args)))

instance : Std.LawfulEqOrd Atom where
  eq_of_compare {a b} h := by
    have := Ordering.then_eq_eq.mp
      (show (compare a.predicate b.predicate).then (compare a.args b.args) = .eq from h)
    cases a; cases b
    simp_all

instance : ToString Atom where
  toString a := Text.call a.predicate (a.args.map toString)

end Atom

end HtnPlanning
