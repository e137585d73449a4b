import Std.Data.ExtTreeSet
import HtnPlanning.Logic.Text

namespace HtnPlanning

structure Variable where
  name : String
  scope : Nat := 0
deriving DecidableEq, Inhabited

namespace Variable

def ofSymbol (symbol : String) : Variable :=
  { name := String.ofList (symbol.toList.dropWhile (· == '?')) }

def rescoped (v : Variable) (scope : Nat) : Variable :=
  { v with scope := scope }

instance : Ord Variable :=
  ⟨compareLex (compareOn Variable.name) (compareOn Variable.scope)⟩

instance : Std.TransOrd Variable :=
  inferInstanceAs (Std.TransCmp (compareLex (compareOn Variable.name) (compareOn Variable.scope)))

instance : Std.LawfulEqOrd Variable where
  eq_of_compare {v w} h := by
    have := Ordering.then_eq_eq.mp (show (compare v.name w.name).then (compare v.scope w.scope) = .eq from h)
    cases v; cases w
    simp_all

instance : ToString Variable where
  toString v := if v.scope = 0 then "?" ++ v.name else "?" ++ v.name ++ "#" ++ toString v.scope

end Variable

abbrev VariableSet := Std.ExtTreeSet Variable

structure Constant where
  name : String
deriving DecidableEq, Inhabited

namespace Constant

instance : Ord Constant := ⟨compareOn Constant.name⟩

instance : Std.TransOrd Constant := inferInstanceAs (Std.TransCmp (compareOn Constant.name))

instance : Std.LawfulEqOrd Constant where
  eq_of_compare {c d} h := by
    have := Std.LawfulEqOrd.eq_of_compare (show compare c.name d.name = .eq from h)
    cases c; cases d
    simp_all

instance : ToString Constant := ⟨Constant.name⟩

end Constant

inductive Term where
  | var (v : Variable)
  | const (c : Constant)
deriving DecidableEq, Inhabited

namespace Term

def ofSymbol (symbol : String) : Term :=
  if symbol.toList.head? = some '?' then .var (.ofSymbol symbol) else .const ⟨symbol⟩

def isGround : Term → Bool
  | .var _ => false
  | .const _ => true

def toVariable? : Term → Option Variable
  | .var v => some v
  | .const _ => none

protected def order : Term → Term → Ordering
  | .var v, .var w => compare v w
  | .var _, .const _ => .lt
  | .const _, .var _ => .gt
  | .const c, .const d => compare c d

instance : Ord Term := ⟨Term.order⟩

instance : Std.TransOrd Term where
  eq_swap {a b} := by
    cases a <;> cases b
    · exact Std.OrientedOrd.eq_swap (α := Variable)
    · rfl
    · rfl
    · exact Std.OrientedOrd.eq_swap (α := Constant)
  isLE_trans {a b c} hab hbc := by
    cases a <;> cases b <;> cases c <;> first | rfl | contradiction | skip
    · exact Std.TransOrd.isLE_trans (α := Variable) hab hbc
    · exact Std.TransOrd.isLE_trans (α := Constant) hab hbc

instance : Std.LawfulEqOrd Term where
  eq_of_compare {a b} h := by
    cases a <;> cases b
    · exact congrArg _ (Std.LawfulEqOrd.eq_of_compare (α := Variable) h)
    · cases h
    · cases h
    · exact congrArg _ (Std.LawfulEqOrd.eq_of_compare (α := Constant) h)

instance : ToString Term where
  toString
    | .var v => toString v
    | .const c => toString c

end Term

end HtnPlanning
