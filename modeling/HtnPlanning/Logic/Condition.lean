import HtnPlanning.Logic.Atom

namespace HtnPlanning

inductive Condition where
  | atom (a : Atom)
  | not (c : Condition)
  | and (parts : List Condition)
  | or (parts : List Condition)
deriving Inhabited

namespace Condition

def truth : Condition := .and []

def holds (predicate : String) (symbols : List String) : Condition :=
  .atom (.ofSymbols predicate symbols)

def lacks (predicate : String) (symbols : List String) : Condition :=
  .not (holds predicate symbols)

def isTruth : Condition → Bool
  | .and [] => true
  | _ => false

mutual

def atoms : Condition → List Atom
  | .atom a => [a]
  | .not c => atoms c
  | .and parts => atomsAll parts
  | .or parts => atomsAll parts

def atomsAll : List Condition → List Atom
  | [] => []
  | c :: rest => atoms c ++ atomsAll rest

end

def isGround (c : Condition) : Bool :=
  c.atoms.all Atom.isGround

def varList (c : Condition) : List Variable :=
  c.atoms.flatMap Atom.varList

def vars (c : Condition) : VariableSet :=
  .ofList c.varList compare

mutual

def apply (s : Substitution) : Condition → Condition
  | .atom a => .atom (a.apply s)
  | .not c => .not (apply s c)
  | .and parts => .and (applyAll s parts)
  | .or parts => .or (applyAll s parts)

def applyAll (s : Substitution) : List Condition → List Condition
  | [] => []
  | c :: rest => apply s c :: applyAll s rest

end

mutual

def text : Condition → String
  | .atom a => toString a
  | .not c => Text.call "not" [text c]
  | .and parts => Text.call "and" (textAll parts)
  | .or parts => Text.call "or" (textAll parts)

def textAll : List Condition → List String
  | [] => []
  | c :: rest => text c :: textAll rest

end

instance : ToString Condition := ⟨text⟩

theorem atomsAll_eq_flatMap (parts : List Condition) : atomsAll parts = parts.flatMap atoms := by
  induction parts with
  | nil => rfl
  | cons c rest ih => simp [atomsAll, ih]

theorem applyAll_eq_map (s : Substitution) (parts : List Condition) :
    applyAll s parts = parts.map (apply s) := by
  induction parts with
  | nil => rfl
  | cons c rest ih => simp [applyAll, ih]

def rank : Condition → Nat
  | .atom _ => 0
  | .not _ => 1
  | .and _ => 2
  | .or _ => 3

mutual

protected def order : Condition → Condition → Ordering
  | .atom a, .atom b => compare a b
  | .not c, .not d => Condition.order c d
  | .and parts, .and others => orderAll parts others
  | .or parts, .or others => orderAll parts others
  | c, d => compare c.rank d.rank

def orderAll : List Condition → List Condition → Ordering
  | [], [] => .eq
  | [], _ :: _ => .lt
  | _ :: _, [] => .gt
  | c :: rest, d :: others => (Condition.order c d).then (orderAll rest others)

end

instance : Ord Condition := ⟨Condition.order⟩

mutual

theorem order_swap (c d : Condition) : Condition.order c d = (Condition.order d c).swap := by
  cases c <;> cases d
  case atom.atom => exact Std.OrientedOrd.eq_swap (α := Atom)
  case not.not c d => simpa only [Condition.order] using order_swap c d
  case and.and parts others => simpa only [Condition.order] using orderAll_swap parts others
  case or.or parts others => simpa only [Condition.order] using orderAll_swap parts others
  all_goals rfl

theorem orderAll_swap (parts others : List Condition) :
    orderAll parts others = (orderAll others parts).swap := by
  match parts, others with
  | [], [] => rfl
  | [], _ :: _ => rfl
  | _ :: _, [] => rfl
  | c :: rest, d :: others =>
    simp only [orderAll, Ordering.swap_then]
    rw [order_swap c d, orderAll_swap rest others]

end

mutual

theorem eq_of_order (c d : Condition) (h : Condition.order c d = .eq) : c = d := by
  cases c <;> cases d
  case atom.atom => exact congrArg _ (Std.LawfulEqOrd.eq_of_compare (α := Atom) h)
  case not.not c d => exact congrArg _ (eq_of_order c d (by simpa only [Condition.order] using h))
  case and.and parts others =>
    exact congrArg _ (eq_of_orderAll parts others (by simpa only [Condition.order] using h))
  case or.or parts others =>
    exact congrArg _ (eq_of_orderAll parts others (by simpa only [Condition.order] using h))
  all_goals cases h

theorem eq_of_orderAll (parts others : List Condition) (h : orderAll parts others = .eq) :
    parts = others := by
  match parts, others with
  | [], [] => rfl
  | [], _ :: _ => cases h
  | _ :: _, [] => cases h
  | c :: rest, d :: others =>
    obtain ⟨first, second⟩ := Ordering.then_eq_eq.mp h
    rw [eq_of_order c d first, eq_of_orderAll rest others second]

end

mutual

theorem order_trans (a b c : Condition) (hab : (Condition.order a b).isLE)
    (hbc : (Condition.order b c).isLE) : (Condition.order a c).isLE := by
  cases a <;> cases b <;> cases c <;> first | rfl | contradiction | skip
  case atom.atom.atom => exact Std.TransOrd.isLE_trans (α := Atom) hab hbc
  case not.not.not a b c =>
    simp only [Condition.order] at hab hbc ⊢
    exact order_trans a b c hab hbc
  case and.and.and as bs cs =>
    simp only [Condition.order] at hab hbc ⊢
    exact orderAll_trans as bs cs hab hbc
  case or.or.or as bs cs =>
    simp only [Condition.order] at hab hbc ⊢
    exact orderAll_trans as bs cs hab hbc

theorem orderAll_trans (as bs cs : List Condition) (hab : (orderAll as bs).isLE)
    (hbc : (orderAll bs cs).isLE) : (orderAll as cs).isLE := by
  match as, bs, cs with
  | [], _, [] => rfl
  | [], _, _ :: _ => rfl
  | _ :: _, [], _ => cases hab
  | _ :: _, _ :: _, [] => cases hbc
  | a :: as, b :: bs, c :: cs =>
    simp only [orderAll, Ordering.isLE_then_iff_or] at hab hbc ⊢
    rcases hab with less | ⟨same, restLE⟩
    · have strict : Condition.order a c ≠ .eq := by
        intro same
        rw [eq_of_order a c same, order_swap] at less
        rcases hbc with less' | ⟨same', _⟩ <;> simp_all
      have le : (Condition.order a c).isLE := by
        refine order_trans a b c (by rw [less]; rfl) ?_
        rcases hbc with less' | ⟨same', _⟩ <;> simp_all
      cases h : Condition.order a c <;> simp_all
    · rw [eq_of_order a b same]
      rcases hbc with less | ⟨same', restLE'⟩
      · exact .inl less
      · exact .inr ⟨same', orderAll_trans as bs cs restLE restLE'⟩

end

instance : Std.TransOrd Condition where
  eq_swap {a b} := order_swap a b
  isLE_trans {a b c} := order_trans a b c

instance : Std.LawfulEqOrd Condition where
  eq_of_compare {a b} := eq_of_order a b

instance : DecidableEq Condition := fun a b =>
  decidable_of_iff (compare a b = .eq) Std.LawfulEqOrd.compare_eq_iff_eq

end Condition

end HtnPlanning
