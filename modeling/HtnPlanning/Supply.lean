import Std.Data.ExtTreeSet

/-!
# Task identities and the supply of new ones

Every occurrence of a task has an identity of its own. New identities and new variable scopes come
from a supply, which every operation that needs one takes and gives back.
-/

namespace HtnPlanning

structure TaskId where
  number : Nat
deriving DecidableEq, Inhabited

namespace TaskId

instance : Ord TaskId := ⟨compareOn TaskId.number⟩

instance : Std.TransOrd TaskId := inferInstanceAs (Std.TransCmp (compareOn TaskId.number))

instance : Std.LawfulEqOrd TaskId where
  eq_of_compare {a b} h := by
    have := Std.LawfulEqOrd.eq_of_compare (show compare a.number b.number = .eq from h)
    cases a; cases b
    simp_all

instance : ToString TaskId where
  toString id := "t" ++ toString id.number

end TaskId

abbrev TaskSet := Std.ExtTreeSet TaskId

/-- The largest task number and the largest variable scope that are issued, if the counters are bounded. -/
class Counters where
  task : Option Nat
  scope : Option Nat

namespace Counters

instance unbounded : Counters := ⟨none, none⟩

@[reducible] def machine : Counters := ⟨some (UInt64.size - 1), some (UInt32.size - 1)⟩

/-- What a counter gives at a position. A bounded one starts again at one after its largest number, so
it never gives zero. -/
def number : Option Nat → Nat → Nat
  | none, position => position
  | some largest, position => (position - 1) % largest + 1

@[simp] theorem number_task (position : Nat) : number Counters.task position = position := rfl

@[simp] theorem number_scope (position : Nat) : number Counters.scope position = position := rfl

end Counters

/-- The positions of the counters of task numbers and of variable scopes, which are the next numbers to
be issued as long as the counters have not started again. -/
structure Supply where
  task : Nat
  scope : Nat
deriving DecidableEq, Inhabited

namespace Supply

def newTask [Counters] (supply : Supply) : TaskId × Supply :=
  (⟨Counters.number Counters.task supply.task⟩, { supply with task := supply.task + 1 })

def newScope [Counters] (supply : Supply) : Nat × Supply :=
  (Counters.number Counters.scope supply.scope, { supply with scope := supply.scope + 1 })

@[simp] theorem newScope_fst (supply : Supply) : supply.newScope.1 = supply.scope := rfl

end Supply

end HtnPlanning
