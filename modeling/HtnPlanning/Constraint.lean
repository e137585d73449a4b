import HtnPlanning.Logic.Condition
import HtnPlanning.Supply

/-!
# Constraints on task networks

A precedence orders every task of one set before every task of another. The other three kinds
require a condition: before the first task of a set, after the last one, or all the time between
two sets.
-/

namespace HtnPlanning

namespace TaskSet

def image (f : TaskId → TaskId) (ids : TaskSet) : TaskSet :=
  .ofList (ids.toList.map f) compare

def text (ids : TaskSet) : String :=
  Text.braces (ids.toList.map toString)

end TaskSet

inductive ConstraintKind where
  | precedence
  | before
  | after
  | between
deriving DecidableEq, Inhabited

namespace ConstraintKind

def rank : ConstraintKind → Nat
  | .precedence => 0
  | .before => 1
  | .after => 2
  | .between => 3

instance : ToString ConstraintKind where
  toString
    | .precedence => "precedence"
    | .before => "before"
    | .after => "after"
    | .between => "between"

end ConstraintKind

inductive Constraint where
  | precedence (earlier later : TaskSet)
  | before (tasks : TaskSet) (condition : Condition)
  | after (tasks : TaskSet) (condition : Condition)
  | between (earlier later : TaskSet) (condition : Condition)
deriving DecidableEq

namespace Constraint

def kind : Constraint → ConstraintKind
  | .precedence .. => .precedence
  | .before .. => .before
  | .after .. => .after
  | .between .. => .between

def condition? : Constraint → Option Condition
  | .precedence .. => none
  | .before _ condition => some condition
  | .after _ condition => some condition
  | .between _ _ condition => some condition

def first : Constraint → TaskSet
  | .precedence earlier _ => earlier
  | .before tasks _ => tasks
  | .after tasks _ => tasks
  | .between earlier _ _ => earlier

def second : Constraint → TaskSet
  | .precedence _ later => later
  | .before .. => ∅
  | .after .. => ∅
  | .between _ later _ => later

def references (c : Constraint) : List TaskId :=
  c.first.toList ++ c.second.toList

def mentions (c : Constraint) (id : TaskId) : Bool :=
  c.first.contains id || c.second.contains id

def edges : Constraint → List (TaskId × TaskId)
  | .precedence earlier later =>
    earlier.toList.flatMap fun p => later.toList.map fun q => (p, q)
  | _ => []

def apply (s : Substitution) : Constraint → Constraint
  | .precedence earlier later => .precedence earlier later
  | .before tasks condition => .before tasks (condition.apply s)
  | .after tasks condition => .after tasks (condition.apply s)
  | .between earlier later condition => .between earlier later (condition.apply s)

def rename (f : TaskId → TaskId) : Constraint → Constraint
  | .precedence earlier later => .precedence (earlier.image f) (later.image f)
  | .before tasks condition => .before (tasks.image f) condition
  | .after tasks condition => .after (tasks.image f) condition
  | .between earlier later condition => .between (earlier.image f) (later.image f) condition

def replaceInSide (old : TaskId) (new side : TaskSet) : Option TaskSet :=
  let replaced := if old ∈ side then side.erase old ∪ new else side
  if replaced.isEmpty then none else some replaced

/-- A constraint with a task replaced by a set of tasks on every side. A constraint with an empty
side constrains nothing and is dropped. -/
def replaceTask (old : TaskId) (new : TaskSet) : Constraint → Option Constraint
  | .precedence earlier later => do
    return .precedence (← replaceInSide old new earlier) (← replaceInSide old new later)
  | .before tasks condition => do
    return .before (← replaceInSide old new tasks) condition
  | .after tasks condition => do
    return .after (← replaceInSide old new tasks) condition
  | .between earlier later condition => do
    return .between (← replaceInSide old new earlier) (← replaceInSide old new later) condition

instance : Ord Constraint :=
  ⟨compareLex (compareOn fun c => c.kind.rank)
    (compareLex (compareOn fun c => c.first.toList)
      (compareLex (compareOn fun c => c.second.toList)
        (compareOn fun c => c.condition?.toList)))⟩

instance : Std.TransOrd Constraint :=
  inferInstanceAs (Std.TransCmp (compareLex (compareOn fun c : Constraint => c.kind.rank)
    (compareLex (compareOn fun c => c.first.toList)
      (compareLex (compareOn fun c => c.second.toList)
        (compareOn fun c => c.condition?.toList)))))

theorem eq_of_parts {c d : Constraint} (kind : c.kind.rank = d.kind.rank)
    (first : c.first = d.first) (second : c.second = d.second)
    (condition : c.condition? = d.condition?) : c = d := by
  cases c <;> cases d <;>
    simp_all [Constraint.kind, ConstraintKind.rank, Constraint.first, Constraint.second,
      Constraint.condition?]

instance : Std.LawfulEqOrd Constraint where
  eq_of_compare {c d} h := by
    have same := show (compare c.kind.rank d.kind.rank).then
      ((compare c.first.toList d.first.toList).then
        ((compare c.second.toList d.second.toList).then
          (compare c.condition?.toList d.condition?.toList))) = .eq from h
    simp only [Ordering.then_eq_eq, Std.LawfulEqOrd.compare_eq_iff_eq,
      Std.ExtTreeSet.toList_inj] at same
    obtain ⟨kind, first, second, condition⟩ := same
    refine eq_of_parts kind first second ?_
    cases hc : c.condition? <;> cases hd : d.condition? <;> simp_all

instance : ToString Constraint where
  toString
    | .precedence earlier later => earlier.text ++ " < " ++ later.text
    | .before tasks condition => "before " ++ tasks.text ++ ": " ++ toString condition
    | .after tasks condition => "after " ++ tasks.text ++ ": " ++ toString condition
    | .between earlier later condition =>
      "between " ++ earlier.text ++ " and " ++ later.text ++ ": " ++ toString condition

end Constraint

abbrev ConstraintSet := Std.ExtTreeSet Constraint

end HtnPlanning
