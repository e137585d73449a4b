import HtnPlanning.Domain

/-!
# Unification of tasks with methods

A most general unifier of a task and the pattern of a method. Terms are flat, so the arguments are
unified pair by pair; a variable of the pattern is bound before one of the task.
-/

namespace HtnPlanning

inductive UnifyFailure where
  | nameMismatch
  | arityMismatch (expected found : Nat)
  | clash (left right : Term)
deriving DecidableEq

instance : ToString UnifyFailure where
  toString
    | .nameMismatch => "name mismatch"
    | .arityMismatch expected found =>
      "arity mismatch: pattern takes " ++ toString expected ++ ", task has " ++ toString found
    | .clash left right => "cannot unify " ++ toString left ++ " with " ++ toString right

structure UnifierNotFound where
  task : Atom
  method : String
  reason : UnifyFailure
deriving DecidableEq

instance : ToString UnifierNotFound where
  toString error :=
    "no unifier for " ++ toString error.task ++ " with method " ++ error.method ++ ": " ++
      toString error.reason

namespace Substitution

def unify (s : Substitution) (left right : Term) : Except UnifyFailure Substitution :=
  let left := s.walk left
  let right := s.walk right
  if left = right then
    .ok s
  else
    match left, right with
    | .var v, other => (s.bind v other).mapError fun _ => .clash left right
    | other, .var v => (s.bind v other).mapError fun _ => .clash left right
    | .const _, .const _ => .error (.clash left right)

def unifyAll (s : Substitution) : List (Term × Term) → Except UnifyFailure Substitution
  | [] => .ok s
  | (left, right) :: rest =>
    match s.unify left right with
    | .ok s => s.unifyAll rest
    | .error failure => .error failure

end Substitution

namespace Method

def unifyPattern (pattern t : Task) : Except UnifyFailure Substitution :=
  if pattern.name ≠ t.name then
    .error .nameMismatch
  else if pattern.arity ≠ t.arity then
    .error (.arityMismatch pattern.arity t.arity)
  else
    (Substitution.unifyAll ∅ (pattern.args.zip t.args)).map Substitution.resolved

def unifier (m : Method) (t : Task) : Except UnifierNotFound Substitution :=
  (unifyPattern m.pattern t).mapError fun reason => ⟨t.call, m.name, reason⟩

end Method

end HtnPlanning
