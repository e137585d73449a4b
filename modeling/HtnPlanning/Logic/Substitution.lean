import Std.Data.ExtTreeMap
import HtnPlanning.Logic.Term

namespace HtnPlanning

structure BindingConflict where
  subject : Variable
  bound : Term
  requested : Term
deriving DecidableEq

instance : ToString BindingConflict where
  toString conflict :=
    toString conflict.subject ++ " is bound to " ++ toString conflict.bound ++
      ", cannot rebind to " ++ toString conflict.requested

structure Substitution where
  bindings : Std.ExtTreeMap Variable Term
deriving DecidableEq

namespace Substitution

instance : EmptyCollection Substitution := ⟨⟨∅⟩⟩

def ofList (pairs : List (Variable × Term)) : Substitution :=
  ⟨.ofList pairs compare⟩

def toList (s : Substitution) : List (Variable × Term) :=
  s.bindings.toList

def get? (s : Substitution) (v : Variable) : Option Term :=
  s.bindings[v]?

def contains (s : Substitution) (v : Variable) : Bool :=
  s.bindings.contains v

def size (s : Substitution) : Nat :=
  s.bindings.size

/-- Binds a variable that is free or already bound to the same term. Binding a variable to itself
changes nothing. -/
def bind (s : Substitution) (v : Variable) (t : Term) : Except BindingConflict Substitution :=
  if t = .var v then
    .ok s
  else
    match s.get? v with
    | none => .ok ⟨s.bindings.insert v t⟩
    | some bound => if bound = t then .ok s else .error ⟨v, bound, t⟩

theorem size_pos_of_getElem? {bindings : Std.ExtTreeMap Variable Term} {v : Variable} {t : Term}
    (bound : bindings[v]? = some t) : 0 < bindings.size := by
  apply Nat.pos_of_ne_zero
  intro none
  rw [Std.ExtTreeMap.eq_empty_iff_size_eq_zero.mpr none] at bound
  simp at bound

/-- Follows the bindings from a term, each of them at most once: a binding that was followed is
removed from those that are left, so a walk round a cycle ends where it entered it. -/
def follow (bindings : Std.ExtTreeMap Variable Term) : Term → Term
  | .const c => .const c
  | .var v =>
    match _bound : bindings[v]? with
    | none => .var v
    | some next => follow (bindings.erase v) next
termination_by bindings.size
decreasing_by
  have nonempty := size_pos_of_getElem? (by assumption)
  have mem : v ∈ bindings := by grind
  grind

def walk (s : Substitution) (t : Term) : Term :=
  follow s.bindings t

def resolved (s : Substitution) : Substitution where
  bindings := s.bindings.filterMap fun v t =>
    let last := s.walk t
    if last = .var v then none else some last

instance : ToString Substitution where
  toString s := Text.braces (s.toList.map fun (v, t) => toString v ++ " -> " ++ toString t)

end Substitution

namespace Term

def apply (s : Substitution) : Term → Term
  | .var v => (s.get? v).getD (.var v)
  | .const c => .const c

end Term

end HtnPlanning
