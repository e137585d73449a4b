import HtnPlanning.Logic.Condition
import HtnPlanning.Logic.Effect

namespace HtnPlanning

structure State where
  facts : Std.ExtTreeSet Atom
deriving DecidableEq

namespace State

instance : EmptyCollection State := ⟨⟨∅⟩⟩

def ofList (atoms : List Atom) : State :=
  ⟨.ofList (atoms.filter Atom.isGround) compare⟩

def toList (s : State) : List Atom :=
  s.facts.toList

def size (s : State) : Nat :=
  s.facts.size

def contains (s : State) (a : Atom) : Bool :=
  s.facts.contains a

mutual

/-- Whether a condition holds. A negation holds when what it negates is ground and does not. -/
def ask (s : State) : Condition → Bool
  | .atom a => a.isGround && s.contains a
  | .not c => c.isGround && !ask s c
  | .and parts => askAll s parts
  | .or parts => askAny s parts

def askAll (s : State) : List Condition → Bool
  | [] => true
  | c :: rest => ask s c && askAll s rest

def askAny (s : State) : List Condition → Bool
  | [] => false
  | c :: rest => ask s c || askAny s rest

end

theorem askAll_eq_all (s : State) (parts : List Condition) : s.askAll parts = parts.all s.ask := by
  induction parts with
  | nil => rfl
  | cons c rest ih => simp [askAll, ih]

theorem askAny_eq_any (s : State) (parts : List Condition) : s.askAny parts = parts.any s.ask := by
  induction parts with
  | nil => rfl
  | cons c rest ih => simp [askAny, ih]

def tell (s : State) (e : Effect) : State :=
  if e.atom.isGround then
    match e with
    | .add a => ⟨s.facts.insert a⟩
    | .delete a => ⟨s.facts.erase a⟩
  else
    s

def applyEffects (s : State) (effects : List Effect) : State :=
  effects.foldl tell s

instance : ToString State where
  toString s := Text.braces (s.toList.map toString)

end State

end HtnPlanning
