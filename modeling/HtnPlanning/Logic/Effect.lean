import HtnPlanning.Logic.Atom

namespace HtnPlanning

inductive Effect where
  | add (a : Atom)
  | delete (a : Atom)
deriving DecidableEq, Inhabited

namespace Effect

def atom : Effect → Atom
  | .add a => a
  | .delete a => a

def apply (s : Substitution) : Effect → Effect
  | .add a => .add (a.apply s)
  | .delete a => .delete (a.apply s)

protected def order : Effect → Effect → Ordering
  | .add a, .add b => compare a b
  | .add _, .delete _ => .lt
  | .delete _, .add _ => .gt
  | .delete a, .delete b => compare a b

instance : Ord Effect := ⟨Effect.order⟩

instance : ToString Effect where
  toString
    | .add a => toString a
    | .delete a => Text.call "not" [toString a]

end Effect

end HtnPlanning
