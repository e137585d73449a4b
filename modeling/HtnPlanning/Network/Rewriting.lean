import HtnPlanning.Network.Builder

namespace HtnPlanning.Network

def apply (s : Substitution) (n : Network) : Network :=
  ((NetworkBuilder.copy n).apply s).build

def replace (n : Network) (old : TaskId) (new : Network) : Except ReplacementError Network :=
  match (NetworkBuilder.copy n).replace old new with
  | (b, none) => .ok b.build
  | (_, some error) => .error error

def reissueAll [Counters] : List Task → Supply → List (Task × Task) × Supply
  | [], supply => ([], supply)
  | t :: rest, supply =>
    let (fresh, supply) := t.reissued supply
    let (others, supply) := reissueAll rest supply
    ((t, fresh) :: others, supply)

def reissued [Counters] (n : Network) (supply : Supply) : Network × Supply :=
  let (pairs, supply) := reissueAll n.taskList supply
  let newIds : Std.ExtTreeMap TaskId TaskId :=
    .ofList (pairs.map fun (t, fresh) => (t.id, fresh.id)) compare
  let renamed := n.constraints.toList.map (·.rename fun id => newIds[id]?.getD id)
  (ofLists (pairs.map Prod.snd) renamed, supply)

end HtnPlanning.Network
