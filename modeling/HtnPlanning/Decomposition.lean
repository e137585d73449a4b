import HtnPlanning.Domain

/-!
# Decomposition

A task of a network is replaced by the tasks of a method's template. A substitution is applied to
the template and to the network, the bound template becomes new occurrences, and the constraints on
the task become constraints on all of them.
-/

namespace HtnPlanning.Network

def decompose [Counters] (n : Network) (s : Substitution) (t : Task) (m : Method)
    (supply : Supply) : Except ReplacementError Network × Supply :=
  if n.contains t.id then
    let (subtasks, supply) := (m.template.apply s).reissued supply
    match ((NetworkBuilder.copy n).apply s).replace t.id subtasks with
    | (b, none) => (.ok b.build, supply)
    | (_, some error) => (.error error, supply)
  else
    (.error (.unknownTask t.id), supply)

end HtnPlanning.Network
