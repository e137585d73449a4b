import HtnPlanning.Domain

namespace HtnPlanning.Spin

def domain [Counters] (supply : Supply) : Domain × Supply :=
  let (next, supply) := Task.newCompound "spin" [] supply
  let (again, supply) := Task.newCompound "spin" [] supply
  let (stop, supply) := Task.newCompound "spin" [] supply
  ({ name := "spin"
     operators := []
     methods :=
       [{ name := "spin-again", pattern := again, template := (NetworkBuilder.ofTasks [next]).build },
         { name := "spin-stop", pattern := stop, template := ∅ }] }, supply)

def problem [Counters] (supply : Supply) : Problem × Supply :=
  let (goal, supply) := Task.newCompound "spin" [] supply
  ({ name := "spin", state := ∅, network := (NetworkBuilder.ofTasks [goal]).build }, supply)

end HtnPlanning.Spin
