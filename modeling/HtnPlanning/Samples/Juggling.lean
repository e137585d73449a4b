import HtnPlanning.Domain

namespace HtnPlanning.Juggling

def pickup : Operator where
  name := "pickup"
  parameters := [.ofSymbol "?a"]
  precondition := .lacks "have" ["?a"]
  effects := [.add (.ofSymbols "have" ["?a"])]

def drop : Operator where
  name := "drop"
  parameters := [.ofSymbol "?a"]
  precondition := .holds "have" ["?a"]
  effects := [.delete (.ofSymbols "have" ["?a"])]

def swapMethod [Counters] (name dropped picked : String) (supply : Supply) : Method × Supply :=
  let (first, supply) := Task.newPrimitive "drop" [dropped] supply
  let (second, supply) := Task.newPrimitive "pickup" [picked] supply
  let (pattern, supply) := Task.newCompound "swap" ["?x", "?y"] supply
  let built := (NetworkBuilder.ofTasks [first, second]).addConstraints
    [.precedence {first.id} {second.id},
      .before {first.id} (.holds "have" [dropped]),
      .before {second.id} (.lacks "have" [picked])]
  ({ name, pattern, template := built.1.build }, supply)

def domain [Counters] (supply : Supply) : Domain × Supply :=
  let (direct, supply) := swapMethod "swap-direct" "?x" "?y" supply
  let (symmetric, supply) := swapMethod "swap-symmetric" "?y" "?x" supply
  ({ name := "juggling", operators := [pickup, drop], methods := [direct, symmetric] }, supply)

def problem [Counters] (held give take : String) (supply : Supply) : Problem × Supply :=
  let (goal, supply) := Task.newCompound "swap" [give, take] supply
  ({ name := "swap-" ++ give ++ "-" ++ take
     state := .ofList [.ofSymbols "have" [held]]
     network := (NetworkBuilder.ofTasks [goal]).build }, supply)

end HtnPlanning.Juggling
