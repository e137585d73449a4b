import HtnPlanning.Config
import HtnPlanning.Domain

namespace HtnPlanning.Logistics

def pick : Operator where
  name := "pick"
  parameters := [.ofSymbol "?p", .ofSymbol "?l"]
  precondition := .holds "at" ["?p", "?l"]
  effects := [.add (.ofSymbols "held" ["?p"])]

def place : Operator where
  name := "place"
  parameters := [.ofSymbol "?p", .ofSymbol "?l"]
  precondition := .and [.holds "held" ["?p"], .holds "at" ["?p", "?l"]]
  effects := [.delete (.ofSymbols "held" ["?p"])]

def move (name : String) (requirement : Condition) : Operator where
  name := name
  parameters := [.ofSymbol "?p", .ofSymbol "?from", .ofSymbol "?to"]
  precondition := .and [.holds "at" ["?p", "?from"], requirement]
  effects := [.delete (.ofSymbols "at" ["?p", "?from"]), .add (.ofSymbols "at" ["?p", "?to"])]

def drive : Operator :=
  move "drive" (.holds "road" ["?from", "?to"])

def fly : Operator :=
  move "fly" (.and [.holds "airport" ["?from"], .holds "airport" ["?to"]])

def deliverMethod [Counters] (supply : Supply) : Method × Supply :=
  let (first, supply) := Task.newPrimitive "pick" ["?p", "?from"] supply
  let (second, supply) := Task.newCompound "transport" ["?p", "?from", "?to"] supply
  let (third, supply) := Task.newPrimitive "place" ["?p", "?to"] supply
  let (pattern, supply) := Task.newCompound "deliver" ["?p", "?from", "?to"] supply
  let built :=
    (NetworkBuilder.ofTasks [first, second, third]).chain [first.id, second.id, third.id]
  ({ name := "deliver", pattern, template := built.1.build }, supply)

def transportMethod [Counters] (name operator : String) (supply : Supply) : Method × Supply :=
  let (step, supply) := Task.newPrimitive operator ["?p", "?from", "?to"] supply
  let (pattern, supply) := Task.newCompound "transport" ["?p", "?from", "?to"] supply
  ({ name, pattern, template := (NetworkBuilder.ofTasks [step]).build }, supply)

def domain [Counters] (supply : Supply) : Domain × Supply :=
  let (deliver, supply) := deliverMethod supply
  let (byRoad, supply) := transportMethod "by-road" "drive" supply
  let (byAir, supply) := transportMethod "by-air" "fly" supply
  ({ name := "logistics"
     operators := [pick, place, drive, fly]
     methods := [deliver, byRoad, byAir] }, supply)

def problem [Counters] (parcel destination : String) (supply : Supply) : Problem × Supply :=
  let (goal, supply) := Task.newCompound "deliver" [parcel, "depot", destination] supply
  ({ name := "deliver-" ++ parcel ++ "-" ++ destination
     state := .ofList
       [.ofSymbols "at" [parcel, "depot"], .ofSymbols "airport" ["depot"],
         .ofSymbols "airport" ["harbor"], .ofSymbols "road" ["depot", "market"]]
     network := (NetworkBuilder.ofTasks [goal]).build }, supply)

def config : PlannerConfig where
  stateProgression := .apply

end HtnPlanning.Logistics
