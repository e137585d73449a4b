import HtnPlanning.Config
import Std.Data.ExtTreeMap

namespace HtnPlanning

structure Codec (α : Type) where
  encode : α → Option (List UInt8)
  decode : List UInt8 → Option α

inductive ConfigError where
  | notFound
  | malformed
  | store (reason : String)
deriving DecidableEq

instance : ToString ConfigError where
  toString
    | .notFound => "no document stored under the key"
    | .malformed => "malformed config document"
    | .store reason => "config store failed: " ++ reason

structure ConfigStore where
  documents : Std.ExtTreeMap String (List UInt8) := ∅
  loads : Nat := 0
  saves : Nat := 0
  failing : Bool := false
deriving DecidableEq

namespace ConfigStore

def raw (store : ConfigStore) (key : String) : Option (List UInt8) :=
  store.documents[key]?

def withDocument (store : ConfigStore) (key : String) (document : List UInt8) : ConfigStore :=
  { store with documents := store.documents.insert key document }

def setFailing (store : ConfigStore) (failing : Bool) : ConfigStore :=
  { store with failing := failing }

def loadRaw (store : ConfigStore) (key : String) :
    Except ConfigError (List UInt8) × ConfigStore :=
  let counted := { store with loads := store.loads + 1 }
  if store.failing then
    (.error (.store "simulated load failure"), counted)
  else
    match store.raw key with
    | some document => (.ok document, counted)
    | none => (.error .notFound, counted)

def saveRaw (store : ConfigStore) (key : String) (document : List UInt8) : ConfigStore :=
  { store.withDocument key document with saves := store.saves + 1 }

section

variable {α : Type} (codec : Codec α)

def valueOf? (document : List UInt8) : Except ConfigError (Option α) :=
  if document.isEmpty then
    .ok none
  else
    match codec.decode document with
    | some value => .ok (some value)
    | none => .error .malformed

def load (store : ConfigStore) (key : String) : Except ConfigError (Option α) × ConfigStore :=
  match store.loadRaw key with
  | (.error .notFound, store) => (.ok none, store)
  | (.error error, store) => (.error error, store)
  | (.ok document, store) => (valueOf? codec document, store)

def save (store : ConfigStore) (key : String) (value : α) : Except ConfigError Unit × ConfigStore :=
  match codec.encode value with
  | some document => (.ok (), store.saveRaw key document)
  | none => (.error .malformed, store)

end

def plannerKey : String := "planner"

variable (codec : Codec PlannerConfig)

def loadPlannerConfig (store : ConfigStore) : Except ConfigError PlannerConfig × ConfigStore :=
  match store.load codec plannerKey with
  | (.ok config, store) => (.ok (config.getD {}), store)
  | (.error error, store) => (.error error, store)

def savePlannerConfig (store : ConfigStore) (config : PlannerConfig) :
    Except ConfigError Unit × ConfigStore :=
  store.save codec plannerKey config

end ConfigStore

end HtnPlanning
