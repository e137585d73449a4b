import HtnPlanning.ConfigStore
import HtnPlanning.Proofs.Document.Config
import Mathlib.Data.List.Induction
import Mathlib.Logic.Function.Basic

namespace HtnPlanning

namespace ConfigStore

/-! ## Requests -/

inductive Request where
  | save (config : PlannerConfig)
  | setFailing (failing : Bool)
  | load
deriving DecidableEq

namespace Request

def saved? : Request → Option PlannerConfig
  | .save config => some config
  | _ => none

def failing? : Request → Option Bool
  | .setFailing failing => some failing
  | _ => none

def isSave : Request → Bool
  | .save _ => true
  | _ => false

def isLoad : Request → Bool
  | .load => true
  | _ => false

end Request

variable (codec : Codec PlannerConfig)

def serve (store : ConfigStore) : Request → ConfigStore
  | .save config => (store.savePlannerConfig codec config).2
  | .setFailing failing => store.setFailing failing
  | .load => (store.loadPlannerConfig codec).2

def after (store : ConfigStore) (requests : List Request) : ConfigStore :=
  requests.foldl (serve codec) store

def lastSaved? (requests : List Request) : Option PlannerConfig :=
  (requests.filterMap Request.saved?).getLast?

def failsAfter (store : ConfigStore) (requests : List Request) : Bool :=
  (requests.filterMap Request.failing?).getLast?.getD store.failing

def stored (store : ConfigStore) : Except ConfigError PlannerConfig :=
  match store.raw plannerKey with
  | none => .ok {}
  | some document => (valueOf? codec document).map (·.getD {})

section Requests

variable {codec : Codec PlannerConfig} {parse : List UInt8 → Option Json} {store : ConfigStore}
  {requests : List Request} {config : PlannerConfig} {key : String} {document : List UInt8}

/-! ## A single request -/

theorem savePlannerConfig_of_encode (encodes : codec.encode config = some document)
    (store : ConfigStore) :
    store.savePlannerConfig codec config = (.ok (), store.saveRaw plannerKey document) := by
  rw [savePlannerConfig, save, encodes]

theorem loadPlannerConfig_eq (store : ConfigStore) : store.loadPlannerConfig codec =
    (if store.failing then .error (.store "simulated load failure") else store.stored codec,
      { store with loads := store.loads + 1 }) := by
  rw [loadPlannerConfig, load, loadRaw]
  cases failing : store.failing with
  | true => simp
  | false =>
      rw [stored]
      cases raw : store.raw plannerKey with
      | none => simp
      | some document => cases value : valueOf? codec document <;> simp [value, Except.map]

theorem stored_of_nothing (nothing : store.raw plannerKey = none ∨ store.raw plannerKey = some []) :
    store.stored codec = .ok {} := by
  rw [stored]
  rcases nothing with missing | empty
  · rw [missing]
  · rw [empty]
    rfl

theorem stored_of_decode (empty : codec.decode [] = none) (raw : store.raw plannerKey = some document)
    (decodes : codec.decode document = some config) : store.stored codec = .ok config := by
  have nonempty : document ≠ [] := by
    rintro rfl
    rw [empty] at decodes
    cases decodes
  rw [stored, raw]
  simp [valueOf?, nonempty, decodes, Except.map]

theorem stored_of_malformed (raw : store.raw plannerKey = some document) (nonempty : document ≠ [])
    (malformed : codec.decode document = none) : store.stored codec = .error .malformed := by
  rw [stored, raw]
  simp [valueOf?, nonempty, malformed, Except.map]

theorem stored_ne_store (store : ConfigStore) (reason : String) :
    store.stored codec ≠ .error (.store reason) := by
  rw [stored]
  cases store.raw plannerKey with
  | none => nofun
  | some document =>
      simp only [valueOf?]
      split
      · nofun
      · split <;> nofun

/-! ## Requests in a row -/

theorem after_concat (store : ConfigStore) (requests : List Request) (request : Request) :
    store.after codec (requests ++ [request]) = (store.after codec requests).serve codec request :=
  List.foldl_append

theorem serve_load : store.serve codec .load = { store with loads := store.loads + 1 } := by
  rw [serve, loadPlannerConfig_eq]

theorem failsAfter_concat (store : ConfigStore) (requests : List Request) (request : Request) :
    store.failsAfter (requests ++ [request]) = request.failing?.getD (store.failsAfter requests) := by
  rw [failsAfter, List.filterMap_append]
  cases request with
  | setFailing failing => exact congrArg (Option.getD · store.failing) List.getLast?_concat
  | save | load => exact congrArg (fun l => l.getLast?.getD store.failing) (List.append_nil _)

theorem lastSaved?_concat (requests : List Request) (request : Request) :
    lastSaved? (requests ++ [request]) = request.saved?.or (lastSaved? requests) := by
  rw [lastSaved?, List.filterMap_append]
  cases request with
  | save config => exact List.getLast?_concat
  | setFailing | load => exact congrArg List.getLast? (List.append_nil _)

theorem raw_serve_of_ne (other : key ≠ plannerKey) (request : Request) :
    (store.serve codec request).raw key = store.raw key := by
  cases request with
  | setFailing failing => rfl
  | load => rw [serve_load, raw, raw]
  | save config =>
      cases encodes : codec.encode config with
      | none => rw [serve, savePlannerConfig, save, encodes]
      | some document =>
          rw [serve, savePlannerConfig_of_encode encodes, raw, saveRaw, withDocument,
            Std.ExtTreeMap.getElem?_insert, if_neg, raw]
          simpa using other.symm

theorem failing_serve (store : ConfigStore) (request : Request) :
    (store.serve codec request).failing = request.failing?.getD store.failing := by
  cases request with
  | setFailing failing => rfl
  | load => rw [serve_load]; rfl
  | save config =>
      rw [serve, savePlannerConfig, save]
      cases codec.encode config <;> rfl

theorem raw_after_of_ne (other : key ≠ plannerKey) :
    (store.after codec requests).raw key = store.raw key := by
  induction requests using List.reverseRecOn with
  | nil => rfl
  | append_singleton requests request ih => rw [after_concat, raw_serve_of_ne other, ih]

theorem failing_after : (store.after codec requests).failing = store.failsAfter requests := by
  induction requests using List.reverseRecOn with
  | nil => rfl
  | append_singleton requests request ih =>
      rw [after_concat, failing_serve, failsAfter_concat, ih]

abbrev Encodes (codec : Codec PlannerConfig) (requests : List Request) : Prop :=
  ∀ config, .save config ∈ requests → ∃ document, codec.encode config = some document

theorem raw_after_planner (encodes : Encodes codec requests) :
    (store.after codec requests).raw plannerKey =
      ((lastSaved? requests).map codec.encode).getD (store.raw plannerKey) := by
  induction requests using List.reverseRecOn with
  | nil => rfl
  | append_singleton requests request ih =>
      have ih := ih fun config member => encodes config (List.mem_append_left _ member)
      rw [after_concat, lastSaved?_concat]
      cases request with
      | save config =>
          obtain ⟨document, encoded⟩ := encodes config (List.mem_append_right _ List.mem_cons_self)
          simp [serve, savePlannerConfig_of_encode encoded, saveRaw, withDocument, raw, Request.saved?,
            encoded]
      | setFailing failing => exact ih
      | load =>
          rw [serve_load]
          exact ih

theorem counted_after {counted : ConfigStore → Nat} {counts : Request → Bool}
    (step : ∀ (store : ConfigStore), ∀ request ∈ requests,
      counted (store.serve codec request) = counted store + [request].countP counts) :
    counted (store.after codec requests) = counted store + requests.countP counts := by
  induction requests using List.reverseRecOn with
  | nil => rfl
  | append_singleton requests request ih =>
      have ih := ih fun store request member => step store request (List.mem_append_left _ member)
      rw [after_concat, List.countP_append, ← Nat.add_assoc, ← ih,
        step _ request (List.mem_append_right _ List.mem_cons_self)]

theorem loads_after :
    (store.after codec requests).loads = store.loads + requests.countP Request.isLoad :=
  counted_after fun store request _ => by
    cases request with
    | setFailing failing => rfl
    | load => rw [serve_load]; rfl
    | save config =>
        rw [serve, savePlannerConfig, save]
        cases codec.encode config <;> rfl

theorem saves_after (encodes : Encodes codec requests) :
    (store.after codec requests).saves = store.saves + requests.countP Request.isSave :=
  counted_after fun store request member => by
    cases request with
    | setFailing failing => rfl
    | load => rw [serve_load]; rfl
    | save config =>
        obtain ⟨document, encoded⟩ := encodes config member
        rw [serve, savePlannerConfig_of_encode encoded]
        rfl

theorem saved_of_lastSaved? (saved : lastSaved? requests = some config) : .save config ∈ requests := by
  obtain ⟨request, member, is⟩ := List.mem_filterMap.mp (List.mem_of_getLast? saved)
  cases request with
  | save config' =>
      cases is
      exact member
  | setFailing failing => cases is
  | load => cases is

end Requests

/-! ## Clones -/

structure Call where
  service : Nat
  request : Request

/-- Services, each with the number of the store that it works on. Services over clones of a store have
the same number. -/
structure Services where
  stores : Nat → ConfigStore
  number : Nat → Nat

namespace Services

def store (x : Services) (service : Nat) : ConfigStore :=
  x.stores (x.number service)

def requestsTo (x : Services) (service : Nat) (calls : List Call) : List Request :=
  (calls.filter fun call => x.number call.service = x.number service).map Call.request

variable (codec : Codec PlannerConfig)

def perform (x : Services) (call : Call) : Services :=
  let served := (x.store call.service).serve codec call.request
  { x with stores := Function.update x.stores (x.number call.service) served }

def after (x : Services) (calls : List Call) : Services :=
  calls.foldl (perform codec) x

theorem store_after (x : Services) (service : Nat) (calls : List Call) :
    (x.after codec calls).store service =
      (x.store service).after codec (x.requestsTo service calls) := by
  induction calls generalizing x with
  | nil => rfl
  | cons call calls ih =>
      rw [after, List.foldl_cons, ← after, ih]
      have later : (x.perform codec call).requestsTo service calls = x.requestsTo service calls := rfl
      rw [later]
      by_cases same : x.number call.service = x.number service
      · have kept : x.requestsTo service (call :: calls) =
            call.request :: x.requestsTo service calls := by
          simp [requestsTo, same]
        have served :
            (x.perform codec call).store service = (x.store service).serve codec call.request := by
          simp [store, perform, same]
        rw [kept, served]
        rfl
      · have dropped : x.requestsTo service (call :: calls) = x.requestsTo service calls := by
          simp [requestsTo, same]
        have untouched : (x.perform codec call).store service = x.store service :=
          Function.update_of_ne (Ne.symm same) _ _
        rw [dropped, untouched]

/-- After any calls through services over clones of a store, a load fails with a store error exactly while
loading is set to fail. Otherwise it finds the configuration saved last; if none was saved, it finds what was
stored before: nothing and an empty document stand for the default configuration, an object gives some fields
and leaves the others at their defaults, and what cannot be decoded is malformed. A load changes no document,
documents under other keys stay as they are, and loads and saves are counted. This relies on a codec that
reads back every configuration that is saved, and reads objects by their fields. -/
theorem load_after {codec : Codec PlannerConfig} {parse : List UInt8 → Option Json}
    (reads : codec.ReadsObjects parse) (x : Services) (calls : List Call) (service : Nat)
    (decodes : ∀ config, .save config ∈ x.requestsTo service calls →
      (codec.encode config).bind codec.decode = some config) :
    let before := x.store service
    let requests := x.requestsTo service calls
    let now := (x.after codec calls).store service
    let result := (now.loadPlannerConfig codec).1
    ((∃ reason, result = .error (.store reason)) ↔ before.failsAfter requests = true) ∧
    (before.failsAfter requests = false →
      (∀ config, lastSaved? requests = some config → result = .ok config) ∧
      (lastSaved? requests = none →
        (before.raw plannerKey = none ∨ before.raw plannerKey = some [] → result = .ok {}) ∧
        ∀ document, before.raw plannerKey = some document → document ≠ [] →
          (codec.decode document = none → result = .error .malformed) ∧
          ∀ fields (given : PlannerConfig.Given), parse document = some (.obj fields) →
            given.ReadFrom fields → result = .ok given.config)) ∧
    (now.loadPlannerConfig codec).2.documents = now.documents ∧
    (∀ key, key ≠ plannerKey → now.raw key = before.raw key) ∧
    now.loads = before.loads + requests.countP Request.isLoad ∧
    now.saves = before.saves + requests.countP Request.isSave := by
  intro before requests now result
  have served : now = before.after codec requests := x.store_after codec service calls
  have failing : now.failing = before.failsAfter requests := by rw [served, failing_after]
  have outcome : result =
      if now.failing then .error (.store "simulated load failure") else now.stored codec :=
    congrArg Prod.fst (loadPlannerConfig_eq now)
  have unchanged : (now.loadPlannerConfig codec).2.documents = now.documents :=
    congrArg (fun answer => answer.2.documents) (loadPlannerConfig_eq now)
  have encodes : Encodes codec requests := fun config member =>
    let ⟨document, encoded, _⟩ := Option.bind_eq_some_iff.mp (decodes config member)
    ⟨document, encoded⟩
  have raw : now.raw plannerKey =
      ((lastSaved? requests).map codec.encode).getD (before.raw plannerKey) := by
    rw [served, raw_after_planner encodes]
  refine ⟨?fails, ?finds, unchanged, ?others, ?loads, ?saves⟩
  case fails =>
    rw [← failing]
    cases fail : now.failing with
    | true => simp [outcome, fail]
    | false =>
        have found : result = now.stored codec := by rw [outcome, fail]; rfl
        simp [found, stored_ne_store]
  case finds =>
    intro succeeds
    have found : result = now.stored codec := by rw [outcome, failing, succeeds]; rfl
    rw [found]
    refine ⟨fun config saved => ?_, fun unsaved => ?_⟩
    · obtain ⟨document, encoded, decoded⟩ :=
        Option.bind_eq_some_iff.mp (decodes config (saved_of_lastSaved? saved))
      exact stored_of_decode reads.empty (by rw [raw, saved, ← encoded]; rfl) decoded
    · rw [unsaved, Option.map_none, Option.getD_none] at raw
      rw [← raw]
      exact ⟨stored_of_nothing, fun document stored nonempty =>
        ⟨stored_of_malformed stored nonempty, fun fields given parsed readFrom =>
          stored_of_decode reads.empty stored
            ((reads.object document fields parsed).trans readFrom.ofJson?)⟩⟩
  case others =>
    intro key other
    rw [served, raw_after_of_ne other]
  case loads => rw [served, loads_after]
  case saves => rw [served, saves_after encodes]

def depthOnly : Json :=
  .obj [("max_depth", .nat 4)]

def pairs : Services where
  stores _ := ConfigStore.withDocument {} plannerKey depthOnly.text.toUTF8.toList
  number service := service / 2

-- Loading is set to fail through the first service, and its twin saves a configuration before loading works
-- again. It is what the first one finds then; the third one finds the field of the stored document.
theorem load_after_pairs :
    let codec : Codec PlannerConfig := Document.codec
    let shallow : PlannerConfig := { maxDepth := some 2, pruneDeadEnds := false }
    let calls : List Call := [⟨0, .setFailing true⟩, ⟨1, .load⟩, ⟨1, .save shallow⟩, ⟨1, .setFailing false⟩]
    let result (calls : List Call) (service : Nat) :=
      (((pairs.after codec calls).store service).loadPlannerConfig codec).1
    codec.ReadsObjects Json.parse ∧ (codec.encode shallow).bind codec.decode = some shallow ∧
      (∃ reason, result (calls.take 1) 1 = .error (.store reason)) ∧
      result calls 0 = .ok shallow ∧ result calls 2 = .ok { maxDepth := some 4 } ∧
      ((pairs.after codec calls).store 0).loads = 1 ∧
      ((pairs.after codec calls).store 0).saves = 1 := by
  intro codec shallow calls result
  have reads : codec.ReadsObjects Json.parse := Document.readsObjects
  have decodes : (codec.encode shallow).bind codec.decode = some shallow :=
    Document.decode_encode (by decide) (by decide)
  have parsed : Json.parse depthOnly.text.toUTF8.toList = some depthOnly :=
    Json.parse_text (.field (.nat (by decide)) .nothing)
  have readFrom : PlannerConfig.Given.ReadFrom { maxDepth := some (some 4) } [("max_depth", .nat 4)] := {
    maxDepth := ⟨.nat 4, rfl, rfl⟩
    nodeBudget := by simp [PlannerConfig.Gives]
    stateProgression := by simp [PlannerConfig.Gives]
    checkConditions := by simp [PlannerConfig.Gives]
    pruneDeadEnds := by simp [PlannerConfig.Gives] }
  have asked₁ : pairs.requestsTo 1 (calls.take 1) = [.setFailing true] := by decide +kernel
  have asked₀ : pairs.requestsTo 0 calls =
      [.setFailing true, .load, .save shallow, .setFailing false] := by
    decide +kernel
  have asked₂ : pairs.requestsTo 2 calls = [] := by decide +kernel
  obtain ⟨fails, -⟩ := load_after reads pairs (calls.take 1) 1 (by simp [asked₁])
  obtain ⟨-, finds, -, -, loads, saves⟩ := load_after reads pairs calls 0 (by simp [asked₀, decodes])
  obtain ⟨-, finds', -⟩ := load_after reads pairs calls 2 (by simp [asked₂])
  rw [asked₁] at fails
  rw [asked₀] at finds loads saves
  rw [asked₂] at finds'
  refine ⟨reads, decodes, fails.mpr rfl, (finds rfl).1 shallow rfl, ?_, loads, saves⟩
  exact (((finds' rfl).2 rfl).2 _ rfl (by decide +kernel)).2 _ _ parsed readFrom

end Services

end ConfigStore

end HtnPlanning
