import HtnPlanning.Document
import HtnPlanning.Proofs.Json.Text

namespace HtnPlanning

namespace PlannerConfig

structure Given where
  maxDepth : Option (Option Nat) := none
  nodeBudget : Option (Option Nat) := none
  stateProgression : Option StateProgression := none
  checkConditions : Option Bool := none
  pruneDeadEnds : Option Bool := none

def Given.config (given : Given) : PlannerConfig :=
  let default : PlannerConfig := {}
  { maxDepth := given.maxDepth.getD default.maxDepth
    nodeBudget := given.nodeBudget.getD default.nodeBudget
    stateProgression := given.stateProgression.getD default.stateProgression
    checkConditions := given.checkConditions.getD default.checkConditions
    pruneDeadEnds := given.pruneDeadEnds.getD default.pruneDeadEnds }

def Gives {α : Type} (fields : List (String × Json)) (name : String) (read : Json → Option α) :
    Option α → Prop
  | none => ∀ field ∈ fields, field.1 ≠ name
  | some x => ∃ j, (fields.filter fun field => field.1 = name) = [(name, j)] ∧ read j = some x

structure Given.ReadFrom (given : Given) (fields : List (String × Json)) : Prop where
  maxDepth : Gives fields "max_depth" limit? given.maxDepth
  nodeBudget : Gives fields "node_budget" limit? given.nodeBudget
  stateProgression :
    Gives fields "state_progression" StateProgression.ofJson? given.stateProgression
  checkConditions : Gives fields "check_constraint_conditions" Json.bool? given.checkConditions
  pruneDeadEnds : Gives fields "prune_dead_ends" Json.bool? given.pruneDeadEnds

theorem Gives.exists_field {α : Type} {fields : List (String × Json)} {name : String}
    {read : Json → Option α} {given : Option α} (gives : Gives fields name read given) (default : α) :
    ∃ j?, Json.field? fields name = some j? ∧ fieldOr default read j? = some (given.getD default) := by
  cases given with
  | none =>
      have absent : (fields.filter fun field => field.1 = name) = [] :=
        List.filter_eq_nil_iff.mpr fun field member => by simpa using gives field member
      exact ⟨none, by rw [Json.field?, absent], rfl⟩
  | some x =>
      obtain ⟨j, once, valid⟩ := gives
      exact ⟨some j, by rw [Json.field?, once], valid⟩

theorem Given.ReadFrom.ofJson? {given : Given} {fields : List (String × Json)}
    (reads : given.ReadFrom fields) : PlannerConfig.ofJson? (.obj fields) = some given.config := by
  let default : PlannerConfig := {}
  obtain ⟨maxDepth, found₁, value₁⟩ := reads.maxDepth.exists_field default.maxDepth
  obtain ⟨nodeBudget, found₂, value₂⟩ := reads.nodeBudget.exists_field default.nodeBudget
  obtain ⟨stateProgression, found₃, value₃⟩ :=
    reads.stateProgression.exists_field default.stateProgression
  obtain ⟨checkConditions, found₄, value₄⟩ :=
    reads.checkConditions.exists_field default.checkConditions
  obtain ⟨pruneDeadEnds, found₅, value₅⟩ := reads.pruneDeadEnds.exists_field default.pruneDeadEnds
  have record : (Json.obj fields).partialRecord? ["max_depth", "node_budget", "state_progression",
      "check_constraint_conditions", "prune_dead_ends"] =
      some [maxDepth, nodeBudget, stateProgression, checkConditions, pruneDeadEnds] := by
    simp [Json.partialRecord?, found₁, found₂, found₃, found₄, found₅]
  simp [PlannerConfig.ofJson?, record, value₁, value₂, value₃, value₄, value₅, config, default]

theorem ofJson?_toJson (c : PlannerConfig) : ofJson? c.toJson = some c := by
  rcases c with ⟨_ | n, _ | m, _ | _, _, _⟩ <;> rfl

end PlannerConfig

/-- What is relied on where configurations are read: there is none in an empty document, and where a document
has the text of an object, the fields of the object are read. -/
structure Codec.ReadsObjects (codec : Codec PlannerConfig) (parse : List UInt8 → Option Json) : Prop where
  empty : codec.decode [] = none
  object : ∀ document fields, parse document = some (.obj fields) →
    codec.decode document = PlannerConfig.ofJson? (.obj fields)

namespace Json.Plain

theorem nothing : Plain (.obj []) :=
  .obj nofun

theorem field {key : String} {j : Json} {fields : List (String × Json)} (plain : j.Plain)
    (rest : Plain (.obj fields)) : Plain (.obj ((key, j) :: fields)) := by
  cases rest with
  | obj later => exact .obj (List.forall_mem_cons.mpr ⟨plain, later⟩)

end Json.Plain

namespace PlannerConfig

theorem fits (c : PlannerConfig) : Document.fits c = true := by
  have limit (n : Option Nat) : (limitJson n).depth = 0 := by cases n <;> rfl
  have progression : c.stateProgression.toJson.depth = 0 := by cases c.stateProgression <;> rfl
  simp [Document.fits, Stored.toJson?, Stored.vars, toJson, Json.depth, Json.depthFields, limit,
    progression, Document.maxDepth]

theorem plain_toJson {c : PlannerConfig} (maxDepth : ∀ n ∈ c.maxDepth, n < UInt64.size)
    (nodeBudget : ∀ n ∈ c.nodeBudget, n < UInt64.size) : c.toJson.Plain := by
  have limit {n? : Option Nat} (small : ∀ n ∈ n?, n < UInt64.size) : (limitJson n?).Plain := by
    cases n? with
    | none => exact .null
    | some n => exact .nat (small n rfl)
  have progression : c.stateProgression.toJson.Plain := by
    cases c.stateProgression <;> exact .str _
  exact (limit maxDepth).field ((limit nodeBudget).field (progression.field
    ((Json.Plain.bool c.checkConditions).field ((Json.Plain.bool c.pruneDeadEnds).field .nothing))))

end PlannerConfig

namespace Document

theorem readsObjects : (codec : Codec PlannerConfig).ReadsObjects Json.parse where
  empty := rfl
  object document fields parsed := by
    simp only [codec, read, parsed, Stored.ofJson?, PlannerConfig.fits, Option.bind_eq_bind,
      Option.bind_some, if_true]
    exact Option.bind_fun_some _

theorem decode_encode {c : PlannerConfig} (maxDepth : ∀ n ∈ c.maxDepth, n < UInt64.size)
    (nodeBudget : ∀ n ∈ c.nodeBudget, n < UInt64.size) :
    ((codec : Codec PlannerConfig).encode c).bind codec.decode = some c := by
  have parsed := Json.parse_text (c.plain_toJson maxDepth nodeBudget)
  have decoded := readsObjects.object _ _ parsed
  exact decoded.trans c.ofJson?_toJson

end Document

end HtnPlanning
