import HtnPlanning.Proofs.Search.Choice

/-!
# Whatever is obtained is valid

Validators, builders, networks and methods are obtained from those that are at hand. No operation
asks its caller for anything: one that cannot be carried out says why, and leaves everything as it is.
-/

namespace HtnPlanning.Workspace

inductive Value where
  | validator (v : Validator)
  | builder (b : NetworkBuilder)
  | network (n : Network)
  | method (m : Method)
deriving DecidableEq

inductive Refusal where
  | misplaced
  | invalidConstraint (error : InvalidConstraint)
  | replacement (error : ReplacementError)

namespace Value

def addTask (t : Task) : Value → Value × Option Refusal
  | .validator v => (.validator (v.addTask t.id), none)
  | .builder b => (.builder (b.addTask t), none)
  | x => (x, some .misplaced)

def addConstraint (c : Constraint) : Value → Value × Option Refusal
  | .validator v => (v.addConstraint c).map .validator (·.map .invalidConstraint)
  | .builder b => (b.addConstraint c).map .builder (·.map .invalidConstraint)
  | x => (x, some .misplaced)

def apply (s : Substitution) : Value → Value × Option Refusal
  | .validator v => (.validator (v.apply s), none)
  | .builder b => (.builder (b.apply s), none)
  | x => (x, some .misplaced)

def replace (old : TaskId) (new : Network) : Value → Value × Option Refusal
  | .validator v => (v.replace old new).map .validator (·.map .replacement)
  | .builder b => (b.replace old new).map .builder (·.map .replacement)
  | x => (x, some .misplaced)

end Value

/-- Operations name the values they are applied to by their places in the workspace. -/
inductive Operation where
  | newValidator
  | newBuilder
  | emptyNetwork
  | newMethod (name : String) (pattern : Task) (template : Nat)
  | clone (place : Nat)
  | addTask (place : Nat) (t : Task)
  | addConstraint (place : Nat) (c : Constraint)
  | apply (place : Nat) (s : Substitution)
  | replace (place : Nat) (old : TaskId) (new : Nat)
  | validatorOf (builder : Nat)
  | copy (network : Nat)
  | build (builder : Nat)
  | applied (network : Nat) (s : Substitution)
  | replaced (network : Nat) (old : TaskId) (new : Nat)
  | templateOf (method : Nat)
  | reissue (network : Nat) (supply : Supply)
  | standardizeApart (method : Nat) (supply : Supply)
  | decompose (s : Substitution) (network : Nat) (t : Task) (method : Nat) (supply : Supply)

def valueAt (w : List Value) (place : Nat) : Except Refusal Value :=
  match w[place]? with
  | some x => .ok x
  | none => .error .misplaced

def builderAt (w : List Value) (place : Nat) : Except Refusal NetworkBuilder :=
  match w[place]? with
  | some (.builder b) => .ok b
  | _ => .error .misplaced

def networkAt (w : List Value) (place : Nat) : Except Refusal Network :=
  match w[place]? with
  | some (.network n) => .ok n
  | _ => .error .misplaced

def methodAt (w : List Value) (place : Nat) : Except Refusal Method :=
  match w[place]? with
  | some (.method m) => .ok m
  | _ => .error .misplaced

def change (w : List Value) (place : Nat) (f : Value → Value × Option Refusal) :
    List Value × Option Refusal :=
  match w[place]? with
  | some x => (w.set place (f x).1, (f x).2)
  | none => (w, some .misplaced)

def add (w : List Value) : Except Refusal Value → List Value × Option Refusal
  | .ok x => (w ++ [x], none)
  | .error refusal => (w, some refusal)

def perform (w : List Value) : Operation → List Value × Option Refusal
  | .newValidator => add w (.ok (.validator ∅))
  | .newBuilder => add w (.ok (.builder ∅))
  | .emptyNetwork => add w (.ok (.network ∅))
  | .newMethod name pattern template =>
    add w ((networkAt w template).map fun n => .method ⟨name, pattern, n⟩)
  | .clone place => add w (valueAt w place)
  | .addTask place t => change w place (Value.addTask t)
  | .addConstraint place c => change w place (Value.addConstraint c)
  | .apply place s => change w place (Value.apply s)
  | .replace place old new =>
    match networkAt w new with
    | .ok n => change w place (Value.replace old n)
    | .error refusal => (w, some refusal)
  | .validatorOf builder => add w ((builderAt w builder).map fun b => .validator b.validator)
  | .copy network => add w ((networkAt w network).map fun n => .builder (.copy n))
  | .build builder => add w ((builderAt w builder).map fun b => .network b.build)
  | .applied network s => add w ((networkAt w network).map fun n => .network (n.apply s))
  | .replaced network old new => add w do
    let n ← networkAt w network
    let next ← (n.replace old (← networkAt w new)).mapError .replacement
    return .network next
  | .templateOf method => add w ((methodAt w method).map fun m => .network m.template)
  | .reissue network supply =>
    add w ((networkAt w network).map fun n => .network (n.reissued supply).1)
  | .standardizeApart method supply =>
    add w ((methodAt w method).map fun m => .method (m.standardizeApart supply).1)
  | .decompose s network t method supply => add w do
    let n ← networkAt w network
    let m ← methodAt w method
    let next ← (n.decompose s t m supply).1.mapError .replacement
    return .network next

def obtained (ops : List Operation) : List Value :=
  ops.foldl (fun w op => (perform w op).1) []

theorem map_eq_ok {ε α β : Type} {result : Except ε α} {f : α → β} {b : β} :
    result.map f = .ok b ↔ ∃ a, result = .ok a ∧ f a = b := by
  cases result <;> simp [Except.map]

theorem bind_eq_ok {ε α β : Type} {result : Except ε α} {f : α → Except ε β} {b : β} :
    result >>= f = .ok b ↔ ∃ a, result = .ok a ∧ f a = .ok b := by
  cases result <;> simp [bind, Except.bind]

variable {w : List Value} {place : Nat} {x : Value} {refusal : Refusal}

/-! ## Refusal -/

namespace Value

theorem addTask_unchanged {t : Task} (refused : (x.addTask t).2 = some refusal) :
    (x.addTask t).1 = x := by
  cases x with
  | validator | builder => cases refused
  | network | method => rfl

theorem addConstraint_unchanged {c : Constraint} (refused : (x.addConstraint c).2 = some refusal) :
    (x.addConstraint c).1 = x := by
  cases x with
  | validator v =>
      obtain ⟨error, objection, -⟩ := Option.map_eq_some_iff.mp refused
      exact congrArg Value.validator (Validator.addConstraint_unchanged objection)
  | builder b =>
      obtain ⟨error, objection, -⟩ := Option.map_eq_some_iff.mp refused
      exact congrArg Value.builder (NetworkBuilder.addConstraint_unchanged objection)
  | network | method => rfl

theorem apply_unchanged {s : Substitution} (refused : (x.apply s).2 = some refusal) :
    (x.apply s).1 = x := by
  cases x with
  | validator | builder => cases refused
  | network | method => rfl

theorem replace_unchanged {old : TaskId} {new : Network}
    (refused : (x.replace old new).2 = some refusal) : (x.replace old new).1 = x := by
  cases x with
  | validator v =>
      obtain ⟨error, failed, -⟩ := Option.map_eq_some_iff.mp refused
      exact congrArg Value.validator (Validator.replace_unchanged failed)
  | builder b =>
      obtain ⟨error, failed, -⟩ := Option.map_eq_some_iff.mp refused
      exact congrArg Value.builder (NetworkBuilder.replace_unchanged failed)
  | network | method => rfl

end Value

theorem change_unchanged {f : Value → Value × Option Refusal}
    (unchanged : ∀ x refusal, (f x).2 = some refusal → (f x).1 = x)
    (refused : (change w place f).2 = some refusal) : (change w place f).1 = w := by
  unfold change at refused ⊢
  split at refused
  next x at_ =>
    obtain ⟨bound, rfl⟩ := List.getElem?_eq_some_iff.mp at_
    exact (congrArg (w.set place) (unchanged _ _ refused)).trans (List.set_getElem_self bound)
  next => rfl

theorem add_unchanged {result : Except Refusal Value} (refused : (add w result).2 = some refusal) :
    (add w result).1 = w := by
  cases result with
  | ok => cases refused
  | error => rfl

theorem perform_unchanged {op : Operation} (refused : (perform w op).2 = some refusal) :
    (perform w op).1 = w := by
  cases op with
  | addTask => exact change_unchanged (fun _ _ => Value.addTask_unchanged) refused
  | addConstraint => exact change_unchanged (fun _ _ => Value.addConstraint_unchanged) refused
  | apply => exact change_unchanged (fun _ _ => Value.apply_unchanged) refused
  | replace place old new =>
      simp only [perform] at refused ⊢
      cases given : networkAt w new with
      | error => rfl
      | ok n =>
          rw [given] at refused
          exact change_unchanged (fun _ _ => Value.replace_unchanged) refused
  | _ => exact add_unchanged refused

/-! ## What operations keep -/

section Keeping

variable {holds : Value → Prop} (all : ∀ x ∈ w, holds x)
include all

theorem keeps_change {f : Value → Value × Option Refusal} (keeps : ∀ x, holds x → holds (f x).1) :
    ∀ x ∈ (change w place f).1, holds x := by
  unfold change
  split
  next y at_ =>
    intro x member
    rcases List.mem_or_eq_of_mem_set member with old | rfl
    · exact all x old
    · exact keeps y (all y (List.mem_of_getElem? at_))
  next => exact all

theorem keeps_add {result : Except Refusal Value} (given : ∀ x, result = .ok x → holds x) :
    ∀ x ∈ (add w result).1, holds x := by
  cases result with
  | ok y => exact List.forall_mem_append.mpr ⟨all, List.forall_mem_singleton.mpr (given y rfl)⟩
  | error => exact all

theorem holds_valueAt (at_ : valueAt w place = .ok x) : holds x := by
  unfold valueAt at at_
  split at at_
  next here => exact Except.ok.inj at_ ▸ all _ (List.mem_of_getElem? here)
  next => cases at_

theorem holds_builderAt {b : NetworkBuilder} (at_ : builderAt w place = .ok b) :
    holds (.builder b) := by
  unfold builderAt at at_
  split at at_
  next here => exact Except.ok.inj at_ ▸ all _ (List.mem_of_getElem? here)
  next => cases at_

theorem holds_networkAt {n : Network} (at_ : networkAt w place = .ok n) : holds (.network n) := by
  unfold networkAt at at_
  split at at_
  next here => exact Except.ok.inj at_ ▸ all _ (List.mem_of_getElem? here)
  next => cases at_

theorem holds_methodAt {m : Method} (at_ : methodAt w place = .ok m) : holds (.method m) := by
  unfold methodAt at at_
  split at at_
  next here => exact Except.ok.inj at_ ▸ all _ (List.mem_of_getElem? here)
  next => cases at_

end Keeping

theorem holds_foldl_perform {holds : Value → Prop}
    (keeps : ∀ w op, (∀ x ∈ w, holds x) → ∀ x ∈ (perform w op).1, holds x) (ops : List Operation)
    (all : ∀ x ∈ w, holds x) : ∀ x ∈ ops.foldl (fun w op => (perform w op).1) w, holds x := by
  induction ops generalizing w with
  | nil => exact all
  | cons op ops ih => exact ih (keeps w op all)

theorem holds_obtained {holds : Value → Prop}
    (keeps : ∀ w op, (∀ x ∈ w, holds x) → ∀ x ∈ (perform w op).1, holds x) (ops : List Operation) :
    ∀ x ∈ obtained ops, holds x :=
  holds_foldl_perform keeps ops fun _ member => absurd member List.not_mem_nil

/-! ## Validity -/

def Value.Valid : Value → Prop
  | .validator v => v.Valid
  | .builder b => b.Valid
  | .network n => n.Valid
  | .method m => m.template.Valid

namespace Value

theorem Valid.addTask (valid : x.Valid) (t : Task) : (x.addTask t).1.Valid := by
  cases x with
  | validator v => exact Validator.Valid.addTask valid t.id
  | builder b => exact NetworkBuilder.Valid.addTask valid t
  | network | method => exact valid

theorem Valid.addConstraint (valid : x.Valid) (c : Constraint) : (x.addConstraint c).1.Valid := by
  cases x with
  | validator v => exact Validator.Valid.addConstraint valid c
  | builder b => exact NetworkBuilder.Valid.addConstraint valid c
  | network | method => exact valid

theorem Valid.apply (valid : x.Valid) (s : Substitution) : (x.apply s).1.Valid := by
  cases x with
  | validator v => exact Validator.Valid.apply valid s
  | builder b => exact NetworkBuilder.Valid.apply valid s
  | network | method => exact valid

theorem Valid.replace (valid : x.Valid) (old : TaskId) {new : Network} (formed : new.WellFormed) :
    (x.replace old new).1.Valid := by
  cases x with
  | validator v => exact Validator.Valid.replace valid old new
  | builder b => exact NetworkBuilder.Valid.replace valid old formed
  | network | method => exact valid

end Value

theorem valid_perform (w : List Value) (op : Operation) (valid : ∀ x ∈ w, x.Valid) :
    ∀ x ∈ (perform w op).1, x.Valid := by
  cases op with
  | newValidator => exact keeps_add valid fun _ given => Except.ok.inj given ▸ Validator.valid_empty
  | newBuilder => exact keeps_add valid fun _ given => Except.ok.inj given ▸ NetworkBuilder.valid_empty
  | emptyNetwork => exact keeps_add valid fun _ given => Except.ok.inj given ▸ Network.valid_empty
  | newMethod name pattern template =>
      refine keeps_add valid fun x given => ?_
      obtain ⟨n, at_, rfl⟩ := map_eq_ok.mp given
      exact holds_networkAt valid at_
  | clone place => exact keeps_add valid fun x given => holds_valueAt valid given
  | addTask place t => exact keeps_change valid fun _ valid => valid.addTask t
  | addConstraint place c => exact keeps_change valid fun _ valid => valid.addConstraint c
  | apply place s => exact keeps_change valid fun _ valid => valid.apply s
  | replace place old new =>
      simp only [perform]
      cases given : networkAt w new with
      | error => exact valid
      | ok n =>
          have formed : n.Valid := holds_networkAt valid given
          exact keeps_change valid fun _ valid => valid.replace old formed.toWellFormed
  | validatorOf builder =>
      refine keeps_add valid fun x given => ?_
      obtain ⟨b, at_, rfl⟩ := map_eq_ok.mp given
      exact NetworkBuilder.Valid.validator (holds_builderAt valid at_)
  | copy network =>
      refine keeps_add valid fun x given => ?_
      obtain ⟨n, at_, rfl⟩ := map_eq_ok.mp given
      exact NetworkBuilder.valid_copy (holds_networkAt valid at_)
  | build builder =>
      refine keeps_add valid fun x given => ?_
      obtain ⟨b, at_, rfl⟩ := map_eq_ok.mp given
      exact NetworkBuilder.Valid.build (holds_builderAt valid at_)
  | applied network s =>
      refine keeps_add valid fun x given => ?_
      obtain ⟨n, at_, rfl⟩ := map_eq_ok.mp given
      exact Network.Valid.apply (holds_networkAt valid at_) s
  | replaced network old new =>
      refine keeps_add valid fun x given => ?_
      obtain ⟨n, at_, given⟩ := bind_eq_ok.mp given
      obtain ⟨new, new_, given⟩ := bind_eq_ok.mp given
      obtain ⟨next, done, given⟩ := bind_eq_ok.mp given
      have valid' : n.Valid := holds_networkAt valid at_
      have formed : new.Valid := holds_networkAt valid new_
      exact Except.ok.inj given ▸
        valid'.replace formed.toWellFormed (ok_of_mapError done)
  | templateOf method =>
      refine keeps_add valid fun x given => ?_
      obtain ⟨m, at_, rfl⟩ := map_eq_ok.mp given
      exact holds_methodAt valid at_
  | reissue network supply =>
      refine keeps_add valid fun x given => ?_
      obtain ⟨n, at_, rfl⟩ := map_eq_ok.mp given
      exact Network.Valid.reissued (holds_networkAt valid at_) supply
  | standardizeApart method supply =>
      refine keeps_add valid fun x given => ?_
      obtain ⟨m, at_, rfl⟩ := map_eq_ok.mp given
      exact Method.valid_standardizeApart (holds_methodAt valid at_) supply
  | decompose s network t method supply =>
      refine keeps_add valid fun x given => ?_
      obtain ⟨n, at_, given⟩ := bind_eq_ok.mp given
      obtain ⟨m, -, given⟩ := bind_eq_ok.mp given
      obtain ⟨next, done, given⟩ := bind_eq_ok.mp given
      have formed : n.Valid := holds_networkAt valid at_
      exact Except.ok.inj given ▸
        formed.toWellFormed.valid_decompose (Prod.ext (ok_of_mapError done) rfl)

theorem valid_obtained (ops : List Operation) : ∀ x ∈ obtained ops, x.Valid :=
  holds_obtained valid_perform ops

/-- Whatever operations are carried out, the constraints of every validator, builder and network
that is obtained are about its own tasks, and its precedences close no cycle. -/
theorem obtained_closed_acyclic (ops : List Operation) :
    (∀ v, .validator v ∈ obtained ops →
      (∀ c ∈ v.constraints, ∀ id ∈ c.references, id ∈ v.members) ∧ Acyclic {c | c ∈ v.constraints}) ∧
    (∀ b, .builder b ∈ obtained ops →
      (∀ c ∈ b.constraints, ∀ id ∈ c.references, id ∈ b.tasks) ∧ Acyclic {c | c ∈ b.constraints}) ∧
    (∀ n, .network n ∈ obtained ops →
      (∀ c ∈ n.constraints, ∀ id ∈ c.references, n.contains id = true) ∧
        Acyclic {c | c ∈ n.constraints}) := by
  refine ⟨fun v member => ?_, fun b member => ?_, fun n member => ?_⟩
  · have valid : v.Valid := valid_obtained ops _ member
    exact ⟨valid.closed, valid.acyclic⟩
  · have valid : b.Valid := valid_obtained ops _ member
    have built := valid.build
    exact ⟨fun c held id reference =>
      Std.ExtTreeMap.contains_iff_mem.mp (built.closed c held id reference), built.acyclic⟩
  · have valid : n.Valid := valid_obtained ops _ member
    exact ⟨valid.closed, valid.acyclic⟩

-- The second constraint is refused, and the builder keeps the first.
example :
    let there := (Task.newPrimitive "go" ["home"] ⟨1, 1⟩).1
    let back := (Task.newPrimitive "go" ["back"] ⟨2, 1⟩).1
    (obtained [.newBuilder, .addTask 0 there, .addTask 0 back,
      .addConstraint 0 (.precedence {there.id} {back.id}),
      .addConstraint 0 (.precedence {back.id} {there.id}), .build 0]).map
        (fun | .network n => n.constraints.toList | _ => []) =
      [[], [.precedence {there.id} {back.id}]] := by
  decide +kernel

end HtnPlanning.Workspace
