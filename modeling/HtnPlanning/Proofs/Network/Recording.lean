import HtnPlanning.Proofs.Workspace

namespace HtnPlanning

namespace Validator

variable {v next : Validator} {c : Constraint} {p : TaskId}

inductive Recorded : Validator → Prop where
  | start (members : TaskSet) : Recorded { (∅ : Validator) with members }
  | addTask {v : Validator} (recorded : Recorded v) (id : TaskId) : Recorded (v.addTask id)
  | record {v : Validator} (recorded : Recorded v) (c : Constraint) : Recorded (v.record c)

theorem Recorded.foldl (recorded : v.Recorded) (cs : List Constraint) :
    (cs.foldl Validator.record v).Recorded := by
  induction cs generalizing v with
  | nil => exact recorded
  | cons c cs ih => exact ih (recorded.record c)

theorem Recorded.addConstraint (recorded : v.Recorded) (c : Constraint) :
    (v.addConstraint c).1.Recorded := by
  unfold Validator.addConstraint
  split
  next => exact recorded.record c
  next => exact recorded

theorem Recorded.merge (recorded : v.Recorded) (merged : v.merge c = .ok next) : next.Recorded := by
  unfold Validator.merge at merged
  split at merged
  case h_1 => exact Except.ok.inj merged ▸ recorded.record c
  case h_2 => exact Except.ok.inj merged ▸ recorded
  case h_3 => cases merged

theorem Recorded.foldlM_merge (recorded : v.Recorded) (cs : List Constraint)
    (merged : cs.foldlM Validator.merge v = .ok next) : next.Recorded :=
  foldlM_keeps (fun _ _ _ recorded merged => recorded.merge merged) recorded merged

theorem recorded_apply (v : Validator) (s : Substitution) : (v.apply s).Recorded :=
  (Recorded.start v.members).foldl _

theorem Recorded.replace (recorded : v.Recorded) (old : TaskId) (n : Network) :
    (v.replace old n).1.Recorded := by
  unfold Validator.replace
  split
  · dsimp only
    split
    next merged => exact (Recorded.start _).foldlM_merge _ merged
    next => exact recorded
  · exact recorded

theorem recorded_copy (n : Network) : (NetworkBuilder.copy n).validator.Recorded :=
  (Recorded.start n.ids).foldl _

theorem mem_keys_indexed {outgoing : Std.ExtTreeMap TaskId ConstraintSet} {earlier : TaskSet} :
    p ∈ indexed outgoing c earlier ↔ p ∈ outgoing ∨ p ∈ earlier := by
  have keys (ids : List TaskId) (index : Std.ExtTreeMap TaskId ConstraintSet) :
      p ∈ ids.foldl (fun (index : Std.ExtTreeMap TaskId ConstraintSet) id =>
          index.insert id ((index[id]?.getD (∅ : ConstraintSet)).insert c)) index ↔
        p ∈ index ∨ p ∈ ids := by
    induction ids generalizing index with
    | nil => simp
    | cons id ids ih =>
        rw [List.foldl_cons, ih, Std.ExtTreeMap.mem_insert, Std.LawfulEqOrd.compare_eq_iff_eq,
          List.mem_cons, eq_comm (a := id)]
        tauto
  rw [indexed, keys, Std.ExtTreeSet.mem_toList]

theorem Recorded.mem_outgoing (recorded : v.Recorded) :
    p ∈ v.outgoing ↔ ∃ c ∈ v.precedences, p ∈ c.first := by
  induction recorded with
  | start members =>
      change p ∈ (∅ : Std.ExtTreeMap TaskId ConstraintSet) ↔ ∃ c ∈ (∅ : ConstraintSet), p ∈ c.first
      simp
  | addTask _ _ ih => exact ih
  | @record v _ c ih =>
      cases c with
      | precedence earlier later =>
          simp only [Validator.record, mem_keys_indexed, ih, Std.ExtTreeSet.mem_insert,
            Std.LawfulEqOrd.compare_eq_iff_eq, or_and_right, exists_or, exists_eq_left', Constraint.first]
          exact or_comm
      | before | after | between => exact ih

structure InStep (v : Validator) : Prop where
  kinds : ∀ k, ∀ c ∈ v.ofKind k, c.kind = k
  indexed : ∀ p, p ∈ v.outgoing ↔
    ∃ earlier later, .precedence earlier later ∈ v.constraints ∧ p ∈ earlier
  entries : ∀ p entry, v.outgoing[p]? = some entry → ∀ c, c ∈ entry ↔
    ∃ earlier later, c = .precedence earlier later ∧ c ∈ v.constraints ∧ p ∈ earlier

theorem Consistent.mem_precedences (consistent : v.Consistent) : c ∈ v.precedences ↔
    ∃ earlier later, c = .precedence earlier later ∧ c ∈ v.constraints := by
  have held {c : Constraint} : c ∈ v.constraints ↔ c ∈ v.ofKind c.kind := consistent.mem_held
  constructor
  · intro member
    have kind := consistent.kinds .precedence c member
    cases c with
    | precedence earlier later => exact ⟨earlier, later, rfl, held.mpr member⟩
    | before | after | between => cases kind
  · rintro ⟨earlier, later, rfl, member⟩
    exact held.mp member

theorem Recorded.inStep (recorded : v.Recorded) (consistent : v.Consistent) : v.InStep where
  kinds := consistent.kinds
  indexed p := by
    rw [recorded.mem_outgoing]
    constructor
    · rintro ⟨c, member, first⟩
      obtain ⟨earlier, later, rfl, held⟩ := consistent.mem_precedences.mp member
      exact ⟨earlier, later, held, first⟩
    · rintro ⟨earlier, later, held, first⟩
      exact ⟨_, consistent.mem_precedences.mpr ⟨earlier, later, rfl, held⟩, first⟩
  entries p entry found c := by
    have members := consistent.indexed p c
    rw [found, Option.getD_some] at members
    rw [members, consistent.mem_precedences]
    constructor
    · rintro ⟨⟨earlier, later, rfl, held⟩, first⟩
      exact ⟨earlier, later, rfl, held, first⟩
    · rintro ⟨earlier, later, rfl, held, first⟩
      exact ⟨⟨earlier, later, rfl, held⟩, first⟩

end Validator

namespace NetworkBuilder

variable {b : NetworkBuilder} (recorded : b.validator.Recorded)
include recorded

theorem recorded_addConstraint (c : Constraint) : (b.addConstraint c).1.validator.Recorded := by
  have kept := recorded.addConstraint c
  unfold addConstraint
  generalize b.validator.addConstraint c = outcome at kept
  obtain ⟨v, _ | error⟩ := outcome <;> exact kept

theorem recorded_replace (old : TaskId) (n : Network) : (b.replace old n).1.validator.Recorded := by
  have kept := recorded.replace old n
  unfold replace
  generalize b.validator.replace old n = outcome at kept
  obtain ⟨v, _ | error⟩ := outcome <;> exact kept

end NetworkBuilder

namespace Workspace

variable {x : Value}

def Value.Recorded : Value → Prop
  | .validator v => v.Recorded
  | .builder b => b.validator.Recorded
  | .network _ => True
  | .method _ => True

namespace Value

theorem Recorded.addTask (recorded : x.Recorded) (t : Task) : (x.addTask t).1.Recorded := by
  cases x with
  | validator | builder => exact Validator.Recorded.addTask recorded t.id
  | network | method => trivial

theorem Recorded.addConstraint (recorded : x.Recorded) (c : Constraint) :
    (x.addConstraint c).1.Recorded := by
  cases x with
  | validator v => exact Validator.Recorded.addConstraint recorded c
  | builder b => exact NetworkBuilder.recorded_addConstraint recorded c
  | network | method => trivial

theorem recorded_apply (x : Value) (s : Substitution) : (x.apply s).1.Recorded := by
  cases x with
  | validator v => exact v.recorded_apply s
  | builder b => exact b.validator.recorded_apply s
  | network | method => trivial

theorem Recorded.replace (recorded : x.Recorded) (old : TaskId) (n : Network) :
    (x.replace old n).1.Recorded := by
  cases x with
  | validator v => exact Validator.Recorded.replace recorded old n
  | builder b => exact NetworkBuilder.recorded_replace recorded old n
  | network | method => trivial

end Value

theorem recorded_perform (w : List Value) (op : Operation) (recorded : ∀ x ∈ w, x.Recorded) :
    ∀ x ∈ (perform w op).1, x.Recorded := by
  cases op with
  | newValidator | newBuilder =>
      exact keeps_add recorded fun _ given => Except.ok.inj given ▸ Validator.Recorded.start ∅
  | emptyNetwork => exact keeps_add recorded fun _ given => Except.ok.inj given ▸ trivial
  | clone place => exact keeps_add recorded fun _ given => holds_valueAt recorded given
  | addTask place t => exact keeps_change recorded fun _ recorded => recorded.addTask t
  | addConstraint place c => exact keeps_change recorded fun _ recorded => recorded.addConstraint c
  | apply place s => exact keeps_change recorded fun x _ => x.recorded_apply s
  | replace place old new =>
      simp only [perform]
      cases networkAt w new with
      | error => exact recorded
      | ok n => exact keeps_change recorded fun _ recorded => recorded.replace old n
  | validatorOf builder =>
      refine keeps_add recorded fun x given => ?_
      obtain ⟨b, at_, rfl⟩ := map_eq_ok.mp given
      exact holds_builderAt recorded at_
  | copy network =>
      refine keeps_add recorded fun x given => ?_
      obtain ⟨n, -, rfl⟩ := map_eq_ok.mp given
      exact Validator.recorded_copy n
  | newMethod | build | applied | templateOf | reissue | standardizeApart =>
      refine keeps_add recorded fun x given => ?_
      obtain ⟨_, -, rfl⟩ := map_eq_ok.mp given
      trivial
  | replaced | decompose =>
      refine keeps_add recorded fun x given => ?_
      obtain ⟨_, -, given⟩ := bind_eq_ok.mp given
      obtain ⟨_, -, given⟩ := bind_eq_ok.mp given
      obtain ⟨_, -, given⟩ := bind_eq_ok.mp given
      exact Except.ok.inj given ▸ trivial

theorem recorded_obtained (ops : List Operation) : ∀ x ∈ obtained ops, x.Recorded :=
  holds_obtained recorded_perform ops

/-- Whatever operations are carried out, and whether they fail or not, the index of every validator
has exactly the precedences of its bucket, at each of their earlier tasks, and every builder has the
tasks and constraints of its validator, each task under its own identity. -/
theorem obtained_inStep (ops : List Operation) :
    (∀ v, .validator v ∈ obtained ops → v.InStep) ∧
    ∀ b, .builder b ∈ obtained ops → b.validator.InStep ∧
      (∀ c, c ∈ b.constraints ↔ ∃ k, c ∈ b.validator.ofKind k) ∧
      (∀ id, id ∈ b.tasks ↔ id ∈ b.validator.members) ∧
      ∀ (id : TaskId) (t : Task), b.tasks[id]? = some t → t.id = id := by
  refine ⟨fun v member => ?_, fun b member => ?_⟩
  · have valid : v.Valid := valid_obtained ops _ member
    have recorded : v.Recorded := recorded_obtained ops _ member
    exact recorded.inStep valid.toConsistent
  · have valid : b.Valid := valid_obtained ops _ member
    have recorded : b.validator.Recorded := recorded_obtained ops _ member
    refine ⟨recorded.inStep valid.consistent, fun c => ?_, fun id => (valid.members id).symm,
      fun id t found => valid.keyed found⟩
    rw [valid.constraints, Validator.mem_held_iff]

end Workspace

end HtnPlanning
