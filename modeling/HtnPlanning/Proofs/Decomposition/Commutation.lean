import HtnPlanning.Proofs.Decomposition.Hygiene
import HtnPlanning.Proofs.Decomposition.Order
import HtnPlanning.Proofs.Network.Spreading
import HtnPlanning.Samples.Juggling

namespace HtnPlanning

open Constraint (standIns standInsBoth)

namespace Network

/-! ## Two tasks replaced -/

structure ReplacedBoth (n : Network) (p q : TaskId) (new new' result : Network) : Prop where
  tasks : ∀ id t, result.find? id = some t ↔
    (id ≠ p ∧ id ≠ q ∧ n.find? id = some t) ∨ new.find? id = some t ∨ new'.find? id = some t
  constraints : ∀ d, d ∈ result.constraints ↔
    (∃ c ∈ n.constraints, d = c.spread (standInsBoth p new.ids q new'.ids) ∧
      (c.mentions p = true ∨ c.mentions q = true → d.Filled)) ∨
    d ∈ new.constraints ∨ d ∈ new'.constraints

namespace ReplacedBoth

variable {n new new' moved moved' result result' : Network} {p q : TaskId} {f : TaskId → TaskId}

theorem symm (replaced : n.ReplacedBoth p q new new' result) (different : p ≠ q) :
    n.ReplacedBoth q p new' new result where
  tasks id t := by
    rw [replaced.tasks, ← and_assoc, and_comm (a := id ≠ p), and_assoc, or_comm (a := new.find? _ = _)]
  constraints d := by
    simp only [replaced.constraints, Constraint.standInsBoth_comm different,
      or_comm (a := d ∈ new.constraints), or_comm (a := Constraint.mentions _ p = true)]

theorem contains (replaced : n.ReplacedBoth p q new new' result) {id : TaskId}
    (member : result.contains id = true) :
    n.contains id = true ∨ new.contains id = true ∨ new'.contains id = true := by
  simp only [contains_iff] at member ⊢
  obtain ⟨t, found⟩ := member
  rcases (replaced.tasks id t).mp found with ⟨-, -, kept⟩ | own | own
  exacts [.inl ⟨t, kept⟩, .inr (.inl ⟨t, own⟩), .inr (.inr ⟨t, own⟩)]

theorem renamed (first : n.ReplacedBoth p q new new' result)
    (second : n.ReplacedBoth p q moved moved' result') (formed : n.WellFormed)
    (fixes : ∀ id, n.contains id = true → f id = id) (renamed : Renamed f new moved)
    (renamed' : Renamed f new' moved') (injective : Set.InjOn f {id | result.contains id = true}) :
    Renamed f result result' where
  injective := injective
  tasks id t := by
    rw [second.tasks, renamed.tasks, renamed'.tasks]
    constructor
    · rintro (⟨otherP, otherQ, found⟩ | ⟨source, u, found, same, rfl⟩ | ⟨source, u, found, same, rfl⟩)
      · refine ⟨id, t, (first.tasks id t).mpr (.inl ⟨otherP, otherQ, found⟩),
          fixes id (contains_iff.mpr ⟨t, found⟩), ?_⟩
        rw [← formed.keyed found]
      · exact ⟨source, u, (first.tasks source u).mpr (.inr (.inl found)), same, rfl⟩
      · exact ⟨source, u, (first.tasks source u).mpr (.inr (.inr found)), same, rfl⟩
    · rintro ⟨source, u, found, same, rfl⟩
      rcases (first.tasks source u).mp found with ⟨otherP, otherQ, kept⟩ | own | own
      · obtain rfl : source = id := (fixes source (contains_iff.mpr ⟨u, kept⟩)).symm.trans same
        obtain rfl := formed.keyed kept
        exact .inl ⟨otherP, otherQ, kept⟩
      · exact .inr (.inl ⟨source, u, own, same, rfl⟩)
      · exact .inr (.inr ⟨source, u, own, same, rfl⟩)
  constraints d := by
    have spread {c : Constraint} (held : c ∈ n.constraints) :
        (c.spread (standInsBoth p new.ids q new'.ids)).rename f =
          c.spread (standInsBoth p moved.ids q moved'.ids) := by
      -- The tasks of the network keep their names, so only the new ones are renamed.
      rw [Constraint.rename_spread]
      refine Constraint.spread_congr fun id reference => ?_
      unfold standInsBoth
      rw [apply_ite (TaskSet.image f), apply_ite (TaskSet.image f), renamed.ids, renamed'.ids,
        TaskSet.image_eq_bind, TaskSet.image_eq_bind, TaskSet.image_eq_bind, TaskSet.bind_singleton,
        fixes id (formed.closed c held id reference)]
    simp only [second.constraints, first.constraints, renamed.constraints, renamed'.constraints]
    constructor
    · rintro (⟨c, held, rfl, filled⟩ | ⟨c, own, rfl⟩ | ⟨c, own, rfl⟩)
      · rw [← spread held] at filled ⊢
        exact ⟨_, .inl ⟨c, held, rfl, fun mentioned => Constraint.filled_rename.mp (filled mentioned)⟩, rfl⟩
      · exact ⟨c, .inr (.inl own), rfl⟩
      · exact ⟨c, .inr (.inr own), rfl⟩
    · rintro ⟨e, ⟨c, held, rfl, filled⟩ | own | own, rfl⟩
      · exact .inl ⟨c, held, spread held,
          fun mentioned => Constraint.filled_rename.mpr (filled mentioned)⟩
      · exact .inr (.inl ⟨_, own, rfl⟩)
      · exact .inr (.inr ⟨_, own, rfl⟩)

end ReplacedBoth

/-! ## Two tasks decomposed -/

section Free

variable {n between result : Network} {s s' : Substitution} {t u : Task} {m m' : Method}
  {supply supply' after after' : Supply} {v : Variable}

theorem mem_varList_apply : v ∈ (n.apply s).varList ↔ ∃ w ∈ n.varList, s.image w = .var v := by
  simp only [mem_varList, mem_taskList, find?_apply, Option.map_eq_some_iff, mem_constraints_apply]
  constructor
  · rintro (⟨-, ⟨id, t, found, rfl⟩, inTask⟩ | ⟨-, ⟨c, held, rfl⟩, inCondition⟩)
    · obtain ⟨w, own, image⟩ := Task.mem_varList_apply.mp inTask
      exact ⟨w, .inl ⟨t, ⟨id, found⟩, own⟩, image⟩
    · obtain ⟨w, own, image⟩ := Constraint.mem_varList_apply.mp inCondition
      exact ⟨w, .inr ⟨c, held, own⟩, image⟩
  · rintro ⟨w, ⟨t, ⟨id, found⟩, own⟩ | ⟨c, held, own⟩, image⟩
    · exact .inl ⟨_, ⟨id, t, found, rfl⟩, Task.mem_varList_apply.mpr ⟨w, own, image⟩⟩
    · exact .inr ⟨_, ⟨c, held, rfl⟩, Constraint.mem_varList_apply.mpr ⟨w, own, image⟩⟩

variable (template : m.template.Valid) (free : ∀ v ∈ n.varList, s.get? v = none)
include template free

theorem mem_varList_of_free (done : n.decompose s t m supply = (.ok between, after))
    (known : v ∈ between.varList) : v ∈ n.varList ∨ v ∈ (m.template.apply s).varList := by
  obtain ⟨w, inNetwork | own, image⟩ := mem_varList_of_decompose template done known
  · rw [Substitution.image_of_free (free w inNetwork), Term.var.injEq] at image
    exact .inl (image ▸ inNetwork)
  · exact .inr (mem_varList_apply.mpr ⟨w, own, image⟩)

theorem Fresh.decomposed_of_free (fresh : n.Fresh m supply)
    (done : n.decompose s t m supply = (.ok between, after)) :
    (∀ id v, between.find? id = some v ↔
      (id ≠ t.id ∧ n.find? id = some v) ∨ (subtasks m s supply).find? id = some v) ∧
    ∀ d, d ∈ between.constraints ↔ (∃ c ∈ n.constraints, c.Fans t.id (subtasks m s supply).ids d) ∨
      d ∈ (subtasks m s supply).constraints := by
  obtain ⟨sameTasks, sameConstraints⟩ := subst_eq_self free
  obtain ⟨tasks, constraints⟩ := template.decomposed fresh done
  refine ⟨fun id v => ?_, fun d => ?_⟩
  · have kept : (∃ v', n.find? id = some v' ∧ v = v'.apply s) ↔ n.find? id = some v := by
      constructor
      · rintro ⟨v', found, rfl⟩
        rw [sameTasks v' (mem_taskList.mpr ⟨id, found⟩), found]
      · intro found
        exact ⟨v, found, (sameTasks v (mem_taskList.mpr ⟨id, found⟩)).symm⟩
    rw [tasks, find?_subtasks, kept]
  · rw [constraints, ids_subtasks, template.mem_constraints_subtasks]
    refine or_congr_left (exists_congr fun c => and_congr_right fun held => ?_)
    rw [sameConstraints c held]

theorem Fresh.replacedBoth (template' : m'.template.Valid)
    (free' : ∀ v, v ∈ n.varList ∨ v ∈ (m.template.apply s).varList → s'.get? v = none)
    (fresh : n.Fresh m supply) (freshBetween : between.Fresh m' supply')
    (member : n.contains u.id = true) (different : t.id ≠ u.id)
    (done : n.decompose s t m supply = (.ok between, after))
    (done' : between.decompose s' u m' supply' = (.ok result, after')) :
    n.ReplacedBoth t.id u.id (subtasks m s supply) (subtasks m' s' supply') result := by
  obtain ⟨tasks, constraints⟩ := fresh.decomposed_of_free template free done
  obtain ⟨tasks', constraints'⟩ := freshBetween.decomposed_of_free template'
    (fun v known => free' v (mem_varList_of_free template free done known)) done'
  have own : (subtasks m s supply).Valid := (template.apply s).reissued supply
  have outside : u.id ∉ (subtasks m s supply).ids := by
    rw [mem_ids, fresh.not_issued member]
    exact Bool.false_ne_true
  constructor
  · intro id w
    rw [tasks', tasks]
    constructor
    · rintro (⟨otherU, ⟨otherT, kept⟩ | first⟩ | second)
      exacts [.inl ⟨otherT, otherU, kept⟩, .inr (.inl first), .inr (.inr second)]
    · rintro (⟨otherT, otherU, kept⟩ | first | second)
      · exact .inl ⟨otherU, .inl ⟨otherT, kept⟩⟩
      · have inside : id ∈ (subtasks m s supply).ids := mem_ids.mpr (contains_iff.mpr ⟨w, first⟩)
        exact .inl ⟨fun same => outside (same ▸ inside), .inr first⟩
      · exact .inr second
  · intro d
    -- What the first template brings in is not on the second task, so it stays as it is.
    have absent {c : Constraint} (held : c ∈ (subtasks m s supply).constraints) :
        c.mentions u.id = false := by
      rw [← Bool.not_eq_true, Constraint.mentions_iff, ← Constraint.mem_references]
      exact fun reference => outside (mem_ids.mpr (own.closed c held u.id reference))
    simp only [constraints', constraints, ← Constraint.fans_fans different outside]
    constructor
    · rintro (⟨e, ⟨c, held, fans⟩ | first, fans'⟩ | second)
      · exact .inl ⟨c, held, e, fans, fans'⟩
      · obtain rfl := (Constraint.Fans.of_not_mentions (absent first)).mp fans'
        exact .inr (.inl first)
      · exact .inr (.inr second)
    · rintro (⟨c, held, e, fans, fans'⟩ | first | second)
      · exact .inl ⟨e, .inl ⟨c, held, fans⟩, fans'⟩
      · exact .inl ⟨d, .inr first, (Constraint.Fans.of_not_mentions (absent first)).mpr rfl⟩
      · exact .inr second

end Free

/-! ## New numbers -/

def Vacant (n : Network) (supply : Supply) (count : Nat) : Prop :=
  ∀ k, supply.task ≤ k → k < supply.task + count → n.contains ⟨k⟩ = false

def crossed (n : Network) (supply supply' : Supply) (first second : Nat) (id : TaskId) : TaskId :=
  if n.contains id then id
  else if id.number < supply.task + first then ⟨supply'.task + second + (id.number - supply.task)⟩
  else ⟨supply'.task + (id.number - (supply.task + first))⟩

section Numbers

variable {n : Network} {supply supply' : Supply} {first second k : Nat} {id : TaskId}

theorem crossed_of_contains (known : n.contains id = true) :
    n.crossed supply supply' first second id = id :=
  if_pos known

theorem crossed_of_new (absent : n.contains id = false) : n.crossed supply supply' first second id =
    if id.number < supply.task + first then ⟨supply'.task + second + (id.number - supply.task)⟩
    else ⟨supply'.task + (id.number - (supply.task + first))⟩ := by
  simp [crossed, absent]

theorem crossed_first (vacant : n.Vacant supply (first + second)) (inside : k < first) :
    n.crossed supply supply' first second ⟨supply.task + k⟩ = ⟨supply'.task + second + k⟩ := by
  rw [crossed_of_new (vacant _ (by omega) (by omega))]
  simp [inside]

theorem crossed_second (vacant : n.Vacant supply (first + second)) (inside : k < second) :
    n.crossed supply supply' first second ⟨supply.task + first + k⟩ = ⟨supply'.task + k⟩ := by
  rw [crossed_of_new (vacant _ (by omega) (by omega))]
  simp

variable (vacant : n.Vacant supply' (first + second))
include vacant

theorem contains_crossed (known : n.contains id = true ∨
      supply.task ≤ id.number ∧ id.number < supply.task + (first + second)) :
    n.contains (n.crossed supply supply' first second id) = n.contains id := by
  cases old : n.contains id with
  | true => rw [crossed_of_contains old, old]
  | false =>
      obtain ⟨above, below⟩ := known.resolve_left (by simp [old])
      rw [crossed_of_new old]
      split
      · exact vacant _ (by omega) (by omega)
      · exact vacant _ (by omega) (by omega)

theorem injOn_crossed : Set.InjOn (n.crossed supply supply' first second) {id | n.contains id = true ∨
    supply.task ≤ id.number ∧ id.number < supply.task + (first + second)} := by
  intro p knownP q knownQ same
  have keeps := congrArg n.contains same
  rw [contains_crossed vacant knownP, contains_crossed vacant knownQ] at keeps
  cases old : n.contains p with
  | true => rwa [crossed_of_contains old, crossed_of_contains (keeps ▸ old)] at same
  | false =>
      have newQ : n.contains q = false := keeps ▸ old
      obtain ⟨_, _⟩ := knownP.resolve_left (by simp [old])
      obtain ⟨_, _⟩ := knownQ.resolve_left (by simp [newQ])
      rw [crossed_of_new old, crossed_of_new newQ] at same
      refine congrArg TaskId.mk (?_ : p.number = q.number)
      split_ifs at same <;> (rw [TaskId.mk.injEq] at same; omega)

end Numbers

section Issued

variable {n between : Network} {s : Substitution} {t : Task} {m : Method} {supply supply' after : Supply}
  {f : TaskId → TaskId} {id : TaskId} {count : Nat}

theorem number_issuedIds (issued : id ∈ n.issuedIds supply) :
    supply.task ≤ id.number ∧ id.number < supply.task + n.size := by
  obtain ⟨source, known, rfl⟩ := mem_issuedIds.mp issued
  exact ⟨Nat.le_add_right .., issued_number_lt supply known⟩

theorem Vacant.decompose (vacant : n.Vacant supply (m.template.size + count))
    (done : n.decompose s t m supply = (.ok between, after)) : between.Vacant after count := by
  obtain ⟨-, rfl, -⟩ := decompose_sound done
  intro k above below
  simp only at above below
  rw [← Bool.not_eq_true, contains_decompose done]
  rintro (issued | ⟨-, known⟩)
  · have bound : k < supply.task + m.template.size := (number_issuedIds issued).2
    omega
  · have absent := vacant k (by omega) (by omega)
    exact Bool.false_ne_true (absent.symm.trans known)

theorem Valid.renamed_subtasks (template : m.template.Valid)
    (maps : ∀ k < m.template.size, f ⟨supply.task + k⟩ = ⟨supply'.task + k⟩) :
    Renamed f (subtasks m s supply) (subtasks m s supply') := by
  have applied := template.apply s
  refine (applied.renamed_reissued supply.enough_unbounded).of_common
    (applied.renamed_reissued supply'.enough_unbounded)
    applied.toWellFormed fun id known => ?_
  rw [contains_apply] at known
  rw [issued_apply, issued_apply]
  exact maps _ (Nat.lt_of_add_lt_add_left (issued_number_lt supply known))

end Issued

end Network

/-! ## Either order -/

structure Expansion where
  substitution : Substitution
  task : Task
  method : Method

namespace Expansion

def template (x : Expansion) : Network :=
  x.method.template.apply x.substitution

/-- The substitution of an expansion has to do neither with a network nor with what another
expansion brings into it. -/
def Spares (x : Expansion) (n : Network) (y : Expansion) : Prop :=
  ∀ v, v ∈ n.varList ∨ v ∈ y.template.varList → x.substitution.get? v = none

def issued (x : Expansion) (supply : Supply) : Supply :=
  { supply with task := supply.task + x.method.template.size }

end Expansion

namespace Network

def expand : Network → List Expansion → Supply → Except ReplacementError Network × Supply
  | n, [], supply => (.ok n, supply)
  | n, x :: rest, supply =>
    match n.decompose x.substitution x.task x.method supply with
    | (.ok next, supply) => next.expand rest supply
    | refused => refused

structure Independent (n : Network) (x y : Expansion) : Prop where
  templates : x.method.template.Valid ∧ y.method.template.Valid
  members : x.task ∈ n.taskList ∧ y.task ∈ n.taskList
  different : x.task ≠ y.task
  spares : x.Spares n y ∧ y.Spares n x

variable {n : Network} {x y : Expansion} {supply supply' : Supply}

theorem Independent.symm (independent : n.Independent x y) : n.Independent y x where
  templates := independent.templates.symm
  members := independent.members.symm
  different := independent.different.symm
  spares := independent.spares.symm

theorem Independent.id_ne (independent : n.Independent x y) (formed : n.WellFormed) :
    x.task.id ≠ y.task.id := fun same =>
  independent.different (formed.eq_of_id independent.members.1 independent.members.2 same)

theorem Valid.expand_isOk (valid : n.Valid) (independent : n.Independent x y)
    (vacant : n.Vacant supply (x.method.template.size + y.method.template.size)) :
    ∃ result, (n.expand [x, y] supply).1 = .ok result ∧ result.WellFormed ∧
      n.ReplacedBoth x.task.id y.task.id (subtasks x.method x.substitution supply)
        (subtasks y.method y.substitution (x.issued supply)) result := by
  have different := independent.id_ne valid.toWellFormed
  obtain ⟨⟨template, template'⟩, ⟨listed, listed'⟩, -, spares, spares'⟩ := independent
  have member := valid.contains_of_mem listed'
  have fresh : n.Fresh x.method supply := fun k above below => vacant k above (by omega)
  obtain ⟨between, done⟩ : ∃ between, n.decompose x.substitution x.task x.method supply =
    (.ok between, x.issued supply) := valid.decompose_isOk template fresh (valid.contains_of_mem listed)
  have freshBetween : between.Fresh y.method (x.issued supply) := vacant.decompose done
  have kept : between.contains y.task.id = true :=
    (contains_decompose done).mpr (.inr ⟨different.symm, member⟩)
  have formed := valid.toWellFormed.decompose done
  obtain ⟨result, done'⟩ := (valid.toWellFormed.valid_decompose done).decompose_isOk
    (s := y.substitution) template' freshBetween kept
  have both := fresh.replacedBoth template (fun v known => spares v (.inl known)) template' spares'
    freshBetween member different done done'
  exact ⟨result, by simp only [expand, done, done'], formed.decompose done', both⟩

/-- Two independent expansions can be made in either order, with one result: there is a one-to-one
renaming of the new occurrences that turns the tasks and the constraints of the one network into
those of the other. -/
theorem Valid.expand_comm (valid : n.Valid) (independent : n.Independent x y)
    (vacant : n.Vacant supply (x.method.template.size + y.method.template.size))
    (vacant' : n.Vacant supply' (x.method.template.size + y.method.template.size)) :
    ∃ result result' f, (n.expand [x, y] supply).1 = .ok result ∧
      (n.expand [y, x] supply').1 = .ok result' ∧
      Renamed f result result' ∧ Set.InjOn (·.rename f) result.held ∧
      (∀ id, n.contains id = true → f id = id) ∧
      ∀ id, result.contains id = true → n.contains (f id) = n.contains id := by
  obtain ⟨result, done, formed, both⟩ := valid.expand_isOk independent vacant
  obtain ⟨result', done', -, both'⟩ := valid.expand_isOk independent.symm (Nat.add_comm _ _ ▸ vacant')
  let f := n.crossed supply supply' x.method.template.size y.method.template.size
  have fixes (id : TaskId) (known : n.contains id = true) : f id = id := crossed_of_contains known
  have maps : Renamed f (subtasks x.method x.substitution supply)
      (subtasks x.method x.substitution (y.issued supply')) :=
    independent.templates.1.renamed_subtasks fun k inside => crossed_first vacant inside
  have maps' : Renamed f (subtasks y.method y.substitution (x.issued supply))
      (subtasks y.method y.substitution supply') :=
    independent.templates.2.renamed_subtasks fun k inside => crossed_second vacant inside
  have range (id : TaskId) (member : result.contains id = true) : n.contains id = true ∨
      supply.task ≤ id.number ∧
        id.number < supply.task + (x.method.template.size + y.method.template.size) := by
    refine (both.contains member).imp_right fun new => ?_
    simp only [← mem_ids, ids_subtasks] at new
    rcases new with first | second
    · have bounds := number_issuedIds first
      omega
    · have bounds := number_issuedIds second
      simp only [Expansion.issued] at bounds
      omega
  have renamed : Renamed f result result' :=
    both.renamed (both'.symm (independent.symm.id_ne valid.toWellFormed)) valid.toWellFormed fixes maps
      maps' ((injOn_crossed vacant').mono range)
  exact ⟨result, result', f, done, done', renamed, renamed.injOn_rename formed, fixes,
    fun id member => contains_crossed vacant' (range id member)⟩

-- The constraints are on both tasks, on one side and on opposite ones. Nothing comes in the place of
-- the second task.
theorem Valid.expand_comm_swap :
    let swap (give take : String) (k : Nat) := (Task.newCompound "swap" [give, take] ⟨k, 1⟩).1
    let n := ofLists [swap "a" "b" 1, swap "b" "a" 2] [.precedence {⟨1⟩} {⟨2⟩},
      .before {⟨1⟩, ⟨2⟩} (.holds "have" ["a"]), .after {⟨1⟩, ⟨2⟩} (.holds "have" ["a"])]
    let direct := (Juggling.swapMethod "swap-direct" "?x" "?y" ⟨3, 1⟩).1
    let x : Expansion :=
      { substitution := .ofList [(⟨"x", 0⟩, .const ⟨"a"⟩), (⟨"y", 0⟩, .const ⟨"b"⟩)]
        task := swap "a" "b" 1, method := direct }
    let y : Expansion :=
      { substitution := ∅, task := swap "b" "a" 2
        method := { name := "skip", pattern := swap "?x" "?y" 2, template := ∅ } }
    n.Valid ∧ n.Independent x y ∧
      n.Vacant ⟨3, 1⟩ (x.method.template.size + y.method.template.size) ∧
      n.Vacant ⟨8, 1⟩ (x.method.template.size + y.method.template.size) ∧
      ∃ result result' f, (n.expand [x, y] ⟨3, 1⟩).1 = .ok result ∧
        (n.expand [y, x] ⟨8, 1⟩).1 = .ok result' ∧ Renamed f result result' := by
  intro swap n direct x y
  have valid : n.Valid := valid_ofLists (by decide) (by decide) (by decide)
  have template : x.method.template.Valid := Juggling.valid_template
  have ground : n.varList = [] ∧ x.template.varList = [] ∧ y.template.varList = [] := by
    decide +kernel
  have independent : n.Independent x y := by
    refine ⟨⟨template, valid_empty⟩, by decide, by decide, fun v known => ?_, fun v known => ?_⟩
    · simp [ground] at known
    · simp [ground] at known
  have keys : n.tasks.keys = [⟨1⟩, ⟨2⟩] := by decide
  have vacant (start : Nat) (above : 3 ≤ start) :
      n.Vacant ⟨start, 1⟩ (x.method.template.size + y.method.template.size) := by
    intro k from_ _
    have new : 3 ≤ k := Nat.le_trans above from_
    rw [← Bool.not_eq_true, ← mem_keys, keys]
    simp
    omega
  obtain ⟨result, result', f, done, done', renamed, -⟩ :=
    valid.expand_comm independent (vacant 3 (by decide)) (vacant 8 (by decide))
  exact ⟨valid, independent, vacant 3 (by decide), vacant 8 (by decide), result, result', f, done, done',
    renamed⟩

end Network

end HtnPlanning
