import HtnPlanning.Proofs.Network.Rewriting
import HtnPlanning.Proofs.Samples.Templates

namespace HtnPlanning.Network

variable {n result : Network} {s : Substitution} {t : Task} {m : Method} {supply supply' : Supply}

def issuedIds [Counters] (n : Network) (supply : Supply) : TaskSet :=
  n.ids.image (n.issued supply)

/-- A network is the exact result of replacing a task by the template of a method. -/
structure Decomposed (n : Network) (s : Substitution) (t : Task) (m : Method) (supply : Supply)
    (result : Network) : Prop where
  tasks : ∀ id u, result.find? id = some u ↔
    (id ≠ t.id ∧ ∃ v, n.find? id = some v ∧ u = v.apply s) ∨
      ∃ source v, m.template.find? source = some v ∧ m.template.issued supply source = id ∧
        u = { v.apply s with id := id }
  constraints : ∀ d, d ∈ result.constraints ↔
    (∃ c ∈ n.constraints, (c.apply s).Fans t.id (m.template.issuedIds supply) d) ∨
      ∃ c ∈ m.template.constraints, (c.apply s).rename (m.template.issued supply) = d

def subtasks [Counters] (m : Method) (s : Substitution) (supply : Supply) : Network :=
  ((m.template.apply s).reissued supply).1

theorem decompose_of_not_contains [Counters] (absent : n.contains t.id = false) :
    n.decompose s t m supply = (.error (.unknownTask t.id), supply) := by
  simp [decompose, absent]

theorem decompose_of_contains [Counters] (member : n.contains t.id = true) :
    n.decompose s t m supply =
      (match ((NetworkBuilder.copy n).apply s).replace t.id (subtasks m s supply) with
        | (b, none) => .ok b.build
        | (_, some error) => .error error,
      { supply with task := supply.task + m.template.size }) := by
  have next := supply_reissued (n := m.template.apply s) supply
  rw [size_apply] at next
  rw [decompose, if_pos member, subtasks]
  generalize (m.template.apply s).reissued supply = issued at next ⊢
  obtain ⟨fresh, after⟩ := issued
  obtain rfl : after = _ := next
  dsimp only
  rcases ((NetworkBuilder.copy n).apply s).replace t.id fresh with ⟨b, _ | error⟩ <;> rfl

theorem le_decompose [Counters] (n : Network) (s : Substitution) (t : Task) (m : Method)
    (supply : Supply) : supply ≤ (n.decompose s t m supply).2 := by
  cases member : n.contains t.id with
  | false =>
      rw [decompose_of_not_contains member]
      exact supply.le_refl
  | true =>
      rw [decompose_of_contains member]
      exact ⟨Nat.le_add_right .., Nat.le_refl _⟩

theorem decompose_sound [Counters] (done : n.decompose s t m supply = (.ok result, supply')) :
    n.contains t.id = true ∧ supply' = { supply with task := supply.task + m.template.size } ∧
      (∀ id, result.find? id = ((subtasks m s supply).find? id).or
        (if id = t.id then none else (n.find? id).map (·.apply s))) ∧
      (∀ d, d ∈ result.constraints ↔
        (∃ c ∈ n.constraints, (c.apply s).Fans t.id (subtasks m s supply).ids d) ∨
          d ∈ (subtasks m s supply).constraints) ∧
      (∀ d ∈ result.constraints, ∀ id ∈ d.references, result.contains id = true) ∧
      Acyclic result.held := by
  cases member : n.contains t.id with
  | false => simp [decompose_of_not_contains member] at done
  | true =>
      rw [decompose_of_contains member] at done
      obtain ⟨built, rfl⟩ := Prod.mk.inj done
      refine ⟨rfl, rfl, ?_⟩
      have before := (NetworkBuilder.coherent_copy n).apply s
      split at built
      next b replaced =>
        cases built
        obtain ⟨after, spec⟩ := before.replace replaced
        refine ⟨fun id => ?_, fun d => ?_, fun d held id reference => ?_, ?_⟩
        · refine (NetworkBuilder.getElem?_replace replaced id).trans ?_
          exact congrArg _ (congrArg (ite _ _) find?_apply)
        · rw [NetworkBuilder.build, after.constraints, spec.held]
          simp only [← before.constraints, (NetworkBuilder.coherent_copy n).mem_constraints_apply]
          refine or_congr ⟨?_, ?_⟩ Iff.rfl
          · rintro ⟨-, ⟨c, held, rfl⟩, fans⟩
            exact ⟨c, held, fans⟩
          · rintro ⟨c, held, fans⟩
            exact ⟨_, ⟨c, held, rfl⟩, fans⟩
        · have known := spec.closed d ((after.constraints d).mp held) id reference
          exact Std.ExtTreeMap.contains_iff_mem.mpr ((after.members id).mp known)
        · exact spec.acyclic.anti fun d => (after.constraints d).mp
      next => cases built

theorem WellFormed.decompose [Counters] (formed : n.WellFormed)
    (done : n.decompose s t m supply = (.ok result, supply')) : result.WellFormed where
  keyed := by
    intro id u found
    obtain ⟨-, -, lookup, -⟩ := decompose_sound done
    rw [lookup, Option.or_eq_some_iff] at found
    rcases found with issued | ⟨-, kept⟩
    · exact keyed_reissued issued
    · split at kept
      · cases kept
      · obtain ⟨v, original, rfl⟩ := Option.map_eq_some_iff.mp kept
        exact (formed.keyed original : v.id = id)
  closed := (decompose_sound done).2.2.2.2.1

theorem WellFormed.valid_decompose [Counters] (formed : n.WellFormed)
    (done : n.decompose s t m supply = (.ok result, supply')) : result.Valid where
  toWellFormed := formed.decompose done
  acyclic := (decompose_sound done).2.2.2.2.2

/-- No task of the network has an identity that is issued when a method is applied. -/
def Fresh [Counters] (n : Network) (m : Method) (supply : Supply) : Prop :=
  ∀ k, supply.task ≤ k → k < supply.task + m.template.size →
    n.contains ⟨Counters.number Counters.task k⟩ = false

theorem exists_of_find?_subtasks [Counters] {id : TaskId} {u : Task}
    (found : (subtasks m s supply).find? id = some u) :
    ∃ source v, m.template.find? source = some v ∧ u = { v.apply s with id := id } := by
  obtain ⟨source, t, own, rfl⟩ := exists_of_find?_reissued found
  obtain ⟨v, original, rfl⟩ := Option.map_eq_some_iff.mp (find?_apply ▸ own)
  exact ⟨source, v, original, rfl⟩

theorem find?_subtasks {id : TaskId} {u : Task} : (subtasks m s supply).find? id = some u ↔
    ∃ source v, m.template.find? source = some v ∧ m.template.issued supply source = id ∧
      u = { v.apply s with id := id } := by
  rw [subtasks, find?_reissued supply.enough_unbounded]
  simp only [find?_apply, issued_apply, Option.map_eq_some_iff]
  constructor
  · rintro ⟨source, -, ⟨v, found, rfl⟩, same, rfl⟩
    exact ⟨source, v, found, same, rfl⟩
  · rintro ⟨source, v, found, same, rfl⟩
    exact ⟨source, _, ⟨v, found, rfl⟩, same, rfl⟩

theorem contains_subtasks [Counters] {id : TaskId} : (subtasks m s supply).contains id = true ↔
    ∃ source, m.template.contains source = true ∧ m.template.issued supply source = id := by
  rw [subtasks, contains_reissued]
  simp only [contains_apply, issued_apply]

theorem ids_subtasks [Counters] : (subtasks m s supply).ids = m.template.issuedIds supply := by
  refine Std.ExtTreeSet.ext_mem fun id => ?_
  rw [mem_ids, contains_subtasks, issuedIds, TaskSet.mem_image]
  simp only [mem_ids]

theorem Fresh.not_issued [Counters] (fresh : n.Fresh m supply) {id : TaskId}
    (known : n.contains id = true) : (subtasks m s supply).contains id = false := by
  rw [← Bool.not_eq_true]
  intro issued
  obtain ⟨source, member, rfl⟩ := contains_subtasks.mp issued
  have absent := fresh _ (Nat.le_add_right ..) (Nat.add_lt_add_left (idxOf_lt_size member) _)
  exact Bool.false_ne_true (absent.symm.trans known)

theorem Fresh.mem_decompose [Counters] (fresh : n.Fresh m supply) (formed : n.WellFormed)
    (done : n.decompose s t m supply = (.ok result, supply')) {u : Task} (listed : u ∈ n.taskList)
    (other : u.id ≠ t.id) : u.apply s ∈ result.taskList := by
  obtain ⟨-, -, lookup, -⟩ := decompose_sound done
  have old : (subtasks m s supply).find? u.id = none :=
    find?_eq_none.mpr (fresh.not_issued (formed.contains_of_mem listed))
  refine mem_taskList.mpr ⟨u.id, ?_⟩
  rw [lookup, old, Option.none_or, if_neg other, formed.find?_of_mem listed, Option.map_some]

theorem Valid.mem_constraints_subtasks [Counters] (template : m.template.Valid) {c : Constraint} :
    c ∈ (subtasks m s supply).constraints ↔
      ∃ source ∈ m.template.constraints, (source.apply s).rename (m.template.issued supply) = c := by
  rw [subtasks, (template.apply s).mem_constraints_reissued supply, issued_apply]
  constructor
  · rintro ⟨applied, member, rfl⟩
    obtain ⟨source, held, rfl⟩ := mem_constraints_apply.mp member
    exact ⟨source, held, rfl⟩
  · rintro ⟨source, held, rfl⟩
    exact ⟨_, mem_constraints_apply.mpr ⟨source, held, rfl⟩, rfl⟩

theorem Valid.decompose_isOk_of_enough [Counters] (valid : n.Valid) (template : m.template.Valid)
    (enough : supply.Enough m.template.size) (fresh : n.Fresh m supply)
    (member : n.contains t.id = true) :
    ∃ result, n.decompose s t m supply =
      (.ok result, { supply with task := supply.task + m.template.size }) := by
  have built := (NetworkBuilder.valid_copy valid).apply s
  have issued : (subtasks m s supply).Valid :=
    (template.apply s).reissued_of_enough (by rwa [size_apply])
  have known {id : TaskId} : id ∈ ((NetworkBuilder.copy n).apply s).validator.members ↔
      n.contains id = true := by
    rw [built.members, ← Std.ExtTreeMap.contains_iff_mem, ← contains_apply (s := s)]
    exact Iff.rfl
  obtain ⟨next, replaced⟩ := Validator.replace_ok (known.mpr member) built.validator.closed
    built.validator.acyclic issued fun id inside => fresh.not_issued (known.mp inside)
  rw [decompose_of_contains member, NetworkBuilder.replace, replaced]
  exact ⟨_, rfl⟩

theorem Valid.decompose_isOk (valid : n.Valid) (template : m.template.Valid)
    (fresh : n.Fresh m supply) (member : n.contains t.id = true) :
    ∃ result, n.decompose s t m supply =
      (.ok result, { supply with task := supply.task + m.template.size }) :=
  valid.decompose_isOk_of_enough template supply.enough_unbounded fresh member

theorem Valid.decomposed (template : m.template.Valid) (fresh : n.Fresh m supply)
    (done : n.decompose s t m supply = (.ok result, supply')) :
    Decomposed n s t m supply result := by
  obtain ⟨-, -, lookup, constraints, -⟩ := decompose_sound done
  constructor
  · intro id u
    rw [lookup, Option.or_eq_some_iff, find?_subtasks, or_comm]
    refine or_congr_left ⟨?_, ?_⟩
    · rintro ⟨-, kept⟩
      split at kept
      · cases kept
      next other =>
        obtain ⟨v, found, rfl⟩ := Option.map_eq_some_iff.mp kept
        exact ⟨other, v, found, rfl⟩
    · rintro ⟨other, v, found, rfl⟩
      refine ⟨?_, by rw [if_neg other, found, Option.map_some]⟩
      exact find?_eq_none.mpr (fresh.not_issued (contains_iff.mpr ⟨v, found⟩))
  · intro d
    rw [constraints, ids_subtasks, template.mem_constraints_subtasks]

theorem Decomposed.not_mentions (decomposed : Decomposed n s t m supply result)
    (fresh : n.Fresh m supply) (template : m.template.Valid) (member : n.contains t.id = true)
    {d : Constraint} (held : d ∈ result.constraints) : d.mentions t.id = false := by
  have new : t.id ∉ m.template.issuedIds supply := by
    rw [← ids_subtasks (s := s), mem_ids, fresh.not_issued member]
    exact Bool.false_ne_true
  rw [← Bool.not_eq_true, Constraint.mentions_iff, ← Constraint.mem_references]
  intro reference
  rcases (decomposed.constraints d).mp held with ⟨c, -, fans⟩ | ⟨c, own, rfl⟩
  · rcases fans.mem_references reference with ⟨-, other⟩ | inside
    · exact other rfl
    · exact new inside
  · obtain ⟨source, side, same⟩ := (Constraint.mem_references_rename _).mp reference
    have inside := template.closed c own source (by simpa [Constraint.mem_references] using side)
    exact new (TaskSet.mem_image.mpr ⟨source, mem_ids.mpr inside, same⟩)

/-- Decomposition fails only for a task that is not in the network, and then it issues nothing. For
any other task it gives exactly the rewritten network, on as many new identities as the template has
tasks, one for each of them. -/
theorem decompose_spec (valid : n.Valid) (template : m.template.Valid) (fresh : n.Fresh m supply) :
    (∀ error, (n.decompose s t m supply).1 = .error error ↔
      n.contains t.id = false ∧ error = .unknownTask t.id) ∧
    (n.contains t.id = false → (n.decompose s t m supply).2 = supply) ∧
    (n.contains t.id = true → ∃ result,
      n.decompose s t m supply =
        (.ok result, { supply with task := supply.task + m.template.size }) ∧
      Decomposed n s t m supply result ∧
      Set.InjOn (m.template.issued supply) {id | m.template.contains id = true} ∧
      ∀ d ∈ result.constraints, d.mentions t.id = false) := by
  cases member : n.contains t.id with
  | false =>
      rw [decompose_of_not_contains member]
      refine ⟨fun error => ⟨fun same => ⟨rfl, (Except.error.inj same).symm⟩, ?_⟩, fun _ => rfl, ?_⟩
      · rintro ⟨-, rfl⟩
        rfl
      · rintro ⟨⟩
  | true =>
      obtain ⟨result, done⟩ := valid.decompose_isOk (s := s) template fresh member
      have decomposed := template.decomposed fresh done
      have injective := m.template.issued_injOn supply.enough_unbounded
      refine ⟨by simp [done], by simp, fun _ => ⟨result, done, decomposed, injective, ?_⟩⟩
      exact fun d held => decomposed.not_mentions fresh template member held

theorem decompose_spec_transport :
    let delivery := (Logistics.deliverMethod ⟨1, 1⟩).1.template
    let transport := (Task.newCompound "transport" ["?p", "?from", "?to"] ⟨2, 1⟩).1
    let byRoad := (Logistics.transportMethod "by-road" "drive" ⟨5, 1⟩).1
    delivery.Valid ∧ byRoad.template.Valid ∧ delivery.Fresh byRoad ⟨7, 1⟩ ∧
      delivery.contains transport.id = true ∧
      ∃ result, delivery.decompose ∅ transport byRoad ⟨7, 1⟩ = (.ok result, ⟨8, 1⟩) ∧
        Decomposed delivery ∅ transport byRoad ⟨7, 1⟩ result := by
  intro delivery transport byRoad
  have valid : delivery.Valid := Logistics.valid_deliver
  have template : byRoad.template.Valid := Logistics.valid_transport
  have fresh : delivery.Fresh byRoad ⟨7, 1⟩ := by
    intro k above below
    obtain rfl : k = 7 := Nat.le_antisymm (Nat.le_of_lt_succ below) above
    decide
  have member : delivery.contains transport.id = true := by decide
  obtain ⟨-, -, gives⟩ := decompose_spec (s := ∅) (t := transport) valid template fresh
  obtain ⟨result, done, decomposed, -, -⟩ := gives member
  exact ⟨valid, template, fresh, member, result, done, decomposed⟩

end HtnPlanning.Network
