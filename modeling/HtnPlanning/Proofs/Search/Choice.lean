import HtnPlanning.Proofs.Decomposition
import HtnPlanning.Proofs.Network.Renaming
import HtnPlanning.Proofs.Unification
import HtnPlanning.Search

namespace HtnPlanning

namespace Supply

def copied (supply : Supply) (m : Method) : Supply :=
  ⟨supply.task + (1 + m.template.size), supply.scope + 1⟩

def used (supply : Supply) (m : Method) : Supply :=
  ⟨supply.task + (1 + m.template.size + m.template.size), supply.scope + 1⟩

theorem le_copied (supply : Supply) (m : Method) : supply ≤ supply.copied m :=
  ⟨Nat.le_add_right .., Nat.le_add_right ..⟩

theorem le_used (supply : Supply) (m : Method) : supply ≤ supply.used m :=
  ⟨Nat.le_add_right .., Nat.le_add_right ..⟩

end Supply

/-! ## Issued networks -/

/-- A valid network whose identities and scopes were all issued before a supply. -/
structure Network.IssuedBefore (n : Network) (supply : Supply) : Prop extends n.Valid where
  ids : ∀ t ∈ n.taskList, t.id.number < supply.task
  scopes : ∀ v ∈ n.varList, v.scope < supply.scope

namespace Network.IssuedBefore

variable {n n' : Network} {supply supply' : Supply} {t : Task} {c : Constraint} {r : Renumbering}

theorem mono (before : n.IssuedBefore supply) (le : supply ≤ supply') : n.IssuedBefore supply' where
  toValid := before.toValid
  ids t member := Nat.lt_of_lt_of_le (before.ids t member) le.1
  scopes v member := Nat.lt_of_lt_of_le (before.scopes v member) le.2

theorem scope_of_task (before : n.IssuedBefore supply) (member : t ∈ n.taskList) {v : Variable}
    (inTask : v ∈ t.varList) : v.scope < supply.scope :=
  before.scopes v (List.mem_append_left _ (List.mem_flatMap.mpr ⟨t, member, inTask⟩))

theorem scope_of_constraint (before : n.IssuedBefore supply) (held : c ∈ n.constraints) {v : Variable}
    (inCondition : v ∈ c.varList) : v.scope < supply.scope :=
  before.scopes v (List.mem_append_right _
    (List.mem_flatMap.mpr ⟨c, Std.ExtTreeSet.mem_toList.mpr held, inCondition⟩))

theorem id_of_constraint (before : n.IssuedBefore supply) (held : c ∈ n.constraints) {id : TaskId}
    (reference : id ∈ c.references) : id.number < supply.task := by
  obtain ⟨t, found⟩ := contains_iff.mp (before.closed c held id reference)
  exact before.keyed found ▸ before.ids t (mem_taskList.mpr ⟨id, found⟩)

theorem moved_continued (before : n.IssuedBefore supply) (moved : n.Moved r n')
    (between : r.Between supply supply') : n.Moved (r.continued between) n' := by
  have tasks (t : Task) (member : t ∈ n.taskList) : t.moved (r.continued between) = t.moved r :=
    Task.moved_congr (Renumbering.continued_task_of_lt between (before.ids t member)) fun v inTask =>
      Renumbering.continued_scope_of_lt between (before.scope_of_task member inTask)
  have constraints (c : Constraint) (held : c ∈ n.constraints) :
      c.moved (r.continued between) = c.moved r :=
    Constraint.moved_congr
      (fun id reference =>
        Renumbering.continued_task_of_lt between (before.id_of_constraint held reference))
      fun v inCondition =>
        Renumbering.continued_scope_of_lt between (before.scope_of_constraint held inCondition)
  constructor
  · intro u
    rw [moved.tasks]
    exact exists_congr fun t => and_congr_right fun member => by rw [tasks t member]
  · intro d
    rw [moved.constraints]
    exact exists_congr fun c => and_congr_right fun held => by rw [constraints c held]

end Network.IssuedBefore

/-! ## Copies of methods -/

namespace Method

variable {m : Method} {v : Variable} {supply : Supply} {t : Task} {s : Substitution}

def inScope (scope : Nat) (v : Variable) : Term :=
  .var (v.rescoped scope)

theorem rescoping_image (known : v ∈ m.vars) (scope : Nat) :
    (m.rescoping scope).image v = inScope scope v := by
  have apart : (m.vars.toList.map fun v => (v, Term.var (v.rescoped scope))).Pairwise
      fun a b => ¬ compare a.1 b.1 = .eq :=
    List.pairwise_map.mpr m.vars.distinct_toList
  have bound : (m.rescoping scope).get? v = some (.var (v.rescoped scope)) :=
    Std.ExtTreeMap.getElem?_ofList_of_mem Std.ReflCmp.compare_self apart
      (List.mem_map_of_mem (f := fun v => (v, Term.var (v.rescoped scope)))
        (Std.ExtTreeSet.mem_toList.mpr known))
  rw [Substitution.image, bound, Option.getD_some, inScope]

theorem apply_rescoping_pattern (scope : Nat) :
    m.pattern.apply (m.rescoping scope) = m.pattern.subst (inScope scope) := by
  rw [Task.apply_eq_subst]
  exact Task.subst_congr fun v member => rescoping_image (mem_vars.mpr (.inl member)) scope

theorem apply_rescoping_task (member : t ∈ m.template.taskList) (scope : Nat) :
    t.apply (m.rescoping scope) = t.subst (inScope scope) := by
  rw [Task.apply_eq_subst]
  refine Task.subst_congr fun v inTask => rescoping_image (mem_vars.mpr (.inr ?_)) scope
  exact List.mem_append_left _ (List.mem_flatMap.mpr ⟨t, member, inTask⟩)

theorem apply_rescoping_constraint {c : Constraint} (held : c ∈ m.template.constraints) (scope : Nat) :
    c.apply (m.rescoping scope) = c.subst (inScope scope) := by
  rw [Constraint.apply_eq_subst]
  refine Constraint.subst_congr fun v inCondition => rescoping_image (mem_vars.mpr (.inr ?_)) scope
  exact List.mem_append_right _
    (List.mem_flatMap.mpr ⟨c, Std.ExtTreeSet.mem_toList.mpr held, inCondition⟩)

def copyUnifier (m : Method) (t : Task) (scope : Nat) : Except UnifyFailure Substitution :=
  unifyPattern (m.pattern.subst (inScope scope)) t

theorem unifier_standardizeApart [Counters] :
    (m.standardizeApart supply).1.unifier t =
      (m.copyUnifier t supply.newScope.1).mapError fun reason => ⟨t.call, m.name, reason⟩ := by
  rw [copyUnifier, ← apply_rescoping_pattern]
  rfl

theorem template_standardizeApart : (m.standardizeApart supply).1.template =
    ((m.template.apply (m.rescoping supply.scope)).reissued ⟨supply.task + 1, supply.scope + 1⟩).1 :=
  rfl

theorem supply_standardizeApart [Counters] : (m.standardizeApart supply).2 = supply.copied m := by
  have next := Network.supply_reissued (n := m.template.apply (m.rescoping supply.newScope.1))
    ⟨supply.task + 1, supply.scope + 1⟩
  rw [Network.size_apply, Nat.add_assoc] at next
  exact next

theorem le_standardizeApart [Counters] (m : Method) (supply : Supply) :
    supply ≤ (m.standardizeApart supply).2 :=
  supply_standardizeApart (m := m) ▸ supply.le_copied m

theorem size_standardizeApart : (m.standardizeApart supply).1.template.size = m.template.size := by
  rw [template_standardizeApart, Network.size_reissued, Network.size_apply]

theorem valid_standardizeApart (template : m.template.Valid) (supply : Supply) :
    (m.standardizeApart supply).1.template.Valid :=
  (template.apply _).reissued _

variable {source id : TaskId} {c d : Constraint}

theorem contains_standardizeApart :
    (m.standardizeApart supply).1.template.contains source = true ↔ ∃ own,
      m.template.contains own = true ∧
        m.template.issued ⟨supply.task + 1, supply.scope + 1⟩ own = source := by
  rw [template_standardizeApart, Network.contains_reissued]
  simp only [Network.contains_apply, Network.issued_apply]

theorem issued_standardizeApart (supply' : Supply) (member : m.template.contains id = true) :
    (m.standardizeApart supply).1.template.issued supply'
        (m.template.issued ⟨supply.task + 1, supply.scope + 1⟩ id) = m.template.issued supply' id := by
  have own : (m.template.apply (m.rescoping supply.scope)).contains id = true := by
    rw [Network.contains_apply, member]
  have again := Network.issued_reissued ⟨supply.task + 1, supply.scope + 1⟩ supply' own
  simp only [Network.issued_apply] at again
  exact again

theorem issuedIds_standardizeApart (supply' : Supply) :
    (m.standardizeApart supply).1.template.issuedIds supply' = m.template.issuedIds supply' := by
  refine Std.ExtTreeSet.ext_mem fun id => ?_
  simp only [Network.issuedIds, TaskSet.mem_image, Network.mem_ids, contains_standardizeApart]
  constructor
  · rintro ⟨-, ⟨own, member, rfl⟩, rfl⟩
    exact ⟨own, member, (issued_standardizeApart supply' member).symm⟩
  · rintro ⟨own, member, rfl⟩
    exact ⟨_, ⟨own, member, rfl⟩, issued_standardizeApart supply' member⟩

theorem find?_standardizeApart {u : Task} :
    (m.standardizeApart supply).1.template.find? source = some u ↔ ∃ own v,
      m.template.find? own = some v ∧
        m.template.issued ⟨supply.task + 1, supply.scope + 1⟩ own = source ∧
        u = { v.subst (inScope supply.scope) with id := source } := by
  rw [template_standardizeApart, Network.find?_reissued (Supply.enough_unbounded _)]
  simp only [Network.find?_apply, Network.issued_apply, Option.map_eq_some_iff]
  constructor
  · rintro ⟨own, -, ⟨v, found, rfl⟩, same, rfl⟩
    have member := Network.mem_taskList.mpr ⟨own, found⟩
    exact ⟨own, v, found, same, by rw [apply_rescoping_task member]⟩
  · rintro ⟨own, v, found, same, rfl⟩
    have member := Network.mem_taskList.mpr ⟨own, found⟩
    exact ⟨own, _, ⟨v, found, rfl⟩, same, by rw [apply_rescoping_task member]⟩

theorem mem_constraints_standardizeApart (template : m.template.Valid) :
    d ∈ (m.standardizeApart supply).1.template.constraints ↔ ∃ c ∈ m.template.constraints,
      (c.subst (inScope supply.scope)).rename
        (m.template.issued ⟨supply.task + 1, supply.scope + 1⟩) = d := by
  rw [template_standardizeApart, (template.apply _).mem_constraints_reissued, Network.issued_apply]
  simp only [Network.mem_constraints_apply]
  constructor
  · rintro ⟨-, ⟨c, held, rfl⟩, same⟩
    exact ⟨c, held, by rw [← apply_rescoping_constraint held, same]⟩
  · rintro ⟨c, held, same⟩
    exact ⟨_, ⟨c, held, rfl⟩, by rw [apply_rescoping_constraint held, same]⟩

end Method

/-! ## Trying a method -/

namespace Network

variable {n next : Network} {t : Task} {m : Method} {s : Substitution} {supply supply' : Supply}
  {failure : UnifyFailure}

structure Unfolds (n : Network) (t : Task) (m : Method) (s : Substitution) (supply : Supply)
    (next : Network) : Prop where
  tasks : ∀ u, u ∈ next.taskList ↔
    (∃ v ∈ n.taskList, v.id ≠ t.id ∧ v.subst s.image = u) ∨
      ∃ v ∈ m.template.taskList, { (v.subst (Method.inScope supply.scope)).subst s.image with
        id := m.template.issued (supply.copied m) v.id } = u
  constraints : ∀ d, d ∈ next.constraints ↔
    (∃ c ∈ n.constraints, (c.subst s.image).Fans t.id (m.template.issuedIds (supply.copied m)) d) ∨
      ∃ c ∈ m.template.constraints, ((c.subst (Method.inScope supply.scope)).subst s.image).rename
        (m.template.issued (supply.copied m)) = d

theorem tryMethod_of_error (unifies : m.copyUnifier t supply.scope = .error failure) :
    n.tryMethod t m supply = (none, supply.copied m) := by
  simp only [tryMethod, Method.unifier_standardizeApart, Supply.newScope_fst, unifies, Except.mapError,
    Method.supply_standardizeApart]

theorem tryMethod_of_ok (unifies : m.copyUnifier t supply.scope = .ok s) :
    n.tryMethod t m supply =
      ((n.decompose s t (m.standardizeApart supply).1 (supply.copied m)).1.toOption,
        (n.decompose s t (m.standardizeApart supply).1 (supply.copied m)).2) := by
  simp only [tryMethod, Method.unifier_standardizeApart, Supply.newScope_fst, unifies, Except.mapError,
    Method.supply_standardizeApart]
  rcases n.decompose s t (m.standardizeApart supply).1 (supply.copied m) with ⟨_ | next, supply'⟩ <;> rfl

theorem name_of_tryMethod (accepted : n.tryMethod t m supply = (some next, supply')) :
    m.pattern.name = t.name := by
  cases unifies : m.copyUnifier t supply.scope with
  | error failure =>
      rw [tryMethod_of_error unifies] at accepted
      cases accepted
  | ok s => exact (Method.unifyPattern_eq_ok unifies).1

theorem Decomposed.unfolds (template : m.template.Valid) (formed : n.WellFormed)
    (decomposed : Decomposed n s t (m.standardizeApart supply).1 (supply.copied m) next) :
    n.Unfolds t m s supply next := by
  constructor
  · intro u
    simp only [mem_taskList, decomposed.tasks, Method.find?_standardizeApart]
    constructor
    · rintro ⟨id, ⟨other, v, found, rfl⟩ | ⟨-, -, ⟨own, v, found, rfl, rfl⟩, rfl, rfl⟩⟩
      · exact .inl ⟨v, ⟨id, found⟩, (formed.keyed found).symm ▸ other, (Task.apply_eq_subst s v).symm⟩
      · refine .inr ⟨v, ⟨own, found⟩, ?_⟩
        rw [Method.issued_standardizeApart _ (contains_iff.mpr ⟨v, found⟩), template.keyed found,
          Task.apply_eq_subst]
        rfl
    · rintro (⟨v, ⟨id, found⟩, other, rfl⟩ | ⟨v, ⟨own, found⟩, rfl⟩)
      · exact ⟨id, .inl ⟨formed.keyed found ▸ other, v, found, (Task.apply_eq_subst s v).symm⟩⟩
      · refine ⟨m.template.issued (supply.copied m) v.id, .inr ⟨_, _, ⟨own, v, found, rfl, rfl⟩, ?_⟩⟩
        rw [Method.issued_standardizeApart _ (contains_iff.mpr ⟨v, found⟩), template.keyed found,
          Task.apply_eq_subst]
        exact ⟨rfl, rfl⟩
  · intro d
    simp only [decomposed.constraints, Constraint.apply_eq_subst,
      Method.mem_constraints_standardizeApart template, Method.issuedIds_standardizeApart]
    refine or_congr_right ?_
    have renamed (c : Constraint) (held : c ∈ m.template.constraints) :
        (((c.subst (Method.inScope supply.scope)).rename
          (m.template.issued ⟨supply.task + 1, supply.scope + 1⟩)).subst s.image).rename
            ((m.standardizeApart supply).1.template.issued (supply.copied m)) =
          ((c.subst (Method.inScope supply.scope)).subst s.image).rename
            (m.template.issued (supply.copied m)) := by
      rw [Constraint.subst_rename, Constraint.rename_rename]
      refine Constraint.rename_congr fun id reference => ?_
      rw [Constraint.references_subst, Constraint.references_subst] at reference
      exact Method.issued_standardizeApart _ (template.closed c held id reference)
    constructor
    · rintro ⟨-, ⟨c, held, rfl⟩, rfl⟩
      exact ⟨c, held, (renamed c held).symm⟩
    · rintro ⟨c, held, rfl⟩
      exact ⟨_, ⟨c, held, rfl⟩, renamed c held⟩

theorem scope_image (unifies : m.copyUnifier t supply.scope = .ok s)
    (issued : ∀ v ∈ t.varList, v.scope < supply.scope) {v w : Variable}
    (below : v.scope < supply.scope + 1) (image : s.image v = .var w) : w.scope < supply.scope + 1 := by
  rcases Method.unifyPattern_image unifies image with rfl | inTask
  · exact below
  · exact Nat.lt_succ_of_lt (issued w inTask)

theorem Unfolds.issuedBefore (unfolds : n.Unfolds t m s supply next) (before : n.IssuedBefore supply)
    (template : m.template.Valid) (member : t ∈ n.taskList)
    (unifies : m.copyUnifier t supply.scope = .ok s) (valid : next.Valid) :
    next.IssuedBefore (supply.used m) where
  toValid := valid
  ids u listed := by
    rcases (unfolds.tasks u).mp listed with ⟨v, kept, -, rfl⟩ | ⟨v, own, rfl⟩
    · exact Nat.lt_of_lt_of_le (before.ids v kept) (supply.le_used m).1
    · have bound := issued_number_lt (supply.copied m) (template.contains_of_mem own)
      rw [Supply.copied, Nat.add_assoc] at bound
      exact bound
  scopes v known := by
    have below {v w : Variable} (issued : v.scope < supply.scope + 1) (image : s.image v = .var w) :
        w.scope < supply.scope + 1 :=
      scope_image unifies (fun _ => before.scope_of_task member) issued image
    have copied {w : Variable} (image : ∃ v, Method.inScope supply.scope v = .var w) :
        w.scope < supply.scope + 1 := by
      obtain ⟨v, rescoped⟩ := image
      rw [Method.inScope, Term.var.injEq] at rescoped
      rw [← rescoped]
      exact Nat.lt_succ_self _
    rcases List.mem_append.mp known with inTasks | inConstraints
    · obtain ⟨u, listed, inTask⟩ := List.mem_flatMap.mp inTasks
      rcases (unfolds.tasks u).mp listed with ⟨old, kept, -, rfl⟩ | ⟨old, -, rfl⟩
      · obtain ⟨w, inOld, image⟩ := Task.mem_varList_subst.mp inTask
        exact below (Nat.lt_succ_of_lt (before.scope_of_task kept inOld)) image
      · obtain ⟨w, inCopy, image⟩ := Task.mem_varList_subst.mp inTask
        obtain ⟨x, -, rescoped⟩ := Task.mem_varList_subst.mp inCopy
        exact below (copied ⟨x, rescoped⟩) image
    · obtain ⟨d, listed, inCondition⟩ := List.mem_flatMap.mp inConstraints
      change v ∈ d.varList at inCondition
      rcases (unfolds.constraints d).mp (Std.ExtTreeSet.mem_toList.mp listed) with
        ⟨c, held, fans⟩ | ⟨c, -, rfl⟩
      · rw [Constraint.varList, fans.condition, ← Constraint.varList] at inCondition
        obtain ⟨w, inOld, image⟩ := Constraint.mem_varList_subst.mp inCondition
        exact below (Nat.lt_succ_of_lt (before.scope_of_constraint held inOld)) image
      · rw [Constraint.varList_rename] at inCondition
        obtain ⟨w, inCopy, image⟩ := Constraint.mem_varList_subst.mp inCondition
        obtain ⟨x, -, rescoped⟩ := Constraint.mem_varList_subst.mp inCopy
        exact below (copied ⟨x, rescoped⟩) image

theorem IssuedBefore.not_contains (before : n.IssuedBefore supply) {k : Nat}
    (above : supply.task ≤ k) : n.contains ⟨k⟩ = false := by
  rw [← Bool.not_eq_true, contains_iff]
  rintro ⟨u, found⟩
  have issued := before.ids u (mem_taskList.mpr ⟨_, found⟩)
  rw [before.keyed found] at issued
  exact absurd above (Nat.not_le.mpr issued)

theorem IssuedBefore.fresh (before : n.IssuedBefore supply) (m : Method) :
    n.Fresh (m.standardizeApart supply).1 (supply.copied m) :=
  fun _ above _ => before.not_contains (Nat.le_trans (supply.le_copied m).1 above)

theorem IssuedBefore.tryMethod (before : n.IssuedBefore supply) (template : m.template.Valid)
    (member : t ∈ n.taskList) (unifies : m.copyUnifier t supply.scope = .ok s) :
    ∃ next, n.tryMethod t m supply = (some next, supply.used m) ∧ n.Unfolds t m s supply next ∧
      next.IssuedBefore (supply.used m) := by
  have fresh := before.fresh m
  have copy := Method.valid_standardizeApart template supply
  obtain ⟨next, done⟩ :=
    before.decompose_isOk (s := s) copy fresh (before.contains_of_mem member)
  have unfolds := (copy.decomposed fresh done).unfolds template before.toWellFormed
  refine ⟨next, ?_, unfolds, unfolds.issuedBefore before template member unifies
    (before.valid_decompose done)⟩
  rw [tryMethod_of_ok unifies, done, Method.size_standardizeApart]
  simp only [Except.toOption, Supply.copied, Supply.used, Nat.add_assoc]

theorem IssuedBefore.tryMethod_eq_some (before : n.IssuedBefore supply) (template : m.template.Valid)
    (member : t ∈ n.taskList) (accepted : n.tryMethod t m supply = (some next, supply')) :
    supply' = supply.used m ∧ next.IssuedBefore supply' ∧
      ∃ s, m.copyUnifier t supply.scope = .ok s ∧ n.Unfolds t m s supply next := by
  cases unifies : m.copyUnifier t supply.scope with
  | error failure =>
      rw [tryMethod_of_error unifies] at accepted
      cases accepted
  | ok s =>
      obtain ⟨result, given, unfolds, issued⟩ := before.tryMethod template member unifies
      rw [given] at accepted
      cases accepted
      exact ⟨rfl, issued, s, rfl, unfolds⟩

theorem supply_tryMethod (unifies : m.copyUnifier t supply.scope = .ok s)
    (member : n.contains t.id = true) : (n.tryMethod t m supply).2 = supply.used m := by
  rw [tryMethod_of_ok unifies, decompose_of_contains member, Method.size_standardizeApart]
  simp only [Supply.copied, Supply.used, Nat.add_assoc]

theorem standardizeApart_le_tryMethod [Counters] (n : Network) (t : Task) (m : Method)
    (supply : Supply) : (m.standardizeApart supply).2 ≤ (n.tryMethod t m supply).2 := by
  unfold tryMethod
  generalize m.standardizeApart supply = copied
  obtain ⟨copy, between⟩ := copied
  dsimp only
  cases copy.unifier t with
  | error failure => exact between.le_refl
  | ok s =>
      have decomposed := n.le_decompose s t copy between
      dsimp only
      generalize n.decompose s t copy between = outcome at decomposed ⊢
      obtain ⟨_ | next, after⟩ := outcome
      · exact decomposed
      · exact decomposed

theorem le_tryMethod [Counters] (n : Network) (t : Task) (m : Method) (supply : Supply) :
    supply ≤ (n.tryMethod t m supply).2 :=
  Supply.le_trans (m.le_standardizeApart supply) (n.standardizeApart_le_tryMethod t m supply)

theorem le_of_tryMethod [Counters] {result : Option Network} {supply' : Supply}
    (attempt : n.tryMethod t m supply = (result, supply')) : supply ≤ supply' := by
  have le := n.le_tryMethod t m supply
  rwa [attempt] at le

end Network

end HtnPlanning
