import HtnPlanning.Proofs.Network.FanOut

namespace HtnPlanning

theorem orders_applied {held applied : Set Constraint} {s : Substitution}
    (image : ∀ c, c ∈ applied ↔ ∃ source ∈ held, source.apply s = c) {p q : TaskId} :
    Orders applied p q ↔ Orders held p q := by
  constructor
  · rintro ⟨c, member, edge⟩
    obtain ⟨source, held, rfl⟩ := (image c).mp member
    exact ⟨source, held, by simpa using edge⟩
  · rintro ⟨c, held, edge⟩
    exact ⟨c.apply s, (image _).mpr ⟨c, held, rfl⟩, by simpa using edge⟩

theorem Acyclic.of_orders {held other : Set Constraint} (acyclic : Acyclic held)
    (orders : ∀ p q, Orders other p q → Orders held p q) : Acyclic other :=
  fun id cycle => acyclic id (Relation.TransGen.mono orders _ _ cycle)

namespace Validator

variable {v : Validator} {c : Constraint}

theorem members_apply (v : Validator) (s : Substitution) : (v.apply s).members = v.members :=
  (foldl_record _ _).2.1

theorem held_apply (v : Validator) (s : Substitution) :
    c ∈ (v.apply s).held ↔ ∃ source ∈ v.held, source.apply s = c := by
  obtain ⟨heldEq, -, -⟩ := foldl_record (v.constraints.map (·.apply s))
    { (∅ : Validator) with members := v.members }
  rw [apply, heldEq, held_of_members, Set.union_empty]
  simp [held]

theorem consistent_apply (v : Validator) (s : Substitution) : (v.apply s).Consistent :=
  (foldl_record _ _).2.2 (consistent_of_members _)

theorem Valid.apply (valid : v.Valid) (s : Substitution) : (v.apply s).Valid where
  toConsistent := consistent_apply v s
  closed c member id reference := by
    obtain ⟨source, held, rfl⟩ := (held_apply v s).mp member
    rw [members_apply]
    exact valid.closed source held id (by simpa [Constraint.mem_references] using reference)
  acyclic := valid.acyclic.of_orders fun _ _ => (orders_applied fun _ => held_apply v s).mp

end Validator

namespace NetworkBuilder

structure Coherent (b : NetworkBuilder) : Prop where
  consistent : b.validator.Consistent
  members : ∀ id, id ∈ b.validator.members ↔ id ∈ b.tasks
  constraints : ∀ c, c ∈ b.constraints ↔ c ∈ b.validator.held

/-- A builder is valid when it mirrors a valid validator and keeps every task under its own
identity. -/
structure Valid (b : NetworkBuilder) : Prop extends b.Coherent where
  keyed : ∀ {id : TaskId} {t : Task}, b.tasks[id]? = some t → t.id = id
  validator : b.validator.Valid

variable {b next : NetworkBuilder} {c : Constraint} {n : Network} {old : TaskId}

theorem mem_accepted {v : Validator} : c ∈ accepted v ↔ c ∈ v.held := by
  simp [accepted, Validator.held]

theorem coherent_copy (n : Network) : (copy n).Coherent := by
  obtain ⟨heldEq, membersEq, keeps⟩ := Validator.foldl_record n.constraints.toList
    { (∅ : Validator) with members := n.ids }
  refine ⟨keeps (Validator.consistent_of_members n.ids), fun id => ?_, fun c => ?_⟩
  · simp only [copy, membersEq, Network.mem_ids, Network.contains, Std.ExtTreeMap.contains_iff_mem]
  · simp only [copy, heldEq, Validator.held_of_members, Set.union_empty, Set.mem_ofPred_eq,
      Std.ExtTreeSet.mem_toList]

theorem Coherent.apply (coherent : b.Coherent) (s : Substitution) : (b.apply s).Coherent where
  consistent := Validator.consistent_apply b.validator s
  members id := by
    simp only [NetworkBuilder.apply, Validator.members_apply, coherent.members,
      Std.ExtTreeMap.mem_map]
  constraints _ := mem_accepted

theorem Coherent.mem_constraints_apply (coherent : b.Coherent) (s : Substitution) :
    c ∈ (b.apply s).constraints ↔ ∃ source ∈ b.constraints, source.apply s = c := by
  simp only [NetworkBuilder.apply, mem_accepted, Validator.held_apply, coherent.constraints]

theorem replace_eq_ok : b.replace old n = (next, none) ↔ ∃ v,
    b.validator.replace old n = (v, none) ∧
      next = ⟨b.tasks.erase old ∪ n.tasks, accepted v, v⟩ := by
  unfold replace
  rcases b.validator.replace old n with ⟨v, _ | error⟩ <;> simp [eq_comm]

theorem getElem?_replace (replaced : b.replace old n = (next, none)) (id : TaskId) :
    next.tasks[id]? = (n.find? id).or (if id = old then none else b.tasks[id]?) := by
  obtain ⟨v, -, rfl⟩ := replace_eq_ok.mp replaced
  rw [Std.ExtTreeMap.getElem?_union, Std.ExtTreeMap.getElem?_erase]
  simp only [Std.LawfulEqOrd.compare_eq_iff_eq, eq_comm (a := old)]
  rfl

theorem addConstraint_eq_ok : b.addConstraint c = (next, none) ↔ ∃ v,
    b.validator.addConstraint c = (v, none) ∧ next = ⟨b.tasks, b.constraints.insert c, v⟩ := by
  unfold addConstraint
  rcases b.validator.addConstraint c with ⟨v, _ | error⟩ <;> simp [eq_comm]

/-! ## Validity -/

theorem Valid.build (valid : b.Valid) : b.build.Valid where
  keyed := valid.keyed
  closed c member id reference := by
    have known := valid.validator.closed c ((valid.constraints c).mp member) id reference
    exact Std.ExtTreeMap.contains_iff_mem.mpr ((valid.members id).mp known)
  acyclic := valid.validator.acyclic.anti fun c => (valid.constraints c).mp

theorem valid_empty : (∅ : NetworkBuilder).Valid where
  consistent := Validator.valid_empty.toConsistent
  members id := by
    change id ∈ (∅ : TaskSet) ↔ id ∈ (∅ : Std.ExtTreeMap TaskId Task)
    simp
  constraints c := by
    rw [show (∅ : NetworkBuilder).validator.held = ∅ from Validator.held_of_members ∅]
    exact iff_of_false Std.ExtTreeSet.not_mem_empty (Set.notMem_empty c)
  keyed found := by
    change (∅ : Std.ExtTreeMap TaskId Task)[_]? = _ at found
    simp at found
  validator := Validator.valid_empty

theorem valid_copy (valid : n.Valid) : (copy n).Valid where
  toCoherent := coherent_copy n
  keyed := valid.keyed
  validator := by
    have coherent := coherent_copy n
    refine ⟨coherent.consistent, fun c member id reference => ?_, ?_⟩
    · rw [coherent.members]
      have known := valid.closed c ((coherent.constraints c).mpr member) id reference
      exact Std.ExtTreeMap.contains_iff_mem.mp known
    · exact valid.acyclic.anti fun c => (coherent.constraints c).mpr

theorem Valid.addTask (valid : b.Valid) (t : Task) : (b.addTask t).Valid where
  consistent := (valid.validator.addTask t.id).toConsistent
  members id := by
    simp only [NetworkBuilder.addTask, Validator.addTask, Std.ExtTreeSet.mem_insert,
      Std.ExtTreeMap.mem_insert, valid.members]
  constraints := valid.constraints
  keyed := by
    intro id u found
    rw [NetworkBuilder.addTask, Std.ExtTreeMap.getElem?_insert] at found
    split at found
    next same => exact Option.some.inj found ▸ Std.LawfulEqOrd.eq_of_compare same
    next => exact valid.keyed found
  validator := valid.validator.addTask t.id

theorem addConstraint_unchanged {error : InvalidConstraint}
    (refused : (b.addConstraint c).2 = some error) : (b.addConstraint c).1 = b := by
  unfold addConstraint at refused ⊢
  rcases result : b.validator.addConstraint c with ⟨left, _ | reason⟩
  · simp [result] at refused
  · have same := Validator.addConstraint_unchanged (congrArg Prod.snd result)
    rw [result] at same
    exact congrArg (fun v => { b with validator := v }) same

theorem replace_unchanged {error : ReplacementError} (refused : (b.replace old n).2 = some error) :
    (b.replace old n).1 = b := by
  unfold replace at refused ⊢
  rcases result : b.validator.replace old n with ⟨left, _ | reason⟩
  · simp [result] at refused
  · have same := Validator.replace_unchanged (congrArg Prod.snd result)
    rw [result] at same
    exact congrArg (fun v => { b with validator := v }) same

theorem Valid.addConstraint (valid : b.Valid) (c : Constraint) : (b.addConstraint c).1.Valid := by
  rcases result : b.addConstraint c with ⟨next, _ | error⟩
  case none =>
    obtain ⟨v, accepted, rfl⟩ := addConstraint_eq_ok.mp result
    have recorded := (Validator.addConstraint_eq_ok.mp accepted).2
    have kept := valid.validator.addConstraint c
    rw [accepted] at kept
    refine ⟨⟨kept.toConsistent, fun id => ?_, fun d => ?_⟩, valid.keyed, kept⟩
    · rw [← recorded, Validator.members_record]
      exact valid.members id
    · rw [← recorded, Validator.held_record, Std.ExtTreeSet.mem_insert, Set.mem_insert_iff,
        Std.LawfulEqOrd.compare_eq_iff_eq, valid.constraints, eq_comm]
  case some =>
    obtain rfl : next = b := by simpa [result] using addConstraint_unchanged (congrArg Prod.snd result)
    exact valid

theorem Valid.apply (valid : b.Valid) (s : Substitution) : (b.apply s).Valid where
  toCoherent := valid.toCoherent.apply s
  keyed found := by
    rw [NetworkBuilder.apply, Std.ExtTreeMap.getElem?_map] at found
    obtain ⟨t, original, rfl⟩ := Option.map_eq_some_iff.mp found
    exact (valid.keyed original : t.id = _)
  validator := valid.validator.apply s

theorem Coherent.replace (coherent : b.Coherent) (replaced : b.replace old n = (next, none)) :
    next.Coherent ∧ b.validator.Replaced old n next.validator := by
  obtain ⟨v, accepted, rfl⟩ := replace_eq_ok.mp replaced
  have spec := Validator.replace_sound accepted
  refine ⟨⟨spec.toConsistent, fun id => ?_, fun c => mem_accepted⟩, spec⟩
  rw [spec.members, coherent.members, Std.ExtTreeMap.mem_union_iff, Std.ExtTreeMap.mem_erase,
    Network.contains, Std.ExtTreeMap.contains_iff_mem, and_comm]
  simp only [ne_eq, Std.LawfulEqOrd.compare_eq_iff_eq, eq_comm (a := old)]

theorem Valid.replace (valid : b.Valid) (old : TaskId) (formed : n.WellFormed) :
    (b.replace old n).1.Valid := by
  rcases result : b.replace old n with ⟨next, _ | error⟩
  case none =>
    obtain ⟨coherent, spec⟩ := valid.toCoherent.replace result
    obtain ⟨v, -, rfl⟩ := replace_eq_ok.mp result
    refine ⟨coherent, ?_, spec.toValid⟩
    intro id t found
    rw [Std.ExtTreeMap.getElem?_union, Option.or_eq_some_iff] at found
    rcases found with own | ⟨-, kept⟩
    · exact formed.keyed own
    · rw [Std.ExtTreeMap.getElem?_erase] at kept
      split at kept
      · cases kept
      · exact valid.keyed kept
  case some =>
    obtain rfl : next = b := by simpa [result] using replace_unchanged (congrArg Prod.snd result)
    exact valid

/-! ## Networks put together -/

theorem foldl_addTask (ts : List Task) (b : NetworkBuilder) :
    (ts.foldl addTask b).tasks = b.tasks.insertMany (ts.map fun t => (t.id, t)) ∧
      (ts.foldl addTask b).constraints = b.constraints ∧
      (b.Valid → (ts.foldl addTask b).Valid) := by
  induction ts generalizing b with
  | nil => exact ⟨Std.ExtTreeMap.insertMany_nil.symm, rfl, id⟩
  | cons t ts ih =>
      obtain ⟨tasks, constraints, keeps⟩ := ih (b.addTask t)
      exact ⟨tasks.trans Std.ExtTreeMap.insertMany_cons.symm, constraints,
        fun valid => keeps (valid.addTask t)⟩

theorem valid_ofTasks (ts : List Task) : (ofTasks ts).Valid :=
  (foldl_addTask ts ∅).2.2 valid_empty

theorem tasks_ofTasks (ts : List Task) (cs : List Constraint) :
    (ofTasks ts).tasks = (Network.ofLists ts cs).tasks :=
  (foldl_addTask ts ∅).1.trans Std.ExtTreeMap.ofList_eq_insertMany_empty.symm

theorem Valid.addConstraints (valid : b.Valid) (cs : List Constraint) :
    (b.addConstraints cs).1.Valid := by
  induction cs generalizing b with
  | nil => exact valid
  | cons c cs ih =>
      have kept := valid.addConstraint c
      rw [NetworkBuilder.addConstraints]
      generalize b.addConstraint c = outcome at kept
      obtain ⟨next, _ | error⟩ := outcome
      · exact ih kept
      · exact kept

theorem addConstraint_accepted (valid : b.Valid) (known : ∀ id ∈ c.references, id ∈ b.tasks)
    (unheld : c ∉ b.constraints) (acyclic : Acyclic (insert c b.validator.held)) :
    ∃ next, b.addConstraint c = (next, none) ∧ next.tasks = b.tasks ∧
      next.constraints = b.constraints.insert c ∧ next.validator.held = insert c b.validator.held := by
  have accepted : b.validator.check c = .ok () := by
    refine Validator.check_eq_ok.mpr ⟨fun id reference => ?_, ?_, ?_⟩
    · exact (valid.members id).mpr (known id reference)
    · rw [← Bool.not_eq_true, valid.consistent.contains_iff, ← valid.constraints]
      exact unheld
    · exact valid.consistent.closingEdge?_eq_none.mpr (acyclic_insert_iff.mp acyclic).2
  exact ⟨_, addConstraint_eq_ok.mpr ⟨_, Validator.addConstraint_eq_ok.mpr ⟨accepted, rfl⟩, rfl⟩, rfl, rfl,
    Validator.held_record⟩

theorem addConstraints_accepted {cs : List Constraint} (valid : b.Valid) (distinct : cs.Nodup)
    (known : ∀ c ∈ cs, ∀ id ∈ c.references, id ∈ b.tasks) (unheld : ∀ c ∈ cs, c ∉ b.constraints)
    (acyclic : Acyclic ({c | c ∈ cs} ∪ b.validator.held)) :
    ∃ next, b.addConstraints cs = (next, none) ∧ next.tasks = b.tasks ∧
      next.constraints = b.constraints.insertMany cs := by
  induction cs generalizing b with
  | nil => exact ⟨b, rfl, rfl, Std.ExtTreeSet.insertMany_nil.symm⟩
  | cons c cs ih =>
      rw [List.forall_mem_cons] at known unheld
      obtain ⟨other, distinct⟩ := List.nodup_cons.mp distinct
      have first : Acyclic (insert c b.validator.held) :=
        acyclic.anti (Set.insert_subset (.inl List.mem_cons_self) fun d held => .inr held)
      obtain ⟨middle, added, tasks, constraints, held⟩ :=
        addConstraint_accepted valid known.1 unheld.1 first
      have kept : middle.Valid := by simpa [added] using valid.addConstraint c
      have unheld (d : Constraint) (listed : d ∈ cs) : d ∉ middle.constraints := by
        rw [constraints, Std.ExtTreeSet.mem_insert, Std.LawfulEqOrd.compare_eq_iff_eq]
        rintro (rfl | before)
        · exact other listed
        · exact unheld.2 d listed before
      have fewer : {c | c ∈ cs} ∪ middle.validator.held ⊆ {d | d ∈ c :: cs} ∪ b.validator.held := by
        rw [held]
        rintro d (listed | rfl | before)
        · exact .inl (List.mem_cons_of_mem _ listed)
        · exact .inl List.mem_cons_self
        · exact .inr before
      obtain ⟨next, rest, sameTasks, all⟩ :=
        ih kept distinct (tasks ▸ known.2) unheld (acyclic.anti fewer)
      refine ⟨next, by rw [addConstraints, added]; exact rest, sameTasks.trans tasks, ?_⟩
      rw [all, constraints, Std.ExtTreeSet.insertMany_cons]

theorem build_ofTasks {ts : List Task} {cs : List Constraint} (valid : (Network.ofLists ts cs).Valid)
    (distinct : cs.Nodup) : ((ofTasks ts).addConstraints cs).2 = none ∧
      ((ofTasks ts).addConstraints cs).1.build = .ofLists ts cs := by
  have constraints := (foldl_addTask ts ∅).2.1
  have same := tasks_ofTasks ts cs
  have start := valid_ofTasks ts
  have empty (c : Constraint) : c ∉ (ofTasks ts).constraints := by
    rw [ofTasks, constraints]
    exact Std.ExtTreeSet.not_mem_empty
  have known (c : Constraint) (listed : c ∈ cs) (id : TaskId) (reference : id ∈ c.references) :
      id ∈ (ofTasks ts).tasks := by
    rw [same, ← Std.ExtTreeMap.contains_iff_mem]
    exact valid.closed c (Network.mem_constraints_ofLists.mpr listed) id reference
  have fewer : {c | c ∈ cs} ∪ (ofTasks ts).validator.held ⊆ (Network.ofLists ts cs).held := by
    rintro c (listed | held)
    · exact Network.mem_constraints_ofLists.mpr listed
    · exact absurd ((start.constraints c).mpr held) (empty c)
  obtain ⟨next, added, sameTasks, all⟩ :=
    addConstraints_accepted start distinct known (fun c _ => empty c) (valid.acyclic.anti fewer)
  rw [added]
  refine ⟨rfl, ?_⟩
  rw [ofTasks, constraints] at all
  rw [build, sameTasks, same, all]
  exact congrArg (Network.mk _) Std.ExtTreeSet.ofList_eq_insertMany_empty.symm

end NetworkBuilder

namespace Network

variable {ts : List Task} {cs : List Constraint} {id : TaskId} {t : Task}

theorem keyed_ofLists (found : (ofLists ts cs).find? id = some t) : t.id = id := by
  rw [find?, ← NetworkBuilder.tasks_ofTasks] at found
  exact (NetworkBuilder.valid_ofTasks ts).keyed found

theorem mem_of_find?_ofLists (found : (ofLists ts cs).find? id = some t) : t ∈ ts := by
  rw [find?, ← NetworkBuilder.tasks_ofTasks] at found
  induction ts using List.reverseRecOn with
  | nil => cases found.symm.trans Std.ExtTreeMap.getElem?_empty
  | append_singleton ts u ih =>
      rw [NetworkBuilder.ofTasks, List.foldl_append, List.foldl_cons, List.foldl_nil,
        NetworkBuilder.addTask, Std.ExtTreeMap.getElem?_insert] at found
      split at found
      · cases found
        exact List.mem_append_right _ List.mem_cons_self
      · exact List.mem_append_left _ (ih found)

theorem contains_ofLists : (ofLists ts cs).contains id = true ↔ id ∈ ts.map Task.id := by
  simp [contains, ofLists]

end Network

end HtnPlanning
