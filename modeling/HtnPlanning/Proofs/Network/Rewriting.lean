import HtnPlanning.Proofs.Network.Building
import HtnPlanning.Proofs.Supply

namespace HtnPlanning

namespace Network

variable {n : Network} {s : Substitution} {id : TaskId} {t u : Task} {c : Constraint}

/-! ## Substitution -/

@[simp] theorem find?_apply : (n.apply s).find? id = (n.find? id).map (·.apply s) := by
  simp [find?, apply, NetworkBuilder.build, NetworkBuilder.apply, NetworkBuilder.copy]

@[simp] theorem contains_apply : (n.apply s).contains id = n.contains id := by
  simp [contains, apply, NetworkBuilder.build, NetworkBuilder.apply, NetworkBuilder.copy]

@[simp] theorem size_apply : (n.apply s).size = n.size := by
  simp [size, apply, NetworkBuilder.build, NetworkBuilder.apply, NetworkBuilder.copy]

theorem mem_constraints_apply :
    c ∈ (n.apply s).constraints ↔ ∃ source ∈ n.constraints, source.apply s = c :=
  (NetworkBuilder.coherent_copy n).mem_constraints_apply s

theorem orders_apply {p q : TaskId} : Orders (n.apply s).held p q ↔ Orders n.held p q :=
  orders_applied fun _ => mem_constraints_apply

theorem Valid.apply (valid : n.Valid) (s : Substitution) : (n.apply s).Valid :=
  ((NetworkBuilder.valid_copy valid).apply s).build

theorem Valid.replace {old : TaskId} {new result : Network} (valid : n.Valid)
    (formed : new.WellFormed) (replaced : n.replace old new = .ok result) : result.Valid := by
  have kept := (NetworkBuilder.valid_copy valid).replace old formed
  unfold Network.replace at replaced
  generalize (NetworkBuilder.copy n).replace old new = outcome at kept replaced
  obtain ⟨b, _ | error⟩ := outcome
  · exact Except.ok.inj replaced ▸ kept.build
  · cases replaced

/-! ## New occurrences -/

def issued [Counters] (n : Network) (supply : Supply) (id : TaskId) : TaskId :=
  ⟨Counters.number Counters.task (supply.task + n.tasks.keys.idxOf id)⟩

theorem number_issued (n : Network) (supply : Supply) (id : TaskId) :
    (n.issued supply id).number = supply.task + n.tasks.keys.idxOf id := rfl

@[simp] theorem issued_apply [Counters] (supply : Supply) : (n.apply s).issued supply = n.issued supply := by
  funext id
  simp [issued, apply, NetworkBuilder.build, NetworkBuilder.apply, NetworkBuilder.copy]

theorem idxOf_lt_size (member : n.contains id = true) : n.tasks.keys.idxOf id < n.size := by
  rw [size, ← Std.ExtTreeMap.length_keys]
  exact List.idxOf_lt_length_of_mem (mem_keys.mpr member)

theorem keys_getElem? (member : n.contains id = true) :
    n.tasks.keys[n.tasks.keys.idxOf id]? = some id := by
  have place := List.idxOf_lt_length_of_mem (mem_keys.mpr member)
  rw [List.getElem?_eq_getElem place, List.getElem_idxOf]

theorem keys_idxOf {k : Nat} (key : n.tasks.keys[k]? = some id) : n.tasks.keys.idxOf id = k := by
  obtain ⟨bound, rfl⟩ := List.getElem?_eq_some_iff.mp key
  exact Std.ExtTreeMap.nodup_keys.idxOf_getElem k bound

theorem issued_injOn [Counters] {supply : Supply} (enough : supply.Enough n.size) :
    Set.InjOn (n.issued supply) {id | n.contains id = true} := by
  intro p inP q inQ same
  have place := enough.eq_of_number (idxOf_lt_size inP) (idxOf_lt_size inQ)
    (congrArg TaskId.number same)
  have first := keys_getElem? inP
  rw [place, keys_getElem? inQ] at first
  exact (Option.some.inj first).symm

theorem issued_number_lt (supply : Supply) (member : n.contains id = true) :
    (n.issued supply id).number < supply.task + n.size :=
  Nat.add_lt_add_left (idxOf_lt_size member) _

theorem reissueAll_eq [Counters] (ts : List Task) (supply : Supply) :
    reissueAll ts supply =
      (ts.mapIdx fun k t => (t, { t with id := ⟨Counters.number Counters.task (supply.task + k)⟩ }),
        { supply with task := supply.task + ts.length }) := by
  induction ts generalizing supply with
  | nil => rfl
  | cons t ts ih =>
      simp only [reissueAll, Task.reissued, Supply.newTask, ih, List.mapIdx_cons, List.length_cons,
        Nat.add_assoc, Nat.add_comm 1, Nat.add_zero]

theorem supply_reissued [Counters] (supply : Supply) :
    (n.reissued supply).2 = { supply with task := supply.task + n.size } := by
  simp only [reissued, reissueAll_eq, length_taskList]

theorem getElem?_taskList {k : Nat} : n.taskList[k]? = some t ↔
    ∃ id, n.tasks.keys[k]? = some id ∧ n.find? id = some t := by
  rw [taskList, ← Std.ExtTreeMap.map_fst_toList_eq_keys, List.getElem?_map, List.getElem?_map]
  constructor
  · intro present
    obtain ⟨⟨id, u⟩, entry, rfl⟩ := Option.map_eq_some_iff.mp present
    refine ⟨id, by rw [entry]; rfl, ?_⟩
    exact Std.ExtTreeMap.mem_toList_iff_getElem?_eq_some.mp (List.mem_of_getElem? entry)
  · rintro ⟨id, key, found⟩
    obtain ⟨⟨id', u⟩, entry, rfl⟩ := Option.map_eq_some_iff.mp key
    have same := Std.ExtTreeMap.mem_toList_iff_getElem?_eq_some.mp (List.mem_of_getElem? entry)
    rw [entry, Option.map_some, ← found]
    exact same.symm

def occurrences [Counters] (ts : List Task) (supply : Supply) : List Task :=
  ts.mapIdx fun k t => { t with id := ⟨Counters.number Counters.task (supply.task + k)⟩ }

theorem distinct_occurrences [Counters] {ts : List Task} {supply : Supply}
    (enough : supply.Enough ts.length) :
    (occurrences ts supply).Pairwise fun a b => a.id ≠ b.id := by
  rw [List.pairwise_iff_getElem]
  intro i j boundI boundJ earlier same
  simp only [occurrences, List.getElem_mapIdx, List.length_mapIdx, TaskId.mk.injEq] at boundI boundJ same
  exact absurd (enough.eq_of_number boundI boundJ same) (Nat.ne_of_lt earlier)

theorem map_snd_reissueAll [Counters] (ts : List Task) (supply : Supply) :
    (reissueAll ts supply).1.map Prod.snd = occurrences ts supply := by
  refine List.ext_getElem? fun k => ?_
  rw [reissueAll_eq, occurrences, List.getElem?_map, List.getElem?_mapIdx, List.getElem?_mapIdx,
    Option.map_map]
  rfl

theorem mem_occurrences [Counters] {supply : Supply} : u ∈ occurrences n.taskList supply ↔
    ∃ source t, n.find? source = some t ∧ u = { t with id := n.issued supply source } := by
  rw [occurrences, List.mem_mapIdx]
  constructor
  · rintro ⟨k, bound, rfl⟩
    obtain ⟨source, key, found⟩ := getElem?_taskList.mp (List.getElem?_eq_getElem bound)
    exact ⟨source, _, found, by rw [issued, keys_idxOf key]⟩
  · rintro ⟨source, t, found, rfl⟩
    have place := getElem?_taskList.mpr
      ⟨source, keys_getElem? (contains_iff.mpr ⟨t, found⟩), found⟩
    obtain ⟨bound, atPlace⟩ := List.getElem?_eq_some_iff.mp place
    exact ⟨_, bound, by rw [atPlace, issued]⟩

theorem keyed_reissued [Counters] {supply : Supply} (found : (n.reissued supply).1.find? id = some t) :
    t.id = id :=
  keyed_ofLists found

theorem exists_of_find?_reissued [Counters] {supply : Supply}
    (found : (n.reissued supply).1.find? id = some u) :
    ∃ source t, n.find? source = some t ∧ u = { t with id := id } := by
  obtain rfl : u.id = id := keyed_reissued found
  simp only [reissued, map_snd_reissueAll] at found
  obtain ⟨source, t, own, rfl⟩ := mem_occurrences.mp (mem_of_find?_ofLists found)
  exact ⟨source, t, own, rfl⟩

theorem find?_reissued [Counters] {supply : Supply} (enough : supply.Enough n.size) :
    (n.reissued supply).1.find? id = some u ↔
      ∃ source t, n.find? source = some t ∧ n.issued supply source = id ∧ u = { t with id := id } := by
  simp only [reissued, map_snd_reissueAll]
  rw [find?_ofLists (distinct_occurrences (length_taskList (n := n) ▸ enough)), mem_occurrences]
  constructor
  · rintro ⟨⟨source, t, found, rfl⟩, rfl⟩
    exact ⟨source, t, found, rfl, rfl⟩
  · rintro ⟨source, t, found, rfl, rfl⟩
    exact ⟨⟨source, t, found, rfl⟩, rfl⟩

theorem contains_reissued [Counters] (supply : Supply) : (n.reissued supply).1.contains id = true ↔
    ∃ source, n.contains source = true ∧ n.issued supply source = id := by
  simp only [reissued, map_snd_reissueAll]
  rw [contains_ofLists, List.mem_map]
  constructor
  · rintro ⟨u, listed, rfl⟩
    obtain ⟨source, t, found, rfl⟩ := mem_occurrences.mp listed
    exact ⟨source, contains_iff.mpr ⟨t, found⟩, rfl⟩
  · rintro ⟨source, member, rfl⟩
    obtain ⟨t, found⟩ := contains_iff.mp member
    exact ⟨_, mem_occurrences.mpr ⟨source, t, found, rfl⟩, rfl⟩

def newIds [Counters] (n : Network) (supply : Supply) : Std.ExtTreeMap TaskId TaskId :=
  .ofList ((reissueAll n.taskList supply).1.map fun (t, fresh) => (t.id, fresh.id)) compare

theorem WellFormed.newIds_eq [Counters] (formed : n.WellFormed) (supply : Supply)
    (member : n.contains id = true) : (n.newIds supply)[id]? = some (n.issued supply id) := by
  have entry (k : Nat) : ((reissueAll n.taskList supply).1.map fun (t, fresh) => (t.id, fresh.id))[k]? =
      (n.taskList.map Task.id)[k]?.map fun id =>
        (id, ⟨Counters.number Counters.task (supply.task + k)⟩) := by
    rw [reissueAll_eq, List.getElem?_map, List.getElem?_mapIdx, List.getElem?_map, Option.map_map,
      Option.map_map]
    rfl
  rw [formed.map_id_taskList] at entry
  have keys : ((reissueAll n.taskList supply).1.map fun (t, fresh) => (t.id, fresh.id)).map Prod.fst =
      n.tasks.keys := by
    refine List.ext_getElem? fun k => ?_
    rw [List.getElem?_map, entry, Option.map_map, Function.comp_def, Option.map_id']
  have distinct := List.pairwise_map.mp (keys ▸ n.tasks.distinct_keys)
  refine Std.ExtTreeMap.getElem?_ofList_of_mem Std.ReflCmp.compare_self distinct ?_
  refine List.mem_of_getElem? (i := n.tasks.keys.idxOf id) ?_
  rw [entry, keys_getElem? member]
  rfl

theorem Valid.mem_constraints_reissued [Counters] (valid : n.Valid) (supply : Supply) :
    c ∈ (n.reissued supply).1.constraints ↔
      ∃ source ∈ n.constraints, source.rename (n.issued supply) = c := by
  have same (source : Constraint) (held : source ∈ n.constraints) :
      (source.rename fun id => (n.newIds supply)[id]?.getD id) = source.rename (n.issued supply) :=
    Constraint.rename_congr fun id reference => by
      rw [valid.newIds_eq supply (valid.closed source held id reference), Option.getD_some]
  change c ∈ Std.ExtTreeSet.ofList (n.constraints.toList.map fun source =>
    source.rename fun id => (n.newIds supply)[id]?.getD id) compare ↔ _
  simp only [Std.ExtTreeSet.mem_ofList, List.contains_iff_mem, List.mem_map, Std.ExtTreeSet.mem_toList]
  exact exists_congr fun source => and_congr_right fun held => by rw [same source held]

theorem keys_reissued (supply : Supply) :
    (n.reissued supply).1.tasks.keys = n.tasks.keys.map (n.issued supply) := by
  have numbers : n.tasks.keys.map (n.issued supply) =
      (List.range n.tasks.keys.length).map fun k => ⟨supply.task + k⟩ := by
    refine List.ext_getElem (by simp) fun k bound _ => ?_
    rw [List.length_map] at bound
    rw [List.getElem_map, List.getElem_map, List.getElem_range, issued, Counters.number_task,
      keys_idxOf (List.getElem?_eq_getElem bound)]
  have ordered : (n.tasks.keys.map (n.issued supply)).Pairwise fun p q => p.number < q.number := by
    rw [numbers, List.pairwise_map]
    exact List.pairwise_lt_range.imp fun less => Nat.add_lt_add_left less _
  have members (id : TaskId) : id ∈ (n.reissued supply).1.tasks.keys ↔
      id ∈ n.tasks.keys.map (n.issued supply) := by
    rw [mem_keys, contains_reissued, List.mem_map]
    simp only [mem_keys]
  have distinct : (n.tasks.keys.map (n.issued supply)).Nodup :=
    ordered.imp fun less same => (same ▸ less).false
  have perm := (List.perm_ext_iff_of_nodup Std.ExtTreeMap.nodup_keys distinct).mpr members
  exact perm.eq_of_pairwise (fun p q _ _ less greater => absurd less (Nat.lt_asymm greater))
    (pairwise_keys _) ordered

theorem size_reissued (supply : Supply) : (n.reissued supply).1.size = n.size := by
  rw [size, size, ← Std.ExtTreeMap.length_keys, ← Std.ExtTreeMap.length_keys, keys_reissued,
    List.length_map]

theorem issued_reissued (supply supply' : Supply) (member : n.contains id = true) :
    (n.reissued supply).1.issued supply' (n.issued supply id) = n.issued supply' id := by
  have place : (n.reissued supply).1.tasks.keys[n.tasks.keys.idxOf id]? =
      some (n.issued supply id) := by
    rw [keys_reissued, List.getElem?_map, keys_getElem? member]
    rfl
  rw [issued, keys_idxOf place, issued]

theorem Valid.reissued_of_enough [Counters] (valid : n.Valid) {supply : Supply}
    (enough : supply.Enough n.size) : (n.reissued supply).1.Valid where
  keyed := keyed_reissued
  closed c member id reference := by
    obtain ⟨source, held, rfl⟩ := (valid.mem_constraints_reissued supply).mp member
    obtain ⟨own, side, rfl⟩ := (Constraint.mem_references_rename _).mp reference
    exact (contains_reissued supply).mpr ⟨own, valid.closed source held own side, rfl⟩
  acyclic := by
    have source := (issued_injOn enough).leftInvOn_invFunOn
    let members := {id | n.contains id = true}
    refine valid.acyclic.of_collapse acyclic_empty (Function.invFunOn (n.issued supply) members) ?_
    intro p q edge
    obtain ⟨p', q', orders, rfl, rfl⟩ := (orders_renamed (fun _ => rfl) fun _ =>
      valid.mem_constraints_reissued supply).mp edge
    obtain ⟨first, second⟩ := valid.contains_of_orders orders
    rw [source first, source second]
    exact .inl orders

theorem Valid.reissued (valid : n.Valid) (supply : Supply) : (n.reissued supply).1.Valid :=
  valid.reissued_of_enough supply.enough_unbounded

end Network

end HtnPlanning
