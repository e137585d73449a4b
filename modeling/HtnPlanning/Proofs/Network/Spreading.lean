import HtnPlanning.Proofs.Network.Refinement
import HtnPlanning.Proofs.Network.Renaming

namespace HtnPlanning

namespace TaskSet

variable {f g : TaskId → TaskSet} {ids : TaskSet} {id : TaskId}

def bind (f : TaskId → TaskSet) (ids : TaskSet) : TaskSet :=
  .ofList (ids.toList.flatMap fun id => (f id).toList) compare

theorem mem_bind : id ∈ ids.bind f ↔ ∃ source ∈ ids, id ∈ f source := by
  simp [bind]

theorem mem_singleton {id' : TaskId} : id' ∈ ({id} : TaskSet) ↔ id = id' := by
  simp

theorem bind_bind : (ids.bind f).bind g = ids.bind fun id => (f id).bind g := by
  refine Std.ExtTreeSet.ext_mem fun id => ?_
  simp only [mem_bind]
  constructor
  · rintro ⟨middle, ⟨source, member, first⟩, second⟩
    exact ⟨source, member, middle, first, second⟩
  · rintro ⟨source, member, middle, first, second⟩
    exact ⟨middle, ⟨source, member, first⟩, second⟩

theorem bind_singleton : bind f {id} = f id :=
  Std.ExtTreeSet.ext_mem fun id' => by simp [mem_bind]

theorem bind_congr (same : ∀ id ∈ ids, f id = g id) : ids.bind f = ids.bind g := by
  refine Std.ExtTreeSet.ext_mem fun id => ?_
  simp only [mem_bind]
  exact exists_congr fun source => and_congr_right fun member => by rw [same source member]

theorem image_eq_bind (h : TaskId → TaskId) : ids.image h = ids.bind fun id => {h id} :=
  Std.ExtTreeSet.ext_mem fun id => by simp only [mem_image, mem_bind, mem_singleton]

theorem eq_of_image {h : TaskId → TaskId} {known : Set TaskId} {ids' : TaskSet}
    (injective : Set.InjOn h known) (within : ∀ id ∈ ids, id ∈ known) (within' : ∀ id ∈ ids', id ∈ known)
    (same : ids.image h = ids'.image h) : ids = ids' := by
  refine Std.ExtTreeSet.ext_mem fun id => ⟨fun member => ?_, fun member => ?_⟩
  · obtain ⟨id', member', equal⟩ := mem_image.mp (same ▸ mem_image.mpr ⟨id, member, rfl⟩)
    exact injective (within' id' member') (within id member) equal ▸ member'
  · obtain ⟨id', member', equal⟩ := mem_image.mp (same ▸ mem_image.mpr ⟨id, member, rfl⟩)
    exact injective (within id' member') (within' id member) equal ▸ member'

end TaskSet

namespace Constraint

variable {f g : TaskId → TaskSet} {h : TaskId → TaskId} {c d : Constraint} {id old other : TaskId}
  {new new' side : TaskSet}

def spread (f : TaskId → TaskSet) : Constraint → Constraint
  | .precedence earlier later => .precedence (earlier.bind f) (later.bind f)
  | .before tasks condition => .before (tasks.bind f) condition
  | .after tasks condition => .after (tasks.bind f) condition
  | .between earlier later condition => .between (earlier.bind f) (later.bind f) condition

def Filled (c : Constraint) : Prop :=
  ∀ side ∈ c.sides, side ≠ ∅

@[simp] theorem kind_spread : (c.spread f).kind = c.kind := by
  cases c <;> rfl

@[simp] theorem condition?_spread : (c.spread f).condition? = c.condition? := by
  cases c <;> rfl

@[simp] theorem first_spread : (c.spread f).first = c.first.bind f := by
  cases c <;> rfl

@[simp] theorem second_spread : (c.spread f).second = c.second.bind f := by
  cases c <;> rfl

theorem sides_spread : (c.spread f).sides = c.sides.map (·.bind f) := by
  cases c <;> rfl

theorem spread_spread : (c.spread f).spread g = c.spread fun id => (f id).bind g := by
  cases c <;> simp only [spread, TaskSet.bind_bind]

theorem rename_eq_spread : c.rename h = c.spread fun id => {h id} := by
  cases c <;> simp only [rename, spread, TaskSet.image_eq_bind]

theorem spread_congr (same : ∀ id ∈ c.references, f id = g id) : c.spread f = c.spread g := by
  have first : c.first.bind f = c.first.bind g :=
    TaskSet.bind_congr fun id member => same id (mem_references.mpr (.inl member))
  have second : c.second.bind f = c.second.bind g :=
    TaskSet.bind_congr fun id member => same id (mem_references.mpr (.inr member))
  cases c <;> simp only [Constraint.first, Constraint.second] at first second <;>
    simp only [spread, first, second]

theorem rename_spread : (c.spread f).rename h = c.spread fun id => (f id).image h := by
  rw [rename_eq_spread, spread_spread]
  simp only [TaskSet.image_eq_bind]

theorem mentions_spread : (c.spread f).mentions id = true ↔
    ∃ source, c.mentions source = true ∧ id ∈ f source := by
  simp only [mentions_iff, first_spread, second_spread, TaskSet.mem_bind, or_and_right, exists_or]

theorem Filled.of_spread (filled : (c.spread f).Filled) : c.Filled := by
  rintro side member rfl
  refine filled (TaskSet.bind f ∅) (sides_spread ▸ List.mem_map_of_mem member) ?_
  exact Std.ExtTreeSet.eq_empty_iff_forall_not_mem.mpr fun id => by simp [TaskSet.mem_bind]

theorem filled_rename : (c.rename h).Filled ↔ c.Filled := by
  refine ⟨fun filled => (rename_eq_spread ▸ filled).of_spread, fun filled => ?_⟩
  rw [rename_eq_spread, Filled, sides_spread, List.forall_mem_map]
  intro side member
  refine Std.ExtTreeSet.isEmpty_eq_false_iff.mp ?_
  rw [← TaskSet.image_eq_bind, TaskSet.isEmpty_image]
  exact Std.ExtTreeSet.isEmpty_eq_false_iff.mpr (filled side member)

/-! ## Replaced tasks -/

def standIns (old : TaskId) (new : TaskSet) (id : TaskId) : TaskSet :=
  if id = old then new else {id}

theorem mem_standIns {id' : TaskId} : id' ∈ standIns old new id ↔ StandsFor old new id id' := by
  rw [standIns, StandsFor]
  split
  next same => simp [same]
  next other => simp [other, eq_comm (a := id')]

theorem fans_iff_spread : c.Fans old new d ↔
    d = c.spread (standIns old new) ∧ (c.mentions old = true → d.Filled) := by
  have onSide (side : TaskSet) (id : TaskId) :
      id ∈ side.bind (standIns old new) ↔ OnReplaced old new side id := by
    simp only [TaskSet.mem_bind, mem_standIns, onReplaced_iff]
  constructor
  · intro fans
    refine ⟨ext_parts (by simp [fans.kind]) (fun id => ?_) (fun id => ?_) (by simp [fans.condition]),
      fans.filled⟩
    · rw [first_spread, onSide, fans.first]
    · rw [second_spread, onSide, fans.second]
  · rintro ⟨rfl, filled⟩
    exact ⟨kind_spread, condition?_spread, fun id => by rw [first_spread, onSide],
      fun id => by rw [second_spread, onSide], filled⟩

def standInsBoth (old : TaskId) (new : TaskSet) (other : TaskId) (new' : TaskSet) (id : TaskId) :
    TaskSet :=
  if id = old then new else if id = other then new' else {id}

theorem standInsBoth_comm (different : old ≠ other) :
    standInsBoth old new other new' = standInsBoth other new' old new := by
  funext id
  unfold standInsBoth
  split_ifs with first second
  · exact absurd (first.symm.trans second) different
  all_goals rfl

theorem bind_standIns (apart : other ∉ new) :
    (standIns old new id).bind (standIns other new') = standInsBoth old new other new' id := by
  unfold standInsBoth
  rw [standIns]
  split
  · refine Std.ExtTreeSet.ext_mem fun id' => ?_
    have kept (source : TaskId) (member : source ∈ new) : standIns other new' source = {source} := by
      have different : source ≠ other := fun same => apart (same ▸ member)
      rw [standIns, if_neg different]
    simp only [TaskSet.mem_bind]
    constructor
    · rintro ⟨source, member, inside⟩
      rw [kept source member, TaskSet.mem_singleton] at inside
      exact inside ▸ member
    · exact fun member => ⟨id', member, by rw [kept id' member, TaskSet.mem_singleton]⟩
  · rw [TaskSet.bind_singleton, standIns]

theorem fans_fans (different : old ≠ other) (apart : other ∉ new) :
    (∃ e, c.Fans old new e ∧ e.Fans other new' d) ↔
      d = c.spread (standInsBoth old new other new') ∧
        (c.mentions old = true ∨ c.mentions other = true → d.Filled) := by
  have both : (c.spread (standIns old new)).spread (standIns other new') =
      c.spread (standInsBoth old new other new') := by
    rw [spread_spread]
    exact congrArg (c.spread ·) (funext fun id => bind_standIns apart)
  have mentions : (c.spread (standIns old new)).mentions other = true ↔ c.mentions other = true := by
    rw [mentions_spread]
    constructor
    · rintro ⟨source, mentioned, member⟩
      rcases mem_standIns.mp member with ⟨rfl, -⟩ | ⟨-, inside⟩
      · exact mentioned
      · exact absurd inside apart
    · exact fun mentioned => ⟨other, mentioned, mem_standIns.mpr (.of_ne different.symm)⟩
  simp only [fans_iff_spread]
  constructor
  · rintro ⟨e, ⟨rfl, filled⟩, rfl, filledBoth⟩
    refine ⟨both, fun mentioned => ?_⟩
    by_cases second : c.mentions other = true
    · exact filledBoth (mentions.mpr second)
    · -- Nothing is left to replace, so the constraint is as it was after the first replacement.
      have absent : (c.spread (standIns old new)).mentions other = false :=
        Bool.eq_false_iff.mpr (mt mentions.mp second)
      have kept : (c.spread (standIns old new)).Fans other new' (c.spread (standIns old new)) :=
        (Fans.of_not_mentions absent).mpr rfl
      rw [← (fans_iff_spread.mp kept).1]
      exact filled (mentioned.resolve_right second)
  · rintro ⟨rfl, filled⟩
    rw [← both] at filled ⊢
    exact ⟨_, ⟨rfl, fun first => (filled (.inl first)).of_spread⟩, rfl,
      fun second => filled (.inr (mentions.mp second))⟩

end Constraint

namespace Network

/-! ## Other identities -/

structure Renamed (f : TaskId → TaskId) (n n' : Network) : Prop where
  injective : Set.InjOn f {id | n.contains id = true}
  tasks : ∀ id u, n'.find? id = some u ↔
    ∃ source t, n.find? source = some t ∧ f source = id ∧ u = { t with id := id }
  constraints : ∀ d, d ∈ n'.constraints ↔ ∃ c ∈ n.constraints, c.rename f = d

section Renamed

variable {f g h : TaskId → TaskId} {n a b : Network} {supply : Supply}

theorem Renamed.contains_iff (renamed : Renamed f a b) {id : TaskId} :
    b.contains id = true ↔ ∃ source, a.contains source = true ∧ f source = id := by
  simp only [Network.contains_iff, renamed.tasks]
  constructor
  · rintro ⟨-, source, t, found, same, -⟩
    exact ⟨source, ⟨t, found⟩, same⟩
  · rintro ⟨source, ⟨t, found⟩, same⟩
    exact ⟨_, source, t, found, same, rfl⟩

theorem Renamed.ids (renamed : Renamed f a b) : b.ids = a.ids.image f :=
  Std.ExtTreeSet.ext_mem fun id => by
    simp only [mem_ids, renamed.contains_iff, TaskSet.mem_image]

theorem Renamed.injOn_rename (renamed : Renamed f a b) (formed : a.WellFormed) :
    Set.InjOn (·.rename f) a.held := by
  intro c heldC d heldD same
  have within {c : Constraint} (held : c ∈ a.constraints) : (∀ id ∈ c.first, a.contains id = true) ∧
      ∀ id ∈ c.second, a.contains id = true := by
    have closed := formed.closed c held
    simp only [Constraint.mem_references] at closed
    exact ⟨fun id member => closed id (.inl member), fun id member => closed id (.inr member)⟩
  have kind := congrArg Constraint.kind same
  have first := congrArg Constraint.first same
  have second := congrArg Constraint.second same
  have condition := congrArg Constraint.condition? same
  simp only [Constraint.kind_rename, Constraint.first_rename, Constraint.second_rename,
    Constraint.condition?_rename] at kind first second condition
  refine Constraint.ext_parts kind (fun id => ?_) (fun id => ?_) condition
  · rw [TaskSet.eq_of_image renamed.injective (within heldC).1 (within heldD).1 first]
  · rw [TaskSet.eq_of_image renamed.injective (within heldC).2 (within heldD).2 second]

theorem Valid.renamed_reissued [Counters] (valid : n.Valid) (enough : supply.Enough n.size) :
    Renamed (n.issued supply) n (n.reissued supply).1 where
  injective := issued_injOn enough
  tasks _ _ := find?_reissued enough
  constraints _ := valid.mem_constraints_reissued supply

theorem Renamed.of_common (first : Renamed g n a) (second : Renamed h n b) (formed : n.WellFormed)
    (maps : ∀ id, n.contains id = true → f (g id) = h id) : Renamed f a b where
  injective := by
    intro p inP q inQ same
    obtain ⟨p', knownP, rfl⟩ := first.contains_iff.mp inP
    obtain ⟨q', knownQ, rfl⟩ := first.contains_iff.mp inQ
    rw [maps p' knownP, maps q' knownQ] at same
    rw [second.injective knownP knownQ same]
  tasks id u := by
    rw [second.tasks]
    constructor
    · rintro ⟨source, t, found, rfl, rfl⟩
      have known := Network.contains_iff.mpr ⟨t, found⟩
      exact ⟨g source, _, (first.tasks _ _).mpr ⟨source, t, found, rfl, rfl⟩, maps source known, rfl⟩
    · rintro ⟨middle, v, present, rfl, rfl⟩
      obtain ⟨source, t, found, rfl, rfl⟩ := (first.tasks _ _).mp present
      exact ⟨source, t, found, (maps source (Network.contains_iff.mpr ⟨t, found⟩)).symm, rfl⟩
  constraints d := by
    have same {c : Constraint} (held : c ∈ n.constraints) : (c.rename g).rename f = c.rename h := by
      rw [Constraint.rename_rename]
      exact Constraint.rename_congr fun id reference => maps id (formed.closed c held id reference)
    rw [second.constraints]
    constructor
    · rintro ⟨c, held, rfl⟩
      exact ⟨c.rename g, (first.constraints _).mpr ⟨c, held, rfl⟩, same held⟩
    · rintro ⟨e, present, rfl⟩
      obtain ⟨c, held, rfl⟩ := (first.constraints e).mp present
      exact ⟨c, held, (same held).symm⟩

end Renamed

end Network

end HtnPlanning
