import HtnPlanning.Proofs.Network.Reachability

/-!
# A task replaced by several

When a set of new tasks takes the place of a task, a constraint on the task becomes a constraint on
all of the set. The graph of the result is the old graph with the graph of the new tasks in one of
its vertices, so it has no cycle when neither of the two has one.
-/

namespace HtnPlanning

open Relation (TransGen)

namespace Constraint

variable {old id : TaskId} {new side replaced : TaskSet} {c d : Constraint}

def sides : Constraint → List TaskSet
  | .precedence earlier later => [earlier, later]
  | .before tasks _ => [tasks]
  | .after tasks _ => [tasks]
  | .between earlier later _ => [earlier, later]

def OnReplaced (old : TaskId) (new side : TaskSet) (id : TaskId) : Prop :=
  id ∈ side ∧ id ≠ old ∨ old ∈ side ∧ id ∈ new

/-- One constraint is left of another when a set of tasks takes the place of a task: kind and
condition stay, the task is replaced on every side, and no side of a constraint on the task is
empty afterwards. -/
structure Fans (old : TaskId) (new : TaskSet) (c d : Constraint) : Prop where
  kind : d.kind = c.kind
  condition : d.condition? = c.condition?
  first : ∀ id, id ∈ d.first ↔ OnReplaced old new c.first id
  second : ∀ id, id ∈ d.second ↔ OnReplaced old new c.second id
  filled : c.mentions old = true → ∀ side ∈ d.sides, side ≠ ∅

theorem onReplaced_of_notMem (absent : old ∉ side) : OnReplaced old new side id ↔ id ∈ side := by
  simp only [OnReplaced, absent, false_and, or_false, and_iff_left_iff_imp]
  rintro member rfl
  exact absent member

theorem mem_replacedSide (id : TaskId) :
    id ∈ (if old ∈ side then side.erase old ∪ new else side) ↔ OnReplaced old new side id := by
  split
  next present =>
    simp only [OnReplaced, Std.ExtTreeSet.mem_union_iff, Std.ExtTreeSet.mem_erase, present,
      true_and, ne_eq, Std.LawfulEqOrd.compare_eq_iff_eq, and_comm, eq_comm (a := old)]
  next absent => exact (onReplaced_of_notMem absent).symm

theorem replaceInSide_eq_some : replaceInSide old new side = some replaced ↔
    (∀ id, id ∈ replaced ↔ OnReplaced old new side id) ∧ replaced ≠ ∅ := by
  have members : ∀ id, id ∈ (if old ∈ side then side.erase old ∪ new else side) ↔
      OnReplaced old new side id := mem_replacedSide
  unfold replaceInSide
  generalize (if old ∈ side then side.erase old ∪ new else side) = whole at members
  constructor
  · intro result
    cases empty : whole.isEmpty with
    | true => simp [empty] at result
    | false =>
        obtain rfl : whole = replaced := by simpa [empty] using result
        exact ⟨members, Std.ExtTreeSet.isEmpty_eq_false_iff.mp empty⟩
  · rintro ⟨same, nonempty⟩
    obtain rfl : whole = replaced := Std.ExtTreeSet.ext_mem fun id => (members id).trans (same id).symm
    simp [nonempty]

theorem fans_of_replaceTask (result : c.replaceTask old new = some d) : Fans old new c d := by
  cases c <;> simp only [replaceTask, Option.bind_eq_bind, Option.bind_eq_some_iff,
    replaceInSide_eq_some, Option.pure_def, Option.some.injEq] at result
  case precedence | between =>
    obtain ⟨left, ⟨onLeft, leftFilled⟩, right, ⟨onRight, rightFilled⟩, rfl⟩ := result
    exact ⟨rfl, rfl, onLeft, onRight, by simp [sides, leftFilled, rightFilled]⟩
  case before | after =>
    obtain ⟨side, ⟨onSide, sideFilled⟩, rfl⟩ := result
    exact ⟨rfl, rfl, onSide, by simp [second, OnReplaced], by simp [sides, sideFilled]⟩

theorem Fans.replaceTask_eq (fans : Fans old new c d) (mentions : c.mentions old = true) :
    c.replaceTask old new = some d := by
  obtain ⟨kind, condition, onFirst, onSecond, filled⟩ := fans
  replace filled := filled mentions
  cases c <;> cases d <;> cases kind
  case precedence | between =>
    simp only [sides, Constraint.first, Constraint.second, List.forall_mem_cons] at filled onFirst onSecond
    rw [replaceTask, replaceInSide_eq_some.mpr ⟨onFirst, filled.1⟩,
      replaceInSide_eq_some.mpr ⟨onSecond, filled.2.1⟩]
    cases condition
    rfl
  case before | after =>
    simp only [sides, Constraint.first, List.forall_mem_cons] at filled onFirst
    rw [replaceTask, replaceInSide_eq_some.mpr ⟨onFirst, filled.1⟩]
    cases condition
    rfl

theorem replaceTask_eq_some (mentions : c.mentions old = true) :
    c.replaceTask old new = some d ↔ Fans old new c d :=
  ⟨fans_of_replaceTask, fun fans => fans.replaceTask_eq mentions⟩

theorem Fans.of_not_mentions (absent : c.mentions old = false) : Fans old new c d ↔ d = c := by
  obtain ⟨outsideFirst, outsideSecond⟩ : old ∉ c.first ∧ old ∉ c.second := by
    rw [← not_or, ← mentions_iff, absent]
    exact Bool.false_ne_true
  constructor
  · intro fans
    refine ext_parts fans.kind (fun id => ?_) (fun id => ?_) fans.condition
    · exact (fans.first id).trans (onReplaced_of_notMem outsideFirst)
    · exact (fans.second id).trans (onReplaced_of_notMem outsideSecond)
  · rintro rfl
    exact ⟨rfl, rfl, fun _ => (onReplaced_of_notMem outsideFirst).symm,
      fun _ => (onReplaced_of_notMem outsideSecond).symm, fun member => by simp [absent] at member⟩

theorem Fans.mem_references (fans : Fans old new c d) (member : id ∈ d.references) :
    id ∈ c.references ∧ id ≠ old ∨ id ∈ new := by
  rw [Constraint.mem_references, fans.first, fans.second] at member
  rw [Constraint.mem_references]
  rcases member with (⟨side, other⟩ | ⟨-, inside⟩) | (⟨side, other⟩ | ⟨-, inside⟩)
  exacts [.inl ⟨.inl side, other⟩, .inr inside, .inl ⟨.inr side, other⟩, .inr inside]

/-! ## Who stands for whom -/

def StandsFor (old : TaskId) (new : TaskSet) (id id' : TaskId) : Prop :=
  id' = id ∧ id ≠ old ∨ id = old ∧ id' ∈ new

theorem onReplaced_iff {id' : TaskId} :
    OnReplaced old new side id' ↔ ∃ id ∈ side, StandsFor old new id id' := by
  constructor
  · rintro (⟨member, other⟩ | ⟨member, inside⟩)
    · exact ⟨id', member, .inl ⟨rfl, other⟩⟩
    · exact ⟨old, member, .inr ⟨rfl, inside⟩⟩
  · rintro ⟨id, member, ⟨rfl, other⟩ | ⟨rfl, inside⟩⟩
    · exact .inl ⟨member, other⟩
    · exact .inr ⟨member, inside⟩

theorem Fans.mem_edges (fans : Fans old new c d) {p' q' : TaskId} : (p', q') ∈ d.edges ↔
    ∃ p q, (p, q) ∈ c.edges ∧ StandsFor old new p p' ∧ StandsFor old new q q' := by
  simp only [Constraint.mem_edges, fans.kind, fans.first, fans.second, onReplaced_iff]
  constructor
  · rintro ⟨kind, ⟨p, first, forP⟩, q, second, forQ⟩
    exact ⟨p, q, ⟨kind, first, second⟩, forP, forQ⟩
  · rintro ⟨p, q, ⟨kind, first, second⟩, forP, forQ⟩
    exact ⟨kind, ⟨p, first, forP⟩, q, second, forQ⟩

theorem exists_fans {p q p' q' : TaskId} (edge : (p, q) ∈ c.edges) (forP : StandsFor old new p p')
    (forQ : StandsFor old new q q') : ∃ d, Fans old new c d := by
  obtain ⟨kind, first, second⟩ := Constraint.mem_edges.mp edge
  cases c with
  | before | after | between => cases kind
  | precedence earlier later =>
      let replaced (side : TaskSet) : TaskSet := if old ∈ side then side.erase old ∪ new else side
      refine ⟨.precedence (replaced earlier) (replaced later), rfl, rfl, mem_replacedSide,
        mem_replacedSide, fun _ => ?_⟩
      have filledFirst : replaced earlier ≠ ∅ := Std.ExtTreeSet.ne_empty_of_mem
        ((mem_replacedSide p').mpr (onReplaced_iff.mpr ⟨p, first, forP⟩))
      have filledSecond : replaced later ≠ ∅ := Std.ExtTreeSet.ne_empty_of_mem
        ((mem_replacedSide q').mpr (onReplaced_iff.mpr ⟨q, second, forQ⟩))
      simp [sides, filledFirst, filledSecond]

def collapse (old : TaskId) (new : TaskSet) (id : TaskId) : TaskId :=
  if id ∈ new then old else id

theorem StandsFor.collapse_eq {id' : TaskId} (stands : StandsFor old new id id')
    (outside : id ∉ new) : collapse old new id' = id := by
  rcases stands with ⟨rfl, -⟩ | ⟨rfl, inside⟩
  · rw [collapse, if_neg outside]
  · rw [collapse, if_pos inside]

end Constraint

open Constraint (StandsFor collapse)

theorem orders_fanned {held own : Set Constraint} {old p' q' : TaskId} {new : TaskSet} :
    Orders {d | (∃ c ∈ held, c.Fans old new d) ∨ d ∈ own} p' q' ↔
      (∃ p q, Orders held p q ∧ StandsFor old new p p' ∧ StandsFor old new q q') ∨
        Orders own p' q' := by
  constructor
  · rintro ⟨d, ⟨c, member, fans⟩ | member, edge⟩
    · obtain ⟨p, q, edge, forP, forQ⟩ := fans.mem_edges.mp edge
      exact .inl ⟨p, q, ⟨c, member, edge⟩, forP, forQ⟩
    · exact .inr ⟨d, member, edge⟩
  · rintro (⟨p, q, ⟨c, member, edge⟩, forP, forQ⟩ | ⟨d, member, edge⟩)
    · obtain ⟨d, fans⟩ := Constraint.exists_fans edge forP forQ
      exact ⟨d, .inl ⟨c, member, fans⟩, fans.mem_edges.mpr ⟨p, q, edge, forP, forQ⟩⟩
    · exact ⟨d, .inr member, edge⟩

theorem path_collapse {outer inner merged : Set Constraint} {f : TaskId → TaskId}
    (edges : ∀ p q, Orders merged p q → Orders outer (f p) (f q) ∨ f p = f q ∧ Orders inner p q)
    {p q : TaskId} (path : TransGen (Orders merged) p q) :
    TransGen (Orders outer) (f p) (f q) ∨ f p = f q ∧ TransGen (Orders inner) p q := by
  induction path with
  | single edge =>
      rcases edges _ _ edge with mapped | ⟨same, kept⟩
      · exact .inl (.single mapped)
      · exact .inr ⟨same, .single kept⟩
  | tail _ edge ih =>
      rcases ih with before | ⟨sameBefore, before⟩
      · rcases edges _ _ edge with mapped | ⟨same, -⟩
        · exact .inl (before.tail mapped)
        · exact .inl (same ▸ before)
      · rcases edges _ _ edge with mapped | ⟨same, kept⟩
        · exact .inl (.single (sameBefore ▸ mapped))
        · exact .inr ⟨sameBefore.trans same, before.tail kept⟩

theorem Constraint.StandsFor.of_ne {old p : TaskId} {new : TaskSet} (other : p ≠ old) :
    StandsFor old new p p :=
  .inl ⟨rfl, other⟩

theorem exists_standsFor {old id : TaskId} {new : TaskSet} (filled : id ∈ new) (p : TaskId) :
    ∃ p', StandsFor old new p p' := by
  by_cases same : p = old
  · exact ⟨id, .inr ⟨same, filled⟩⟩
  · exact ⟨p, .of_ne same⟩

theorem path_standsFor {held left : Set Constraint} {old id p q p' q' : TaskId} {new : TaskSet}
    (filled : id ∈ new)
    (edges : ∀ {p q p' q'}, Orders held p q → StandsFor old new p p' → StandsFor old new q q' →
      Orders left p' q')
    (path : TransGen (Orders held) p q) (forP : StandsFor old new p p')
    (forQ : StandsFor old new q q') : TransGen (Orders left) p' q' := by
  induction path generalizing q' with
  | single edge => exact .single (edges edge forP forQ)
  | @tail middle _ _ edge ih =>
      -- The task in the middle may be the one that is gone.
      obtain ⟨between, forMiddle⟩ := exists_standsFor filled middle
      exact (ih forMiddle).tail (edges edge forMiddle forQ)

theorem Acyclic.of_collapse {outer inner merged : Set Constraint} (outerAcyclic : Acyclic outer)
    (innerAcyclic : Acyclic inner) (f : TaskId → TaskId)
    (edges : ∀ p q, Orders merged p q → Orders outer (f p) (f q) ∨ f p = f q ∧ Orders inner p q) :
    Acyclic merged := by
  intro id cycle
  rcases path_collapse edges cycle with around | ⟨-, inside⟩
  · exact outerAcyclic (f id) around
  · exact innerAcyclic id inside

section Fanned

variable {held : Set Constraint} {n : Network} {old p q : TaskId} (formed : n.WellFormed)
  (apart : ∀ c ∈ held, ∀ id ∈ c.references, n.contains id = false)
include formed apart

theorem collapse_orders
    (orders : Orders {d | (∃ c ∈ held, c.Fans old n.ids d) ∨ d ∈ n.constraints} p q) :
    Orders held (collapse old n.ids p) (collapse old n.ids q) ∨
      collapse old n.ids p = collapse old n.ids q ∧ Orders n.held p q := by
  rcases orders_fanned.mp orders with ⟨p', q', orders, forP, forQ⟩ | orders
  · obtain ⟨c, member, edge⟩ := orders
    obtain ⟨-, first, second⟩ := Constraint.mem_edges.mp edge
    have outside {id : TaskId} (side : id ∈ c.first ∨ id ∈ c.second) : id ∉ n.ids := by
      rw [Network.mem_ids, apart c member id (Constraint.mem_references.mpr side)]
      exact Bool.false_ne_true
    rw [forP.collapse_eq (outside (.inl first)), forQ.collapse_eq (outside (.inr second))]
    exact .inl ⟨c, member, edge⟩
  · obtain ⟨earlier, later⟩ := formed.contains_of_orders orders
    refine .inr ⟨?_, orders⟩
    rw [collapse, collapse, if_pos (Network.mem_ids.mpr earlier), if_pos (Network.mem_ids.mpr later)]

theorem Acyclic.fanned (old : TaskId) (acyclic : Acyclic held) (own : Acyclic n.held) :
    Acyclic {d | (∃ c ∈ held, c.Fans old n.ids d) ∨ d ∈ n.constraints} :=
  acyclic.of_collapse own (collapse old n.ids) fun _ _ => collapse_orders formed apart

end Fanned

namespace Validator

variable {v next : Validator} {old : TaskId} {n : Network}

theorem mem_rewritten {new : TaskSet} {d : Constraint} :
    d ∈ v.rewritten old new ↔ ∃ c ∈ v.held, c.Fans old new d := by
  simp only [rewritten, List.mem_filterMap, held, Set.mem_ofPred_eq]
  refine exists_congr fun c => and_congr_right fun _ => ?_
  cases mentions : c.mentions old with
  | true => exact Constraint.replaceTask_eq_some mentions
  | false =>
      rw [Constraint.Fans.of_not_mentions mentions, if_neg Bool.false_ne_true, Option.some.injEq]
      exact eq_comm

structure Replaced (v : Validator) (old : TaskId) (n : Network) (next : Validator) : Prop
    extends next.Valid where
  member : old ∈ v.members
  members : ∀ id, id ∈ next.members ↔ id ∈ v.members ∧ id ≠ old ∨ n.contains id = true
  held : ∀ d, d ∈ next.held ↔ (∃ c ∈ v.held, c.Fans old n.ids d) ∨ d ∈ n.constraints

theorem mem_members_replaced {id : TaskId} : id ∈ v.members.erase old ∪ n.ids ↔
    id ∈ v.members ∧ id ≠ old ∨ n.contains id = true := by
  rw [Std.ExtTreeSet.mem_union_iff, Network.mem_ids, Std.ExtTreeSet.mem_erase]
  simp only [ne_eq, Std.LawfulEqOrd.compare_eq_iff_eq, and_comm, eq_comm (a := old)]

def fanned (v : Validator) (old : TaskId) (n : Network) : Set Constraint :=
  {d | (∃ c ∈ v.held, c.Fans old n.ids d) ∨ d ∈ n.constraints}

def mergeListed (v : Validator) (old : TaskId) (n : Network) (cs : List Constraint) :
    Except InvalidConstraint Validator :=
  cs.foldlM merge { (∅ : Validator) with members := v.members.erase old ∪ n.ids }

def replaceListed (v : Validator) (old : TaskId) (n : Network) (cs : List Constraint) :
    Validator × Option ReplacementError :=
  match v.mergeListed old n cs with
  | .ok next => (next, none)
  | .error error => (v, some (.invalidConstraint error))

theorem lists_rewritten : {d | d ∈ v.rewritten old n.ids ++ n.constraints.toList} = v.fanned old n := by
  ext d
  simp only [Set.mem_ofPred_eq, List.mem_append, mem_rewritten, Std.ExtTreeSet.mem_toList, fanned]

theorem replace_of_member (member : old ∈ v.members) : v.replace old n =
    v.replaceListed old n (v.rewritten old n.ids ++ n.constraints.toList) := by
  rw [replace, if_pos (Std.ExtTreeSet.contains_iff_mem.mpr member)]
  rfl

theorem replace_of_notMem (absent : old ∉ v.members) :
    v.replace old n = (v, some (.unknownTask old)) := by
  rw [replace, if_neg fun contained => absent (Std.ExtTreeSet.contains_iff_mem.mp contained)]

theorem replaceListed_eq_ok {cs : List Constraint} :
    v.replaceListed old n cs = (next, none) ↔ v.mergeListed old n cs = .ok next := by
  unfold replaceListed
  cases v.mergeListed old n cs <;> simp

theorem replaceListed_eq_error {cs : List Constraint} {error : ReplacementError} :
    (v.replaceListed old n cs).2 = some error ↔
      ∃ failure, error = .invalidConstraint failure ∧ v.mergeListed old n cs = .error failure := by
  unfold replaceListed
  cases v.mergeListed old n cs <;> simp [eq_comm]

section Listed

variable {cs : List Constraint} (lists : {d | d ∈ cs} = v.fanned old n)
include lists

theorem replaced_of_mergeListed (member : old ∈ v.members)
    (merged : v.mergeListed old n cs = .ok next) : v.Replaced old n next := by
  obtain ⟨-, sameMembers, heldEq, -⟩ := (consistent_of_members _).foldlM_merge_sound _ merged
  rw [held_of_members, Set.union_empty, lists] at heldEq
  refine ⟨(valid_of_members _).foldlM_merge _ merged, member, fun id => ?_, fun d => ?_⟩
  · rw [sameMembers, mem_members_replaced]
  · rw [heldEq]
    rfl

variable (closed : ∀ c ∈ v.held, ∀ id ∈ c.references, id ∈ v.members) (formed : n.WellFormed)
include closed formed

omit lists in
theorem mem_references_fanned : ∀ d ∈ v.fanned old n, ∀ id ∈ d.references,
    id ∈ v.members.erase old ∪ n.ids := by
  intro d member id reference
  rw [mem_members_replaced]
  rcases member with ⟨c, held, fans⟩ | own
  · rcases fans.mem_references reference with ⟨kept, other⟩ | inside
    · exact .inl ⟨closed c held id kept, other⟩
    · exact .inr (Network.mem_ids.mp inside)
  · exact .inr (formed.closed d own id reference)

theorem mergeListed_isOk_iff :
    (∃ next, v.mergeListed old n cs = .ok next) ↔ Acyclic (v.fanned old n) := by
  constructor
  · rintro ⟨next, merged⟩
    have kept := ((valid_of_members _).foldlM_merge _ merged).acyclic
    obtain ⟨-, -, heldEq, -⟩ := (consistent_of_members _).foldlM_merge_sound _ merged
    rwa [heldEq, held_of_members, Set.union_empty, lists] at kept
  · intro acyclic
    refine (consistent_of_members _).foldlM_merge_ok cs ?_ ?_
    · exact fun d member => mem_references_fanned closed formed d (lists ▸ member)
    · rwa [held_of_members, Set.union_empty, lists]

theorem mergeListed_error {failure : InvalidConstraint}
    (refused : v.mergeListed old n cs = .error failure) :
    ∃ p q, failure = ⟨.precedence, .cycle p q⟩ ∧ Orders (v.fanned old n) p q ∧
      Relation.ReflTransGen (Orders (v.fanned old n)) q p := by
  have cycle := (consistent_of_members _).foldlM_merge_error cs
    (fun d member => mem_references_fanned closed formed d (lists ▸ member)) refused
  rwa [held_of_members, Set.union_empty, lists] at cycle

end Listed

theorem replace_sound (replaced : v.replace old n = (next, none)) : v.Replaced old n next := by
  by_cases member : old ∈ v.members
  · rw [replace_of_member member, replaceListed_eq_ok] at replaced
    exact replaced_of_mergeListed lists_rewritten member replaced
  · rw [replace_of_notMem member] at replaced
    cases replaced

theorem replace_unchanged {error : ReplacementError} (refused : (v.replace old n).2 = some error) :
    (v.replace old n).1 = v := by
  unfold replace at refused ⊢
  split
  · dsimp only
    split
    next merged => simp_all
    next => rfl
  · rfl

theorem Valid.replace (valid : v.Valid) (old : TaskId) (n : Network) : (v.replace old n).1.Valid := by
  rcases result : v.replace old n with ⟨next, _ | error⟩
  case none => exact (replace_sound result).toValid
  case some =>
    obtain rfl : next = v := by simpa [result] using replace_unchanged (congrArg Prod.snd result)
    exact valid

theorem replace_ok (member : old ∈ v.members)
    (closed : ∀ c ∈ v.held, ∀ id ∈ c.references, id ∈ v.members) (acyclic : Acyclic v.held)
    (valid : n.Valid) (fresh : ∀ id ∈ v.members, n.contains id = false) :
    ∃ next, v.replace old n = (next, none) := by
  have ordered : Acyclic (v.fanned old n) :=
    Acyclic.fanned valid.toWellFormed (fun c held id reference =>
      fresh id (closed c held id reference)) old acyclic valid.acyclic
  obtain ⟨next, merged⟩ :=
    (mergeListed_isOk_iff lists_rewritten closed valid.toWellFormed).mpr ordered
  exact ⟨next, by rw [replace_of_member member, replaceListed_eq_ok.mpr merged]⟩

end Validator

end HtnPlanning
