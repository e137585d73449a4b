import HtnPlanning.Proofs.Linearization.Renaming
import HtnPlanning.Proofs.Search.Choice

/-!
# The choice of a method under other numbers

Two networks that differ in the numbers issued for them only accept the same methods, and what a method
makes of them differs in the issued numbers only.
-/

namespace HtnPlanning

variable {r : Renumbering} {supply supply' : Supply} {m : Method} {s s' : Substitution}

namespace Renumbering.Issues

variable (issues : r.Issues supply supply')

include issues

theorem moved_issued (id : TaskId) : (m.template.issued (supply.copied m) id).moved r =
    m.template.issued (supply'.copied m) id := by
  rw [TaskId.moved, Network.number_issued, Supply.copied, Nat.add_assoc, issues.task, ← Nat.add_assoc]
  rfl

theorem issuedIds_eq : m.template.issuedIds (supply'.copied m) =
    (m.template.issuedIds (supply.copied m)).image (·.moved r) := by
  rw [Network.issuedIds, Network.issuedIds, TaskSet.image_image]
  exact congrArg (TaskSet.image · _) (funext fun id => (issues.moved_issued id).symm)

variable (images : ∀ v, s'.image (v.moved r) = (s.image v).moved r)

include images

theorem moved_inScope (v : Variable) : ((Method.inScope supply.scope v).subst s.image).moved r =
    (Method.inScope supply'.scope v).subst s'.image := by
  rw [show supply'.scope = r.scope supply.scope from (issues.scope 0).symm]
  exact (images _).symm

theorem moved_task (t : Task) :
    ({ (t.subst (Method.inScope supply.scope)).subst s.image with
      id := m.template.issued (supply.copied m) t.id } : Task).moved r =
    { (t.subst (Method.inScope supply'.scope)).subst s'.image with
      id := m.template.issued (supply'.copied m) t.id } := by
  have same : ((t.subst (Method.inScope supply.scope)).subst s.image).subst
      (fun w => .var (w.moved r)) = (t.subst (Method.inScope supply'.scope)).subst s'.image := by
    rw [Task.subst_subst, Task.subst_subst, Task.subst_subst]
    exact congrArg t.subst (funext (issues.moved_inScope images))
  rw [← same, ← issues.moved_issued]
  rfl

theorem moved_constraint (c : Constraint) :
    (((c.subst (Method.inScope supply.scope)).subst s.image).rename
      (m.template.issued (supply.copied m))).moved r =
    ((c.subst (Method.inScope supply'.scope)).subst s'.image).rename
      (m.template.issued (supply'.copied m)) := by
  have same : ((c.subst (Method.inScope supply.scope)).subst s.image).subst
      (fun w => .var (w.moved r)) = (c.subst (Method.inScope supply'.scope)).subst s'.image := by
    rw [Constraint.subst_subst, Constraint.subst_subst, Constraint.subst_subst]
    exact congrArg c.subst (funext (issues.moved_inScope images))
  rw [Constraint.moved, Constraint.subst_rename, Constraint.rename_rename, same]
  exact congrArg (Constraint.rename · _) (funext issues.moved_issued)

end Renumbering.Issues

namespace Network

variable {n n' next next' : Network} {t : Task}

theorem Unfolds.moved (unfolds : n.Unfolds t m s supply next)
    (unfolds' : n'.Unfolds (t.moved r) m s' supply' next') (moved : n.Moved r n')
    (images : ∀ v, s'.image (v.moved r) = (s.image v).moved r)
    (issues : r.Issues supply supply') : next.Moved r next' := by
  constructor
  · intro u
    rw [unfolds'.tasks]
    simp only [moved.tasks, unfolds.tasks, ← issues.moved_task images]
    constructor
    · rintro (⟨-, ⟨v, kept, rfl⟩, other, rfl⟩ | ⟨v, own, rfl⟩)
      · refine ⟨v.subst s.image, .inl ⟨v, kept, fun same => other ?_, rfl⟩, ?_⟩
        · rw [Task.id_moved, same, Task.id_moved]
        · exact (Task.subst_moved images v).symm
      · exact ⟨_, .inr ⟨v, own, rfl⟩, rfl⟩
    · rintro ⟨-, ⟨v, kept, other, rfl⟩ | ⟨v, own, rfl⟩, rfl⟩
      · refine .inl ⟨v.moved r, ⟨v, kept, rfl⟩, fun same => other (TaskId.moved_injective same), ?_⟩
        exact Task.subst_moved images v
      · exact .inr ⟨v, own, rfl⟩
  · intro d
    rw [unfolds'.constraints]
    simp only [moved.constraints, unfolds.constraints,
      ← issues.moved_constraint images, issues.issuedIds_eq]
    constructor
    · rintro (⟨-, ⟨c, held, rfl⟩, fans⟩ | ⟨c, own, rfl⟩)
      · rw [Constraint.subst_moved images] at fans
        obtain ⟨left, leftFans, rfl⟩ := Constraint.fans_moved.mp fans
        exact ⟨left, .inl ⟨c, held, leftFans⟩, rfl⟩
      · exact ⟨_, .inr ⟨c, own, rfl⟩, rfl⟩
    · rintro ⟨left, ⟨c, held, fans⟩ | ⟨c, own, rfl⟩, rfl⟩
      · refine .inl ⟨c.moved r, ⟨c, held, rfl⟩, ?_⟩
        rw [Constraint.subst_moved images]
        exact Constraint.fans_moved.mpr ⟨left, fans, rfl⟩
      · exact .inr ⟨c, own, rfl⟩

theorem tryMethod_moved (issues : r.Issues supply supply') (moved : n.Moved r n')
    (before : n.IssuedBefore supply) (before' : n'.IssuedBefore supply') (member : t ∈ n.taskList)
    (template : m.template.Valid) :
    n.tryMethod t m supply = (none, supply.copied m) ∧
        n'.tryMethod (t.moved r) m supply' = (none, supply'.copied m) ∨
      ∃ next next', n.tryMethod t m supply = (some next, supply.used m) ∧
        n'.tryMethod (t.moved r) m supply' = (some next', supply'.used m) ∧
        next.IssuedBefore (supply.used m) ∧ next'.IssuedBefore (supply'.used m) ∧
        next.Moved r next' := by
  have member' : t.moved r ∈ n'.taskList := (moved.tasks _).mpr ⟨t, member, rfl⟩
  -- The scope of one copy goes to that of the other.
  have agree : Substitution.Agree r (m.copyUnifier t supply.scope)
      (m.copyUnifier (t.moved r) supply'.scope) := by
    refine Method.unifyPattern_moved rfl ?_ rfl rfl
    rw [show supply'.scope = r.scope supply.scope from (issues.scope 0).symm]
    simp only [Task.subst, List.map_map]
    refine List.map_congr_left fun x _ => ?_
    cases x <;> rfl
  generalize unifies : m.copyUnifier t supply.scope = unifier at agree
  generalize unifies' : m.copyUnifier (t.moved r) supply'.scope = unifier' at agree
  cases agree with
  | error failure failure' => exact .inl ⟨tryMethod_of_error unifies, tryMethod_of_error unifies'⟩
  | ok moves =>
      obtain ⟨next, accepted, unfolds, issued⟩ := before.tryMethod template member unifies
      obtain ⟨next', accepted', unfolds', issued'⟩ := before'.tryMethod template member' unifies'
      exact .inr ⟨next, next', accepted, accepted', issued, issued',
        unfolds.moved unfolds' moved moves.image issues⟩

structure Alike (n : Network) (supply : Supply) (n' : Network) (supply' : Supply) : Prop where
  left : n.IssuedBefore supply
  right : n'.IssuedBefore supply'
  renumbering : ∃ r : Renumbering, r.Between supply supply' ∧ n.Moved r n'

theorem IssuedBefore.alike (before : n.IssuedBefore supply) (le : supply ≤ supply') :
    n.Alike supply n supply' where
  left := before
  right := before.mono le
  renumbering :=
    ⟨.refl, ⟨fun _ below => Nat.lt_of_lt_of_le below le.1, fun _ below => Nat.lt_of_lt_of_le below le.2⟩,
      n.moved_refl⟩

namespace Alike

variable (alike : n.Alike supply n' supply')

include alike

theorem isPrimitive : n'.isPrimitive = n.isPrimitive := by
  obtain ⟨r, -, moved⟩ := alike.renumbering
  exact moved.isPrimitive

theorem linearize {setting : Setting} {plan : Plan} (sorted : setting.sorter = TaskOrder.topological) :
    setting.linearize n' = .ok plan ↔ setting.linearize n = .ok plan := by
  obtain ⟨r, -, moved⟩ := alike.renumbering
  rw [Setting.linearize_moved sorted moved alike.left.toWellFormed alike.right.toWellFormed]
  cases setting.linearize n <;> simp [Except.mapError]

theorem tryMethod (first : n.firstCompound = .ok t) (template : m.template.Valid) :
    ∃ t', n'.firstCompound = .ok t' ∧
      (n.tryMethod t m supply = (none, supply.copied m) ∧
          n'.tryMethod t' m supply' = (none, supply'.copied m) ∨
        ∃ next next', n.tryMethod t m supply = (some next, supply.used m) ∧
          n'.tryMethod t' m supply' = (some next', supply'.used m) ∧
          next.Alike (supply.used m) next' (supply'.used m)) := by
  obtain ⟨before, before', r, between, moved⟩ := alike
  -- The identities to be issued for one network go to those to be issued for the other.
  have continued := before.moved_continued moved between
  have issues := Renumbering.issues_continued between
  refine ⟨_, continued.firstCompound before.toWellFormed before'.toWellFormed first, ?_⟩
  refine (tryMethod_moved issues continued before before'
    (before.toWellFormed.firstCompound_eq_ok.mp first).1 template).imp_right ?_
  rintro ⟨next, next', accepted, accepted', issued, issued', moved'⟩
  exact ⟨next, next', accepted, accepted', issued, issued', r.continued between,
    (issues.add _ _).between, moved'⟩

end Alike

end Network

end HtnPlanning
