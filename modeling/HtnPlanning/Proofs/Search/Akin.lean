import HtnPlanning.Proofs.Search.Derivation

namespace HtnPlanning

namespace Supply

variable (supply supply' : Supply)

def earlier : Supply :=
  ⟨min supply.task supply'.task, min supply.scope supply'.scope⟩

theorem earlier_le_left : supply.earlier supply' ≤ supply :=
  ⟨Nat.min_le_left .., Nat.min_le_left ..⟩

theorem earlier_le_right : supply.earlier supply' ≤ supply' :=
  ⟨Nat.min_le_right .., Nat.min_le_right ..⟩

end Supply

namespace Network

variable {n n' : Network} {supply supply' later later' : Supply} {t t' : Task} {m : Method}
  {setting : Setting}

theorem Moved.isUnsolvable {r : Renumbering} (moved : n.Moved r n') (setting : Setting) :
    setting.isUnsolvable n' = setting.isUnsolvable n := by
  have same (t : Task) : setting.isDeadEnd (t.moved r) = setting.isDeadEnd t :=
    Setting.isDeadEnd_congr Task.name_moved Task.arity_moved Task.primitive_moved
  rw [Bool.eq_iff_iff, Setting.isUnsolvable, Setting.isUnsolvable, List.any_eq_true,
    List.any_eq_true]
  simp only [moved.tasks]
  constructor
  · rintro ⟨-, ⟨t, listed, rfl⟩, dead⟩
    exact ⟨t, listed, same t ▸ dead⟩
  · rintro ⟨t, listed, dead⟩
    exact ⟨_, ⟨t, listed, rfl⟩, (same t).trans dead⟩

namespace Alike

theorem mono (alike : n.Alike supply n' supply') (le : supply' ≤ later) : n.Alike supply n' later where
  left := alike.left
  right := alike.right.mono le
  renumbering := by
    obtain ⟨r, between, moved⟩ := alike.renumbering
    exact ⟨r, ⟨fun k below => Nat.lt_of_lt_of_le (between.task k below) le.1,
      fun k below => Nat.lt_of_lt_of_le (between.scope k below) le.2⟩, moved⟩

theorem isUnsolvable (alike : n.Alike supply n' supply') :
    setting.isUnsolvable n' = setting.isUnsolvable n := by
  obtain ⟨r, -, moved⟩ := alike.renumbering
  exact moved.isUnsolvable setting

theorem firstCompound (alike : n.Alike supply n' supply') (first : n.firstCompound = .ok t) :
    ∃ t', n'.firstCompound = .ok t' ∧ t'.name = t.name := by
  obtain ⟨r, -, moved⟩ := alike.renumbering
  exact ⟨_, moved.firstCompound alike.left.toWellFormed alike.right.toWellFormed first, Task.name_moved⟩

end Alike

/-- Two networks that were made from a common one, and the supplies of their searches. -/
def Akin (n : Network) (supply : Supply) (n' : Network) (supply' : Supply) : Prop :=
  ∃ origin source, Alike origin source n supply ∧ Alike origin source n' supply'

theorem IssuedBefore.earlier (before : n.IssuedBefore supply) (before' : n.IssuedBefore supply') :
    n.IssuedBefore (supply.earlier supply') where
  toValid := before.toValid
  ids t listed := Nat.lt_min.mpr ⟨before.ids t listed, before'.ids t listed⟩
  scopes v known := Nat.lt_min.mpr ⟨before.scopes v known, before'.scopes v known⟩

theorem IssuedBefore.akin (before : n.IssuedBefore supply) (before' : n.IssuedBefore supply') :
    n.Akin supply n supply' :=
  have common := before.earlier before'
  ⟨n, _, common.alike (supply.earlier_le_left _), common.alike (supply.earlier_le_right _)⟩

namespace Akin

variable (akin : n.Akin supply n' supply')

include akin

theorem left : n.IssuedBefore supply := by
  obtain ⟨origin, source, toLeft, -⟩ := akin
  exact toLeft.right

theorem mono (le : supply ≤ later) (le' : supply' ≤ later') : n.Akin later n' later' := by
  obtain ⟨origin, source, toLeft, toRight⟩ := akin
  exact ⟨origin, source, toLeft.mono le, toRight.mono le'⟩

theorem isPrimitive : n'.isPrimitive = n.isPrimitive := by
  obtain ⟨origin, source, toLeft, toRight⟩ := akin
  exact toRight.isPrimitive.trans toLeft.isPrimitive.symm

theorem isUnsolvable : setting.isUnsolvable n' = setting.isUnsolvable n := by
  obtain ⟨origin, source, toLeft, toRight⟩ := akin
  exact toRight.isUnsolvable.trans toLeft.isUnsolvable.symm

theorem linearize {plan : Plan} (sorted : setting.sorter = TaskOrder.topological) :
    setting.linearize n' = .ok plan ↔ setting.linearize n = .ok plan := by
  obtain ⟨origin, source, toLeft, toRight⟩ := akin
  exact (toRight.linearize sorted).trans (toLeft.linearize sorted).symm

theorem origin_firstCompound (first : n.firstCompound = .ok t) : ∃ origin source t₀,
    Alike origin source n supply ∧ Alike origin source n' supply' ∧ origin.firstCompound = .ok t₀ := by
  obtain ⟨origin, source, toLeft, toRight⟩ := akin
  cases root : origin.firstCompound with
  | ok t₀ => exact ⟨origin, source, t₀, toLeft, toRight, root⟩
  | error error =>
      have primitive := toLeft.isPrimitive.trans (firstCompound_eq_error.mp root)
      have none : n.firstCompound = .error {} := firstCompound_eq_error.mpr primitive
      rw [first] at none
      cases none

theorem firstCompound (first : n.firstCompound = .ok t) :
    ∃ t', n'.firstCompound = .ok t' ∧ t'.name = t.name := by
  obtain ⟨origin, source, t₀, toLeft, toRight, root⟩ := akin.origin_firstCompound first
  obtain ⟨_, first', name⟩ := toLeft.firstCompound root
  obtain rfl := Except.ok.inj (first.symm.trans first')
  obtain ⟨t', right, name'⟩ := toRight.firstCompound root
  exact ⟨t', right, name'.trans name.symm⟩

theorem tryMethod (first : n.firstCompound = .ok t) (first' : n'.firstCompound = .ok t')
    (template : m.template.Valid) :
    n.tryMethod t m supply = (none, supply.copied m) ∧
        n'.tryMethod t' m supply' = (none, supply'.copied m) ∨
      ∃ next next', n.tryMethod t m supply = (some next, supply.used m) ∧
        n'.tryMethod t' m supply' = (some next', supply'.used m) ∧
        next.Akin (supply.used m) next' (supply'.used m) := by
  obtain ⟨origin, source, t₀, toLeft, toRight, root⟩ := akin.origin_firstCompound first
  obtain ⟨_, left, attempts⟩ := toLeft.tryMethod root template
  obtain ⟨_, right, attempts'⟩ := toRight.tryMethod root template
  obtain rfl := Except.ok.inj (first.symm.trans left)
  obtain rfl := Except.ok.inj (first'.symm.trans right)
  rcases attempts with ⟨none, rejected⟩ | ⟨common, next, accepted, some, below⟩
  · rcases attempts' with ⟨-, rejected'⟩ | ⟨common, -, accepted, -⟩
    · exact .inl ⟨rejected, rejected'⟩
    · rw [none] at accepted
      cases accepted
  · rcases attempts' with ⟨none, -⟩ | ⟨common', next', accepted', some', below'⟩
    · rw [none] at accepted
      cases accepted
    · rw [accepted] at accepted'
      cases accepted'
      exact .inr ⟨next, next', some, some', common, _, below, below'⟩

end Akin

end Network

end HtnPlanning
