import HtnPlanning.Proofs.Unification.MostGeneral
import Mathlib.Dynamics.PeriodicPts.Lemmas

/-!
# Where chains of bindings end

Looked up again and again, a variable leads to a constant, to a free variable or round a cycle. A walk
stops at the first term that comes up again. Resolving leaves every cycle of two or more variables as it
is, and binds a variable that leads to a cycle to the place where its chain enters the cycle. So walks
end where they did.
-/

namespace HtnPlanning

namespace Substitution

open Function (periodicPts)

variable {s : Substitution} {b : Std.ExtTreeMap Variable Term} {v w : Variable} {x y : Term}
  {j m m' : Nat}

/-! ## The first term that comes up again -/

/-- Of the terms that look-ups give one after another, the one after `m + 1` look-ups is the first that
was there before. -/
structure ComesBack (s : Substitution) (x : Term) (m : Nat) : Prop where
  distinct : ∀ k ≤ m, ∀ i < k, (Term.apply s)^[i] x ≠ (Term.apply s)^[k] x
  again : ∃ i ≤ m, (Term.apply s)^[i] x = (Term.apply s)^[m + 1] x

theorem ComesBack.le (first : s.ComesBack x m) (other : s.ComesBack x m') : m ≤ m' := by
  by_contra less
  obtain ⟨i, le, same⟩ := other.again
  exact first.distinct (m' + 1) (by omega) i (by omega) same

theorem ComesBack.unique (first : s.ComesBack x m) (other : s.ComesBack x m') : m = m' :=
  Nat.le_antisymm (first.le other) (other.le first)

structure Underway (s : Substitution) (x : Term) (j : Nat) (b : Std.ExtTreeMap Variable Term) :
    Prop where
  came : ∀ i < j, ∃ v, (Term.apply s)^[i] x = .var v ∧ b[v]? = none ∧ s.get? v ≠ none
  left : ∀ v, (∀ i < j, (Term.apply s)^[i] x ≠ .var v) → b[v]? = s.get? v
  distinct : ∀ k < j, ∀ i < k, (Term.apply s)^[i] x ≠ (Term.apply s)^[k] x
  size : b.size + j = s.size

theorem underway_start (s : Substitution) (x : Term) : s.Underway x 0 s.bindings where
  came := nofun
  left _ _ := rfl
  distinct := nofun
  size := rfl

namespace Underway

theorem extend (underway : s.Underway x j b)
    (new : ∀ i < j, (Term.apply s)^[i] x ≠ (Term.apply s)^[j] x) :
    ∀ k ≤ j, ∀ i < k, (Term.apply s)^[i] x ≠ (Term.apply s)^[k] x := by
  intro k le
  rcases Nat.lt_or_eq_of_le le with less | rfl
  · exact underway.distinct k less
  · exact new

theorem next (underway : s.Underway x j b) (here : (Term.apply s)^[j] x = .var v)
    (bound : b[v]? = some y) :
    s.Underway x (j + 1) (b.erase v) ∧ (Term.apply s)^[j + 1] x = y := by
  have new : ∀ i < j, (Term.apply s)^[i] x ≠ .var v := by
    intro i less same
    obtain ⟨w, is, gone, -⟩ := underway.came i less
    obtain rfl : w = v := Term.var.inj (is.symm.trans same)
    rw [gone] at bound
    cases bound
  have known : s.get? v = some y := (underway.left v new).symm.trans bound
  refine ⟨⟨?came, ?left, ?distinct, ?size⟩, ?_⟩
  case came =>
    intro i less
    rcases Nat.lt_or_eq_of_le (Nat.le_of_lt_succ less) with earlier | rfl
    · obtain ⟨w, is, gone, held⟩ := underway.came i earlier
      refine ⟨w, is, ?_, held⟩
      rw [Std.ExtTreeMap.getElem?_erase, gone, ite_self]
    · exact ⟨v, here, by simp, by simp [known]⟩
  case left =>
    intro w unseen
    have other : v ≠ w := fun same => unseen j (Nat.lt_succ_self j) (same ▸ here)
    rw [Std.ExtTreeMap.getElem?_erase, if_neg (by simpa using other)]
    exact underway.left w fun i less => unseen i (Nat.lt_succ_of_lt less)
  case distinct =>
    intro k less
    exact underway.extend (fun i less => here ▸ new i less) k (Nat.le_of_lt_succ less)
  case size =>
    have present : b.contains v = true := by
      rw [Std.ExtTreeMap.contains_eq_isSome_getElem?, bound, Option.isSome_some]
    have positive := size_pos_of_getElem? bound
    rw [Std.ExtTreeMap.size_erase, if_pos present, ← underway.size]
    omega
  · rw [Function.iterate_succ_apply', here]
    exact image_of_bound known

theorem stays (underway : s.Underway x j b)
    (new : ∀ i < j, (Term.apply s)^[i] x ≠ (Term.apply s)^[j] x)
    (fixed : ((Term.apply s)^[j] x).apply s = (Term.apply s)^[j] x) :
    ∃ m ≤ s.size, s.ComesBack x m ∧ (Term.apply s)^[j] x = (Term.apply s)^[m + 1] x := by
  have same : (Term.apply s)^[j] x = (Term.apply s)^[j + 1] x := by
    rw [Function.iterate_succ_apply', fixed]
  exact ⟨j, underway.size ▸ Nat.le_add_left .., ⟨underway.extend new, j, Nat.le_refl j, same⟩, same⟩

theorem follow (underway : s.Underway x j b) : ∃ m ≤ s.size,
    s.ComesBack x m ∧ Substitution.follow b ((Term.apply s)^[j] x) = (Term.apply s)^[m + 1] x := by
  generalize here : (Term.apply s)^[j] x = y
  induction b, y using follow.induct generalizing j with
  | case1 b c =>
      rw [Substitution.follow, ← here]
      refine underway.stays (fun i less same => ?_) (by rw [here]; rfl)
      obtain ⟨v, is, -⟩ := underway.came i less
      rw [is, here] at same
      cases same
  | case2 b v gone =>
      rw [follow_var_none gone, ← here]
      by_cases new : ∀ i < j, (Term.apply s)^[i] x ≠ .var v
      · have free : s.get? v = none := (underway.left v new).symm.trans gone
        exact underway.stays (here ▸ new) (by rw [here]; exact image_of_free free)
      · simp only [ne_eq, not_forall, not_not] at new
        obtain ⟨i, less, is⟩ := new
        cases j with
        | zero => cases less
        | succ j =>
            refine ⟨j, by have := underway.size; omega, ⟨fun k le => ?_, i, ?_, ?_⟩, rfl⟩
            · exact underway.distinct k (Nat.lt_succ_of_le le)
            · exact Nat.le_of_lt_succ less
            · rw [is, here]
  | case3 b v next bound ih =>
      obtain ⟨further, there⟩ := underway.next here bound
      rw [follow_var_some bound]
      exact ih further there

end Underway

theorem walk_comesBack (s : Substitution) (x : Term) :
    ∃ m ≤ s.size, s.ComesBack x m ∧ s.walk x = (Term.apply s)^[m + 1] x :=
  (underway_start s x).follow

/-! ## Terms that look-ups come back to -/

theorem mem_periodicPts_apply (periodic : x ∈ periodicPts (Term.apply s)) :
    x.apply s ∈ periodicPts (Term.apply s) :=
  (Function.bijOn_periodicPts (Term.apply s)).mapsTo periodic

theorem mem_periodicPts_walk (s : Substitution) (x : Term) :
    s.walk x ∈ periodicPts (Term.apply s) := by
  obtain ⟨m, -, ⟨-, i, le, same⟩, last⟩ := s.walk_comesBack x
  refine Function.mk_mem_periodicPts (n := m + 1 - i) (by omega) ?_
  rw [Function.IsPeriodicPt, Function.IsFixedPt, last]
  nth_rewrite 1 [← same]
  rw [← Function.iterate_add_apply, Nat.sub_add_cancel (by omega)]

theorem walk_of_periodic (periodic : x ∈ periodicPts (Term.apply s)) : s.walk x = x := by
  obtain ⟨m, -, ⟨distinct, i, le, same⟩, last⟩ := s.walk_comesBack x
  cases i with
  | zero => exact last.trans same.symm
  | succ i =>
      have returns := Function.bijOn_periodicPts (Term.apply s)
      have stays (k : Nat) : (Term.apply s)^[k] x ∈ periodicPts (Term.apply s) :=
        returns.mapsTo.iterate k periodic
      rw [Function.iterate_succ_apply', Function.iterate_succ_apply'] at same
      exact absurd (returns.injOn (stays i) (stays m) same) (distinct m (Nat.le_refl m) i le)

theorem walk_apply (passed : x ∉ periodicPts (Term.apply s)) : s.walk (x.apply s) = s.walk x := by
  obtain ⟨m, -, ⟨distinct, i, le, same⟩, last⟩ := s.walk_comesBack x
  cases i with
  | zero => exact absurd (Function.mk_mem_periodicPts m.succ_pos same.symm) passed
  | succ i =>
      cases m with
      | zero => cases le
      | succ m =>
          have back : s.ComesBack (x.apply s) m :=
            ⟨fun k le' i' less => distinct (k + 1) (by omega) (i' + 1) (by omega),
              i, Nat.le_of_succ_le_succ le, same⟩
          obtain ⟨m', -, back', last'⟩ := s.walk_comesBack (x.apply s)
          rw [last', back'.unique back, last]
          rfl

/-! ## Resolved bindings -/

theorem get?_resolved : s.resolved.get? v = some x ↔
    s.walk ((Term.var v).apply s) = x ∧ x ≠ .var v := by
  rw [get?, getElem?_resolved, ← get?]
  cases bound : s.get? v with
  | none =>
      rw [show (Term.var v).apply s = .var v from image_of_free bound, walk_of_free bound]
      simpa using fun is : Term.var v = x => is.symm
  | some y =>
      rw [show (Term.var v).apply s = y from image_of_bound bound, Option.bind_some]
      split
      next loops => simpa [loops] using fun is : Term.var v = x => is.symm
      next last =>
        rw [Option.some_inj]
        exact ⟨fun is => ⟨is, is ▸ last⟩, And.left⟩

theorem apply_resolved (s : Substitution) (x : Term) : x.apply s.resolved = s.walk (x.apply s) := by
  cases x with
  | const c => exact (walk_const s c).symm
  | var v =>
      by_cases loops : s.walk ((Term.var v).apply s) = .var v
      · have free : s.resolved.get? v = none :=
          Option.eq_none_iff_forall_ne_some.mpr fun x bound =>
            (get?_resolved.mp bound).2 ((get?_resolved.mp bound).1.symm.trans loops)
        exact (image_of_free free).trans loops.symm
      · exact image_of_bound (get?_resolved.mpr ⟨rfl, loops⟩)

theorem apply_resolved_of_periodic (periodic : x ∈ periodicPts (Term.apply s)) :
    x.apply s.resolved = x.apply s := by
  rw [apply_resolved, walk_of_periodic (mem_periodicPts_apply periodic)]

theorem periodicPts_resolved (s : Substitution) :
    periodicPts (Term.apply s.resolved) = periodicPts (Term.apply s) := by
  refine Set.Subset.antisymm (fun x periodic => ?_) fun x ⟨n, positive, returns⟩ => ?_
  · obtain ⟨y, rfl⟩ := Function.periodicPts_subset_range periodic
    exact s.apply_resolved y ▸ s.mem_periodicPts_walk (y.apply s)
  · have same (k : Nat) : (Term.apply s.resolved)^[k] x = (Term.apply s)^[k] x := by
      induction k with
      | zero => rfl
      | succ k ih =>
          rw [Function.iterate_succ_apply', Function.iterate_succ_apply', ih]
          exact apply_resolved_of_periodic
            ((Function.bijOn_periodicPts _).mapsTo.iterate k ⟨n, positive, returns⟩)
    exact ⟨n, positive, (same n).trans returns⟩

theorem walk_resolved (s : Substitution) (x : Term) : s.resolved.walk x = s.walk x := by
  by_cases periodic : x ∈ periodicPts (Term.apply s)
  · rw [walk_of_periodic periodic, walk_of_periodic (s.periodicPts_resolved ▸ periodic)]
  · have ends : x.apply s.resolved ∈ periodicPts (Term.apply s.resolved) := by
      rw [periodicPts_resolved, apply_resolved]
      exact s.mem_periodicPts_walk _
    rw [← walk_apply (s.periodicPts_resolved ▸ periodic), walk_of_periodic ends, apply_resolved,
      walk_apply periodic]

theorem ext_get? {s' : Substitution} (same : ∀ v, s.get? v = s'.get? v) : s = s' := by
  obtain ⟨bindings⟩ := s
  obtain ⟨bindings'⟩ := s'
  exact congrArg Substitution.mk (Std.ExtTreeMap.ext_getElem? fun {v} => same v)

theorem resolved_resolved (s : Substitution) : s.resolved.resolved = s.resolved := by
  refine ext_get? fun v => Option.ext fun x => ?_
  rw [get?_resolved, get?_resolved, walk_resolved, apply_resolved,
    walk_of_periodic (s.mem_periodicPts_walk _)]

/-! ## Cycles of two or more variables -/

def LeadsTo (s : Substitution) (v w : Variable) : Prop :=
  ∃ k, (Term.apply s)^[k] (.var v) = .var w

/-- No cycle of bindings goes through two or more variables. A variable may be bound to itself. -/
def Straight (s : Substitution) : Prop :=
  ∀ v w, s.LeadsTo v w → s.LeadsTo w v → v = w

theorem straight_iff : s.Straight ↔ ∀ x ∈ periodicPts (Term.apply s), x.apply s = x := by
  constructor
  · rintro straight x ⟨n, positive, returns⟩
    obtain ⟨n, rfl⟩ := Nat.exists_eq_succ_of_ne_zero positive.ne'
    cases x with
    | const c => rfl
    | var v =>
        have back : (Term.apply s)^[n] ((Term.var v).apply s) = .var v := returns
        cases next : (Term.var v).apply s with
        | const c =>
            rw [next, Function.iterate_fixed rfl] at back
            cases back
        | var w => rw [straight v w ⟨1, next⟩ ⟨n, next ▸ back⟩]
  · rintro fixed v w ⟨k, there⟩ ⟨k', back⟩
    cases k with
    | zero => exact Term.var.inj there
    | succ k =>
        have returns : (Term.apply s)^[k' + (k + 1)] (.var v) = .var v := by
          rw [Function.iterate_add_apply, there, back]
        have stays := fixed (.var v) ⟨k' + (k + 1), by omega, returns⟩
        rw [Function.iterate_fixed stays] at there
        exact Term.var.inj there

theorem apply_resolved_eq_walk_iff : (∀ x, x.apply s.resolved = s.walk x) ↔ s.Straight := by
  rw [straight_iff]
  constructor
  · intro single x periodic
    rw [← apply_resolved_of_periodic periodic, single, walk_of_periodic periodic]
  · intro fixed x
    by_cases periodic : x ∈ periodicPts (Term.apply s)
    · rw [apply_resolved, fixed x periodic]
    · rw [apply_resolved, walk_apply periodic]

theorem resolved_binds_to_free_iff :
    (∀ v w, s.resolved.get? v = some (.var w) → s.resolved.get? w = none) ↔ s.Straight := by
  rw [straight_iff]
  constructor
  · intro free x periodic
    have next := mem_periodicPts_apply periodic
    -- The term after `x` is looked up to itself, so it is the only one on its cycle.
    have fixed : x ≠ x.apply s → (x.apply s).apply s = x.apply s := by
      intro moves
      cases y : x.apply s with
      | const c => rfl
      | var w =>
          cases x with
          | const c => cases y
          | var v =>
              have bound : s.resolved.get? v = some (.var w) :=
                get?_resolved.mpr ⟨(walk_of_periodic next).trans y, fun same => moves (same ▸ y.symm)⟩
              rw [← apply_resolved_of_periodic (y ▸ next)]
              exact image_of_free (free v w bound)
    by_contra moves
    exact moves ((Function.bijOn_periodicPts _).injOn next periodic (fixed (Ne.symm moves)))
  · intro fixed v w bound
    have periodic : Term.var w ∈ periodicPts (Term.apply s) :=
      (get?_resolved.mp bound).1 ▸ s.mem_periodicPts_walk _
    refine Option.eq_none_iff_forall_ne_some.mpr fun x bound' => ?_
    obtain ⟨last, other⟩ := get?_resolved.mp bound'
    rw [fixed _ periodic, walk_of_periodic periodic] at last
    exact other last.symm

/-- A walk ends at the first term that comes up again when look-ups follow one another, and resolving
changes the end of no walk. A single look-up in the resolved bindings does for a walk exactly when no
cycle goes through two or more variables. In the same case, and in no other, no resolved binding is to a
variable that has one. -/
theorem resolved_agrees (s : Substitution) :
    (∀ x, ∃ m ≤ s.size, s.ComesBack x m ∧ s.walk x = (Term.apply s)^[m + 1] x) ∧
    (∀ x, s.resolved.walk x = s.walk x) ∧
    s.resolved.resolved = s.resolved ∧
    ((∀ x, x.apply s.resolved = s.walk x) ↔ s.Straight) ∧
    ((∀ v w, s.resolved.get? v = some (.var w) → s.resolved.get? w = none) ↔ s.Straight) :=
  ⟨s.walk_comesBack, s.walk_resolved, s.resolved_resolved, apply_resolved_eq_walk_iff,
    resolved_binds_to_free_iff⟩

end Substitution

end HtnPlanning
