import HtnPlanning.Proofs.Logic.Renaming

namespace HtnPlanning.State

variable {s s' : State} {c : Condition} {x : Atom} {e f : Effect} {effects others : List Effect}

theorem ask_congr (same : ∀ x ∈ c.atoms, x.isGround = true → s.contains x = s'.contains x) :
    s.ask c = s'.ask c := by
  induction c using Condition.induct with
  | atom a =>
      rw [ask, ask]
      cases ground : a.isGround with
      | true => rw [same a (List.mem_singleton_self a) ground]
      | false => rfl
  | not c ih => rw [ask, ask, ih same]
  | and parts ih =>
      simp only [Condition.atoms, Condition.atomsAll_eq_flatMap, List.mem_flatMap] at same
      rw [ask, ask, askAll_eq_all, askAll_eq_all, Bool.eq_iff_iff, List.all_eq_true, List.all_eq_true]
      exact forall₂_congr fun c member =>
        Bool.eq_iff_iff.mp (ih c member fun x within => same x ⟨c, member, within⟩)
  | or parts ih =>
      simp only [Condition.atoms, Condition.atomsAll_eq_flatMap, List.mem_flatMap] at same
      rw [ask, ask, askAny_eq_any, askAny_eq_any, Bool.eq_iff_iff, List.any_eq_true, List.any_eq_true]
      exact exists_congr fun c => and_congr_right fun member =>
        Bool.eq_iff_iff.mp (ih c member fun x within => same x ⟨c, member, within⟩)

theorem contains_tell : (s.tell e).contains x =
    if e.atom = x ∧ x.isGround = true then decide (e = .add x) else s.contains x := by
  by_cases same : e.atom = x
  · subst same
    unfold tell
    cases ground : e.atom.isGround with
    | false => simp
    | true => cases e <;> simp [contains, Effect.atom]
  · unfold tell
    split
    · cases e with
      | add a => simp_all [contains, Effect.atom, Std.ExtTreeSet.contains_insert]
      | delete a => simp_all [contains, Effect.atom, Std.ExtTreeSet.contains_erase]
    · simp [same]

theorem contains_applyEffects (untouched : ∀ e ∈ effects, e.atom ≠ x) :
    (s.applyEffects effects).contains x = s.contains x := by
  induction effects generalizing s with
  | nil => rfl
  | cons e effects ih =>
      rw [List.forall_mem_cons] at untouched
      rw [applyEffects, List.foldl_cons, ← applyEffects, ih untouched.2, contains_tell]
      simp [untouched.1]

theorem ask_applyEffects (untouched : ∀ e ∈ effects, e.atom ∉ c.atoms) :
    (s.applyEffects effects).ask c = s.ask c :=
  ask_congr fun _ within _ =>
    contains_applyEffects fun e member same => untouched e member (same ▸ within)

theorem ext_contains (same : ∀ x, s.contains x = s'.contains x) : s = s' := by
  obtain ⟨facts⟩ := s
  obtain ⟨facts'⟩ := s'
  refine congrArg State.mk (Std.ExtTreeSet.ext_mem fun x => ?_)
  rw [← Std.ExtTreeSet.contains_iff_mem, ← Std.ExtTreeSet.contains_iff_mem]
  exact Bool.eq_iff_iff.mp (same x)

theorem tell_comm (agree : e.atom = f.atom → e = f) : (s.tell e).tell f = (s.tell f).tell e := by
  refine ext_contains fun x => ?_
  simp only [contains_tell]
  by_cases first : e.atom = x ∧ x.isGround = true
  · by_cases second : f.atom = x ∧ x.isGround = true
    · rw [agree (first.1.trans second.1.symm)]
    · rw [if_neg second, if_pos first, if_pos first]
  · rw [if_neg first, if_neg first]

theorem tell_applyEffects (agree : ∀ f ∈ others, e.atom = f.atom → e = f) :
    (s.applyEffects others).tell e = (s.tell e).applyEffects others := by
  induction others generalizing s with
  | nil => rfl
  | cons f others ih =>
      rw [List.forall_mem_cons] at agree
      change ((s.tell f).applyEffects others).tell e = ((s.tell e).tell f).applyEffects others
      rw [ih agree.2, tell_comm agree.1]

theorem applyEffects_comm (agree : ∀ e ∈ effects, ∀ f ∈ others, e.atom = f.atom → e = f) :
    (s.applyEffects effects).applyEffects others = (s.applyEffects others).applyEffects effects := by
  induction effects generalizing s with
  | nil => rfl
  | cons e effects ih =>
      rw [List.forall_mem_cons] at agree
      change ((s.tell e).applyEffects effects).applyEffects others =
        ((s.applyEffects others).tell e).applyEffects effects
      rw [ih agree.2, tell_applyEffects agree.1]

end HtnPlanning.State
