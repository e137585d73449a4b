import HtnPlanning.Linearization
import HtnPlanning.Proofs.Logic.Frame
import Mathlib.Data.List.Induction

namespace HtnPlanning

def Effect.lastOn (effects : List Effect) (a : Atom) : Option Effect :=
  (effects.filter fun e => e.atom = a).getLast?

theorem Effect.lastOn_concat (effects : List Effect) (e : Effect) (a : Atom) :
    lastOn (effects ++ [e]) a = if e.atom = a then some e else lastOn effects a := by
  rw [lastOn, List.filter_append]
  by_cases same : e.atom = a
  · rw [if_pos same, List.filter_cons_of_pos (by simpa using same), List.filter_nil, List.getLast?_concat]
  · rw [if_neg same, List.filter_cons_of_neg (by simpa using same), List.filter_nil, List.append_nil, lastOn]

namespace State

variable {s : State} {a : Atom} {effects others : List Effect}

theorem applyEffects_append (s : State) (effects others : List Effect) :
    s.applyEffects (effects ++ others) = (s.applyEffects effects).applyEffects others :=
  List.foldl_append

theorem applyEffects_concat (s : State) (effects : List Effect) (e : Effect) :
    s.applyEffects (effects ++ [e]) = (s.applyEffects effects).tell e :=
  s.applyEffects_append effects [e]

theorem contains_applyEffects_of_ground (ground : a.isGround = true) :
    (s.applyEffects effects).contains a = true ↔
      Effect.lastOn effects a = some (.add a) ∨
        Effect.lastOn effects a = none ∧ s.contains a = true := by
  induction effects using List.reverseRecOn with
  | nil => simp [applyEffects, Effect.lastOn]
  | append_singleton effects e ih =>
      rw [applyEffects_concat, contains_tell, Effect.lastOn_concat]
      by_cases same : e.atom = a
      · simp [same, ground]
      · simp only [same, false_and, if_false, ih]

theorem contains_applyEffects_of_open (unground : a.isGround = false) :
    (s.applyEffects effects).contains a = s.contains a := by
  induction effects using List.reverseRecOn with
  | nil => rfl
  | append_singleton effects e ih => simp [applyEffects_concat, contains_tell, unground, ih]

theorem applyEffects_eq_of_lastOn (same : ∀ a : Atom, a.isGround = true →
      Effect.lastOn effects a = Effect.lastOn others a) :
    s.applyEffects effects = s.applyEffects others := by
  refine ext_contains fun a => ?_
  cases ground : a.isGround with
  | false => rw [contains_applyEffects_of_open ground, contains_applyEffects_of_open ground]
  | true =>
      rw [Bool.eq_iff_iff, contains_applyEffects_of_ground ground, same a ground,
        contains_applyEffects_of_ground ground]

end State

namespace Trajectory

variable {t : Trajectory} {i : Nat} {effects : List Effect}

def along (initial : State) (progression : StateProgression) (steps : List (List Effect)) : Trajectory :=
  steps.foldl advance { initial, progression }

theorem before_zero : t.before 0 = t.initial := by
  obtain ⟨initial, progression, applied⟩ := t
  cases progression <;> rfl

theorem before_succ (policy : t.progression = .apply) :
    t.before (i + 1) = t.applied[i]?.getD t.initial := by
  simp only [before, policy]

theorem advance_apply (policy : t.progression = .apply) :
    t.advance effects = { t with applied := t.applied ++ [t.latest.applyEffects effects] } := by
  rw [advance, policy]

theorem progression_advance : (t.advance effects).progression = t.progression := by
  rw [advance]
  split <;> rfl

theorem before_advance (policy : t.progression = .apply) (seen : i ≤ t.applied.length) :
    (t.advance effects).before i = t.before i := by
  cases i with
  | zero => rw [before_zero, before_zero, advance_apply policy]
  | succ i =>
      rw [before_succ (progression_advance.trans policy), before_succ policy, advance_apply policy,
        List.getElem?_append_left seen]

theorem latest_eq_before (policy : t.progression = .apply) : t.latest = t.before t.applied.length := by
  rw [latest, List.getLast?_eq_getElem?]
  cases size : t.applied.length with
  | zero => rw [before_zero, List.eq_nil_of_length_eq_zero size]; rfl
  | succ last => rw [before_succ policy, Nat.add_sub_cancel]

theorem before_advance_latest (policy : t.progression = .apply) :
    (t.advance effects).before (t.applied.length + 1) =
      (t.before t.applied.length).applyEffects effects := by
  rw [before_succ (progression_advance.trans policy), advance_apply policy,
    List.getElem?_concat_length, Option.getD_some, latest_eq_before policy]

theorem along_initial (s : State) (steps : List (List Effect)) :
    along s .initial steps = { initial := s, progression := .initial } := by
  induction steps using List.reverseRecOn with
  | nil => rfl
  | append_singleton steps effects ih =>
      rw [along] at ih ⊢
      rw [List.foldl_append, ih]
      rfl

theorem along_apply (s : State) (steps : List (List Effect)) :
    (along s .apply steps).progression = .apply ∧
      (along s .apply steps).applied.length = steps.length ∧
      ∀ i ≤ steps.length, (along s .apply steps).before i = s.applyEffects (steps.take i).flatten := by
  induction steps using List.reverseRecOn with
  | nil => exact ⟨rfl, rfl, fun i le => by rw [Nat.le_zero.mp le, before_zero]; rfl⟩
  | append_singleton steps effects ih =>
      obtain ⟨policy, length, states⟩ := ih
      have next : along s .apply (steps ++ [effects]) = (along s .apply steps).advance effects :=
        List.foldl_append
      rw [next]
      refine ⟨?_, ?_, fun i le => ?_⟩
      · rw [progression_advance, policy]
      · rw [advance_apply policy, List.length_append, List.length_append, length]
        rfl
      · rw [List.length_append, List.length_singleton] at le
        rcases Nat.lt_or_eq_of_le le with earlier | rfl
        · have seen : i ≤ steps.length := Nat.le_of_lt_succ earlier
          rw [before_advance policy (length.symm ▸ seen), states i seen, List.take_append_of_le_length seen]
        · rw [← length, before_advance_latest policy, length, states _ (Nat.le_refl _), List.take_length,
            ← List.length_singleton (a := effects), ← List.length_append, List.take_length,
            List.flatten_append, List.flatten_singleton, State.applyEffects_append]

end Trajectory

/-- A ground atom is a fact after some effects when the last effect on it adds it, or when it was a fact and no
effect is on it. Open atoms stay as they are. Effects with the same last effect on every ground atom lead to the
same state. The states that a plan led through stay as they were: those before any action are given by the
effects of the earlier actions, one list after the other, from the state the plan began in. -/
theorem State.applyEffects_lastWriter (s : State) (effects : List Effect) :
    (∀ a : Atom, a.isGround = true → ((s.applyEffects effects).contains a = true ↔
      Effect.lastOn effects a = some (.add a) ∨
        Effect.lastOn effects a = none ∧ s.contains a = true)) ∧
    (∀ a : Atom, a.isGround = false → (s.applyEffects effects).contains a = s.contains a) ∧
    (∀ others : List Effect,
      (∀ a : Atom, a.isGround = true → Effect.lastOn effects a = Effect.lastOn others a) →
      s.applyEffects effects = s.applyEffects others) ∧
    ∀ (steps : List (List Effect)) (i : Nat), i ≤ steps.length →
      (Trajectory.along s .apply steps).before i = s.applyEffects (steps.take i).flatten ∧
      (Trajectory.along s .initial steps).before i = s := by
  refine ⟨fun a => contains_applyEffects_of_ground, fun a => contains_applyEffects_of_open,
    fun others => applyEffects_eq_of_lastOn, fun steps i le => ⟨?_, ?_⟩⟩
  · exact (Trajectory.along_apply s steps).2.2 i le
  · rw [Trajectory.along_initial]
    rfl

-- A move from a place to itself deletes and adds one fact: the parcel stays there, and it would be gone if the
-- effects were in the other order. An effect with a variable in between is ignored.
theorem State.applyEffects_lastWriter_move :
    let here : Atom := .ofSymbols "at" ["crate", "depot"]
    let anywhere : Atom := .ofSymbols "at" ["crate", "?to"]
    let s : State := ⟨.ofList [here, anywhere] compare⟩
    let move : List Effect := [.delete here, .delete anywhere, .add here]
    here.isGround = true ∧ anywhere.isGround = false ∧
      (s.applyEffects move).contains here = true ∧
      (s.applyEffects move.reverse).contains here = false ∧
      (s.applyEffects move).contains anywhere = true ∧
      s.applyEffects move = s.applyEffects [.add here] ∧
      (Trajectory.along s .apply [move.reverse, move]).before 2 = s.applyEffects (move.reverse ++ move) ∧
      (Trajectory.along s .apply [move.reverse, move]).before 0 = s := by
  intro here anywhere s move
  have ground : here.isGround = true := by decide +kernel
  have unground : anywhere.isGround = false := by decide +kernel
  obtain ⟨last, kept, equal, states⟩ := s.applyEffects_lastWriter move
  obtain ⟨lastReversed, -⟩ := s.applyEffects_lastWriter move.reverse
  refine ⟨ground, unground, (last here ground).mpr (.inl (by decide +kernel)), ?_, ?_, ?_, ?_, ?_⟩
  · rw [Bool.eq_false_iff, Ne, lastReversed here ground]
    decide +kernel
  · rw [kept anywhere unground]
    decide +kernel
  · refine equal _ fun a ground => ?_
    have other : anywhere ≠ a := by
      rintro rfl
      exact absurd ground (by rw [unground]; exact Bool.false_ne_true)
    by_cases same : here = a <;> simp [move, Effect.lastOn, Effect.atom, other, same]
  · exact (states [move.reverse, move] 2 (by decide)).1
  · exact (states [move.reverse, move] 0 (by decide)).1

end HtnPlanning
