import HtnPlanning.Supply
import Mathlib.Data.Nat.ModEq

namespace HtnPlanning

instance : LE Supply :=
  ⟨fun supply later => supply.task ≤ later.task ∧ supply.scope ≤ later.scope⟩

namespace Counters

end Counters

namespace Supply

variable {supply later latest : Supply}

theorem le_refl (supply : Supply) : supply ≤ supply :=
  ⟨Nat.le_refl _, Nat.le_refl _⟩

theorem le_trans (first : supply ≤ later) (second : later ≤ latest) : supply ≤ latest :=
  ⟨Nat.le_trans first.1 second.1, Nat.le_trans first.2 second.2⟩

variable [Counters]

/-- The counter of task numbers gives so many numbers, all of them different. -/
def Enough (supply : Supply) (count : Nat) : Prop :=
  ∀ largest ∈ Counters.task, 0 < supply.task ∧ count ≤ largest

instance {count : Nat} : Decidable (supply.Enough count) :=
  inferInstanceAs (Decidable (∀ largest ∈ Counters.task, 0 < supply.task ∧ count ≤ largest))

omit [Counters] in
theorem enough_unbounded (supply : Supply) {count : Nat} : @Enough .unbounded supply count := nofun

theorem Enough.eq_of_number {count i j : Nat} (enough : supply.Enough count) (lessI : i < count)
    (lessJ : j < count) (same : Counters.number Counters.task (supply.task + i) =
      Counters.number Counters.task (supply.task + j)) : i = j := by
  rw [Enough] at enough
  generalize Counters.task = counter at enough same
  cases counter with
  | none => exact Nat.add_left_cancel same
  | some largest =>
      obtain ⟨positive, fits⟩ := enough largest rfl
      have congruent : supply.task - 1 + i ≡ supply.task - 1 + j [MOD largest] := by
        rw [← Nat.sub_add_comm positive, ← Nat.sub_add_comm positive]
        exact Nat.succ.inj same
      exact congruent.add_left_cancel'.eq_of_lt_of_lt (Nat.lt_of_lt_of_le lessI fits)
        (Nat.lt_of_lt_of_le lessJ fits)

/-- No counter starts again on the way from one position to another. -/
structure Lasts (supply later : Supply) : Prop where
  task : ∀ largest ∈ Counters.task, 0 < supply.task ∧ later.task ≤ largest + 1
  scope : ∀ largest ∈ Counters.scope, 0 < supply.scope ∧ later.scope ≤ largest + 1

instance : Decidable (supply.Lasts later) :=
  decidable_of_iff
    ((∀ largest ∈ Counters.task, 0 < supply.task ∧ later.task ≤ largest + 1) ∧
      ∀ largest ∈ Counters.scope, 0 < supply.scope ∧ later.scope ≤ largest + 1)
    ⟨fun lasts => ⟨lasts.1, lasts.2⟩, fun lasts => ⟨lasts.task, lasts.scope⟩⟩

namespace Lasts

theorem within {first last : Supply} (lasts : supply.Lasts latest) (above : supply ≤ first)
    (below : last ≤ latest) : first.Lasts last where
  task largest bounded :=
    ⟨Nat.lt_of_lt_of_le (lasts.task largest bounded).1 above.1,
      Nat.le_trans below.1 (lasts.task largest bounded).2⟩
  scope largest bounded :=
    ⟨Nat.lt_of_lt_of_le (lasts.scope largest bounded).1 above.2,
      Nat.le_trans below.2 (lasts.scope largest bounded).2⟩

end Lasts

end Supply

end HtnPlanning
