import HtnPlanning.Proofs.Samples.Juggling
import HtnPlanning.Proofs.Samples.Logistics

namespace HtnPlanning

/-- The searches for the sample problems end, in every supply that has issued the problem, with the
result that they should come to. -/
theorem samples_solved (first second supply : Supply) :
    (∀ held give take : String,
      (∀ symbol ∈ [held, give, take], Term.ofSymbol symbol = .const ⟨symbol⟩) →
      (Juggling.problem held give take second).2 ≤ supply → ∃ report,
        (Juggling.problem held give take second).1.Ends (Juggling.domain first).1 {} supply report ∧
          Juggling.Swapped ⟨held⟩ ⟨give⟩ ⟨take⟩ report.result) ∧
    ∀ parcel destination : String,
      (∀ symbol ∈ [parcel, destination], Term.ofSymbol symbol = .const ⟨symbol⟩) →
      (Logistics.problem parcel destination second).2 ≤ supply → ∃ report,
        (Logistics.problem parcel destination second).1.Ends (Logistics.domain first).1
            Logistics.config supply report ∧
          Logistics.Delivered ⟨parcel⟩ ⟨destination⟩ report.result := by
  constructor
  · intro held give take constants le
    obtain ⟨report, ends, gives⟩ := Juggling.problem_ends constants le
    exact ⟨report, ends, gives ▸ Juggling.swapped_swap ..⟩
  · intro parcel destination constants le
    obtain ⟨report, ends, gives⟩ := Logistics.problem_ends constants le
    exact ⟨report, ends, gives ▸ Logistics.delivered_delivery ..⟩

theorem samples_solved_kiwi :
    (∃ report, (Juggling.problem "kiwi" "banjo" "kiwi" ⟨5, 1⟩).1.Ends (Juggling.domain ⟨1, 1⟩).1 {}
      ⟨10, 1⟩ report ∧ report.result =
        .ok ⟨[Juggling.drop.action [⟨"kiwi"⟩], Juggling.pickup.action [⟨"banjo"⟩]]⟩) ∧
    ∃ report, (Logistics.problem "airport" "harbor" ⟨5, 1⟩).1.Ends (Logistics.domain ⟨1, 1⟩).1
      Logistics.config ⟨10, 1⟩ report ∧ report.result =
        .ok ⟨[Logistics.pick.action [⟨"airport"⟩, ⟨"depot"⟩],
          Logistics.fly.action [⟨"airport"⟩, ⟨"depot"⟩, ⟨"harbor"⟩],
          Logistics.place.action [⟨"airport"⟩, ⟨"harbor"⟩]]⟩ := by
  have solved := samples_solved ⟨1, 1⟩ ⟨5, 1⟩ ⟨10, 1⟩
  constructor
  · obtain ⟨report, ends, swapped⟩ :=
      solved.1 "kiwi" "banjo" "kiwi" (by decide) ⟨by decide, by decide⟩
    exact ⟨report, ends, swapped.plan ⟨"banjo"⟩ (by decide) (.inr ⟨rfl, rfl⟩)⟩
  · obtain ⟨report, ends, delivered⟩ := solved.2 "airport" "harbor" (by decide) ⟨by decide, by decide⟩
    exact ⟨report, ends, delivered.byAir (by decide)⟩

end HtnPlanning
