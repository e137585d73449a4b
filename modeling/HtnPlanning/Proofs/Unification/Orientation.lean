import HtnPlanning.Proofs.Network.Renaming
import HtnPlanning.Proofs.Unification.MostGeneral

namespace HtnPlanning

namespace Substitution

theorem exists_image (vs : List Variable) (xs : List Term) (distinct : vs.Nodup)
    (length : vs.length = xs.length) :
    ∃ u : Substitution, vs.map u.image = xs ∧ ∀ v ∉ vs, u.image v = .var v := by
  induction vs generalizing xs with
  | nil =>
      refine ⟨∅, (List.length_eq_zero_iff.mp length.symm).symm, fun v _ => ?_⟩
      exact image_of_free Std.ExtTreeMap.getElem?_empty
  | cons v vs ih =>
      cases xs with
      | nil => cases length
      | cons x xs =>
          obtain ⟨fresh, distinct⟩ := List.nodup_cons.mp distinct
          obtain ⟨u, images, others⟩ := ih xs distinct (Nat.succ.inj length)
          have image (w : Variable) : (⟨u.bindings.insert v x⟩ : Substitution).image w =
              if v = w then x else u.image w := by
            rw [Substitution.image, get?_insert]
            split <;> rfl
          refine ⟨⟨u.bindings.insert v x⟩, ?_, fun w outside => ?_⟩
          · rw [List.map_cons, image, if_pos rfl, ← images]
            refine congrArg _ (List.map_congr_left fun w member => ?_)
            rw [image, if_neg]
            rintro rfl
            exact fresh member
          · obtain ⟨other, outside⟩ := not_or.mp (outside ∘ List.mem_cons.mpr)
            rw [image, if_neg (Ne.symm other), others w outside]

end Substitution

namespace Method

open Substitution

variable {pattern t : Task} {s : Substitution} {v : Variable}

theorem mostGeneral_of_unifyPattern (unified : unifyPattern pattern t = .ok s) :
    s.MostGeneral pattern t := by
  obtain ⟨name, arity, -⟩ := unifyPattern_eq_ok unified
  rcases unifyPattern_spec name arity with ⟨s', unified', general⟩ | ⟨⟨c, d, -, failed⟩, -⟩
  · rw [unified] at unified'
    exact Except.ok.inj unified' ▸ general
  · rw [unified] at failed
    cases failed

theorem contains_of_unifyPattern (unified : unifyPattern pattern t = .ok s)
    (inPattern : v ∈ pattern.varList) (apart : v ∉ t.varList) : s.contains v = true := by
  cases bound : s.get? v with
  | some x => rw [contains_eq_isSome, bound, Option.isSome_some]
  | none =>
      have same := (mostGeneral_of_unifyPattern unified).unifies
      have image : s.image v ∈ t.args.map (·.apply s) :=
        same ▸ List.mem_map.mpr ⟨.var v, Task.mem_varList.mp inPattern, rfl⟩
      rw [image_of_free bound] at image
      obtain ⟨y, arg, last⟩ := List.mem_map.mp image
      rw [Term.apply_eq_subst] at last
      obtain ⟨w, rfl, last⟩ := Term.subst_eq_var last
      rcases unifyPattern_image unified last with rfl | inTask
      · exact absurd (Task.mem_varList.mpr arg) apart
      · exact absurd inTask apart

end Method

end HtnPlanning
