import HtnPlanning.Proofs.Decomposition
import HtnPlanning.Proofs.Unification.Orientation
import HtnPlanning.Samples.Logistics

namespace HtnPlanning.Network

variable {n result : Network} {s : Substitution} {t : Task} {m : Method} {supply supply' : Supply}
  {v : Variable}

theorem mem_varList_of_decompose [Counters] (template : m.template.Valid)
    (done : n.decompose s t m supply = (.ok result, supply')) (known : v ∈ result.varList) :
    ∃ w, (w ∈ n.varList ∨ w ∈ m.template.varList) ∧ s.image w = .var v := by
  obtain ⟨-, -, lookup, constraints, -⟩ := decompose_sound done
  simp only [mem_varList]
  rcases mem_varList.mp known with ⟨u, listed, inTask⟩ | ⟨d, held, inCondition⟩
  · obtain ⟨id, found⟩ := mem_taskList.mp listed
    rw [lookup, Option.or_eq_some_iff] at found
    rcases found with issued | ⟨-, kept⟩
    · obtain ⟨source, own, found, rfl⟩ := exists_of_find?_subtasks issued
      obtain ⟨w, inOwn, image⟩ := Task.mem_varList_apply.mp inTask
      exact ⟨w, .inr (.inl ⟨own, mem_taskList.mpr ⟨source, found⟩, inOwn⟩), image⟩
    · split at kept
      · cases kept
      · obtain ⟨old, found, rfl⟩ := Option.map_eq_some_iff.mp kept
        obtain ⟨w, inOld, image⟩ := Task.mem_varList_apply.mp inTask
        exact ⟨w, .inl (.inl ⟨old, mem_taskList.mpr ⟨id, found⟩, inOld⟩), image⟩
  · rw [constraints, template.mem_constraints_subtasks] at held
    rcases held with ⟨c, held, fans⟩ | ⟨c, own, rfl⟩
    · rw [Constraint.varList, fans.condition] at inCondition
      obtain ⟨w, inOld, image⟩ := Constraint.mem_varList_apply.mp inCondition
      exact ⟨w, .inl (.inr ⟨c, held, inOld⟩), image⟩
    · rw [Constraint.varList_rename] at inCondition
      obtain ⟨w, inOwn, image⟩ := Constraint.mem_varList_apply.mp inCondition
      exact ⟨w, .inr (.inr ⟨c, own, inOwn⟩), image⟩

theorem subst_eq_self (free : ∀ v ∈ n.varList, s.get? v = none) :
    (∀ u ∈ n.taskList, u.apply s = u) ∧ ∀ c ∈ n.constraints, c.apply s = c := by
  constructor
  · intro u listed
    have same : u.subst s.image = u.subst .var := Task.subst_congr fun v inTask =>
      Substitution.image_of_free (free v (mem_varList.mpr (.inl ⟨u, listed, inTask⟩)))
    rw [Task.apply_eq_subst, same, Task.subst_var]
  · intro c held
    have same : c.subst s.image = c.subst .var := Constraint.subst_congr fun v inCondition =>
      Substitution.image_of_free (free v (mem_varList.mpr (.inr ⟨c, held, inCondition⟩)))
    rw [Constraint.apply_eq_subst, same, Constraint.subst_var]

section

variable (member : t ∈ n.taskList) (unified : Method.unifyPattern m.pattern t = .ok s)
  (apart : ∀ v ∈ m.pattern.varList, v ∉ n.varList)

include member unified apart

theorem contains_of_pattern (inPattern : v ∈ m.pattern.varList) : s.contains v = true :=
  Method.contains_of_unifyPattern unified inPattern fun inTask =>
    apart v inPattern (mem_varList.mpr (.inl ⟨t, member, inTask⟩))

theorem not_image_of_pattern (inPattern : v ∈ m.pattern.varList) (w : Variable) :
    s.get? w ≠ some (.var v) := fun image =>
  apart v inPattern
    (mem_varList.mpr (.inl ⟨t, member, Method.unifyPattern_bindsTo unified w v image⟩))

theorem mem_varList_of_unified [Counters] (template : m.template.Valid)
    (done : n.decompose s t m supply = (.ok result, supply')) (known : v ∈ result.varList) :
    v ∈ n.varList ∨ v ∈ m.template.varList ∧ v ∉ m.pattern.varList := by
  obtain ⟨w, source, image⟩ := mem_varList_of_decompose template done known
  rcases Method.unifyPattern_image unified image with rfl | inTask
  · refine source.imp_right fun own => ⟨own, fun inPattern => ?_⟩
    have bound := contains_of_pattern member unified apart inPattern
    rw [Substitution.contains_eq_isSome, Option.isSome_iff_exists] at bound
    obtain ⟨x, last⟩ := bound
    rw [Substitution.image_of_bound last] at image
    exact not_image_of_pattern member unified apart inPattern v (image ▸ last)
  · exact .inl (mem_varList.mpr (.inl ⟨t, member, inTask⟩))

end

end HtnPlanning.Network
