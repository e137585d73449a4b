import HtnPlanning.Proofs.Decomposition.Commutation
import HtnPlanning.Proofs.Network.Substitution

namespace HtnPlanning

theorem Task.isGround_iff {t : Task} : t.isGround = true ↔ t.varList = [] :=
  Atom.isGround_iff (a := t.call)

namespace Network

variable {n : Network} {s u : Substitution} {v : Variable}

theorem mem_vars_of_task {t : Task} {id : TaskId} (found : n.find? id = some t)
    (inTask : v ∈ t.varList) : v ∈ n.vars :=
  mem_vars.mpr (mem_varList.mpr (.inl ⟨t, mem_taskList.mpr ⟨id, found⟩, inTask⟩))

theorem mem_vars_of_constraint {c : Constraint} (held : c ∈ n.constraints)
    (inCondition : v ∈ c.varList) : v ∈ n.vars :=
  mem_vars.mpr (mem_varList.mpr (.inr ⟨c, held, inCondition⟩))

theorem apply_congr (same : ∀ v ∈ n.vars, s.image v = u.image v) : n.apply s = n.apply u := by
  refine ext_find? (fun id => ?_) fun d => ?_
  · rw [find?_apply, find?_apply]
    refine Option.map_congr fun t found => ?_
    rw [Task.apply_eq_subst, Task.apply_eq_subst]
    exact Task.subst_congr fun v inTask => same v (mem_vars_of_task found inTask)
  · rw [mem_constraints_apply, mem_constraints_apply]
    refine exists_congr fun c => and_congr_right fun held => ?_
    rw [Constraint.apply_eq_subst, Constraint.apply_eq_subst, Constraint.subst_congr fun v inCondition =>
      same v (mem_vars_of_constraint held inCondition)]

theorem apply_empty (n : Network) : n.apply ∅ = n := by
  obtain ⟨tasks, constraints⟩ := subst_eq_self (n := n) (s := ∅) fun _ _ =>
    Std.ExtTreeMap.getElem?_empty
  refine ext_find? (fun id => ?_) fun d => ?_
  · rw [find?_apply]
    cases found : n.find? id with
    | none => rfl
    | some t => exact congrArg some (tasks t (mem_taskList.mpr ⟨id, found⟩))
  · rw [mem_constraints_apply]
    constructor
    · rintro ⟨c, held, rfl⟩
      exact (constraints c held).symm ▸ held
    · exact fun held => ⟨d, held, constraints d held⟩

theorem mem_vars_apply : v ∈ (n.apply s).vars ↔ ∃ w ∈ n.vars, s.image w = .var v := by
  simp only [mem_vars, mem_varList_apply]

theorem image_ofList_singleton (v w : Variable) (x : Term) :
    (Substitution.ofList [(v, x)]).image w = if v = w then x else .var w := by
  rw [Substitution.image, Substitution.get?, Substitution.ofList, Std.ExtTreeMap.ofList_singleton,
    Std.ExtTreeMap.getElem?_insert, Std.ExtTreeMap.getElem?_empty]
  simp only [Std.LawfulEqOrd.compare_eq_iff_eq]
  split <;> rfl

theorem mem_vars_iff_apply_ne : v ∈ n.vars ↔ ∃ x, n.apply (.ofList [(v, x)]) ≠ n := by
  constructor
  · intro known
    refine ⟨.const default, fun unchanged => ?_⟩
    rw [← unchanged, mem_vars_apply] at known
    obtain ⟨w, -, image⟩ := known
    rw [image_ofList_singleton] at image
    split at image
    next => cases image
    next other => exact other (Term.var.inj image).symm
  · rintro ⟨x, changed⟩
    by_contra unknown
    refine changed ((apply_congr fun w known => ?_).trans (apply_empty n))
    have other : v ≠ w := fun same => unknown (same ▸ known)
    rw [image_ofList_singleton, if_neg other]
    rfl

theorem vars_eq_empty : n.vars = ∅ ↔ (∀ t ∈ n.taskList, t.isGround = true) ∧
    ∀ c ∈ n.constraints, ∀ condition, c.condition? = some condition → condition.isGround = true := by
  have none : n.vars = ∅ ↔ n.varList = [] := by
    rw [vars, Std.ExtTreeSet.eq_empty_iff_forall_not_mem]
    simp [List.eq_nil_iff_forall_not_mem]
  have constraint (c : Constraint) : c.condition?.toList.flatMap Condition.varList = [] ↔
      ∀ condition, c.condition? = some condition → condition.varList = [] := by
    cases c.condition? <;> simp
  simp only [none, varList, List.append_eq_nil_iff, List.flatMap_eq_nil_iff, Std.ExtTreeSet.mem_toList,
    constraint, Task.isGround_iff, Condition.isGround_iff]

/-- Substitutions that agree on the variables of a network give the same network. Its variables are
what they leave of the variables that were there, and a network without variables is one whose tasks
and conditions are ground. No variable is listed in vain: each can be bound so that the network
changes. -/
theorem vars_exact (n : Network) (s u : Substitution) :
    ((∀ v ∈ n.vars, (Term.var v).apply s = (Term.var v).apply u) → n.apply s = n.apply u) ∧
    (∀ v, v ∈ (n.apply s).vars ↔ ∃ w ∈ n.vars, (Term.var w).apply s = .var v) ∧
    (n.vars = ∅ ↔ (∀ t ∈ n.taskList, t.isGround = true) ∧
      ∀ c ∈ n.constraints, ∀ condition, c.condition? = some condition →
        condition.isGround = true) ∧
    ∀ v, v ∈ n.vars ↔ ∃ x, n.apply (.ofList [(v, x)]) ≠ n :=
  ⟨apply_congr, fun _ => mem_vars_apply, vars_eq_empty, fun _ => mem_vars_iff_apply_ne⟩

-- The two conditions become one; the binding that makes the difference is not for a variable here.
theorem vars_exact_merged :
    let go := (Task.newPrimitive "go" ["?x"] ⟨1, 1⟩).1
    let n := Network.ofLists [go]
      [.before {⟨1⟩} (.holds "have" ["?x"]), .before {⟨1⟩} (.holds "have" ["?y"])]
    let kiwi : Term := .const ⟨"kiwi"⟩
    let s : Substitution := .ofList [(⟨"x", 0⟩, kiwi), (⟨"y", 0⟩, kiwi)]
    let u : Substitution := .ofList [(⟨"x", 0⟩, kiwi), (⟨"y", 0⟩, kiwi), (⟨"z", 0⟩, kiwi)]
    (∀ v ∈ n.vars, (Term.var v).apply s = (Term.var v).apply u) ∧ n.apply s = n.apply u ∧ s ≠ u ∧
      (n.apply s).constraints.size = 1 ∧ ∀ t ∈ (n.apply s).taskList, t.isGround = true := by
  intro go n kiwi s u
  have vars : n.vars.toList = [⟨"x", 0⟩, ⟨"y", 0⟩] := by decide +kernel
  have agree : ∀ v ∈ n.vars, (Term.var v).apply s = (Term.var v).apply u := by
    simp only [← Std.ExtTreeSet.mem_toList, vars]
    decide +kernel
  have closed : (n.apply s).vars = ∅ := by decide +kernel
  refine ⟨agree, (vars_exact n s u).1 agree, by decide +kernel, by decide +kernel, ?_⟩
  exact ((vars_exact (n.apply s) s u).2.2.1.mp closed).1

end Network

end HtnPlanning
