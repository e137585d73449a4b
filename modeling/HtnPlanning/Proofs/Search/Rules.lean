import HtnPlanning.Proofs.Linearization.Rules
import HtnPlanning.Proofs.Search.Causes
import HtnPlanning.Proofs.Search.Conclusions

namespace HtnPlanning

open Constraint (Fans StandsFor)

structure Method.Fits (m : Method) (t : Task) (f : String → Constant) : Prop where
  name : m.pattern.name = t.name
  args : m.pattern.args.map (·.subst (Variable.given f)) = t.args
  closed : m.Closed

structure Network.Instantiates (n : Network) (t : Task) (m : Method) (f : String → Constant)
    (supply : Supply) (next : Network) : Prop where
  tasks : ∀ u, u ∈ next.taskList ↔ (u ∈ n.taskList ∧ u.id ≠ t.id) ∨
    ∃ v ∈ m.template.taskList, { v.subst (Variable.given f) with
      id := m.template.issued (supply.copied m) v.id } = u
  constraints : ∀ d, d ∈ next.constraints ↔
    (∃ c ∈ n.constraints, c.Fans t.id (m.template.issuedIds (supply.copied m)) d) ∨
      ∃ c ∈ m.template.constraints, (c.subst (Variable.given f)).rename
        (m.template.issued (supply.copied m)) = d

variable {n next : Network} {t u : Task} {m : Method} {f : String → Constant} {supply : Supply}

namespace Method.Fits

variable (fits : m.Fits t f)
include fits

theorem varList_eq_nil : t.varList = [] := by
  refine List.eq_nil_iff_forall_not_mem.mpr fun v inTask => ?_
  have arg := Task.mem_varList.mp inTask
  rw [← fits.args] at arg
  obtain ⟨x, -, image⟩ := List.mem_map.mp arg
  obtain ⟨w, rfl, image⟩ := Term.subst_eq_var image
  cases image

theorem args_apply (s : Substitution) : t.args.map (·.apply s) = t.args := by
  refine (List.map_congr_left fun x arg => ?_).trans (List.map_id _)
  cases x with
  | const c => rfl
  | var w =>
      have inTask := Task.mem_varList.mpr arg
      rw [fits.varList_eq_nil] at inTask
      cases inTask

theorem exists_unifier (scope : Nat) :
    ∃ u : Substitution, u.Unifies (m.pattern.subst (inScope scope)) t := by
  let copy := m.pattern.subst (inScope scope)
  obtain ⟨u, images, -⟩ := Substitution.exists_image copy.varList.dedup
    (copy.varList.dedup.map (Variable.given f)) (List.nodup_dedup _) (by simp)
  have image (v : Variable) (inCopy : v ∈ copy.varList) : u.image v = v.given f :=
    List.map_inj_left.mp images v (List.mem_dedup.mpr inCopy)
  refine ⟨u, ?_⟩
  rw [Substitution.Unifies, fits.args_apply, ← fits.args]
  refine (List.map_map ..).trans (List.map_congr_left fun x arg => ?_)
  cases x with
  | const c => rfl
  | var v => exact image _ (Task.mem_varList.mpr (List.mem_map_of_mem arg))

theorem copyUnifier (scope : Nat) : ∃ s, m.copyUnifier t scope = .ok s ∧
    ∀ v ∈ m.pattern.varList, (inScope scope v).subst s.image = v.given f := by
  have arity : (m.pattern.subst (inScope scope)).arity = t.arity := by
    simp [Task.arity, Task.subst, ← fits.args]
  have name : (m.pattern.subst (inScope scope)).name = t.name := fits.name
  rcases unifyPattern_spec name arity with
    ⟨s, unified, general⟩ | ⟨-, none⟩
  · refine ⟨s, unified, fun v inPattern => ?_⟩
    have same := general.unifies
    rw [Substitution.Unifies, fits.args_apply, ← fits.args, Task.subst, List.map_map,
      List.map_inj_left] at same
    have image := same _ (Task.mem_varList.mp inPattern)
    rwa [Function.comp_apply, Term.apply_eq_subst] at image
  · obtain ⟨u, unifies⟩ := fits.exists_unifier scope
    exact absurd unifies (none u)

end Method.Fits

namespace Network

theorem Unfolds.instantiates {s : Substitution} (unfolds : n.Unfolds t m s supply next)
    (ground : n.varList = []) (closed : m.Closed)
    (image : ∀ v ∈ m.pattern.varList, (Method.inScope supply.scope v).subst s.image = v.given f) :
    n.Instantiates t m f supply next := by
  have apart (v : Variable) : v ∉ n.varList := ground ▸ List.not_mem_nil
  have keptTask {v : Task} (listed : v ∈ n.taskList) : v.subst s.image = v :=
    (Task.subst_congr fun w inTask =>
      absurd (mem_varList.mpr (.inl ⟨v, listed, inTask⟩)) (apart w)).trans v.subst_var
  have keptConstraint {c : Constraint} (held : c ∈ n.constraints) : c.subst s.image = c :=
    (Constraint.subst_congr fun w inCondition =>
      absurd (mem_varList.mpr (.inr ⟨c, held, inCondition⟩)) (apart w)).trans c.subst_var
  have ownTask {v : Task} (listed : v ∈ m.template.taskList) :
      (v.subst (Method.inScope supply.scope)).subst s.image = v.subst (Variable.given f) :=
    (v.subst_subst).trans (Task.subst_congr fun w inTask =>
      image w (closed w (mem_varList.mpr (.inl ⟨v, listed, inTask⟩))))
  have ownConstraint {c : Constraint} (held : c ∈ m.template.constraints) :
      (c.subst (Method.inScope supply.scope)).subst s.image = c.subst (Variable.given f) :=
    (c.subst_subst).trans (Constraint.subst_congr fun w inCondition =>
      image w (closed w (mem_varList.mpr (.inr ⟨c, held, inCondition⟩))))
  constructor
  · intro u
    rw [unfolds.tasks]
    refine or_congr ⟨?_, ?_⟩ (exists_congr fun v => and_congr_right fun listed => ?_)
    · rintro ⟨v, listed, other, rfl⟩
      exact (keptTask listed).symm ▸ ⟨listed, other⟩
    · exact fun ⟨listed, other⟩ => ⟨u, listed, other, keptTask listed⟩
    · rw [ownTask listed]
  · intro d
    rw [unfolds.constraints]
    refine or_congr (exists_congr fun c => and_congr_right fun held => ?_)
      (exists_congr fun c => and_congr_right fun held => ?_)
    · rw [keptConstraint held]
    · rw [ownConstraint held]

theorem IssuedBefore.tryMethod_fits (before : n.IssuedBefore supply) (ground : n.varList = [])
    (template : m.template.Valid) (member : t ∈ n.taskList) (fits : m.Fits t f) :
    ∃ next, n.tryMethod t m supply = (some next, supply.used m) ∧
      n.Instantiates t m f supply next ∧ next.IssuedBefore (supply.used m) := by
  obtain ⟨s, unifies, image⟩ := fits.copyUnifier supply.scope
  obtain ⟨next, accepted, unfolds, issued⟩ := before.tryMethod template member unifies
  exact ⟨next, accepted, unfolds.instantiates ground fits.closed image, issued⟩

namespace Instantiates

variable (instantiates : n.Instantiates t m f supply next)
include instantiates

theorem varList_eq_nil (ground : n.varList = []) : next.varList = [] := by
  have apart (v : Variable) : v ∉ n.varList := ground ▸ List.not_mem_nil
  refine List.eq_nil_iff_forall_not_mem.mpr fun v inNext => ?_
  rcases mem_varList.mp inNext with ⟨u, listed, inTask⟩ | ⟨d, held, inCondition⟩
  · rcases (instantiates.tasks u).mp listed with ⟨old, -⟩ | ⟨w, -, rfl⟩
    · exact apart v (mem_varList.mpr (.inl ⟨u, old, inTask⟩))
    · obtain ⟨x, -, image⟩ := Task.mem_varList_subst.mp inTask
      cases image
  · rcases (instantiates.constraints d).mp held with ⟨c, old, fans⟩ | ⟨c, -, rfl⟩
    · rw [Constraint.varList, fans.condition, ← Constraint.varList] at inCondition
      exact apart v (mem_varList.mpr (.inr ⟨c, old, inCondition⟩))
    · rw [Constraint.varList_rename] at inCondition
      obtain ⟨x, -, image⟩ := Constraint.mem_varList_subst.mp inCondition
      cases image

theorem mem_taskList_of_only {vs : List Task} (only : ∀ u ∈ n.taskList, u.id = t.id)
    (template : ∀ v, v ∈ m.template.taskList ↔ v ∈ vs) : u ∈ next.taskList ↔
      u ∈ vs.map fun v => { v.subst (Variable.given f) with
        id := m.template.issued (supply.copied m) v.id } := by
  rw [instantiates.tasks, or_iff_right fun old => old.2 (only u old.1), List.mem_map]
  exact exists_congr fun v => and_congr_left fun _ => template v

theorem orders {p q : TaskId} : Orders next.held p q ↔
    (∃ p' q', Orders n.held p' q' ∧
      StandsFor t.id (m.template.issuedIds (supply.copied m)) p' p ∧
      StandsFor t.id (m.template.issuedIds (supply.copied m)) q' q) ∨
    ∃ p' q', Orders m.template.held p' q' ∧ m.template.issued (supply.copied m) p' = p ∧
      m.template.issued (supply.copied m) q' = q := by
  have held : next.held = {d | (∃ c ∈ n.held,
      c.Fans t.id (m.template.issuedIds (supply.copied m)) d) ∨
        d ∈ {d | ∃ c ∈ m.template.held, (c.subst (Variable.given f)).rename
          (m.template.issued (supply.copied m)) = d}} :=
    Set.ext instantiates.constraints
  rw [held, orders_fanned]
  refine or_congr_right (orders_renamed (fun c => ?_) fun d => Iff.rfl)
  exact Constraint.edges_subst ..

theorem alive {setting : Setting} (alive : ∀ u ∈ n.taskList, setting.isDeadEnd u = false)
    (template : ∀ v ∈ m.template.taskList, setting.isDeadEnd v = false) :
    ∀ u ∈ next.taskList, setting.isDeadEnd u = false := by
  intro u listed
  rcases (instantiates.tasks u).mp listed with ⟨old, -⟩ | ⟨v, own, rfl⟩
  · exact alive u old
  · have same : setting.isDeadEnd { v.subst (Variable.given f) with
        id := m.template.issued (supply.copied m) v.id } = setting.isDeadEnd v :=
      Setting.isDeadEnd_congr rfl (List.length_map _) rfl
    exact same.trans (template v own)

end Instantiates

end Network

theorem Method.Fits.concludesBy {setting : Setting} {calls : Nat}
    {result : Except SearchFailure Plan} (fits : m.Fits t f) (template : m.template.Valid)
    (ground : n.varList = []) (member : t ∈ n.taskList)
    (concludes : ∀ supply next, n.Instantiates t m f supply next → next.Valid →
      setting.Concludes calls next result) : setting.ConcludesBy calls n t m result := by
  intro supply before
  obtain ⟨next, accepted, instantiates, issued⟩ :=
    before.tryMethod_fits ground template member fits
  exact ⟨next, accepted, issued, concludes supply next instantiates issued.toValid⟩

end HtnPlanning
