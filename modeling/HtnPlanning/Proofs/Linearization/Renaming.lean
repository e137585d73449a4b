import HtnPlanning.Linearization
import HtnPlanning.Proofs.Linearization.TaskOrder
import HtnPlanning.Proofs.Network.Renaming
import Mathlib.Data.Finset.Image

namespace HtnPlanning

variable {r : Renumbering} {n n' : Network}

/-! ## Order -/

def Rises (f : TaskId → TaskId) (ids : Set TaskId) : Prop :=
  ∀ p ∈ ids, ∀ q ∈ ids, p.number < q.number → (f p).number < (f q).number

namespace Rises

variable {f : TaskId → TaskId} {ids : Set TaskId}

theorem le (rises : Rises f ids) {p q : TaskId} (inP : p ∈ ids) (inQ : q ∈ ids)
    (le : p.number ≤ q.number) : (f p).number ≤ (f q).number := by
  rcases Nat.lt_or_eq_of_le le with less | same
  · exact (rises p inP q inQ less).le
  · obtain rfl : p = q := congrArg TaskId.mk same
    exact Nat.le_refl _

theorem injOn (rises : Rises f ids) : Set.InjOn f ids := by
  intro p inP q inQ same
  rcases Nat.lt_trichotomy p.number q.number with less | equal | more
  · exact absurd (congrArg TaskId.number same) (rises p inP q inQ less).ne
  · exact congrArg TaskId.mk equal
  · exact absurd (congrArg TaskId.number same) (rises q inQ p inP more).ne'

end Rises

theorem TaskId.rises_moved (r : Renumbering) (ids : Set TaskId) : Rises (TaskId.moved r) ids :=
  fun _ _ _ _ less => r.taskMono less

structure Network.Images (f : TaskId → TaskId) (g : Task → Task) (n n' : Network) : Prop where
  rises : Rises f {id | n.contains id = true}
  id : ∀ t, (g t).id = f t.id
  tasks : n'.taskList.Perm (n.taskList.map g)
  orders : ∀ p q, Orders n'.held p q ↔ ∃ p' q', Orders n.held p' q' ∧ f p' = p ∧ f q' = q

namespace TaskOrder

variable {members placed : Finset TaskId} {edges : Finset (TaskId × TaskId)} {order : List TaskId}
  {f : TaskId → TaskId} {g : Task → Task}

section

variable (rises : Rises f members) (inside : ∀ p q, (p, q) ∈ edges → p ∈ members ∧ q ∈ members)
include rises inside

theorem ready_image (within : placed ⊆ members) {id : TaskId} :
    Ready (members.image f) (edges.image (Prod.map f f)) (placed.image f) id ↔
      ∃ source, Ready members edges placed source ∧ f source = id := by
  constructor
  · rintro ⟨member, waits, before⟩
    obtain ⟨source, known, rfl⟩ := Finset.mem_image.mp member
    refine ⟨source, ⟨known, fun old => waits (Finset.mem_image_of_mem _ old), fun p edge => ?_⟩, rfl⟩
    obtain ⟨p', old, same⟩ :=
      Finset.mem_image.mp (before _ (Finset.mem_image.mpr ⟨(p, source), edge, rfl⟩))
    exact rises.injOn (within old) (inside p source edge).1 same ▸ old
  · rintro ⟨source, ⟨known, waits, before⟩, rfl⟩
    refine ⟨Finset.mem_image_of_mem _ known, fun old => ?_, fun p edge => ?_⟩
    · obtain ⟨source', old, same⟩ := Finset.mem_image.mp old
      exact waits (rises.injOn (within old) known same ▸ old)
    · obtain ⟨⟨p', q'⟩, own, same⟩ := Finset.mem_image.mp edge
      obtain ⟨rfl, sameQ⟩ := Prod.mk.inj same
      obtain rfl := rises.injOn (inside p' q' own).2 known sameQ
      exact Finset.mem_image_of_mem _ (before p' own)

theorem Greedy.image (greedy : Greedy members edges placed order) (within : placed ⊆ members) :
    Greedy (members.image f) (edges.image (Prod.map f f)) (placed.image f) (order.map f) := by
  induction greedy with
  | stuck none =>
      refine .stuck fun id ready => ?_
      obtain ⟨source, ready, -⟩ := (ready_image rises inside within).mp ready
      exact none source ready
  | next ready least more ih =>
      refine .next ((ready_image rises inside within).mpr ⟨_, ready, rfl⟩) (fun other otherReady => ?_) ?_
      · obtain ⟨source, sourceReady, rfl⟩ := (ready_image rises inside within).mp otherReady
        exact rises.le ready.1 sourceReady.1 (least source sourceReady)
      · rw [← Finset.image_insert]
        exact ih (Finset.insert_subset ready.1 within)

end

theorem mem_edges_network (formed : n.WellFormed) {p q : TaskId} :
    (p, q) ∈ (TaskOrder.edges n.tasks n.constraints.toList).toFinset ↔ Orders n.held p q := by
  rw [List.mem_toFinset, mem_edges]
  simp only [Std.ExtTreeSet.mem_toList, ← Std.ExtTreeMap.contains_iff_mem]
  exact ⟨fun held => held.1, fun held => ⟨held, formed.contains_of_orders held⟩⟩

theorem keys_image (images : n.Images f g n') (formed : n.WellFormed) (formed' : n'.WellFormed) :
    n'.tasks.keys.toFinset = n.tasks.keys.toFinset.image f := by
  ext id
  rw [List.mem_toFinset, ← formed'.map_id_taskList, (images.tasks.map Task.id).mem_iff, Finset.mem_image]
  simp only [List.mem_toFinset, ← formed.map_id_taskList, List.map_map, List.mem_map,
    Function.comp_apply, images.id, exists_exists_and_eq_and]

theorem edges_image (images : n.Images f g n') (formed : n.WellFormed) (formed' : n'.WellFormed) :
    (TaskOrder.edges n'.tasks n'.constraints.toList).toFinset =
      (TaskOrder.edges n.tasks n.constraints.toList).toFinset.image (Prod.map f f) := by
  ext ⟨p, q⟩
  simp only [mem_edges_network formed', images.orders, Finset.mem_image, Prod.exists,
    mem_edges_network formed, Prod.map_apply, Prod.mk.injEq]

theorem topological_image (images : n.Images f g n') (formed : n.WellFormed) (formed' : n'.WellFormed) :
    topological n'.taskList n'.constraints.toList =
      (topological n.taskList n.constraints.toList).map (List.map g) := by
  have ids (ordered : List Task) : (ordered.map g).map Task.id = (ordered.map Task.id).map f := by
    rw [List.map_map, List.map_map]
    exact List.map_congr_left fun t _ => images.id t
  have known (id : TaskId) : id ∈ n.tasks.keys.toFinset ↔ n.contains id = true := by
    rw [List.mem_toFinset, Network.mem_keys]
  have rises : Rises f n.tasks.keys.toFinset := fun p inP q inQ =>
    images.rises p ((known p).mp inP) q ((known q).mp inQ)
  have greedy := placed_greedy n.tasks n.constraints.toList
  have greedy' := greedy.image rises (fun p q edge => by
    rw [known, known]
    exact formed.contains_of_orders ((mem_edges_network formed).mp edge)) (Finset.empty_subset _)
  rw [← keys_image images formed formed', ← edges_image images formed formed'] at greedy'
  cases order : topological n.taskList n.constraints.toList with
  | ok ordered =>
      obtain ⟨sorted, perm⟩ := (topological_eq_ok formed).mp order
      refine (topological_eq_ok formed').mpr ⟨?_, (perm.map g).trans images.tasks.symm⟩
      rwa [ids, ← greedy.unique sorted]
  | error failure =>
      cases order' : topological n'.taskList n'.constraints.toList with
      | error failure' => rw [topological_error order, topological_error order', Except.map]
      | ok ordered' =>
          -- As many tasks are placed in both networks, and in one of them these are all tasks.
          obtain ⟨sorted', perm'⟩ := (topological_eq_ok formed').mp order'
          have all : (TaskOrder.placed n.tasks n.constraints.toList).length = n.taskList.length := by
            have length := congrArg List.length (greedy'.unique sorted')
            rwa [List.length_map, List.length_map, (perm'.trans images.tasks).length_eq,
              List.length_map] at length
          obtain ⟨ordered, again⟩ := topological_isOk_of_length (distinct_taskList formed)
            (byId_taskList formed ▸ all)
          rw [order] at again
          cases again

theorem topological_moved (moved : n.Moved r n') (formed : n.WellFormed) (formed' : n'.WellFormed) :
    topological n'.taskList n'.constraints.toList =
      (topological n.taskList n.constraints.toList).map (List.map (Task.moved r)) := by
  refine topological_image (f := TaskId.moved r) ⟨TaskId.rises_moved r _, fun _ => rfl, ?_, ?_⟩ formed
    formed'
  · refine (List.perm_ext_iff_of_nodup formed'.nodup_taskList
      (formed.nodup_taskList.map Task.moved_injective)).mpr fun u => ?_
    rw [moved.tasks, List.mem_map]
  · exact fun p q => orders_renamed (fun c => c.edges_subst) moved.constraints

end TaskOrder

/-! ## Failures -/

def Atom.renamed (f : Variable → Variable) (a : Atom) : Atom :=
  { a with args := a.args.map (·.subst fun v => .var (f v)) }

def NotActionableReason.renamed (f : Variable → Variable) : NotActionableReason → NotActionableReason
  | .unboundArgument v => .unboundArgument (f v)
  | reason => reason

def TaskNotActionable.renamed (f : Variable → Variable) (error : TaskNotActionable) :
    TaskNotActionable :=
  ⟨error.task.renamed f, error.reason.renamed f⟩

namespace SearchFailure

def renamed (f : Variable → Variable) : SearchFailure → SearchFailure
  | .methodsExhausted task => .methodsExhausted (task.renamed f)
  | .notActionable error => .notActionable (error.renamed f)
  | .conditionViolated kind condition => .conditionViolated kind (condition.subst fun v => .var (f v))
  | failure => failure

def moved (r : Renumbering) (failure : SearchFailure) : SearchFailure :=
  failure.renamed (Variable.moved r)

end SearchFailure

/-! ## Carrying out tasks -/

theorem Constant.ofTerms_moved (xs : List Term) :
    ofTerms (xs.map (·.moved r)) = (ofTerms xs).mapError (Variable.moved r) := by
  induction xs with
  | nil => rfl
  | cons x xs ih =>
      cases x with
      | var v => rfl
      | const c =>
          simp only [List.map_cons, Term.moved_const, ofTerms, ih]
          cases ofTerms xs <;> rfl

theorem DomainIndex.action_moved (index : DomainIndex) (t : Task) :
    index.action (t.moved r) = (index.action t).mapError (·.renamed (Variable.moved r)) := by
  simp only [action, Task.name_moved, Task.arity_moved, Task.args_moved, Constant.ofTerms_moved]
  cases index.operator? t.name with
  | none => rfl
  | some o =>
      simp only
      split
      next => rfl
      next => cases Constant.ofTerms t.args <;> rfl

namespace Execution

structure Moved (r : Renumbering) (e e' : Execution) : Prop where
  trajectory : e'.trajectory = e.trajectory
  positions : ∀ id : TaskId, e'.positions[id.moved r]? = e.positions[id]?
  actions : e'.actions = e.actions

inductive Agree (r : Renumbering) : Except SearchFailure Execution → Except SearchFailure Execution →
    Prop where
  | ok {e e' : Execution} (moved : e.Moved r e') : Agree r (.ok e) (.ok e')
  | error (failure : SearchFailure) : Agree r (.error failure) (.error (failure.moved r))

variable {e e' : Execution}

theorem moved_start (setting : Setting) : setting.execution.Moved r setting.execution :=
  ⟨rfl, fun _ => by simp [Setting.execution], rfl⟩

theorem Moved.perform (moved : e.Moved r e') (index : DomainIndex) (t : Task) :
    Agree r (e.perform index t) (e'.perform index (t.moved r)) := by
  simp only [Execution.perform, index.action_moved, moved.trajectory, moved.actions]
  cases index.action t with
  | error error => exact .error (.notActionable error)
  | ok performed =>
      obtain ⟨action, o⟩ := performed
      simp only [Except.mapError]
      split
      next =>
        refine .ok ⟨rfl, fun id => ?_, rfl⟩
        simp only [Task.id_moved, Std.ExtTreeMap.getElem?_insert, TaskId.compare_moved, moved.positions]
      next => exact .error (.preconditionFailed action (action.ground o.precondition))

theorem Moved.performAll (moved : e.Moved r e') (index : DomainIndex) (tasks : List Task) :
    Agree r (e.performAll index tasks) (e'.performAll index (tasks.map (·.moved r))) := by
  induction tasks generalizing e e' with
  | nil => exact .ok moved
  | cons t tasks ih =>
      rw [List.map_cons, Execution.performAll, Execution.performAll, List.foldlM_cons, List.foldlM_cons]
      generalize performed : e.perform index t = result
      generalize performed' : e'.perform index (t.moved r) = result'
      have agree := moved.perform index t
      rw [performed, performed'] at agree
      cases agree with
      | ok next => exact ih next
      | error failure => exact .error failure

theorem Moved.satisfies (moved : e.Moved r e') (c : Constraint) :
    e'.satisfies (c.moved r) = e.satisfies c := by
  have positions (ids : TaskSet) : e'.positionsOf (ids.image (·.moved r)) = e.positionsOf ids := by
    rw [positionsOf, positionsOf, TaskSet.toList_image_moved, List.filterMap_map]
    exact List.filterMap_congr fun id _ => moved.positions id
  have holds (a : Condition) :
      e'.holdsBefore (a.subst fun v => .var (v.moved r)) = e.holdsBefore a := by
    funext position
    rw [holdsBefore, holdsBefore, moved.trajectory]
    exact State.ask_moved _ r a
  cases c <;> simp only [Constraint.moved, Constraint.subst, Constraint.rename, Execution.satisfies,
    first?, last?, positions, holds]

theorem Moved.violation? (moved : e.Moved r e') (c : Constraint) :
    e'.violation? (c.moved r) = (e.violation? c).map (·.moved r) := by
  simp only [Execution.violation?, moved.satisfies, Constraint.kind_moved, Constraint.condition?_moved]
  split
  next => rfl
  next => cases c.condition? <;> rfl

end Execution

theorem Setting.linearize_moved {setting : Setting} (sorted : setting.sorter = TaskOrder.topological)
    (moved : n.Moved r n') (formed : n.WellFormed) (formed' : n'.WellFormed) :
    setting.linearize n' = (setting.linearize n).mapError (·.moved r) := by
  rw [linearize, linearize, sorted, TaskOrder.topological_moved moved formed formed',
    moved.toList_constraints]
  cases order : TaskOrder.topological n.taskList n.constraints.toList with
  | error failure =>
      rw [TaskOrder.topological_error order]
      rfl
  | ok ordered =>
      have agree := (Execution.moved_start (r := r) setting).performAll setting.index ordered
      simp only [Except.map, bind, Except.bind]
      generalize setting.execution.performAll setting.index ordered = result at agree
      generalize setting.execution.performAll setting.index (ordered.map (·.moved r)) = result' at agree
      cases agree with
      | error failure => rfl
      | @ok e e' executions =>
          have violations : (n.constraints.toList.map (·.moved r)).findSome? e'.violation? =
              (n.constraints.toList.findSome? e.violation?).map (·.moved r) := by
            rw [List.findSome?_map, List.map_findSome?]
            exact congrArg (n.constraints.toList.findSome? ·) (funext executions.violation?)
          simp only [violations, executions.actions]
          split
          next => cases n.constraints.toList.findSome? e.violation? <;> rfl
          next => rfl

end HtnPlanning
