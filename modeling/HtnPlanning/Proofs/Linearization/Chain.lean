import HtnPlanning.Proofs.Linearization.CanonicalOrder
import HtnPlanning.Proofs.Linearization.Decision
import Mathlib.Data.List.Chain

namespace HtnPlanning

variable {n : Network} {ts : List Task}

theorem TaskOrder.topological_of_chain (valid : n.Valid) (tasks : ∀ t, t ∈ n.taskList ↔ t ∈ ts)
    (chain : ts.IsChain fun t u => Orders n.held t.id u.id) :
    topological n.taskList n.constraints.toList = .ok ts := by
  have distinct := distinct_taskList valid.toWellFormed
  obtain ⟨ordered, sorted⟩ := topological_isOk valid
  have arranges := arranges_of_topological distinct sorted
  let place (t : Task) := (ordered.map Task.id).idxOf t.id
  have inOrder : ordered.Pairwise fun t u => place t < place u :=
    List.pairwise_map (f := Task.id).mp (pairwise_idxOf (arranges.nodup distinct))
  have inChain : ts.Pairwise fun t u => place t < place u := by
    have rises : ts.IsChain fun t u => place t < place u := chain.imp fun t u orders =>
      arranges.idxOf_lt distinct ((before_taskList valid.toWellFormed).mpr orders)
    exact List.pairwise_map.mp ((List.isChain_map (R := (· < ·)) place).mpr rises).pairwise
  have perm : ordered.Perm ts := by
    refine arranges.perm.trans ((List.perm_ext_iff_of_nodup ?_ ?_).mpr tasks)
    · exact valid.toWellFormed.nodup_taskList
    · exact inChain.imp fun less => ne_of_apply_ne place less.ne
  have same : ordered = ts := perm.eq_of_pairwise
    (fun t u _ _ less greater => absurd less greater.not_gt) inOrder inChain
  rw [sorted, same]

variable {d : Domain} {progression : StateProgression} {s final : State} {t : Task} {a : Action}
  {as : List Action} {config : PlannerConfig} {setting : Setting} {failure : SearchFailure}

def Domain.next (d : Domain) (progression : StateProgression) (s : State) (a : Action) : State :=
  match progression with
  | .initial => s
  | .apply => d.after s a

inductive Domain.Does (d : Domain) (progression : StateProgression) :
    State → List Task → List Action → State → Prop where
  | nothing {s : State} : Does d progression s [] [] s
  | next {s final : State} {t : Task} {a : Action} {ts : List Task} {as : List Action}
      (performs : d.Performs s t a) (rest : Does d progression (d.next progression s a) ts as final) :
      Does d progression s (t :: ts) (a :: as) final

theorem Domain.stateAt_cons {i : Nat} : d.stateAt progression s (a :: as) (i + 1) =
    d.stateAt progression (d.next progression s a) as i := by
  cases progression <;> rfl

theorem Domain.stateAt_zero : d.stateAt progression s as 0 = s := by
  cases progression <;> rfl

namespace Domain.Does

theorem stateAt_length (does : d.Does progression s ts as final) :
    d.stateAt progression s as ts.length = final := by
  induction does with
  | nothing => exact stateAt_zero
  | next _ _ ih => exact stateAt_cons.trans ih

theorem carriesOut (does : d.Does config.stateProgression s ts as final) {constraints : ConstraintSet}
    (conditions : config.checkConditions = true → ∀ c ∈ constraints,
      c.HoldsAlong ts (d.stateAt config.stateProgression s as)) :
    (⟨as⟩ : Plan).CarriesOut d s config constraints ts where
  conditions := conditions
  length := by
    clear conditions
    induction does with
    | nothing => rfl
    | next _ _ ih => exact congrArg (· + 1) ih
  performs i t place := by
    clear conditions
    induction does generalizing i with
    | nothing => cases place
    | next performs _ ih =>
        cases i with
        | zero =>
            obtain rfl := Option.some.inj place
            exact ⟨_, rfl, stateAt_zero.symm ▸ performs⟩
        | succ i =>
            obtain ⟨b, present, performs⟩ := ih i place
            exact ⟨b, present, stateAt_cons.symm ▸ performs⟩

end Domain.Does

theorem Constraint.holdsAlong_of_always {c : Constraint} {stateAt : Nat → State}
    (always : ∀ condition, c.condition? = some condition → ∀ i, (stateAt i).ask condition = true) :
    c.HoldsAlong ts stateAt := by
  cases c with
  | precedence => trivial
  | before tasks condition => exact fun i _ => always condition rfl i
  | after tasks condition => exact fun i _ => always condition rfl (i + 1)
  | between earlier later condition => exact fun _ _ _ _ k _ _ => always condition rfl k

section Chain

variable (indexed : setting.index = .ofDomain d) (sorts : setting.sorter = TaskOrder.topological)
  (valid : n.Valid) (tasks : ∀ t, t ∈ n.taskList ↔ t ∈ ts)
  (chain : ts.IsChain fun t u => Orders n.held t.id u.id)
include indexed sorts valid tasks chain

theorem Setting.linearize_of_does
    (does : d.Does setting.config.stateProgression setting.state ts as final)
    (conditions : setting.config.checkConditions = true → ∀ c ∈ n.constraints,
      c.HoldsAlong ts (d.stateAt setting.config.stateProgression setting.state as)) :
    setting.linearize n = .ok ⟨as⟩ := by
  have sorted := TaskOrder.topological_of_chain valid tasks chain
  refine (linearize_eq_ok_of_sorted indexed (sorts ▸ sorted) ?_).mpr (does.carriesOut conditions)
  exact TaskOrder.pairwise_of_topological valid.toWellFormed sorted

theorem Setting.linearize_of_stops (done : List Task) {rest : List Task} (order : ts = done ++ t :: rest)
    (does : d.Does setting.config.stateProgression setting.state done as final)
    (stops : d.Stops final t failure) : setting.linearize n = .error failure := by
  have sorted := TaskOrder.topological_of_chain valid tasks chain
  refine (linearize_eq_error_iff indexed (sorts ▸ sorted) ?_).mpr ?_
  · exact TaskOrder.pairwise_of_topological valid.toWellFormed sorted
  · refine .stopped order (does.carriesOut fun _ c held => ?_) (does.stateAt_length.symm ▸ stops)
    exact absurd held Std.ExtTreeSet.not_mem_empty

end Chain

end HtnPlanning
