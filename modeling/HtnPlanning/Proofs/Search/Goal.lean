import HtnPlanning.Proofs.Search.Rules

namespace HtnPlanning

def Network.single (t : Task) : Network :=
  .ofLists [t] []

namespace Network

variable {t u : Task} {c : Constraint} {v : Variable} {supply : Supply}

theorem mem_taskList_single : u ∈ (single t).taskList ↔ u = t :=
  (mem_taskList_ofLists (List.pairwise_singleton ..)).trans List.mem_singleton

theorem not_mem_constraints_single : c ∉ (single t).constraints :=
  fun held => List.not_mem_nil (mem_constraints_ofLists.mp held)

theorem valid_single (t : Task) : (single t).Valid :=
  valid_ofLists (List.pairwise_singleton ..) nofun nofun

theorem mem_varList_single : v ∈ (single t).varList ↔ v ∈ t.varList := by
  rw [mem_varList]
  constructor
  · rintro (⟨u, listed, inTask⟩ | ⟨c, held, -⟩)
    · exact mem_taskList_single.mp listed ▸ inTask
    · exact absurd held not_mem_constraints_single
  · exact fun inTask => .inl ⟨t, mem_taskList_single.mpr rfl, inTask⟩

theorem varList_single (ground : t.varList = []) : (single t).varList = [] :=
  List.eq_nil_iff_forall_not_mem.mpr fun _ known =>
    List.not_mem_nil (ground ▸ mem_varList_single.mp known)

theorem firstCompound_single (compound : t.primitive = false) : (single t).firstCompound = .ok t := by
  refine (valid_single t).firstCompound_eq_ok.mpr ⟨mem_taskList_single.mpr rfl, compound, ?_⟩
  exact fun u listed _ => Nat.le_of_eq (mem_taskList_single.mp listed ▸ rfl)

theorem issuedBefore_single (ground : t.varList = []) (issued : t.id.number < supply.task) :
    (single t).IssuedBefore supply where
  toValid := valid_single t
  ids _ listed := mem_taskList_single.mp listed ▸ issued
  scopes _ known := absurd (varList_single ground ▸ known) List.not_mem_nil

end Network

theorem Problem.ends_of_single {p : Problem} {d : Domain} {config : PlannerConfig} {supply : Supply}
    {t : Task} {calls : Nat} {results : List (Except SearchFailure Plan)}
    (network : p.network = .single t) (ground : t.varList = []) (compound : t.primitive = false)
    (issued : t.id.number < supply.task)
    (unlimited : (p.setting d config TaskOrder.topological).Unlimited)
    (alive : (p.setting d config TaskOrder.topological).isDeadEnd t = false)
    (each : List.Forall₂ ((p.setting d config TaskOrder.topological).ConcludesBy calls (.single t) t)
      (d.methodsFor t.name) results) :
    ∃ report, p.Ends d config supply report ∧
      report.result = (SearchFailure.methodsExhausted t.call).inTurn results := by
  have candidates : (p.setting d config TaskOrder.topological).index.methodsFor t =
      d.methodsFor t.name := DomainIndex.methodsFor_ofDomain ..
  have concludes : (p.setting d config TaskOrder.topological).Concludes (calls + 1) (.single t)
      ((SearchFailure.methodsExhausted t.call).inTurn results) := by
    refine Setting.concludes_inTurn unlimited (fun u listed => ?_)
      (Network.firstCompound_single compound) (candidates ▸ each)
    exact Network.mem_taskList_single.mp listed ▸ alive
  exact ends_of_concludes (network ▸ Network.issuedBefore_single ground issued) (network ▸ concludes)

end HtnPlanning
