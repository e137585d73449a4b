import HtnPlanning.Proofs.Network.Building
import HtnPlanning.Samples.Juggling
import HtnPlanning.Samples.Logistics
import HtnPlanning.Samples.Spin

namespace HtnPlanning

variable {source : Supply} {name dropped picked operator : String} {c : Constraint} {t : Task}

namespace Juggling

theorem template_swapMethod : (swapMethod name dropped picked source).1.template =
    .ofLists
      [⟨⟨source.task⟩, "drop", [.ofSymbol dropped], true⟩,
        ⟨⟨source.task + 1⟩, "pickup", [.ofSymbol picked], true⟩]
      [.precedence {⟨source.task⟩} {⟨source.task + 1⟩},
        .before {⟨source.task⟩} (.holds "have" [dropped]),
        .before {⟨source.task + 1⟩} (.lacks "have" [picked])] := by
  refine (NetworkBuilder.build_ofTasks (Network.valid_ofLists ?_ ?_ ?_) ?_).2
  · simp
  · simp [Constraint.mem_references, Constraint.first, Constraint.second]
    exact fun id => .imp .symm .symm
  · simp [Constraint.mem_edges, Constraint.kind, Constraint.first, Constraint.second]
  · simp [Condition.holds, Condition.lacks]

theorem mem_template : t ∈ (swapMethod name dropped picked source).1.template.taskList ↔
    t = ⟨⟨source.task⟩, "drop", [.ofSymbol dropped], true⟩ ∨
      t = ⟨⟨source.task + 1⟩, "pickup", [.ofSymbol picked], true⟩ := by
  rw [template_swapMethod, Network.mem_taskList_ofLists (by simp), List.mem_pair]

theorem mem_constraints : c ∈ (swapMethod name dropped picked source).1.template.constraints ↔
    c = .precedence {⟨source.task⟩} {⟨source.task + 1⟩} ∨
      c = .before {⟨source.task⟩} (.holds "have" [dropped]) ∨
      c = .before {⟨source.task + 1⟩} (.lacks "have" [picked]) := by
  rw [template_swapMethod, Network.mem_constraints_ofLists]
  simp

theorem valid_template : (swapMethod name dropped picked source).1.template.Valid :=
  ((NetworkBuilder.valid_ofTasks _).addConstraints _).build

end Juggling

namespace Logistics

theorem template_deliver : (deliverMethod source).1.template =
    .ofLists
      [⟨⟨source.task⟩, "pick", [.ofSymbol "?p", .ofSymbol "?from"], true⟩,
        ⟨⟨source.task + 1⟩, "transport", [.ofSymbol "?p", .ofSymbol "?from", .ofSymbol "?to"], false⟩,
        ⟨⟨source.task + 2⟩, "place", [.ofSymbol "?p", .ofSymbol "?to"], true⟩]
      [.precedence {⟨source.task⟩} {⟨source.task + 1⟩},
        .precedence {⟨source.task + 1⟩} {⟨source.task + 2⟩}] := by
  refine (NetworkBuilder.build_ofTasks (Network.valid_ofLists ?_ ?_ ?_)
    (List.nodup_cons.mpr ⟨fun listed => ?_, List.nodup_singleton _⟩)).2
  · simp [Nat.add_assoc]
  · simp only [List.forall_mem_cons, Constraint.mem_references, Constraint.first, Constraint.second]
    simp +contextual [or_imp]
  · simp [Constraint.mem_edges, Constraint.kind, Constraint.first, Constraint.second]
  · have same : ({⟨source.task⟩} : TaskSet) = {⟨source.task + 1⟩} :=
      congrArg Constraint.first (List.mem_singleton.mp listed)
    have first : (⟨source.task⟩ : TaskId) ∈ ({⟨source.task + 1⟩} : TaskSet) := same ▸ by simp
    simp at first

theorem mem_deliver : t ∈ (deliverMethod source).1.template.taskList ↔
    t ∈ [⟨⟨source.task⟩, "pick", [.ofSymbol "?p", .ofSymbol "?from"], true⟩,
      ⟨⟨source.task + 1⟩, "transport", [.ofSymbol "?p", .ofSymbol "?from", .ofSymbol "?to"], false⟩,
      ⟨⟨source.task + 2⟩, "place", [.ofSymbol "?p", .ofSymbol "?to"], true⟩] := by
  rw [template_deliver, Network.mem_taskList_ofLists]
  simp

theorem mem_deliver_constraints : c ∈ (deliverMethod source).1.template.constraints ↔
    c = .precedence {⟨source.task⟩} {⟨source.task + 1⟩} ∨
      c = .precedence {⟨source.task + 1⟩} {⟨source.task + 2⟩} := by
  rw [template_deliver, Network.mem_constraints_ofLists, List.mem_pair]

theorem valid_deliver : (deliverMethod source).1.template.Valid :=
  ((NetworkBuilder.valid_ofTasks _).addConstraints _).build

theorem valid_transport : (transportMethod name operator source).1.template.Valid :=
  (NetworkBuilder.valid_ofTasks _).build

theorem valid_templates : ∀ m ∈ (domain source).1.methods, m.template.Valid :=
  List.forall_mem_cons.mpr
    ⟨valid_deliver, List.forall_mem_cons.mpr ⟨valid_transport, List.forall_mem_singleton.mpr valid_transport⟩⟩

end Logistics

theorem Spin.valid_templates : ∀ m ∈ (domain source).1.methods, m.template.Valid :=
  List.forall_mem_cons.mpr ⟨(NetworkBuilder.valid_ofTasks _).build,
    List.forall_mem_singleton.mpr Network.valid_empty⟩

end HtnPlanning
