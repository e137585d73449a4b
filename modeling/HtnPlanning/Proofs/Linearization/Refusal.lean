import HtnPlanning.Linearization
import HtnPlanning.Proofs.Network.Renaming

namespace HtnPlanning

variable {failure : SearchFailure} {index : DomainIndex} {t : Task}

theorem Constant.ofTerms_eq_error {terms : List Term} {v : Variable} :
    ofTerms terms = .error v ↔
      ∃ (bound : List Constant) (rest : List Term), terms = bound.map Term.const ++ .var v :: rest := by
  induction terms with
  | nil => simp [ofTerms]
  | cons t terms ih =>
      cases t with
      | var w =>
          constructor
          · rintro ⟨⟩
            exact ⟨[], terms, rfl⟩
          · rintro ⟨bound, rest, same⟩
            cases bound <;> cases same
            rfl
      | const c =>
          have carries : ofTerms (.const c :: terms) = .error v ↔ ofTerms terms = .error v := by
            cases rest : ofTerms terms <;> simp [ofTerms, rest, Except.map]
          rw [carries, ih]
          constructor
          · rintro ⟨bound, rest, rfl⟩
            exact ⟨c :: bound, rest, rfl⟩
          · rintro ⟨bound, rest, same⟩
            cases bound with
            | nil => cases same
            | cons c' bound => exact ⟨bound, rest, (List.cons.inj same).2⟩

theorem DomainIndex.action_eq_error {o : Operator} {error : TaskNotActionable}
    (operator : index.operator? t.name = some o) (arity : o.arity = t.arity)
    (failed : index.action t = .error error) :
    ∃ v ∈ t.varList, error = ⟨t.call, .unboundArgument v⟩ := by
  cases arguments : Constant.ofTerms t.args with
  | ok constants => simp [action, operator, arity, arguments] at failed
  | error v =>
      obtain ⟨bound, rest, same⟩ := Constant.ofTerms_eq_error.mp arguments
      refine ⟨v, Task.mem_varList.mpr (by simp [same]), ?_⟩
      simpa [action, operator, arity, arguments] using failed.symm

inductive Setting.Refuses (setting : Setting) (n : Network) : SearchFailure → Prop where
  | unordered {failure : SearchFailure}
      (unsorted : setting.sorter n.taskList n.constraints.toList = .error failure) :
      Refuses setting n failure
  | notActionable {ordered : List Task} {t : Task} {error : TaskNotActionable}
      (sorted : setting.sorter n.taskList n.constraints.toList = .ok ordered) (listed : t ∈ ordered)
      (noAction : setting.index.action t = .error error) : Refuses setting n (.notActionable error)
  | preconditionFailed {ordered : List Task} {t : Task} {a : Action} {o : Operator}
      (sorted : setting.sorter n.taskList n.constraints.toList = .ok ordered) (listed : t ∈ ordered)
      (performed : setting.index.action t = .ok (a, o)) :
      Refuses setting n (.preconditionFailed a (a.ground o.precondition))
  | conditionViolated {c : Constraint} {condition : Condition} (held : c ∈ n.constraints)
      (requires : c.condition? = some condition) :
      Refuses setting n (.conditionViolated c.kind condition)

theorem foldlM_eq_error {σ α ε : Type} {f : σ → α → Except ε σ} {xs : List α} {s : σ} {failure : ε} :
    xs.foldlM f s = .error failure ↔ ∃ earlier x later s',
      xs = earlier ++ x :: later ∧ earlier.foldlM f s = .ok s' ∧ f s' x = .error failure := by
  induction xs generalizing s with
  | nil => simp [pure, Except.pure]
  | cons y ys ih =>
      rw [List.foldlM_cons]
      cases head : f s y with
      | error failure' =>
          constructor
          · intro failed
            exact ⟨[], y, ys, s, rfl, rfl, head.trans failed⟩
          · rintro ⟨earlier, x, later, s', same, passed, failed⟩
            cases earlier with
            | nil =>
                cases same
                cases passed
                exact head.symm.trans failed
            | cons z earlier =>
                cases same
                rw [List.foldlM_cons, head] at passed
                cases passed
      | ok next =>
          refine ih.trans ⟨?_, ?_⟩
          · rintro ⟨earlier, x, later, s', rfl, passed, failed⟩
            exact ⟨y :: earlier, x, later, s', rfl, by rwa [List.foldlM_cons, head], failed⟩
          · rintro ⟨earlier, x, later, s', same, passed, failed⟩
            cases earlier with
            | nil =>
                cases same
                cases passed
                cases head.symm.trans failed
            | cons z earlier =>
                cases same
                rw [List.foldlM_cons, head] at passed
                exact ⟨earlier, x, later, s', rfl, passed, failed⟩

namespace Execution

variable {e : Execution}

theorem perform_eq_error : e.perform index t = .error failure ↔
    (∃ error, index.action t = .error error ∧ failure = .notActionable error) ∨
      ∃ a o, index.action t = .ok (a, o) ∧
        (e.trajectory.before e.actions.length).ask (a.ground o.precondition) = false ∧
        failure = .preconditionFailed a (a.ground o.precondition) := by
  rw [perform]
  cases index.action t with
  | error error => simp [eq_comm (a := failure)]
  | ok pair =>
      obtain ⟨a, o⟩ := pair
      cases holds : (e.trajectory.before e.actions.length).ask (a.ground o.precondition) <;>
        simp [holds, eq_comm (a := failure)]

theorem performAll_eq_error {tasks : List Task} : e.performAll index tasks = .error failure ↔
    ∃ done t rest e', tasks = done ++ t :: rest ∧ e.performAll index done = .ok e' ∧
      e'.perform index t = .error failure :=
  foldlM_eq_error

theorem violation?_eq_some {c : Constraint} : e.violation? c = some failure ↔
    e.satisfies c = false ∧
      ∃ condition, c.condition? = some condition ∧ failure = .conditionViolated c.kind condition := by
  rw [violation?]
  cases e.satisfies c <;> simp [eq_comm (a := failure)]

end Execution

theorem Setting.linearize_eq_error {setting : Setting} {n : Network} {ordered : List Task}
    (sorted : setting.sorter n.taskList n.constraints.toList = .ok ordered) :
    setting.linearize n = .error failure ↔
      setting.execution.performAll setting.index ordered = .error failure ∨
      ∃ e, setting.execution.performAll setting.index ordered = .ok e ∧
        setting.config.checkConditions = true ∧
        n.constraints.toList.findSome? e.violation? = some failure := by
  simp only [linearize, sorted, bind, Except.bind]
  cases setting.execution.performAll setting.index ordered with
  | error failure' => simp
  | ok e =>
      cases setting.config.checkConditions with
      | false => simp [pure, Except.pure]
      | true =>
          cases violated : n.constraints.toList.findSome? e.violation? <;>
            simp [violated, throw, throwThe, MonadExceptOf.throw, pure, Except.pure]

theorem Setting.refuses_of_linearize {setting : Setting} {n : Network}
    (failed : setting.linearize n = .error failure) : setting.Refuses n failure := by
  cases sorted : setting.sorter n.taskList n.constraints.toList with
  | error failure' =>
      simp only [linearize, sorted, bind, Except.bind] at failed
      cases failed
      exact .unordered sorted
  | ok ordered =>
      rcases (linearize_eq_error sorted).mp failed with stopped | ⟨e, -, -, violated⟩
      · obtain ⟨done, t, rest, e, rfl, -, stops⟩ := Execution.performAll_eq_error.mp stopped
        have listed : t ∈ done ++ t :: rest := by simp
        rcases Execution.perform_eq_error.mp stops with ⟨error, noAction, rfl⟩ | ⟨a, o, performed, -, rfl⟩
        · exact .notActionable sorted listed noAction
        · exact .preconditionFailed sorted listed performed
      · obtain ⟨c, held, violation⟩ := List.exists_of_findSome?_eq_some violated
        obtain ⟨-, condition, requires, rfl⟩ := Execution.violation?_eq_some.mp violation
        exact .conditionViolated (Std.ExtTreeSet.mem_toList.mp held) requires

end HtnPlanning
