import HtnPlanning.Proofs.Decomposition.Hygiene
import HtnPlanning.Proofs.Decomposition.Order
import HtnPlanning.Proofs.Domain.Copies
import HtnPlanning.Proofs.Search.Derivation
import HtnPlanning.Proofs.Search.Soundness
import HtnPlanning.Proofs.Search.Visits

namespace HtnPlanning

/-! ## What methods pass on -/

namespace Setting

variable {setting : Setting} {d : Domain} {n next : Network} {t : Task} {m : Method}
  {supply supply' : Supply}

theorem passesOn_valid (setting : Setting) : setting.PassesOn fun n _ _ => n.Valid where
  mono holds _ := holds
  child valid _ _ _ accepted := by
    obtain ⟨s, -, done⟩ := Network.tryMethod_eq_some.mp accepted
    exact valid.toWellFormed.valid_decompose done

structure IssuedSince (first : Network) (source : Supply) (n : Network) (supply : Supply) : Prop
    extends n.Valid where
  le : source ≤ supply
  ids : ∀ id, n.contains id = true → first.contains id = true ∨
    source.task ≤ id.number ∧ id.number < supply.task

theorem passesOn_issuedSince (setting : Setting) (first : Network) (source : Supply) :
    setting.PassesOn fun n _ supply => IssuedSince first source n supply where
  mono since le :=
    { since with
      le := Supply.le_trans since.le le
      ids := fun id known => (since.ids id known).imp_right fun issued =>
        ⟨issued.1, Nat.lt_of_lt_of_le issued.2 le.1⟩ }
  child := by
    intro n depth supply t m next supply' since _ _ _ accepted
    have later := Network.le_of_tryMethod accepted
    obtain ⟨s, -, done⟩ := Network.tryMethod_eq_some.mp accepted
    obtain ⟨-, rfl, -⟩ := Network.decompose_sound done
    refine ⟨since.toWellFormed.valid_decompose done, Supply.le_trans since.le later, fun id known => ?_⟩
    rcases (Network.contains_decompose done).mp known with issued | ⟨-, old⟩
    · obtain ⟨own, inTemplate, rfl⟩ := Network.mem_issuedIds.mp issued
      refine .inr ⟨?_, Network.issued_number_lt _ inTemplate⟩
      have copied := (Supply.le_trans since.le (supply.le_copied m)).1
      rw [← Method.supply_standardizeApart] at copied
      exact Nat.le_trans copied (Nat.le_add_right ..)
    · exact (since.ids id old).imp_right fun issued =>
        ⟨issued.1, Nat.lt_of_lt_of_le issued.2 later.1⟩

end Setting

def Method.Closed (m : Method) : Prop :=
  ∀ v ∈ m.template.varList, v ∈ m.pattern.varList

theorem Method.Closed.standardizeApart {m : Method} (closed : m.Closed) (template : m.template.Valid)
    (supply : Supply) : (m.standardizeApart supply).1.Closed := by
  have rewritten := Method.rewritten_standardizeApart supply template
  intro v inTemplate
  obtain ⟨w, inOwn, rfl⟩ := rewritten.mem_template.mp inTemplate
  exact rewritten.mem_pattern.mpr ⟨w, closed w inOwn, rfl⟩

namespace Setting

variable {setting : Setting} {d : Domain} {n next : Network} {t : Task} {m : Method}
  {supply supply' : Supply}

theorem passesOn_ground (indexed : setting.index = .ofDomain d)
    (templates : ∀ m ∈ d.methods, m.template.Valid) (closed : ∀ m ∈ d.methods, m.Closed) :
    setting.PassesOn fun n _ _ => n.Valid ∧ n.varList = [] where
  mono holds _ := holds
  child := by
    intro n depth supply t m next supply' holds first tried room accepted
    obtain ⟨valid, ground⟩ := holds
    have known : m ∈ d.methods := DomainIndex.mem_of_methodsFor (indexed ▸ tried)
    have member := (valid.firstCompound_eq_ok.mp first).1
    obtain ⟨s, unifies, done⟩ := Network.tryMethod_eq_some.mp accepted
    have apart (v : Variable) : v ∉ n.varList := ground ▸ List.not_mem_nil
    refine ⟨valid.valid_decompose done, List.eq_nil_iff_forall_not_mem.mpr fun v left => ?_⟩
    rcases Network.mem_varList_of_unified member (ok_of_mapError unifies)
        (fun v _ => apart v) (Method.valid_standardizeApart (templates m known) supply) done left with
      old | ⟨inTemplate, outside⟩
    · exact apart v old
    · exact outside ((closed m known).standardizeApart (templates m known) supply v inTemplate)

end Setting

/-! ## Rejected decompositions -/

def Attempt.Rejected (a : Attempt) : Prop :=
  ∃ s error, (a.method.standardizeApart a.supply).1.unifier a.task = .ok s ∧
    (a.network.decompose s a.task (a.method.standardizeApart a.supply).1
      (a.method.standardizeApart a.supply).2).1 = .error error

theorem Setting.IssuedSince.not_rejected {a : Attempt} {first : Network} {source last : Supply}
    (since : IssuedSince first source a.network a.supply) (template : a.method.template.Valid)
    (member : a.task ∈ a.network.taskList)
    (within : a.after ≤ last)
    (unused : ∀ k, source.task ≤ k → k < last.task → first.contains ⟨k⟩ = false) : ¬ a.Rejected := by
  rintro ⟨s, error, unifies, rejected⟩
  have known := since.contains_of_mem member
  rw [Method.unifier_standardizeApart] at unifies
  rw [Attempt.after, Network.supply_tryMethod (ok_of_mapError unifies) known] at within
  have fresh : a.network.Fresh (a.method.standardizeApart a.supply).1
      (a.method.standardizeApart a.supply).2 := by
    intro k above below
    rw [Method.supply_standardizeApart] at above below
    rw [Method.size_standardizeApart] at below
    have recent : a.supply.task ≤ k := Nat.le_trans (a.supply.le_copied a.method).1 above
    have old : first.contains ⟨k⟩ = false := by
      refine unused k (Nat.le_trans since.le.1 recent) (Nat.lt_of_lt_of_le below ?_)
      simpa [Supply.copied, Supply.used, Nat.add_assoc] using within.1
    rw [← Bool.not_eq_true]
    intro contained
    rcases since.ids ⟨k⟩ contained with original | ⟨-, issued⟩
    · exact Bool.false_ne_true (old.symm.trans original)
    · exact absurd recent (Nat.not_le.mpr issued)
  obtain ⟨result, done⟩ := since.decompose_isOk (s := s)
    (Method.valid_standardizeApart template a.supply) fresh known
  rw [done] at rejected
  cases rejected

/-! ## Reasons to turn down a network -/

namespace Setting

variable {setting : Setting} {n : Network} {t : Task} {depth : Nat} {stats : Stats}

theorem exists_operator (primitive : t.primitive = true) (alive : setting.isDeadEnd t = false) :
    ∃ o, setting.index.operator? t.name = some o ∧ o.arity = t.arity := by
  rw [isDeadEnd, if_pos primitive] at alive
  cases operator : setting.index.operator? t.name with
  | none => simp [operator] at alive
  | some o => exact ⟨o, rfl, by simpa [operator] using alive⟩

theorem unbound_of_examine {error : TaskNotActionable} (sorted : setting.sorter = TaskOrder.topological)
    (pruning : setting.config.pruneDeadEnds = true) (valid : n.Valid)
    (failed : setting.examine n depth stats = .failed (.notActionable error)) :
    ∃ t ∈ n.taskList, ∃ v ∈ t.varList, error = ⟨t.call, .unboundArgument v⟩ := by
  cases examine_eq_iff.mp failed with
  | unplanned within kept primitive gives =>
      cases refuses_of_linearize gives with
      | unordered unsorted =>
          rw [sorted] at unsorted
          cases TaskOrder.topological_error unsorted
      | @notActionable ordered t _ order listed noAction =>
          have member : t ∈ n.taskList :=
            (permutes_of_topological sorted valid.toWellFormed ordered order).mem_iff.mp listed
          have alive : setting.isDeadEnd t = false := by
            rw [← Bool.not_eq_true]
            exact fun dead => kept ⟨pruning, List.any_eq_true.mpr ⟨t, member, dead⟩⟩
          obtain ⟨o, operator, arity⟩ :=
            exists_operator (List.all_eq_true.mp primitive t member) alive
          exact ⟨t, member, DomainIndex.action_eq_error operator arity noAction⟩

theorem orderable_of_examine (sorted : setting.sorter = TaskOrder.topological) (valid : n.Valid) :
    setting.examine n depth stats ≠ .failed .unorderable := by
  intro failed
  cases examine_eq_iff.mp failed with
  | unplanned within kept primitive gives =>
      cases refuses_of_linearize gives with
      | unordered unsorted =>
          obtain ⟨ordered, order⟩ := TaskOrder.topological_isOk valid
          rw [sorted, order] at unsorted
          cases unsorted

theorem TurnsDown.of_failed {holds : Network → Nat → Supply → Prop} {reason : SearchFailure → Prop}
    (exhausted : ∀ call, reason (.methodsExhausted call))
    (overBudget : ∀ budget, reason (.budgetExhausted budget))
    (failed : ∀ n depth supply stats failure, holds n depth supply →
      setting.examine n depth stats = .failed failure → reason failure) :
    setting.TurnsDown holds reason where
  exhausted := exhausted
  examined := by
    rintro n depth supply stats failure known (turnedDown | stopped)
    · exact failed n depth supply stats failure known turnedDown
    -- A search that is stopped is out of its budget.
    · cases examine_eq_iff.mp stopped with
      | overBudget => exact overBudget _

end Setting

/-! ## The search for a plan -/

section

variable {p : Problem} {d : Domain} {config : PlannerConfig} {supply : Supply} {steps : Nat}
  {report : Report}

theorem not_unorderable (valid : p.network.Valid)
    (found : p.findPlan d config TaskOrder.topological supply steps = some report) :
    report.result ≠ .error .unorderable := by
  let setting := p.setting d config TaskOrder.topological
  have turnsDown : setting.TurnsDown (fun n _ _ => n.Valid) (· ≠ .unorderable) := by
    refine .of_failed (fun _ => by simp) (fun _ => by simp) ?_
    rintro n depth supply stats _ valid failed rfl
    exact Setting.orderable_of_examine rfl valid failed
  intro failed
  exact Setting.reason_of_run setting.passesOn_valid valid turnsDown found failed rfl

theorem unbound_of_notActionable (pruning : config.pruneDeadEnds = true) (valid : p.network.Valid)
    (found : p.findPlan d config TaskOrder.topological supply steps = some report)
    {error : TaskNotActionable} (failed : report.result = .error (.notActionable error)) :
    ∃ v, error.reason = .unboundArgument v := by
  let setting := p.setting d config TaskOrder.topological
  have turnsDown : setting.TurnsDown (fun n _ _ => n.Valid) fun cause =>
      ∀ error, cause = .notActionable error → ∃ v, error.reason = .unboundArgument v := by
    refine .of_failed (fun _ => by simp) (fun _ => by simp) ?_
    rintro n depth supply stats _ valid failed error rfl
    obtain ⟨t, -, v, -, rfl⟩ := Setting.unbound_of_examine rfl pruning valid failed
    exact ⟨v, rfl⟩
  exact Setting.reason_of_run setting.passesOn_valid valid turnsDown found failed error rfl

theorem not_rejected (templates : ∀ m ∈ d.methods, m.template.Valid) (valid : p.network.Valid)
    (unused : ∀ k, supply.task ≤ k →
      k < (Search.advance (p.setting d config TaskOrder.topological) steps
        ((p.setting d config TaskOrder.topological).start p.network supply)).supply.task →
      p.network.contains ⟨k⟩ = false) :
    ∀ a ∈ Search.attempts (p.setting d config TaskOrder.topological) steps
      ((p.setting d config TaskOrder.topological).start p.network supply), ¬ a.Rejected := by
  intro a made
  have start : Setting.IssuedSince p.network supply p.network supply :=
    ⟨valid, supply.le_refl, fun _ known => .inl known⟩
  obtain ⟨first, tried, depth, since⟩ := Setting.holds_of_attempt
    ((p.setting d config TaskOrder.topological).passesOn_issuedSince p.network supply) start a made
  exact since.not_rejected (templates a.method (DomainIndex.mem_of_methodsFor tried))
    (since.firstCompound_eq_ok.mp first).1 (Search.after_le_advance a made) unused

variable (templates : ∀ m ∈ d.methods, m.template.Valid) (valid : p.network.Valid)
  (ground : p.network.varList = []) (closed : ∀ m ∈ d.methods, m.Closed)
include templates valid ground closed

theorem ground_of_visit : ∀ visit ∈
      (p.setting d config TaskOrder.topological).visits p.network supply steps,
    visit.network.varList = [] := by
  intro visit member
  have passesOn : (p.setting d config TaskOrder.topological).PassesOn _ :=
    Setting.passesOn_ground rfl templates closed
  obtain ⟨-, -, free⟩ := Setting.holds_of_visit passesOn ⟨valid, ground⟩ visit member
  exact free

theorem not_notActionable (pruning : config.pruneDeadEnds = true)
    (found : p.findPlan d config TaskOrder.topological supply steps = some report)
    (error : TaskNotActionable) : report.result ≠ .error (.notActionable error) := by
  let setting := p.setting d config TaskOrder.topological
  have turnsDown : setting.TurnsDown (fun n _ _ => n.Valid ∧ n.varList = [])
      fun cause => ∀ error, cause ≠ .notActionable error := by
    refine .of_failed (fun _ => by simp) (fun _ => by simp) ?_
    rintro n depth supply stats _ ⟨valid, ground⟩ failed error rfl
    obtain ⟨t, member, v, inTask, -⟩ := Setting.unbound_of_examine rfl pruning valid failed
    have known : v ∈ n.varList := Network.mem_varList.mpr (.inl ⟨t, member, inTask⟩)
    rw [ground] at known
    cases known
  intro failed
  exact Setting.reason_of_run (setting.passesOn_ground rfl templates closed) ⟨valid, ground⟩ turnsDown
    found failed error rfl

end

/-- A search never fails because tasks cannot be put into an order, and it never rejects a
decomposition when the identities issued on the way are new to the problem. When dead ends are pruned,
it fails for a task that is no action only if the task leaves a variable unbound. When neither the
problem nor a template brings in a variable, no network that the search comes to has one, and then it
does not fail for such a task either. -/
theorem findPlan_causes {p : Problem} {d : Domain} {config : PlannerConfig} {supply : Supply}
    (templates : ∀ m ∈ d.methods, m.template.Valid) (valid : p.network.Valid) (steps : Nat) :
    let setting := p.setting d config TaskOrder.topological
    let start := setting.start p.network supply
    let found (report : Report) :=
      p.findPlan d config TaskOrder.topological supply steps = some report
    (∀ report, found report → report.result ≠ .error .unorderable) ∧
    ((∀ k, supply.task ≤ k → k < (Search.advance setting steps start).supply.task →
        p.network.contains ⟨k⟩ = false) →
      ∀ a ∈ Search.attempts setting steps start, ¬ a.Rejected) ∧
    (config.pruneDeadEnds = true → ∀ report error, found report →
      report.result = .error (.notActionable error) → ∃ v, error.reason = .unboundArgument v) ∧
    (p.network.varList = [] → (∀ m ∈ d.methods, m.Closed) →
      (∀ visit ∈ setting.visits p.network supply steps, visit.network.varList = []) ∧
      (config.pruneDeadEnds = true → ∀ report, found report →
        ∀ error, report.result ≠ .error (.notActionable error))) := by
  intro setting start found
  refine ⟨fun report => not_unorderable valid, not_rejected templates valid, ?_, ?_⟩
  · exact fun pruning report error ended failed => unbound_of_notActionable pruning valid ended failed
  · intro ground closed
    exact ⟨ground_of_visit templates valid ground closed, fun pruning report ended =>
      not_notActionable templates valid ground closed pruning ended⟩

-- There is neither a road nor a flight to the island.
theorem findPlan_causes_island :
    let domain := (Logistics.domain ⟨1, 1⟩).1
    let problem := (Logistics.problem "parcel" "island" (Logistics.domain ⟨1, 1⟩).2).1
    let supply := (Logistics.problem "parcel" "island" (Logistics.domain ⟨1, 1⟩).2).2
    let setting := problem.setting domain Logistics.config TaskOrder.topological
    let start := setting.start problem.network supply
    (∀ m ∈ domain.methods, m.template.Valid ∧ m.Closed) ∧ problem.network.Valid ∧
      problem.network.varList = [] ∧
      ∃ report cause,
        problem.findPlan domain Logistics.config TaskOrder.topological supply 10 = some report ∧
        report.result = .error cause ∧ cause ≠ .unorderable ∧
        (∀ error, cause ≠ .notActionable error) ∧
        (∀ a ∈ Search.attempts setting 10 start, ¬ a.Rejected) ∧
        ∀ visit ∈ setting.visits problem.network supply 10, visit.network.varList = [] := by
  intro domain problem supply setting start
  have closed : ∀ m ∈ domain.methods, m.Closed := by
    unfold Method.Closed
    decide +kernel
  have methods : ∀ m ∈ domain.methods, m.template.Valid ∧ m.Closed :=
    fun m member => ⟨Logistics.valid_templates m member, closed m member⟩
  have before : problem.network.IssuedBefore supply :=
    ⟨(NetworkBuilder.valid_ofTasks _).build, by decide, by decide⟩
  have ground : problem.network.varList = [] := by decide
  have fails : ((problem.findPlan domain Logistics.config TaskOrder.topological supply 10).any
      fun report => !report.result.isOk) = true := by
    decide +kernel
  obtain ⟨orderable, rejects, -, free⟩ := @findPlan_causes problem domain Logistics.config supply
    (fun m member => (methods m member).1) before.toValid 10
  obtain ⟨visits, actionable⟩ := free ground fun m member => (methods m member).2
  refine ⟨fun m => methods m, before.toValid, ground, ?_⟩
  cases found : problem.findPlan domain Logistics.config TaskOrder.topological supply 10 with
  | none => simp [found] at fails
  | some report =>
      cases failed : report.result with
      | ok plan => simp [found, failed, Except.isOk, Except.toBool] at fails
      | error cause =>
          refine ⟨report, cause, rfl, failed, ?_, ?_, ?_, visits⟩
          · exact fun unorderable => orderable report found (failed.trans (congrArg _ unorderable))
          · exact fun error same =>
              actionable rfl report found error (failed.trans (congrArg _ same))
          · exact rejects fun k above _ => before.not_contains above

end HtnPlanning
