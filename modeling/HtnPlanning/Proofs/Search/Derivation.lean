import HtnPlanning.Proofs.Domain.Index
import HtnPlanning.Proofs.Linearization.Execution
import HtnPlanning.Proofs.Search.Alike

namespace HtnPlanning

def Domain.derive (d : Domain) : List Nat → Network → Supply → Option (Network × Supply)
  | [], n, supply => some (n, supply)
  | choice :: choices, n, supply =>
    match n.firstCompound, d.methods[choice]? with
    | .ok t, some m =>
      match n.tryMethod t m supply with
      | (some next, supply) => d.derive choices next supply
      | (none, _) => none
    | _, _ => none

def Setting.Accepts (setting : Setting) (d : Domain) (choices : List Nat) (n : Network)
    (supply : Supply) (plan : Plan) : Prop :=
  ∃ final later, d.derive choices n supply = some (final, later) ∧ final.isPrimitive = true ∧
    setting.linearize final = .ok plan

namespace Setting

variable {setting : Setting} {d : Domain} {n n' next : Network} {t u : Task} {m : Method} {s : Substitution}
  {choice : Nat} {choices : List Nat} {supply supply' : Supply} {plan : Plan}

theorem accepts_nil : setting.Accepts d [] n supply plan ↔
    n.isPrimitive = true ∧ setting.linearize n = .ok plan := by
  constructor
  · rintro ⟨_, _, ⟨⟩, primitive, gives⟩
    exact ⟨primitive, gives⟩
  · rintro ⟨primitive, gives⟩
    exact ⟨n, supply, rfl, primitive, gives⟩

theorem accepts_cons (first : n.firstCompound = .ok t) :
    setting.Accepts d (choice :: choices) n supply plan ↔ ∃ m next supply',
      d.methods[choice]? = some m ∧ n.tryMethod t m supply = (some next, supply') ∧
        setting.Accepts d choices next supply' plan := by
  rw [Accepts, Domain.derive, first]
  cases known : d.methods[choice]? with
  | none => simp
  | some m =>
      rcases attempt : n.tryMethod t m supply with ⟨_ | next, supply'⟩
      · simp [attempt]
      · simp only [attempt, Option.some.injEq]
        constructor
        · rintro accepts
          exact ⟨m, next, supply', rfl, attempt, accepts⟩
        · rintro ⟨_, _, _, rfl, again, accepts⟩
          rw [attempt] at again
          cases again
          exact accepts

theorem not_accepts_nil (first : n.firstCompound = .ok t) : ¬ setting.Accepts d [] n supply plan := by
  rw [accepts_nil]
  rintro ⟨primitive, -⟩
  have none : n.firstCompound = .error {} := Network.firstCompound_eq_error.mpr primitive
  rw [first] at none
  cases none

theorem not_accepts_cons (primitive : n.isPrimitive = true) :
    ¬ setting.Accepts d (choice :: choices) n supply plan := by
  rintro ⟨final, later, derived, -⟩
  have none : n.firstCompound = .error {} := Network.firstCompound_eq_error.mpr primitive
  simp [Domain.derive, none] at derived

theorem not_accepts_of_absent (absent : d.methods[choice]? = none) :
    ¬ setting.Accepts d (choice :: choices) n supply plan := by
  rintro ⟨final, later, derived, -⟩
  rw [Domain.derive, absent] at derived
  split at derived <;> simp_all

theorem accepts_alike (sorted : setting.sorter = TaskOrder.topological)
    (templates : ∀ m ∈ d.methods, m.template.Valid)
    (alike : n.Alike supply n' supply') :
    setting.Accepts d choices n' supply' plan ↔ setting.Accepts d choices n supply plan := by
  induction choices generalizing n supply n' supply' with
  | nil => rw [accepts_nil, accepts_nil, alike.isPrimitive, alike.linearize sorted]
  | cons choice choices ih =>
      cases first : n.firstCompound with
      | error error =>
          have primitive := Network.firstCompound_eq_error.mp first
          exact iff_of_false (not_accepts_cons (alike.isPrimitive ▸ primitive))
            (not_accepts_cons primitive)
      | ok t =>
          cases known : d.methods[choice]? with
          | none =>
              exact iff_of_false (not_accepts_of_absent known) (not_accepts_of_absent known)
          | some m =>
              obtain ⟨t', first', attempts⟩ :=
                alike.tryMethod first (templates m (List.mem_of_getElem? known))
              rw [accepts_cons first, accepts_cons first', known]
              simp only [Option.some.injEq, existsAndEq, true_and]
              rcases attempts with ⟨none, none'⟩ | ⟨next, next', accepted, accepted', below⟩
              · simp [none, none']
              · simp only [accepted, accepted', Prod.mk.injEq, Option.some.injEq, and_assoc,
                  existsAndEq, true_and]
                exact ih below

theorem isDeadEnd_congr (name : u.name = t.name) (arity : u.arity = t.arity)
    (primitive : u.primitive = t.primitive) : setting.isDeadEnd u = setting.isDeadEnd t := by
  simp only [isDeadEnd, DomainIndex.methodsFor, name, arity, primitive]

theorem not_isDeadEnd_of_operator {o : Operator} (indexed : setting.index = .ofDomain d)
    (primitive : t.primitive = true) (operator : d.operator? t.name = some o) (arity : o.arity = t.arity) :
    setting.isDeadEnd t = false := by
  rw [isDeadEnd, if_pos primitive, indexed, DomainIndex.operator?_ofDomain, operator]
  exact decide_eq_false (not_not.mpr arity)

theorem not_isDeadEnd_of_method (indexed : setting.index = .ofDomain d) (compound : t.primitive = false)
    (known : m ∈ d.methodsFor t.name) (arity : m.pattern.arity = t.arity) :
    setting.isDeadEnd t = false := by
  rw [isDeadEnd, compound, indexed, DomainIndex.methodsFor_ofDomain]
  simp only [Bool.false_eq_true, if_false, Bool.not_eq_false', List.any_eq_true]
  exact ⟨m, known, decide_eq_true arity⟩

theorem not_isDeadEnd_of_copyUnifier (indexed : setting.index = .ofDomain d) (known : m ∈ d.methods)
    {scope : Nat} (compound : t.primitive = false) (unifies : m.copyUnifier t scope = .ok s) :
    setting.isDeadEnd t = false := by
  obtain ⟨name, arity, -⟩ := Method.unifyPattern_eq_ok unifies
  refine not_isDeadEnd_of_method indexed compound ?_ (by simpa [Task.arity, Task.subst] using arity)
  exact List.mem_filter.mpr ⟨known, decide_eq_true name⟩

theorem isUnsolvable_of_kept (f : Variable → Term) (formed : n.WellFormed) (member : t ∈ n.taskList)
    (alive : setting.isDeadEnd t = false)
    (kept : ∀ u ∈ n.taskList, u.id ≠ t.id → u.subst f ∈ next.taskList)
    (unsolvable : setting.isUnsolvable n = true) : setting.isUnsolvable next = true := by
  obtain ⟨u, listed, dead⟩ := List.any_eq_true.mp unsolvable
  have other : u.id ≠ t.id := by
    intro same
    rw [formed.eq_of_id listed member same, alive] at dead
    cases dead
  have same : setting.isDeadEnd (u.subst f) = setting.isDeadEnd u :=
    isDeadEnd_congr rfl (List.length_map _) rfl
  exact List.any_eq_true.mpr ⟨_, kept u listed other, same.trans dead⟩

theorem isUnsolvable_of_unfolds (indexed : setting.index = .ofDomain d) (known : m ∈ d.methods)
    (formed : n.WellFormed) (first : n.firstCompound = .ok t)
    (unifies : m.copyUnifier t supply.scope = .ok s) (unfolds : n.Unfolds t m s supply next)
    (unsolvable : setting.isUnsolvable n = true) : setting.isUnsolvable next = true := by
  obtain ⟨member, compound, -⟩ := formed.firstCompound_eq_ok.mp first
  exact isUnsolvable_of_kept s.image formed member
    (not_isDeadEnd_of_copyUnifier indexed known compound unifies)
    (fun u listed other => (unfolds.tasks _).mpr (.inl ⟨u, listed, other, rfl⟩)) unsolvable

theorem not_isUnsolvable_of_linearize (indexed : setting.index = .ofDomain d) (formed : n.WellFormed)
    (permutes : ∀ ordered, setting.sorter n.taskList n.constraints.toList = .ok ordered →
      ordered.Perm n.taskList)
    (primitive : n.isPrimitive = true) (gives : setting.linearize n = .ok plan) :
    setting.isUnsolvable n = false := by
  have distinct (ordered : List Task)
      (order : setting.sorter n.taskList n.constraints.toList = .ok ordered) :
      ordered.Pairwise fun t u => t.id ≠ u.id := by
    refine List.pairwise_map.mp (((permutes ordered order).map Task.id).nodup_iff.mpr ?_)
    rw [formed.map_id_taskList]
    exact n.tasks.nodup_keys
  obtain ⟨ordered, order, carriesOut⟩ := (linearize_eq_ok indexed distinct).mp gives
  rw [isUnsolvable, List.any_eq_false]
  intro t listed
  obtain ⟨i, present⟩ := List.getElem?_of_mem ((permutes ordered order).mem_iff.mpr listed)
  obtain ⟨a, -, o, arguments, operator, arity, -⟩ := carriesOut.performs i t present
  exact Bool.eq_false_iff.mp (not_isDeadEnd_of_operator indexed
    (List.all_eq_true.mp primitive t listed) operator arity)

theorem permutes_of_topological (sorted : setting.sorter = TaskOrder.topological)
    (formed : n.WellFormed) (ordered : List Task)
    (order : setting.sorter n.taskList n.constraints.toList = .ok ordered) :
    ordered.Perm n.taskList :=
  ((TaskOrder.topological_eq_ok formed).mp (sorted ▸ order)).2

theorem not_accepts_of_isUnsolvable (indexed : setting.index = .ofDomain d)
    (sorted : setting.sorter = TaskOrder.topological) (templates : ∀ m ∈ d.methods, m.template.Valid)
    (before : n.IssuedBefore supply) (unsolvable : setting.isUnsolvable n = true) :
    ¬ setting.Accepts d choices n supply plan := by
  induction choices generalizing n supply with
  | nil =>
      rw [accepts_nil]
      rintro ⟨primitive, gives⟩
      rw [not_isUnsolvable_of_linearize indexed before.toWellFormed
        (permutes_of_topological sorted before.toWellFormed) primitive gives] at unsolvable
      cases unsolvable
  | cons choice choices ih =>
      cases first : n.firstCompound with
      | error error => exact not_accepts_cons (Network.firstCompound_eq_error.mp first)
      | ok t =>
          rw [accepts_cons first]
          rintro ⟨m, next, supply', present, accepted, accepts⟩
          have known := List.mem_of_getElem? present
          have member := (before.toWellFormed.firstCompound_eq_ok.mp first).1
          obtain ⟨-, issued, s, unifies, unfolds⟩ :=
            before.tryMethod_eq_some (templates m known) member accepted
          exact ih issued (isUnsolvable_of_unfolds indexed known before.toWellFormed first unifies
            unfolds unsolvable) accepts

end Setting

end HtnPlanning
