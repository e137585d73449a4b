import HtnPlanning.Proofs.Logic.Renaming
import HtnPlanning.Unification

namespace HtnPlanning

theorem ok_of_mapError {ε δ α : Type} {a : Except ε α} {f : ε → δ} {x : α}
    (mapped : a.mapError f = .ok x) : a = .ok x := by
  cases a <;> cases mapped
  rfl

namespace Substitution

variable {r : Renumbering} {b b' : Std.ExtTreeMap Variable Term} {s s' : Substitution}
  {v : Variable} {x y : Term}

def Moves (r : Renumbering) (b b' : Std.ExtTreeMap Variable Term) : Prop :=
  ∀ v : Variable, b'[v.moved r]? = b[v]?.map (Term.moved r)

theorem Moves.image (moves : Moves r s.bindings s'.bindings) (v : Variable) :
    s'.image (v.moved r) = (s.image v).moved r := by
  rw [Substitution.image, get?, moves, Substitution.image, get?]
  cases s.bindings[v]? <;> rfl

theorem Moves.erase (moves : Moves r b b') (v : Variable) : Moves r (b.erase v) (b'.erase (v.moved r)) := by
  intro w
  simp only [Std.ExtTreeMap.getElem?_erase, Std.LawfulEqOrd.compare_eq_iff_eq,
    Variable.moved_injective.eq_iff, moves w]
  split <;> rfl

theorem Moves.insert (moves : Moves r b b') (v : Variable) (x : Term) :
    Moves r (b.insert v x) (b'.insert (v.moved r) (x.moved r)) := by
  intro w
  simp only [Std.ExtTreeMap.getElem?_insert, Std.LawfulEqOrd.compare_eq_iff_eq,
    Variable.moved_injective.eq_iff, moves w]
  split <;> rfl

theorem follow_var_none (free : b[v]? = none) : follow b (.var v) = .var v := by
  rw [follow]
  split <;> simp_all

theorem follow_var_some (bound : b[v]? = some x) : follow b (.var v) = follow (b.erase v) x := by
  rw [follow]
  split <;> simp_all

theorem follow_moved (moves : Moves r b b') (x : Term) :
    follow b' (x.moved r) = (follow b x).moved r := by
  induction b, x using follow.induct generalizing b' with
  | case1 b c => simp [follow]
  | case2 b v free => 
      rw [follow_var_none free, Term.moved_var, follow_var_none (by rw [moves, free]; rfl)]
  | case3 b v next bound ih =>
      rw [follow_var_some bound, Term.moved_var,
        follow_var_some (by rw [moves, bound]; rfl), ih (moves.erase v)]

theorem walk_moved (moves : Moves r s.bindings s'.bindings) (x : Term) :
    s'.walk (x.moved r) = (s.walk x).moved r :=
  follow_moved moves x

theorem getElem?_resolved (s : Substitution) (v : Variable) :
    s.resolved.bindings[v]? = s.bindings[v]?.bind fun x =>
      if s.walk x = .var v then none else some (s.walk x) := by
  rw [resolved, Std.ExtTreeMap.getElem?_filterMap']

theorem Moves.resolved (moves : Moves r s.bindings s'.bindings) :
    Moves r s.resolved.bindings s'.resolved.bindings := by
  intro v
  rw [getElem?_resolved, getElem?_resolved, moves]
  cases s.bindings[v]? with
  | none => rfl
  | some x =>
      simp only [Option.map_some, Option.bind_some, walk_moved moves, ← Term.moved_var,
        Term.moved_injective.eq_iff]
      split <;> rfl

inductive Agree (r : Renumbering) {ε : Type} :
    Except ε Substitution → Except ε Substitution → Prop where
  | ok {s s' : Substitution} (moves : Moves r s.bindings s'.bindings) : Agree r (.ok s) (.ok s')
  | error (failure failure' : ε) : Agree r (.error failure) (.error failure')

theorem Agree.mapError {ε δ : Type} {a a' : Except ε Substitution} (agree : Agree r a a')
    (f f' : ε → δ) : Agree r (a.mapError f) (a'.mapError f') := by
  cases agree with
  | ok moves => exact .ok moves
  | error failure failure' => exact .error _ _

theorem Agree.map_resolved {ε : Type} {a a' : Except ε Substitution} (agree : Agree r a a') :
    Agree r (a.map resolved) (a'.map resolved) := by
  cases agree with
  | ok moves => exact .ok moves.resolved
  | error failure failure' => exact .error _ _

theorem bind_moved (moves : Moves r s.bindings s'.bindings) (v : Variable) (x : Term) :
    Agree r (s.bind v x) (s'.bind (v.moved r) (x.moved r)) := by
  rw [bind, bind, get?, get?, moves]
  simp only [← Term.moved_var, Term.moved_injective.eq_iff]
  split
  next => exact .ok moves
  next =>
    cases s.bindings[v]? with
    | none => exact .ok (moves.insert v x)
    | some bound =>
        simp only [Option.map_some, Term.moved_injective.eq_iff]
        split
        next => exact .ok moves
        next => exact .error _ _

theorem unify_moved (moves : Moves r s.bindings s'.bindings) (x y : Term) :
    Agree r (s.unify x y) (s'.unify (x.moved r) (y.moved r)) := by
  simp only [unify, walk_moved moves, Term.moved_injective.eq_iff]
  generalize s.walk x = left
  generalize s.walk y = right
  split
  next => exact .ok moves
  next =>
    cases left with
    | var v => exact (bind_moved moves v right).mapError _ _
    | const c =>
        cases right with
        | var v => exact (bind_moved moves v (.const c)).mapError _ _
        | const d => exact .error _ _

theorem unifyAll_moved (moves : Moves r s.bindings s'.bindings) (pairs : List (Term × Term)) :
    Agree r (s.unifyAll pairs) (s'.unifyAll (pairs.map fun pair => (pair.1.moved r, pair.2.moved r))) := by
  induction pairs generalizing s s' with
  | nil => exact .ok moves
  | cons pair rest ih =>
      obtain ⟨x, y⟩ := pair
      have first := unify_moved moves x y
      simp only [List.map_cons, unifyAll]
      generalize s.unify x y = a at first ⊢
      generalize s'.unify (x.moved r) (y.moved r) = a' at first ⊢
      cases first with
      | ok next => exact ih next
      | error failure failure' => exact .error _ _

/-! ## What a unifier binds to -/

def BindsTo (known : Variable → Prop) (b : Std.ExtTreeMap Variable Term) : Prop :=
  ∀ v w : Variable, b[v]? = some (.var w) → known w

variable {known : Variable → Prop} {w : Variable}

theorem BindsTo.follow (binds : BindsTo known b) (holds : ∀ w, x = .var w → known w)
    (last : follow b x = .var w) : known w := by
  induction b, x using follow.induct with
  | case1 b c =>
      rw [Substitution.follow] at last
      cases last
  | case2 b v free =>
      rw [follow_var_none free] at last
      exact holds w last
  | case3 b v next bound ih =>
      rw [follow_var_some bound] at last
      refine ih (fun w y present => ?_) (fun w is => binds v w (is ▸ bound)) last
      rw [Std.ExtTreeMap.getElem?_erase] at present
      split at present
      · cases present
      · exact binds w y present

theorem BindsTo.bind (binds : BindsTo known s.bindings) (holds : ∀ w, x = .var w → known w)
    (bound : s.bind v x = .ok s') : BindsTo known s'.bindings := by
  rw [Substitution.bind] at bound
  split at bound
  next => exact Except.ok.inj bound ▸ binds
  next =>
    split at bound
    next =>
      cases bound
      intro w y present
      rw [Std.ExtTreeMap.getElem?_insert] at present
      split at present
      · exact holds y (Option.some.inj present)
      · exact binds w y present
    next =>
      split at bound <;> cases bound
      exact binds

theorem BindsTo.unify (binds : BindsTo known s.bindings) (holds : ∀ w, y = .var w → known w)
    (unified : s.unify x y = .ok s') : BindsTo known s'.bindings := by
  have right (w : Variable) : s.walk y = .var w → known w := binds.follow holds
  simp only [Substitution.unify] at unified
  generalize s.walk x = x at unified
  generalize s.walk y = y at right unified
  split at unified
  next => exact Except.ok.inj unified ▸ binds
  next =>
    cases x with
    | var v => exact binds.bind right (ok_of_mapError unified)
    | const c =>
        cases y with
        | var v => exact binds.bind (fun w => Term.noConfusion) (ok_of_mapError unified)
        | const d => cases unified

theorem BindsTo.unifyAll {pairs : List (Term × Term)} (binds : BindsTo known s.bindings)
    (holds : ∀ pair ∈ pairs, ∀ w, pair.2 = .var w → known w) (unified : s.unifyAll pairs = .ok s') :
    BindsTo known s'.bindings := by
  induction pairs generalizing s with
  | nil => exact Except.ok.inj unified ▸ binds
  | cons pair rest ih =>
      obtain ⟨x, y⟩ := pair
      obtain ⟨right, later⟩ := List.forall_mem_cons.mp holds
      rw [Substitution.unifyAll] at unified
      cases step : s.unify x y with
      | ok next =>
          simp only [step] at unified
          exact ih (binds.unify right step) later unified
      | error failure => simp [step] at unified

theorem BindsTo.resolved (binds : BindsTo known s.bindings) : BindsTo known s.resolved.bindings := by
  intro v w present
  rw [getElem?_resolved] at present
  obtain ⟨y, bound, last⟩ := Option.bind_eq_some_iff.mp present
  split at last
  next => cases last
  next => exact binds.follow (fun w is => binds v w (is ▸ bound)) (Option.some.inj last)

end Substitution

/-! ## Patterns -/

namespace Method

variable {r : Renumbering} {pattern pattern' t t' : Task} {s : Substitution}

theorem unifyPattern_moved (patternName : pattern'.name = pattern.name)
    (patternArgs : pattern'.args = pattern.args.map (·.moved r)) (taskName : t'.name = t.name)
    (taskArgs : t'.args = t.args.map (·.moved r)) :
    Substitution.Agree r (unifyPattern pattern t) (unifyPattern pattern' t') := by
  have arities : pattern'.arity = pattern.arity ∧ t'.arity = t.arity := by
    simp [Task.arity, patternArgs, taskArgs]
  rw [unifyPattern, unifyPattern, patternName, taskName, arities.1, arities.2, patternArgs, taskArgs,
    List.zip_map]
  split
  next => exact .error _ _
  next =>
    split
    next => exact .error _ _
    next =>
      have start : Substitution.Moves r (∅ : Substitution).bindings (∅ : Substitution).bindings := by
        intro v
        change (∅ : Std.ExtTreeMap Variable Term)[v.moved r]? =
          (∅ : Std.ExtTreeMap Variable Term)[v]?.map _
        simp
      exact (Substitution.unifyAll_moved start (pattern.args.zip t.args)).map_resolved

theorem unifyPattern_eq_ok (unified : unifyPattern pattern t = .ok s) :
    pattern.name = t.name ∧ pattern.arity = t.arity ∧
      ∃ raw, Substitution.unifyAll ∅ (pattern.args.zip t.args) = .ok raw ∧ raw.resolved = s := by
  rw [unifyPattern] at unified
  split at unified
  next => cases unified
  next name =>
    split at unified
    next => cases unified
    next arity =>
      cases raw : Substitution.unifyAll ∅ (pattern.args.zip t.args) with
      | error failure => simp [raw, Except.map] at unified
      | ok bound =>
          rw [raw] at unified
          exact ⟨not_not.mp name, not_not.mp arity, bound, rfl, Except.ok.inj unified⟩

theorem unifyPattern_bindsTo (unified : unifyPattern pattern t = .ok s) :
    Substitution.BindsTo (· ∈ t.varList) s.bindings := by
  obtain ⟨-, -, raw, bound, rfl⟩ := unifyPattern_eq_ok unified
  have start : Substitution.BindsTo (· ∈ t.varList) (∅ : Substitution).bindings := by
    intro v w present
    change (∅ : Std.ExtTreeMap Variable Term)[v]? = some (Term.var w) at present
    simp at present
  refine (start.unifyAll (fun pair member w is => ?_) bound).resolved
  exact Term.mem_vars.mpr (is ▸ (List.of_mem_zip member).2)

theorem unifyPattern_image (unified : unifyPattern pattern t = .ok s) {v w : Variable}
    (image : s.image v = .var w) : w = v ∨ w ∈ t.varList := by
  cases bound : s.get? v with
  | none => exact .inl (Term.var.inj ((Substitution.image_of_free bound).symm.trans image)).symm
  | some x =>
      obtain rfl := (Substitution.image_of_bound bound).symm.trans image
      exact .inr (unifyPattern_bindsTo unified v w bound)

end Method

end HtnPlanning
