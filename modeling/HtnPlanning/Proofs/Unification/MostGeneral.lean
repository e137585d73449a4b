import HtnPlanning.Proofs.Unification
import Mathlib.Data.Set.Insert

/-!
# Most general unifiers

Unification binds a variable only at the end of a chain of bindings, and to another end. So a chain
that ended at the variable now ends at the term it is bound to, and every other chain ends where it
did. Every unifier of the pairs seen so far takes a term and the end of its chain to the same term.
-/

namespace HtnPlanning

namespace Substitution

variable {b : Std.ExtTreeMap Variable Term} {s s' u : Substitution} {v w : Variable} {x y z : Term}
  {pairs : Set (Term × Term)}

/-! ## Chains -/

theorem follow_insert (free : b[v]? = none) (last : ∀ w, z = .var w → b[w]? = none)
    (apart : z ≠ .var v) (x : Term) :
    follow (b.insert v z) x = if follow b x = .var v then z else follow b x := by
  induction b, x using follow.induct with
  | case1 b c => simp [follow]
  | case2 b w unbound =>
      rw [follow_var_none unbound]
      by_cases same : w = v
      · subst same
        rw [if_pos rfl, follow_var_some (x := z) (by simp)]
        cases z with
        | const c => rw [follow]
        | var w' =>
            refine follow_var_none ?_
            have other : w ≠ w' := fun same => apart (congrArg _ same.symm)
            simp [Std.ExtTreeMap.getElem?_erase, Std.ExtTreeMap.getElem?_insert, other, last w' rfl]
      · rw [if_neg fun is => same (Term.var.inj is)]
        exact follow_var_none (by simp [Std.ExtTreeMap.getElem?_insert, Ne.symm same, unbound])
  | case3 b w next bound ih =>
      have other : v ≠ w := by
        rintro rfl
        rw [free] at bound
        cases bound
      have commute : (b.insert v z).erase w = (b.erase w).insert v z := by
        refine Std.ExtTreeMap.ext_getElem? fun {k} => ?_
        simp only [Std.ExtTreeMap.getElem?_erase, Std.ExtTreeMap.getElem?_insert,
          Std.LawfulEqOrd.compare_eq_iff_eq]
        by_cases same : v = k
        · simp [same, show w ≠ k from fun again => other (same.trans again.symm)]
        · simp [same]
      have unbound {k : Variable} (free : b[k]? = none) : (b.erase w)[k]? = none := by
        rw [Std.ExtTreeMap.getElem?_erase, free, ite_self]
      rw [follow_var_some bound, follow_var_some (x := next)
        (by simp [Std.ExtTreeMap.getElem?_insert, other, bound]), commute]
      exact ih (unbound free) fun k is => unbound (last k is)

theorem walk_of_free (free : s.get? v = none) : s.walk (.var v) = .var v :=
  follow_var_none free

theorem walk_const (s : Substitution) (c : Constant) : s.walk (.const c) = .const c := by
  rw [walk, follow]

theorem get?_insert (s : Substitution) (v : Variable) (z : Term) (w : Variable) :
    (⟨s.bindings.insert v z⟩ : Substitution).get? w = if v = w then some z else s.get? w := by
  simp only [get?, Std.ExtTreeMap.getElem?_insert, Std.LawfulEqOrd.compare_eq_iff_eq]

theorem bind_of_free (free : s.get? v = none) (apart : z ≠ .var v) :
    s.bind v z = .ok ⟨s.bindings.insert v z⟩ := by
  rw [bind, if_neg apart, free]

/-! ## Solved pairs -/

def Equates (u : Substitution) (pairs : Set (Term × Term)) : Prop :=
  ∀ pair ∈ pairs, pair.1.apply u = pair.2.apply u

def Occurs (v : Variable) (pairs : Set (Term × Term)) : Prop :=
  ∃ pair ∈ pairs, pair.1 = .var v ∨ pair.2 = .var v

/-- What bindings amount to when some pairs of terms were unified. -/
structure Solves (s : Substitution) (pairs : Set (Term × Term)) : Prop where
  chain : ∀ v x, s.get? v = some x → s.walk (.var v) = s.walk x
  ends : ∀ x v, s.walk x = .var v → s.get? v = none
  equal : ∀ pair ∈ pairs, s.walk pair.1 = s.walk pair.2
  general : ∀ u : Substitution, u.Equates pairs → ∀ x, (s.walk x).apply u = x.apply u
  bound : ∀ v x, s.get? v = some x → Occurs v pairs
  reached : ∀ x v, s.walk x = .var v → x = .var v ∨ Occurs v pairs

theorem Occurs.mono {more : Set (Term × Term)} (occurs : Occurs v pairs) (le : pairs ⊆ more) :
    Occurs v more := by
  obtain ⟨pair, member, is⟩ := occurs
  exact ⟨pair, le member, is⟩

theorem Equates.anti {more : Set (Term × Term)} (equates : u.Equates more) (le : pairs ⊆ more) :
    u.Equates pairs :=
  fun pair member => equates pair (le member)

theorem solves_empty : (∅ : Substitution).Solves ∅ := by
  have free (v : Variable) : (∅ : Substitution).get? v = none :=
    Std.ExtTreeMap.getElem?_empty
  have stays (x : Term) : (∅ : Substitution).walk x = x := by
    cases x with
    | var v => exact walk_of_free (free v)
    | const c => exact walk_const ∅ c
  constructor
  case chain | bound =>
    intro v x bound
    rw [free] at bound
    cases bound
  case ends => exact fun x v _ => free v
  case equal => exact fun pair member => absurd member (Set.notMem_empty pair)
  case general => exact fun u _ x => by rw [stays]
  case reached => exact fun x v last => .inl (stays x ▸ last)

theorem Solves.insert_of_equal (solves : s.Solves pairs) (same : s.walk x = s.walk y) :
    s.Solves (insert (x, y) pairs) where
  chain := solves.chain
  ends := solves.ends
  equal := by
    rintro pair (rfl | member)
    · exact same
    · exact solves.equal pair member
  general u equates := solves.general u (equates.anti (Set.subset_insert _ _))
  bound v x bound := (solves.bound v x bound).mono (Set.subset_insert _ _)
  reached x v last := (solves.reached x v last).imp_right (·.mono (Set.subset_insert _ _))

theorem Solves.walk_walk (solves : s.Solves pairs) (x : Term) : s.walk (s.walk x) = s.walk x := by
  cases last : s.walk x with
  | const c => exact walk_const s c
  | var v => exact walk_of_free (solves.ends x v last)

theorem Solves.occurs_left (solves : s.Solves pairs) (last : s.walk x = .var v) :
    Occurs v (insert (x, y) pairs) := by
  rcases solves.reached x v last with is | known
  · exact ⟨(x, y), Set.mem_insert _ _, .inl is⟩
  · exact known.mono (Set.subset_insert _ _)

theorem Solves.occurs_right (solves : s.Solves pairs) (last : s.walk y = .var v) :
    Occurs v (insert (x, y) pairs) := by
  rcases solves.reached y v last with is | known
  · exact ⟨(x, y), Set.mem_insert _ _, .inr is⟩
  · exact known.mono (Set.subset_insert _ _)

def Meets (s : Substitution) (x y : Term) (v : Variable) (z : Term) : Prop :=
  z ≠ .var v ∧ (s.walk x = .var v ∧ s.walk y = z ∨ s.walk x = z ∧ s.walk y = .var v)

namespace Solves

variable (solves : s.Solves pairs) (meets : s.Meets x y v z)
include solves meets

theorem free_of_meets : s.get? v = none :=
  meets.2.elim (fun ends => solves.ends x v ends.1) fun ends => solves.ends y v ends.2

theorem last_of_meets (w : Variable) (is : z = .var w) : s.get? w = none :=
  meets.2.elim (fun ends => solves.ends y w (ends.2.trans is)) fun ends =>
    solves.ends x w (ends.1.trans is)

theorem walk_of_meets : s.walk z = z := by
  rcases meets.2 with ⟨-, rfl⟩ | ⟨rfl, -⟩
  exacts [solves.walk_walk y, solves.walk_walk x]

theorem walk_insert (t : Term) : (⟨s.bindings.insert v z⟩ : Substitution).walk t =
    if s.walk t = .var v then z else s.walk t :=
  follow_insert (solves.free_of_meets meets) (solves.last_of_meets meets) meets.1 t

theorem insert_binding :
    (⟨s.bindings.insert v z⟩ : Substitution).Solves (insert (x, y) pairs) := by
  have moved := solves.walk_insert meets
  obtain ⟨apart, ends⟩ := meets
  constructor
  case chain =>
    intro w t bound
    rw [get?_insert] at bound
    rw [moved, moved]
    split at bound
    next same =>
      obtain rfl := Option.some.inj bound
      rw [← same, walk_of_free (solves.free_of_meets ⟨apart, ends⟩), if_pos rfl,
        solves.walk_of_meets ⟨apart, ends⟩, if_neg apart]
    next => rw [solves.chain w t bound]
  case ends =>
    intro t w reaches
    rw [moved] at reaches
    rw [get?_insert]
    split at reaches
    next =>
      rw [if_neg fun same => apart (reaches.trans (congrArg _ same.symm))]
      exact solves.last_of_meets ⟨apart, ends⟩ w reaches
    next other =>
      rw [if_neg fun same => other (reaches.trans (congrArg _ same.symm))]
      exact solves.ends t w reaches
  case equal =>
    rintro pair (rfl | member)
    · rw [moved, moved]
      rcases ends with ⟨left, right⟩ | ⟨left, right⟩
      · rw [if_pos left, right, if_neg apart]
      · rw [if_pos right, left, if_neg apart]
    · rw [moved, moved, solves.equal pair member]
  case general =>
    intro u equates t
    have kept := solves.general u (equates.anti (Set.subset_insert _ _))
    have same : (Term.var v).apply u = z.apply u := by
      have pair : x.apply u = y.apply u := equates (x, y) (Set.mem_insert _ _)
      rw [← kept x, ← kept y] at pair
      rcases ends with ⟨left, right⟩ | ⟨left, right⟩
      · rwa [left, right] at pair
      · rw [left, right] at pair
        exact pair.symm
    rw [moved]
    split
    next reaches => rw [← same, ← reaches, kept]
    next => exact kept t
  case bound =>
    intro w t bound
    rw [get?_insert] at bound
    split at bound
    next same =>
      subst same
      exact ends.elim (fun ends => solves.occurs_left ends.1) fun ends => solves.occurs_right ends.2
    next => exact (solves.bound w t bound).mono (Set.subset_insert _ _)
  case reached =>
    intro t w reaches
    rw [moved] at reaches
    split at reaches
    next =>
      refine .inr (ends.elim (fun ends => ?_) fun ends => ?_)
      · exact solves.occurs_right (ends.2.trans reaches)
      · exact solves.occurs_left (ends.1.trans reaches)
    next => exact (solves.reached t w reaches).imp_right (·.mono (Set.subset_insert _ _))

end Solves

/-! ## Unifying pairs -/

theorem Solves.unify (solves : s.Solves pairs) (x y : Term) :
    (∃ s', s.unify x y = .ok s' ∧ s'.Solves (insert (x, y) pairs)) ∨
      ∃ c d, c ≠ d ∧ s.unify x y = .error (.clash (.const c) (.const d)) ∧
        s.walk x = .const c ∧ s.walk y = .const d := by
  simp only [Substitution.unify]
  by_cases same : s.walk x = s.walk y
  · rw [if_pos same]
    exact .inl ⟨s, rfl, solves.insert_of_equal same⟩
  · rw [if_neg same]
    cases left : s.walk x with
    | var v =>
        have apart : s.walk y ≠ .var v := fun is => same (left.trans is.symm)
        simp only [bind_of_free (solves.ends x v left) apart]
        exact .inl ⟨_, rfl, solves.insert_binding ⟨apart, .inl ⟨left, rfl⟩⟩⟩
    | const c =>
        cases right : s.walk y with
        | var v =>
            have apart : Term.const c ≠ .var v := Term.noConfusion
            simp only [bind_of_free (solves.ends y v right) apart]
            exact .inl ⟨_, rfl, solves.insert_binding ⟨apart, .inr ⟨left, right⟩⟩⟩
        | const d =>
            refine .inr ⟨c, d, ?_, rfl, rfl, rfl⟩
            rintro rfl
            exact same (left.trans right.symm)

theorem Solves.unifyAll (solves : s.Solves pairs) (rest : List (Term × Term)) :
    (∃ s', s.unifyAll rest = .ok s' ∧ s'.Solves ({pair | pair ∈ rest} ∪ pairs)) ∨
      (∃ c d, c ≠ d ∧ s.unifyAll rest = .error (.clash (.const c) (.const d))) ∧
        ∀ u : Substitution, ¬ u.Equates ({pair | pair ∈ rest} ∪ pairs) := by
  induction rest generalizing s pairs with
  | nil => exact .inl ⟨s, rfl, by simpa using solves⟩
  | cons pair rest ih =>
      obtain ⟨x, y⟩ := pair
      rw [Substitution.unifyAll]
      rcases solves.unify x y with ⟨next, unified, solved⟩ | ⟨c, d, different, unified, left, right⟩
      · have later := ih solved
        have same : {pair | pair ∈ rest} ∪ insert (x, y) pairs =
            {pair | pair ∈ (x, y) :: rest} ∪ pairs := by
          ext pair
          simp [or_left_comm, or_assoc]
        rw [same] at later
        simpa only [unified] using later
      · refine .inr ⟨⟨c, d, different, by rw [unified]⟩, fun u equates => different ?_⟩
        have kept := solves.general u (equates.anti Set.subset_union_right)
        have pair : x.apply u = y.apply u := equates (x, y) (.inl List.mem_cons_self)
        rw [← kept x, ← kept y, left, right] at pair
        exact Term.const.inj pair

/-! ## Resolved bindings -/

theorem Solves.get?_resolved (solves : s.Solves pairs) (v : Variable) :
    s.resolved.get? v = (s.get? v).map fun _ => s.walk (.var v) := by
  rw [get?, getElem?_resolved]
  cases bound : s.get? v with
  | none => rw [show s.bindings[v]? = none from bound]; rfl
  | some x =>
      have moves : s.walk x ≠ .var v := by
        intro last
        rw [solves.ends x v last] at bound
        cases bound
      rw [show s.bindings[v]? = some x from bound, Option.bind_some, if_neg moves, Option.map_some,
        solves.chain v x bound]

theorem Solves.apply_resolved (solves : s.Solves pairs) (x : Term) : x.apply s.resolved = s.walk x := by
  cases x with
  | const c => exact (walk_const s c).symm
  | var v =>
      rw [Term.apply, solves.get?_resolved]
      cases bound : s.get? v with
      | none => exact (walk_of_free bound).symm
      | some x => rfl

def Unifies (u : Substitution) (pattern t : Task) : Prop :=
  pattern.args.map (·.apply u) = t.args.map (·.apply u)

theorem unifies_iff_equates {pattern t : Task} (arity : pattern.arity = t.arity) :
    u.Unifies pattern t ↔ u.Equates {pair | pair ∈ pattern.args.zip t.args} := by
  have lists (xs ys : List Term) (length : xs.length = ys.length) :
      xs.map (·.apply u) = ys.map (·.apply u) ↔ ∀ pair ∈ xs.zip ys, pair.1.apply u = pair.2.apply u := by
    induction xs generalizing ys with
    | nil => simp [List.length_eq_zero_iff.mp length.symm]
    | cons x xs ih =>
        cases ys with
        | nil => cases length
        | cons y ys =>
            rw [List.map_cons, List.map_cons, List.cons.injEq, ih ys (Nat.succ.inj length),
              List.zip_cons_cons, List.forall_mem_cons]
  exact lists pattern.args t.args arity

/-- A unifier of a pattern and a task that binds nothing but their variables, none of them to a term
that it would change again, and that every other unifier is a special case of. -/
structure MostGeneral (s : Substitution) (pattern t : Task) : Prop where
  unifies : s.Unifies pattern t
  unbound : ∀ v w, s.get? v = some (.var w) → s.get? w = none
  proper : ∀ v, s.get? v ≠ some (.var v)
  idempotent : ∀ x : Term, (x.apply s).apply s = x.apply s
  relevant : ∀ v, s.contains v = true → v ∈ pattern.varList ∨ v ∈ t.varList
  general : ∀ u : Substitution, u.Unifies pattern t → ∀ v, ((Term.var v).apply s).apply u = (Term.var v).apply u

theorem Solves.mostGeneral {pattern t : Task} (arity : pattern.arity = t.arity)
    (solves : s.Solves {pair | pair ∈ pattern.args.zip t.args}) : s.resolved.MostGeneral pattern t := by
  have unbound (v w : Variable) (bound : s.resolved.get? v = some (.var w)) :
      s.resolved.get? w = none := by
    rw [solves.get?_resolved] at bound
    obtain ⟨x, -, last⟩ := Option.map_eq_some_iff.mp bound
    rw [solves.get?_resolved, solves.ends _ w last, Option.map_none]
  constructor
  case unifies =>
    rw [unifies_iff_equates arity]
    intro pair member
    rw [solves.apply_resolved, solves.apply_resolved, solves.equal pair member]
  case unbound => exact unbound
  case proper =>
    intro v bound
    rw [unbound v v bound] at bound
    cases bound
  case idempotent =>
    intro x
    rw [solves.apply_resolved, solves.apply_resolved, solves.walk_walk]
  case relevant =>
    intro v bound
    rw [contains, Std.ExtTreeMap.contains_iff_mem, Std.ExtTreeMap.mem_iff_isSome_getElem?] at bound
    obtain ⟨x, present⟩ := Option.isSome_iff_exists.mp bound
    have present : s.resolved.get? v = some x := present
    rw [solves.get?_resolved] at present
    obtain ⟨y, raw, -⟩ := Option.map_eq_some_iff.mp present
    obtain ⟨⟨left, right⟩, member, is⟩ := solves.bound v y raw
    obtain ⟨inPattern, inTask⟩ := List.of_mem_zip member
    rcases is with rfl | rfl
    · exact .inl (Term.mem_vars.mpr inPattern)
    · exact .inr (Term.mem_vars.mpr inTask)
  case general =>
    intro u unifies v
    rw [solves.apply_resolved]
    exact solves.general u ((unifies_iff_equates arity).mp unifies) _

end Substitution

/-! ## Patterns -/

namespace Method

open Substitution

variable {pattern t : Task}

theorem unifyPattern_of_name (name : pattern.name ≠ t.name) :
    unifyPattern pattern t = .error .nameMismatch := by
  rw [unifyPattern, if_pos name]

theorem unifyPattern_of_arity (name : pattern.name = t.name) (arity : pattern.arity ≠ t.arity) :
    unifyPattern pattern t = .error (.arityMismatch pattern.arity t.arity) := by
  rw [unifyPattern, if_neg (not_not.mpr name), if_pos arity]

theorem unifyPattern_spec (name : pattern.name = t.name) (arity : pattern.arity = t.arity) :
    (∃ s, unifyPattern pattern t = .ok s ∧ s.MostGeneral pattern t) ∨
      (∃ c d, c ≠ d ∧ unifyPattern pattern t = .error (.clash (.const c) (.const d))) ∧
        ∀ u : Substitution, ¬ u.Unifies pattern t := by
  have pairs := solves_empty.unifyAll (pattern.args.zip t.args)
  rw [Set.union_empty] at pairs
  rw [unifyPattern, if_neg (not_not.mpr name), if_neg (not_not.mpr arity)]
  rcases pairs with ⟨s, unified, solves⟩ | ⟨⟨c, d, different, unified⟩, none⟩
  · exact .inl ⟨s.resolved, by rw [unified]; rfl, solves.mostGeneral arity⟩
  · refine .inr ⟨⟨c, d, different, by rw [unified]; rfl⟩, fun u unifies => none u ?_⟩
    exact (unifies_iff_equates arity).mp unifies

/-- A task is unified with the pattern of a method exactly when their names and arities agree and
some substitution makes their arguments the same, and then by a most general unifier. A failure
tells the first of these that is missing: the names, the arities, or two constants that would have
to be the same. -/
theorem unifier_mostGeneral (m : Method) (t : Task) :
    ((∃ s, m.unifier t = .ok s) ↔
      m.pattern.name = t.name ∧ m.pattern.arity = t.arity ∧ ∃ u : Substitution, u.Unifies m.pattern t) ∧
    (∀ s, m.unifier t = .ok s → s.MostGeneral m.pattern t) ∧
    ∀ error, m.unifier t = .error error →
      (error.reason = .nameMismatch ↔ m.pattern.name ≠ t.name) ∧
      (error.reason = .arityMismatch m.pattern.arity t.arity ↔
        m.pattern.name = t.name ∧ m.pattern.arity ≠ t.arity) ∧
      ((∃ c d, c ≠ d ∧ error.reason = .clash (.const c) (.const d)) ↔
        m.pattern.name = t.name ∧ m.pattern.arity = t.arity) := by
  rw [unifier]
  by_cases name : m.pattern.name = t.name
  · by_cases arity : m.pattern.arity = t.arity
    · rcases unifyPattern_spec name arity with ⟨s, unified, general⟩ | ⟨⟨c, d, different, unified⟩, clash⟩
      · rw [unified]
        refine ⟨iff_of_true ⟨s, rfl⟩ ⟨name, arity, s, general.unifies⟩, ?_, ?_⟩
        · intro s' same
          exact Except.ok.inj same ▸ general
        · intro error same
          cases same
      · rw [unified]
        refine ⟨iff_of_false ?_ fun agree => ?_, ?_, ?_⟩
        · rintro ⟨s, same⟩
          cases same
        · obtain ⟨-, -, u, unifies⟩ := agree
          exact clash u unifies
        · intro s same
          cases same
        · intro error same
          cases same
          simp [name, arity, different]
    · rw [unifyPattern_of_arity name arity]
      refine ⟨iff_of_false ?_ fun agree => arity agree.2.1, ?_, ?_⟩
      · rintro ⟨s, same⟩
        cases same
      · intro s same
        cases same
      · intro error same
        cases same
        simp [name, arity]
  · rw [unifyPattern_of_name name]
    refine ⟨iff_of_false ?_ fun agree => name agree.1, ?_, ?_⟩
    · rintro ⟨s, same⟩
      cases same
    · intro s same
      cases same
    · intro error same
      cases same
      simp [name]

end Method

end HtnPlanning
