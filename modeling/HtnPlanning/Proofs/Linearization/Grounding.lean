import HtnPlanning.Proofs.Linearization.Execution
import HtnPlanning.Proofs.Logic.ClosedWorld

namespace HtnPlanning

def Substitution.Instantiates (s : Substitution) (parameters : List Variable)
    (arguments : List Constant) : Prop :=
  (parameters.map Term.var).map (·.apply s) = arguments.map Term.const

structure Action.Agrees (a : Action) (o : Operator) : Prop where
  binds : ∀ (i : Nat) (v : Variable), o.parameters[i]? = some v →
    ∃ c, a.arguments[i]? = some c ∧ a.substitution.get? v = some (.const c)
  instantiates : a.substitution.Instantiates o.parameters a.arguments
  ground : ∀ c : Condition, (∀ v ∈ c.varList, v ∈ o.parameters) →
    (a.ground c).isGround = true ∧
    ∀ s : Substitution, s.Instantiates o.parameters a.arguments → a.ground c = c.apply s
  groundEffect : ∀ e : Effect, (∀ v ∈ e.atom.varList, v ∈ o.parameters) →
    (e.apply a.substitution).atom.isGround = true ∧
    ∀ s : Substitution, s.Instantiates o.parameters a.arguments → e.apply a.substitution = e.apply s

section Bindings

variable {pairs : List (Variable × Constant)} {v : Variable} {c : Constant}

theorem mem_of_getElem?_ofList (bound : (Std.ExtTreeMap.ofList pairs compare)[v]? = some c) :
    (v, c) ∈ pairs := by
  rw [Std.ExtTreeMap.ofList_eq_insertMany_empty, Std.ExtTreeMap.getElem?_insertMany_list,
    Std.ExtTreeMap.getElem?_empty, Option.or_none, List.findSomeRev?_eq_findSome?_reverse] at bound
  obtain ⟨⟨w, c'⟩, member, found⟩ := List.exists_of_findSome?_eq_some bound
  obtain ⟨same, value⟩ := Option.ite_none_right_eq_some.mp found
  rw [Std.LawfulEqOrd.eq_of_compare same, Option.some.inj value] at member
  exact List.mem_reverse.mp member

theorem getElem?_ofList_of_unique (member : (v, c) ∈ pairs)
    (unique : ∀ c', (v, c') ∈ pairs → c' = c) :
    (Std.ExtTreeMap.ofList pairs compare)[v]? = some c := by
  have known : v ∈ Std.ExtTreeMap.ofList pairs compare := by
    rw [Std.ExtTreeMap.mem_ofList, List.contains_iff_mem]
    exact List.mem_map_of_mem member
  obtain ⟨c', bound⟩ := Option.isSome_iff_exists.mp (Std.ExtTreeMap.mem_iff_isSome_getElem?.mp known)
  rw [bound, unique c' (mem_of_getElem?_ofList bound)]

end Bindings

namespace Operator

variable {o : Operator} {arguments : List Constant} {v : Variable} {c : Constant} {i : Nat}

theorem get?_substitution_action : (o.action arguments).substitution.get? v =
    (Std.ExtTreeMap.ofList (o.parameters.zip arguments) compare)[v]?.map Term.const := by
  rw [Action.substitution, Substitution.get?, Std.ExtTreeMap.getElem?_map]
  rfl

theorem get?_substitution_of_unique (consistent : ∀ i j : Nat,
      o.parameters[i]? = o.parameters[j]? → arguments[i]? = arguments[j]?)
    (parameter : o.parameters[i]? = some v) (argument : arguments[i]? = some c) :
    (o.action arguments).substitution.get? v = some (.const c) := by
  have member : (v, c) ∈ o.parameters.zip arguments :=
    List.mem_of_getElem? (List.getElem?_zip_eq_some.mpr ⟨parameter, argument⟩)
  rw [get?_substitution_action, getElem?_ofList_of_unique member, Option.map_some]
  intro c' other
  obtain ⟨j, present⟩ := List.mem_iff_getElem?.mp other
  obtain ⟨parameter', argument'⟩ := List.getElem?_zip_eq_some.mp present
  have same := consistent i j (parameter.trans parameter'.symm)
  rw [argument, argument', Option.some.injEq] at same
  exact same.symm

end Operator

theorem Effect.atom_apply (e : Effect) (s : Substitution) : (e.apply s).atom = e.atom.apply s := by
  cases e <;> rfl

namespace Substitution.Instantiates

variable {s s' : Substitution} {parameters : List Variable} {arguments : List Constant} {c : Condition}
  {e : Effect}

theorem of_binds (length : arguments.length = parameters.length) (binds : ∀ (i : Nat) (v : Variable),
      parameters[i]? = some v → ∃ c, arguments[i]? = some c ∧ s.get? v = some (.const c)) :
    s.Instantiates parameters arguments := by
  refine List.ext_getElem? fun i => ?_
  rw [List.map_map, List.getElem?_map, List.getElem?_map]
  cases parameter : parameters[i]? with
  | none =>
      rw [List.getElem?_eq_none_iff, ← length] at parameter
      rw [List.getElem?_eq_none parameter]
      rfl
  | some v =>
      obtain ⟨c, argument, bound⟩ := binds i v parameter
      simp [argument, Term.apply, bound]

theorem image_eq (instantiates : s.Instantiates parameters arguments)
    (other : s'.Instantiates parameters arguments) : ∀ v ∈ parameters, s.image v = s'.image v := by
  have same := instantiates.trans other.symm
  rw [List.map_map, List.map_map, List.map_inj_left] at same
  exact same

theorem isGround_image (instantiates : s.Instantiates parameters arguments) {v : Variable}
    (member : v ∈ parameters) : (s.image v).isGround = true := by
  have image : s.image v ∈ (parameters.map Term.var).map (·.apply s) := by
    rw [List.map_map]
    exact List.mem_map_of_mem member
  rw [instantiates, List.mem_map] at image
  obtain ⟨c, -, image⟩ := image
  rw [← image]
  rfl

section

variable (instantiates : s.Instantiates parameters arguments)
  (within : ∀ v ∈ c.varList, v ∈ parameters)

include instantiates within

theorem isGround_apply : (c.apply s).isGround = true := by
  rw [Condition.apply_eq_subst]
  exact Condition.isGround_subst fun v member => instantiates.isGround_image (within v member)

theorem apply_eq (other : s'.Instantiates parameters arguments) : c.apply s = c.apply s' := by
  rw [Condition.apply_eq_subst, Condition.apply_eq_subst]
  exact Condition.subst_congr fun v member => instantiates.image_eq other v (within v member)

end

section

variable (instantiates : s.Instantiates parameters arguments)
  (within : ∀ v ∈ e.atom.varList, v ∈ parameters)

include instantiates within

theorem isGround_applyEffect : (e.apply s).atom.isGround = true := by
  rw [← Condition.varList_atom] at within
  rw [Effect.atom_apply, ← Condition.isGround_atom]
  exact instantiates.isGround_apply within

theorem applyEffect_eq (other : s'.Instantiates parameters arguments) : e.apply s = e.apply s' := by
  rw [← Condition.varList_atom] at within
  have same : e.atom.apply s = e.atom.apply s' :=
    Condition.atom.inj (instantiates.apply_eq within other)
  cases e with
  | add a => exact congrArg Effect.add same
  | delete a => exact congrArg Effect.delete same

end

end Substitution.Instantiates

section Agreement

variable {d : Domain} {t : Task} {a : Action} {o : Operator}

theorem Action.agrees_of_binds (length : a.arguments.length = o.arity)
    (binds : ∀ (i : Nat) (v : Variable), o.parameters[i]? = some v →
      ∃ c, a.arguments[i]? = some c ∧ a.substitution.get? v = some (.const c)) : a.Agrees o := by
  have instantiates := Substitution.Instantiates.of_binds length binds
  exact {
    binds
    instantiates
    ground := fun c within =>
      ⟨instantiates.isGround_apply within, fun s other => instantiates.apply_eq within other⟩
    groundEffect := fun e within =>
      ⟨instantiates.isGround_applyEffect within, fun s other =>
        instantiates.applyEffect_eq within other⟩ }

/-- The arguments of an action are those of its task. They are what the precondition and the effects are
grounded with exactly when a parameter that is repeated is given the same argument every time. -/
theorem DomainIndex.action_agrees_iff (action : (DomainIndex.ofDomain d).action t = .ok (a, o)) :
    t.args = a.arguments.map Term.const ∧
      (a.Agrees o ↔
        ∀ i j : Nat, o.parameters[i]? = o.parameters[j]? → a.arguments[i]? = a.arguments[j]?) := by
  obtain ⟨-, arity, arguments, constants, rfl⟩ := action_eq_ok.mp action
  have length : arguments.length = o.arity := by
    rw [arity, Task.arity, constants, List.length_map]
  refine ⟨constants, ?_, ?_⟩
  · intro agrees i j same
    cases parameter : o.parameters[j]? with
    | none =>
        rw [parameter] at same
        rw [List.getElem?_eq_none_iff, ← Operator.arity, ← length] at same parameter
        exact (List.getElem?_eq_none same).trans (List.getElem?_eq_none parameter).symm
    | some v =>
        obtain ⟨c, argument, bound⟩ := agrees.binds i v (same.trans parameter)
        obtain ⟨c', argument', bound'⟩ := agrees.binds j v parameter
        rw [bound, Option.some.injEq, Term.const.injEq] at bound'
        rw [argument, argument', bound']
  · intro consistent
    refine Action.agrees_of_binds length fun i v parameter => ?_
    have inside : i < arguments.length := by
      rw [length]
      exact (List.getElem?_eq_some_iff.mp parameter).1
    have argument := List.getElem?_eq_getElem inside
    exact ⟨_, argument, Operator.get?_substitution_of_unique consistent parameter argument⟩

end Agreement

def barter : Operator where
  name := "barter"
  parameters := [⟨"x", 0⟩, ⟨"x", 0⟩]
  precondition := .holds "have" ["?x"]
  effects := [.delete (.ofSymbols "have" ["?x"]), .add (.ofSymbols "have" ["?x"])]

def barterTask (given taken : String) : Task :=
  ⟨⟨1⟩, "barter", [.const ⟨given⟩, .const ⟨taken⟩], true⟩

theorem DomainIndex.action_agrees_iff_barter :
    let d : Domain := ⟨"trade", [barter], []⟩
    let a := barter.action [⟨"kiwi"⟩, ⟨"kiwi"⟩]
    (DomainIndex.ofDomain d).action (barterTask "kiwi" "kiwi") = .ok (a, barter) ∧ a.Agrees barter ∧
      a.ground barter.precondition = .holds "have" ["kiwi"] := by
  intro d a
  have action : (DomainIndex.ofDomain d).action (barterTask "kiwi" "kiwi") = .ok (a, barter) := by
    decide +kernel
  refine ⟨action, (DomainIndex.action_agrees_iff action).2.mpr fun i j same => ?_, by decide +kernel⟩
  match i, j with
  | 0, 0 | 0, 1 | 1, 0 | 1, 1 => rfl
  | 0, j + 2 | 1, j + 2 => simp [barter] at same
  | i + 2, 0 | i + 2, 1 => simp [barter] at same
  | i + 2, j + 2 => rfl

-- The plan shows that a kiwi is given for a banjo, but what is checked is that there is a banjo.
theorem DomainIndex.action_disagrees_barter :
    let d : Domain := ⟨"trade", [barter], []⟩
    let a := barter.action [⟨"kiwi"⟩, ⟨"banjo"⟩]
    (DomainIndex.ofDomain d).action (barterTask "kiwi" "banjo") = .ok (a, barter) ∧
      toString a = "barter(kiwi, banjo)" ∧
      a.ground barter.precondition = .holds "have" ["banjo"] ∧
      a.groundEffects barter =
        [.delete (.ofSymbols "have" ["banjo"]), .add (.ofSymbols "have" ["banjo"])] ∧
      ¬ a.Agrees barter := by
  intro d a
  refine ⟨by decide +kernel, by decide +kernel, by decide +kernel, by decide +kernel, fun agrees => ?_⟩
  obtain ⟨c, argument, bound⟩ := agrees.binds 0 ⟨"x", 0⟩ rfl
  obtain rfl : ⟨"kiwi"⟩ = c := Option.some.inj argument
  exact absurd bound (by decide +kernel)

end HtnPlanning
