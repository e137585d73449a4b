import HtnPlanning.Proofs.Logic.Frame

namespace HtnPlanning

namespace Condition

variable {facts : Set Atom} {parts : List Condition} {c : Condition}

mutual

/-- The classical truth value of a condition when some atoms are true and all others are false. -/
def Holds (facts : Set Atom) : Condition → Prop
  | .atom a => a ∈ facts
  | .not c => ¬ Holds facts c
  | .and parts => AllHold facts parts
  | .or parts => AnyHolds facts parts

def AllHold (facts : Set Atom) : List Condition → Prop
  | [] => True
  | c :: rest => Holds facts c ∧ AllHold facts rest

def AnyHolds (facts : Set Atom) : List Condition → Prop
  | [] => False
  | c :: rest => Holds facts c ∨ AnyHolds facts rest

end

theorem allHold_iff : AllHold facts parts ↔ ∀ c ∈ parts, c.Holds facts := by
  induction parts with
  | nil => simp [AllHold]
  | cons c rest ih => simp [AllHold, ih]

theorem anyHolds_iff : AnyHolds facts parts ↔ ∃ c ∈ parts, c.Holds facts := by
  induction parts with
  | nil => simp [AnyHolds]
  | cons c rest ih => simp [AnyHolds, ih]

theorem isGround_atom (a : Atom) : (Condition.atom a).isGround = a.isGround := by
  simp [isGround, atoms]

theorem varList_atom (a : Atom) : (Condition.atom a).varList = a.varList := by
  simp [varList, atoms]

theorem isGround_and : (Condition.and parts).isGround = true ↔ ∀ c ∈ parts, c.isGround = true := by
  simp only [isGround, atoms, atomsAll_eq_flatMap, List.all_flatMap, List.all_eq_true]

theorem isGround_or : (Condition.or parts).isGround = true ↔ ∀ c ∈ parts, c.isGround = true :=
  isGround_and

theorem apply_of_isGround (ground : c.isGround = true) (u : Substitution) : c.apply u = c := by
  rw [isGround_iff, List.eq_nil_iff_forall_not_mem] at ground
  rw [apply_eq_subst, subst_congr (g := .var) fun v member => absurd member (ground v), subst_var]

end Condition

namespace State

variable {s s' : State} {c : Condition} {effects : List Effect}

theorem ask_iff_holds (ground : c.isGround = true) :
    s.ask c = true ↔ c.Holds {a | s.contains a = true} := by
  induction c using Condition.induct with
  | atom a =>
      rw [Condition.isGround_atom] at ground
      simp [ask, Condition.Holds, ground]
  | not c ih =>
      have ground : c.isGround = true := ground
      simp [ask, Condition.Holds, ground, ← ih ground]
  | and parts ih =>
      rw [Condition.isGround_and] at ground
      rw [ask, askAll_eq_all, List.all_eq_true, Condition.Holds, Condition.allHold_iff]
      exact forall₂_congr fun c member => ih c member (ground c member)
  | or parts ih =>
      rw [Condition.isGround_or] at ground
      rw [ask, askAny_eq_any, List.any_eq_true, Condition.Holds, Condition.anyHolds_iff]
      exact exists_congr fun c => and_congr_right fun member => ih c member (ground c member)

theorem ask_apply (holds : s.ask c = true) (u : Substitution) : s.ask (c.apply u) = true := by
  induction c using Condition.induct with
  | atom a =>
      have ground : (Condition.atom a).isGround = true := by
        rw [Condition.isGround_atom]
        exact (Bool.and_eq_true_iff.mp holds).1
      rwa [Condition.apply_of_isGround ground]
  | not c ih =>
      have ground : (Condition.not c).isGround = true := (Bool.and_eq_true_iff.mp holds).1
      rwa [Condition.apply_of_isGround ground]
  | and parts ih =>
      rw [ask, askAll_eq_all, List.all_eq_true] at holds
      rw [Condition.apply, Condition.applyAll_eq_map, ask, askAll_eq_all, List.all_map,
        List.all_eq_true]
      exact fun c member => ih c member (holds c member)
  | or parts ih =>
      rw [ask, askAny_eq_any, List.any_eq_true] at holds
      obtain ⟨c, member, holds⟩ := holds
      rw [Condition.apply, Condition.applyAll_eq_map, ask, askAny_eq_any, List.any_map,
        List.any_eq_true]
      exact ⟨c, member, ih c member holds⟩

def SameGround (s s' : State) : Prop :=
  ∀ x : Atom, x.isGround = true → s.contains x = s'.contains x

theorem SameGround.ask (same : s.SameGround s') (c : Condition) : s.ask c = s'.ask c :=
  ask_congr fun x _ => same x

theorem SameGround.applyEffects (same : s.SameGround s') (effects : List Effect) :
    (s.applyEffects effects).SameGround (s'.applyEffects effects) := by
  induction effects generalizing s s' with
  | nil => exact same
  | cons e effects ih =>
      refine ih fun x ground => ?_
      rw [contains_tell, contains_tell, same x ground]

theorem contains_ofList {atoms : List Atom} {a : Atom} :
    (ofList atoms).contains a = true ↔ a ∈ atoms ∧ a.isGround = true := by
  simp [ofList, contains]

theorem contains_ofList_toList (s : State) {a : Atom} :
    (ofList s.toList).contains a = true ↔ s.contains a = true ∧ a.isGround = true := by
  rw [contains_ofList, toList, Std.ExtTreeSet.mem_toList, contains, Std.ExtTreeSet.contains_iff_mem]

theorem sameGround_ofList (s : State) : s.SameGround (ofList s.toList) := by
  intro x ground
  rw [Bool.eq_iff_iff, contains_ofList_toList, and_iff_left ground]

/-- A ground condition is answered by its classical truth value, where the facts are true and all other
atoms are false. A condition that is said to hold is said to hold under every substitution. Facts with
variables never matter, before effects or after them. -/
theorem ask_closedWorld (s : State) :
    (∀ c : Condition, c.isGround = true →
      (s.ask c = true ↔ c.Holds {a | s.contains a = true}) ∧ s.ask (.not c) = !s.ask c) ∧
    (∀ c : Condition, s.ask c = true → ∀ u : Substitution, s.ask (c.apply u) = true) ∧
    (∀ a : Atom, (ofList s.toList).contains a = true ↔ s.contains a = true ∧ a.isGround = true) ∧
    ∀ (effects : List Effect) (c : Condition),
      (s.applyEffects effects).ask c = ((ofList s.toList).applyEffects effects).ask c ∧
      (s.applyEffects effects).ask c = (ofList (s.applyEffects effects).toList).ask c := by
  refine ⟨fun c ground => ⟨ask_iff_holds ground, ?_⟩, fun c => ask_apply,
    fun a => s.contains_ofList_toList, fun effects c => ⟨?_, ?_⟩⟩
  · rw [ask, ground, Bool.true_and]
  · exact (s.sameGround_ofList.applyEffects effects).ask c
  · exact (sameGround_ofList _).ask c

-- A fact with a variable does not make the condition true of it hold, and its negation does not hold
-- either.
theorem ask_closedWorld_kiwi :
    let s : State := ⟨.ofList [.ofSymbols "have" ["?x"], .ofSymbols "have" ["kiwi"]] compare⟩
    let open_ : Condition := .holds "have" ["?x"]
    let either : Condition := .or [open_, .holds "have" ["kiwi"]]
    let bind : Substitution := .ofList [(⟨"x", 0⟩, .const ⟨"banjo"⟩)]
    s.ask open_ = false ∧ s.ask (.not open_) = false ∧
      s.ask (.lacks "have" ["banjo"]) = true ∧
      ¬ (Condition.holds "have" ["banjo"]).Holds {a | s.contains a = true} ∧
      s.ask either = true ∧ s.ask (either.apply bind) = true ∧
      (s.applyEffects [.delete (.ofSymbols "have" ["kiwi"])]).ask either = false := by
  intro s open_ either bind
  obtain ⟨classical, conservative, -, ground⟩ := s.ask_closedWorld
  obtain ⟨truth, negation⟩ := classical (.holds "have" ["banjo"]) (by decide +kernel)
  have absent : s.ask (.holds "have" ["banjo"]) = false := by decide +kernel
  have accepted : s.ask either = true := by decide +kernel
  refine ⟨by decide +kernel, by decide +kernel, ?_, ?_, accepted, conservative either accepted bind, ?_⟩
  · exact negation.trans (by rw [absent]; rfl)
  · rw [← truth, absent]
    exact Bool.false_ne_true
  · rw [(ground _ _).1]
    decide +kernel

end State

end HtnPlanning
