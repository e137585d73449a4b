import HtnPlanning.Logic.State
import HtnPlanning.Supply
import Mathlib.Order.Monotone.Basic
import Mathlib.Data.List.Sort

namespace HtnPlanning

/-- How tasks and scopes are numbered elsewhere, in the same order. -/
structure Renumbering where
  task : Nat → Nat
  scope : Nat → Nat
  taskMono : StrictMono task
  scopeMono : StrictMono scope

namespace Renumbering

protected def refl : Renumbering :=
  ⟨id, id, strictMono_id, strictMono_id⟩

structure Between (r : Renumbering) (supply supply' : Supply) : Prop where
  task : ∀ k < supply.task, r.task k < supply'.task
  scope : ∀ k < supply.scope, r.scope k < supply'.scope

structure Issues (r : Renumbering) (supply supply' : Supply) : Prop where
  task : ∀ k, r.task (supply.task + k) = supply'.task + k
  scope : ∀ k, r.scope (supply.scope + k) = supply'.scope + k

variable {r : Renumbering} {supply supply' : Supply}

namespace Issues

variable (issues : r.Issues supply supply')

include issues

theorem between : r.Between supply supply' where
  task _ below := (r.taskMono below).trans_eq (issues.task 0)
  scope _ below := (r.scopeMono below).trans_eq (issues.scope 0)

theorem add (tasks scopes : Nat) : r.Issues ⟨supply.task + tasks, supply.scope + scopes⟩
    ⟨supply'.task + tasks, supply'.scope + scopes⟩ where
  task k := by simp only [Nat.add_assoc, issues.task]
  scope k := by simp only [Nat.add_assoc, issues.scope]

end Issues

theorem strictMono_continue {f : Nat → Nat} {k k' : Nat} (mono : StrictMono f)
    (below : ∀ i < k, f i < k') : StrictMono fun i => if i < k then f i else i - k + k' := by
  intro i j less
  by_cases early : j < k
  · simpa only [Nat.lt_trans less early, early, if_true] using mono less
  · by_cases start : i < k
    · simp only [start, early, if_true, if_false]
      exact Nat.lt_of_lt_of_le (below i start) (Nat.le_add_left ..)
    · simp only [start, early, if_false]
      omega

def continued (r : Renumbering) (between : r.Between supply supply') : Renumbering where
  task k := if k < supply.task then r.task k else k - supply.task + supply'.task
  scope k := if k < supply.scope then r.scope k else k - supply.scope + supply'.scope
  taskMono := strictMono_continue r.taskMono between.task
  scopeMono := strictMono_continue r.scopeMono between.scope

section

variable (between : r.Between supply supply')

theorem continued_task_of_lt {k : Nat} (below : k < supply.task) :
    (r.continued between).task k = r.task k :=
  if_pos below

theorem continued_scope_of_lt {k : Nat} (below : k < supply.scope) :
    (r.continued between).scope k = r.scope k :=
  if_pos below

theorem issues_continued : (r.continued between).Issues supply supply' where
  task k := by
    simp only [continued, Nat.not_lt.mpr (Nat.le_add_right ..), if_false]
    omega
  scope k := by
    simp only [continued, Nat.not_lt.mpr (Nat.le_add_right ..), if_false]
    omega

end

end Renumbering

/-! ## Terms -/

def Substitution.image (s : Substitution) (v : Variable) : Term :=
  (s.get? v).getD (.var v)

theorem Substitution.contains_eq_isSome (s : Substitution) (v : Variable) :
    s.contains v = (s.get? v).isSome :=
  Std.ExtTreeMap.contains_eq_isSome_getElem?

theorem Substitution.image_of_free {s : Substitution} {v : Variable} (free : s.get? v = none) :
    s.image v = .var v := by
  rw [image, free, Option.getD_none]

theorem Substitution.image_of_bound {s : Substitution} {v : Variable} {x : Term}
    (bound : s.get? v = some x) : s.image v = x := by
  rw [image, bound, Option.getD_some]

def Term.subst (f : Variable → Term) : Term → Term
  | .var v => f v
  | .const c => .const c

theorem Term.apply_eq_subst (s : Substitution) (x : Term) : x.apply s = x.subst s.image := by
  cases x <;> rfl

theorem Term.subst_subst (f g : Variable → Term) (x : Term) :
    (x.subst f).subst g = x.subst fun v => (f v).subst g := by
  cases x <;> rfl

theorem Term.subst_congr {f g : Variable → Term} {x : Term}
    (same : ∀ v, x = .var v → f v = g v) : x.subst f = x.subst g := by
  cases x with
  | var v => exact same v rfl
  | const c => rfl

theorem Term.subst_eq_var {f : Variable → Term} {x : Term} {v : Variable}
    (result : x.subst f = .var v) : ∃ w, x = .var w ∧ f w = .var v := by
  cases x with
  | var w => exact ⟨w, rfl, result⟩
  | const c => cases result

theorem Term.mem_vars {xs : List Term} {v : Variable} :
    v ∈ xs.filterMap Term.toVariable? ↔ Term.var v ∈ xs := by
  rw [List.mem_filterMap]
  constructor
  · rintro ⟨x, member, is⟩
    cases x with
    | var w =>
        cases is
        exact member
    | const c => cases is
  · exact fun member => ⟨.var v, member, rfl⟩

def Variable.moved (r : Renumbering) (v : Variable) : Variable :=
  v.rescoped (r.scope v.scope)

def Term.moved (r : Renumbering) (x : Term) : Term :=
  x.subst fun v => .var (v.moved r)

section

variable {r r' : Renumbering}

theorem Variable.moved_injective : Function.Injective (Variable.moved r) := by
  rintro ⟨name, scope⟩ ⟨name', scope'⟩ same
  simp only [moved, rescoped, mk.injEq] at same
  rw [same.1, r.scopeMono.injective same.2]

theorem Term.moved_injective : Function.Injective (Term.moved r) := by
  intro x y same
  cases x <;> cases y <;>
    simp only [moved, subst, Term.var.injEq, Term.const.injEq, reduceCtorEq] at same
  · rw [Variable.moved_injective same]
  · rw [same]

@[simp] theorem Term.moved_var (v : Variable) : (Term.var v).moved r = .var (v.moved r) := rfl

@[simp] theorem Term.moved_const (c : Constant) : (Term.const c).moved r = .const c := rfl

end

theorem Atom.isGround_iff {a : Atom} : a.isGround = true ↔ a.varList = [] := by
  rw [isGround, varList, List.all_eq_true, List.filterMap_eq_nil_iff]
  refine forall₂_congr fun x _ => ?_
  cases x <;> simp [Term.isGround, Term.toVariable?]

/-! ## Conditions -/

namespace Condition

mutual

def subst (f : Variable → Term) : Condition → Condition
  | .atom a => .atom { a with args := a.args.map (·.subst f) }
  | .not c => .not (subst f c)
  | .and parts => .and (substAll f parts)
  | .or parts => .or (substAll f parts)

def substAll (f : Variable → Term) : List Condition → List Condition
  | [] => []
  | c :: rest => subst f c :: substAll f rest

end

theorem substAll_eq_map (f : Variable → Term) (parts : List Condition) :
    substAll f parts = parts.map (subst f) := by
  induction parts with
  | nil => rfl
  | cons c rest ih => simp [substAll, ih]

theorem induct {holds : Condition → Prop} (atom : ∀ a, holds (.atom a))
    (not : ∀ c, holds c → holds (.not c))
    (and : ∀ parts, (∀ c ∈ parts, holds c) → holds (.and parts))
    (or : ∀ parts, (∀ c ∈ parts, holds c) → holds (.or parts)) : ∀ c, holds c
  | .atom a => atom a
  | .not c => not c (induct atom not and or c)
  | .and parts => and parts fun c _member => induct atom not and or c
  | .or parts => or parts fun c _member => induct atom not and or c

variable {f g : Variable → Term} {v : Variable}

theorem mem_varList {c : Condition} : v ∈ c.varList ↔ ∃ a ∈ c.atoms, .var v ∈ a.args := by
  simp only [varList, List.mem_flatMap, Atom.varList, Term.mem_vars]

theorem isGround_iff {c : Condition} : c.isGround = true ↔ c.varList = [] := by
  simp only [isGround, varList, List.all_eq_true, List.flatMap_eq_nil_iff, Atom.isGround_iff]

theorem apply_eq_subst (s : Substitution) (c : Condition) : c.apply s = c.subst s.image := by
  induction c using induct with
  | atom a => simp only [apply, subst, Atom.apply, Term.apply_eq_subst]
  | not c ih => rw [apply, subst, ih]
  | and parts ih => rw [apply, subst, applyAll_eq_map, substAll_eq_map, List.map_congr_left ih]
  | or parts ih => rw [apply, subst, applyAll_eq_map, substAll_eq_map, List.map_congr_left ih]

theorem subst_subst (c : Condition) : (c.subst f).subst g = c.subst fun v => (f v).subst g := by
  induction c using induct with
  | atom a => simp [subst, Term.subst_subst]
  | not c ih => simp [subst, ih]
  | and parts ih => simpa [subst, substAll_eq_map] using ih
  | or parts ih => simpa [subst, substAll_eq_map] using ih

theorem atoms_subst (c : Condition) :
    (c.subst f).atoms = c.atoms.map fun a => { a with args := a.args.map (·.subst f) } := by
  induction c using induct with
  | atom a => rfl
  | not c ih => simpa [subst, atoms] using ih
  | and parts ih | or parts ih =>
      simp only [subst, atoms, substAll_eq_map, atomsAll_eq_flatMap, List.flatMap_map,
        List.map_flatMap]
      exact List.flatMap_congr ih

theorem mem_varList_subst {c : Condition} :
    v ∈ (c.subst f).varList ↔ ∃ w ∈ c.varList, f w = .var v := by
  simp only [mem_varList, atoms_subst, List.mem_map]
  constructor
  · rintro ⟨-, ⟨a, member, rfl⟩, inside⟩
    obtain ⟨x, arg, result⟩ := List.mem_map.mp inside
    obtain ⟨w, rfl, image⟩ := Term.subst_eq_var result
    exact ⟨w, ⟨a, member, arg⟩, image⟩
  · rintro ⟨w, ⟨a, member, arg⟩, image⟩
    exact ⟨_, ⟨a, member, rfl⟩, List.mem_map.mpr ⟨.var w, arg, image⟩⟩

theorem subst_congr {c : Condition} (same : ∀ v ∈ c.varList, f v = g v) :
    c.subst f = c.subst g := by
  have inside {parts : List Condition} {c : Condition} (member : c ∈ parts) {a : Atom}
      (within : a ∈ c.atoms) : a ∈ atomsAll parts := by
    rw [atomsAll_eq_flatMap]
    exact List.mem_flatMap.mpr ⟨c, member, within⟩
  simp only [mem_varList] at same
  induction c using induct with
  | atom a =>
      have args : a.args.map (·.subst f) = a.args.map (·.subst g) :=
        List.map_congr_left fun x member => Term.subst_congr fun v is =>
          same v ⟨a, List.mem_singleton_self a, is ▸ member⟩
      rw [subst, subst, args]
  | not c ih => rw [subst, subst, ih same]
  | and parts ih | or parts ih =>
      rw [subst, subst, substAll_eq_map, substAll_eq_map,
        List.map_congr_left fun c member => ih c member fun v ⟨a, within, arg⟩ =>
          same v ⟨a, inside member within, arg⟩]

theorem isGround_subst {c : Condition} (ground : ∀ v ∈ c.varList, (f v).isGround = true) :
    (c.subst f).isGround = true := by
  rw [isGround_iff, List.eq_nil_iff_forall_not_mem]
  intro w member
  obtain ⟨v, inside, image⟩ := mem_varList_subst.mp member
  have ground := ground v inside
  rw [image] at ground
  cases ground

theorem subst_var (c : Condition) : c.subst .var = c := by
  have terms (args : List Term) : args.map (·.subst .var) = args :=
    (List.map_congr_left fun x _ => by cases x <;> rfl).trans (List.map_id _)
  induction c using induct with
  | atom a => rw [subst, terms]
  | not c ih => rw [subst, ih]
  | and parts ih | or parts ih =>
      rw [subst, substAll_eq_map, List.map_congr_left ih, List.map_id']

def moved (r : Renumbering) (c : Condition) : Condition :=
  c.subst fun v => .var (v.moved r)

theorem isGround_moved (r : Renumbering) (c : Condition) : (c.moved r).isGround = c.isGround := by
  have ground : Term.isGround ∘ (Term.subst fun v => .var (v.moved r)) = Term.isGround := by
    funext x
    cases x <;> rfl
  rw [isGround, isGround, moved, atoms_subst, List.all_map]
  congr 1
  funext a
  simp only [Function.comp_apply, Atom.isGround, List.all_map, ground]

end Condition

theorem Atom.args_subst_of_isGround {a : Atom} (ground : a.isGround = true) (f : Variable → Term) :
    a.args.map (·.subst f) = a.args := by
  rw [isGround, List.all_eq_true] at ground
  refine (List.map_congr_left fun x member => ?_).trans (List.map_id _)
  cases x with
  | var v => exact absurd (ground _ member) Bool.false_ne_true
  | const c => rfl

theorem State.ask_moved (s : State) (r : Renumbering) (c : Condition) : s.ask (c.moved r) = s.ask c := by
  induction c using Condition.induct with
  | atom a =>
      have same := Condition.isGround_moved r (.atom a)
      simp only [Condition.isGround, Condition.moved, Condition.subst, Condition.atoms, List.all_cons,
        List.all_nil, Bool.and_true] at same
      rw [Condition.moved, Condition.subst, ask, ask, same]
      cases ground : a.isGround with
      | true => rw [Atom.args_subst_of_isGround ground]
      | false => rfl
  | not c ih =>
      have same := Condition.isGround_moved r c
      rw [Condition.moved] at ih same ⊢
      rw [Condition.subst, ask, ask, ih, same]
  | and parts ih =>
      rw [Condition.moved, Condition.subst, ask, ask, askAll_eq_all, askAll_eq_all,
        Condition.substAll_eq_map, List.all_map, Bool.eq_iff_iff, List.all_eq_true, List.all_eq_true]
      exact forall₂_congr fun c member => Bool.eq_iff_iff.mp (ih c member)
  | or parts ih =>
      rw [Condition.moved, Condition.subst, ask, ask, askAny_eq_any, askAny_eq_any,
        Condition.substAll_eq_map, List.any_map, Bool.eq_iff_iff, List.any_eq_true, List.any_eq_true]
      exact exists_congr fun c => and_congr_right fun member => Bool.eq_iff_iff.mp (ih c member)

/-! ## Order -/

theorem compare_strictMono {f : Nat → Nat} (mono : StrictMono f) (i j : Nat) :
    compare (f i) (f j) = compare i j := by
  simp only [Nat.compare_eq_ite_lt, mono.lt_iff_lt]

theorem compare_map {α β : Type} [Ord α] [Ord β] {f : α → β}
    (order : ∀ x y, compare (f x) (f y) = compare x y) (xs ys : List α) :
    compare (xs.map f) (ys.map f) = compare xs ys := by
  induction xs generalizing ys with
  | nil => cases ys <;> rfl
  | cons x xs ih =>
      cases ys with
      | nil => rfl
      | cons y ys =>
          refine List.compareLex_cons_cons.trans (.trans ?_ List.compareLex_cons_cons.symm)
          exact congrArg₂ Ordering.then (order x y) (ih ys)

theorem toList_eq_map {α β : Type} [Ord α] [Std.TransOrd α] [Std.LawfulEqOrd α] [Ord β]
    [Std.TransOrd β] [Std.LawfulEqOrd β] {members : Std.ExtTreeSet α} {images : Std.ExtTreeSet β} {f : α → β}
    (order : ∀ x y, compare (f x) (f y) = compare x y)
    (mem : ∀ y, y ∈ images ↔ ∃ x ∈ members, f x = y) : images.toList = members.toList.map f := by
  have antisymm : Std.Antisymm fun x y : β => compare x y = .lt :=
    ⟨fun x y less more => by simp [Std.OrientedOrd.eq_swap (a := x), more] at less⟩
  have irrefl : Std.Irrefl fun x y : β => compare x y = .lt := ⟨fun x less => by simp at less⟩
  have ordered : (members.toList.map f).Pairwise fun x y => compare x y = .lt := by
    rw [List.pairwise_map]
    simpa only [order] using members.ordered_toList
  exact images.ordered_toList.eq_of_mem_iff ordered fun y => by
    simp only [mem, List.mem_map, Std.ExtTreeSet.mem_toList]

variable {r : Renumbering}

theorem Variable.compare_moved (v w : Variable) : compare (v.moved r) (w.moved r) = compare v w :=
  congrArg (compare v.name w.name).then (compare_strictMono r.scopeMono v.scope w.scope)

theorem Term.compare_moved (x y : Term) : compare (x.moved r) (y.moved r) = compare x y := by
  cases x <;> cases y <;> first | rfl | exact Variable.compare_moved _ _

theorem Condition.compare_moved (c d : Condition) : compare (c.moved r) (d.moved r) = compare c d := by
  have all {parts others : List Condition}
      (order : ∀ c ∈ parts, ∀ d, Condition.order (c.moved r) (d.moved r) = Condition.order c d) :
      orderAll (parts.map (·.moved r)) (others.map (·.moved r)) = orderAll parts others := by
    induction parts generalizing others with
    | nil => cases others <;> rfl
    | cons c parts ih =>
        rw [List.forall_mem_cons] at order
        cases others with
        | nil => rfl
        | cons d others => simp only [List.map_cons, orderAll, order.1, ih order.2]
  change Condition.order _ _ = Condition.order _ _
  induction c using induct generalizing d with
  | atom a =>
      cases d with
      | atom b =>
          exact congrArg (compare a.predicate b.predicate).then
            (compare_map Term.compare_moved a.args b.args)
      | not _ | and _ | or _ => rfl
  | not c ih =>
      cases d with
      | not d => exact ih d
      | atom _ | and _ | or _ => rfl
  | and parts ih =>
      cases d with
      | and others =>
          simp only [moved, subst, substAll_eq_map, Condition.order]
          exact all ih
      | atom _ | not _ | or _ => rfl
  | or parts ih =>
      cases d with
      | or others =>
          simp only [moved, subst, substAll_eq_map, Condition.order]
          exact all ih
      | atom _ | not _ | and _ => rfl

end HtnPlanning
