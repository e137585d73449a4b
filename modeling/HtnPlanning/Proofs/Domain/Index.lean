import HtnPlanning.Domain.Index
import Mathlib.Data.List.FinRange

namespace HtnPlanning

namespace Domain

variable (d : Domain)

def operator? (name : String) : Option Operator :=
  d.operators.find? fun o => o.name = name

def methodsFor (name : String) : List Method :=
  d.methods.filter fun m => m.pattern.name = name

structure MethodsAt (name : String) (positions : List (Fin d.methods.length)) : Prop where
  ascending : positions.Pairwise (· < ·)
  mem_iff : ∀ i, i ∈ positions ↔ (d.methods.get i).pattern.name = name

structure OperatorAt (name : String) (position : Fin d.operators.length) : Prop where
  named : (d.operators.get position).name = name
  earliest : ∀ i < position, (d.operators.get i).name ≠ name

end Domain

namespace DomainIndex

section

variable {α : Type} (named : α → String)

theorem getElem?_addToList (table : Std.ExtTreeMap String (List α)) (a : α) (name : String) :
    (addToList named table a)[name]?.getD [] =
      table[name]?.getD [] ++ if named a = name then [a] else [] := by
  rw [addToList, Std.ExtTreeMap.getElem?_insert]
  by_cases same : named a = name
  · simp [same]
  · simp [same]

theorem getElem?_foldl_addToList (items : List α) (table : Std.ExtTreeMap String (List α))
    (name : String) :
    (items.foldl (addToList named) table)[name]?.getD [] =
      table[name]?.getD [] ++ items.filter fun a => named a = name := by
  induction items generalizing table with
  | nil => simp
  | cons a items ih =>
      rw [List.foldl_cons, ih, getElem?_addToList, List.append_assoc]
      by_cases same : named a = name
      · simp [same]
      · simp [same]

theorem getElem?_addIfNew (table : Std.ExtTreeMap String α) (a : α) (name : String) :
    (addIfNew named table a)[name]? =
      table[name]?.or (if named a = name then some a else none) := by
  rw [addIfNew, Std.ExtTreeMap.getElem?_insertIfNew]
  by_cases same : named a = name
  · have present := Std.ExtTreeMap.mem_iff_isSome_getElem? (t := table) (a := name)
    cases taken : table[name]? with
    | none => simp [same, present, taken]
    | some first => simp [same, present, taken]
  · simp [same]

theorem getElem?_foldl_addIfNew (items : List α) (table : Std.ExtTreeMap String α) (name : String) :
    (items.foldl (addIfNew named) table)[name]? =
      table[name]?.or (items.find? fun a => named a = name) := by
  induction items generalizing table with
  | nil => simp
  | cons a items ih =>
      rw [List.foldl_cons, ih, getElem?_addIfNew, Option.or_assoc]
      by_cases same : named a = name
      · simp [same]
      · simp [same]

end

variable {d : Domain}

theorem getElem?_methodPositions (d : Domain) (name : String) :
    (methodPositions d)[name]?.getD [] =
      (List.finRange d.methods.length).filter fun i => (d.methods.get i).pattern.name = name := by
  rw [methodPositions, getElem?_foldl_addToList, Std.ExtTreeMap.getElem?_empty]
  rfl

theorem getElem?_operatorPositions (d : Domain) (name : String) :
    (operatorPositions d)[name]? =
      (List.finRange d.operators.length).find? fun i => (d.operators.get i).name = name := by
  rw [operatorPositions, getElem?_foldl_addIfNew, Std.ExtTreeMap.getElem?_empty, Option.none_or]

theorem methodsAt_methodPositions (d : Domain) (name : String) :
    d.MethodsAt name ((methodPositions d)[name]?.getD []) := by
  rw [getElem?_methodPositions]
  constructor
  · exact (List.pairwise_lt_finRange _).filter _
  · simp

theorem operatorPositions_eq_some_iff {name : String} {i : Fin d.operators.length} :
    (operatorPositions d)[name]? = some i ↔ d.OperatorAt name i := by
  rw [getElem?_operatorPositions, List.find?_eq_some_iff_getElem]
  simp only [decide_eq_true_eq, List.getElem_finRange, Bool.not_eq_true', decide_eq_false_iff_not]
  constructor
  · rintro ⟨named, k, bound, rfl, earliest⟩
    exact ⟨named, fun j before => earliest j before⟩
  · rintro ⟨named, earliest⟩
    exact ⟨named, i, by simp, rfl, fun j before => earliest ⟨j, before.trans i.isLt⟩ before⟩

theorem methodsFor_ofDomain (d : Domain) (t : Task) :
    (ofDomain d).methodsFor t = d.methodsFor t.name := by
  rw [methodsFor, ofDomain, getElem?_methodPositions, Domain.methodsFor]
  conv_rhs => rw [← List.map_get_finRange d.methods, List.filter_map]
  rfl

theorem operator?_ofDomain (d : Domain) (name : String) :
    (ofDomain d).operator? name = d.operator? name := by
  rw [operator?, ofDomain, getElem?_operatorPositions, Domain.operator?]
  conv_rhs => rw [← List.map_get_finRange d.operators, List.find?_map]
  rfl

theorem mem_of_methodsFor {d : Domain} {t : Task} {m : Method}
    (found : m ∈ (ofDomain d).methodsFor t) : m ∈ d.methods := by
  rw [methodsFor_ofDomain] at found
  exact (List.mem_filter.mp found).1

/-- An index finds what a scan of the declarations finds: for a task every method whose pattern has
its name, each declaration once and in order, and for a name the first operator declared under it. -/
theorem ofDomain_scans (d : Domain) (t : Task) (name : String) :
    (ofDomain d).methodsFor t = d.methodsFor t.name ∧
    (∃ positions, d.MethodsAt t.name positions ∧
      (ofDomain d).methodsFor t = positions.map d.methods.get) ∧
    (ofDomain d).operator? name = d.operator? name ∧
    (∀ o, (ofDomain d).operator? name = some o ↔
      ∃ i, d.OperatorAt name i ∧ d.operators.get i = o) ∧
    ((ofDomain d).operator? name = none ↔ ∀ o ∈ d.operators, o.name ≠ name) := by
  refine ⟨methodsFor_ofDomain d t, ⟨_, methodsAt_methodPositions d t.name, rfl⟩,
    operator?_ofDomain d name, fun o => ?_, ?_⟩
  · simp only [operator?, Option.map_eq_some_iff]
    exact exists_congr fun i => and_congr_left' operatorPositions_eq_some_iff
  · rw [operator?_ofDomain, Domain.operator?]
    simp

end DomainIndex

end HtnPlanning
