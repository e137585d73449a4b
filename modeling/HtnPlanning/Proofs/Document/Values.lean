import HtnPlanning.Document
import HtnPlanning.Proofs.Logic.Renaming

namespace HtnPlanning

namespace Json

theorem filter_key {fields : List (String × Json)} (distinct : (fields.map Prod.fst).Nodup)
    {name : String} {j : Json} (member : (name, j) ∈ fields) :
    (fields.filter fun (key, _) => key = name) = [(name, j)] := by
  induction fields with
  | nil => cases member
  | cons field fields ih =>
      rw [List.map_cons, List.nodup_cons] at distinct
      rcases List.mem_cons.mp member with rfl | later
      · have others : (fields.filter fun (key, _) => key = name) = [] := by
          refine List.filter_eq_nil_iff.mpr fun other inside => ?_
          have differs : other.1 ≠ name := fun same =>
            distinct.1 (List.mem_map.mpr ⟨other, inside, same⟩)
          simpa using differs
        simp [others]
      · have differs : field.1 ≠ name := fun same =>
          distinct.1 (List.mem_map.mpr ⟨(name, j), later, same.symm⟩)
        rw [List.filter_cons_of_neg (by simpa using differs), ih distinct.2 later]

theorem field?_of_mem {fields : List (String × Json)} (distinct : (fields.map Prod.fst).Nodup)
    {name : String} {j : Json} (member : (name, j) ∈ fields) : field? fields name = some (some j) := by
  rw [field?, filter_key distinct member]

theorem mapM_map {α β : Type} {f : α → β} {g : β → Option γ} {h : α → γ} {xs : List α}
    (image : ∀ x ∈ xs, g (f x) = some (h x)) : (xs.map f).mapM g = some (xs.map h) := by
  induction xs with
  | nil => rfl
  | cons x xs ih =>
      rw [List.forall_mem_cons] at image
      rw [List.map_cons, List.mapM_cons, image.1, ih image.2]
      rfl

theorem record?_obj (names : List String) (values : List Json) (distinct : names.Nodup)
    (length : names.length = values.length) :
    (Json.obj (names.zip values)).record? names = some values := by
  have keys : (names.zip values).map Prod.fst = names := List.map_fst_zip (Nat.le_of_eq length)
  have present : names.mapM (field? (names.zip values)) = some (values.map some) := by
    have found : ((names.zip values).map Prod.fst).mapM (field? (names.zip values)) =
        some ((names.zip values).map (some ∘ Prod.snd)) :=
      mapM_map fun field member => field?_of_mem (keys.symm ▸ distinct) member
    rwa [keys, ← List.map_map, List.map_snd_zip (Nat.le_of_eq length.symm)] at found
  have all : (values.map some).mapM id = some (values.map id) := mapM_map fun _ _ => rfl
  rw [record?, partialRecord?, present, Option.bind_some, all, List.map_id]

theorem ofList_toList {α : Type} [DecidableEq α] [Ord α] [Std.TransOrd α] [Std.LawfulEqOrd α]
    (s : Std.ExtTreeSet α) : Std.ExtTreeSet.ofList s.toList compare = s :=
  Std.ExtTreeSet.ext_mem fun x => by simp

structure Lossless {α : Type} (encode : α → Json) (decode : Json → Option α) : Prop where
  decode_encode : ∀ x, decode (encode x) = some x
  injective : Function.Injective encode

variable {α : Type} {encode : α → Json} {decode : Json → Option α}

theorem Lossless.of_decode (decodes : ∀ x, decode (encode x) = some x) : Lossless encode decode where
  decode_encode := decodes
  injective x y same := by
    rw [← Option.some.injEq, ← decodes x, same, decodes y]

theorem Lossless.mapM (lossless : Lossless encode decode) (xs : List α) :
    (xs.map encode).mapM decode = some xs := by
  rw [mapM_map (h := id) fun x _ => lossless.decode_encode x, List.map_id]

end Json

open Json

theorem Variable.lossless : Lossless Variable.toJson Variable.ofJson? := by
  refine .of_decode fun v => ?_
  have fields : v.toJson.record? ["name", "scope"] = some _ :=
    record?_obj ["name", "scope"] [.str v.name, .nat v.scope] (by decide) rfl
  rw [ofJson?, fields]
  rfl

theorem Term.lossless : Lossless Term.toJson Term.ofJson? := by
  refine .of_decode fun t => ?_
  cases t with
  | var v => exact congrArg (Option.map Term.var) (Variable.lossless.decode_encode v)
  | const c => rfl

theorem Atom.lossless : Lossless Atom.toJson Atom.ofJson? := by
  refine .of_decode fun a => ?_
  have fields : a.toJson.record? ["predicate", "args"] = some _ :=
    record?_obj ["predicate", "args"] [.str a.predicate, .arr (a.args.map Term.toJson)] (by decide) rfl
  rw [ofJson?, fields]
  simp [str?, items?, Term.lossless.mapM]

theorem Condition.toJsonAll_eq_map (parts : List Condition) : toJsonAll parts = parts.map toJson := by
  induction parts with
  | nil => rfl
  | cons c rest ih => rw [toJsonAll, ih, List.map_cons]

theorem Condition.ofJsonAll?_eq_mapM (items : List Json) : ofJsonAll? items = items.mapM ofJson? := by
  induction items with
  | nil => rfl
  | cons j rest ih => rw [ofJsonAll?, ih, List.mapM_cons]

theorem Condition.lossless : Lossless Condition.toJson Condition.ofJson? := by
  refine .of_decode fun c => ?_
  induction c using Condition.induct with
  | atom a => exact congrArg (Option.map Condition.atom) (Atom.lossless.decode_encode a)
  | not c ih => exact congrArg (Option.map Condition.not) ih
  | and parts ih | or parts ih =>
      have all : ofJsonAll? (toJsonAll parts) = some parts := by
        rw [toJsonAll_eq_map, ofJsonAll?_eq_mapM, mapM_map (h := id) ih, List.map_id]
      simp only [toJson, variant, ofJson?, all, Option.map_some]

theorem Effect.lossless : Lossless Effect.toJson Effect.ofJson? := by
  refine .of_decode fun e => ?_
  cases e with
  | add a => exact congrArg (Option.map Effect.add) (Atom.lossless.decode_encode a)
  | delete a => exact congrArg (Option.map Effect.delete) (Atom.lossless.decode_encode a)

theorem State.lossless : Lossless State.toJson State.ofJson? := by
  refine .of_decode fun s => ?_
  have fields : s.toJson.record? ["facts"] = some _ :=
    record?_obj ["facts"] [.arr (s.toList.map Atom.toJson)] (by decide) rfl
  rw [ofJson?, fields]
  simp [items?, Atom.lossless.mapM, toList, ofList_toList]

theorem TaskId.lossless : Lossless TaskId.toJson TaskId.ofJson? :=
  .of_decode fun _ => rfl

theorem Task.lossless : Lossless Task.toJson Task.ofJson? := by
  refine .of_decode fun t => ?_
  have fields : t.toJson.record? ["id", "name", "args", "primitive"] = some _ :=
    record?_obj ["id", "name", "args", "primitive"]
      [t.id.toJson, .str t.name, .arr (t.args.map Term.toJson), .bool t.primitive] (by decide) rfl
  rw [ofJson?, fields]
  simp [TaskId.lossless.decode_encode, str?, items?, bool?, Term.lossless.mapM]

theorem TaskSet.lossless : Lossless TaskSet.toJson TaskSet.ofJson? := by
  refine .of_decode fun ids => ?_
  simp [ofJson?, toJson, items?, TaskId.lossless.mapM, ofList_toList]

theorem Constraint.oneSided?_obj (build : TaskSet → Condition → Constraint) (tasks : TaskSet)
    (condition : Condition) :
    oneSided? build (.obj [("tasks", tasks.toJson), ("condition", condition.toJson)]) =
      some (build tasks condition) := by
  have fields := record?_obj ["tasks", "condition"] [tasks.toJson, condition.toJson] (by decide) rfl
  simp only [List.zip_cons_cons, List.zip_nil_left] at fields
  simp [oneSided?, fields, TaskSet.lossless.decode_encode, Condition.lossless.decode_encode]

theorem Constraint.lossless : Lossless Constraint.toJson Constraint.ofJson? := by
  refine .of_decode fun c => ?_
  cases c with
  | precedence earlier later =>
      have fields := record?_obj ["preceding", "proceeding"] [earlier.toJson, later.toJson] (by decide) rfl
      simp only [List.zip_cons_cons, List.zip_nil_left] at fields
      simp [toJson, variant, ofJson?, fields, TaskSet.lossless.decode_encode]
  | before tasks condition => exact oneSided?_obj .before tasks condition
  | after tasks condition => exact oneSided?_obj .after tasks condition
  | between earlier later condition =>
      have fields := record?_obj ["preceding", "proceeding", "condition"]
        [earlier.toJson, later.toJson, condition.toJson] (by decide) rfl
      simp only [List.zip_cons_cons, List.zip_nil_left] at fields
      simp [toJson, variant, ofJson?, fields, TaskSet.lossless.decode_encode,
        Condition.lossless.decode_encode]

/-- Terms, atoms, conditions of any nesting, effects, states, tasks and constraints are read back from
their JSON forms, so two different values never share one. -/
theorem Stored.forms_lossless :
    Lossless Term.toJson Term.ofJson? ∧ Lossless Atom.toJson Atom.ofJson? ∧
      Lossless Condition.toJson Condition.ofJson? ∧ Lossless Effect.toJson Effect.ofJson? ∧
      Lossless State.toJson State.ofJson? ∧ Lossless Task.toJson Task.ofJson? ∧
      Lossless Constraint.toJson Constraint.ofJson? :=
  ⟨Term.lossless, Atom.lossless, Condition.lossless, Effect.lossless, State.lossless, Task.lossless,
    Constraint.lossless⟩

end HtnPlanning
