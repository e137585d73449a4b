import HtnPlanning.Json.Reader
import HtnPlanning.Proofs.Json.Token

/-!
# Reading what was printed

Every printed value is read back. What a part of the text does to the reader is said for whatever the reader
was in the middle of, so that an array or an object is read item by item.
-/

namespace HtnPlanning.Json

/-- The values that are read back: not the placeholder for other values, and no number beyond 64 bits. -/
inductive Plain : Json → Prop
  | null : Plain .null
  | bool (b : Bool) : Plain (.bool b)
  | nat {n : Nat} (small : n < UInt64.size) : Plain (.nat n)
  | str (s : String) : Plain (.str s)
  | arr {items : List Json} (plain : ∀ j ∈ items, Plain j) : Plain (.arr items)
  | obj {fields : List (String × Json)} (plain : ∀ field ∈ fields, Plain field.2) : Plain (.obj fields)

/-- A text takes the reader from one state to another, if what follows it is as `follows` says. -/
def Takes (follows : List UInt8 → Prop) (text : String) (r r' : Reading) : Prop :=
  ∃ tokens : List Token, tokens.foldlM Reading.step r = some r' ∧
    ∀ rest, follows rest →
      lexFrom .blank (bytes text ++ rest) = (lexFrom .blank rest).map (tokens ++ ·)

def anything (_ : List UInt8) : Prop :=
  True

namespace Takes

variable {follows : List UInt8 → Prop} {s t : String} {r r' r'' : Reading}

theorem append_of {before : List UInt8 → Prop} (first : Takes before s r r') (second : Takes follows t r' r'')
    (fits : ∀ rest, follows rest → before (bytes t ++ rest)) : Takes follows (s ++ t) r r'' := by
  obtain ⟨tokens, step, lexed⟩ := first
  obtain ⟨tokens', step', lexed'⟩ := second
  refine ⟨tokens ++ tokens', ?_, fun rest rests => ?_⟩
  · rw [List.foldlM_append, step]
    exact step'
  · rw [bytes_append, List.append_assoc, lexed _ (fits rest rests), lexed' rest rests, Option.map_map]
    simp [Function.comp_def]

theorem append (first : Takes anything s r r') (second : Takes follows t r' r'') :
    Takes follows (s ++ t) r r'' :=
  first.append_of second fun _ _ => trivial

theorem weaken (takes : Takes anything s r r') : Takes follows s r r' := by
  obtain ⟨tokens, step, lexed⟩ := takes
  exact ⟨tokens, step, fun rest _ => lexed rest trivial⟩

end Takes

/-! ## Marks and blanks -/

theorem takes_mark {r r' : Reading} {text : String} {b : UInt8} {token : Token} (single : bytes text = [b])
    (mark : lexByte .blank b = some ([token], .blank)) (step : r.step token = some r') :
    Takes anything text r r' := by
  refine ⟨[token], ?_, fun rest _ => ?_⟩
  · rw [List.foldlM_cons, step]
    rfl
  · rw [single, List.singleton_append, lexFrom, mark]

def Blank (text : String) : Prop :=
  ∀ c ∈ text.toList, c = ' ' ∨ c = '\n'

theorem Blank.append {s t : String} (first : Blank s) (second : Blank t) : Blank (s ++ t) := by
  intro c member
  rw [String.toList_append, List.mem_append] at member
  exact member.elim (first c) (second c)

theorem blank_newline : Blank "\n" := by
  simp [Blank]

theorem blank_step : Blank "  " := by
  simp [Blank]

theorem takes_blank {text : String} (blank : Blank text) (r : Reading) : Takes anything text r r := by
  refine ⟨[], rfl, fun rest _ => ?_⟩
  have skip : ∀ cs : List Char, (∀ c ∈ cs, c = ' ' ∨ c = '\n') →
      lexFrom .blank (cs.flatMap String.utf8EncodeChar ++ rest) = lexFrom .blank rest := by
    intro cs blank
    induction cs with
    | nil => rfl
    | cons c cs ih =>
        rw [List.forall_mem_cons] at blank
        rw [List.flatMap_cons, List.append_assoc, ← ih blank.2]
        rcases blank.1 with rfl | rfl <;> exact lexFrom_cons rfl _
  rw [bytes, skip _ blank]
  simp

/-! ## Items between brackets -/

/-- What the reader does with the items between two brackets: it has begun with them, it is about to read the
next one or is right after one, and finally it reads the closing bracket. -/
structure Course (α : Type) where
  begun : Reading
  next : List α → Reading
  after : List α → Reading
  final : List α → Reading
  closing : Token
  comma : ∀ read, (after read).step .comma = some (next read)
  closed : ∀ read, (after read).step closing = some (final read.reverse)
  closedAtOnce : begun.step closing = some (final [])

def Course.array (stack : List Container) : Course Json where
  begun := ⟨.array [] :: stack, .valueOrEnd⟩
  next read := ⟨.array read :: stack, .value⟩
  after read := ⟨.array read :: stack, .commaOrEnd⟩
  final items := .complete stack (.arr items)
  closing := .closeArray
  comma _ := rfl
  closed _ := rfl
  closedAtOnce := rfl

def Course.object (stack : List Container) : Course (String × Json) where
  begun := ⟨.object [] true none :: stack, .keyOrEnd⟩
  next read := ⟨.object read true none :: stack, .key⟩
  after read := ⟨.object read true none :: stack, .commaOrEnd⟩
  final fields := .complete stack (.obj fields)
  closing := .closeObject
  comma _ := rfl
  closed _ := rfl
  closedAtOnce := rfl

namespace Course

variable {α : Type} (course : Course α) {line : α → String}

theorem takes_lines {margin : String} (blank : Blank margin) {x : α} {xs read : List α} {r : Reading}
    (first : Takes Ends (line x) r (course.after (x :: read)))
    (each : ∀ y ∈ xs, ∀ read, Takes Ends (line y) (course.next read) (course.after (y :: read))) :
    Takes Ends (("," ++ margin).intercalate ((x :: xs).map line)) r
      (course.after ((x :: xs).reverse ++ read)) := by
  induction xs generalizing x read r with
  | nil => simpa using first
  | cons y ys ih =>
      rw [List.forall_mem_cons] at each
      have single : bytes "," = [','.toUInt8] := by decide +kernel
      have separator : Takes anything ("," ++ margin) (course.after (x :: read)) (course.next (x :: read)) :=
        (takes_mark single rfl (course.comma _)).append (takes_blank blank _)
      have front := first.append_of separator fun rest _ => by
        rw [bytes_append, single]
        exact .inl rfl
      have all := front.append (ih (each.1 (x :: read)) each.2)
      rw [List.map_cons, List.map_cons, String.intercalate_cons_cons, ← List.map_cons]
      simpa using all

theorem takes_block {opening closing indent : String} (blank : Blank indent) {b : UInt8} {xs : List α}
    {r : Reading} (opens : Takes anything opening r course.begun) (single : bytes closing = [b])
    (closes : lexByte .blank b = some ([course.closing], .blank))
    (first : ∀ x ∈ xs, Takes Ends (line x) course.begun (course.after [x]))
    (each : ∀ x ∈ xs, ∀ read, Takes Ends (line x) (course.next read) (course.after (x :: read))) :
    Takes anything (block opening closing indent (xs.map line)) r (course.final xs) := by
  cases xs with
  | nil => exact opens.append (takes_mark single closes course.closedAtOnce)
  | cons x xs =>
      rw [List.forall_mem_cons] at first each
      have margin : Blank ("\n" ++ indent ++ "  ") := (blank_newline.append blank).append blank_step
      have lines := course.takes_lines margin first.1 each.2
      have close := course.closed ((x :: xs).reverse ++ [])
      rw [List.append_nil, List.reverse_reverse] at close
      rw [List.append_nil] at lines
      have inside := (opens.append (takes_blank margin _)).append lines
      have broken := inside.append_of (takes_blank blank_newline _) fun rest (_ : anything rest) => .inr rfl
      exact (broken.append (takes_blank blank _)).append (takes_mark single closes close)

end Course

/-! ## Values -/

theorem printItems_eq_map (indent : String) (items : List Json) :
    printItems indent items = items.map (print indent) := by
  induction items with
  | nil => rfl
  | cons j rest ih => rw [printItems, ih, List.map_cons]

theorem printFields_eq_map (indent : String) (fields : List (String × Json)) :
    printFields indent fields = fields.map fun field => quote field.1 ++ ": " ++ print indent field.2 := by
  induction fields with
  | nil => rfl
  | cons field rest ih => rw [printFields, ih, List.map_cons]

theorem takes_scalar {r r' : Reading} {text : String} {j : Json}
    (lexed : ∀ rest, Ends rest →
      lexFrom .blank (bytes text ++ rest) = (lexFrom .blank rest).map (.scalar j :: ·))
    (step : r.step (.scalar j) = some r') : Takes Ends text r r' := by
  refine ⟨[.scalar j], ?_, lexed⟩
  rw [List.foldlM_cons, step]
  rfl

theorem takes_quote {r r' : Reading} {s : String} (step : r.step (.text (some s)) = some r') :
    Takes anything (quote s) r r' := by
  refine ⟨[.text (some s)], ?_, fun rest _ => lexFrom_quote s rest⟩
  rw [List.foldlM_cons, step]
  rfl

theorem takes_field {key text : String} {j : Json} {stack : List Container} {fields : List (String × Json)}
    {expected : Expected} {key? : Option String} (begins : expected = .key ∨ expected = .keyOrEnd)
    (value : Takes Ends text ⟨.object fields true (some key) :: stack, .value⟩
      ⟨.object ((key, j) :: fields) true none :: stack, .commaOrEnd⟩) :
    Takes Ends (quote key ++ ": " ++ text) ⟨.object fields true key? :: stack, expected⟩
      ⟨.object ((key, j) :: fields) true none :: stack, .commaOrEnd⟩ := by
  have name : Takes anything (quote key) ⟨.object fields true key? :: stack, expected⟩
      ⟨.object fields true (some key) :: stack, .colon⟩ := by
    apply takes_quote
    rcases begins with rfl | rfl <;> rfl
  have colon : Takes anything (":" ++ " ") ⟨.object fields true (some key) :: stack, .colon⟩
      ⟨.object fields true (some key) :: stack, .value⟩ :=
    (takes_mark (b := ':'.toUInt8) (by decide +kernel) rfl rfl).append
      (takes_blank (by simp [Blank]) _)
  exact (name.append colon).append value

theorem takes_word {r r' : Reading} {text : String} {c : Char} {letters : List Char} {j : Json}
    (spelled : bytes text = (c :: letters).map Char.toUInt8)
    (starts : lexByte .blank c.toUInt8 = some ([], .word letters j))
    (ascii : ∀ letter ∈ letters, letter.toNat < 128) (step : r.step (.scalar j) = some r') :
    Takes Ends text r r' := by
  refine takes_scalar (fun rest ends => ?_) step
  rw [spelled, List.map_cons, List.cons_append, lexFrom_cons starts, lexFrom_letters ascii, lexFrom_word j ends]

theorem step_of_begins {expected : Expected} (begins : expected = .value ∨ expected = .valueOrEnd)
    {stack : List Container} {token : Token} {r : Reading}
    (value : Reading.beginValue stack token = some r) : Reading.step ⟨stack, expected⟩ token = some r := by
  rcases begins with rfl | rfl
  · exact value
  · cases token with
    | closeArray => cases value
    | _ => exact value

theorem Plain.takes {j : Json} (plain : j.Plain) {indent : String} (blank : Blank indent)
    (stack : List Container) {expected : Expected} (begins : expected = .value ∨ expected = .valueOrEnd) :
    Takes Ends (print indent j) ⟨stack, expected⟩ (.complete stack j) := by
  have inner : Blank (indent ++ "  ") := blank.append blank_step
  -- The items of a value are read while the value itself is on the stack, so the stack is left open.
  induction plain generalizing indent stack expected with
  | null =>
      rw [print]
      exact takes_word (c := 'n') (by decide +kernel) rfl (by simp) (step_of_begins begins rfl)
  | bool b =>
      cases b with
      | true =>
          rw [print, if_pos rfl]
          exact takes_word (c := 't') (by decide +kernel) rfl (by simp) (step_of_begins begins rfl)
      | false =>
          rw [print, if_neg Bool.false_ne_true]
          exact takes_word (c := 'f') (by decide +kernel) rfl (by simp) (step_of_begins begins rfl)
  | nat small =>
      exact takes_scalar (fun rest ends => lexFrom_nat small ends) (step_of_begins begins rfl)
  | str s => exact (takes_quote (step_of_begins begins rfl)).weaken
  | @arr items plain ih =>
      have opens : Takes anything "[" ⟨stack, expected⟩ (Course.array stack).begun :=
        takes_mark (b := '['.toUInt8) (by decide +kernel) rfl (step_of_begins begins rfl)
      have closing : bytes "]" = [']'.toUInt8] := by decide +kernel
      have block := (Course.array stack).takes_block blank opens closing rfl
        (fun j member => ih j member inner _ (.inr rfl) (inner.append blank_step))
        (fun j member read => ih j member inner _ (.inl rfl) (inner.append blank_step))
      rw [print, printItems_eq_map]
      exact block.weaken
  | @obj fields plain ih =>
      have opens : Takes anything "\x7b" ⟨stack, expected⟩ (Course.object stack).begun :=
        takes_mark (b := '{'.toUInt8) (by decide +kernel) rfl (step_of_begins begins rfl)
      have closing : bytes "\x7d" = ['}'.toUInt8] := by decide +kernel
      have value : ∀ field ∈ fields, ∀ stack, Takes Ends (print (indent ++ "  ") field.2) ⟨stack, .value⟩
          (.complete stack field.2) :=
        fun field member stack => ih field member inner stack (.inl rfl) (inner.append blank_step)
      have block := (Course.object stack).takes_block blank opens closing rfl
        (fun field member => takes_field (.inr rfl) (value field member _))
        (fun field member read => takes_field (.inl rfl) (value field member _))
      rw [print, printFields_eq_map]
      exact block.weaken

theorem blank_empty : Blank "" := by
  simp [Blank]

theorem parse_text {j : Json} (plain : j.Plain) : parse j.text.toUTF8.toList = some j := by
  obtain ⟨tokens, read, lexed⟩ := plain.takes blank_empty [] (.inl rfl)
  have tokenized := lexed [] trivial
  rw [List.append_nil] at tokenized
  rw [parse, text, toList_toUTF8, lex, tokenized]
  simp [lexFrom, lexEnd, read, Reading.complete, Reading.value?]

end HtnPlanning.Json
