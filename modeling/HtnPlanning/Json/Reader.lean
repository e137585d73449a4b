import HtnPlanning.Json.Token

/-!
# Reading JSON

Reads a value from the tokens of a document. Arrays and objects that are still open are kept on a
stack, so documents may be nested to any depth.
-/

namespace HtnPlanning.Json

inductive Container where
  | array (items : List Json)
  | object (fields : List (String × Json)) (readable : Bool) (key : Option String)

inductive Expected where
  | value
  | valueOrEnd
  | key
  | keyOrEnd
  | colon
  | commaOrEnd
  | nothing (value : Json)

structure Reading where
  stack : List Container
  expected : Expected

namespace Reading

def complete (stack : List Container) (j : Json) : Reading :=
  match stack with
  | [] => ⟨[], .nothing j⟩
  | .array items :: rest => ⟨.array (j :: items) :: rest, .commaOrEnd⟩
  | .object fields readable (some key) :: rest =>
    ⟨.object ((key, j) :: fields) readable none :: rest, .commaOrEnd⟩
  | .object fields _ none :: rest => ⟨.object fields false none :: rest, .commaOrEnd⟩

def beginValue (stack : List Container) : Token → Option Reading
  | .openArray => some ⟨.array [] :: stack, .valueOrEnd⟩
  | .openObject => some ⟨.object [] true none :: stack, .keyOrEnd⟩
  | .text (some s) => some (complete stack (.str s))
  | .text none => some (complete stack .foreign)
  | .scalar j => some (complete stack j)
  | _ => none

def endValue : List Container → Token → Option Reading
  | .array items :: rest, .closeArray => some (complete rest (.arr items.reverse))
  | .object fields readable _ :: rest, .closeObject =>
    some (complete rest (if readable then .obj fields.reverse else .foreign))
  | _, _ => none

def beginField : List Container → Token → Option Reading
  | .object fields readable _ :: rest, .text key =>
    some ⟨.object fields readable key :: rest, .colon⟩
  | _, _ => none

def nextItem : List Container → Option Reading
  | .array items :: rest => some ⟨.array items :: rest, .value⟩
  | .object fields readable key :: rest => some ⟨.object fields readable key :: rest, .key⟩
  | [] => none

def step (r : Reading) (token : Token) : Option Reading :=
  match r.expected, token with
  | .value, _ => beginValue r.stack token
  | .valueOrEnd, .closeArray => endValue r.stack token
  | .valueOrEnd, _ => beginValue r.stack token
  | .key, _ => beginField r.stack token
  | .keyOrEnd, .closeObject => endValue r.stack token
  | .keyOrEnd, _ => beginField r.stack token
  | .colon, .colon => some { r with expected := .value }
  | .commaOrEnd, .comma => nextItem r.stack
  | .commaOrEnd, _ => endValue r.stack token
  | _, _ => none

def value? (r : Reading) : Option Json :=
  match r.expected with
  | .nothing j => some j
  | _ => none

end Reading

def parse (document : List UInt8) : Option Json := do
  let tokens ← lex document
  let reading ← tokens.foldlM Reading.step ⟨[], .value⟩
  reading.value?

end HtnPlanning.Json
