import HtnPlanning.Json.Value

namespace HtnPlanning.Json

inductive Token where
  | openArray
  | closeArray
  | openObject
  | closeObject
  | comma
  | colon
  | text (s : Option String)
  | scalar (j : Json)

inductive Piece where
  | byte (b : UInt8)
  | unit (n : Nat)

namespace Piece

def isHighSurrogate (n : Nat) : Bool :=
  0xD800 ≤ n && n < 0xDC00

def isLowSurrogate (n : Nat) : Bool :=
  0xDC00 ≤ n && n < 0xE000

def ofSurrogates (high low : Nat) : Char :=
  Char.ofNat (0x10000 + (high - 0xD800) * 0x400 + (low - 0xDC00))

def bytes : List Piece → Option (List UInt8)
  | [] => some []
  | .byte b :: rest => (bytes rest).map (b :: ·)
  | .unit high :: .unit low :: rest =>
    if isHighSurrogate high then
      if isLowSurrogate low then
        (bytes rest).map (String.utf8EncodeChar (ofSurrogates high low) ++ ·)
      else
        none
    else if isLowSurrogate high then
      none
    else
      (bytes (.unit low :: rest)).map (String.utf8EncodeChar (Char.ofNat high) ++ ·)
  | .unit n :: rest =>
    if isHighSurrogate n || isLowSurrogate n then
      none
    else
      (bytes rest).map (String.utf8EncodeChar (Char.ofNat n) ++ ·)

def decode (pieces : List Piece) : Option String :=
  (bytes pieces).bind fun bs => String.fromUTF8? bs.toByteArray

end Piece

def simpleEscape? : Char → Option UInt8
  | '"' => some 0x22
  | '\\' => some 0x5C
  | '/' => some 0x2F
  | 'b' => some 0x08
  | 'f' => some 0x0C
  | 'n' => some 0x0A
  | 'r' => some 0x0D
  | 't' => some 0x09
  | _ => none

def hexDigit? (c : Char) : Option Nat :=
  if '0' ≤ c ∧ c ≤ '9' then some (c.toNat - '0'.toNat)
  else if 'a' ≤ c ∧ c ≤ 'f' then some (c.toNat - 'a'.toNat + 10)
  else if 'A' ≤ c ∧ c ≤ 'F' then some (c.toNat - 'A'.toNat + 10)
  else none

inductive NumberPhase where
  | minus
  | zero
  | whole
  | point
  | fraction
  | exponentMark
  | exponentSign
  | exponent

namespace NumberPhase

def next? (phase : NumberPhase) (c : Char) : Option NumberPhase :=
  match phase with
  | .minus => if c = '0' then some .zero else if c.isDigit then some .whole else none
  | .zero => afterWhole
  | .whole => if c.isDigit then some .whole else afterWhole
  | .point => if c.isDigit then some .fraction else none
  | .fraction => if c.isDigit then some .fraction else afterFraction
  | .exponentMark =>
    if c.isDigit then some .exponent
    else if c = '+' || c = '-' then some .exponentSign
    else none
  | .exponentSign => if c.isDigit then some .exponent else none
  | .exponent => if c.isDigit then some .exponent else none
where
  afterFraction : Option NumberPhase :=
    if c = 'e' || c = 'E' then some .exponentMark else none
  afterWhole : Option NumberPhase :=
    if c = '.' then some .point else afterFraction

def isComplete : NumberPhase → Bool
  | .zero | .whole | .fraction | .exponent => true
  | .minus | .point | .exponentMark | .exponentSign => false

end NumberPhase

def ofNatural : Option Nat → Json
  | some n => if n < UInt64.size then .nat n else .foreign
  | none => .foreign

def withDigit (phase : NumberPhase) (value : Option Nat) (c : Char) : Option Nat :=
  match phase with
  | .whole => value.map fun n => 10 * n + (c.toNat - '0'.toNat)
  | _ => none

inductive Mode where
  | blank
  | word (missing : List Char) (value : Json)
  | number (phase : NumberPhase) (value : Option Nat)
  | text (pieces : List Piece)
  | escape (pieces : List Piece)
  | unit (pieces : List Piece) (missing : Nat) (value : Nat)

def start (c : Char) : Option (List Token × Mode) :=
  match c with
  | ' ' | '\n' | '\r' | '\t' => some ([], .blank)
  | '[' => some ([.openArray], .blank)
  | ']' => some ([.closeArray], .blank)
  | '{' => some ([.openObject], .blank)
  | '}' => some ([.closeObject], .blank)
  | ',' => some ([.comma], .blank)
  | ':' => some ([.colon], .blank)
  | '"' => some ([], .text [])
  | 't' => some ([], .word ['r', 'u', 'e'] (.bool true))
  | 'f' => some ([], .word ['a', 'l', 's', 'e'] (.bool false))
  | 'n' => some ([], .word ['u', 'l', 'l'] .null)
  | '-' => some ([], .number .minus none)
  | '0' => some ([], .number .zero (some 0))
  | _ => if c.isDigit then some ([], .number .whole (some (c.toNat - '0'.toNat))) else none

def lexByte (mode : Mode) (b : UInt8) : Option (List Token × Mode) :=
  let c := Char.ofUInt8 b
  match mode with
  | .blank => start c
  | .word [] value => (start c).map fun (tokens, mode) => (.scalar value :: tokens, mode)
  | .word (letter :: missing) value => if c = letter then some ([], .word missing value) else none
  | .number phase value =>
    match phase.next? c with
    | some next => some ([], .number next (withDigit next value c))
    | none =>
      if phase.isComplete then
        (start c).map fun (tokens, mode) => (.scalar (ofNatural value) :: tokens, mode)
      else
        none
  | .text pieces =>
    if c = '"' then some ([.text (Piece.decode pieces.reverse)], .blank)
    else if c = '\\' then some ([], .escape pieces)
    else if b < 0x20 then none
    else some ([], .text (.byte b :: pieces))
  | .escape pieces =>
    if c = 'u' then some ([], .unit pieces 4 0)
    else (simpleEscape? c).map fun plain => ([], .text (.byte plain :: pieces))
  | .unit pieces missing value =>
    (hexDigit? c).map fun digit =>
      let value := 16 * value + digit
      if missing ≤ 1 then ([], .text (.unit value :: pieces))
      else ([], .unit pieces (missing - 1) value)

def lexEnd : Mode → Option (List Token)
  | .blank => some []
  | .word [] value => some [.scalar value]
  | .number phase value => if phase.isComplete then some [.scalar (ofNatural value)] else none
  | _ => none

def lexFrom (mode : Mode) : List UInt8 → Option (List Token)
  | [] => lexEnd mode
  | b :: rest =>
    match lexByte mode b with
    | none => none
    | some (tokens, mode) => (lexFrom mode rest).map (tokens ++ ·)

def lex (document : List UInt8) : Option (List Token) :=
  lexFrom .blank document

end HtnPlanning.Json
