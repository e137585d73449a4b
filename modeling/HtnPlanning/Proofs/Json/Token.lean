import HtnPlanning.Json.Printer
import HtnPlanning.Json.Token

namespace HtnPlanning.Json

/-! ## Bytes -/

def bytes (s : String) : List UInt8 :=
  s.toList.flatMap String.utf8EncodeChar

theorem toList_loop (b : ByteArray) (i : Nat) (r : List UInt8) :
    ByteArray.toList.loop b i r = r.reverse ++ b.data.toList.drop i := by
  fun_induction ByteArray.toList.loop b i r with
  | case1 i r inside ih =>
      have inside' : i < b.data.toList.length := by simpa using inside
      rw [ih, List.drop_eq_getElem_cons inside']
      simp [ByteArray.get!, inside]
  | case2 i r outside =>
      rw [List.drop_eq_nil_of_le (by simpa using Nat.le_of_not_lt outside), List.append_nil]

theorem toByteArray_bytes (s : String) : (bytes s).toByteArray = s.toByteArray := by
  rw [bytes, ← List.utf8Encode, String.utf8Encode_toList]

theorem toList_toUTF8 (s : String) : s.toUTF8.toList = bytes s := by
  rw [ByteArray.toList, toList_loop, String.toUTF8_eq_toByteArray, ← toByteArray_bytes,
    List.toList_data_toByteArray]
  rfl

theorem bytes_append (s t : String) : bytes (s ++ t) = bytes s ++ bytes t := by
  rw [bytes, String.toList_append, List.flatMap_append]
  rfl

theorem utf8EncodeChar_of_lt {c : Char} (ascii : c.toNat < 128) :
    String.utf8EncodeChar c = [c.toUInt8] := by
  apply String.utf8EncodeChar_eq_singleton
  rw [Char.utf8Size_eq_one_iff, UInt32.le_iff_toNat_le]
  exact Nat.le_of_lt_succ ascii

theorem ofUInt8_toUInt8 {c : Char} (ascii : c.toNat < 128) : Char.ofUInt8 c.toUInt8 = c := by
  have value : c.toUInt8.toUInt32 = c.val := by
    apply UInt32.toNat_inj.mp
    rw [Char.toUInt8, UInt8.toNat_toUInt32, UInt32.toNat_toUInt8]
    exact Nat.mod_eq_of_lt (Nat.lt_trans ascii (by decide))
  exact Char.ext value

theorem le_of_mem_utf8EncodeChar {c : Char} (large : 128 ≤ c.toNat) {b : UInt8}
    (member : b ∈ String.utf8EncodeChar c) : 128 ≤ b.toNat := by
  have high (x y : UInt8) (le : 128 ≤ y.toNat) : 128 ≤ (x ||| y).toNat := by
    rw [UInt8.toNat_or]
    exact Nat.le_trans le Nat.right_le_or
  rcases c.utf8Size_eq with one | two | three | four
  · rw [Char.utf8Size_eq_one_iff, UInt32.le_iff_toNat_le] at one
    exact absurd one (Nat.not_le_of_lt large)
  · rw [String.utf8EncodeChar_eq_cons_cons two] at member
    simp only [List.mem_cons, List.not_mem_nil, or_false] at member
    rcases member with rfl | rfl <;> exact high _ _ (by decide)
  · rw [String.utf8EncodeChar_eq_cons_cons_cons three] at member
    simp only [List.mem_cons, List.not_mem_nil, or_false] at member
    rcases member with rfl | rfl | rfl <;> exact high _ _ (by decide)
  · rw [String.utf8EncodeChar_eq_cons_cons_cons_cons four] at member
    simp only [List.mem_cons, List.not_mem_nil, or_false] at member
    rcases member with rfl | rfl | rfl | rfl <;> exact high _ _ (by decide)

theorem bytes_ofList {cs : List Char} (ascii : ∀ c ∈ cs, c.toNat < 128) :
    bytes (String.ofList cs) = cs.map Char.toUInt8 := by
  rw [bytes, String.toList_ofList]
  induction cs with
  | nil => rfl
  | cons c cs ih =>
      rw [List.forall_mem_cons] at ascii
      rw [List.flatMap_cons, utf8EncodeChar_of_lt ascii.1, ih ascii.2]
      rfl

theorem lexFrom_cons {mode next : Mode} {b : UInt8} (byte : lexByte mode b = some ([], next))
    (rest : List UInt8) : lexFrom mode (b :: rest) = lexFrom next rest := by
  simp [lexFrom, byte]

/-! ## Texts -/

section Texts

variable {c letter : Char} {pieces : List Piece}

def Piece.Spells (ps : List Piece) (c : Char) : Prop :=
  ∀ rest, Piece.bytes (ps ++ rest) = (Piece.bytes rest).map (String.utf8EncodeChar c ++ ·)

theorem Piece.bytes_map_byte (bs : List UInt8) (rest : List Piece) :
    Piece.bytes (bs.map Piece.byte ++ rest) = (Piece.bytes rest).map (bs ++ ·) := by
  induction bs with
  | nil => simp
  | cons b bs ih =>
      rw [List.map_cons, List.cons_append, Piece.bytes, ih, Option.map_map]
      rfl

theorem Piece.spells_unit (control : c.toNat < 32) : Piece.Spells [.unit c.toNat] c := by
  have high : isHighSurrogate c.toNat = false := by
    simp only [isHighSurrogate, Bool.and_eq_false_iff, decide_eq_false_iff_not]
    omega
  have low : isLowSurrogate c.toNat = false := by
    simp only [isLowSurrogate, Bool.and_eq_false_iff, decide_eq_false_iff_not]
    omega
  intro rest
  rcases rest with _ | ⟨_ | next, rest⟩ <;> simp [Piece.bytes, high, low, Char.ofNat_toNat]

theorem escape_cases (c : Char) :
    (∃ letter, escape c = String.ofList ['\\', letter] ∧ letter.toNat < 128 ∧ c.toNat < 128 ∧
      simpleEscape? letter = some c.toUInt8) ∨
    c.toNat < 32 ∧ escape c = hexEscape c ∨
    32 ≤ c.toNat ∧ c ≠ '"' ∧ c ≠ '\\' ∧ escape c = String.singleton c := by
  have ofNat (n : Nat) (is : c.toNat = n) : c = Char.ofNat n := by rw [← is, Char.ofNat_toNat]
  by_cases quote : c = '"'
  · exact .inl ⟨'"', by rw [quote]; decide +kernel⟩
  by_cases backslash : c = '\\'
  · exact .inl ⟨'\\', by rw [backslash]; decide +kernel⟩
  by_cases newline : c = '\n'
  · exact .inl ⟨'n', by rw [newline]; decide +kernel⟩
  by_cases ret : c = '\r'
  · exact .inl ⟨'r', by rw [ret]; decide +kernel⟩
  by_cases tab : c = '\t'
  · exact .inl ⟨'t', by rw [tab]; decide +kernel⟩
  by_cases backspace : c.toNat = 8
  · exact .inl ⟨'b', by rw [ofNat 8 backspace]; decide +kernel⟩
  by_cases feed : c.toNat = 12
  · exact .inl ⟨'f', by rw [ofNat 12 feed]; decide +kernel⟩
  have rest : escape c = if c.toNat < 32 then hexEscape c else String.singleton c := by
    rw [escape, if_neg quote, if_neg backslash, if_neg newline, if_neg ret, if_neg tab, if_neg backspace,
      if_neg feed]
  by_cases control : c.toNat < 32
  · exact .inr (.inl ⟨control, by rw [rest, if_pos control]⟩)
  · exact .inr (.inr ⟨Nat.le_of_not_lt control, quote, backslash, by rw [rest, if_neg control]⟩)

theorem lexFrom_letter (ascii : letter.toNat < 128) (simple : simpleEscape? letter = some c.toUInt8)
    (rest : List UInt8) : lexFrom (.text pieces) (bytes (String.ofList ['\\', letter]) ++ rest) =
      lexFrom (.text (.byte c.toUInt8 :: pieces)) rest := by
  have plain : letter ≠ 'u' := by
    rintro rfl
    cases simple
  rw [bytes_ofList (by simp [ascii]), List.map_cons, List.cons_append, lexFrom_cons rfl,
    List.map_singleton, List.singleton_append, lexFrom_cons]
  simp [lexByte, ofUInt8_toUInt8 ascii, plain, simple]

theorem lexByte_unit {d : Nat} (digit : d < 16) (missing value : Nat) :
    lexByte (.unit pieces missing value) (Nat.digitChar d).toUInt8 =
      some (if missing ≤ 1 then ([], .text (.unit (16 * value + d) :: pieces))
        else ([], .unit pieces (missing - 1) (16 * value + d))) := by
  have read : hexDigit? (Char.ofUInt8 (Nat.digitChar d).toUInt8) = some d := by
    revert d
    decide +kernel
  rw [lexByte, read]
  rfl

theorem lexFrom_hexEscape (control : c.toNat < 32) (rest : List UInt8) :
    lexFrom (.text pieces) (bytes (hexEscape c) ++ rest) =
      lexFrom (.text (.unit c.toNat :: pieces)) rest := by
  have ascii : ∀ d < 16, (Nat.digitChar d).toNat < 128 := by decide +kernel
  have front : bytes "\\u00" = ['\\', 'u', '0', '0'].map Char.toUInt8 := by decide +kernel
  have digits : bytes (String.ofList [Nat.digitChar (c.toNat / 16), Nat.digitChar (c.toNat % 16)]) =
      [(Nat.digitChar (c.toNat / 16)).toUInt8, (Nat.digitChar (c.toNat % 16)).toUInt8] := by
    have first := ascii (c.toNat / 16) (by omega)
    have second := ascii (c.toNat % 16) (by omega)
    rw [bytes_ofList (by simp [first, second])]
    rfl
  have value : 16 * (16 * (16 * (16 * 0 + 0) + 0) + c.toNat / 16) + c.toNat % 16 = c.toNat := by omega
  rw [hexEscape, bytes_append, front, digits]
  simp only [List.map_cons, List.map_nil, List.cons_append, List.nil_append]
  rw [lexFrom_cons rfl, lexFrom_cons rfl, lexFrom_cons rfl, lexFrom_cons rfl,
    lexFrom_cons (lexByte_unit (by omega) 2 _), lexFrom_cons (lexByte_unit (by omega) 1 _)]
  exact congrArg (fun n => lexFrom (.text (.unit n :: pieces)) rest) value

theorem lexFrom_plain {bs : List UInt8} (plain : ∀ b ∈ bs, 32 ≤ b.toNat ∧ Char.ofUInt8 b ≠ '"' ∧
      Char.ofUInt8 b ≠ '\\') (rest : List UInt8) : lexFrom (.text pieces) (bs ++ rest) =
      lexFrom (.text ((bs.map Piece.byte).reverse ++ pieces)) rest := by
  induction bs generalizing pieces with
  | nil => rfl
  | cons b bs ih =>
      rw [List.forall_mem_cons] at plain
      obtain ⟨⟨printable, quote, backslash⟩, later⟩ := plain
      have byte : lexByte (.text pieces) b = some ([], .text (.byte b :: pieces)) := by
        have large : ¬ b < 0x20 := by simpa [UInt8.lt_iff_toNat_lt] using printable
        simp [lexByte, quote, backslash, large]
      rw [List.cons_append, lexFrom_cons byte, ih later]
      simp

theorem plain_of_mem (printable : 32 ≤ c.toNat) (quote : c ≠ '"') (backslash : c ≠ '\\') {b : UInt8}
    (member : b ∈ String.utf8EncodeChar c) :
    32 ≤ b.toNat ∧ Char.ofUInt8 b ≠ '"' ∧ Char.ofUInt8 b ≠ '\\' := by
  by_cases ascii : c.toNat < 128
  · rw [utf8EncodeChar_of_lt ascii, List.mem_singleton] at member
    rw [member, ofUInt8_toUInt8 ascii]
    refine ⟨?_, quote, backslash⟩
    rw [Char.toUInt8, UInt32.toNat_toUInt8]
    exact Nat.le_trans printable (Nat.le_of_eq (Nat.mod_eq_of_lt (Nat.lt_trans ascii (by decide))).symm)
  · have large := le_of_mem_utf8EncodeChar (Nat.le_of_not_lt ascii) member
    have code : (Char.ofUInt8 b).toNat = b.toNat := rfl
    refine ⟨Nat.le_trans (by decide) large, ?_, ?_⟩ <;>
    · intro same
      rw [← code, same] at large
      exact absurd large (by decide)

theorem exists_spells (c : Char) : ∃ ps, Piece.Spells ps c ∧ ∀ pieces rest,
    lexFrom (.text pieces) (bytes (escape c) ++ rest) = lexFrom (.text (ps.reverse ++ pieces)) rest := by
  rcases escape_cases c with ⟨letter, escaped, letterAscii, ascii, simple⟩ | ⟨control, escaped⟩ |
    ⟨printable, quote, backslash, escaped⟩
  · refine ⟨[.byte c.toUInt8], fun rest => ?_, fun pieces rest => ?_⟩
    · rw [utf8EncodeChar_of_lt ascii]
      exact Piece.bytes_map_byte [c.toUInt8] rest
    · rw [escaped]
      exact lexFrom_letter letterAscii simple rest
  · refine ⟨[.unit c.toNat], Piece.spells_unit control, fun pieces rest => ?_⟩
    rw [escaped]
    exact lexFrom_hexEscape control rest
  · refine ⟨(String.utf8EncodeChar c).map Piece.byte, Piece.bytes_map_byte _, fun pieces rest => ?_⟩
    have single : bytes (escape c) = String.utf8EncodeChar c := by
      rw [escaped, bytes]
      simp
    rw [single]
    exact lexFrom_plain (fun b member => plain_of_mem printable quote backslash member) rest

theorem exists_pieces (cs : List Char) : ∃ ps, Piece.bytes ps = some (cs.flatMap String.utf8EncodeChar) ∧
    ∀ pieces rest, lexFrom (.text pieces) (bytes (String.join (cs.map escape)) ++ rest) =
      lexFrom (.text (ps.reverse ++ pieces)) rest := by
  induction cs with
  | nil => exact ⟨[], rfl, fun pieces rest => rfl⟩
  | cons c cs ih =>
      obtain ⟨ps, spells, first⟩ := exists_spells c
      obtain ⟨ps', spelled, later⟩ := ih
      refine ⟨ps ++ ps', ?_, fun pieces rest => ?_⟩
      · rw [spells, spelled]
        rfl
      · rw [List.map_cons, String.join_cons, bytes_append, List.append_assoc, first, later,
          List.reverse_append, List.append_assoc]

theorem decode_of_bytes {ps : List Piece} {s : String} (spelled : Piece.bytes ps = some (bytes s)) :
    Piece.decode ps = some s := by
  have valid : (bytes s).toByteArray.IsValidUTF8 := by
    rw [toByteArray_bytes]
    exact s.isValidUTF8
  rw [Piece.decode, spelled, Option.bind_some, String.fromUTF8?, dif_pos valid, Option.some.injEq,
    ← String.toByteArray_inj]
  exact toByteArray_bytes s

theorem lexFrom_quote (s : String) (rest : List UInt8) : lexFrom .blank (bytes (quote s) ++ rest) =
    (lexFrom .blank rest).map (.text (some s) :: ·) := by
  obtain ⟨ps, spelled, read⟩ := exists_pieces s.toList
  have quoteBytes : bytes "\"" = ['"'.toUInt8] := by decide +kernel
  rw [quote, bytes_append, bytes_append, quoteBytes, List.append_assoc, List.append_assoc,
    List.singleton_append, lexFrom_cons rfl, read, List.append_nil, List.singleton_append]
  have close : lexByte (.text ps.reverse) '"'.toUInt8 =
      some ([.text (Piece.decode ps.reverse.reverse)], .blank) :=
    rfl
  rw [lexFrom, close, List.reverse_reverse, decode_of_bytes spelled]
  rfl

end Texts

/-! ## Words and numbers -/

section Scalars

variable {rest : List UInt8}

def Ends : List UInt8 → Prop
  | [] => True
  | b :: _ => b = ','.toUInt8 ∨ b = '\n'.toUInt8

theorem lexFrom_of_pending {mode : Mode} {token : Token} (finish : lexEnd mode = some [token])
    (comma : lexByte mode ','.toUInt8 = some ([token, .comma], .blank))
    (newline : lexByte mode '\n'.toUInt8 = some ([token], .blank)) (ends : Ends rest) :
    lexFrom mode rest = (lexFrom .blank rest).map (token :: ·) := by
  have comma' : lexByte .blank ','.toUInt8 = some ([.comma], .blank) := rfl
  have newline' : lexByte .blank '\n'.toUInt8 = some ([], .blank) := rfl
  cases rest with
  | nil => rw [lexFrom, finish]; rfl
  | cons b rest =>
      rcases ends with rfl | rfl
      · rw [lexFrom, comma, lexFrom, comma', Option.map_map]
        rfl
      · rw [lexFrom, newline, lexFrom, newline', Option.map_map]
        rfl

theorem lexFrom_letters {letters : List Char} (ascii : ∀ c ∈ letters, c.toNat < 128) (value : Json)
    (rest : List UInt8) : lexFrom (.word letters value) (letters.map Char.toUInt8 ++ rest) =
      lexFrom (.word [] value) rest := by
  induction letters with
  | nil => rfl
  | cons c letters ih =>
      rw [List.forall_mem_cons] at ascii
      have byte : lexByte (.word (c :: letters) value) c.toUInt8 = some ([], .word letters value) :=
        if_pos (ofUInt8_toUInt8 ascii.1)
      rw [List.map_cons, List.cons_append, lexFrom_cons byte, ih ascii.2]

theorem lexFrom_word (value : Json) (ends : Ends rest) :
    lexFrom (.word [] value) rest = (lexFrom .blank rest).map (.scalar value :: ·) :=
  lexFrom_of_pending rfl rfl rfl ends

theorem lexFrom_number {phase : NumberPhase} (whole : phase = .zero ∨ phase = .whole)
    (value : Option Nat) (ends : Ends rest) : lexFrom (.number phase value) rest =
      (lexFrom .blank rest).map (.scalar (ofNatural value) :: ·) := by
  rcases whole with rfl | rfl <;> exact lexFrom_of_pending rfl rfl rfl ends

theorem bytes_digit {d : Nat} (digit : d < 10) :
    bytes (String.ofList [Nat.digitChar d]) = [(Nat.digitChar d).toUInt8] := by
  revert d
  decide +kernel

theorem lexByte_firstDigit {d : Nat} (positive : 0 < d) (digit : d < 10) :
    lexByte .blank (Nat.digitChar d).toUInt8 = some ([], .number .whole (some d)) := by
  match d with
  | 1 | 2 | 3 | 4 | 5 | 6 | 7 | 8 | 9 => rfl

theorem lexByte_digit {d : Nat} (digit : d < 10) (n : Nat) :
    lexByte (.number .whole (some n)) (Nat.digitChar d).toUInt8 =
      some ([], .number .whole (some (10 * n + d))) := by
  match d with
  | 0 | 1 | 2 | 3 | 4 | 5 | 6 | 7 | 8 | 9 => rfl

theorem lexFrom_digits {n : Nat} (positive : 0 < n) (rest : List UInt8) :
    lexFrom .blank (bytes (String.ofList (Nat.toDigits 10 n)) ++ rest) =
      lexFrom (.number .whole (some n)) rest := by
  -- The last digit is printed behind the digits of a tenth of the number, and read after them.
  induction n using Nat.strongRecOn generalizing rest with
  | ind n ih =>
      by_cases single : n < 10
      · rw [Nat.toDigits_of_lt_base single, bytes_digit single, List.singleton_append,
          lexFrom_cons (lexByte_firstDigit positive single)]
      · have digit : n % 10 < 10 := Nat.mod_lt n (by decide)
        rw [Nat.toDigits_of_base_le (by decide) (Nat.le_of_not_lt single), String.ofList_append, bytes_append,
          List.append_assoc, ih (n / 10) (by omega) (by omega), bytes_digit digit, List.singleton_append,
          lexFrom_cons (lexByte_digit digit (n / 10)), Nat.div_add_mod]

theorem lexFrom_nat {n : Nat} (small : n < UInt64.size) (ends : Ends rest) :
    lexFrom .blank (bytes (toString n) ++ rest) = (lexFrom .blank rest).map (.scalar (.nat n) :: ·) := by
  have value : ofNatural (some n) = .nat n := if_pos small
  rw [Nat.toString_eq_ofList_toDigits, ← value]
  rcases Nat.eq_zero_or_pos n with rfl | positive
  · have zero : (0 : Nat) < 10 := by decide
    rw [Nat.toDigits_of_lt_base zero, bytes_digit zero, List.singleton_append, lexFrom_cons rfl,
      lexFrom_number (.inl rfl) (some 0) ends]
  · rw [lexFrom_digits positive, lexFrom_number (.inr rfl) (some n) ends]

end Scalars

end HtnPlanning.Json
