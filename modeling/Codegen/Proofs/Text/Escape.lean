import Codegen.Text.Escape
import Mathlib.Logic.Function.Basic

namespace Codegen.Text

theorem utf8_injective : Function.Injective utf8 := by
  intro s t h
  have hencode : s.toList.utf8Encode = t.toList.utf8Encode := congrArg List.toByteArray h
  rw [String.utf8Encode_toList, String.utf8Encode_toList] at hencode
  exact String.toByteArray_inj.mp hencode

theorem hexValue?_hexDigit (letters : LetterCase) {value : Nat} (hvalue : value < 16) :
    hexValue? (hexDigit letters value) = some value := by
  revert value
  cases letters <;> decide

/-- The byte that two hexadecimal digits stand for. -/
def hexByte? (high low : Char) : Option UInt8 := do
  return UInt8.ofNat (16 * (← hexValue? high) + (← hexValue? low))

theorem hexByte?_hexDigits (letters : LetterCase) (b : UInt8) :
    hexByte? (hexDigit letters (b.toNat / 16 % 16)) (hexDigit letters (b.toNat % 16)) = some b := by
  have hb : b.toNat < 256 := b.toNat_lt
  rw [hexByte?, hexValue?_hexDigit letters (by omega), hexValue?_hexDigit letters (by omega)]
  have hsplit : 16 * (b.toNat / 16 % 16) + b.toNat % 16 = b.toNat := by omega
  change some (UInt8.ofNat (16 * (b.toNat / 16 % 16) + b.toNat % 16)) = some b
  rw [hsplit, UInt8.ofNat_toNat]

/-- Reads the rest of a quoted text up to its closing quote: the bytes, and what follows the quote.
A backslash and two hexadecimal digits stand for a byte, and any other character for its own bytes
if it may stand between quotes at all. -/
def readQuoted (allowed : Char → Bool) : List Char → Option (List UInt8 × List Char)
  | [] => none
  | c :: rest =>
    if c = '"' then some ([], rest)
    else if c = '\\' then
      match rest with
      | high :: low :: rest => do
        let byte ← hexByte? high low
        let (bytes, rest) ← readQuoted allowed rest
        return (byte :: bytes, rest)
      | _ => none
    else if allowed c then do
      let (bytes, rest) ← readQuoted allowed rest
      return (String.utf8EncodeChar c ++ bytes, rest)
    else none

theorem readQuoted_quote (allowed : Char → Bool) (rest : List Char) :
    readQuoted allowed ('"' :: rest) = some ([], rest) := by
  unfold readQuoted
  exact if_pos rfl

theorem readQuoted_char {allowed : Char → Bool} {c : Char} (hquote : c ≠ '"')
    (hbackslash : c ≠ '\\') (hallowed : allowed c = true) (rest : List Char) :
    readQuoted allowed (c :: rest) = (readQuoted allowed rest).map fun (bytes, rest) =>
      (String.utf8EncodeChar c ++ bytes, rest) := by
  conv => lhs; unfold readQuoted
  rw [if_neg hquote, if_neg hbackslash, if_pos hallowed]
  cases readQuoted allowed rest <;> rfl

theorem readQuoted_backslash {allowed : Char → Bool} {high low : Char} {byte : UInt8}
    (hbyte : hexByte? high low = some byte) (rest : List Char) :
    readQuoted allowed ('\\' :: high :: low :: rest) =
      (readQuoted allowed rest).map fun (bytes, rest) => (byte :: bytes, rest) := by
  rw [readQuoted, if_neg (by decide), if_pos rfl, hbyte]
  cases readQuoted allowed rest <;> rfl

theorem length_lt_of_readQuoted {allowed : Char → Bool} {text rest : List Char} {bytes : List UInt8}
    (hread : readQuoted allowed text = some (bytes, rest)) : rest.length < text.length := by
  fun_induction readQuoted allowed text generalizing bytes with
  | case1 => cases hread
  | case2 => simp_all
  | case3 high low text _ ih =>
    obtain ⟨byte, -, hread⟩ := Option.bind_eq_some_iff.mp hread
    obtain ⟨⟨inner, last⟩, hinner, hlast⟩ := Option.bind_eq_some_iff.mp hread
    cases hlast
    have hlength := ih hinner
    simp only [List.length_cons]
    omega
  | case4 => cases hread
  | case5 c text _ _ _ ih =>
    obtain ⟨⟨inner, last⟩, hinner, hlast⟩ := Option.bind_eq_some_iff.mp hread
    cases hlast
    exact Nat.lt_succ_of_lt (ih hinner)
  | case6 => cases hread

/-- Printable ASCII may stand between quotes. -/
def AllowsPrintable (allowed : Char → Bool) : Prop :=
  ∀ c : Char, 0x20 ≤ c.toNat → c.toNat ≤ 0x7e → allowed c = true

theorem isLiteralByte_iff {b : UInt8} :
    isLiteralByte b = true ↔
      (0x20 ≤ b.toNat ∧ b.toNat ≤ 0x7e) ∧ b.toNat ≠ 0x22 ∧ b.toNat ≠ 0x5c := by
  simp only [isLiteralByte, Bool.and_eq_true, decide_eq_true_eq, bne_iff_ne, UInt8.le_iff_toNat_le,
    ne_eq, ← UInt8.toNat_inj, and_assoc]
  rfl

theorem toNat_ofUInt8 (b : UInt8) : (Char.ofUInt8 b).toNat = b.toNat :=
  UInt8.toNat_toUInt32 b

theorem utf8EncodeChar_ofUInt8 {b : UInt8} (hb : b.toNat ≤ 0x7e) :
    String.utf8EncodeChar (Char.ofUInt8 b) = [b] := by
  have hsize : (Char.ofUInt8 b).utf8Size = 1 := by
    rw [Char.utf8Size_eq_one_iff, UInt32.le_iff_toNat_le]
    have hval := toNat_ofUInt8 b
    simp only [Char.toNat] at hval
    rw [hval]
    exact Nat.le_trans hb (by decide)
  rw [String.utf8EncodeChar_eq_singleton hsize]
  exact congrArg (fun byte => [byte]) (UInt8.toUInt8_toUInt32 b)

theorem ofUInt8_ne {b : UInt8} {c : Char} (hcode : b.toNat ≠ c.toNat) : Char.ofUInt8 b ≠ c := by
  rintro rfl
  exact hcode (toNat_ofUInt8 b).symm

theorem escapeByte_of_isLiteralByte (letters : LetterCase) {b : UInt8}
    (hliteral : isLiteralByte b = true) : escapeByte letters b = [Char.ofUInt8 b] :=
  if_pos hliteral

theorem escapeByte_of_not_isLiteralByte (letters : LetterCase) {b : UInt8}
    (hliteral : ¬ isLiteralByte b = true) : escapeByte letters b =
      ['\\', hexDigit letters (b.toNat / 16 % 16), hexDigit letters (b.toNat % 16)] := by
  simp [escapeByte, hliteral, hexDigits]

/-- One escaped byte is read back whatever follows it. -/
theorem readQuoted_escapeByte {allowed : Char → Bool} (hallowed : AllowsPrintable allowed)
    (letters : LetterCase) (b : UInt8) (rest : List Char) :
    readQuoted allowed (escapeByte letters b ++ rest) =
      (readQuoted allowed rest).map fun (bytes, rest) => (b :: bytes, rest) := by
  by_cases hliteral : isLiteralByte b = true
  · obtain ⟨⟨hlow, hhigh⟩, hquote, hbackslash⟩ := isLiteralByte_iff.mp hliteral
    have hchar : allowed (Char.ofUInt8 b) = true := by
      apply hallowed <;> simpa only [toNat_ofUInt8]
    rw [escapeByte_of_isLiteralByte letters hliteral, List.singleton_append,
      readQuoted_char (ofUInt8_ne hquote) (ofUInt8_ne hbackslash) hchar,
      utf8EncodeChar_ofUInt8 hhigh]
    rfl
  · rw [escapeByte_of_not_isLiteralByte letters hliteral]
    exact readQuoted_backslash (hexByte?_hexDigits letters b) rest

/-- Escaped bytes before a closing quote are read back, and reading stops at that quote. -/
theorem readQuoted_escapeBytes {allowed : Char → Bool} (hallowed : AllowsPrintable allowed)
    (letters : LetterCase) (bytes : List UInt8) (rest : List Char) :
    readQuoted allowed (bytes.flatMap (escapeByte letters) ++ '"' :: rest) =
      some (bytes, rest) := by
  induction bytes with
  | nil => exact readQuoted_quote allowed rest
  | cons b bytes ih =>
    rw [List.flatMap_cons, List.append_assoc, readQuoted_escapeByte hallowed, ih]
    rfl

theorem readQuoted_escape {allowed : Char → Bool} (hallowed : AllowsPrintable allowed)
    (letters : LetterCase) (s : String) (rest : List Char) :
    readQuoted allowed ((escape letters s).toList ++ '"' :: rest) = some (utf8 s, rest) := by
  rw [escape, String.toList_ofList, readQuoted_escapeBytes hallowed]

theorem printable_hexDigit (letters : LetterCase) {value : Nat} (hvalue : value < 16) :
    0x20 ≤ (hexDigit letters value).toNat ∧ (hexDigit letters value).toNat ≤ 0x7e := by
  revert value
  cases letters <;> decide

theorem exists_of_mem_hexDigits {letters : LetterCase} {width value : Nat} {c : Char}
    (hc : c ∈ hexDigits letters width value) : ∃ digit < 16, c = hexDigit letters digit := by
  induction width generalizing value with
  | zero => cases hc
  | succ width ih =>
    rw [hexDigits, List.mem_append, List.mem_singleton] at hc
    rcases hc with hc | rfl
    · exact ih hc
    · exact ⟨value % 16, Nat.mod_lt value (by decide), rfl⟩

theorem printable_of_mem_hexDigits {letters : LetterCase} {width value : Nat} {c : Char}
    (hc : c ∈ hexDigits letters width value) : 0x20 ≤ c.toNat ∧ c.toNat ≤ 0x7e := by
  obtain ⟨digit, hdigit, rfl⟩ := exists_of_mem_hexDigits hc
  exact printable_hexDigit letters hdigit

theorem isAlphanum_of_mem_hexDigits {letters : LetterCase} {width value : Nat} {c : Char}
    (hc : c ∈ hexDigits letters width value) : c.isAlphanum = true := by
  obtain ⟨digit, hdigit, rfl⟩ := exists_of_mem_hexDigits hc
  clear hc
  revert digit
  cases letters <;> decide

/-- An escaped text is printable ASCII whatever the text is. -/
theorem printable_of_mem_escape {letters : LetterCase} {s : String} {c : Char}
    (hc : c ∈ (escape letters s).toList) : 0x20 ≤ c.toNat ∧ c.toNat ≤ 0x7e := by
  rw [escape, String.toList_ofList, List.mem_flatMap] at hc
  obtain ⟨b, -, hmem⟩ := hc
  rw [escapeByte] at hmem
  split at hmem
  case isTrue hliteral =>
    rw [List.mem_singleton.mp hmem, toNat_ofUInt8]
    exact (isLiteralByte_iff.mp hliteral).1
  case isFalse =>
    rcases List.mem_cons.mp hmem with rfl | hdigit
    · decide
    · exact printable_of_mem_hexDigits hdigit

/-- The only quotes of a quoted text are the two around it. -/
theorem ne_quote_of_mem_escape {letters : LetterCase} {s : String} {c : Char}
    (hc : c ∈ (escape letters s).toList) : c ≠ '"' := by
  rw [escape, String.toList_ofList, List.mem_flatMap] at hc
  obtain ⟨b, -, hmem⟩ := hc
  rintro rfl
  rw [escapeByte] at hmem
  split at hmem
  case isTrue hliteral =>
    have hcode := congrArg Char.toNat (List.mem_singleton.mp hmem)
    rw [toNat_ofUInt8] at hcode
    exact (isLiteralByte_iff.mp hliteral).2.1 hcode.symm
  case isFalse =>
    rcases List.mem_cons.mp hmem with hslash | hdigit
    · cases hslash
    · exact absurd (isAlphanum_of_mem_hexDigits hdigit) (by decide)

theorem escape_injective (letters : LetterCase) : Function.Injective (escape letters) := by
  intro s t h
  have hall : AllowsPrintable fun _ => true := fun _ _ _ => rfl
  have hs := readQuoted_escape hall letters s []
  rw [h, readQuoted_escape hall letters t []] at hs
  exact utf8_injective (congrArg Prod.fst (Option.some.inj hs)).symm

end Codegen.Text
