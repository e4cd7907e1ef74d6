import Codegen.Proofs.Ir.WrittenNames
import Codegen.Proofs.Number.ShortestInteger

namespace Codegen.Text

/-- The number that hexadecimal digits in either case stand for. -/
def readHex? (digits : List Char) : Option Nat :=
  digits.foldlM (fun value c => (hexValue? c).map (16 * value + ·)) 0

theorem readHex?_append (digits : List Char) (c : Char) :
    readHex? (digits ++ [c]) =
      (readHex? digits).bind fun value => (hexValue? c).map (16 * value + ·) := by
  simp [readHex?, List.foldlM_append, Option.bind_eq_bind]

/-- Reading digits of fixed width gives the number up to that width. -/
theorem readHex?_hexDigits (letters : LetterCase) (width value : Nat) :
    readHex? (hexDigits letters width value) = some (value % 16 ^ width) := by
  induction width generalizing value with
  | zero => rw [Nat.pow_zero, Nat.mod_one]; rfl
  | succ width ih =>
    have hvalue : 16 * (value / 16 % 16 ^ width) + value % 16 = value % 16 ^ (width + 1) := by
      rw [Nat.pow_succ', Nat.mod_mul, Nat.add_comm]
    rw [hexDigits, readHex?_append, ih, hexValue?_hexDigit letters (Nat.mod_lt value (by decide)),
      Option.bind_some, Option.map_some, hvalue]

theorem isUpperHexDigit_of_mem_hexDigits {width value : Nat} {c : Char}
    (hc : c ∈ hexDigits .upper width value) : isUpperHexDigit c = true := by
  obtain ⟨digit, hdigit, rfl⟩ := exists_of_mem_hexDigits hc
  exact isUpperHexDigit_hexDigit hdigit

end Codegen.Text

namespace Codegen.Ir

open Codegen.Text Codegen.Number

/-- A sign or none, digits, a point and a zero. -/
def IsDecimalText (text : String) : Prop :=
  ∃ sign digits, text.toList = sign ++ digits ++ ['.', '0'] ∧ (sign = [] ∨ sign = ['-']) ∧
    digits ≠ [] ∧ ∀ c ∈ digits, c.isDigit = true

/-- The float that a decimal text without its sign stands for. -/
def readWhole? (negative : Bool) (text : List Char) : Option Binary64 :=
  (readNat? text).bind fun number =>
    if number.2 = ['.', '0'] then some (Binary64.ofQuotient negative number.1 1) else none

/-- The float that a text stands for, which shows the bits or an integer. -/
def readFloat? (text : String) : Option Binary64 :=
  if ['0', 'x'] <+: text.toList then
    (readHex? (text.toList.drop 2)).map fun bits => ⟨UInt64.ofNat bits⟩
  else if ['-'] <+: text.toList then readWhole? true (text.toList.drop 1)
  else readWhole? false text.toList

theorem toList_decimalText (negative : Bool) (n : Nat) :
    (decimalText negative n).toList =
      (if negative then ['-'] else []) ++ (Nat.repr n).toList ++ ['.', '0'] := by
  rw [decimalText, String.toList_append, String.toList_append, apply_ite String.toList]
  rfl

theorem isDecimalText_decimalText (negative : Bool) (n : Nat) :
    IsDecimalText (decimalText negative n) := by
  obtain ⟨c, digits, hrepr, hdigits⟩ := exists_digits_of_repr n
  refine ⟨if negative then ['-'] else [], c :: digits, ?_, ?_, List.cons_ne_nil _ _, hdigits⟩
  · rw [toList_decimalText, hrepr]
  · cases negative with
    | false => exact .inl rfl
    | true => exact .inr rfl

theorem IsDecimalText.not_mem {text : String} (h : IsDecimalText text) {c : Char}
    (hdigit : c.isDigit = false) (hminus : c ≠ '-') (hpoint : c ≠ '.') : c ∉ text.toList := by
  obtain ⟨sign, digits, htext, hsign, -, hdigits⟩ := h
  rw [htext, List.mem_append, List.mem_append]
  rintro ((hmem | hmem) | hmem)
  · rcases hsign with rfl | rfl
    · cases hmem
    · exact hminus (List.mem_singleton.mp hmem)
  · rw [hdigits c hmem] at hdigit
    cases hdigit
  · rcases List.mem_cons.mp hmem with rfl | hmem
    · exact hpoint rfl
    · rw [List.mem_singleton.mp hmem] at hdigit
      cases hdigit

theorem not_isDecimalText_hex (digits : String) : ¬ IsDecimalText ("0x" ++ digits) := by
  intro h
  exact h.not_mem (c := 'x') rfl (by decide) (by decide) (by simp)

theorem readWhole?_repr (negative : Bool) (n : Nat) :
    readWhole? negative ((Nat.repr n).toList ++ ['.', '0']) =
      some (Binary64.ofQuotient negative n 1) := by
  rw [readWhole?, readNat?_repr n (by simp), Option.bind_some, if_pos rfl]

theorem readFloat?_decimalText (negative : Bool) (n : Nat) :
    readFloat? (decimalText negative n) = some (Binary64.ofQuotient negative n 1) := by
  have hhex : ¬ ['0', 'x'] <+: (decimalText negative n).toList := by
    intro hstart
    exact (isDecimalText_decimalText negative n).not_mem (c := 'x') rfl (by decide) (by decide)
      (hstart.subset (by simp))
  rw [readFloat?, if_neg hhex, toList_decimalText]
  cases negative with
  | true =>
    rw [if_pos ⟨_, rfl⟩]
    exact readWhole?_repr true n
  | false =>
    obtain ⟨c, digits, hrepr, hdigits⟩ := exists_digits_of_repr n
    have hminus : ¬ ['-'] <+: (Nat.repr n).toList ++ ['.', '0'] := by
      rw [hrepr, List.cons_append, List.cons_prefix_cons]
      rintro ⟨rfl, -⟩
      cases hdigits '-' List.mem_cons_self
    exact (if_neg hminus).trans (readWhole?_repr false n)

theorem toList_hexText (x : Binary64) :
    x.hexText.toList = hexDigits .upper 16 x.bits.toNat :=
  String.toList_ofList

theorem readHex?_hexText (x : Binary64) : readHex? x.hexText.toList = some x.bits.toNat := by
  have hlt : x.bits.toNat < 16 ^ 16 := x.bits.toNat_lt
  rw [toList_hexText, readHex?_hexDigits, Nat.mod_eq_of_lt hlt]

theorem readFloat?_hexText (x : Binary64) : readFloat? ("0x" ++ x.hexText) = some x := by
  have htext : ("0x" ++ x.hexText).toList = '0' :: 'x' :: x.hexText.toList := by
    rw [String.toList_append]
    rfl
  rw [readFloat?, htext, if_pos ⟨_, rfl⟩, List.drop_succ_cons, List.drop_succ_cons, List.drop_zero,
    readHex?_hexText, Option.map_some, UInt64.ofNat_toNat]

/-- A float of a type that does not round is written in one of two ways, by its value. -/
theorem floatLiteral_cases_of_ne {type : Ty} (htype : type ≠ .single) (x : Binary64) :
    (∃ n : ℕ, x.isFinite = true ∧ |x.toRat| = n ∧ n < 10 ^ 16 ∧
        floatLiteral type x = decimalText x.isNegative n) ∨
      (∀ n : ℕ, x.isFinite = true → |x.toRat| = n → 10 ^ 16 ≤ n) ∧
        floatLiteral type x = "0x" ++ x.hexText := by
  obtain ⟨y, hy, hcases⟩ := floatLiteral_cases type x
  rw [if_neg htype] at hy
  subst hy
  rcases hcases with ⟨n, hinteger, hlt, htext⟩ | ⟨hlarge, htext⟩
  · obtain ⟨hfinite, hn⟩ := Binary64.integer?_eq_some_iff.mp hinteger
    exact .inl ⟨n, hfinite, hn, hlt, htext⟩
  · exact .inr ⟨fun n hfinite hn => hlarge n (Binary64.integer?_eq_some_iff.mpr ⟨hfinite, hn⟩),
      htext⟩

theorem readFloat?_floatLiteral {type : Ty} (htype : type ≠ .single) (x : Binary64) :
    readFloat? (floatLiteral type x) = some x := by
  rcases floatLiteral_cases_of_ne htype x with ⟨n, hfinite, hn, -, htext⟩ | ⟨-, htext⟩
  · rw [htext, readFloat?_decimalText,
      Binary64.ofQuotient_of_abs_toRat hfinite Nat.one_pos (by rw [hn, Nat.cast_one, div_one])]
  · rw [htext, readFloat?_hexText]

theorem isDecimalText_floatLiteral_iff {type : Ty} (htype : type ≠ .single) (x : Binary64) :
    IsDecimalText (floatLiteral type x) ↔
      x.isFinite = true ∧ ∃ n : ℕ, |x.toRat| = n ∧ n < 10 ^ 16 := by
  rcases floatLiteral_cases_of_ne htype x with ⟨n, hfinite, hn, hlt, htext⟩ | ⟨hlarge, htext⟩
  · rw [htext]
    exact ⟨fun _ => ⟨hfinite, n, hn, hlt⟩, fun _ => isDecimalText_decimalText x.isNegative n⟩
  · rw [htext]
    constructor
    · intro hdecimal
      exact absurd hdecimal (not_isDecimalText_hex x.hexText)
    · rintro ⟨hfinite, n, hn, hlt⟩
      exact absurd hlt (Nat.not_lt.mpr (hlarge n hfinite hn))

theorem floatLiteral_of_lt {type : Ty} (htype : type ≠ .single) {x : Binary64} {n : ℕ}
    (hfinite : x.isFinite = true) (hn : |x.toRat| = n) (hlt : n < 10 ^ 16) :
    floatLiteral type x = decimalText x.isNegative n := by
  rcases floatLiteral_cases_of_ne htype x with ⟨m, -, hm, -, htext⟩ | ⟨hlarge, -⟩
  · obtain rfl : n = m := by exact_mod_cast hn.symm.trans hm
    exact htext
  · exact absurd hlt (Nat.not_lt.mpr (hlarge n hfinite hn))

theorem exists_digits_of_not_isDecimalText {type : Ty} (htype : type ≠ .single) {x : Binary64}
    (hhex : ¬ IsDecimalText (floatLiteral type x)) :
    ∃ digits, floatLiteral type x = "0x" ++ digits ∧ digits.length = 16 ∧
      (∀ c ∈ digits.toList, isUpperHexDigit c = true) ∧
      readHex? digits.toList = some x.bits.toNat := by
  rcases floatLiteral_cases_of_ne htype x with ⟨n, -, -, -, htext⟩ | ⟨-, htext⟩
  · rw [htext] at hhex
    exact absurd (isDecimalText_decimalText x.isNegative n) hhex
  · refine ⟨x.hexText, htext, ?_, fun c hc => ?_, readHex?_hexText x⟩
    · rw [← String.length_toList, toList_hexText, length_hexDigits]
    · rw [toList_hexText] at hc
      exact isUpperHexDigit_of_mem_hexDigits hc

theorem floatLiteral_eq_iff {type other : Ty} (htype : type ≠ .single) (hother : other ≠ .single)
    (x y : Binary64) : floatLiteral other y = floatLiteral type x ↔ y = x := by
  constructor
  · intro htext
    have hread := readFloat?_floatLiteral hother y
    rw [htext, readFloat?_floatLiteral htype x] at hread
    exact (Option.some.inj hread).symm
  · rintro rfl
    rw [floatLiteral, floatLiteral, if_neg htype, if_neg hother]

/-- The limit of the decimal form is the one from which on the shortest text has an exponent. -/
theorem e_not_mem_shortestText_iff {x : Binary64} {n : ℕ} (hn : |x.toRat| = n) {least : ℤ}
    (hleast : least ≤ 0) : 'e' ∉ (x.shortestText ⟨least, 15⟩).toList ↔ n < 10 ^ 16 := by
  constructor
  · intro he
    by_contra! hle
    exact he (Binary64.e_mem_shortestText_of_le rfl hn hle)
  · intro hlt
    rw [Binary64.shortestText_of_lt hleast rfl hn hlt]
    exact (isDecimalText_decimalText x.isNegative n).not_mem rfl (by decide) (by decide)

/-- Every float is written exactly: as an integer with its sign when it is one below the limit, and
otherwise by its sixteen digits, so that the text determines the bits. The choice is the one that
the shortest decimal text shows by having no exponent. -/
theorem floatLiteral_shows_pattern {type : Ty} (htype : type ≠ .single) (x : Binary64) :
    (IsDecimalText (floatLiteral type x) ↔
      x.isFinite = true ∧ ∃ n : ℕ, |x.toRat| = n ∧ n < 10 ^ 16) ∧
    (∀ n : ℕ, x.isFinite = true → |x.toRat| = n → n < 10 ^ 16 →
      floatLiteral type x = (if x.isNegative then "-" else "") ++ Nat.repr n ++ ".0") ∧
    (¬ IsDecimalText (floatLiteral type x) →
      ∃ digits, floatLiteral type x = "0x" ++ digits ∧ digits.length = 16 ∧
        (∀ c ∈ digits.toList, isUpperHexDigit c = true) ∧
        readHex? digits.toList = some x.bits.toNat) ∧
    readFloat? (floatLiteral type x) = some x ∧
    (∀ other y, other ≠ .single → (floatLiteral other y = floatLiteral type x ↔ y = x)) ∧
    ∀ least : ℤ, least ≤ 0 →
      (IsDecimalText (floatLiteral type x) ↔
        x.isFinite = true ∧ (∃ n : ℕ, |x.toRat| = n) ∧
          'e' ∉ (x.shortestText ⟨least, 15⟩).toList) ∧
      (IsDecimalText (floatLiteral type x) → floatLiteral type x = x.shortestText ⟨least, 15⟩) := by
  have hdecimal := isDecimalText_floatLiteral_iff htype x
  refine ⟨hdecimal, fun n => floatLiteral_of_lt htype, exists_digits_of_not_isDecimalText htype,
    readFloat?_floatLiteral htype x, fun other y hother => floatLiteral_eq_iff htype hother x y,
    fun least hleast => ⟨?_, fun htext => ?_⟩⟩
  · rw [hdecimal]
    constructor
    · rintro ⟨hfinite, n, hn, hlt⟩
      exact ⟨hfinite, ⟨n, hn⟩, (e_not_mem_shortestText_iff hn hleast).mpr hlt⟩
    · rintro ⟨hfinite, ⟨n, hn⟩, hplain⟩
      exact ⟨hfinite, n, hn, (e_not_mem_shortestText_iff hn hleast).mp hplain⟩
  · obtain ⟨hfinite, n, hn, hlt⟩ := hdecimal.mp htext
    rw [floatLiteral_of_lt htype hfinite hn hlt,
      Binary64.shortestText_of_lt hleast rfl hn hlt]
    rfl

/-- The last integer below the limit, the limit itself, and both zeros. -/
theorem floatLiteral_shows_pattern_at_limit :
    Ty.double ≠ .single ∧
      floatLiteral .double ⟨0x4341C37937E07FFF⟩ = "9999999999999998.0" ∧
      ¬ IsDecimalText (floatLiteral .double ⟨0x4341C37937E08000⟩) ∧
      readFloat? (floatLiteral .double ⟨0x4341C37937E08000⟩) = some ⟨0x4341C37937E08000⟩ ∧
      floatLiteral .double ⟨0x8000000000000000⟩ ≠ floatLiteral .double ⟨0⟩ := by
  have hdouble : Ty.double ≠ .single := by decide
  obtain ⟨-, hbelow, -⟩ := floatLiteral_shows_pattern hdouble ⟨0x4341C37937E07FFF⟩
  obtain ⟨hdecimal, -, -, hread, -⟩ := floatLiteral_shows_pattern hdouble ⟨0x4341C37937E08000⟩
  obtain ⟨-, -, -, -, hdistinct, -⟩ := floatLiteral_shows_pattern hdouble ⟨0⟩
  have hlast : (⟨0x4341C37937E07FFF⟩ : Binary64).integer? = some 9999999999999998 := by decide
  have hlimit : (⟨0x4341C37937E08000⟩ : Binary64).integer? = some (10 ^ 16) := by decide
  obtain ⟨hlastFinite, hlastValue⟩ := Binary64.integer?_eq_some_iff.mp hlast
  obtain ⟨-, hlimitValue⟩ := Binary64.integer?_eq_some_iff.mp hlimit
  refine ⟨hdouble, ?_, ?_, hread, ?_⟩
  · rw [hbelow _ hlastFinite hlastValue (by decide)]
    decide
  · rw [hdecimal]
    rintro ⟨-, n, hn, hlt⟩
    obtain rfl : 10 ^ 16 = n := by exact_mod_cast hlimitValue.symm.trans hn
    exact absurd hlt (lt_irrefl _)
  · exact mt (hdistinct _ _ hdouble).mp (by decide)

end Codegen.Ir
