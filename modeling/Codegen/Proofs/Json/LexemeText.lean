import Codegen.Json.Value
import Codegen.Proofs.Json.Lexeme
import Codegen.Proofs.Text.Decimal
import Codegen.Proofs.Text.Escape

namespace Codegen.Json

open Codegen.Text

/-- A character that goes on with a number. -/
def isNumeralChar (c : Char) : Bool :=
  c.isDigit || c == '.' || c == 'e' || c == 'E'

theorem hexUnit?_hexDigits {n : Nat} (hn : n < 0x10000) :
    hexUnit? (hexDigit .lower (n / 16 / 16 / 16 % 16)) (hexDigit .lower (n / 16 / 16 % 16))
      (hexDigit .lower (n / 16 % 16)) (hexDigit .lower (n % 16)) = some n := by
  have hdigit (k : Nat) : hexValue? (hexDigit .lower (k % 16)) = some (k % 16) :=
    hexValue?_hexDigit .lower (Nat.mod_lt k (by decide))
  rw [hexUnit?, hdigit, hdigit, hdigit, hdigit]
  have hsplit : (n / 16 / 16 / 16 % 16 * 16 + n / 16 / 16 % 16) * 256 +
      (n / 16 % 16 * 16 + n % 16) = n := by omega
  exact congrArg some hsplit

theorem scanPieces_letter {c e : Char} (hletter : escapeLetter? c = some e) (rest : List Char) :
    scanPieces ('\\' :: c :: rest) = (.char e :: (scanPieces rest).1, (scanPieces rest).2) := by
  have hc : c ≠ 'u' := by
    rintro rfl
    cases hletter
  rw [scanPieces, hletter]
  intro _ _ _ _ _ hu
  exact absurd hu hc

theorem scanPieces_unit {a b c d : Char} {n : Nat} (hunit : hexUnit? a b c d = some n)
    (rest : List Char) :
    scanPieces ('\\' :: 'u' :: a :: b :: c :: d :: rest) =
      (.unit n :: (scanPieces rest).1, (scanPieces rest).2) := by
  rw [scanPieces, hunit]

theorem scanPieces_char {c : Char} (hquote : c ≠ '"') (hbackslash : c ≠ '\\')
    (hcontrol : ¬ c.toNat < 0x20) (rest : List Char) :
    scanPieces (c :: rest) = (.char c :: (scanPieces rest).1, (scanPieces rest).2) := by
  rw [scanPieces, if_neg hcontrol]
  all_goals simp_all

theorem decodePieces_unit {n : Nat} (hlow : isLowUnit n = false) (hhigh : isHighUnit n = false)
    (pieces : List Piece) :
    decodePieces (.unit n :: pieces) = (decodePieces pieces).map (Char.ofNat n :: ·) := by
  conv => lhs; unfold decodePieces
  simp [hlow, hhigh]

/-- What is written for one character is one piece, which stands for that character. -/
theorem exists_piece_of_escapeChar (c : Char) :
    ∃ piece : Piece,
      (∀ rest, scanPieces (escapeChar c ++ rest) =
        (piece :: (scanPieces rest).1, (scanPieces rest).2)) ∧
      ∀ pieces, decodePieces (piece :: pieces) = (decodePieces pieces).map (c :: ·) := by
  unfold escapeChar
  split
  case h_8 hquote hbackslash _ _ _ _ _ =>
    split
    case isTrue hcontrol =>
      have hunit := hexUnit?_hexDigits (n := c.toNat) (by omega)
      have hlow : isLowUnit c.toNat = false := by
        simp only [isLowUnit, Bool.and_eq_false_iff, decide_eq_false_iff_not]
        omega
      have hhigh : isHighUnit c.toNat = false := by
        simp only [isHighUnit, Bool.and_eq_false_iff, decide_eq_false_iff_not]
        omega
      refine ⟨.unit c.toNat, fun rest => scanPieces_unit hunit rest, fun pieces => ?_⟩
      rw [decodePieces_unit hlow hhigh, Char.ofNat_toNat]
    case isFalse hcontrol =>
      exact ⟨.char c, scanPieces_char hquote hbackslash hcontrol, fun pieces => rfl⟩
  all_goals exact ⟨.char _, scanPieces_letter rfl, fun pieces => rfl⟩

theorem exists_pieces_of_flatMap_escapeChar (cs rest : List Char) :
    ∃ pieces, scanPieces (cs.flatMap escapeChar ++ '"' :: rest) = (pieces, .ok rest) ∧
      decodePieces pieces = some cs := by
  induction cs with
  | nil => exact ⟨[], by simp [scanPieces], rfl⟩
  | cons c cs ih =>
    obtain ⟨pieces, hscan, hdecode⟩ := ih
    obtain ⟨piece, hpiece, hchar⟩ := exists_piece_of_escapeChar c
    refine ⟨piece :: pieces, ?_, ?_⟩
    · rw [List.flatMap_cons, List.append_assoc, hpiece, hscan]
    · rw [hchar, hdecode]
      rfl

theorem lex_quote (s : String) (rest : List Char) :
    lex ((quote s).toList ++ rest) = .string (some s) :: lex rest := by
  obtain ⟨pieces, hscan, hdecode⟩ := exists_pieces_of_flatMap_escapeChar s.toList rest
  have htext : (quote s).toList ++ rest = '"' :: (s.toList.flatMap escapeChar ++ '"' :: rest) := by
    simp [quote]
  have hlexeme : lexemeAt '"' (s.toList.flatMap escapeChar ++ '"' :: rest) =
      (.string (some s), rest) := by
    change stringLexeme _ = _
    rw [stringLexeme, hscan]
    simp [hdecode]
  rw [htext, lex_cons rfl, hlexeme]

theorem lexemeAt_of_isDigit {c : Char} (hc : c.isDigit = true) (rest : List Char) :
    lexemeAt c rest = numberLexeme (c :: rest) := by
  unfold lexemeAt
  split
  case h_11 => exact if_pos (.inr hc)
  all_goals exact absurd hc (by decide)

/-- A number is not written with a zero in front. -/
theorem head_ne_zero_of_toDigits {n : Nat} (hn : 0 < n) {c : Char} {cs : List Char}
    (hdigits : Nat.toDigits 10 n = c :: cs) : c ≠ '0' := by
  induction n using Nat.strongRecOn generalizing c cs with
  | ind n ih =>
    by_cases hlt : n < 10
    · rw [Nat.toDigits_of_lt_base hlt] at hdigits
      have hsmall : ∀ k < 10, 0 < k → k.digitChar ≠ '0' := by decide
      rw [← (List.cons.inj hdigits).1]
      exact hsmall n hlt hn
    · have hge : 10 ≤ n := Nat.le_of_not_lt hlt
      rw [Nat.toDigits_of_base_le (by decide) hge] at hdigits
      obtain ⟨d, ds, hfront⟩ :=
        List.exists_cons_of_ne_nil (Nat.toDigits_ne_nil (n := n / 10) (b := 10))
      rw [hfront, List.cons_append] at hdigits
      rw [← (List.cons.inj hdigits).1]
      exact ih (n / 10) (by omega) (by omega) hfront

theorem scanWhole_repr (n : Nat) {rest : List Char} (hrest : StartsOutside Char.isDigit rest) :
    scanWhole ((Nat.repr n).toList ++ rest) =
      .ok ((Nat.repr n).toList.map fun c => c.toNat - '0'.toNat, rest) := by
  obtain ⟨c, digits, hrepr, hdigits⟩ := exists_digits_of_repr n
  have hspan := span_append hdigits hrest
  rw [List.span_eq_takeWhile_dropWhile] at hspan
  obtain ⟨htake, hdrop⟩ := Prod.mk.inj hspan
  have hscan : scanDigits ((Nat.repr n).toList ++ rest) =
      .ok ((Nat.repr n).toList.map fun c => c.toNat - '0'.toNat, rest) := by
    rw [hrepr, List.cons_append, scanDigits, if_pos (hdigits c List.mem_cons_self), digitsOf,
      afterDigits, ← List.cons_append, htake, hdrop]
  have hzero : ∀ d more, (Nat.repr n).toList ++ rest = '0' :: d :: more → d.isDigit = false := by
    intro d more htext
    rw [hrepr, List.cons_append] at htext
    obtain ⟨hc, htail⟩ := List.cons.inj htext
    have hn : n = 0 := by
      rcases Nat.eq_zero_or_pos n with hn | hn
      · exact hn
      · rw [Nat.toList_repr] at hrepr
        exact absurd hc (head_ne_zero_of_toDigits hn hrepr)
    subst hn
    have hnil : digits = [] := by
      rw [Nat.toList_repr, Nat.toDigits_zero] at hrepr
      exact (List.cons.inj hrepr).2.symm
    rw [hnil, List.nil_append] at htail
    rw [htail, startsOutside_cons] at hrest
    exact hrest
  unfold scanWhole
  split
  · next d more htext =>
    rw [hzero d more htext]
    exact hscan
  · exact hscan

theorem startsOutside_isDigit {rest : List Char} (hrest : StartsOutside isNumeralChar rest) :
    StartsOutside Char.isDigit rest := by
  intro c hc
  have hnumeral := hrest c hc
  simp only [isNumeralChar, Bool.or_eq_false_iff] at hnumeral
  exact hnumeral.1.1.1

theorem scanFraction_of_startsOutside {rest : List Char}
    (hrest : StartsOutside isNumeralChar rest) : scanFraction rest = .ok (none, rest) := by
  unfold scanFraction
  split
  · rw [startsOutside_cons] at hrest
    exact absurd hrest (by decide)
  · rfl

theorem scanExponent_of_startsOutside {rest : List Char}
    (hrest : StartsOutside isNumeralChar rest) : scanExponent rest = .ok (none, rest) := by
  unfold scanExponent
  split
  · next c rest =>
    rw [startsOutside_cons] at hrest
    have hc : ¬ (c = 'e' ∨ c = 'E') := by
      rintro (rfl | rfl) <;> exact absurd hrest (by decide)
    rw [if_neg hc]
  · rfl

theorem scanNumeral_repr (n : Nat) {rest : List Char} (hrest : StartsOutside isNumeralChar rest) :
    scanNumeral ((Nat.repr n).toList ++ rest) =
      .ok (⟨false, (Nat.repr n).toList.map fun c => c.toNat - '0'.toNat, none, none⟩, rest) := by
  have hwhole := scanWhole_repr n (startsOutside_isDigit hrest)
  obtain ⟨c, digits, hrepr, hdigits⟩ := exists_digits_of_repr n
  have hsign : c ≠ '-' := by
    rintro rfl
    exact absurd (hdigits _ List.mem_cons_self) (by decide)
  simp only [scanNumeral]
  split
  · next hminus =>
    rw [hrepr, List.cons_append] at hminus
    exact absurd (List.cons.inj hminus).1 hsign
  · rw [hwhole]
    change (scanFraction rest >>= fun _ => _) = _
    rw [scanFraction_of_startsOutside hrest]
    change (scanExponent rest >>= fun _ => _) = _
    rw [scanExponent_of_startsOutside hrest]
    rfl

theorem le_foldl_digits (n : Nat) (digits : List Nat) :
    n ≤ digits.foldl (fun n d => 10 * n + d) n := by
  induction digits generalizing n with
  | nil => exact Nat.le_refl n
  | cons d digits ih =>
    have hstep := ih (10 * n + d)
    simp only [List.foldl_cons]
    omega

theorem takeFitting_of_lt {n : Nat} {digits : List Nat}
    (hfits : digits.foldl (fun n d => 10 * n + d) n < Nat.pow 2 64) :
    takeFitting n digits = (digits.foldl (fun n d => 10 * n + d) n, []) := by
  induction digits generalizing n with
  | nil => rfl
  | cons d digits ih =>
    rw [List.foldl_cons] at hfits ⊢
    have hle := le_foldl_digits (10 * n + d) digits
    rw [takeFitting, if_pos (Nat.lt_of_le_of_lt hle hfits), ih hfits]

theorem foldl_digits_repr (n : Nat) :
    ((Nat.repr n).toList.map fun c => c.toNat - '0'.toNat).foldl (fun n d => 10 * n + d) 0 = n := by
  rw [List.foldl_map, ← Nat.ofDigitChars_eq_foldl, Nat.toList_repr, Nat.ofDigitChars_ten_toDigits]

theorem lex_repr (w : UInt64) {rest : List Char} (hrest : StartsOutside isNumeralChar rest) :
    lex ((Nat.repr w.toNat).toList ++ rest) = .number (some (.natural w)) :: lex rest := by
  have hscan := scanNumeral_repr w.toNat hrest
  have hfold := foldl_digits_repr w.toNat
  have hfits : takeFitting 0 ((Nat.repr w.toNat).toList.map fun c => c.toNat - '0'.toNat) =
      (w.toNat, []) := by
    rw [takeFitting_of_lt, hfold]
    rw [hfold]
    exact w.toNat_lt
  obtain ⟨c, digits, hrepr, hdigits⟩ := exists_digits_of_repr w.toNat
  have hc : c.isDigit = true := hdigits c List.mem_cons_self
  have hblank : isBlank c = false := by
    simp only [isBlank, Bool.or_eq_false_iff, beq_eq_false_iff_ne]
    refine ⟨⟨⟨?_, ?_⟩, ?_⟩, ?_⟩ <;> rintro rfl <;> exact absurd hc (by decide)
  have hlexeme : lexemeAt c (digits ++ rest) = (.number (some (.natural w)), rest) := by
    rw [lexemeAt_of_isDigit hc, ← List.cons_append, ← hrepr, numberLexeme, hscan]
    simp only [Numeral.value?, hfits]
    simp
  rw [hrepr, List.cons_append, lex_cons hblank, hlexeme]

end Codegen.Json
