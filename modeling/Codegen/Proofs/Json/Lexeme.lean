import Codegen.Json.Lexeme
import Codegen.Proofs.Basic

namespace Codegen.Json

theorem length_le_of_scanWord {word cs rest : List Char} (hscan : scanWord word cs = .ok rest) :
    rest.length ≤ cs.length := by
  fun_induction scanWord word cs with
  | case1 cs =>
    cases hscan
    exact Nat.le_refl _
  | case2 => cases hscan
  | case3 w word cs ih => exact Nat.le_succ_of_le (ih hscan)
  | case4 => cases hscan

theorem length_lt_of_scanDigits {cs rest : List Char} {digits : List Nat}
    (hscan : scanDigits cs = .ok (digits, rest)) : rest.length < cs.length := by
  cases cs with
  | nil => cases hscan
  | cons c cs =>
    simp only [scanDigits] at hscan
    split at hscan
    · next hc =>
      cases hscan
      have hdrop : afterDigits (c :: cs) = cs.dropWhile Char.isDigit := by
        rw [afterDigits, List.dropWhile_cons_of_pos hc]
      rw [hdrop]
      exact Nat.lt_succ_of_le (List.dropWhile_sublist _).length_le
    · cases hscan

theorem length_lt_of_scanWhole {cs rest : List Char} {digits : List Nat}
    (hscan : scanWhole cs = .ok (digits, rest)) : rest.length < cs.length := by
  unfold scanWhole at hscan
  split at hscan
  · split at hscan
    · cases hscan
    · exact length_lt_of_scanDigits hscan
  · exact length_lt_of_scanDigits hscan

theorem length_le_of_scanFraction {cs rest : List Char} {digits : Option (List Nat)}
    (hscan : scanFraction cs = .ok (digits, rest)) : rest.length ≤ cs.length := by
  unfold scanFraction at hscan
  split at hscan
  · next cs =>
    obtain ⟨⟨digits, last⟩, hdigits, hlast⟩ := bind_eq_ok_iff.mp hscan
    cases hlast
    have hlength := length_lt_of_scanDigits hdigits
    simp only [List.length_cons]
    omega
  · cases hscan
    exact Nat.le_refl _

theorem length_scanSign_le (cs : List Char) : (scanSign cs).2.length ≤ cs.length := by
  unfold scanSign
  split <;> simp

theorem length_le_of_scanExponent {cs rest : List Char} {exponent : Option Int}
    (hscan : scanExponent cs = .ok (exponent, rest)) : rest.length ≤ cs.length := by
  unfold scanExponent at hscan
  split at hscan
  · next c cs =>
    split at hscan
    · obtain ⟨⟨digits, last⟩, hdigits, hlast⟩ := bind_eq_ok_iff.mp hscan
      cases hlast
      have hsign := length_scanSign_le cs
      have hlength : rest.length < (scanSign cs).2.length := length_lt_of_scanDigits hdigits
      simp only [List.length_cons]
      omega
    · cases hscan
      exact Nat.le_refl _
  · cases hscan
    exact Nat.le_refl _

theorem length_lt_of_scanNumeral {cs rest : List Char} {x : Numeral}
    (hscan : scanNumeral cs = .ok (x, rest)) : rest.length < cs.length := by
  unfold scanNumeral at hscan
  obtain ⟨⟨whole, afterWhole⟩, hwhole, hscan⟩ := bind_eq_ok_iff.mp hscan
  obtain ⟨⟨fraction, afterFraction⟩, hfraction, hscan⟩ := bind_eq_ok_iff.mp hscan
  obtain ⟨⟨exponent, afterExponent⟩, hexponent, hlast⟩ := bind_eq_ok_iff.mp hscan
  cases hlast
  have hwholeLength := length_lt_of_scanWhole hwhole
  have hfractionLength := length_le_of_scanFraction hfraction
  have hexponentLength := length_le_of_scanExponent hexponent
  split at hwholeLength
  · dsimp only at hwholeLength
    simp only [List.length_cons]
    omega
  · dsimp only at hwholeLength
    omega

theorem length_lt_of_scanPieces {cs rest : List Char} (hscan : (scanPieces cs).2 = .ok rest) :
    rest.length < cs.length := by
  fun_induction scanPieces cs with
  | case1 => cases hscan
  | case2 cs =>
    cases hscan
    exact Nat.lt_succ_self _
  | case3 => cases hscan
  | case4 a b c d cs n hn pieces ending hpieces ih =>
    rw [hpieces] at ih
    have hlength := ih hscan
    simp only [List.length_cons]
    omega
  | case5 => cases hscan
  | case6 c cs _ e he pieces ending hpieces ih =>
    rw [hpieces] at ih
    have hlength := ih hscan
    simp only [List.length_cons]
    omega
  | case7 => cases hscan
  | case8 => cases hscan
  | case9 c cs _ _ _ _ _ pieces ending hpieces ih =>
    rw [hpieces] at ih
    have hlength := ih hscan
    simp only [List.length_cons]
    omega

theorem length_wordLexeme_le (word : String) (lexeme : Lexeme) (cs : List Char) :
    (wordLexeme word lexeme cs).2.length ≤ cs.length := by
  unfold wordLexeme
  split
  · next hscan => exact length_le_of_scanWord hscan
  · exact Nat.zero_le _

theorem length_numberLexeme_le (c : Char) (cs : List Char) :
    (numberLexeme (c :: cs)).2.length ≤ cs.length := by
  unfold numberLexeme
  split
  · next hscan => exact Nat.le_of_lt_succ (length_lt_of_scanNumeral hscan)
  · exact Nat.zero_le _

theorem length_stringLexeme_le (cs : List Char) : (stringLexeme cs).2.length ≤ cs.length := by
  unfold stringLexeme
  split
  · next rest hscan => exact Nat.le_of_lt (length_lt_of_scanPieces (congrArg Prod.snd hscan))
  · exact Nat.zero_le _

/-- What follows a lexeme is no longer than what follows its first character. -/
theorem length_lexemeAt_le (c : Char) (rest : List Char) :
    (lexemeAt c rest).2.length ≤ rest.length := by
  unfold lexemeAt
  split
  case h_7 | h_8 | h_9 => exact length_wordLexeme_le _ _ rest
  case h_10 => exact length_stringLexeme_le rest
  case h_11 =>
    split
    · exact length_numberLexeme_le _ rest
    · exact Nat.zero_le _
  all_goals exact Nat.le_refl _

theorem lexemesWithin_cons {c : Char} (hc : isBlank c = false) (limit : Nat) (rest : List Char) :
    lexemesWithin (limit + 1) (c :: rest) =
      (lexemeAt c rest).1 :: lexemesWithin limit (lexemeAt c rest).2 := by
  rw [lexemesWithin, hc]
  rfl

theorem lexemesWithin_blank {c : Char} (hc : isBlank c = true) (limit : Nat) (rest : List Char) :
    lexemesWithin (limit + 1) (c :: rest) = lexemesWithin limit rest := by
  rw [lexemesWithin, if_pos hc]

/-- The number of steps is no limit as soon as there are as many as characters. -/
theorem lexemesWithin_of_length_le {limit : Nat} {cs : List Char} (hlimit : cs.length ≤ limit) :
    lexemesWithin limit cs = lexemesWithin cs.length cs := by
  induction limit using Nat.strongRecOn generalizing cs with
  | ind limit ih =>
    cases cs with
    | nil => cases limit <;> rfl
    | cons c rest =>
      obtain ⟨limit, rfl⟩ := Nat.exists_eq_add_one.mpr (Nat.zero_lt_of_lt hlimit)
      have hrest : rest.length ≤ limit := Nat.le_of_succ_le_succ hlimit
      have hafter := length_lexemeAt_le c rest
      cases hc : isBlank c with
      | true =>
        rw [List.length_cons, lexemesWithin_blank hc, lexemesWithin_blank hc]
        exact ih limit (Nat.lt_succ_self limit) hrest
      | false =>
        rw [List.length_cons, lexemesWithin_cons hc, lexemesWithin_cons hc,
          ih limit (Nat.lt_succ_self limit) (Nat.le_trans hafter hrest),
          ih rest.length (Nat.lt_succ_of_le hrest) hafter]

/-- The lexemes of a text given by its characters. -/
def lex (cs : List Char) : List Lexeme :=
  lexemesWithin cs.length cs

theorem lexemes_eq_lex (s : String) : lexemes s = lex s.toList :=
  rfl

@[simp] theorem lex_nil : lex [] = [] :=
  rfl

/-- A lexeme, and then the lexemes of what follows it. -/
theorem lex_cons {c : Char} (hc : isBlank c = false) (rest : List Char) :
    lex (c :: rest) = (lexemeAt c rest).1 :: lex (lexemeAt c rest).2 := by
  rw [lex, List.length_cons, lexemesWithin_cons hc,
    lexemesWithin_of_length_le (length_lexemeAt_le c rest), ← lex]

end Codegen.Json
