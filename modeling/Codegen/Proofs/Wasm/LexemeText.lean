import Codegen.Proofs.Wasm.Lexeme
import Codegen.Proofs.Wasm.Names

namespace Codegen.Wasm

open Codegen.Text

theorem isWordChar_of_isIdChar {c : Char} (hc : isIdChar c = true) : isWordChar c = true := by
  rw [isIdChar, Bool.or_eq_true] at hc
  rcases hc with halnum | hmark
  · have hcode : 0x21 ≤ c.toNat ∧ c.toNat ≤ 0x7e := by
      change (decide (65 ≤ c.val ∧ c.val ≤ 90) || (decide (97 ≤ c.val) && decide (c.val ≤ 122)) ||
        (decide (48 ≤ c.val) && decide (c.val ≤ 57))) = true at halnum
      simp [UInt32.le_iff_toNat_le] at halnum
      omega
    have hother : punctuation.all (!·.isAlphanum) = true := by decide
    have hnot : c ∉ punctuation := by
      intro hmem
      have hc := List.all_eq_true.mp hother c hmem
      rw [halnum] at hc
      cases hc
    simpa [isWordChar, hcode] using hnot
  · exact List.all_eq_true.mp (by decide) c (List.contains_iff_mem.mp hmark)

theorem isWordChar_of_isDelimiter {c : Char} (hc : isDelimiter c = true) :
    isWordChar c = false := by
  simp only [isDelimiter, Bool.or_eq_true, isBlank_iff, beq_iff_eq] at hc
  rcases hc with ((rfl | rfl | rfl | rfl) | rfl) | rfl <;> rfl

theorem startsOutside_of_delimiter {rest : List Char} (hrest : rest.head?.all isDelimiter = true) :
    StartsOutside isWordChar rest := by
  intro c hc
  rw [Option.mem_def.mp hc] at hrest
  exact isWordChar_of_isDelimiter hrest

theorem readAtom_of_isDelimiter {c : Char} (hc : isDelimiter c = true) (rest : List Char) :
    readAtom (c :: rest) = none := by
  have hquote : c ≠ '"' := by
    rintro rfl
    exact absurd hc (by decide)
  rw [readAtom, if_neg hquote, List.span_eq_takeWhile_dropWhile, List.takeWhile_cons,
    isWordChar_of_isDelimiter hc]
  rfl

theorem readAtom_word {word rest : List Char} {a : Atom} (hword : ∀ c ∈ word, isWordChar c = true)
    (hatom : Atom.ofWord? word = some a) (hrest : rest.head?.all isDelimiter = true) :
    readAtom (word ++ rest) = some (a, rest) := by
  cases word with
  | nil => cases hatom
  | cons c word =>
    have hspan := span_append hword (startsOutside_of_delimiter hrest)
    have hquote : c ≠ '"' := by
      rintro rfl
      exact absurd (hword '"' List.mem_cons_self) (by decide)
    rw [List.cons_append] at hspan ⊢
    simp only [readAtom, if_neg hquote, hspan, hatom, Option.map_some]

theorem allowsPrintable_isQuotable : AllowsPrintable isQuotable := by
  intro c hlow hhigh
  have hne : c.toNat ≠ 0x7f := by omega
  simp [isQuotable, hlow, hne]

theorem readAtom_quoted (s : String) (rest : List Char) :
    readAtom ('"' :: ((escape .lower s).toList ++ '"' :: rest)) =
      some (.quoted (utf8 s), rest) := by
  rw [readAtom, if_pos rfl, readQuoted_escape allowsPrintable_isQuotable]
  rfl

theorem readLexeme_of_readAtom {text rest : List Char} {a : Atom}
    (hread : readAtom text = some (a, rest)) (hrest : rest.head?.all isDelimiter = true) :
    readLexeme text = some (.atom a, rest) := by
  have hhead : ∀ c, isDelimiter c = true → text.head? ≠ some c := by
    intro c hc hhead
    obtain ⟨tail, rfl⟩ := List.head?_eq_some_iff.mp hhead
    rw [readAtom_of_isDelimiter hc] at hread
    cases hread
  rw [readLexeme, if_neg (hhead '(' rfl), if_neg (hhead ')' rfl), hread]
  exact if_pos hrest

/-- The lexemes of a text, which do not hang on what follows it. -/
def Lexes (text : List Char) (lexemes : List Lexeme) : Prop :=
  ∀ rest, lex (text ++ rest) = (lex rest).map (lexemes ++ ·)

theorem lexes_nil : Lexes [] [] := by
  intro rest
  simp

theorem Lexes.append {front back : List Char} {before after : List Lexeme}
    (hfront : Lexes front before) (hback : Lexes back after) :
    Lexes (front ++ back) (before ++ after) := by
  intro rest
  rw [List.append_assoc, hfront, hback, Option.map_map]
  simp [Function.comp_def]

theorem Lexes.flatMap {α : Type} {items : List α} {spell : α → List Char}
    {lexemes : α → List Lexeme} (hitems : ∀ a ∈ items, Lexes (spell a) (lexemes a)) :
    Lexes (items.flatMap spell) (items.flatMap lexemes) := by
  induction items with
  | nil => exact lexes_nil
  | cons a items ih =>
    rw [List.flatMap_cons, List.flatMap_cons]
    exact (hitems a List.mem_cons_self).append (ih fun b hb => hitems b (List.mem_cons_of_mem a hb))

theorem Lexes.blank {text : List Char} {lexemes : List Lexeme} (htext : Lexes text lexemes)
    {c : Char} (hc : isBlank c = true) : Lexes (c :: text) lexemes := by
  intro rest
  rw [List.cons_append, lex_blank hc, htext]

theorem Lexes.opening {text : List Char} {lexemes : List Lexeme} (htext : Lexes text lexemes) :
    Lexes ('(' :: text) (.opening :: lexemes) := by
  intro rest
  have hread : readLexeme ('(' :: (text ++ rest)) = some (.opening, text ++ rest) := rfl
  rw [List.cons_append, lex_of_readLexeme hread, htext, Option.map_map]
  rfl

theorem Lexes.closing {text : List Char} {lexemes : List Lexeme} (htext : Lexes text lexemes) :
    Lexes (')' :: text) (.closing :: lexemes) := by
  intro rest
  have hread : readLexeme (')' :: (text ++ rest)) = some (.closing, text ++ rest) := rfl
  rw [List.cons_append, lex_of_readLexeme hread, htext, Option.map_map]
  rfl

theorem Lexes.atom {text : List Char} {lexemes : List Lexeme} (htext : Lexes text lexemes)
    (hends : text.head?.any isDelimiter = true) (spelling : List Char) {a : Atom}
    (hread : ∀ rest, rest.head?.all isDelimiter = true →
      readAtom (spelling ++ rest) = some (a, rest)) :
    Lexes (spelling ++ text) (.atom a :: lexemes) := by
  intro rest
  have hrest : (text ++ rest).head?.all isDelimiter = true := by
    cases text with
    | nil => cases hends
    | cons c text => exact hends
  rw [List.append_assoc, lex_of_readLexeme (readLexeme_of_readAtom (hread _ hrest) hrest), htext,
    Option.map_map]
  rfl

theorem Lexes.ident {text : List Char} {lexemes : List Lexeme} (htext : Lexes text lexemes)
    (hends : text.head?.any isDelimiter = true) {name : String} (hname : IsName name) :
    Lexes ('$' :: (name.toList ++ text)) (.atom (.ident name) :: lexemes) := by
  apply htext.atom hends ('$' :: name.toList)
  intro rest hrest
  apply readAtom_word _ _ hrest
  · intro c hc
    rcases List.mem_cons.mp hc with rfl | hc
    · rfl
    · exact isWordChar_of_isIdChar (hname.2 c hc)
  · simp [Atom.ofWord?, hname.1]

/-- A word that reads as a keyword. -/
def IsKeyword (word : String) : Prop :=
  (∀ c ∈ word.toList, isWordChar c = true) ∧ Atom.ofWord? word.toList = some (.keyword word)

instance (word : String) : Decidable (IsKeyword word) :=
  @instDecidableAnd _ _ (List.decidableBAll _ word.toList) inferInstance

theorem Lexes.keyword {text : List Char} {lexemes : List Lexeme} (htext : Lexes text lexemes)
    (hends : text.head?.any isDelimiter = true) {word : String} (hword : IsKeyword word) :
    Lexes (word.toList ++ text) (.atom (.keyword word) :: lexemes) :=
  htext.atom hends word.toList fun _ hrest => readAtom_word hword.1 hword.2 hrest

theorem Lexes.quoted {text : List Char} {lexemes : List Lexeme} (htext : Lexes text lexemes)
    (hends : text.head?.any isDelimiter = true) (s : String) :
    Lexes ('"' :: ((escape .lower s).toList ++ '"' :: text))
      (.atom (.quoted (utf8 s)) :: lexemes) := by
  have hquoted := htext.atom hends ('"' :: ((escape .lower s).toList ++ ['"']))
    (a := .quoted (utf8 s)) fun rest _ => by simpa using readAtom_quoted s rest
  simpa using hquoted

end Codegen.Wasm
