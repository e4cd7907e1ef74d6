import Codegen.Proofs.Text.Decimal
import Codegen.Proofs.Text.Escape

namespace Codegen.Wasm

open Codegen.Text

/-- What stands between parentheses. -/
inductive Atom where
  | ident (name : String)
  | keyword (word : String)
  | quoted (bytes : List UInt8)
  deriving DecidableEq, Repr

/-- Lexemes of WebAssembly text. Comments and numbers are not part of it. -/
inductive Lexeme where
  | opening
  | closing
  | atom (a : Atom)
  deriving DecidableEq, Repr

def isBlank (c : Char) : Bool :=
  c == ' ' || c == '\t' || c == '\n' || c == '\r'

/-- Atoms end where the text does, at white space and at parentheses. -/
def isDelimiter (c : Char) : Bool :=
  isBlank c || c == '(' || c == ')'

/-- Printable characters that are in no word. -/
def punctuation : List Char :=
  ['"', ',', ';', '(', ')', '[', ']', '\x7b', '\x7d']

/-- Printable ASCII other than the blank and the punctuation. -/
def isWordChar (c : Char) : Bool :=
  0x21 ≤ c.toNat && c.toNat ≤ 0x7e && !punctuation.contains c

/-- Characters that stand for themselves between quotes. -/
def isQuotable (c : Char) : Bool :=
  0x20 ≤ c.toNat && c.toNat ≠ 0x7f

/-- A dollar sign makes a word an identifier, and a small letter at its start a keyword. -/
def Atom.ofWord? : List Char → Option Atom
  | [] => none
  | c :: word =>
    if c = '$' then if word = [] then none else some (.ident (String.ofList word))
    else if c.isLower then some (.keyword (String.ofList (c :: word)))
    else none

/-- The atom that a text starts with, and what follows it. -/
def readAtom : List Char → Option (Atom × List Char)
  | [] => none
  | c :: rest =>
    if c = '"' then (readQuoted isQuotable rest).map fun (bytes, rest) => (.quoted bytes, rest)
    else
      let (word, rest) := (c :: rest).span isWordChar
      (Atom.ofWord? word).map fun a => (a, rest)

/-- The lexeme that a text starts with, and what follows it. -/
def readLexeme (text : List Char) : Option (Lexeme × List Char) :=
  if text.head? = some '(' then some (.opening, text.tail)
  else if text.head? = some ')' then some (.closing, text.tail)
  else do
    let (a, rest) ← readAtom text
    if rest.head?.all isDelimiter then some (.atom a, rest) else none

theorem length_lt_of_readAtom {text rest : List Char} {a : Atom}
    (hread : readAtom text = some (a, rest)) : rest.length < text.length := by
  cases text with
  | nil => cases hread
  | cons c text =>
    rw [readAtom] at hread
    split at hread
    case isTrue =>
      obtain ⟨⟨bytes, last⟩, hquoted, hlast⟩ := Option.map_eq_some_iff.mp hread
      cases hlast
      exact Nat.lt_succ_of_lt (length_lt_of_readQuoted hquoted)
    case isFalse =>
      rw [List.span_eq_takeWhile_dropWhile] at hread
      obtain ⟨atom, hword, hlast⟩ := Option.map_eq_some_iff.mp hread
      cases hlast
      have hc : isWordChar c = true := by
        by_contra hc
        simp [hc, Atom.ofWord?] at hword
      have hsuffix := (List.dropWhile_suffix isWordChar (l := text)).length_le
      simp only [List.dropWhile_cons, hc, if_true, List.length_cons]
      omega

theorem length_lt_of_readLexeme {text rest : List Char} {l : Lexeme}
    (hread : readLexeme text = some (l, rest)) : rest.length < text.length := by
  have htail {c : Char} (hc : text.head? = some c) : text.tail.length < text.length := by
    cases text with
    | nil => cases hc
    | cons => simp
  rw [readLexeme] at hread
  split at hread
  case isTrue hc =>
    cases hread
    exact htail hc
  case isFalse =>
    split at hread
    case isTrue hc =>
      cases hread
      exact htail hc
    case isFalse =>
      obtain ⟨⟨a, last⟩, hatom, hlast⟩ := Option.bind_eq_some_iff.mp hread
      by_cases hends : last.head?.all isDelimiter = true
      · cases (if_pos hends).symm.trans hlast
        exact length_lt_of_readAtom hatom
      · cases (if_neg hends).symm.trans hlast

/-- The lexemes of a text. -/
def lex (text : List Char) : Option (List Lexeme) :=
  match _hread : readLexeme text with
  | some (l, rest) => (lex rest).map (l :: ·)
  | none =>
    match text with
    | [] => some []
    | c :: rest => if isBlank c then lex rest else none
termination_by text.length
decreasing_by
  · exact length_lt_of_readLexeme _hread
  · simp

theorem lex_of_readLexeme {text rest : List Char} {l : Lexeme}
    (hread : readLexeme text = some (l, rest)) : lex text = (lex rest).map (l :: ·) := by
  rw [lex]
  split
  case h_1 hsome =>
    cases hsome.symm.trans hread
    rfl
  case h_2 hnone => cases hnone.symm.trans hread

theorem lex_nil : lex [] = some [] := by
  simp [lex, readLexeme, readAtom]

theorem isBlank_iff {c : Char} : isBlank c = true ↔ c = ' ' ∨ c = '\t' ∨ c = '\n' ∨ c = '\r' := by
  simp [isBlank, or_assoc]

theorem lex_blank {c : Char} (hc : isBlank c = true) (rest : List Char) :
    lex (c :: rest) = lex rest := by
  have hread : readLexeme (c :: rest) = none := by
    rcases isBlank_iff.mp hc with rfl | rfl | rfl | rfl <;> rfl
  rw [lex]
  split
  case h_1 hsome => cases hsome.symm.trans hread
  case h_2 => exact if_pos hc

end Codegen.Wasm
