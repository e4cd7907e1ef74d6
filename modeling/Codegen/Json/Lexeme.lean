import Codegen.Json.Numeral
import Codegen.Text.Digits

namespace Codegen.Json

/-- A part of a string between quotes: a character, or a 16-bit unit written by number. -/
inductive Piece where
  | char (c : Char)
  | unit (n : Nat)
  deriving DecidableEq, Repr

/-- The first unit of a pair. -/
def isHighUnit (n : Nat) : Bool :=
  0xD800 ≤ n && n ≤ 0xDBFF

/-- The second unit of a pair. -/
def isLowUnit (n : Nat) : Bool :=
  0xDC00 ≤ n && n ≤ 0xDFFF

/-- The character that a pair of units stands for. -/
def pairChar (high low : Nat) : Char :=
  Char.ofNat ((high - 0xD800) * 0x400 + (low - 0xDC00) + 0x10000)

/-- The characters that pieces stand for. Units of a pair stand together. -/
def decodePieces : List Piece → Option (List Char)
  | [] => some []
  | .char c :: rest => (decodePieces rest).map (c :: ·)
  | .unit n :: rest =>
    if isLowUnit n then none
    else if isHighUnit n then
      match rest with
      | .unit m :: rest =>
        if isLowUnit m then (decodePieces rest).map (pairChar n m :: ·) else none
      | _ => none
    else (decodePieces rest).map (Char.ofNat n :: ·)

/-- Whether pieces could go on to stand for characters. -/
def isDecodable : List Piece → Bool
  | [] => true
  | .char _ :: rest => isDecodable rest
  | .unit n :: rest =>
    if isLowUnit n then false
    else if isHighUnit n then
      match rest with
      | [] => true
      | .unit m :: rest => isLowUnit m && isDecodable rest
      | .char _ :: _ => false
    else isDecodable rest

/-- The character that a letter after a backslash stands for. -/
def escapeLetter? : Char → Option Char
  | '"' => some '"'
  | '\\' => some '\\'
  | '/' => some '/'
  | 'b' => some '\x08'
  | 'f' => some '\x0c'
  | 'n' => some '\n'
  | 'r' => some '\r'
  | 't' => some '\t'
  | _ => none

/-- The unit that four hexadecimal digits stand for. -/
def hexUnit? (a b c d : Char) : Option Nat := do
  return ((← Text.hexValue? a) * 16 + (← Text.hexValue? b)) * 256 +
    ((← Text.hexValue? c) * 16 + (← Text.hexValue? d))

/-- Why four digits cannot be read: fewer than four bytes are left, or they are no digits. -/
def hexBreak (rest : List Char) : Break :=
  if (String.ofList rest).utf8ByteSize < 4 then .truncated else .malformed

/-- The pieces of a string after its opening quote, and what follows the closing quote. -/
def scanPieces : List Char → List Piece × Except Break (List Char)
  | [] => ([], .error .truncated)
  | '"' :: rest => ([], .ok rest)
  | ['\\'] => ([], .error .truncated)
  | '\\' :: 'u' :: a :: b :: c :: d :: rest =>
    match hexUnit? a b c d with
    | some n =>
      let (pieces, ending) := scanPieces rest
      (.unit n :: pieces, ending)
    | none => ([], .error .malformed)
  | '\\' :: c :: rest =>
    match escapeLetter? c with
    | some e =>
      let (pieces, ending) := scanPieces rest
      (.char e :: pieces, ending)
    | none => ([], .error (if c = 'u' then hexBreak rest else .malformed))
  | c :: rest =>
    if c.toNat < 0x20 then ([], .error .malformed)
    else
      let (pieces, ending) := scanPieces rest
      (.char c :: pieces, ending)

/-- What follows a word, of which the first letter is known. -/
def scanWord : List Char → List Char → Except Break (List Char)
  | [], cs => .ok cs
  | _ :: _, [] => .error .truncated
  | w :: ws, c :: cs => if w = c then scanWord ws cs else .error .malformed

/-- Lexemes. A string or a number may be well-formed and have no value: a unit without its pair, a
magnitude too large. Where the text breaks off inside a lexeme, reading it and skipping it may see
different reasons. -/
inductive Lexeme where
  | openBrace
  | closeBrace
  | openBracket
  | closeBracket
  | colon
  | comma
  | null
  | bool (value : Bool)
  | number (value : Option Number)
  | string (value : Option String)
  | brokenWord (read skip : Break)
  | brokenString (read skip : Break)
  /-- A character that starts no lexeme. -/
  | stray
  deriving DecidableEq, Repr

/-- Blanks between lexemes. -/
def isBlank (c : Char) : Bool :=
  c == ' ' || c == '\t' || c == '\r' || c == '\n'

/-- A word, or the lexeme that stands for its failure. -/
def wordLexeme (word : String) (lexeme : Lexeme) (cs : List Char) : Lexeme × List Char :=
  match scanWord word.toList cs with
  | .ok rest => (lexeme, rest)
  | .error b => (.brokenWord b b, [])

def numberLexeme (cs : List Char) : Lexeme × List Char :=
  match scanNumeral cs with
  | .ok (x, rest) => (.number x.value?, rest)
  | .error b => (.brokenWord b .malformed, [])

def stringLexeme (cs : List Char) : Lexeme × List Char :=
  match scanPieces cs with
  | (pieces, .ok rest) => (.string ((decodePieces pieces).map String.ofList), rest)
  | (pieces, .error b) => (.brokenString (if isDecodable pieces then b else .malformed) b, [])

/-- The lexeme that starts with a character other than a blank, and the text after it. -/
def lexemeAt (c : Char) (rest : List Char) : Lexeme × List Char :=
  match c with
  | '\x7b' => (.openBrace, rest)
  | '\x7d' => (.closeBrace, rest)
  | '[' => (.openBracket, rest)
  | ']' => (.closeBracket, rest)
  | ':' => (.colon, rest)
  | ',' => (.comma, rest)
  | 'n' => wordLexeme "ull" .null rest
  | 't' => wordLexeme "rue" (.bool true) rest
  | 'f' => wordLexeme "alse" (.bool false) rest
  | '"' => stringLexeme rest
  | c => if c = '-' ∨ c.isDigit then numberLexeme (c :: rest) else (.stray, [])

/-- The first lexemes of a text, looking at no more characters than `limit` times. -/
def lexemesWithin : Nat → List Char → List Lexeme
  | 0, _ => []
  | _, [] => []
  | limit + 1, c :: rest =>
    if isBlank c then lexemesWithin limit rest
    else
      let (lexeme, rest) := lexemeAt c rest
      lexeme :: lexemesWithin limit rest

/-- The lexemes of a text. Each takes up at least one character. -/
def lexemes (s : String) : List Lexeme :=
  lexemesWithin s.toList.length s.toList

end Codegen.Json
