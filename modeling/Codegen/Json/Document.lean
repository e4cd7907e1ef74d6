import Codegen.Json.Lexeme

namespace Codegen.Json

/-- What a reader is told it found instead of what it wanted. -/
inductive Found where
  | null
  | bool (value : Bool)
  | number (value : Number)
  | string (text : String)
  | sequence
  | map
  /-- The name of a variant without content. -/
  | unitVariant
  deriving DecidableEq, Repr

/-- A place without a value. -/
inductive Gap where
  /-- Nothing starts here. -/
  | absent (b : Break)
  /-- A literal or a number breaks off. -/
  | word (read skip : Break)
  /-- A string breaks off. -/
  | text (read skip : Break)
  deriving DecidableEq, Repr

namespace Gap

/-- The reason for one who reads the value. -/
def onRead : Gap → Break
  | .absent b => b
  | .word read _ | .text read _ => read

/-- The reason for one who only accepts strings and objects, and reads no other. -/
def onChoose : Gap → Break
  | .absent b => b
  | .word .. => .malformed
  | .text read _ => read

/-- The reason for one who skips the value. -/
def onSkip : Gap → Break
  | .absent b => b
  | .word _ skip | .text _ skip => skip

end Gap

/-- How an array or an object ends. -/
inductive Closing where
  | closed
  /-- Neither a comma nor the closing bracket follows. -/
  | unclosed (b : Break)
  deriving DecidableEq, Repr

/-- What stands in the place of a key. -/
inductive KeyMark where
  | text (value : Option String)
  | brokenText (read skip : Break)
  /-- Something other than a string. -/
  | other
  /-- The text ends. -/
  | absent

/-- The tree of a text, as far as the text goes. A place where the text breaks off or stops being
JSON is part of the tree, so that a reader finds out about it when it gets there and not before. -/
inductive Node where
  | null
  | bool (value : Bool)
  | number (value : Option Number)
  | string (value : Option String)
  | array (items : List Node) (closing : Closing)
  | object (members : List (KeyMark × Node)) (closing : Closing)
  | gap (g : Gap)

namespace Node

/-- What a node looks like to a reader that wanted something else. -/
def found : Node → Except Break Found
  | .null => .ok .null
  | .bool value => .ok (.bool value)
  | .number (some value) => .ok (.number value)
  | .string (some text) => .ok (.string text)
  | .number none | .string none => .error .malformed
  | .array .. => .ok .sequence
  | .object .. => .ok .map
  | .gap g => .error g.onRead

mutual

/-- Passes over a node that nobody reads. It only has to be JSON. -/
def skip : Node → Except Break Unit
  | .null | .bool _ | .number _ | .string _ => .ok ()
  | .array items closing => do
    skipItems items
    match closing with
    | .closed => .ok ()
    | .unclosed b => .error b
  | .object members closing => do
    skipMembers members
    match closing with
    | .closed => .ok ()
    | .unclosed b => .error b
  | .gap g => .error g.onSkip

def skipItems : List Node → Except Break Unit
  | [] => .ok ()
  | item :: rest => do
    item.skip
    skipItems rest

def skipMembers : List (KeyMark × Node) → Except Break Unit
  | [] => .ok ()
  | (key, value) :: rest => do
    match key with
    | .text _ => .ok ()
    | .brokenText _ skip => .error skip
    | .other => .error .malformed
    | .absent => .error .truncated
    value.skip
    skipMembers rest

end

end Node

/-- What stands in the place of a key, and what follows it. -/
def keyAt : List Lexeme → KeyMark × List Lexeme
  | [] => (.absent, [])
  | .string value :: rest => (.text value, rest)
  | .brokenString read skip :: _ => (.brokenText read skip, [])
  | _ :: _ => (.other, [])

/-- The end of an array or an object where neither a comma nor its bracket follows. -/
def unclosedAt : List Lexeme → Closing
  | [] => .unclosed .truncated
  | _ :: _ => .unclosed .malformed

mutual

/-- The node at the start of some lexemes and the lexemes after it. -/
def nodeWithin : Nat → List Lexeme → Node × List Lexeme
  | 0, ls => (.gap (.absent .truncated), ls)
  | limit + 1, ls =>
    match ls with
    | [] => (.gap (.absent .truncated), [])
    | .null :: rest => (.null, rest)
    | .bool value :: rest => (.bool value, rest)
    | .number value :: rest => (.number value, rest)
    | .string value :: rest => (.string value, rest)
    | .openBracket :: .closeBracket :: rest => (.array [] .closed, rest)
    | .openBracket :: [] => (.array [] (.unclosed .truncated), [])
    | .openBracket :: rest =>
      let (items, closing, rest) := itemsWithin limit rest
      (.array items closing, rest)
    | .openBrace :: .closeBrace :: rest => (.object [] .closed, rest)
    | .openBrace :: [] => (.object [] (.unclosed .truncated), [])
    | .openBrace :: rest =>
      let (members, closing, rest) := membersWithin limit rest
      (.object members closing, rest)
    | .brokenWord read skip :: _ => (.gap (.word read skip), [])
    | .brokenString read skip :: _ => (.gap (.text read skip), [])
    | _ :: _ => (.gap (.absent .malformed), [])

/-- The items of an array up to its end. There is at least one. -/
def itemsWithin : Nat → List Lexeme → List Node × Closing × List Lexeme
  | 0, ls => ([], .unclosed .truncated, ls)
  | limit + 1, ls =>
    let (item, rest) := nodeWithin limit ls
    match rest with
    | .closeBracket :: rest => ([item], .closed, rest)
    | .comma :: rest =>
      let (items, closing, rest) := itemsWithin limit rest
      (item :: items, closing, rest)
    | rest => ([item], unclosedAt rest, rest)

/-- The members of an object up to its end. There is at least one. -/
def membersWithin : Nat → List Lexeme → List (KeyMark × Node) × Closing × List Lexeme
  | 0, ls => ([], .unclosed .truncated, ls)
  | limit + 1, ls =>
    let (key, rest) := keyAt ls
    let (value, rest) := match rest with
      | .colon :: rest => nodeWithin limit rest
      | [] => (.gap (.absent .truncated), [])
      | _ :: _ => (.gap (.absent .malformed), [])
    match rest with
    | .closeBrace :: rest => ([(key, value)], .closed, rest)
    | .comma :: rest =>
      let (members, closing, rest) := membersWithin limit rest
      ((key, value) :: members, closing, rest)
    | rest => ([(key, value)], unclosedAt rest, rest)

end

/-- A text as a tree and the lexemes that follow it. -/
structure Document where
  root : Node
  rest : List Lexeme

/-- The document of a text. Every level of the tree takes up a lexeme, so the limit is not met. -/
def Document.ofText (s : String) : Document :=
  let ls := lexemes s
  let (root, rest) := nodeWithin (2 * ls.length + 1) ls
  { root, rest }

end Codegen.Json
