import Codegen.Text.Escape

namespace Codegen.Ir

/-- Characters that need no quotes in a name. -/
def isPlainChar (c : Char) : Bool :=
  c.isAlphanum || c == '$' || c == '.' || c == '_' || c == '-'

/-- A plain name is not empty, does not start with a digit and needs no quotes. -/
def isPlainName (name : String) : Bool :=
  match name.toList with
  | [] => false
  | c :: rest => !c.isDigit && (c :: rest).all isPlainChar

/-- A name as it stands in the output: itself when plain, otherwise between quotes. -/
def quoteName (name : String) : String :=
  if isPlainName name then name else "\"" ++ Text.escape .upper name ++ "\""

/-- What an identity is spelled by. -/
inductive Spelling where
  | name (text : String)
  | number (value : Nat)
  deriving DecidableEq, Repr

namespace Spelling

/-- The spelling that a chosen name gives. An empty name chooses none. -/
def ofName? (text : String) : Option Spelling :=
  if text.isEmpty then none else some (.name text)

def name? : Spelling → Option String
  | .name text => some text
  | .number _ => none

def number? : Spelling → Option Nat
  | .name _ => none
  | .number value => some value

/-- The spelling as a block label. -/
def label : Spelling → String
  | .name text => quoteName text
  | .number value => Nat.repr value

/-- The spelling as an operand. -/
def ident (s : Spelling) : String :=
  "%" ++ s.label

end Spelling

end Codegen.Ir
