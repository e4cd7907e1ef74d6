import Codegen.Json.Document
import Codegen.Number.Shortest
import Codegen.Text.Display

namespace Codegen.Json

open Codegen.Number (DecimalLayout)

/-- Well-formed JSON of another shape than wanted. -/
inductive Mismatch where
  | wrongType (found : Found) (expected : String)
  /-- A number of the right kind that is out of range. -/
  | outOfRange (found : Number) (expected : String)
  /-- An array too short for the fields of a record. -/
  | tooShort (len : Nat) (expected : String)
  | unknownVariant (name : String) (known : List String)
  | duplicateField (name : String)
  | missingField (name : String)
  deriving DecidableEq, Repr

/-- Why reading stopped. -/
inductive Fault where
  | broken (b : Break)
  | mismatch (m : Mismatch)
  deriving DecidableEq, Repr

/-- Floating point numbers in messages have their digits around a point up to 10 ^ 15 and down to
10 ^ -5. -/
def numberLayout : DecimalLayout := ⟨-5, 15⟩

def Number.text : Number → String
  | .natural value => Nat.repr value.toNat
  | .negative value => Int.repr value.toInt
  | .real value => value.shortestText numberLayout

/-- A text between back quotes. -/
def backQuote (s : String) : String :=
  "`" ++ s ++ "`"

/-- A number in a message. -/
def Number.description (n : Number) : String :=
  match n with
  | .natural _ | .negative _ => "integer " ++ backQuote n.text
  | .real _ => "floating point " ++ backQuote n.text

def Found.description : Found → String
  | .null => "null"
  | .bool value => "boolean " ++ backQuote (if value then "true" else "false")
  | .number value => value.description
  | .string text => "string " ++ Text.display text
  | .sequence => "sequence"
  | .map => "map"
  | .unitVariant => "unit variant"

/-- The names that would have been accepted. -/
def alternatives : List String → String
  | [a, b] => backQuote a ++ " or " ++ backQuote b
  | names => "one of " ++ ", ".intercalate (names.map backQuote)

def Mismatch.message : Mismatch → String
  | .wrongType found expected => "invalid type: " ++ found.description ++ ", expected " ++ expected
  | .outOfRange found expected =>
    "invalid value: " ++ found.description ++ ", expected " ++ expected
  | .tooShort len expected => "invalid length " ++ Nat.repr len ++ ", expected " ++ expected
  | .unknownVariant name known =>
    "unknown variant " ++ backQuote name ++ ", expected " ++ alternatives known
  | .duplicateField name => "duplicate field " ++ backQuote name
  | .missingField name => "missing field " ++ backQuote name

def Fault.message : Fault → String
  | .broken .malformed => "the text is not JSON"
  | .broken .truncated => "the text ends too early"
  | .mismatch m => m.message

end Codegen.Json
