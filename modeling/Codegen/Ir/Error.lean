import Codegen.Ir.Type
import Codegen.Ir.Spelling

namespace Codegen.Ir

/-- Causes of failure. -/
inductive IrError where
  /-- A path goes into a type that has no elements to index. -/
  | notIndexable (type : Ty)
  /-- A path selects a field that the struct does not have. -/
  | fieldOutOfRange (index : UInt64) (len : Nat) (type : Ty)
  /-- The inserted value does not have the type of the element it replaces. -/
  | elementMismatch (expected found : Ty)
  /-- An operand that has to be a vector is not one. -/
  | notVector (found : Ty)
  /-- An identity is given a second spelling. -/
  | alreadySpelled (existing : Spelling)
  /-- Two identities of one function have the same name. -/
  | duplicateLocal (function name : String)
  deriving DecidableEq, Repr

/-- The wording of each cause. -/
def IrError.message : IrError → String
  | .notIndexable type => "cannot index into non-aggregate type " ++ type.text
  | .fieldOutOfRange index len type =>
    "field index " ++ Nat.repr index.toNat ++ " out of range for " ++ type.text ++ " with " ++
      Nat.repr len ++ " fields"
  | .elementMismatch expected found =>
    "insertvalue element type mismatch: expected " ++ expected.text ++ ", got " ++ found.text
  | .notVector found => "expected vector type, got " ++ found.text
  | .alreadySpelled existing => "identifier already assigned as " ++ existing.ident
  | .duplicateLocal function name =>
    "local name " ++ name ++ " defined more than once in @" ++ function

end Codegen.Ir
