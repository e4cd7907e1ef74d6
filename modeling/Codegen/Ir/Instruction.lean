import Codegen.Ir.Value

namespace Codegen.Ir

/-- Length and element type of a type that has to be a vector. -/
def Ty.vectorParts (type : Ty) : Except IrError (UInt64 × Ty) :=
  match type.vectorParts? with
  | some parts => .ok parts
  | none => .error (.notVector type)

/-- The type that an operation gives its result. Lane types and index types are the caller's affair;
only what the result type is made of is checked. -/
def Operation.resultType : Operation Value → Except IrError Ty
  | .extractValue x path => x.type.resolve path
  | .insertValue x _ _ | .insertElement x _ _ => .ok x.type
  | .extractElement x _ => do
    let (_, elem) ← x.type.vectorParts
    return elem
  | .shuffleVector x _ mask => do
    let (_, elem) ← x.type.vectorParts
    let (len, _) ← mask.type.vectorParts
    return .vector len elem

/-- An instruction without a key: an operation, the type of its result, metadata in the order it was
attached, and the spelling chosen for the result, if any. -/
structure Draft where
  operation : Operation Value
  type : Ty
  metadata : List Metadata := []
  spelling : Option Spelling := none

namespace Draft

/-- A draft of any operation that has a result type. -/
def ofOperation (operation : Operation Value) : Except IrError Draft := do
  let type ← operation.resultType
  return { operation, type }

def extractValue (x : Value) (path : Path) : Except IrError Draft :=
  ofOperation (.extractValue x path)

/-- The new element must have exactly the type found at the path. -/
def insertValue (x elem : Value) (path : Path) : Except IrError Draft := do
  let expected ← x.type.resolve path
  if expected = elem.type then ofOperation (.insertValue x elem path)
  else throw (.elementMismatch expected elem.type)

def extractElement (x index : Value) : Except IrError Draft :=
  ofOperation (.extractElement x index)

def insertElement (x elem index : Value) : Except IrError Draft :=
  ofOperation (.insertElement x elem index)

def shuffleVector (x y mask : Value) : Except IrError Draft :=
  ofOperation (.shuffleVector x y mask)

/-- Chooses the name of the result, instead of what was chosen before. -/
def withName (d : Draft) (name : String) : Draft :=
  { d with spelling := Spelling.ofName? name }

/-- Attaches metadata behind what is attached already. -/
def withMetadata (d : Draft) (m : Metadata) : Draft :=
  { d with metadata := d.metadata ++ [m] }

end Draft

/-- An instruction, known by its key. -/
structure Instruction where
  key : Key
  operation : Operation Value
  type : Ty
  metadata : List Metadata

namespace Instruction

/-- The result as a value. -/
def value (i : Instruction) : Value :=
  .result i.key i.operation i.type i.metadata

/-- Whether the recorded type is the one that the operation gives. -/
def isTyped (i : Instruction) : Bool :=
  match i.operation.resultType with
  | .ok type => type == i.type
  | .error _ => false

/-- The result as an operand, behind its type. -/
def text (n : Naming) (i : Instruction) : String :=
  i.value.text n

/-- The line that computes the result. -/
def line (n : Naming) (i : Instruction) : String :=
  n.ident i.key ++ " = " ++ i.operation.opcode ++ " " ++
    ", ".intercalate (i.operation.operands.map (Value.text n) ++
      i.operation.indices.map (fun index => Nat.repr index.toNat) ++ i.metadata.map Metadata.text)

end Instruction

/-- Gives a draft a key. -/
def Draft.place (d : Draft) (n : Naming) : Instruction × Naming :=
  let (key, n) := n.fresh d.spelling
  ({ key, operation := d.operation, type := d.type, metadata := d.metadata }, n)

/-- The instruction that a value is the result of. -/
def Value.instruction? : Value → Option Instruction
  | .result key operation type metadata => some { key, operation, type, metadata }
  | .param .. | .const .. => none

end Codegen.Ir
