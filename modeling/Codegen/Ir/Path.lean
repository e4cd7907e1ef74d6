import Codegen.Ir.Error

namespace Codegen.Ir

/-- Indices from the outermost level inwards. -/
abbrev Path := List UInt64

namespace Ty

/-- The element type that one index selects. An array and a pointer have one element type whatever
the index, and their lengths are not checked; a struct has one for each field. -/
def element (type : Ty) (index : UInt64) : Except IrError Ty :=
  match type with
  | .array _ elem | .pointer elem => .ok elem
  | .struct fields packed =>
    match fields[index.toNat]? with
    | some field => .ok field
    | none => .error (.fieldOutOfRange index fields.length (.struct fields packed))
  | .void | .int _ | .float _ | .vector .. => .error (.notIndexable type)

/-- The type at the end of a path. -/
def resolve (type : Ty) : Path → Except IrError Ty
  | [] => .ok type
  | index :: rest => do (← type.element index).resolve rest

end Ty

end Codegen.Ir
