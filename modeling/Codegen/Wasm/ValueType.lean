namespace Codegen.Wasm

/-- Scalar kinds. The output knows no signedness, so two kinds may share a wire name. -/
inductive ValueType where
  | i32
  | u32
  | i64
  | u64
  | f32
  | f64
  deriving DecidableEq, Repr, Inhabited

namespace ValueType

/-- Every kind, in declaration order. -/
def all : List ValueType := [.i32, .u32, .i64, .u64, .f32, .f64]

/-- The name in the output. -/
def wireName : ValueType → String
  | .i32 | .u32 => "i32"
  | .i64 | .u64 => "i64"
  | .f32 => "f32"
  | .f64 => "f64"

/-- The name that tells all kinds apart. -/
def name : ValueType → String
  | .i32 => "i32"
  | .u32 => "u32"
  | .i64 => "i64"
  | .u64 => "u64"
  | .f32 => "f32"
  | .f64 => "f64"

def isUnsigned : ValueType → Bool
  | .u32 | .u64 => true
  | _ => false

def isFloat : ValueType → Bool
  | .f32 | .f64 => true
  | _ => false

/-- Size in bytes. -/
def size : ValueType → Nat
  | .i32 | .u32 | .f32 => 4
  | .i64 | .u64 | .f64 => 8

end ValueType

end Codegen.Wasm
