import Codegen.Ir.Constant
import Codegen.Ir.Naming
import Codegen.Ir.Path

namespace Codegen.Ir

/-- The operations that make a value from others. -/
inductive Operation (α : Type) where
  /-- The element of `x` at a path. -/
  | extractValue (x : α) (path : Path)
  /-- `x` with the element at a path replaced. -/
  | insertValue (x elem : α) (path : Path)
  /-- The lane of `x` at an index. -/
  | extractElement (x index : α)
  /-- `x` with the lane at an index replaced. -/
  | insertElement (x elem index : α)
  /-- The lanes of `x` and `y` that a mask selects. -/
  | shuffleVector (x y mask : α)
  deriving Repr

namespace Operation

variable {α : Type}

def opcode : Operation α → String
  | .extractValue .. => "extractvalue"
  | .insertValue .. => "insertvalue"
  | .extractElement .. => "extractelement"
  | .insertElement .. => "insertelement"
  | .shuffleVector .. => "shufflevector"

/-- Operands in printing order. -/
def operands : Operation α → List α
  | .extractValue x _ => [x]
  | .insertValue x elem _ => [x, elem]
  | .extractElement x index => [x, index]
  | .insertElement x elem index => [x, elem, index]
  | .shuffleVector x y mask => [x, y, mask]

/-- The first operand. -/
def source : Operation α → α
  | .extractValue x _ | .insertValue x _ _ | .extractElement x _ | .insertElement x _ _
  | .shuffleVector x _ _ => x

/-- Indices that follow the operands. -/
def indices : Operation α → Path
  | .extractValue _ path | .insertValue _ _ path => path
  | .extractElement .. | .insertElement .. | .shuffleVector .. => []

end Operation

/-- A reference from an instruction to a metadata node. -/
structure Metadata where
  kind : String
  node : UInt64
  deriving DecidableEq, Repr

namespace Metadata

/-- The reference to a debug location. -/
def dbg (node : UInt64) : Metadata :=
  ⟨"dbg", node⟩

def text (m : Metadata) : String :=
  "!" ++ m.kind ++ " !" ++ Nat.repr m.node.toNat

end Metadata

/-- Values. Each carries its key; the result of an instruction also carries its type, which was
computed when the instruction was made. -/
inductive Value where
  | param (key : Key) (type : Ty)
  | const (key : Key) (constant : Constant)
  | result (key : Key) (operation : Operation Value) (type : Ty) (metadata : List Metadata)

namespace Value

def key : Value → Key
  | .param key _ | .const key _ | .result key .. => key

def type : Value → Ty
  | .param _ type => type
  | .const _ constant => constant.type
  | .result _ _ type _ => type

/-- Two handles to one value, rather than two values that look alike. -/
def same (x y : Value) : Bool :=
  x.key == y.key

/-- The value as an operand, without its type. -/
def ident (n : Naming) : Value → String
  | .param key _ | .result key .. => n.ident key
  | .const _ constant => constant.ident

/-- The value as an operand, behind its type. -/
def text (n : Naming) (v : Value) : String :=
  v.type.text ++ " " ++ v.ident n

/-- A new constant value. -/
def ofConstant (n : Naming) (constant : Constant) : Value × Naming :=
  let (key, n) := n.fresh none
  (.const key constant, n)

end Value

end Codegen.Ir
