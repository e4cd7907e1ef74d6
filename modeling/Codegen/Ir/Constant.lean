import Codegen.Ir.Type
import Codegen.Number.Binary64

namespace Codegen.Ir

open Codegen.Number

/-- Constants. The declared type of a constant is not compared with its contents. -/
inductive Constant where
  | int (type : Ty) (value : Int64)
  | float (type : Ty) (value : Binary64)
  | undef (type : Ty)
  /-- All bits zero. -/
  | zero (type : Ty)
  /-- The elements of a vector, for instance the lanes a shuffle selects. -/
  | vector (type : Ty) (elems : List Constant)
  deriving Repr, Inhabited

/-- Magnitudes from here on are not written in decimal. -/
def decimalLimit : Nat := Nat.pow 10 16

/-- A float is written in decimal when it has no fractional part and is below the limit, otherwise
by its bits. The type `float` first rounds the value to single precision. -/
def floatLiteral (type : Ty) (value : Binary64) : String :=
  let value := if type = .single then value.toSingle else value
  match value.integer? with
  | some n =>
    if n < decimalLimit then (if value.isNegative then "-" else "") ++ Nat.repr n ++ ".0"
    else "0x" ++ value.hexText
  | none => "0x" ++ value.hexText

namespace Constant

/-- A 32-bit integer. -/
def i32 (value : Int32) : Constant :=
  .int .i32 value.toInt64

/-- A vector whose length is the number of its elements. -/
def vectorOf (elem : Ty) (elems : List Constant) : Constant :=
  .vector (.vector (UInt64.ofNat elems.length) elem) elems

/-- The lanes that a shuffle selects. -/
def mask (lanes : List Int32) : Constant :=
  vectorOf .i32 (lanes.map i32)

/-- The declared type. -/
def type : Constant → Ty
  | .int type _ | .float type _ | .undef type | .zero type | .vector type _ => type

mutual

/-- Text of a constant without its type. -/
def ident : Constant → String
  | .int type value =>
    if type = .i1 then (if value = 0 then "false" else "true") else Int.repr value.toInt
  | .float type value => floatLiteral type value
  | .undef _ => "undef"
  | .zero _ => "zeroinitializer"
  | .vector _ elems => "<" ++ ", ".intercalate (texts elems) ++ ">"

/-- Text of each element of a vector, with its type. -/
def texts : List Constant → List String
  | [] => []
  | c :: cs => (c.type.text ++ " " ++ c.ident) :: texts cs

end

/-- Text of a constant behind its type. -/
def text (c : Constant) : String :=
  c.type.text ++ " " ++ c.ident

@[simp] theorem texts_eq_map (cs : List Constant) : texts cs = cs.map text := by
  induction cs with
  | nil => rfl
  | cons c cs ih => simp [texts, text, ih]

mutual

/-- Equality of constants, where floats are compared as numbers. -/
def equals : Constant → Constant → Bool
  | .int t v, .int t' v' => t == t' && v == v'
  | .float t v, .float t' v' => t == t' && v.equals v'
  | .undef t, .undef t' => t == t'
  | .zero t, .zero t' => t == t'
  | .vector t cs, .vector t' cs' => t == t' && allEqual cs cs'
  | _, _ => false

/-- Equality element by element. -/
def allEqual : List Constant → List Constant → Bool
  | [], [] => true
  | c :: cs, c' :: cs' => equals c c' && allEqual cs cs'
  | _, _ => false

end

end Constant

end Codegen.Ir
