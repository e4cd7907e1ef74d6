import Codegen.Number.Rounding
import Codegen.Text.Digits

namespace Codegen.Number

/-- A 64-bit floating point number, told apart by its bits. -/
structure Binary64 where
  bits : UInt64
  deriving DecidableEq, Repr

namespace Binary64

/-- The sign bit. -/
def isNegative (x : Binary64) : Bool :=
  Nat.pow 2 63 ≤ x.bits.toNat

def exponentField (x : Binary64) : Nat :=
  x.bits.toNat / Nat.pow 2 52 % Nat.pow 2 11

def fraction (x : Binary64) : Nat :=
  x.bits.toNat % Nat.pow 2 52

/-- Neither an infinity nor a NaN. -/
def isFinite (x : Binary64) : Bool :=
  x.exponentField != 2047

def isNaN (x : Binary64) : Bool :=
  x.exponentField == 2047 && x.fraction != 0

/-- Zero of either sign. -/
def isZero (x : Binary64) : Bool :=
  x.exponentField == 0 && x.fraction == 0

/-- The absolute value of a finite number. -/
def magnitude (x : Binary64) : Dyadic :=
  if x.exponentField = 0 then ⟨x.fraction, -1074⟩
  else ⟨Nat.pow 2 52 + x.fraction, x.exponentField - 1075⟩

/-- The bits of the sign. -/
def signBits (negative : Bool) : Nat :=
  if negative then Nat.pow 2 63 else 0

/-- The pattern with a given sign and given other bits. -/
def ofBits (negative : Bool) (rest : Nat) : Binary64 :=
  ⟨UInt64.ofNat (signBits negative + rest)⟩

/-- The bits of infinity without the sign. -/
def infinityBits : Nat := 2047 * Nat.pow 2 52

/-- The number nearest to a quotient, ties to even, infinity beyond the largest. The coefficient of
a number of this format, added to its exponent's place, carries into the exponent field by
itself. -/
def ofQuotient (negative : Bool) (num den : Nat) : Binary64 :=
  let x := BinaryFormat.double.nearest num den
  ofBits negative (min infinityBits ((x.exponent + 1074).toNat * Nat.pow 2 52 + x.coefficient))

/-- The nearest number to the product of two finite ones. -/
def mul (x y : Binary64) : Binary64 :=
  ofQuotient (x.isNegative != y.isNegative) (x.magnitude.num * y.magnitude.num)
    (x.magnitude.den * y.magnitude.den)

/-- The nearest number to the quotient of two finite ones, the second not zero. -/
def div (x y : Binary64) : Binary64 :=
  ofQuotient (x.isNegative != y.isNegative) (x.magnitude.num * y.magnitude.den)
    (x.magnitude.den * y.magnitude.num)

/-- The nearest number to a power of ten. -/
def powerOfTen (k : Nat) : Binary64 :=
  ofQuotient false (Nat.pow 10 k) 1

/-- Equality of numbers: a NaN differs from itself, and both zeros are equal. -/
def equals (x y : Binary64) : Bool :=
  !x.isNaN && !y.isNaN && (x == y || (x.isZero && y.isZero))

/-- The nearest number of single precision, as a number of double precision. A NaN keeps its sign
and the upper bits of its fraction, and becomes quiet. -/
def toSingle (x : Binary64) : Binary64 :=
  if x.isFinite then
    let m := x.magnitude
    let y := BinaryFormat.single.nearest m.num m.den
    if Nat.pow 2 128 * y.den ≤ y.num then ofBits x.isNegative infinityBits
    else ofQuotient x.isNegative y.num y.den
  else if x.isNaN then
    let kept := x.fraction / Nat.pow 2 29 * Nat.pow 2 29
    ofBits x.isNegative (infinityBits + (if kept < Nat.pow 2 51 then kept + Nat.pow 2 51 else kept))
  else x

/-- The absolute value of a finite number without a fractional part. -/
def integer? (x : Binary64) : Option Nat :=
  if x.isFinite && x.magnitude.num % x.magnitude.den == 0 then
    some (x.magnitude.num / x.magnitude.den)
  else none

/-- The sixteen hexadecimal digits of the pattern. -/
def hexText (x : Binary64) : String :=
  String.ofList (Text.hexDigits .upper 16 x.bits.toNat)

end Binary64

end Codegen.Number
