namespace Codegen.Number

/-- The integer nearest to `num / den`; of two equally near ones the even one. -/
def nearestQuotient (num den : Nat) : Nat :=
  let low := num / den
  let twice := 2 * (num % den)
  if twice < den ∨ (twice = den ∧ low % 2 = 0) then low else low + 1

/-- A binary floating point format: how many binary digits it keeps, and the exponent of its least
positive number. -/
structure BinaryFormat where
  digits : Nat
  leastExponent : Int
  deriving DecidableEq, Repr

def BinaryFormat.single : BinaryFormat := ⟨24, -149⟩

def BinaryFormat.double : BinaryFormat := ⟨53, -1074⟩

/-- A number `coefficient · 2 ^ exponent`. -/
structure Dyadic where
  coefficient : Nat
  exponent : Int
  deriving DecidableEq, Repr

namespace Dyadic

/-- The numerator of a dyadic number as a quotient. -/
def num (x : Dyadic) : Nat :=
  x.coefficient * Nat.pow 2 x.exponent.toNat

/-- The denominator of a dyadic number as a quotient. -/
def den (x : Dyadic) : Nat :=
  Nat.pow 2 (-x.exponent).toNat

end Dyadic

/-- The exponent of the leading binary digit of a positive quotient. -/
def leadingExponent (num den : Nat) : Int :=
  let guess : Int := (Nat.log2 num : Int) - Nat.log2 den
  if num * Nat.pow 2 (-guess).toNat < den * Nat.pow 2 guess.toNat then guess - 1 else guess

/-- The number of a format nearest to a quotient, its exponent not bounded above. -/
def BinaryFormat.nearest (format : BinaryFormat) (num den : Nat) : Dyadic :=
  if num = 0 then ⟨0, format.leastExponent⟩
  else
    let exponent := max format.leastExponent (leadingExponent num den + 1 - format.digits)
    ⟨nearestQuotient (num * Nat.pow 2 (-exponent).toNat) (den * Nat.pow 2 exponent.toNat), exponent⟩

end Codegen.Number
