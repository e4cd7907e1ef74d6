import Codegen.Number.Binary64

namespace Codegen.Number

/-- A decimal `d₁.d₂d₃… · 10 ^ exponent`. -/
structure Decimal where
  digits : List Char
  exponent : Int
  deriving DecidableEq, Repr

/-- The exponent of the leading decimal digit of a positive quotient. -/
def leadingDecimalExponent (num den : Nat) : Int :=
  if den ≤ num then ((Nat.toDigits 10 (num / den)).length : Int) - 1
  else
    let places := (Nat.toDigits 10 (den / num)).length - 1
    if den ≤ num * Nat.pow 10 places then -places else -places - 1

namespace Binary64

/-- The interval of reals that round to a number: its ends and the number itself in quarters of the
last binary place, and the exponent of such a quarter. The ends round to the number when its
coefficient is even. -/
structure Interval where
  low : Nat
  mid : Nat
  high : Nat
  closed : Bool
  exponent : Int

def interval (x : Binary64) : Interval :=
  let m := x.magnitude
  let below := if m.coefficient = Nat.pow 2 52 ∧ -1074 < m.exponent then 1 else 2
  { low := 4 * m.coefficient - below
    mid := 4 * m.coefficient
    high := 4 * m.coefficient + 2
    closed := m.coefficient % 2 == 0
    exponent := m.exponent - 2 }

/-- The point of the grid with spacing `10 ^ place` that lies in the interval. If there are two it
is the nearer to the number, and the even one of two equally near. -/
def Interval.gridPoint? (i : Interval) (place : Int) : Option Nat :=
  let scale := Nat.pow 10 place.toNat * Nat.pow 2 (-i.exponent).toNat
  let unit := Nat.pow 2 i.exponent.toNat * Nat.pow 10 (-place).toNat
  let inside (point : Nat) : Bool :=
    let at_ := point * scale
    if i.closed then i.low * unit ≤ at_ && at_ ≤ i.high * unit
    else i.low * unit < at_ && at_ < i.high * unit
  let down := i.mid * unit / scale
  let toDown := i.mid * unit - down * scale
  match inside down, inside (down + 1) with
  | true, true =>
    some (if 2 * toDown < scale ∨ (2 * toDown = scale ∧ down % 2 = 0) then down else down + 1)
  | true, false => some down
  | false, true => some (down + 1)
  | false, false => none

/-- The shortest decimal that reads back as a finite number other than zero, without its sign. Of
the decimal grids with one digit, two digits and so on, the first that has a point in the interval
is taken. -/
def shortest (x : Binary64) : Decimal :=
  let i := x.interval
  let quarters : Dyadic := ⟨i.mid, i.exponent⟩
  let lead := leadingDecimalExponent quarters.num quarters.den
  let found := (List.range 17).findSome? fun (extra : Nat) =>
    let place := lead - (extra : Int)
    (i.gridPoint? place).map fun point => (Nat.toDigits 10 point, place)
  match found with
  | some (digits, place) =>
    { digits := (digits.reverse.dropWhile (· == '0')).reverse
      exponent := place + digits.length - 1 }
  | none => { digits := ['0'], exponent := 0 }

end Binary64

/-- How a decimal is laid out: the exponents for which its digits stand around a point. Outside of
them the exponent is written with its sign. -/
structure DecimalLayout where
  leastPositional : Int
  greatestPositional : Int
  deriving DecidableEq, Repr

namespace Decimal

/-- The digits around a point; there is always a digit on both sides. -/
def positional (d : Decimal) : List Char :=
  if d.exponent < 0 then
    '0' :: '.' :: (List.replicate (-d.exponent - 1).toNat '0' ++ d.digits)
  else
    let whole := d.exponent.toNat + 1
    if d.digits.length ≤ whole then
      d.digits ++ List.replicate (whole - d.digits.length) '0' ++ ['.', '0']
    else d.digits.take whole ++ '.' :: d.digits.drop whole

/-- The digits with an exponent; a single digit has no point. -/
def scientific (d : Decimal) : List Char :=
  let mantissa := match d.digits with
    | [] => []
    | [digit] => [digit]
    | digit :: rest => digit :: '.' :: rest
  let sign := if d.exponent < 0 then '-' else '+'
  mantissa ++ 'e' :: sign :: Nat.toDigits 10 d.exponent.natAbs

def text (layout : DecimalLayout) (d : Decimal) : String :=
  String.ofList <|
    if layout.leastPositional ≤ d.exponent ∧ d.exponent ≤ layout.greatestPositional then
      d.positional
    else d.scientific

end Decimal

/-- The shortest text of a finite number. -/
def Binary64.shortestText (layout : DecimalLayout) (x : Binary64) : String :=
  (if x.isNegative then "-" else "") ++
    if x.isZero then "0.0" else x.shortest.text layout

end Codegen.Number
