import Codegen.Number.Binary64

namespace Codegen.Json

open Codegen.Number

/-- Why a text cannot be read on. -/
inductive Break where
  /-- What stands here is not JSON. -/
  | malformed
  /-- The text ends too early. -/
  | truncated
  deriving DecidableEq, Repr

/-- A number as it is read. Words are exact; anything else is a floating point number. -/
inductive Number where
  | natural (value : UInt64)
  | negative (value : Int64)
  | real (value : Binary64)
  deriving DecidableEq, Repr

/-- A number as it is written: digits before the point, digits behind it, and a power of ten. -/
structure Numeral where
  negative : Bool
  whole : List Nat
  fraction : Option (List Nat)
  exponent : Option Int
  deriving DecidableEq, Repr

/-- The digits at the start of a text. -/
def digitsOf (cs : List Char) : List Nat :=
  (cs.takeWhile Char.isDigit).map fun c => c.toNat - '0'.toNat

/-- The text after the digits at its start. -/
def afterDigits (cs : List Char) : List Char :=
  cs.dropWhile Char.isDigit

/-- At least one digit. -/
def scanDigits (cs : List Char) : Except Break (List Nat × List Char) :=
  match cs with
  | [] => .error .truncated
  | c :: _ => if c.isDigit then .ok (digitsOf cs, afterDigits cs) else .error .malformed

/-- The digits before the point. A zero stands alone. -/
def scanWhole (cs : List Char) : Except Break (List Nat × List Char) :=
  match cs with
  | '0' :: c :: _ => if c.isDigit then .error .malformed else scanDigits cs
  | _ => scanDigits cs

/-- The point and the digits behind it, if there is one. -/
def scanFraction (cs : List Char) : Except Break (Option (List Nat) × List Char) :=
  match cs with
  | '.' :: rest => do
    let (digits, rest) ← scanDigits rest
    return (some digits, rest)
  | _ => .ok (none, cs)

/-- The number that digits stand for. -/
def ofDigits (digits : List Nat) : Nat :=
  digits.foldl (fun n d => 10 * n + d) 0

/-- The sign of an exponent, and what follows it. -/
def scanSign (cs : List Char) : Bool × List Char :=
  match cs with
  | '+' :: rest => (false, rest)
  | '-' :: rest => (true, rest)
  | _ => (false, cs)

/-- The exponent, if there is one. -/
def scanExponent (cs : List Char) : Except Break (Option Int × List Char) :=
  match cs with
  | c :: rest =>
    if c = 'e' ∨ c = 'E' then do
      let (negative, rest) := scanSign rest
      let (digits, rest) ← scanDigits rest
      let n : Int := ofDigits digits
      return (some (if negative then -n else n), rest)
    else .ok (none, cs)
  | [] => .ok (none, cs)

/-- A number and what follows it. -/
def scanNumeral (cs : List Char) : Except Break (Numeral × List Char) := do
  let (negative, cs) := match cs with
    | '-' :: rest => (true, rest)
    | _ => (false, cs)
  let (whole, cs) ← scanWhole cs
  let (fraction, cs) ← scanFraction cs
  let (exponent, cs) ← scanExponent cs
  return ({ negative, whole, fraction, exponent }, cs)

/-- Puts digits behind a number while it fits in 64 bits, and returns those that are left. -/
def takeFitting (n : Nat) : List Nat → Nat × List Nat
  | [] => (n, [])
  | d :: rest => if 10 * n + d < Nat.pow 2 64 then takeFitting (10 * n + d) rest else (n, d :: rest)

/-- A number divided by a power of ten, by at most `10 ^ 308` at a time. -/
def shrink (x : Binary64) (k : Nat) : Binary64 :=
  if k ≤ 308 then x.div (.powerOfTen k)
  else if x.isZero then x
  else shrink (x.div (.powerOfTen 308)) (k - 308)
termination_by k

/-- A significand times a power of ten, rounded once for each of the two and once for their product
or quotient. There is none if it is too large. -/
def scaled? (significand : Nat) (exponent : Int) : Option Binary64 :=
  let x := Binary64.ofQuotient false significand 1
  if exponent < 0 then some (shrink x exponent.natAbs)
  else if x.isZero then some x
  else if exponent ≤ 308 then
    let y := x.mul (.powerOfTen exponent.natAbs)
    if y.isFinite then some y else none
  else none

/-- The value of a numeral. Digits before the point that do not fit in 64 bits only count, and those
behind it are dropped. -/
def Numeral.value? (x : Numeral) : Option Number :=
  let (n, uncounted) := takeFitting 0 x.whole
  if uncounted.isEmpty && x.fraction.isNone && x.exponent.isNone then
    if !x.negative then some (.natural (UInt64.ofNat n))
    else if n = 0 ∨ Nat.pow 2 63 < n then some (.real (Binary64.ofQuotient true n 1))
    else some (.negative (Int64.ofInt (-n)))
  else
    let fraction := x.fraction.getD []
    let (n, dropped) := takeFitting n fraction
    let counted : Int := fraction.length - dropped.length
    let exponent : Int := uncounted.length - counted + x.exponent.getD 0
    (scaled? n exponent).map fun y => .real (if x.negative then .ofBits true y.bits.toNat else y)

end Codegen.Json
