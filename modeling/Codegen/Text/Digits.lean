namespace Codegen.Text

/-- Case of the letters among hexadecimal digits. -/
inductive LetterCase where
  | lower
  | upper
  deriving DecidableEq, Repr

/-- The digit that stands for a value below sixteen. -/
def hexDigit (letters : LetterCase) (value : Nat) : Char :=
  match letters with
  | .lower => Nat.digitChar value
  | .upper => (Nat.digitChar value).toUpper

/-- The last `width` hexadecimal digits of a number, most significant first. -/
def hexDigits (letters : LetterCase) : Nat → Nat → List Char
  | 0, _ => []
  | width + 1, value => hexDigits letters width (value / 16) ++ [hexDigit letters (value % 16)]

/-- The value of a hexadecimal digit in either case. -/
def hexValue? (c : Char) : Option Nat :=
  if '0' ≤ c ∧ c ≤ '9' then some (c.toNat - '0'.toNat)
  else if 'a' ≤ c ∧ c ≤ 'f' then some (c.toNat - 'a'.toNat + 10)
  else if 'A' ≤ c ∧ c ≤ 'F' then some (c.toNat - 'A'.toNat + 10)
  else none

@[simp] theorem length_hexDigits (letters : LetterCase) (width value : Nat) :
    (hexDigits letters width value).length = width := by
  induction width generalizing value with
  | zero => rfl
  | succ width ih => simp [hexDigits, ih]

end Codegen.Text
