import Codegen.Text.Digits

namespace Codegen.Text

/-- The UTF-8 bytes of a text. -/
def utf8 (s : String) : List UInt8 :=
  s.toList.flatMap String.utf8EncodeChar

/-- A byte stands for itself between quotes when it is printable ASCII and neither the quote nor the
backslash. -/
def isLiteralByte (b : UInt8) : Bool :=
  0x20 ≤ b && b ≤ 0x7e && b != 0x22 && b != 0x5c

/-- One byte between quotes. -/
def escapeByte (letters : LetterCase) (b : UInt8) : List Char :=
  if isLiteralByte b then [Char.ofUInt8 b] else '\\' :: hexDigits letters 2 b.toNat

/-- A text between quotes, byte by byte, without the quotes. Both output formats use this form and
differ only in the case of the digits. -/
def escape (letters : LetterCase) (s : String) : String :=
  String.ofList ((utf8 s).flatMap (escapeByte letters))

end Codegen.Text
