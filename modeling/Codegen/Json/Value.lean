import Codegen.Text.Digits

namespace Codegen

/-- JSON data. Every number that is written is a 64-bit word. -/
inductive Json where
  | null
  | bool (value : Bool)
  | word (value : UInt64)
  | string (text : String)
  | array (items : List Json)
  | object (members : List (String × Json))
  deriving Repr, Inhabited

namespace Json

/-- A value that may be absent, which is written as null. -/
def orNull : Option Json → Json
  | some value => value
  | none => .null

/-- One character between quotes. Control characters have a letter of their own or are written by
number; all else but the quote and the backslash stands for itself. -/
def escapeChar (c : Char) : List Char :=
  match c with
  | '"' => ['\\', '"']
  | '\\' => ['\\', '\\']
  | '\x08' => ['\\', 'b']
  | '\t' => ['\\', 't']
  | '\n' => ['\\', 'n']
  | '\x0c' => ['\\', 'f']
  | '\r' => ['\\', 'r']
  | c => if c.toNat < 0x20 then '\\' :: 'u' :: Text.hexDigits .lower 4 c.toNat else [c]

/-- A text between quotes. -/
def quote (s : String) : String :=
  "\"" ++ String.ofList (s.toList.flatMap escapeChar) ++ "\""

mutual

/-- The text of a value, without blanks. -/
def text : Json → String
  | .null => "null"
  | .bool false => "false"
  | .bool true => "true"
  | .word value => Nat.repr value.toNat
  | .string s => quote s
  | .array items => "[" ++ ",".intercalate (itemTexts items) ++ "]"
  | .object members => "\x7b" ++ ",".intercalate (memberTexts members) ++ "\x7d"

/-- The text of each item of an array. -/
def itemTexts : List Json → List String
  | [] => []
  | item :: rest => item.text :: itemTexts rest

/-- The text of each member of an object. -/
def memberTexts : List (String × Json) → List String
  | [] => []
  | (key, value) :: rest => (quote key ++ ":" ++ value.text) :: memberTexts rest

end

@[simp] theorem itemTexts_eq_map (items : List Json) : itemTexts items = items.map text := by
  induction items with
  | nil => rfl
  | cons item rest ih => simp [itemTexts, ih]

@[simp] theorem memberTexts_eq_map (members : List (String × Json)) :
    memberTexts members = members.map fun m => quote m.1 ++ ":" ++ m.2.text := by
  induction members with
  | nil => rfl
  | cons m rest ih => simp [memberTexts, ih]

end Json

end Codegen
