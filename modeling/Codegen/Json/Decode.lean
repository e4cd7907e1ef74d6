import Codegen.Json.Fault

namespace Codegen.Json

/-- Reads a value from a node, from left to right up to the first fault. -/
abbrev Decoder (α : Type) := Node → Except Fault α

/-- How many arrays and objects may be open at once. -/
def nestingLimit : Nat := 127

/-- What is made for the level below, unless the depth is used up. -/
def innerLevel {β : Type} (make : Nat → β) : Nat → Option β
  | 0 => none
  | depth + 1 => some (make depth)

def malformed {α : Type} : Except Fault α :=
  .error (.broken .malformed)

/-- The fault for a node of the wrong kind. -/
def wrongType {α : Type} (expected : String) (node : Node) : Except Fault α :=
  match node.found with
  | .ok found => .error (.mismatch (.wrongType found expected))
  | .error b => .error (.broken b)

/-- The array or object has to end here. -/
def Closing.check : Closing → Except Fault Unit
  | .closed => .ok ()
  | .unclosed b => .error (.broken b)

def decodeText : Decoder String
  | .string (some text) => .ok text
  | node => wrongType "a string" node

def decodeBool : Decoder Bool
  | .bool value => .ok value
  | node => wrongType "a boolean" node

def decodeUnit : Decoder Unit
  | .null => .ok ()
  | node => wrongType "unit" node

/-- A natural number below `2 ^ width`. -/
def decodeWord (width : Nat) : Decoder Nat
  | .number (some (.natural value)) =>
    if value.toNat < Nat.pow 2 width then .ok value.toNat
    else .error (.mismatch (.outOfRange (.natural value) ("u" ++ Nat.repr width)))
  | .number (some (.negative value)) =>
    .error (.mismatch (.outOfRange (.negative value) ("u" ++ Nat.repr width)))
  | node => wrongType ("u" ++ Nat.repr width) node

def decodeWord32 : Decoder UInt32 := fun node =>
  (decodeWord 32 node).map UInt32.ofNat

def decodeWord64 : Decoder UInt64 := fun node =>
  (decodeWord 64 node).map UInt64.ofNat

/-- A value that may be null. -/
def decodeOptional {α : Type} (decoder : Decoder α) : Decoder (Option α)
  | .null => .ok none
  | node => (decoder node).map some

/-- An array of any length. -/
def decodeList {α : Type} (item : Option (Decoder α)) : Decoder (List α)
  | .array items closing =>
    match item with
    | none => malformed
    | some item => do
      let values ← items.mapM item
      closing.check
      return values
  | node => wrongType "a sequence" node

/-- A field of a record that is read into `σ`. -/
structure RecordField (σ : Type) where
  name : String
  /-- Whether the field was met already. -/
  given : σ → Bool
  read : σ → Decoder σ
  /-- Whether an array may leave the field off its end. -/
  optional : Bool := false

/-- A field whose value is kept in one place of `σ`, which is empty until the field is met. -/
def RecordField.of {σ α : Type} (name : String) (get : σ → Option α) (put : σ → α → σ)
    (decoder : Decoder α) : RecordField σ :=
  { name
    given := fun s => (get s).isSome
    read := fun s node => (decoder node).map (put s) }

/-- The same field, which an array may leave off its end. -/
def RecordField.orAbsent {σ : Type} (f : RecordField σ) : RecordField σ :=
  { f with optional := true }

/-- The name of a member that is read. -/
def KeyMark.name : KeyMark → Except Fault String
  | .text (some name) => .ok name
  | .text none => malformed
  | .brokenText read _ => .error (.broken read)
  | .other => malformed
  | .absent => .error (.broken .truncated)

/-- Reads the members of an object in their order. A member that is no field is skipped, and a field
that comes twice is refused where its name comes again. -/
def readMembers {σ : Type} (fields : List (RecordField σ)) (s : σ) :
    List (KeyMark × Node) → Except Fault σ
  | [] => .ok s
  | (key, value) :: rest => do
    let name ← key.name
    match fields.find? fun f => f.name == name with
    | some field =>
      if field.given s then .error (.mismatch (.duplicateField name))
      else readMembers fields (← field.read s value) rest
    | none =>
      match value.skip with
      | .ok () => readMembers fields s rest
      | .error b => .error (.broken b)

/-- Reads the items of an array as fields in declaration order, of which `index` were read before.
There may not be more items than fields, and only optional fields may be left off. -/
def readItems {σ : Type} (expected : String) (closing : Closing) (index : Nat) (s : σ) :
    List (RecordField σ) → List Node → Except Fault σ
  | [], [] => do
    closing.check
    return s
  | [], _ :: _ => malformed
  | field :: fields, [] => do
    closing.check
    if field.optional then readItems expected closing (index + 1) s fields []
    else .error (.mismatch (.tooShort index expected))
  | field :: fields, item :: items => do
    readItems expected closing (index + 1) (← field.read s item) fields items

/-- A record: an object with its fields, or an array of them in declaration order. -/
def decodeRecord {σ : Type} (title : String) (start : σ) (fields : Option (List (RecordField σ))) :
    Decoder σ
  | .object members closing =>
    match fields with
    | none => malformed
    | some fields => do
      let s ← readMembers fields start members
      closing.check
      return s
  | .array items closing =>
    match fields with
    | none => malformed
    | some fields =>
      readItems (title ++ " with " ++ Nat.repr fields.length ++ " elements") closing 0 start fields
        items
  | node => wrongType title node

/-- The value of a field that must have been met. -/
def require {α : Type} (name : String) : Option α → Except Fault α
  | some value => .ok value
  | none => .error (.mismatch (.missingField name))

/-- One of several variants: the name of a variant without content, or an object with one member
that has the name of the variant and its content. -/
def decodeVariant {α : Type} (known : List String) (plain : String → Except Fault α)
    (content : Option (String → Decoder α)) : Decoder α
  | .string (some name) =>
    if known.contains name then plain name else .error (.mismatch (.unknownVariant name known))
  | .object members closing =>
    match content, members with
    | none, _ => malformed
    | some _, [] => do
      closing.check
      malformed
    | some content, (key, value) :: rest => do
      let name ← key.name
      if known.contains name then
        let a ← content name value
        if rest.isEmpty then closing.check else malformed
        return a
      else .error (.mismatch (.unknownVariant name known))
  | .gap g => .error (.broken g.onChoose)
  | .string none | .null | .bool _ | .number _ | .array .. => malformed

/-- One of several names. The form with content has no content but null. -/
def decodeName {α : Type} (known : List (String × α)) (nested : Bool) : Decoder α :=
  let names := known.map Prod.fst
  let value (name : String) : Except Fault α :=
    match known.lookup name with
    | some a => .ok a
    | none => .error (.mismatch (.unknownVariant name names))
  decodeVariant names value <| if nested then some fun name node => do
      decodeUnit node
      value name
    else none

/-- Reads a whole text, after which only blanks may follow. The decoder is given the number of
arrays and objects that may be open. -/
def decode {α : Type} (decoder : Nat → Decoder α) (text : String) : Except Fault α := do
  let document := Document.ofText text
  let a ← decoder nestingLimit document.root
  if document.rest.isEmpty then return a else malformed

end Codegen.Json
