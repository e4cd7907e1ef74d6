import Codegen.Ir.Value
import Codegen.Json.Decode
import Codegen.Json.Value

namespace Codegen.Ir

open Codegen.Json

def FloatKind.jsonName : FloatKind → String
  | .float => "Float"
  | .double => "Double"

def FloatKind.toJson (k : FloatKind) : Json :=
  .string k.jsonName

def FloatKind.decoder (depth : Nat) : Decoder FloatKind :=
  decodeName ([.float, .double].map fun k => (k.jsonName, k)) (depth != 0)

namespace Ty

mutual

/-- A type without parts is a string; any other is an object with one member, named for its kind. -/
def toJson : Ty → Json
  | .void => .string "Void"
  | .int width => .object [("Int", .word width.toUInt64)]
  | .float kind => .object [("Float", kind.toJson)]
  | .pointer elem => .object [("Pointer", elem.toJson)]
  | .array len elem => .object [("Array", .object [("len", .word len), ("elem", elem.toJson)])]
  | .vector len elem => .object [("Vector", .object [("len", .word len), ("elem", elem.toJson)])]
  | .struct fields packed =>
    .object [("Struct", .object [("fields", .array (toJsons fields)), ("packed", .bool packed)])]

/-- The form of each field. -/
def toJsons : List Ty → List Json
  | [] => []
  | t :: ts => t.toJson :: toJsons ts

end

@[simp] theorem toJsons_eq_map (ts : List Ty) : toJsons ts = ts.map toJson := by
  induction ts with
  | nil => rfl
  | cons t ts ih => simp [toJsons, ih]

/-- Names of the kinds of types, in declaration order. -/
def jsonNames : List String :=
  ["Void", "Int", "Float", "Pointer", "Array", "Vector", "Struct"]

/-- The type that a name alone stands for. All kinds but one need content. -/
def ofJsonName (name : String) : Except Fault Ty :=
  match name with
  | "Void" => .ok .void
  | "Int" | "Float" | "Pointer" =>
    .error (.mismatch (.wrongType .unitVariant "newtype variant"))
  | _ => .error (.mismatch (.wrongType .unitVariant "struct variant"))

/-- Length and element type, as far as they are read. -/
structure SequenceParts where
  len : Option UInt64 := none
  elem : Option Ty := none

/-- Fields of an array or vector type. -/
def sequenceFields (elem : Decoder Ty) : List (RecordField SequenceParts) :=
  [.of "len" (·.len) (fun s len => { s with len := some len }) decodeWord64,
    .of "elem" (·.elem) (fun s elem => { s with elem := some elem }) elem]

/-- The length and element type of an array or vector type. -/
def decodeSequence (title : String) (elem : Option (Decoder Ty)) : Decoder (UInt64 × Ty) :=
  fun node => do
    let s ← decodeRecord title {} (elem.map sequenceFields) node
    return (← require "len" s.len, ← require "elem" s.elem)

/-- Fields and packing of a struct type, as far as they are read. -/
structure StructParts where
  fields : Option (List Ty) := none
  packed : Option Bool := none

/-- Fields of a struct type. -/
def structFields (field : Option (Decoder Ty)) : List (RecordField StructParts) :=
  [.of "fields" (·.fields) (fun s fields => { s with fields := some fields }) (decodeList field),
    .of "packed" (·.packed) (fun s packed => { s with packed := some packed }) decodeBool]

/-- The fields and the packing of a struct type. -/
def decodeStruct (title : String) (field : Option (Option (Decoder Ty))) :
    Decoder (List Ty × Bool) :=
  fun node => do
    let s ← decodeRecord title {} (field.map structFields) node
    return (← require "fields" s.fields, ← require "packed" s.packed)

/-- The content of the kind of types that a name stands for, with readers for the levels below. The
element of a pointer type lies one level down, that of an array or vector type two, and the fields
of a struct type three. -/
def decodeContent (kind : Decoder FloatKind) (pointee : Decoder Ty) (elem : Option (Decoder Ty))
    (field : Option (Option (Decoder Ty))) (name : String) : Decoder Ty := fun node =>
  match name with
  | "Void" => (decodeUnit node).map fun _ => .void
  | "Int" => (decodeWord32 node).map .int
  | "Float" => (kind node).map .float
  | "Pointer" => (pointee node).map .pointer
  | "Array" =>
    (decodeSequence "struct variant Type::Array" elem node).map fun (len, elem) => .array len elem
  | "Vector" =>
    (decodeSequence "struct variant Type::Vector" elem node).map fun (len, elem) =>
      .vector len elem
  | _ =>
    (decodeStruct "struct variant Type::Struct" field node).map fun (fields, packed) =>
      .struct fields packed

/-- Reads a type where `depth` more arrays and objects may be opened. -/
def decoder : Nat → Decoder Ty
  | 0 => decodeVariant jsonNames ofJsonName none
  | 1 => decodeVariant jsonNames ofJsonName <| some <|
      decodeContent (FloatKind.decoder 0) (decoder 0) none none
  | 2 => decodeVariant jsonNames ofJsonName <| some <|
      decodeContent (FloatKind.decoder 1) (decoder 1) (some (decoder 0)) (some none)
  | depth + 3 => decodeVariant jsonNames ofJsonName <| some <|
      decodeContent (FloatKind.decoder (depth + 2)) (decoder (depth + 2))
        (some (decoder (depth + 1))) (some (some (decoder depth)))

end Ty

def Metadata.toJson (m : Metadata) : Json :=
  .object [("kind", .string m.kind), ("node", .word m.node)]

/-- Kind and node of metadata, as far as they are read. -/
structure MetadataParts where
  kind : Option String := none
  node : Option UInt64 := none

def Metadata.fields (_ : Nat) : List (RecordField MetadataParts) :=
  [.of "kind" (·.kind) (fun s kind => { s with kind := some kind }) decodeText,
    .of "node" (·.node) (fun s node => { s with node := some node }) decodeWord64]

def Metadata.decoder (depth : Nat) : Decoder Metadata := fun node => do
  let s ← decodeRecord "struct MetadataAttachment" {} (innerLevel Metadata.fields depth) node
  return { kind := ← require "kind" s.kind, node := ← require "node" s.node }

end Codegen.Ir
