import Codegen.Json.Decode
import Codegen.Json.Value

namespace Codegen

open Codegen.Json

/-- A place in a source file. Lines and columns start at one; line zero marks no real place. -/
structure Location where
  filename : String
  line : UInt32
  column : UInt32
  deriving DecidableEq, Repr

namespace Location

/-- A place for what has none. -/
def unknown : Location :=
  ⟨"<unknown>", 0, 0⟩

def isUnknown (l : Location) : Bool :=
  l.line == 0

def text (l : Location) : String :=
  l.filename ++ ":" ++ Nat.repr l.line.toNat ++ ":" ++ Nat.repr l.column.toNat

def toJson (l : Location) : Json :=
  .object [("filename", .string l.filename), ("line", .word l.line.toUInt64),
    ("column", .word l.column.toUInt64)]

/-- A place, as far as it is read. -/
structure Parts where
  filename : Option String := none
  line : Option UInt32 := none
  column : Option UInt32 := none

def fields (_ : Nat) : List (RecordField Parts) :=
  [.of "filename" (·.filename) (fun s filename => { s with filename := some filename }) decodeText,
    .of "line" (·.line) (fun s line => { s with line := some line }) decodeWord32,
    .of "column" (·.column) (fun s column => { s with column := some column }) decodeWord32]

def decoder (depth : Nat) : Decoder Location := fun node => do
  let s ← decodeRecord "struct SourceLocation" {} (innerLevel fields depth) node
  return {
    filename := ← require "filename" s.filename
    line := ← require "line" s.line
    column := ← require "column" s.column }

end Location

end Codegen
