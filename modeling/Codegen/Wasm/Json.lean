import Codegen.Json.Decode
import Codegen.Json.Value
import Codegen.Wasm.Module

namespace Codegen.Wasm

open Codegen.Json

def ValueType.toJson (t : ValueType) : Json :=
  .string t.name

def ValueType.decoder (depth : Nat) : Decoder ValueType :=
  decodeName (ValueType.all.map fun t => (t.name, t)) (depth != 0)

def Var.toJson (v : Var) : Json :=
  .object [("name", .string v.name), ("type", v.type.toJson)]

/-- A variable, as far as it is read. -/
structure VarParts where
  name : Option String := none
  type : Option ValueType := none

def Var.fields (depth : Nat) : List (RecordField VarParts) :=
  [.of "name" (·.name) (fun s name => { s with name := some name }) decodeText,
    .of "type" (·.type) (fun s type => { s with type := some type }) (ValueType.decoder depth)]

def Var.decoder (depth : Nat) : Decoder Var := fun node => do
  let s ← decodeRecord "struct Var" {} (innerLevel Var.fields depth) node
  return { name := ← require "name" s.name, type := ← require "type" s.type }

def Func.toJson (f : Func) : Json :=
  .object [("name", .string f.name),
    ("export", .orNull (f.exportName.map .string)),
    ("params", .array (f.params.map Var.toJson)),
    ("results", .array (f.results.map ValueType.toJson)),
    ("locals", .array (f.locals.map Var.toJson))]

/-- A function, as far as it is read. -/
structure FuncParts where
  name : Option String := none
  exportName : Option (Option String) := none
  params : Option (List Var) := none
  results : Option (List ValueType) := none
  locals : Option (List Var) := none

def Func.fields (depth : Nat) : List (RecordField FuncParts) :=
  let vars := decodeList (innerLevel Var.decoder depth)
  let results := decodeList (innerLevel ValueType.decoder depth)
  [.of "name" (·.name) (fun s name => { s with name := some name }) decodeText,
    .orAbsent <| .of "export" (·.exportName) (fun s e => { s with exportName := some e })
      (decodeOptional decodeText),
    .orAbsent <| .of "params" (·.params) (fun s vs => { s with params := some vs }) vars,
    .orAbsent <| .of "results" (·.results) (fun s ts => { s with results := some ts }) results,
    .orAbsent <| .of "locals" (·.locals) (fun s vs => { s with locals := some vs }) vars]

def Func.decoder (depth : Nat) : Decoder Func := fun node => do
  let s ← decodeRecord "struct Func" {} (innerLevel Func.fields depth) node
  return {
    name := ← require "name" s.name
    exportName := s.exportName.getD none
    params := s.params.getD []
    results := s.results.getD []
    locals := s.locals.getD [] }

def Module.toJson (m : Module) : Json :=
  .object [("name", .string m.name), ("funcs", .array (m.funcs.map Func.toJson))]

/-- A module, as far as it is read. -/
structure ModuleParts where
  name : Option String := none
  funcs : Option (List Func) := none

def Module.fields (depth : Nat) : List (RecordField ModuleParts) :=
  [.of "name" (·.name) (fun s name => { s with name := some name }) decodeText,
    .orAbsent <| .of "funcs" (·.funcs) (fun s funcs => { s with funcs := some funcs })
      (decodeList (innerLevel Func.decoder depth))]

def Module.decoder (depth : Nat) : Decoder Module := fun node => do
  let s ← decodeRecord "struct Module" {} (innerLevel Module.fields depth) node
  return { name := ← require "name" s.name, funcs := s.funcs.getD [] }

/-- Why a module description cannot be loaded. -/
inductive LoadError where
  | unreadable (fault : Fault)
  | badName (error : NameError)
  deriving DecidableEq, Repr

/-- Reads a module description and checks its names. -/
def load (text : String) : Except LoadError Module := do
  let m ← (decode Module.decoder text).mapError .unreadable
  m.validate.mapError .badName
  return m

end Codegen.Wasm
