import Codegen.Program

namespace Codegen.Demo

open Codegen.Ir (Block Constant Function IrError Naming Terminator Ty Value)
open Codegen.Wasm (Func NameError)

/-- Reads and replaces elements of a struct of an array and a pointer. -/
def aggregateIr : Except IrError (Ir.Module × Naming) := do
  let record : Ty := .struct [.array 4 .i32, .pointer .double] false
  let f : Function := { name := "bump_third", returnType := record }
  let (agg, f, n) := f.addParam "agg" record {}
  let (entry, n) := Block.named n "entry"
  let (third, entry, n) ← entry.extractValue agg [0, 2] n
  let (_, entry, n) ← entry.extractValue agg [1, 0] n
  let (updated, entry, n) ← entry.insertValue agg third [0, 3] n
  let entry := entry.setTerminator (.ret (some updated))
  return (({ name := "aggregate" } : Ir.Module).addFunction (f.addBlock entry), n)

def aggregateWasm : Except NameError Wasm.Module := do
  let f := Func.exportedAs { name := "bump_third" } "bump_third"
  let f ← f.addParam ⟨"agg", .i32⟩
  let f := f.addResult .i32
  let f ← f.addLocal ⟨"third", .i32⟩
  let f ← f.addLocal ⟨"scale", .f64⟩
  Wasm.Module.addFunc { name := "aggregate" } f

/-- Swaps the halves of a vector of four lanes and replaces the last lane. -/
def vectorIr : Except IrError (Ir.Module × Naming) := do
  let lanes : Ty := .vector 4 .single
  let f : Function := { name := "rotate", returnType := lanes }
  let (v, f, n) := f.addParam "v" lanes {}
  let (entry, n) := Block.named n "entry"
  let (zero, n) := Value.ofConstant n (.i32 0)
  let (first, entry, n) ← entry.extractElement v zero n
  let (undef, n) := Value.ofConstant n (.undef lanes)
  let (mask, n) := Value.ofConstant n (.mask [2, 3, 0, 1])
  let (rotated, entry, n) ← entry.shuffleVector v undef mask n
  let (three, n) := Value.ofConstant n (.i32 3)
  let (result, entry, n) ← entry.insertElement rotated first three n
  let entry := entry.setTerminator (.ret (some result))
  return (({ name := "vector" } : Ir.Module).addFunction (f.addBlock entry), n)

def vectorWasm : Except NameError Wasm.Module := do
  let f : Func := { name := "rotate" }
  let f ← f.addParam ⟨"v_ptr", .u32⟩
  let f ← f.addLocal ⟨"lane", .f32⟩
  let f ← f.addLocal ⟨"mask", .u64⟩
  Wasm.Module.addFunc { name := "vector" } f

/-- Puts both representations of a demo together. -/
def assemble (name : String) (ir : Except IrError (Ir.Module × Naming))
    (wasm : Except NameError Wasm.Module) : Except Diagnostic (Program × Naming) := do
  let (ir, n) ← ir.mapError (·.diagnostic none)
  let wasm ← wasm.mapError (·.diagnostic none)
  return ({ name, ir, wasm }, n)

/-- The demo of a name. -/
def build (name : String) : Except Diagnostic (Program × Naming) :=
  match name with
  | "aggregate" => assemble "aggregate" aggregateIr aggregateWasm
  | "vector" => assemble "vector" vectorIr vectorWasm
  | _ => .error (.internal ("Unknown demo: " ++ name))

end Codegen.Demo
