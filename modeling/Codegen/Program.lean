import Codegen.Diagnostic
import Codegen.Ir.Module
import Codegen.Target
import Codegen.Wasm.Module

namespace Codegen

/-- A program in both representations. -/
structure Program where
  name : String
  ir : Ir.Module
  wasm : Wasm.Module

structure Options where
  target : Target := default
  /-- Whether the output starts with a comment. -/
  header : Bool := true
  deriving DecidableEq, Repr

/-- The comment that names the target. -/
def Target.header (t : Target) : String :=
  ";; target = " ++ t.name ++ "\n"

/-- Text of a WebAssembly module whose names are in order. -/
def Wasm.Module.emit (m : Wasm.Module) (t : Target) (withHeader : Bool) :
    Except Diagnostic String :=
  match m.validate with
  | .error e => .error (e.diagnostic none)
  | .ok () => .ok ((if withHeader then t.header else "") ++ m.text)

/-- The output for a target. Compiling to the intermediate representation numbers its identities,
also when it fails midway; compiling to WebAssembly leaves the naming alone. -/
def Program.compile (p : Program) (options : Options) (n : Ir.Naming) :
    Except Diagnostic String × Ir.Naming :=
  match options.target with
  | .ir64 =>
    let (result, n) := p.ir.emit options.header n
    (result.mapError (·.diagnostic none), n)
  | .wasm32 | .wasm32Wasi => (p.wasm.emit options.target options.header, n)

end Codegen
