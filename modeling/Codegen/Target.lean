import Codegen.Json.Decode
import Codegen.Json.Value

namespace Codegen

inductive Target where
  /-- WebAssembly with the language's own host interface -/
  | wasm32
  /-- WebAssembly with the system interface -/
  | wasm32Wasi
  /-- The intermediate representation as text, with 64-bit pointers -/
  | ir64
  deriving DecidableEq, Repr

namespace Target

/-- Every target, in declaration order. -/
def all : List Target := [.wasm32, .wasm32Wasi, .ir64]

def name : Target → String
  | .wasm32 => "wasm32-wa"
  | .wasm32Wasi => "wasm32-wasi"
  | .ir64 => "llir-64bit"

/-- The target of a name. -/
def ofName? (name : String) : Option Target :=
  all.find? fun t => t.name == name

/-- The target that is taken when none is chosen. -/
instance : Inhabited Target := ⟨.wasm32⟩

def toJson (t : Target) : Json :=
  .string t.name

def decoder (depth : Nat) : Json.Decoder Target :=
  Json.decodeName (all.map fun t => (t.name, t)) (depth != 0)

end Target

end Codegen
