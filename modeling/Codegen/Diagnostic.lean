import Codegen.Ir.Error
import Codegen.Location
import Codegen.Wasm.Name

namespace Codegen

inductive Diagnostic where
  /-- A construct at a known place cannot be compiled. -/
  | backend (location : Location) (message : String)
  | unknownTarget (name : String)
  | invalidInput (message : String)
  | io (message : String)
  /-- An earlier pass broke a promise. -/
  | internal (message : String)
  deriving DecidableEq, Repr

namespace Diagnostic

def text : Diagnostic → String
  | .backend location message => "Backend error at " ++ location.text ++ ": " ++ message
  | .unknownTarget name => "Unknown target machine '" ++ name ++ "'"
  | .invalidInput message => "Invalid input: " ++ message
  | .io message => "IO error: " ++ message
  | .internal message => "Internal compiler error: " ++ message

/-- The place a diagnostic points at. -/
def location? : Diagnostic → Option Location
  | .backend location _ => some location
  | _ => none

/-- A cause at a place, or one without. -/
def ofMessage (location : Option Location) (message : String) : Diagnostic :=
  match location with
  | some l => .backend l message
  | none => .internal message

end Diagnostic

/-- A failure to build part of the intermediate representation, with the place if it is known. -/
def Ir.IrError.diagnostic (e : Ir.IrError) (location : Option Location) : Diagnostic :=
  .ofMessage location e.message

/-- A failure to declare a name, with the place if it is known. -/
def Wasm.NameError.diagnostic (e : Wasm.NameError) (location : Option Location) : Diagnostic :=
  .ofMessage location e.message

end Codegen
