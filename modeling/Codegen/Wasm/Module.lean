import Codegen.Text.Lines
import Codegen.Wasm.Func

namespace Codegen.Wasm

structure Module where
  name : String
  funcs : List Func := []
  deriving DecidableEq, Repr, Inhabited

/-- Each function in turn has to be valid, and its name none of `seen` or those before it. -/
def checkFuncs (scope : Scope) (seen : List String) : List Func → Except NameError Unit
  | [] => .ok ()
  | f :: rest => do
    f.validate
    if seen.contains f.name then throw (.duplicate scope f.name)
    checkFuncs scope (f.name :: seen) rest

namespace Module

def scope (m : Module) : Scope :=
  .module m.name

/-- The function of a name. -/
def func? (m : Module) (name : String) : Option Func :=
  m.funcs.find? fun f => f.name == name

/-- Adds a function whose name no function of the module has. -/
def addFunc (m : Module) (f : Func) : Except NameError Module :=
  if (m.func? f.name).isSome then .error (.duplicate m.scope f.name)
  else .ok { m with funcs := m.funcs ++ [f] }

/-- Checks every name of a finished module, in the order of the text. -/
def validate (m : Module) : Except NameError Unit := do
  checkName .document m.name
  checkFuncs m.scope [] m.funcs

/-- The functions behind a margin, between the lines that open and close the module. -/
def text (m : Module) : String :=
  "(module $" ++ m.name ++ "\n" ++ String.join (m.funcs.map fun f => Text.indent "  " f.text) ++
    ")\n"

end Module

end Codegen.Wasm
