import Codegen.Ir.Function

namespace Codegen.Ir

structure Module where
  name : String
  functions : List Function := []

namespace Module

def addFunction (m : Module) (f : Function) : Module :=
  { m with functions := m.functions ++ [f] }

/-- The first function of a name. -/
def function? (m : Module) (name : String) : Option Function :=
  m.functions.find? fun f => f.name == name

/-- The comment that names the module. -/
def header (m : Module) : String :=
  "; ModuleID = '" ++ m.name ++ "'\n"

/-- Numbers and prints functions one after the other behind `out`, a blank line before each that is
not the first text. When a function is refused, those before it stay numbered. -/
def emitAfter (n : Naming) (out : String) : List Function → Except IrError String × Naming
  | [] => (.ok out, n)
  | f :: rest =>
    match f.assignNumbers n with
    | .error e => (.error e, n)
    | .ok n => emitAfter n ((if out.isEmpty then "" else out ++ "\n") ++ f.text n) rest

/-- Numbers and prints a module. The naming is returned also when a function is refused. -/
def emit (m : Module) (withHeader : Bool) (n : Naming) : Except IrError String × Naming :=
  emitAfter n (if withHeader then m.header else "") m.functions

end Module

end Codegen.Ir
