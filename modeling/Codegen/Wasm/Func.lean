import Codegen.Text.Escape
import Codegen.Wasm.Name
import Codegen.Wasm.ValueType

namespace Codegen.Wasm

/-- A named variable. -/
structure Var where
  name : String
  type : ValueType
  deriving DecidableEq, Repr, Inhabited

structure Func where
  name : String
  /-- The name under which the host sees the function. -/
  exportName : Option String := none
  params : List Var := []
  results : List ValueType := []
  locals : List Var := []
  deriving DecidableEq, Repr, Inhabited

namespace Func

def scope (f : Func) : Scope :=
  .func f.name

/-- Parameters, then locals. They share one namespace. -/
def vars (f : Func) : List Var :=
  f.params ++ f.locals

/-- The parameter or local of a name. -/
def lookup (f : Func) (name : String) : Option Var :=
  f.vars.find? fun v => v.name == name

def exportedAs (f : Func) (name : String) : Func :=
  { f with exportName := some name }

/-- A new variable needs a well-formed name that no variable of the function has. -/
def checkNewName (f : Func) (name : String) : Except NameError Unit := do
  checkName f.scope name
  if (f.lookup name).isSome then throw (.duplicate f.scope name)

def addParam (f : Func) (v : Var) : Except NameError Func := do
  f.checkNewName v.name
  return { f with params := f.params ++ [v] }

def addLocal (f : Func) (v : Var) : Except NameError Func := do
  f.checkNewName v.name
  return { f with locals := f.locals ++ [v] }

def addResult (f : Func) (type : ValueType) : Func :=
  { f with results := f.results ++ [type] }

/-- Checks the name of a finished function and those of its variables. -/
def validate (f : Func) : Except NameError Unit := do
  checkName f.scope f.name
  checkNames f.scope [] (f.vars.map Var.name)

/-- The text of a declared variable. -/
def declaration (keyword : String) (v : Var) : String :=
  "(" ++ keyword ++ " $" ++ v.name ++ " " ++ v.type.wireName ++ ")"

/-- The parts of the first line after the name. -/
def signature (f : Func) : List String :=
  (f.exportName.map fun e => "(export \"" ++ Text.escape .lower e ++ "\")").toList ++
    f.params.map (declaration "param") ++
    f.results.map fun t => "(result " ++ t.wireName ++ ")"

/-- The signature on one line, then each local on a line of its own. -/
def text (f : Func) : String :=
  "(func $" ++ f.name ++ String.join (f.signature.map (" " ++ ·)) ++ "\n" ++
    String.join (f.locals.map fun v => "  " ++ declaration "local" v ++ "\n") ++ ")"

end Func

end Codegen.Wasm
