namespace Codegen.Wasm

/-- Where a name is declared. -/
inductive Scope where
  /-- The text as a whole, which names its one module. -/
  | document
  /-- A module, which names its functions. -/
  | module (name : String)
  /-- A function, which names its parameters and locals. -/
  | func (name : String)
  deriving DecidableEq, Repr

def Scope.text : Scope → String
  | .document => "module"
  | .module name => "module $" ++ name
  | .func name => "func $" ++ name

/-- What is wrong with a name. -/
inductive NameError where
  | duplicate (scope : Scope) (name : String)
  | empty (scope : Scope)
  | invalid (scope : Scope) (name : String)
  deriving DecidableEq, Repr

/-- The wording of each error. -/
def NameError.message : NameError → String
  | .duplicate scope name => "duplicate name $" ++ name ++ " in " ++ scope.text
  | .empty scope => "empty name in " ++ scope.text
  | .invalid scope name => "invalid character in name $" ++ name ++ " in " ++ scope.text

/-- Characters of an identifier. -/
def isIdChar (c : Char) : Bool :=
  c.isAlphanum || "!#$%&'*+-./:<=>?@\\^_`|~".toList.contains c

/-- A name has to be a non-empty sequence of identifier characters. -/
def checkName (scope : Scope) (name : String) : Except NameError Unit :=
  if name.isEmpty then .error (.empty scope)
  else if name.toList.all isIdChar then .ok ()
  else .error (.invalid scope name)

/-- Each name in turn has to be well-formed and none of `seen` or those before it. -/
def checkNames (scope : Scope) (seen : List String) : List String → Except NameError Unit
  | [] => .ok ()
  | name :: rest => do
    checkName scope name
    if seen.contains name then throw (.duplicate scope name)
    checkNames scope (name :: seen) rest

end Codegen.Wasm
