import Codegen.Ir.Block

namespace Codegen.Ir

/-- A parameter, known by its key. -/
structure Param where
  key : Key
  type : Ty
  deriving DecidableEq, Repr

def Param.value (p : Param) : Value :=
  .param p.key p.type

structure Function where
  name : String
  returnType : Ty
  params : List Param := []
  blocks : List Block := []

/-- The element of a list that is the first to repeat an earlier one, where `seen` holds those
before the list. -/
def firstRepeatedAfter (seen : List String) : List String → Option String
  | [] => none
  | name :: rest => if seen.contains name then some name else firstRepeatedAfter (name :: seen) rest

/-- The element of a list that is the first to repeat an earlier one. -/
def firstRepeated (names : List String) : Option String :=
  firstRepeatedAfter [] names

namespace Naming

/-- Numbers the unassigned identities among `keys`, in order, from `number` on. -/
def numberFrom (n : Naming) (number : Nat) : List Key → Except IrError Naming
  | [] => .ok n
  | key :: rest =>
    if n.isAssigned key then n.numberFrom number rest
    else do (← n.setNumber key number).numberFrom (number + 1) rest

end Naming

namespace Function

/-- Adds a parameter; an empty name leaves it to numbering. -/
def addParam (f : Function) (name : String) (type : Ty) (n : Naming) : Value × Function × Naming :=
  let (key, n) := n.fresh (Spelling.ofName? name)
  let p : Param := { key, type }
  (p.value, { f with params := f.params ++ [p] }, n)

def addBlock (f : Function) (b : Block) : Function :=
  { f with blocks := f.blocks ++ [b] }

/-- Keys in printing order: parameters, then each block's label and results. They share one
namespace. -/
def keys (f : Function) : List Key :=
  f.params.map Param.key ++ f.blocks.flatMap Block.keys

/-- The names among the identities of a function, in printing order. -/
def localNames (f : Function) (n : Naming) : List String :=
  f.keys.filterMap n.name?

/-- Numbers every unassigned identity from zero in printing order and keeps the assigned ones. A
name that two identities share is refused before anything is numbered. -/
def assignNumbers (f : Function) (n : Naming) : Except IrError Naming :=
  match firstRepeated (f.localNames n) with
  | some name => .error (.duplicateLocal f.name name)
  | none => n.numberFrom 0 f.keys

/-- The line that opens the definition. -/
def signature (n : Naming) (f : Function) : String :=
  "define " ++ f.returnType.text ++ " @" ++ quoteName f.name ++ "(" ++
    ", ".intercalate (f.params.map fun p => p.value.text n) ++ ") \x7b"

/-- The definition, its blocks separated by blank lines. -/
def text (n : Naming) (f : Function) : String :=
  f.signature n ++ "\n" ++ "\n".intercalate (f.blocks.map (Block.text n)) ++ "\x7d\n"

end Function

end Codegen.Ir
