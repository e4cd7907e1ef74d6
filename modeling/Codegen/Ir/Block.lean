import Codegen.Ir.Instruction

namespace Codegen.Ir

/-- How a block ends. -/
inductive Terminator where
  /-- Returns a value, or nothing. -/
  | ret (value : Option Value)
  | unreachable

def Terminator.text (n : Naming) : Terminator → String
  | .ret (some value) => "ret " ++ value.text n
  | .ret none => "ret void"
  | .unreachable => "unreachable"

/-- A sequence of instructions without branches. The terminator may be set later, or never. -/
structure Block where
  key : Key
  instructions : List Instruction := []
  terminator : Option Terminator := none

namespace Block

/-- An empty block, labelled by a name; an empty name leaves the label to numbering. -/
def named (n : Naming) (name : String) : Block × Naming :=
  let (key, n) := n.fresh (Spelling.ofName? name)
  ({ key }, n)

/-- An empty block whose label is left to numbering. -/
def unnamed (n : Naming) : Block × Naming :=
  let (key, n) := n.fresh none
  ({ key }, n)

/-- Places a draft at the end of the block. -/
def append (b : Block) (d : Draft) (n : Naming) : Instruction × Block × Naming :=
  let (i, n) := d.place n
  (i, { b with instructions := b.instructions ++ [i] }, n)

/-- Places what was drafted at the end of the block, unless drafting failed. -/
def build (b : Block) (draft : Except IrError Draft) (n : Naming) :
    Except IrError (Value × Block × Naming) := do
  let (i, b, n) := b.append (← draft) n
  return (i.value, b, n)

def extractValue (b : Block) (x : Value) (path : Path) (n : Naming) :
    Except IrError (Value × Block × Naming) :=
  b.build (Draft.extractValue x path) n

def insertValue (b : Block) (x elem : Value) (path : Path) (n : Naming) :
    Except IrError (Value × Block × Naming) :=
  b.build (Draft.insertValue x elem path) n

def extractElement (b : Block) (x index : Value) (n : Naming) :
    Except IrError (Value × Block × Naming) :=
  b.build (Draft.extractElement x index) n

def insertElement (b : Block) (x elem index : Value) (n : Naming) :
    Except IrError (Value × Block × Naming) :=
  b.build (Draft.insertElement x elem index) n

def shuffleVector (b : Block) (x y mask : Value) (n : Naming) :
    Except IrError (Value × Block × Naming) :=
  b.build (Draft.shuffleVector x y mask) n

/-- Sets the terminator, instead of the one set before. -/
def setTerminator (b : Block) (t : Terminator) : Block :=
  { b with terminator := some t }

/-- Keys in printing order: the label, then each result. -/
def keys (b : Block) : List Key :=
  b.key :: b.instructions.map Instruction.key

/-- Lines of a block after its label. -/
def body (n : Naming) (b : Block) : List String :=
  b.instructions.map (Instruction.line n) ++ (b.terminator.map (Terminator.text n)).toList

/-- The label line, then the others behind a margin. -/
def text (n : Naming) (b : Block) : String :=
  n.label b.key ++ ":\n" ++ String.join ((b.body n).map fun line => "  " ++ line ++ "\n")

end Block

end Codegen.Ir
