import Codegen.Ir.Error

namespace Codegen.Ir

/-- Key of a value or a block. No two of them share one. -/
structure Key where
  index : Nat
  deriving DecidableEq, Repr

/-- The next unused key and the spellings given so far. Values and blocks carry keys into this
table, so that a spelling given once shows wherever its owner is used. -/
structure Naming where
  next : Nat := 0
  entries : List (Key × Spelling) := []
  deriving Repr, Inhabited

namespace Naming

/-- Text in place of a spelling that is not given yet. -/
def unassignedLabel : String := "<unassigned>"

/-- The spelling of an identity, if it has one. -/
def spelling? (n : Naming) (key : Key) : Option Spelling :=
  n.entries.lookup key

def isAssigned (n : Naming) (key : Key) : Bool :=
  (n.spelling? key).isSome

def name? (n : Naming) (key : Key) : Option String :=
  (n.spelling? key).bind Spelling.name?

def number? (n : Naming) (key : Key) : Option Nat :=
  (n.spelling? key).bind Spelling.number?

/-- The identity as a block label. -/
def label (n : Naming) (key : Key) : String :=
  match n.spelling? key with
  | some s => s.label
  | none => unassignedLabel

/-- The identity as an operand. -/
def ident (n : Naming) (key : Key) : String :=
  "%" ++ n.label key

/-- A new key, spelled from the start if a spelling is at hand. -/
def fresh (n : Naming) (spelling : Option Spelling) : Key × Naming :=
  let key : Key := ⟨n.next⟩
  (key, ⟨n.next + 1, (spelling.map (key, ·)).toList ++ n.entries⟩)

/-- Gives an identity its spelling; it must not have one. -/
def assign (n : Naming) (key : Key) (spelling : Spelling) : Except IrError Naming :=
  match n.spelling? key with
  | some existing => .error (.alreadySpelled existing)
  | none => .ok { n with entries := (key, spelling) :: n.entries }

/-- Names an identity. An empty name changes nothing. -/
def setName (n : Naming) (key : Key) (name : String) : Except IrError Naming :=
  match Spelling.ofName? name with
  | some spelling => n.assign key spelling
  | none => .ok n

/-- Numbers an identity. -/
def setNumber (n : Naming) (key : Key) (number : Nat) : Except IrError Naming :=
  n.assign key (.number number)

end Naming

end Codegen.Ir
