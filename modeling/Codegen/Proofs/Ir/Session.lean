import Codegen.Program
import Codegen.Proofs.Ir.Numbering

namespace Codegen.Ir

/-- The draft of an operation, with the check that the operation calls for. -/
def Draft.checked : Operation Value → Except IrError Draft
  | .extractValue x path => extractValue x path
  | .insertValue x elem path => insertValue x elem path
  | .extractElement x index => extractElement x index
  | .insertElement x elem index => insertElement x elem index
  | .shuffleVector x y mask => shuffleVector x y mask

theorem Draft.ofOperation_eq_ok {operation : Operation Value} {d : Draft}
    (h : ofOperation operation = .ok d) :
    operation.resultType = .ok d.type ∧ d = { operation, type := d.type } := by
  unfold ofOperation at h
  cases htype : operation.resultType with
  | error e =>
    rw [htype] at h
    cases h
  | ok type =>
    rw [htype] at h
    cases h
    exact ⟨rfl, rfl⟩

/-- A check refuses operations and changes nothing about those it lets pass. -/
theorem Draft.ofOperation_of_checked {operation : Operation Value} {d : Draft}
    (h : checked operation = .ok d) : ofOperation operation = .ok d := by
  cases operation with
  | extractValue x path => exact h
  | insertValue x elem path =>
    simp only [checked, insertValue] at h
    cases hexpected : x.type.resolve path with
    | error e =>
      rw [hexpected] at h
      cases h
    | ok expected =>
      rw [hexpected] at h
      change (if expected = elem.type then _ else _) = _ at h
      split at h
      · exact h
      · cases h
  | extractElement x index => exact h
  | insertElement x elem index => exact h
  | shuffleVector x y mask => exact h

/-- Operations are drafted without a name. -/
theorem Draft.spelling_checked {operation : Operation Value} {d : Draft}
    (h : checked operation = .ok d) : d.spelling = none := by
  rw [(ofOperation_eq_ok (ofOperation_of_checked h)).2]

/-- What a caller holds: the naming, the blocks and functions it has not placed yet, and the
module. -/
structure Session where
  naming : Naming := {}
  blocks : List Block := []
  functions : List Function := []
  module : Module

/-- Calls. Blocks and functions are given by their positions in the session. -/
inductive Call where
  | constant (constant : Constant)
  /-- An instruction that stays outside of every block. -/
  | loose (draft : Draft)
  | block (name : Option String)
  | append (block : Nat) (draft : Draft)
  | build (block : Nat) (operation : Operation Value)
  | terminate (block : Nat) (terminator : Terminator)
  | function (name : String) (returnType : Ty)
  | param (function : Nat) (name : String) (type : Ty)
  | addBlock (function block : Nat)
  | addFunction (function : Nat)
  | setName (key : Key) (name : String)
  | setNumber (key : Key) (number : Nat)
  /-- A numbering pass over one function, placed in the module or not. -/
  | assignNumbers (function : Nat)
  | emit (withHeader : Bool)
  | compile (wasm : Wasm.Module) (options : Options)

namespace Session

/-- A session that holds an empty module only. -/
def start (name : String) : Session :=
  { module := { name } }

/-- Functions not placed yet, then those of the module. -/
def allFunctions (s : Session) : List Function :=
  s.functions ++ s.module.functions

/-- Changes one block, unless there is none or the change fails. -/
def updateBlock (s : Session) (i : Nat) (change : Block → Option (Block × Naming)) : Session :=
  match s.blocks[i]?.bind change with
  | some (b, n) => { s with naming := n, blocks := s.blocks.set i b }
  | none => s

/-- Gives a spelling to an identity that exists, unless it has one. -/
def respell (s : Session) (key : Key) (result : Except IrError Naming) : Session :=
  if key.index < s.naming.next then { s with naming := result.toOption.getD s.naming } else s

/-- The session after a call. A call that fails leaves the session as it was, except that printing
keeps the numbers it gave before it failed. -/
def exec (s : Session) : Call → Session
  | .constant c => { s with naming := (Value.ofConstant s.naming c).2 }
  | .loose d => { s with naming := (d.place s.naming).2 }
  | .block name =>
    let (b, n) := (name.map (Block.named s.naming)).getD (Block.unnamed s.naming)
    { s with naming := n, blocks := s.blocks ++ [b] }
  | .append i d => s.updateBlock i fun b => some (b.append d s.naming).2
  | .build i operation => s.updateBlock i fun b =>
      (b.build (Draft.checked operation) s.naming).toOption.map Prod.snd
  | .terminate i t => s.updateBlock i fun b => some (b.setTerminator t, s.naming)
  | .function name returnType => { s with functions := s.functions ++ [{ name, returnType }] }
  | .param i name type =>
    match s.functions[i]? with
    | some f =>
      let (_, f, n) := f.addParam name type s.naming
      { s with naming := n, functions := s.functions.set i f }
    | none => s
  | .addBlock i j =>
    match s.functions[i]?, s.blocks[j]? with
    | some f, some b =>
      { s with blocks := s.blocks.eraseIdx j, functions := s.functions.set i (f.addBlock b) }
    | _, _ => s
  | .addFunction i =>
    match s.functions[i]? with
    | some f => { s with functions := s.functions.eraseIdx i, module := s.module.addFunction f }
    | none => s
  | .setName key name => s.respell key (s.naming.setName key name)
  | .setNumber key number => s.respell key (s.naming.setNumber key number)
  | .assignNumbers i =>
    match s.allFunctions[i]? with
    | some f => { s with naming := (f.assignNumbers s.naming).toOption.getD s.naming }
    | none => s
  | .emit withHeader => { s with naming := (s.module.emit withHeader s.naming).2 }
  | .compile wasm options =>
    { s with naming := (Program.compile ⟨s.module.name, s.module, wasm⟩ options s.naming).2 }

/-- The session after several calls. -/
def run (s : Session) (calls : List Call) : Session :=
  calls.foldl exec s

theorem updateBlock_cases (s : Session) (i : Nat) (change : Block → Option (Block × Naming)) :
    s.updateBlock i change = s ∨ ∃ b b' n, s.blocks[i]? = some b ∧ change b = some (b', n) ∧
      s.updateBlock i change = { s with naming := n, blocks := s.blocks.set i b' } := by
  unfold updateBlock
  split
  · next b' n hchange =>
    obtain ⟨b, hb, hb'⟩ := Option.bind_eq_some_iff.mp hchange
    exact .inr ⟨b, b', n, hb, hb', rfl⟩
  · exact .inl rfl

theorem respell_cases (s : Session) (key : Key) (result : Except IrError Naming) :
    s.respell key result = s ∨ key.index < s.naming.next ∧
      s.respell key result = { s with naming := result.toOption.getD s.naming } := by
  unfold respell
  split
  · next hkey => exact .inr ⟨hkey, rfl⟩
  · exact .inl rfl

end Session

end Codegen.Ir
