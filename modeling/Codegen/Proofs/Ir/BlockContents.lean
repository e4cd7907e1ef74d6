import Codegen.Proofs.Ir.Session

namespace Codegen.Ir

namespace Block

/-- Calls on a block. -/
inductive Call where
  | append (draft : Draft)
  /-- One of the calls that check an operation and append it. -/
  | build (operation : Operation Value)
  | setTerminator (terminator : Terminator)

/-- What a call gives back. -/
inductive Answer where
  /-- The value of a new instruction. -/
  | handle (value : Value)
  | done
  | refused (e : IrError)

def Answer.handle? : Answer → Option Value
  | .handle value => some value
  | .done | .refused _ => none

/-- Checks an operation and appends it. -/
def perform (b : Block) (operation : Operation Value) (n : Naming) :
    Except IrError (Value × Block × Naming) :=
  match operation with
  | .extractValue x path => b.extractValue x path n
  | .insertValue x elem path => b.insertValue x elem path n
  | .extractElement x index => b.extractElement x index n
  | .insertElement x elem index => b.insertElement x elem index n
  | .shuffleVector x y mask => b.shuffleVector x y mask n

/-- The block and the naming after a call, and what the call gives back. After a call that fails the
caller goes on with what it had. -/
def exec (b : Block) (n : Naming) : Call → Block × Naming × Answer
  | .append d =>
    let (i, b, n) := b.append d n
    (b, n, .handle i.value)
  | .build operation =>
    match b.perform operation n with
    | .ok (value, b, n) => (b, n, .handle value)
    | .error e => (b, n, .refused e)
  | .setTerminator t => (b.setTerminator t, n, .done)

/-- The block after several calls, and what each of them gives back. Every call comes with the
naming that it finds, since other things are named between the calls. -/
def run (b : Block) : List (Naming × Call) → Block × List Answer
  | [] => (b, [])
  | (n, call) :: rest =>
    let (b, _, answer) := b.exec n call
    let (b, answers) := b.run rest
    (b, answer :: answers)

/-- The instruction that a call makes: what was drafted, or an operation that passes its check,
under the next unused key. -/
def Call.made? (n : Naming) : Call → Option Instruction
  | .append d => some ⟨⟨n.next⟩, d.operation, d.type, d.metadata⟩
  | .build operation =>
    (Draft.checked operation).toOption.map fun d => ⟨⟨n.next⟩, operation, d.type, []⟩
  | .setTerminator _ => none

def Call.terminator? : Call → Option Terminator
  | .setTerminator t => some t
  | .append _ | .build _ => none

/-- The instructions that calls make, in the order of the calls. -/
def made (calls : List (Naming × Call)) : List Instruction :=
  calls.filterMap fun found => found.2.made? found.1

/-- The terminators that calls set, in the order of the calls. -/
def terminators (calls : List (Naming × Call)) : List Terminator :=
  calls.filterMap fun found => found.2.terminator?

/-- What calls do to a block, told from the calls alone. -/
structure Shows (b : Block) (calls : List (Naming × Call)) (after : Block)
    (answers : List Answer) : Prop where
  key : after.key = b.key
  instructions : after.instructions = b.instructions ++ made calls
  terminator : after.terminator = (terminators calls).getLast?.or b.terminator
  handles : answers.filterMap Answer.handle? = (made calls).map Instruction.value

theorem Shows.trans {b b' b'' : Block} {calls calls' : List (Naming × Call)}
    {answers answers' : List Answer} (h : b.Shows calls b' answers)
    (h' : b'.Shows calls' b'' answers') : b.Shows (calls ++ calls') b'' (answers ++ answers') := by
  have hmade : made (calls ++ calls') = made calls ++ made calls' := List.filterMap_append
  have hterminators : terminators (calls ++ calls') = terminators calls ++ terminators calls' :=
    List.filterMap_append
  constructor
  · rw [h'.key, h.key]
  · rw [h'.instructions, h.instructions, hmade, List.append_assoc]
  · rw [h'.terminator, h.terminator, hterminators, List.getLast?_append, Option.or_assoc]
  · rw [List.filterMap_append, h.handles, h'.handles, hmade, List.map_append]

end Block

end Codegen.Ir
