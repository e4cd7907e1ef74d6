import Codegen.Proofs.Basic
import Codegen.Proofs.Ir.Identities

namespace Codegen.Ir

/-- The types on record, by the keys of the instructions. -/
abbrev Cells := List (Key × Ty)

/-- The type of a value. That of a result is the one on record; if there is none, it is computed
from the types of the operands. -/
def Value.typeFrom (cells : Cells) : Value → Except IrError Ty
  | .param _ type => .ok type
  | .const _ constant => .ok constant.type
  | .result key operation _ _ =>
    match cells.lookup key with
    | some type => .ok type
    | none =>
      match operation with
      | .extractValue x path => do (← x.typeFrom cells).resolve path
      | .insertValue x _ _ | .insertElement x _ _ => x.typeFrom cells
      | .extractElement x _ => do
        let (_, elem) ← (← x.typeFrom cells).vectorParts
        return elem
      | .shuffleVector x _ mask => do
        let (_, elem) ← (← x.typeFrom cells).vectorParts
        let (len, _) ← (← mask.typeFrom cells).vectorParts
        return .vector len elem
termination_by structural v => v

/-- The type of a value, computed from the leaves up. -/
abbrev Value.computedType (v : Value) : Except IrError Ty :=
  v.typeFrom []

/-- The instructions that a value is computed by: its own, and those of the operands. -/
inductive Value.Reaches : Value → Instruction → Prop
  | self {key : Key} {operation : Operation Value} {type : Ty} {metadata : List Metadata} :
    Reaches (.result key operation type metadata) ⟨key, operation, type, metadata⟩
  | operand {key : Key} {operation : Operation Value} {type : Ty} {metadata : List Metadata}
    {v : Value} {i : Instruction} (hv : v ∈ operation.operands) (hi : v.Reaches i) :
    Reaches (.result key operation type metadata) i

section Printing

variable (cells : Cells) (n : Naming)

/-- The value as an operand, behind its type, if it has one. -/
def Value.display (v : Value) : Except IrError String := do
  return (← v.typeFrom cells).text ++ " " ++ v.ident n

/-- The line of an instruction, if the operands have types. -/
def Instruction.displayLine (i : Instruction) : Except IrError String := do
  let operands ← i.operation.operands.mapM (Value.display cells n)
  return n.ident i.key ++ " = " ++ i.operation.opcode ++ " " ++ ", ".intercalate (operands ++
    i.operation.indices.map (fun index => Nat.repr index.toNat) ++ i.metadata.map Metadata.text)

def Terminator.display : Terminator → Except IrError String
  | .ret (some value) => do return "ret " ++ (← value.display cells n)
  | .ret none => return "ret void"
  | .unreachable => return "unreachable"

def Block.display (b : Block) : Except IrError String := do
  let instructions ← b.instructions.mapM (Instruction.displayLine cells n)
  let terminator ← b.terminator.toList.mapM (Terminator.display cells n)
  return n.label b.key ++ ":\n" ++
    String.join ((instructions ++ terminator).map fun line => "  " ++ line ++ "\n")

/-- The text of a function, if all values in it have types. -/
def Function.display (f : Function) : Except IrError String := do
  let params ← f.params.mapM fun p => p.value.display cells n
  let blocks ← f.blocks.mapM (Block.display cells n)
  return "define " ++ f.returnType.text ++ " @" ++ quoteName f.name ++ "(" ++
    ", ".intercalate params ++ ") \x7b" ++ "\n" ++ "\n".intercalate blocks ++ "\x7d\n"

end Printing

/-- What may be done to an instruction before it is placed. -/
inductive Draft.Change where
  | name (name : String)
  | metadata (metadata : Metadata)

def Draft.change (d : Draft) : Draft.Change → Draft
  | .name name => d.withName name
  | .metadata metadata => d.withMetadata metadata

/-- An operation on other operands, unless one of them is missing. -/
def Operation.mapM? {α β : Type} (g : α → Option β) : Operation α → Option (Operation β)
  | .extractValue x path => do return .extractValue (← g x) path
  | .insertValue x elem path => do return .insertValue (← g x) (← g elem) path
  | .extractElement x index => do return .extractElement (← g x) (← g index)
  | .insertElement x elem index => do return .insertElement (← g x) (← g elem) (← g index)
  | .shuffleVector x y mask => do return .shuffleVector (← g x) (← g y) (← g mask)

/-- The calls that make a value. -/
inductive Making where
  /-- A parameter for a function. -/
  | param (function : Function) (name : String) (type : Ty)
  | const (constant : Constant)
  /-- An instruction on values made before, which are given by their positions. -/
  | instruction (operation : Operation Nat) (changes : List Draft.Change)

/-- The values made so far, with the types on record. -/
structure Stock where
  naming : Naming := {}
  cells : Cells := []
  values : List Value := []

namespace Stock

/-- Places an instruction and puts its type on record. -/
def place (s : Stock) (d : Draft) : Stock :=
  let (i, n) := d.place s.naming
  let cell := (i.value.typeFrom s.cells).toOption.map fun type => (i.key, type)
  { naming := n, cells := cell.toList ++ s.cells, values := s.values ++ [i.value] }

/-- The values after a call. A call that fails makes none. -/
def make (s : Stock) : Making → Stock
  | .param function name type =>
    let (v, _, n) := function.addParam name type s.naming
    { s with naming := n, values := s.values ++ [v] }
  | .const constant =>
    let (v, n) := Value.ofConstant s.naming constant
    { s with naming := n, values := s.values ++ [v] }
  | .instruction operation changes =>
    match operation.mapM? (s.values[·]?) with
    | some operation =>
      match Draft.checked operation with
      | .ok d => s.place (changes.foldl Draft.change d)
      | .error _ => s
    | none => s

def makeAll (s : Stock) (makings : List Making) : Stock :=
  makings.foldl make s

end Stock

section Types

variable {cells : Cells} {key : Key} {operation : Operation Value} {type : Ty}
  {metadata : List Metadata}

theorem Value.typeFrom_of_lookup (hcell : cells.lookup key = some type) :
    (Value.result key operation type metadata).typeFrom cells = .ok type := by
  cases operation <;> simp only [typeFrom, hcell]

/-- A type that is not on record is the one that the operation gives. -/
theorem Value.typeFrom_of_operands (hcell : cells.lookup key = none)
    (hoperands : ∀ x ∈ operation.operands, x.typeFrom cells = .ok x.type) :
    (Value.result key operation type metadata).typeFrom cells = operation.resultType := by
  cases operation <;>
    simp only [Operation.operands, List.forall_mem_cons] at hoperands <;>
    simp only [typeFrom, hcell, hoperands, Operation.resultType] <;> rfl

theorem Operation.exists_of_mem_mapM? {α β : Type} {g : α → Option β} {operation : Operation α}
    {mapped : Operation β} (h : operation.mapM? g = some mapped) :
    ∀ y ∈ mapped.operands, ∃ x, g x = some y := by
  cases operation <;>
    simp only [mapM?, bind, pure, Option.bind_eq_some_iff, Option.some.injEq] at h <;>
    grind [operands]

theorem Draft.foldl_change (d : Draft) (changes : List Draft.Change) :
    (changes.foldl Draft.change d).operation = d.operation ∧
      (changes.foldl Draft.change d).type = d.type := by
  induction changes generalizing d with
  | nil => exact ⟨rfl, rfl⟩
  | cons change changes ih =>
    obtain ⟨hoperation, htype⟩ := ih (d.change change)
    rw [List.foldl_cons, hoperation, htype]
    cases change <;> exact ⟨rfl, rfl⟩

end Types

section Printing

variable {cells : Cells}

/-- Asking for a type gives the one that the value was made with. -/
def Value.Answers (cells : Cells) (v : Value) : Prop :=
  v.typeFrom cells = .ok v.type

theorem Value.Answers.display {v : Value} (hv : v.Answers cells) (n : Naming) :
    v.display cells n = .ok (v.text n) := by
  rw [Value.display, hv]
  rfl

theorem Instruction.displayLine_eq (n : Naming) {i : Instruction}
    (hoperands : ∀ v ∈ i.operation.operands, v.Answers cells) :
    i.displayLine cells n = .ok (i.line n) := by
  rw [displayLine, mapM_eq_ok fun v hv => (hoperands v hv).display n]
  rfl

theorem Terminator.display_eq (n : Naming) {t : Terminator}
    (hoperands : ∀ v ∈ t.operands, v.Answers cells) : t.display cells n = .ok (t.text n) := by
  cases t with
  | ret value =>
    cases value with
    | none => rfl
    | some v =>
      rw [display, (hoperands v List.mem_cons_self).display n]
      rfl
  | unreachable => rfl

theorem Block.display_eq (n : Naming) {b : Block}
    (hinstructions : ∀ i ∈ b.instructions, ∀ v ∈ i.operation.operands, v.Answers cells)
    (hterminator : ∀ t ∈ b.terminator, ∀ v ∈ t.operands, v.Answers cells) :
    b.display cells n = .ok (b.text n) := by
  have hlines := mapM_eq_ok fun i hi => Instruction.displayLine_eq n (hinstructions i hi)
  have hlast := mapM_eq_ok fun t (ht : t ∈ b.terminator.toList) =>
    Terminator.display_eq n (hterminator t (by simpa using ht))
  rw [display, hlines, hlast, text, body, Option.toList_map]
  rfl

theorem Function.display_eq (n : Naming) {f : Function}
    (hblocks : ∀ b ∈ f.blocks, b.display cells n = .ok (b.text n)) :
    f.display cells n = .ok (f.text n) := by
  have hparams : f.params.mapM (fun p => p.value.display cells n) =
      .ok (f.params.map fun p => p.value.text n) :=
    mapM_eq_ok fun p _ => Value.Answers.display (v := p.value) rfl n
  rw [display, hparams, mapM_eq_ok hblocks]
  rfl

end Printing

/-- The instructions of a block and what its terminator uses are among the values. -/
def Block.MadeOf (values : List Value) (b : Block) : Prop :=
  (∀ i ∈ b.instructions, i.value ∈ values) ∧ ∀ t ∈ b.terminator, ∀ v ∈ t.operands, v ∈ values

def Function.MadeOf (values : List Value) (f : Function) : Prop :=
  ∀ b ∈ f.blocks, b.MadeOf values

namespace Stock

variable {s s' : Stock} {i : Instruction}

/-- The type of an instruction is the one that its operation gives, it is on record, and it comes
out when it is computed again. -/
structure Settled (s : Stock) (i : Instruction) : Prop where
  allocated : i.key.index < s.naming.next
  given : i.operation.resultType = .ok i.type
  recorded : s.cells.lookup i.key = some i.type
  computed : i.value.computedType = .ok i.type

/-- Every instruction that was used is settled, and nothing is on record for keys not handed out. -/
structure Coherent (s : Stock) : Prop where
  unused : ∀ key : Key, s.naming.next ≤ key.index → s.cells.lookup key = none
  settled : ∀ v ∈ s.values, ∀ i, v.Reaches i → s.Settled i

theorem coherent_empty : Coherent {} := by
  refine ⟨fun _ _ => rfl, ?_⟩
  intro v hv
  cases hv

/-- A value that is computed by settled instructions has the type it was made with. -/
theorem typeFrom_eq_of_settled {v : Value} (hv : ∀ i, v.Reaches i → s.Settled i) :
    v.typeFrom s.cells = .ok v.type := by
  cases v with
  | param key type => rfl
  | const key constant => rfl
  | result key operation type metadata => exact Value.typeFrom_of_lookup (hv _ .self).recorded

theorem computedType_eq_of_settled {v : Value} (hv : ∀ i, v.Reaches i → s.Settled i) :
    v.computedType = .ok v.type := by
  cases v with
  | param key type => rfl
  | const key constant => rfl
  | result key operation type metadata => exact (hv _ .self).computed

/-- A new key, with or without a type on record for it, leaves settled what was settled. -/
theorem Settled.mono (hi : s.Settled i) (hnext : s.naming.next ≤ s'.naming.next)
    (hcells : ∀ key : Key, key.index < s.naming.next →
      s'.cells.lookup key = s.cells.lookup key) : s'.Settled i :=
  ⟨Nat.lt_of_lt_of_le hi.allocated hnext, hi.given,
    (hcells i.key hi.allocated).trans hi.recorded, hi.computed⟩

/-- A new value that is no result. -/
theorem Coherent.add_leaf (hs : s.Coherent) {v : Value} (hv : ∀ i, ¬ v.Reaches i)
    (spelling : Option Spelling) :
    Coherent { s with naming := (s.naming.fresh spelling).2, values := s.values ++ [v] } := by
  have hnext : s.naming.next ≤ (s.naming.fresh spelling).2.next := by
    rw [Naming.next_fresh]
    omega
  refine ⟨fun key hkey => hs.unused key (Nat.le_trans hnext hkey), ?_⟩
  intro w hw i hi
  rcases List.mem_append.mp hw with hold | hnew
  · exact (hs.settled w hold i hi).mono hnext fun _ _ => rfl
  · rw [List.mem_singleton.mp hnew] at hi
    exact absurd hi (hv i)

/-- A new instruction on values at hand whose type is the one that its operation gives. -/
theorem Coherent.place (hs : s.Coherent) {d : Draft} (htype : d.operation.resultType = .ok d.type)
    (hoperands : ∀ x ∈ d.operation.operands, x ∈ s.values) : (s.place d).Coherent := by
  have hfresh : s.cells.lookup ⟨s.naming.next⟩ = none := hs.unused _ (Nat.le_refl _)
  have hasked : (Value.result ⟨s.naming.next⟩ d.operation d.type d.metadata).typeFrom s.cells =
      .ok d.type :=
    (Value.typeFrom_of_operands hfresh fun x hx =>
      typeFrom_eq_of_settled (hs.settled x (hoperands x hx))).trans htype
  have hcomputed : (Value.result ⟨s.naming.next⟩ d.operation d.type d.metadata).computedType =
      .ok d.type :=
    (Value.typeFrom_of_operands rfl fun x hx =>
      computedType_eq_of_settled (hs.settled x (hoperands x hx))).trans htype
  have hcells : (s.place d).cells = (⟨s.naming.next⟩, d.type) :: s.cells := by
    simp [Stock.place, Draft.place, Naming.fresh, Instruction.value, hasked, Except.toOption]
  have hnext : (s.place d).naming.next = s.naming.next + 1 := rfl
  have hkept (key : Key) (hkey : key ≠ ⟨s.naming.next⟩) :
      (s.place d).cells.lookup key = s.cells.lookup key := by
    rw [hcells, Naming.lookup_cons, if_neg hkey]
  have hmono {j : Instruction} (hj : s.Settled j) : (s.place d).Settled j := by
    refine hj.mono (by omega) fun key hkey => hkept key ?_
    rintro rfl
    exact absurd hkey (Nat.lt_irrefl _)
  refine ⟨?_, ?_⟩
  · intro key hkey
    rw [hkept key ?_]
    · exact hs.unused key (by omega)
    · rintro rfl
      rw [hnext] at hkey
      exact absurd hkey (Nat.not_succ_le_self _)
  · intro v hv j hj
    rcases List.mem_append.mp hv with hold | hnew
    · exact hmono (hs.settled v hold j hj)
    · rw [List.mem_singleton.mp hnew] at hj
      cases hj with
      | self =>
        refine ⟨by simp [hnext], htype, ?_, hcomputed⟩
        rw [hcells]
        exact (Naming.lookup_cons _ _ _ _).trans (if_pos rfl)
      | operand hx hj => exact hmono (hs.settled _ (hoperands _ hx) j hj)

/-- What every call keeps. -/
theorem Coherent.make (hs : s.Coherent) (making : Making) : (s.make making).Coherent := by
  cases making with
  | param function name type =>
    have hleaf (i : Instruction) : ¬ (Value.param ⟨s.naming.next⟩ type).Reaches i := nofun
    exact hs.add_leaf hleaf (Spelling.ofName? name)
  | const constant =>
    have hleaf (i : Instruction) : ¬ (Value.const ⟨s.naming.next⟩ constant).Reaches i := nofun
    exact hs.add_leaf hleaf none
  | instruction operation changes =>
    simp only [Stock.make]
    split
    · next operation hoperation =>
      split
      · next d hd =>
        obtain ⟨htype, hd⟩ := Draft.ofOperation_eq_ok (Draft.ofOperation_of_checked hd)
        obtain ⟨hchanged, htype'⟩ := d.foldl_change changes
        have hsame : d.operation = operation := by rw [hd]
        rw [hsame] at hchanged
        refine hs.place (by rw [hchanged, htype', htype]) ?_
        rw [hchanged]
        intro x hx
        obtain ⟨position, hposition⟩ := Operation.exists_of_mem_mapM? hoperation x hx
        exact List.mem_of_getElem? hposition
      · exact hs
    · exact hs

theorem Coherent.makeAll (hs : s.Coherent) (makings : List Making) :
    (s.makeAll makings).Coherent := by
  induction makings generalizing s with
  | nil => exact hs
  | cons making makings ih => exact ih (hs.make making)

theorem Coherent.answers (hs : s.Coherent) {v : Value} (hv : v ∈ s.values) : v.Answers s.cells :=
  typeFrom_eq_of_settled (hs.settled v hv)

theorem Coherent.operand_answers (hs : s.Coherent) (hi : i.value ∈ s.values) {v : Value}
    (hv : v ∈ i.operation.operands) : v.Answers s.cells :=
  typeFrom_eq_of_settled fun _ hj => hs.settled i.value hi _ (.operand hv hj)

theorem Coherent.display_block (hs : s.Coherent) (n : Naming) {b : Block}
    (hb : b.MadeOf s.values) : b.display s.cells n = .ok (b.text n) :=
  b.display_eq n (fun i hi _ hv => hs.operand_answers (hb.1 i hi) hv)
    fun t ht v hv => hs.answers (hb.2 t ht v hv)

/-- Whatever values a caller makes, the type of every instruction they are computed by is on record,
asking for the type of a value gives what comes out when all types are computed again, and printing
never meets a value without a type. -/
theorem makeAll_types_on_record (makings : List Making) :
    let s := makeAll {} makings
    (∀ v ∈ s.values,
      (∀ i, v.Reaches i → s.cells.lookup i.key = some i.type ∧ i.isTyped = true ∧
        i.value.computedType = .ok i.type) ∧
      v.typeFrom s.cells = .ok v.type ∧ v.computedType = .ok v.type) ∧
    ∀ n : Naming,
      (∀ v ∈ s.values, v.display s.cells n = .ok (v.text n)) ∧
      (∀ i : Instruction, i.value ∈ s.values → i.displayLine s.cells n = .ok (i.line n)) ∧
      (∀ t : Terminator, (∀ v ∈ t.operands, v ∈ s.values) →
        t.display s.cells n = .ok (t.text n)) ∧
      (∀ b : Block, b.MadeOf s.values → b.display s.cells n = .ok (b.text n)) ∧
      ∀ f : Function, f.MadeOf s.values → f.display s.cells n = .ok (f.text n) := by
  intro s
  have hs : s.Coherent := coherent_empty.makeAll makings
  refine ⟨?_, fun n => ⟨?_, ?_, ?_, ?_, ?_⟩⟩
  · intro v hv
    refine ⟨?_, hs.answers hv, computedType_eq_of_settled (hs.settled v hv)⟩
    intro i hi
    have hsettled := hs.settled v hv i hi
    exact ⟨hsettled.recorded, by simp [Instruction.isTyped, hsettled.given], hsettled.computed⟩
  · exact fun v hv => (hs.answers hv).display n
  · exact fun i hi => i.displayLine_eq n fun v hv => hs.operand_answers hi hv
  · exact fun t ht => t.display_eq n fun v hv => hs.answers (ht v hv)
  · exact fun b hb => hs.display_block n hb
  · exact fun f hf => f.display_eq n fun b hb => hs.display_block n (hf b hb)

/-- A lane of a shuffled vector: the type of the shuffle goes into that of the lane. -/
theorem makeAll_types_on_record_lane_of_shuffle :
    let s := makeAll {} [.param { name := "f", returnType := .void } "v" (.vector 4 .single),
      .const (.mask [0, 5]), .const (.i32 1),
      .instruction (.shuffleVector 0 0 1) [.metadata (.dbg 4), .name "s"],
      .instruction (.extractElement 3 2) [], .instruction (.extractElement 4 2) []]
    s.values.length = 5 ∧ ∃ v ∈ s.values, ∃ i, v.Reaches i ∧
      s.cells.lookup i.key = some (.vector 2 .single) ∧ v.typeFrom s.cells = .ok .single ∧
      v.computedType = .ok .single ∧ v.display s.cells {} = .ok (v.text {}) := by
  intro s
  have hmem : _ ∈ s.values := List.mem_of_getElem? (i := 4) rfl
  have hlane := (makeAll_types_on_record _).1 _ hmem
  exact ⟨rfl, _, hmem, _, .operand List.mem_cons_self .self,
    (hlane.1 _ (.operand List.mem_cons_self .self)).1, hlane.2.1, hlane.2.2,
    ((makeAll_types_on_record _).2 {}).1 _ hmem⟩

end Stock

end Codegen.Ir
