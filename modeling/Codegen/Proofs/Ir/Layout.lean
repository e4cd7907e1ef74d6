import Codegen.Ir.Function
import Codegen.Proofs.Ir.OperandText

namespace Codegen.Ir

open Codegen.Text

/-- The label line of a block and the lines behind a margin. -/
def Block.lines (n : Naming) (b : Block) : List String :=
  (n.label b.key ++ ":") :: (b.body n).map ("  " ++ ·)

/-- The lines of a function but the last: the signature and the blocks with blank lines between
them. -/
def Function.lines (n : Naming) (f : Function) : List String :=
  f.signature n :: [""].intercalate (f.blocks.map (Block.lines n))

theorem Block.text_eq_join (n : Naming) (b : Block) :
    b.text n = String.join ((b.lines n).map (· ++ "\n")) := by
  have hlabel : n.label b.key ++ ":\n" = n.label b.key ++ ":" ++ "\n" := by
    rw [String.append_assoc]
    rfl
  rw [text, lines, List.map_cons, String.join_cons, List.map_map, hlabel]
  rfl

theorem intercalate_join (texts : List (List String)) :
    "\n".intercalate (texts.map fun text => String.join (text.map (· ++ "\n"))) =
      String.join (([""].intercalate texts).map (· ++ "\n")) := by
  induction texts with
  | nil => rfl
  | cons text texts ih =>
    cases texts with
    | nil => simp
    | cons second texts =>
      rw [List.intercalate_cons_cons, List.map_append, String.join_append, ← ih]
      simp

theorem Function.text_eq_join (n : Naming) (f : Function) :
    f.text n = String.join ((f.lines n).map (· ++ "\n")) ++ "\x7d" ++ "\n" := by
  have hblocks : f.blocks.map (Block.text n) =
      (f.blocks.map (Block.lines n)).map fun text => String.join (text.map (· ++ "\n")) := by
    rw [List.map_map]
    exact List.map_congr_left fun b _ => b.text_eq_join n
  rw [text, lines, List.map_cons, String.join_cons, hblocks, intercalate_join, String.append_assoc]
  simp only [String.append_assoc]
  rfl

/-- Something holds of everything attached to an instruction. -/
def Instruction.AllMetadata (p : Metadata → Prop) (i : Instruction) : Prop :=
  ∀ m ∈ i.metadata, p m

def Block.AllMetadata (p : Metadata → Prop) (b : Block) : Prop :=
  ∀ i ∈ b.instructions, i.AllMetadata p

def Function.AllMetadata (p : Metadata → Prop) (f : Function) : Prop :=
  ∀ b ∈ f.blocks, b.AllMetadata p

/-- The kind does not go on to another line. -/
def Metadata.IsOneLine (m : Metadata) : Prop :=
  IsLine m.kind

theorem Metadata.isLine_text {m : Metadata} (hm : m.IsOneLine) : IsLine m.text :=
  (((show IsLine "!" by decide).append hm).append (by decide)).append (level_repr _).isLine

theorem Operation.level_opcode (operation : Operation Value) :
    Level isWordChar operation.opcode.toList := by
  cases operation with
  | extractValue => exact level_literal "extractvalue" rfl
  | insertValue => exact level_literal "insertvalue" rfl
  | extractElement => exact level_literal "extractelement" rfl
  | insertElement => exact level_literal "insertelement" rfl
  | shuffleVector => exact level_literal "shufflevector" rfl

theorem Naming.isLine_ident (n : Naming) (key : Key) : IsLine (n.ident key) :=
  (show IsLine "%" by decide).append (n.level_label key).isLine

theorem Instruction.isLine_line (n : Naming) {i : Instruction}
    (hi : i.AllMetadata Metadata.IsOneLine) : IsLine (i.line n) := by
  have hitems : IsLine (", ".intercalate (i.operation.operands.map (Value.text n) ++
      i.operation.indices.map (fun index => Nat.repr index.toNat) ++
      i.metadata.map Metadata.text)) := by
    refine IsLine.intercalate (by decide) ?_
    simp only [List.forall_mem_append, List.forall_mem_map]
    exact ⟨⟨fun v _ => (v.level_text n).isLine, fun index _ => (level_repr _).isLine⟩,
      fun m hm => Metadata.isLine_text (hi m hm)⟩
  exact ((((n.isLine_ident i.key).append (by decide)).append
    i.operation.level_opcode.isLine).append (by decide)).append hitems

theorem Terminator.isLine_text (n : Naming) (t : Terminator) : IsLine (t.text n) := by
  cases t with
  | ret value =>
    cases value with
    | none => exact (by decide : IsLine "ret void")
    | some v => exact (show IsLine "ret " by decide).append (v.level_text n).isLine
  | unreachable => exact (by decide : IsLine "unreachable")

theorem Block.isLine_of_mem_lines (n : Naming) {b : Block}
    (hb : b.AllMetadata Metadata.IsOneLine) : ∀ line ∈ b.lines n, IsLine line := by
  have hbody : ∀ line ∈ b.body n, IsLine line := by
    simp only [body, List.forall_mem_append, List.forall_mem_map]
    refine ⟨fun i hi => Instruction.isLine_line n (hb i hi), ?_⟩
    cases b.terminator with
    | none => simp
    | some t => simpa using t.isLine_text n
  simp only [lines, List.forall_mem_cons, List.forall_mem_map]
  exact ⟨(n.level_label b.key).isLine.append (by decide),
    fun line hline => (show IsLine "  " by decide).append (hbody line hline)⟩

theorem Function.isLine_signature (n : Naming) (f : Function) : IsLine (f.signature n) := by
  have hparams : IsLine (", ".intercalate (f.params.map fun p => p.value.text n)) := by
    refine IsLine.intercalate (by decide) ?_
    simp only [List.forall_mem_map]
    exact fun p _ => (p.value.level_text n).isLine
  have hname : IsLine (quoteName f.name) := (level_quoteName f.name).isLine
  have htype : IsLine f.returnType.text := f.returnType.level_text.isLine
  exact ((((((show IsLine "define " by decide).append htype).append (by decide)).append
    hname).append (by decide)).append hparams).append (by decide)

theorem Function.isLine_of_mem_lines (n : Naming) {f : Function}
    (hf : f.AllMetadata Metadata.IsOneLine) : ∀ line ∈ f.lines n, IsLine line := by
  rw [lines, List.forall_mem_cons]
  refine ⟨f.isLine_signature n, (forall_mem_intercalate_iff (by decide)).mpr ?_⟩
  rw [List.forall_mem_map]
  exact fun b hb => Block.isLine_of_mem_lines n (hf b hb)

/-- A text is known by its lines. -/
theorem Function.text_eq_iff {n n' : Naming} {f g : Function}
    (hf : f.AllMetadata Metadata.IsOneLine) (hg : g.AllMetadata Metadata.IsOneLine) :
    f.text n = g.text n' ↔ f.lines n = g.lines n' := by
  rw [f.text_eq_join, g.text_eq_join, String.append_left_inj]
  constructor
  · intro htext
    have hlines := congrArg Text.lines htext
    rw [lines_join_append (isLine_of_mem_lines n hf) (by decide) (by decide),
      lines_join_append (isLine_of_mem_lines n' hg) (by decide) (by decide)] at hlines
    exact List.append_cancel_right hlines
  · intro hlines
    rw [hlines]

end Codegen.Ir
