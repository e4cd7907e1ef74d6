import Codegen.Proofs.Ir.Emission
import Codegen.Proofs.Ir.Layout

namespace Codegen.Ir

open Codegen.Text

namespace Module

/-- The functions, each with the naming that it is printed with. -/
def printed (n : Naming) : List Function → List (Function × Naming)
  | [] => []
  | f :: rest =>
    let n := (f.assignNumbers n).toOption.getD n
    (f, n) :: printed n rest

/-- The lines of each function: those of its text and the closing brace. -/
def functionLines (n : Naming) (functions : List Function) : List (List String) :=
  (printed n functions).map fun (f, n) => f.lines n ++ ["\x7d"]

/-- The comment that names a module, without the line feed. -/
def headerLine (m : Module) : String :=
  "; ModuleID = '" ++ m.name ++ "'"

/-- The lines of a module: the comment that names it if it is asked for, and the functions, with
blank lines in between. -/
def lines (withHeader : Bool) (n : Naming) (m : Module) : List String :=
  [""].intercalate ((if withHeader then [[m.headerLine]] else []) ++ functionLines n m.functions)

theorem header_eq (m : Module) : m.header = m.headerLine ++ "\n" := by
  change "; ModuleID = '" ++ m.name ++ ("'" ++ "\n") = "; ModuleID = '" ++ m.name ++ "'" ++ "\n"
  rw [← String.append_assoc]

theorem noNewline_headerLine_iff {m : Module} : NoNewline m.headerLine ↔ NoNewline m.name := by
  have hmarks : NoNewline "; ModuleID = '" ∧ NoNewline "'" := by decide
  change NoNewline ("; ModuleID = '" ++ m.name ++ "'") ↔ NoNewline m.name
  simp only [noNewline_append_iff, hmarks, true_and, and_true]

theorem functionLines_cons {n n₁ : Naming} {f : Function} (hpass : f.assignNumbers n = .ok n₁)
    (rest : List Function) :
    functionLines n (f :: rest) = (f.lines n₁ ++ ["\x7d"]) :: functionLines n₁ rest := by
  simp [functionLines, printed, hpass, Except.toOption]

theorem text_function_eq_join (n : Naming) (f : Function) :
    f.text n = String.join ((f.lines n ++ ["\x7d"]).map (· ++ "\n")) := by
  simp [f.text_eq_join, String.append_assoc]

/-- Behind a text, printing puts a blank line and the lines of a function for each of them. -/
theorem emitAfter_eq_join {n : Naming} {out text : String} {functions : List Function}
    (hout : out ≠ "") (hemit : (emitAfter n out functions).1 = .ok text) :
    text = out ++
      String.join (((functionLines n functions).flatMap ([""] ++ ·)).map (· ++ "\n")) := by
  induction functions generalizing n out with
  | nil =>
    cases hemit
    simp [functionLines, printed]
  | cons f rest ih =>
    cases hpass : f.assignNumbers n with
    | error e => simp [emitAfter, hpass] at hemit
    | ok n₁ =>
      rw [emitAfter_cons out rest hpass] at hemit
      have hnext := ih (by simp [hout, Function.text]) hemit
      rw [hnext, functionLines_cons hpass, List.flatMap_cons, List.map_append, String.join_append,
        text_function_eq_join]
      simp [hout, String.append_assoc]

/-- A text that is printed is made of the lines of the module. -/
theorem text_eq_join {m : Module} {withHeader : Bool} {n : Naming} {text : String}
    (hemit : (m.emit withHeader n).1 = .ok text) :
    text = String.join ((m.lines withHeader n).map (· ++ "\n")) := by
  cases withHeader with
  | true =>
    have hlines : m.lines true n =
        [m.headerLine] ++ (functionLines n m.functions).flatMap ([""] ++ ·) :=
      intercalate_cons _ _ _
    have htext := emitAfter_eq_join (by simp [header_eq]) hemit
    rw [hlines, List.map_append, String.join_append, htext]
    simp [header_eq]
  | false =>
    rw [lines, if_neg Bool.false_ne_true, List.nil_append]
    rw [emit, if_neg Bool.false_ne_true] at hemit
    cases hfunctions : m.functions with
    | nil =>
      rw [hfunctions] at hemit
      cases hemit
      rfl
    | cons f rest =>
      rw [hfunctions] at hemit
      cases hpass : f.assignNumbers n with
      | error e => simp [emitAfter, hpass] at hemit
      | ok n₁ =>
        rw [emitAfter_cons "" rest hpass] at hemit
        have htext := emitAfter_eq_join (by simp [Function.text]) hemit
        rw [functionLines_cons hpass, intercalate_cons, List.map_append, String.join_append, htext,
          text_function_eq_join]
        simp

end Module

/-- The kind of a reference to metadata has no line feed. -/
def Metadata.StaysOnLine (m : Metadata) : Prop :=
  NoNewline m.kind

theorem Metadata.noNewline_text_iff {m : Metadata} : NoNewline m.text ↔ m.StaysOnLine := by
  have hnode := (level_repr m.node.toNat).isLine.noNewline
  have hmarks : NoNewline "!" ∧ NoNewline " !" := by decide
  simp only [text, noNewline_append_iff, hmarks, hnode, true_and, and_true, StaysOnLine]

/-- An instruction stays on its line exactly when the kinds of its metadata do. -/
theorem Instruction.noNewline_line_iff (n : Naming) (i : Instruction) :
    NoNewline (i.line n) ↔ i.AllMetadata Metadata.StaysOnLine := by
  have hident := (n.isLine_ident i.key).noNewline
  have hopcode := i.operation.level_opcode.isLine.noNewline
  have hoperand (v : Value) : NoNewline (v.text n) := (v.level_text n).isLine.noNewline
  have hindex (index : Nat) : NoNewline (Nat.repr index) := (level_repr index).isLine.noNewline
  have hmarks : NoNewline " = " ∧ NoNewline " " ∧ NoNewline ", " := by decide
  rw [line, noNewline_append_iff, noNewline_intercalate_iff hmarks.2.2]
  simp only [noNewline_append_iff, hident, hopcode, hmarks, List.forall_mem_append,
    List.forall_mem_map, hoperand, hindex, Metadata.noNewline_text_iff, AllMetadata, true_and,
    implies_true]

theorem Block.noNewline_lines_iff (n : Naming) (b : Block) :
    (∀ line ∈ b.lines n, NoNewline line) ↔ b.AllMetadata Metadata.StaysOnLine := by
  have hlabel := (n.level_label b.key).isLine.noNewline
  have hterminator : ∀ line ∈ (b.terminator.map (Terminator.text n)).toList, NoNewline line := by
    cases b.terminator with
    | none => simp
    | some t => simpa using (t.isLine_text n).noNewline
  have hmarks : NoNewline ":" ∧ NoNewline "  " := by decide
  simp only [lines, body, List.forall_mem_cons, List.forall_mem_map, List.forall_mem_append,
    noNewline_append_iff, hlabel, hmarks, Instruction.noNewline_line_iff, true_and]
  exact and_iff_left hterminator

theorem Function.noNewline_lines_iff (n : Naming) (f : Function) :
    (∀ line ∈ f.lines n, NoNewline line) ↔ f.AllMetadata Metadata.StaysOnLine := by
  have hsignature := (f.isLine_signature n).noNewline
  rw [lines, List.forall_mem_cons, forall_mem_intercalate_iff (by decide), List.forall_mem_map]
  simp only [hsignature, Block.noNewline_lines_iff, AllMetadata, true_and]

namespace Module

theorem noNewline_functionLines_iff (n : Naming) (functions : List Function) :
    (∀ lines ∈ functionLines n functions, ∀ line ∈ lines, NoNewline line) ↔
      ∀ f ∈ functions, f.AllMetadata Metadata.StaysOnLine := by
  induction functions generalizing n with
  | nil => simp [functionLines, printed]
  | cons f rest ih =>
    have hclose : ∀ line ∈ ["\x7d"], NoNewline line := by decide
    rw [functionLines, printed, List.map_cons, List.forall_mem_cons, List.forall_mem_append,
      and_iff_left hclose, Function.noNewline_lines_iff, List.forall_mem_cons]
    exact and_congr_right' (ih _)

/-- The text of a module is cut at line feeds into just the lines of the module, the comment, the
signatures, labels, instructions, terminators, closing braces and the blank lines between them,
exactly when no kind of metadata has a line feed and neither has the name of the module, if it is
printed. Other names may hold any characters. -/
theorem splitLines_emit_iff {m : Module} {withHeader : Bool} {n : Naming} {text : String}
    (hemit : (m.emit withHeader n).1 = .ok text) :
    splitLines text = m.lines withHeader n ++ [""] ↔
      (withHeader = true → NoNewline m.name) ∧
        ∀ f ∈ m.functions, f.AllMetadata Metadata.StaysOnLine := by
  rw [text_eq_join hemit, splitLines_join_iff, lines, forall_mem_intercalate_iff (by decide),
    List.forall_mem_append, noNewline_functionLines_iff]
  cases withHeader with
  | false => simp
  | true => simp [noNewline_headerLine_iff]

/-- Names that hold line feeds, a carriage return in a kind of metadata, and no header. -/
theorem splitLines_emit_odd_names :
    let s := (Session.start "m\n").run [.function "f\ng" .void, .param 0 "\n" (.vector 2 .i32),
      .block (some "b\r\n"),
      .append 0 ⟨.extractElement (.param ⟨0⟩ (.vector 2 .i32)) (.const ⟨9⟩ (.i32 0)), .i32,
        [⟨"k\r", 7⟩], none⟩,
      .terminate 0 (.ret none), .addBlock 0 0, .addFunction 0]
    ∃ text, (s.module.emit false s.naming).1 = .ok text ∧
      splitLines text = s.module.lines false s.naming ++ [""] ∧
      s.module.lines false s.naming = ["define void @\"f\\0Ag\"(<2 x i32> %\"\\0A\") \x7b",
        "\"b\\0D\\0A\":",
        "  %0 = extractelement <2 x i32> %\"\\0A\", i32 0, !k\r !7", "  ret void", "\x7d"] := by
  refine ⟨_, rfl, (splitLines_emit_iff rfl).mpr ⟨nofun, ?_⟩, by decide⟩
  unfold Function.AllMetadata Block.AllMetadata Instruction.AllMetadata Metadata.StaysOnLine
  decide

/-- The name of a module goes on to another line, and so does a kind of metadata. -/
theorem splitLines_emit_split_by_name_and_kind :
    (let m : Module := { name := "a\nb" }
      ∃ text, (m.emit true {}).1 = .ok text ∧ splitLines text ≠ m.lines true {} ++ [""]) ∧
    let s := (Session.start "m").run [.function "f" .void, .block none,
      .append 0 ⟨.extractElement (.const ⟨9⟩ (.mask [0])) (.const ⟨9⟩ (.i32 0)), .i32,
        [⟨"k\nz", 7⟩], none⟩, .addBlock 0 0, .addFunction 0]
    ∃ text, (s.module.emit false s.naming).1 = .ok text ∧
      splitLines text ≠ s.module.lines false s.naming ++ [""] :=
  ⟨⟨_, rfl, by decide⟩, _, rfl, by decide⟩

end Module

end Codegen.Ir
