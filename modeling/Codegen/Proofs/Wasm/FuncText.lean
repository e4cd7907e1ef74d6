import Codegen.Proofs.Text.Lines
import Codegen.Proofs.Wasm.LexemeText
import Codegen.Proofs.Wasm.Tree

namespace Codegen.Wasm

open Codegen.Text

/-- What stands behind the keyword of a declaration. -/
def Var.arguments (v : Var) : List Tree :=
  [.atom (.ident v.name), .atom (.keyword v.type.wireName)]

def Var.tree (keyword : String) (v : Var) : Tree :=
  .node (.atom (.keyword keyword) :: v.arguments)

def ValueType.arguments (t : ValueType) : List Tree :=
  [.atom (.keyword t.wireName)]

def ValueType.resultTree (t : ValueType) : Tree :=
  .node (.atom (.keyword "result") :: t.arguments)

def exportTree (name : String) : Tree :=
  .node [.atom (.keyword "export"), .atom (.quoted (utf8 name))]

namespace Func

/-- The export, the parameters and the results. -/
def signatureTrees (f : Func) : List Tree :=
  (f.exportName.map exportTree).toList ++ f.params.map (Var.tree "param") ++
    f.results.map ValueType.resultTree

def members (f : Func) : List Tree :=
  f.signatureTrees ++ f.locals.map (Var.tree "local")

def tree (f : Func) : Tree :=
  .node (.atom (.keyword "func") :: .atom (.ident f.name) :: f.members)

theorem isKeyword_wireName (t : ValueType) : IsKeyword t.wireName := by
  cases t <;> decide

theorem lexes_declaration {keyword : String} (hkeyword : IsKeyword keyword) {v : Var}
    (hname : IsName v.name) : Lexes (declaration keyword v).toList (v.tree keyword).lexemes := by
  have htype := lexes_nil.closing.keyword rfl (isKeyword_wireName v.type)
  have hident := (htype.blank (c := ' ') rfl).ident rfl hname
  have hopen := ((hident.blank (c := ' ') rfl).keyword rfl hkeyword).opening
  simpa [declaration, Var.tree, Var.arguments, Tree.lexemes] using hopen

theorem lexes_result (t : ValueType) :
    Lexes ("(result " ++ t.wireName ++ ")").toList t.resultTree.lexemes := by
  have hkeyword : IsKeyword "result" := by decide
  have htype := lexes_nil.closing.keyword rfl (isKeyword_wireName t)
  have hopen := ((htype.blank (c := ' ') rfl).keyword rfl hkeyword).opening
  simpa [ValueType.resultTree, ValueType.arguments, Tree.lexemes] using hopen

theorem lexes_export (name : String) :
    Lexes ("(export \"" ++ escape .lower name ++ "\")").toList (exportTree name).lexemes := by
  have hkeyword : IsKeyword "export" := by decide
  have hquoted := lexes_nil.closing.quoted rfl name
  have hopen := ((hquoted.blank (c := ' ') rfl).keyword rfl hkeyword).opening
  simpa [exportTree, Tree.lexemes] using hopen

theorem lexes_signature {f : Func} (hparams : ∀ v ∈ f.params, IsName v.name) :
    Lexes (String.join (f.signature.map (" " ++ ·))).toList
      (f.signatureTrees.flatMap Tree.lexemes) := by
  have hexport : Lexes
      (f.exportName.toList.flatMap fun e =>
        ' ' :: ("(export \"" ++ escape .lower e ++ "\")").toList)
      (f.exportName.toList.flatMap fun e => (exportTree e).lexemes) :=
    Lexes.flatMap fun e _ => (lexes_export e).blank rfl
  have hparam : Lexes (f.params.flatMap fun v => ' ' :: (declaration "param" v).toList)
      (f.params.flatMap fun v => (v.tree "param").lexemes) :=
    Lexes.flatMap fun v hv => (lexes_declaration (by decide) (hparams v hv)).blank rfl
  have hresult : Lexes (f.results.flatMap fun t => ' ' :: ("(result " ++ t.wireName ++ ")").toList)
      (f.results.flatMap fun t => t.resultTree.lexemes) :=
    Lexes.flatMap fun t _ => (lexes_result t).blank rfl
  have hall := (hexport.append hparam).append hresult
  simpa [signature, signatureTrees, List.flatMap_map, Option.toList_map] using hall

theorem isLine_of_isName {name : String} (hname : IsName name) : IsLine name := by
  apply isLine_of_printable
  intro c hc
  have hword := isWordChar_of_isIdChar (hname.2 c hc)
  simp [isWordChar] at hword
  omega

theorem isLine_wireName (t : ValueType) : IsLine t.wireName := by
  cases t <;> decide

theorem isLine_declaration {keyword : String} (hkeyword : IsLine keyword) {v : Var}
    (hname : IsName v.name) : IsLine (declaration keyword v) := by
  have hopen : IsLine ("(" ++ keyword) := IsLine.append (by decide) hkeyword
  have hident := (hopen.append (by decide : IsLine " $")).append (isLine_of_isName hname)
  have htype := (hident.append (by decide : IsLine " ")).append (isLine_wireName v.type)
  exact htype.append (by decide)

theorem isLine_of_mem_signature {f : Func} (hparams : ∀ v ∈ f.params, IsName v.name) {part : String}
    (hpart : part ∈ f.signature) : IsLine part := by
  simp only [signature, List.mem_append, List.mem_map, Option.mem_toList,
    Option.map_eq_some_iff] at hpart
  rcases hpart with (⟨e, -, rfl⟩ | ⟨v, hv, rfl⟩) | ⟨t, -, rfl⟩
  · have hescape : IsLine (escape .lower e) :=
      isLine_of_printable fun c hc => (printable_of_mem_escape hc).1
    exact (IsLine.append (by decide) hescape).append (by decide)
  · exact isLine_declaration (by decide) (hparams v hv)
  · exact (IsLine.append (by decide) (isLine_wireName t)).append (by decide)

/-- The first line of the text. -/
def headLine (f : Func) : String :=
  "(func $" ++ f.name ++ String.join (f.signature.map (" " ++ ·))

theorem isLine_headLine {f : Func} (hname : IsName f.name)
    (hparams : ∀ v ∈ f.params, IsName v.name) : IsLine f.headLine := by
  apply IsLine.append (IsLine.append (by decide) (isLine_of_isName hname))
  apply IsLine.join
  intro s hs
  obtain ⟨part, hpart, rfl⟩ := List.mem_map.mp hs
  exact IsLine.append (by decide) (isLine_of_mem_signature hparams hpart)

theorem text_eq_lines (f : Func) :
    f.text = String.join ((f.headLine :: f.locals.map ("  " ++ declaration "local" ·)).map
      (· ++ "\n")) ++ ")" := by
  apply String.toList_injective
  simp [text, headLine, List.flatMap_map]

theorem validate_names {f : Func} (hf : f.validate = .ok ()) :
    IsName f.name ∧ (∀ v ∈ f.params, IsName v.name) ∧ ∀ v ∈ f.locals, IsName v.name := by
  obtain ⟨hname, hvars, -⟩ := validate_eq_ok_iff.mp hf
  exact ⟨hname, fun v hv => hvars v (List.mem_append_left _ hv),
    fun v hv => hvars v (List.mem_append_right _ hv)⟩

/-- No line of a valid function has a line break in it, so the margin is all that is added. -/
theorem indent_text {f : Func} (hf : f.validate = .ok ()) (margin : String) :
    indent margin f.text = margin ++ f.headLine ++ "\n" ++
      String.join (f.locals.map fun v => margin ++ ("  " ++ declaration "local" v) ++ "\n") ++
        (margin ++ ")" ++ "\n") := by
  obtain ⟨hname, hparams, hlocals⟩ := validate_names hf
  have hlines : ∀ line ∈ f.headLine :: f.locals.map ("  " ++ declaration "local" ·),
      IsLine line := by
    intro line hline
    rcases List.mem_cons.mp hline with rfl | hline
    · exact isLine_headLine hname hparams
    · obtain ⟨v, hv, rfl⟩ := List.mem_map.mp hline
      exact IsLine.append (by decide) (isLine_declaration (by decide) (hlocals v hv))
  rw [text_eq_lines, indent_join_append hlines (by decide) (by decide)]
  apply String.toList_injective
  simp [List.flatMap_map]

theorem lexes_locals {f : Func} (hlocals : ∀ v ∈ f.locals, IsName v.name) :
    Lexes
      (String.join (f.locals.map fun v => "  " ++ ("  " ++ declaration "local" v) ++ "\n")).toList
      (f.locals.flatMap fun v => (v.tree "local").lexemes) := by
  have hlines : Lexes (f.locals.flatMap fun v =>
      [' ', ' ', ' ', ' '] ++ ((declaration "local" v).toList ++ ['\n']))
      (f.locals.flatMap fun v => (v.tree "local").lexemes) := by
    apply Lexes.flatMap
    intro v hv
    have hkeyword : IsKeyword "local" := by decide
    have hbreak := lexes_nil.blank (c := '\n') rfl
    have hline := (lexes_declaration hkeyword (hlocals v hv)).append hbreak
    rw [List.append_nil] at hline
    exact (((hline.blank rfl).blank rfl).blank rfl).blank rfl
  simpa [List.flatMap_map] using hlines

theorem lexes_indent_text {f : Func} (hf : f.validate = .ok ()) :
    Lexes (indent "  " f.text).toList f.tree.lexemes := by
  obtain ⟨hname, hparams, hlocals⟩ := validate_names hf
  have hkeyword : IsKeyword "func" := by decide
  have hclose : Lexes [' ', ' ', ')', '\n'] [.closing] :=
    ((lexes_nil.blank rfl).closing.blank rfl).blank rfl
  have hlines := ((lexes_locals hlocals).append hclose).blank (c := '\n') rfl
  have hsignature := (lexes_signature hparams).append hlines
  have hident := hsignature.ident (by cases f.signature <;> simp [isDelimiter, isBlank]) hname
  have hopen := ((hident.blank (c := ' ') rfl).keyword rfl hkeyword).opening
  have hall := (hopen.blank (c := ' ') rfl).blank (c := ' ') rfl
  rw [indent_text hf]
  simpa [headLine, tree, members, Tree.lexemes, List.flatMap_map] using hall

end Func

end Codegen.Wasm
