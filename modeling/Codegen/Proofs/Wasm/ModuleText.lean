import Codegen.Proofs.Basic
import Codegen.Proofs.Wasm.FuncText

namespace Codegen.Wasm

open Codegen.Text

def Module.tree (m : Module) : Tree :=
  .node (.atom (.keyword "module") :: .atom (.ident m.name) :: m.funcs.map Func.tree)

theorem Module.lex_text {m : Module} (hm : m.validate = .ok ()) :
    lex m.text.toList = some m.tree.lexemes := by
  obtain ⟨hname, hfuncs, -⟩ := validate_eq_ok_iff.mp hm
  have hkeyword : IsKeyword "module" := by decide
  have hclose := (lexes_nil.blank (c := '\n') rfl).closing
  have hbody : Lexes (m.funcs.flatMap fun f => (indent "  " f.text).toList)
      (m.funcs.flatMap fun f => f.tree.lexemes) :=
    Lexes.flatMap fun f hf => Func.lexes_indent_text (hfuncs f hf)
  have hident := ((hbody.append hclose).blank (c := '\n') rfl).ident rfl hname
  have hopen := ((hident.blank (c := ' ') rfl).keyword rfl hkeyword).opening
  have hall := hopen []
  simpa [text, tree, Tree.lexemes, lex_nil, List.flatMap_map] using hall

/-- The integer kind of the same width whose values have a sign. -/
def ValueType.signed : ValueType → ValueType
  | .u32 => .i32
  | .u64 => .i64
  | t => t

theorem ValueType.wireName_eq_iff {a b : ValueType} :
    a.wireName = b.wireName ↔ a.signed = b.signed := by
  cases a <;> cases b <;> decide

@[simp] theorem ValueType.wireName_signed (t : ValueType) : t.signed.wireName = t.wireName := by
  cases t <;> rfl

def Var.signed (v : Var) : Var :=
  { v with type := v.type.signed }

def Func.signed (f : Func) : Func :=
  { f with
    params := f.params.map Var.signed
    results := f.results.map ValueType.signed
    locals := f.locals.map Var.signed }

/-- The module in which every integer kind has a sign. -/
def Module.signed (m : Module) : Module :=
  { m with funcs := m.funcs.map Func.signed }

theorem Func.text_signed (f : Func) : f.signed.text = f.text := by
  simp [text, signature, signed, declaration, Var.signed, Function.comp_def]

theorem Module.text_signed (m : Module) : m.signed.text = m.text := by
  simp [text, signed, Func.text_signed, Function.comp_def]

namespace Tree

/-- What stands behind a keyword in those of the trees that start with it. -/
def fields (keyword : String) (items : List Tree) : List (List Tree) :=
  items.filterMap fun
    | .node (.atom (.keyword word) :: arguments) => if word = keyword then some arguments else none
    | _ => none

theorem fields_append (keyword : String) (front back : List Tree) :
    fields keyword (front ++ back) = fields keyword front ++ fields keyword back :=
  List.filterMap_append

theorem fields_map {α : Type} (keyword word : String) (items : List α) (arguments : α → List Tree) :
    fields keyword (items.map fun a => .node (.atom (.keyword word) :: arguments a)) =
      if word = keyword then items.map arguments else [] := by
  rw [fields, List.filterMap_map]
  change items.filterMap (fun a => if word = keyword then some (arguments a) else none) = _
  by_cases hword : word = keyword <;> simp [hword]

end Tree

theorem Func.fields_members (f : Func) (keyword : String) :
    Tree.fields keyword f.members =
      (if "export" = keyword then
        f.exportName.toList.map fun e => [.atom (.quoted (utf8 e))] else []) ++
      (if "param" = keyword then f.params.map Var.arguments else []) ++
      (if "result" = keyword then f.results.map ValueType.arguments else []) ++
      (if "local" = keyword then f.locals.map Var.arguments else []) := by
  simp only [members, signatureTrees, Tree.fields_append, Option.toList_map]
  rw [← Tree.fields_map, ← Tree.fields_map, ← Tree.fields_map, ← Tree.fields_map]
  rfl

theorem ValueType.signed_eq_of_arguments_eq {t u : ValueType}
    (harguments : t.arguments = u.arguments) : t.signed = u.signed :=
  wireName_eq_iff.mp (by simpa [arguments] using harguments)

theorem Var.signed_eq_of_arguments_eq {v w : Var} (harguments : v.arguments = w.arguments) :
    v.signed = w.signed := by
  simp only [arguments, List.cons.injEq, Tree.atom.injEq, Atom.ident.injEq, Atom.keyword.injEq,
    and_true] at harguments
  rw [signed, signed, harguments.1, ValueType.wireName_eq_iff.mp harguments.2]

theorem Func.signed_eq_of_tree_eq {f g : Func} (htree : f.tree = g.tree) : f.signed = g.signed := by
  injection htree with hitems
  simp only [List.cons.injEq, Tree.atom.injEq, Atom.ident.injEq, true_and] at hitems
  obtain ⟨hname, hmembers⟩ := hitems
  -- Where the parameters end and the results begin is told by the keywords alone.
  have hfields (keyword : String) :
      Tree.fields keyword f.members = Tree.fields keyword g.members := by
    rw [hmembers]
  have hexport : f.exportName = g.exportName := by
    have hinjective : Function.Injective fun e => [Tree.atom (.quoted (utf8 e))] := by
      intro e e' hquoted
      exact utf8_injective (by simpa using hquoted)
    apply Option.map_injective hinjective
    simpa [fields_members] using congrArg List.head? (hfields "export")
  have hparams : f.params.map Var.signed = g.params.map Var.signed :=
    map_eq_map_of_imp (fun _ _ => Var.signed_eq_of_arguments_eq)
      (by simpa [fields_members] using hfields "param")
  have hlocals : f.locals.map Var.signed = g.locals.map Var.signed :=
    map_eq_map_of_imp (fun _ _ => Var.signed_eq_of_arguments_eq)
      (by simpa [fields_members] using hfields "local")
  have hresults : f.results.map ValueType.signed = g.results.map ValueType.signed :=
    map_eq_map_of_imp (fun _ _ => ValueType.signed_eq_of_arguments_eq)
      (by simpa [fields_members] using hfields "result")
  rw [signed, signed, hname, hexport, hparams, hresults, hlocals]

theorem Module.signed_eq_of_tree_eq {a b : Module} (htree : a.tree = b.tree) :
    a.signed = b.signed := by
  injection htree with hitems
  simp only [List.cons.injEq, Tree.atom.injEq, Atom.ident.injEq, true_and] at hitems
  obtain ⟨hname, hfuncs⟩ := hitems
  have hsigned : a.funcs.map Func.signed = b.funcs.map Func.signed :=
    map_eq_map_of_imp (fun _ _ => Func.signed_eq_of_tree_eq) hfuncs
  rw [signed, signed, hname, hsigned]

/-- The text of a valid module is read back as the tree of the module, and so two valid modules have
the same text just when they differ in nothing but the signedness of integer kinds. -/
theorem Module.text_reads_back :
    (∀ m : Module, m.validate = .ok () → Tree.read m.text = some m.tree) ∧
      ∀ a b : Module, a.validate = .ok () → b.validate = .ok () →
        (a.text = b.text ↔ a.signed = b.signed) := by
  have hread {m : Module} (hm : m.validate = .ok ()) : Tree.read m.text = some m.tree :=
    Tree.read_of_lex (lex_text hm)
  refine ⟨fun m hm => hread hm, fun a b ha hb => ⟨fun htext => ?_, fun hsigned => ?_⟩⟩
  · have htree := hread ha
    rw [htext, hread hb] at htree
    exact signed_eq_of_tree_eq (Option.some.inj htree).symm
  · rw [← text_signed a, hsigned, text_signed b]

/-- An export with a quote, a parenthesis, a line feed and a letter beyond ASCII in its name, and
two parameters that differ in signedness alone. -/
theorem Module.text_reads_back_quoted_export :
    Tree.read ("(module $m\n" ++
      "  (func $f#\\ (export \"\\22)\\0a\\c3\\a9\") (param $p i32) (result f64)\n" ++
      "    (local $q i64)\n" ++
      "  )\n)\n") =
      some (.node [.atom (.keyword "module"), .atom (.ident "m"),
        .node [.atom (.keyword "func"), .atom (.ident "f#\\"),
          .node [.atom (.keyword "export"), .atom (.quoted [0x22, 0x29, 0x0a, 0xc3, 0xa9])],
          .node [.atom (.keyword "param"), .atom (.ident "p"), .atom (.keyword "i32")],
          .node [.atom (.keyword "result"), .atom (.keyword "f64")],
          .node [.atom (.keyword "local"), .atom (.ident "q"), .atom (.keyword "i64")]]]) ∧
      (⟨"m", [⟨"f", none, [⟨"p", .u32⟩], [], []⟩]⟩ : Module).text =
        (⟨"m", [⟨"f", none, [⟨"p", .i32⟩], [], []⟩]⟩ : Module).text := by
  constructor
  · have hread := text_reads_back.1
      ⟨"m", [⟨"f#\\", some "\")\né", [⟨"p", .u32⟩], [.f64], [⟨"q", .i64⟩]⟩]⟩ (by decide)
    refine Eq.trans (congrArg Tree.read ?_) hread
    decide +kernel
  · exact (text_reads_back.2 _ _ (by decide) (by decide)).mpr rfl

end Codegen.Wasm
