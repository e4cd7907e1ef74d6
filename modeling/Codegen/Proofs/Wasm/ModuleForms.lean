import Codegen.Proofs.Json.RecordForms
import Codegen.Proofs.Wasm.ModuleJson

namespace Codegen.Wasm

open Codegen.Json

/-- A value type has one form, its name. -/
def ValueType.IsForm (t : ValueType) (j : Json) : Prop :=
  j = t.toJson

theorem ValueType.isForm_toJson (t : ValueType) : t.IsForm t.toJson :=
  rfl

namespace Var

/-- The fields of a variable, none of which has a default. -/
def fieldForms (v : Var) : List FieldForm :=
  [⟨"name", (· = .string v.name), False⟩, ⟨"type", v.type.IsForm, False⟩]

/-- The forms in which a variable may be written. -/
def IsForm (v : Var) : Json → Prop :=
  RecordForm v.fieldForms

theorem isForm_toJson (v : Var) : v.IsForm v.toJson :=
  .object (.keep rfl (.keep rfl .nil)) (.refl _)

/-- What is read of a variable once the fields of some names are. -/
def parts (v : Var) (names : List String) : VarParts :=
  { name := readPart names "name" v.name
    type := readPart names "type" v.type }

theorem fieldReads (v : Var) (depth : Nat) :
    List.Forall₂ (FieldReads v.parts) (fields depth) v.fieldForms := by
  refine .cons (.of (fun _ => rfl) ?_ ?_) (.cons (.of (fun _ => rfl) ?_ ?_) .nil)
  · simp [parts, readPart]
  · rintro j rfl
    rfl
  · simp [parts, readPart]
  · rintro j rfl
    exact v.type.readsAt_toJson 0 depth

theorem decoder_of_isForm (depth : Nat) (v : Var) (j : Json) (hj : v.IsForm j) :
    decoder (depth + 1) j.node = .ok v := by
  have hnodup : (v.fieldForms.map FieldForm.name).Nodup := by simp [fieldForms]
  obtain ⟨names, hread, hall⟩ := decodeRecord_of_form (v.fieldReads depth) hnodup hj "struct Var"
  simp only [fieldForms, List.forall_mem_cons, or_false] at hall
  obtain ⟨hname, htype, -⟩ := hall
  have hdecoder : decoder (depth + 1) j.node = (do
      let s ← decodeRecord "struct Var" (v.parts []) (some (fields depth)) j.node
      return { name := ← require "name" s.name, type := ← require "type" s.type }) := rfl
  rw [hdecoder, hread]
  simp only [bind, Except.bind, parts, require_readPart hname, require_readPart htype]
  rfl

end Var

namespace Func

/-- The fields of a function. All but the name have a default. -/
def fieldForms (f : Func) : List FieldForm :=
  [⟨"name", (· = .string f.name), False⟩,
    ⟨"export", (· = .orNull (f.exportName.map .string)), f.exportName = none⟩,
    ⟨"params", ListForm Var.IsForm f.params, f.params = []⟩,
    ⟨"results", ListForm ValueType.IsForm f.results, f.results = []⟩,
    ⟨"locals", ListForm Var.IsForm f.locals, f.locals = []⟩]

/-- The forms in which a function may be written. -/
def IsForm (f : Func) : Json → Prop :=
  RecordForm f.fieldForms

theorem isForm_toJson (f : Func) : f.IsForm f.toJson := by
  refine .object (.keep rfl (.keep rfl (.keep ?_ (.keep ?_ (.keep ?_ .nil))))) (.refl _)
  · exact listForm_map Var.isForm_toJson f.params
  · exact listForm_map ValueType.isForm_toJson f.results
  · exact listForm_map Var.isForm_toJson f.locals

/-- What is read of a function once the fields of some names are. -/
def parts (f : Func) (names : List String) : FuncParts :=
  { name := readPart names "name" f.name
    exportName := readPart names "export" f.exportName
    params := readPart names "params" f.params
    results := readPart names "results" f.results
    locals := readPart names "locals" f.locals }

theorem fieldReads (f : Func) (depth : Nat) :
    List.Forall₂ (FieldReads f.parts) (fields (depth + 2)) f.fieldForms := by
  have hvars (vs : List Var) (j : Json) (hj : ListForm Var.IsForm vs j) :
      decodeList (innerLevel Var.decoder (depth + 2)) j.node = .ok vs :=
    decodeList_of_form (Var.decoder_of_isForm depth) hj
  refine .cons (.of (fun _ => rfl) ?_ ?_) (.cons (.orAbsent (.of (fun _ => rfl) ?_ ?_) _)
    (.cons (.orAbsent (.of (fun _ => rfl) ?_ (hvars f.params)) _)
    (.cons (.orAbsent (.of (fun _ => rfl) ?_ ?_) _)
    (.cons (.orAbsent (.of (fun _ => rfl) ?_ (hvars f.locals)) _) .nil))))
  · simp [parts, readPart]
  · rintro j rfl
    rfl
  · simp [parts, readPart]
  · rintro j rfl
    cases f.exportName <;> rfl
  · simp [parts, readPart]
  · simp [parts, readPart]
  · intro j hj
    refine decodeList_of_form ?_ hj
    rintro t j rfl
    exact t.readsAt_toJson 0 (depth + 1)
  · simp [parts, readPart]

theorem decoder_of_isForm (depth : Nat) (f : Func) (j : Json) (hj : f.IsForm j) :
    decoder (depth + 3) j.node = .ok f := by
  have hnodup : (f.fieldForms.map FieldForm.name).Nodup := by simp [fieldForms]
  obtain ⟨names, hread, hall⟩ := decodeRecord_of_form (f.fieldReads depth) hnodup hj "struct Func"
  simp only [fieldForms, List.forall_mem_cons, or_false] at hall
  obtain ⟨hname, hexport, hparams, hresults, hlocals, -⟩ := hall
  have hdecoder : decoder (depth + 3) j.node = (do
      let s ← decodeRecord "struct Func" (f.parts []) (some (fields (depth + 2))) j.node
      return {
        name := ← require "name" s.name
        exportName := s.exportName.getD none
        params := s.params.getD []
        results := s.results.getD []
        locals := s.locals.getD [] }) := rfl
  rw [hdecoder, hread]
  simp only [bind, Except.bind, parts, require_readPart hname, getD_readPart hexport,
    getD_readPart hparams, getD_readPart hresults, getD_readPart hlocals]
  rfl

end Func

namespace Module

/-- The fields of a module. -/
def fieldForms (m : Module) : List FieldForm :=
  [⟨"name", (· = .string m.name), False⟩, ⟨"funcs", ListForm Func.IsForm m.funcs, m.funcs = []⟩]

/-- The forms in which a module may be written. -/
def IsForm (m : Module) : Json → Prop :=
  RecordForm m.fieldForms

theorem isForm_toJson (m : Module) : m.IsForm m.toJson :=
  .object (.keep rfl (.keep (listForm_map Func.isForm_toJson m.funcs) .nil)) (.refl _)

/-- What is read of a module once the fields of some names are. -/
def parts (m : Module) (names : List String) : ModuleParts :=
  { name := readPart names "name" m.name
    funcs := readPart names "funcs" m.funcs }

theorem fieldReads (m : Module) (depth : Nat) :
    List.Forall₂ (FieldReads m.parts) (fields (depth + 4)) m.fieldForms := by
  refine .cons (.of (fun _ => rfl) ?_ ?_) (.cons (.orAbsent (.of (fun _ => rfl) ?_ ?_) _) .nil)
  · simp [parts, readPart]
  · rintro j rfl
    rfl
  · simp [parts, readPart]
  · exact fun j hj => decodeList_of_form (Func.decoder_of_isForm depth) hj

theorem decoder_of_isForm (depth : Nat) (m : Module) (j : Json) (hj : m.IsForm j) :
    decoder (depth + 5) j.node = .ok m := by
  have hnodup : (m.fieldForms.map FieldForm.name).Nodup := by simp [fieldForms]
  obtain ⟨names, hread, hall⟩ := decodeRecord_of_form (m.fieldReads depth) hnodup hj "struct Module"
  simp only [fieldForms, List.forall_mem_cons, or_false] at hall
  obtain ⟨hname, hfuncs, -⟩ := hall
  have hdecoder : decoder (depth + 5) j.node = (do
      let s ← decodeRecord "struct Module" (m.parts []) (some (fields (depth + 4))) j.node
      return { name := ← require "name" s.name, funcs := s.funcs.getD [] }) := rfl
  rw [hdecoder, hread]
  simp only [bind, Except.bind, parts, require_readPart hname, getD_readPart hfuncs]
  rfl

/-- A module is read back from every form of its description. The canonical description is one of
them. -/
theorem every_form_read_back (m : Module) :
    m.IsForm m.toJson ∧ ∀ j, m.IsForm j → decode Module.decoder j.text = .ok m := by
  refine ⟨m.isForm_toJson, fun j hj => ?_⟩
  rw [decode_text]
  exact m.decoder_of_isForm (nestingLimit - 5) j hj

/-- Members in another order, members left out, a variable as an array, and a function as an array
of its name alone. -/
theorem every_form_read_back_mixed :
    decode Module.decoder ("\x7b\"funcs\":[\x7b\"locals\":[[\"y\",\"f64\"]]," ++
        "\"params\":[\x7b\"type\":\"u32\",\"name\":\"x\"\x7d],\"name\":\"f\"\x7d," ++
        "[\"g\"]],\"name\":\"m\"\x7d") =
      .ok ⟨"m", [⟨"f", none, [⟨"x", .u32⟩], [], [⟨"y", .f64⟩]⟩, ⟨"g", none, [], [], []⟩]⟩ := by
  have hx : Var.IsForm ⟨"x", .u32⟩ (.object [("type", .string "u32"), ("name", .string "x")]) :=
    .object (.keep rfl (.keep rfl .nil)) (.swap _ _ _)
  have hy : Var.IsForm ⟨"y", .f64⟩ (.array [.string "y", .string "f64"]) :=
    .array (.cons rfl (.cons rfl (.done (by simp))))
  have hf : Func.IsForm ⟨"f", none, [⟨"x", .u32⟩], [], [⟨"y", .f64⟩]⟩
      (.object [("locals", .array [.array [.string "y", .string "f64"]]),
        ("params", .array [.object [("type", .string "u32"), ("name", .string "x")]]),
        ("name", .string "f")]) :=
    .object (.keep rfl (.skip rfl (.keep ⟨_, rfl, .cons hx .nil⟩ (.skip rfl
      (.keep ⟨_, rfl, .cons hy .nil⟩ .nil)))))
      (List.reverse_perm [("name", _), ("params", _), ("locals", _)])
  have hg : Func.IsForm ⟨"g", none, [], [], []⟩ (.array [.string "g"]) :=
    .array (.cons rfl (.done (by simp)))
  refine Eq.trans (congrArg (decode Module.decoder) ?_) ((every_form_read_back _).2 _
    (.object (.keep rfl (.keep ⟨_, rfl, .cons hf (.cons hg .nil)⟩ .nil)) (.swap _ _ _)))
  decide +kernel

end Module

end Codegen.Wasm
