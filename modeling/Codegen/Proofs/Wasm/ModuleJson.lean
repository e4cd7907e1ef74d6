import Codegen.CommandLine.Run
import Codegen.Proofs.Json.Decode

namespace Codegen.Wasm

open Codegen.Json

theorem ValueType.readsAt_toJson (depth inner : Nat) (t : ValueType) :
    ReadsAt depth (ValueType.decoder inner) t t.toJson := by
  cases t <;> exact readsAt_name rfl rfl depth _

theorem Var.readsAt_toJson (depth : Nat) (v : Var) :
    ReadsAt depth (Var.decoder depth) v v.toJson := by
  have hmembers (depth : Nat) : ReadsMembers depth (Var.fields depth) {}
      [("name", .string v.name), ("type", v.type.toJson)] ⟨some v.name, some v.type⟩ := by
    refine .cons rfl rfl (fun _ => rfl) (readsAt_text depth v.name) ?_
    refine .cons rfl rfl (fun _ => rfl) (v.type.readsAt_toJson depth depth) ?_
    exact .nil _ _ _
  refine readsAt_record hmembers ?_ "struct Var" depth
  rfl

theorem Func.readsAt_toJson (depth : Nat) (f : Func) :
    ReadsAt depth (Func.decoder depth) f f.toJson := by
  have hmembers (depth : Nat) : ReadsMembers depth (Func.fields depth) {}
      [("name", .string f.name),
        ("export", .orNull (f.exportName.map .string)),
        ("params", .array (f.params.map Var.toJson)),
        ("results", .array (f.results.map ValueType.toJson)),
        ("locals", .array (f.locals.map Var.toJson))]
      ⟨some f.name, some f.exportName, some f.params, some f.results, some f.locals⟩ := by
    refine .cons rfl rfl (fun _ => rfl) (readsAt_text depth f.name) ?_
    refine .cons rfl rfl (fun _ => rfl)
      (readsAt_optional (readsAt_text depth) (by simp [node]) f.exportName) ?_
    refine .cons rfl rfl (fun _ => rfl) (readsAt_list fun v _ depth => v.readsAt_toJson depth) ?_
    refine .cons rfl rfl (fun _ => rfl)
      (readsAt_list fun t _ depth => t.readsAt_toJson depth depth) ?_
    refine .cons rfl rfl (fun _ => rfl) (readsAt_list fun v _ depth => v.readsAt_toJson depth) ?_
    exact .nil _ _ _
  refine readsAt_record hmembers ?_ "struct Func" depth
  rfl

theorem Module.readsAt_toJson (depth : Nat) (m : Module) :
    ReadsAt depth (Module.decoder depth) m m.toJson := by
  have hmembers (depth : Nat) : ReadsMembers depth (Module.fields depth) {}
      [("name", .string m.name), ("funcs", .array (m.funcs.map Func.toJson))]
      ⟨some m.name, some m.funcs⟩ := by
    refine .cons rfl rfl (fun _ => rfl) (readsAt_text depth m.name) ?_
    refine .cons rfl rfl (fun _ => rfl) (readsAt_list fun f _ depth => f.readsAt_toJson depth) ?_
    exact .nil _ _ _
  refine readsAt_record hmembers ?_ "struct Module" depth
  rfl

theorem itemsNesting_map_le {α : Type} {toJson : α → Json} {depth : Nat}
    (hitem : ∀ a, (toJson a).nesting ≤ depth) (as : List α) :
    itemsNesting (as.map toJson) ≤ depth := by
  rw [itemsNesting_le_iff]
  intro j hj
  obtain ⟨a, -, rfl⟩ := List.mem_map.mp hj
  exact hitem a

theorem Func.nesting_toJson_le (f : Func) : f.toJson.nesting ≤ 3 := by
  have hexport : (Json.orNull (f.exportName.map .string)).nesting = 0 := by
    cases f.exportName <;> rfl
  have hvars : ∀ vs : List Var, itemsNesting (vs.map Var.toJson) ≤ 1 :=
    itemsNesting_map_le fun _ => Nat.le_refl 1
  have hresults : itemsNesting (f.results.map ValueType.toJson) ≤ 0 :=
    itemsNesting_map_le (fun _ => Nat.le_refl 0) f.results
  have hparams := hvars f.params
  have hlocals := hvars f.locals
  simp only [toJson, nesting, membersNesting, hexport]
  omega

/-- A module, its list of functions, a function, a list of variables and a variable: no description
is deeper. -/
theorem Module.nesting_toJson_le (m : Module) : m.toJson.nesting ≤ 5 := by
  have hfuncs := itemsNesting_map_le Func.nesting_toJson_le m.funcs
  simp only [toJson, nesting, membersNesting]
  omega

theorem Module.decode_toJson_text (m : Module) : decode Module.decoder m.toJson.text = .ok m := by
  have hnesting : m.toJson.nesting ≤ nestingLimit :=
    Nat.le_trans m.nesting_toJson_le (by decide)
  rw [decode_text, m.readsAt_toJson nestingLimit, if_pos hnesting]

theorem Module.load_toJson_text (m : Module) :
    load m.toJson.text = (m.validate.mapError .badName).map fun _ => m := by
  rw [load, m.decode_toJson_text]
  change (m.validate.mapError LoadError.badName >>= fun _ => .ok m) = _
  cases m.validate <;> rfl

/-- Every module is read back from its description. Loading the description gives the module just
when its names are in order, and otherwise an internal error that says what checking the names says:
a written description is never invalid input. -/
theorem Module.description_read_back (m : Module) :
    decode Module.decoder m.toJson.text = .ok m ∧
      (load m.toJson.text = .ok m ↔ m.validate = .ok ()) ∧
      ∀ e, m.validate = .error e →
        (load m.toJson.text).mapError CommandLine.loadDiagnostic =
          .error (.internal e.message) := by
  refine ⟨m.decode_toJson_text, ?_, ?_⟩
  · rw [m.load_toJson_text]
    cases m.validate with
    | error e => simp [Except.map, Except.mapError]
    | ok => simp [Except.map, Except.mapError]
  · intro e he
    rw [m.load_toJson_text, he]
    rfl

/-- A name with a quote, a backslash, a control character and a letter beyond ASCII, in a function
that is exported under the empty name. -/
theorem Module.description_read_back_odd_name :
    (load ("\x7b\"name\":\"m\",\"funcs\":[\x7b\"name\":\"f\",\"export\":\"\"," ++
        "\"params\":[\x7b\"name\":\"\\\"\\\\\\u0001é\",\"type\":\"u32\"\x7d]," ++
        "\"results\":[],\"locals\":[]\x7d]\x7d")).mapError CommandLine.loadDiagnostic =
      .error (.internal "invalid character in name $\"\\\x01é in func $f") := by
  have hload := (description_read_back ⟨"m", [⟨"f", some "", [⟨"\"\\\x01é", .u32⟩], [], []⟩]⟩).2.2
    (.invalid (.func "f") "\"\\\x01é") rfl
  refine Eq.trans (congrArg (fun text => (load text).mapError CommandLine.loadDiagnostic) ?_) hload
  decide +kernel

end Codegen.Wasm
