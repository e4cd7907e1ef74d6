import Codegen.Proofs.Ir.Emission
import Codegen.Proofs.Ir.OperandText

namespace Codegen.Ir

variable {n n' : Naming}

theorem Value.text_congr {v : Value} (h : n'.spelling? v.key = n.spelling? v.key) :
    v.text n' = v.text n := by
  rw [text, text, String.append_right_inj]
  cases v with
  | param key type => exact Naming.ident_eq_iff.mpr h
  | const key constant => rfl
  | result key operation type metadata => exact Naming.ident_eq_iff.mpr h

theorem Instruction.line_congr {i : Instruction} (hkey : n'.spelling? i.key = n.spelling? i.key)
    (hoperands : ∀ v ∈ i.operation.operands, n'.spelling? v.key = n.spelling? v.key) :
    i.line n' = i.line n := by
  have hitems :
      i.operation.operands.map (Value.text n') = i.operation.operands.map (Value.text n) :=
    List.map_congr_left fun v hv => Value.text_congr (hoperands v hv)
  rw [line, line, Naming.ident_eq_iff.mpr hkey, hitems]

theorem Terminator.text_congr {t : Terminator}
    (hoperands : ∀ v ∈ t.operands, n'.spelling? v.key = n.spelling? v.key) :
    t.text n' = t.text n := by
  cases t with
  | ret value =>
    cases value with
    | none => rfl
    | some v => rw [text, text, Value.text_congr (hoperands v List.mem_cons_self)]
  | unreachable => rfl

theorem Block.text_congr {b : Block} (hkeys : ∀ key ∈ b.keys, n'.spelling? key = n.spelling? key)
    (hinstructions : ∀ i ∈ b.instructions, ∀ v ∈ i.operation.operands,
      n'.spelling? v.key = n.spelling? v.key)
    (hterminator : ∀ t ∈ b.terminator, ∀ v ∈ t.operands, n'.spelling? v.key = n.spelling? v.key) :
    b.text n' = b.text n := by
  rw [keys, List.forall_mem_cons, List.forall_mem_map] at hkeys
  have hlines :
      b.instructions.map (Instruction.line n') = b.instructions.map (Instruction.line n) :=
    List.map_congr_left fun i hi => Instruction.line_congr (hkeys.2 i hi) (hinstructions i hi)
  have hlast : b.terminator.map (Terminator.text n') = b.terminator.map (Terminator.text n) :=
    Option.map_congr fun t ht => Terminator.text_congr (hterminator t ht)
  rw [text, text, body, body, hlines, hlast, Naming.label_eq_iff.mpr hkeys.1]

/-- The text of a function shows the spellings of its own identities and of its operands only. -/
theorem Function.text_congr {f : Function}
    (hkeys : ∀ key ∈ f.keys, n'.spelling? key = n.spelling? key)
    (hoperands : ∀ v ∈ f.operands, n'.spelling? v.key = n.spelling? v.key) :
    f.text n' = f.text n := by
  simp only [keys, operands, List.forall_mem_append, List.forall_mem_map, List.forall_mem_flatMap]
    at hkeys hoperands
  have hparams : f.params.map (fun p => p.value.text n') = f.params.map (fun p => p.value.text n) :=
    List.map_congr_left fun p hp => Value.text_congr (hkeys.1 p hp)
  have hblocks : f.blocks.map (Block.text n') = f.blocks.map (Block.text n) := by
    apply List.map_congr_left
    intro b hb
    obtain ⟨hinstructions, hterminator⟩ := hoperands b hb
    exact Block.text_congr (hkeys.2 b hb) hinstructions fun t ht =>
      hterminator t (by simpa using ht)
  rw [text, text, signature, signature, hparams, hblocks]

/-- Numbering does nothing where every identity has a spelling. -/
theorem Naming.numberFrom_of_isAssigned {keys : List Key} (start : Nat)
    (hkeys : ∀ key ∈ keys, n.isAssigned key = true) : n.numberFrom start keys = .ok n := by
  induction keys with
  | nil => rfl
  | cons key rest ih =>
    rw [List.forall_mem_cons] at hkeys
    rw [numberFrom, if_pos hkeys.1, ih hkeys.2]

/-- A pass over a function that was numbered before does nothing. -/
theorem Function.assignNumbers_again {f : Function} {m : Naming} (hkeys : f.keys.Nodup)
    (hpass : f.assignNumbers m = .ok n) (h : ∀ key ∈ f.keys, n'.spelling? key = n.spelling? key) :
    f.assignNumbers n' = .ok n' := by
  obtain ⟨_, hnumbers⟩ := assignNumbers_eq_ok hkeys hpass
  have hdistinct : n'.NamesDistinct f.keys := by
    rw [Naming.namesDistinct_congr fun key hkey => show n'.name? key = m.name? key by
      rw [← hnumbers.name?_eq, Naming.name?, Naming.name?, h key hkey]]
    exact (exists_assignNumbers_iff hkeys).mp ⟨n, hpass⟩
  rw [assignNumbers, localNames, Naming.firstRepeated_names_eq_none_iff.mpr hdistinct]
  apply Naming.numberFrom_of_isAssigned
  intro key hkey
  rw [Naming.isAssigned, h key hkey]
  exact hnumbers.isAssigned hkey

namespace Module

/-- No operand of a function is an identity of another function of the module. -/
def OperandsLocal (m : Module) : Prop :=
  m.functions.Pairwise fun f g =>
    (∀ v ∈ f.operands, v.key ∉ g.keys) ∧ ∀ v ∈ g.operands, v.key ∉ f.keys

instance (m : Module) : Decidable m.OperandsLocal :=
  inferInstanceAs (Decidable (m.functions.Pairwise _))

/-- Printing again after printing once gives the same text or error, and numbers nothing more,
whatever stands before the functions. -/
theorem emitAfter_again (n : Naming) (out out' : String) {functions : List Function}
    (hkeys : (functions.flatMap Function.keys).Nodup)
    (hlocal : functions.Pairwise fun f g => ∀ v ∈ f.operands, v.key ∉ g.keys) :
    emitAfter (emitAfter n out' functions).2 out functions =
      ((emitAfter n out functions).1, (emitAfter n out' functions).2) := by
  induction functions generalizing n out out' with
  | nil => rfl
  | cons f rest ih =>
    rw [List.pairwise_cons] at hlocal
    rw [List.flatMap_cons, List.nodup_append'] at hkeys
    obtain ⟨hf, hrest, hdisjoint⟩ := hkeys
    cases hpass : f.assignNumbers n with
    | error e => simp only [emitAfter, hpass]
    | ok n₁ =>
      rw [emitAfter_cons out rest hpass, emitAfter_cons out' rest hpass]
      generalize (if out'.isEmpty then "" else out' ++ "\n") ++ f.text n₁ = next'
      -- What is numbered later is neither an identity of `f` nor one of its operands.
      have hkept {key : Key} (hkey : key ∉ rest.flatMap Function.keys) :
          (emitAfter n₁ next' rest).2.spelling? key = n₁.spelling? key :=
        (Session.touches_emitAfter next' hrest).kept key (.inr hkey)
      have hown : ∀ key ∈ f.keys,
          (emitAfter n₁ next' rest).2.spelling? key = n₁.spelling? key :=
        fun key hkey => hkept (hdisjoint hkey)
      have hoperands : ∀ v ∈ f.operands,
          (emitAfter n₁ next' rest).2.spelling? v.key = n₁.spelling? v.key := by
        intro v hv
        apply hkept
        rw [List.mem_flatMap]
        rintro ⟨g, hg, hkey⟩
        exact hlocal.1 g hg v hv hkey
      rw [emitAfter_cons out rest (Function.assignNumbers_again hf hpass hown),
        Function.text_congr hown hoperands]
      exact ih n₁ _ next' hrest hlocal.2

theorem OperandsLocal.emit_again {m : Module} (hm : m.OperandsLocal)
    (hkeys : (m.functions.flatMap Function.keys).Nodup) (n : Naming)
    (withHeader withHeader' : Bool) :
    m.emit withHeader (m.emit withHeader' n).2 =
      ((m.emit withHeader n).1, (m.emit withHeader' n).2) :=
  emitAfter_again n _ _ hkeys (hm.imp And.left)

end Module

end Codegen.Ir

namespace Codegen.Program

open Ir

/-- The results of compiling several times, one after the other. -/
def compileEach (p : Program) (n : Naming) : List Options → List (Except Diagnostic String)
  | [] => []
  | options :: rest => (p.compile options n).1 :: p.compileEach (p.compile options n).2 rest

/-- A program is compiled from the naming that it was built with, or from the one that printing its
module has left. -/
def Compiled (p : Program) (n n' : Naming) : Prop :=
  n' = n ∨ ∃ withHeader, n' = (p.ir.emit withHeader n).2

variable {p : Program} {n n' : Naming}

/-- Compiling once more returns what it would have returned at first. -/
theorem Compiled.compile (hlocal : p.ir.OperandsLocal)
    (hkeys : (p.ir.functions.flatMap Function.keys).Nodup) (h : p.Compiled n n')
    (options : Options) :
    (p.compile options n').1 = (p.compile options n).1 ∧ p.Compiled n (p.compile options n').2 := by
  obtain ⟨target, header⟩ := options
  cases target with
  | wasm32 => exact ⟨rfl, h⟩
  | wasm32Wasi => exact ⟨rfl, h⟩
  | ir64 =>
    obtain rfl | ⟨withHeader, rfl⟩ := h
    · exact ⟨rfl, .inr ⟨header, rfl⟩⟩
    · have hagain := hlocal.emit_again hkeys n header withHeader
      exact ⟨congrArg (fun run => run.1.mapError (·.diagnostic none)) hagain,
        .inr ⟨withHeader, congrArg Prod.snd hagain⟩⟩

theorem Compiled.compileEach_eq (hlocal : p.ir.OperandsLocal)
    (hkeys : (p.ir.functions.flatMap Function.keys).Nodup) (h : p.Compiled n n')
    (calls : List Options) :
    p.compileEach n' calls = calls.map fun options => (p.compile options n).1 := by
  induction calls generalizing n' with
  | nil => rfl
  | cons options rest ih =>
    obtain ⟨hresult, hnext⟩ := h.compile hlocal hkeys options
    rw [compileEach, List.map_cons, hresult, ih hnext]

/-- Calls with the same options return the same, wherever they stand in a sequence of calls. -/
theorem compileEach_repeatable {s : Session} (hs : s.Reachable) (hp : p.ir = s.module)
    (hlocal : p.ir.OperandsLocal) (calls : List Options) {i j : Nat} {options : Options}
    (hi : calls[i]? = some options) (hj : calls[j]? = some options) :
    ∃ result, (p.compileEach s.naming calls)[i]? = some result ∧
      (p.compileEach s.naming calls)[j]? = some result := by
  have hkeys := hs.owned.module_keys_nodup
  rw [← hp] at hkeys
  have heach := Compiled.compileEach_eq hlocal hkeys (.inl rfl : p.Compiled s.naming s.naming) calls
  exact ⟨_, by rw [heach, List.getElem?_map, hi]; rfl, by rw [heach, List.getElem?_map, hj]; rfl⟩

/-- The first call numbers `f` and is refused at `g`, which has a name twice; so is the third. -/
theorem compileEach_repeatable_after_refusal :
    let s := (Session.start "m").run [.function "f" .i32, .param 0 "" (.vector 2 .i32),
      .param 0 "" .i32, .block none,
      .build 0 (.extractElement (.param ⟨0⟩ (.vector 2 .i32)) (.param ⟨1⟩ .i32)), .addBlock 0 0,
      .addFunction 0, .function "g" .void, .param 0 "x" .i32, .param 0 "x" .i32, .addFunction 0]
    let p : Program := ⟨"m", s.module, ⟨"m", []⟩⟩
    let calls : List Options := [⟨.ir64, true⟩, ⟨.wasm32, false⟩, ⟨.ir64, true⟩]
    p.ir.OperandsLocal ∧ ∃ result, (p.compileEach s.naming calls)[0]? = some result ∧
      (p.compileEach s.naming calls)[2]? = some result :=
  ⟨by decide, compileEach_repeatable ⟨"m", _, rfl⟩ rfl (by decide) _ rfl rfl⟩

end Codegen.Program
