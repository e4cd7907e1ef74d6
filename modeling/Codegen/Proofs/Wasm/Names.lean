import Codegen.Wasm.Module

namespace Codegen.Wasm

/-- A non-empty sequence of identifier characters. -/
def IsName (name : String) : Prop :=
  name ≠ "" ∧ ∀ c ∈ name.toList, isIdChar c = true

theorem checkName_eq_ok_iff {scope : Scope} {name : String} :
    checkName scope name = .ok () ↔ IsName name := by
  rw [checkName, IsName]
  split
  case isTrue hempty => exact iff_of_false (by simp) fun h => h.1 (by simpa using hempty)
  case isFalse hempty =>
    have hne : name ≠ "" := by simpa using hempty
    split
    case isTrue hall => exact iff_of_true rfl ⟨hne, List.all_eq_true.mp hall⟩
    case isFalse hall => exact iff_of_false (by simp) fun h => hall (List.all_eq_true.mpr h.2)

theorem seq_eq_ok_iff {first next : Except NameError Unit} :
    (do first; next) = .ok () ↔ first = .ok () ∧ next = .ok () := by
  cases first with
  | error e => exact iff_of_false (fun h => by cases h) fun h => by cases h.1
  | ok => exact (and_iff_right rfl).symm

/-- How the checks of a sequence go on from one member to the next. -/
theorem check_seq_eq_ok_iff {first next : Except NameError Unit} {repeated : Prop}
    [Decidable repeated] {e : NameError} :
    (do
      first
      if repeated then throw e
      next) = .ok () ↔ first = .ok () ∧ ¬ repeated ∧ next = .ok () := by
  rw [seq_eq_ok_iff]
  by_cases hrepeated : repeated
  · simp only [if_pos hrepeated]
    exact iff_of_false (fun h => by cases h.2) fun h => h.2.1 hrepeated
  · simp only [if_neg hrepeated]
    rw [and_iff_right hrepeated]

theorem checkNames_eq_ok_iff {scope : Scope} {seen names : List String} :
    checkNames scope seen names = .ok () ↔
      (∀ name ∈ names, IsName name) ∧ names.Nodup ∧ ∀ name ∈ names, name ∉ seen := by
  induction names generalizing seen with
  | nil => simp [checkNames]
  | cons name rest ih =>
    rw [checkNames, check_seq_eq_ok_iff, checkName_eq_ok_iff, ih]
    grind

theorem Func.validate_eq_ok_iff {f : Func} :
    f.validate = .ok () ↔
      IsName f.name ∧ (∀ v ∈ f.vars, IsName v.name) ∧ (f.vars.map Var.name).Nodup := by
  rw [validate, seq_eq_ok_iff, checkName_eq_ok_iff, checkNames_eq_ok_iff]
  simp

theorem checkFuncs_eq_ok_iff {scope : Scope} {seen : List String} {funcs : List Func} :
    checkFuncs scope seen funcs = .ok () ↔
      (∀ f ∈ funcs, f.validate = .ok ()) ∧ (funcs.map Func.name).Nodup ∧
        ∀ f ∈ funcs, f.name ∉ seen := by
  induction funcs generalizing seen with
  | nil => simp [checkFuncs]
  | cons f rest ih =>
    rw [checkFuncs, check_seq_eq_ok_iff, ih]
    grind

theorem Module.validate_eq_ok_iff {m : Module} :
    m.validate = .ok () ↔
      IsName m.name ∧ (∀ f ∈ m.funcs, f.validate = .ok ()) ∧ (m.funcs.map Func.name).Nodup := by
  rw [validate, seq_eq_ok_iff, checkName_eq_ok_iff, checkFuncs_eq_ok_iff]
  simp

end Codegen.Wasm
