import Codegen.Proofs.Wasm.Names
import Mathlib.Data.List.Nodup

namespace Codegen.Wasm

/-- Printable ASCII other than the blank, quotes, commas, semicolons and brackets. -/
def IsIdentChar (c : Char) : Prop :=
  '!' ≤ c ∧ c ≤ '~' ∧ c ∉ ['"', '(', ')', ',', ';', '[', ']', '\x7b', '\x7d']

instance (c : Char) : Decidable (IsIdentChar c) :=
  inferInstanceAs (Decidable (_ ∧ _ ∧ _))

/-- A non-empty sequence of identifier characters. -/
def IsIdent (name : String) : Prop :=
  name ≠ "" ∧ ∀ c ∈ name.toList, IsIdentChar c

theorem toNat_lt_of_isIdChar {c : Char} (hc : isIdChar c = true) : c.toNat < 128 := by
  have hsigns : "!#$%&'*+-./:<=>?@\\^_`|~".toList.all (fun d => decide (d.toNat < 128)) = true := by
    decide
  rw [isIdChar, Bool.or_eq_true, List.contains_iff_mem] at hc
  rcases hc with halphanum | hsign
  · change (c.isUpper || c.isLower || c.isDigit) = true at halphanum
    rw [Bool.or_eq_true, Bool.or_eq_true] at halphanum
    rcases halphanum with (hupper | hlower) | hdigit
    · have hle : c.toNat ≤ 'Z'.toNat := (of_decide_eq_true hupper).2
      exact Nat.lt_of_le_of_lt hle (by decide)
    · have hle : c.toNat ≤ 'z'.toNat := of_decide_eq_true (Bool.and_eq_true_iff.mp hlower).2
      exact Nat.lt_of_le_of_lt hle (by decide)
    · have hle : c.toNat ≤ '9'.toNat := of_decide_eq_true (Bool.and_eq_true_iff.mp hdigit).2
      exact Nat.lt_of_le_of_lt hle (by decide)
  · exact of_decide_eq_true (List.all_eq_true.mp hsigns c hsign)

theorem isIdChar_iff (c : Char) : isIdChar c = true ↔ IsIdentChar c := by
  have hascii : ∀ n < 128, isIdChar (Char.ofNat n) = decide (IsIdentChar (Char.ofNat n)) := by
    decide +kernel
  by_cases hc : c.toNat < 128
  · have hchar := hascii c.toNat hc
    rw [Char.ofNat_toNat] at hchar
    simp [hchar]
  · refine iff_of_false (fun h => hc (toNat_lt_of_isIdChar h)) fun h => hc ?_
    have hle : c.toNat ≤ '~'.toNat := h.2.1
    exact Nat.lt_of_le_of_lt hle (by decide)

/-- What is wrong with a name by itself. -/
inductive Misnamed (scope : Scope) : String → NameError → Prop where
  | empty : Misnamed scope "" (.empty scope)
  | invalid {name : String} {c : Char} (hmem : c ∈ name.toList) (hc : ¬ IsIdentChar c) :
    Misnamed scope name (.invalid scope name)

theorem Misnamed.not_isIdent {scope : Scope} {name : String} {e : NameError}
    (h : Misnamed scope name e) : ¬ IsIdent name := by
  intro hname
  cases h with
  | empty => exact hname.1 rfl
  | invalid hmem hc => exact hc (hname.2 _ hmem)

theorem checkName_eq_error_iff {scope : Scope} {name : String} {e : NameError} :
    checkName scope name = .error e ↔ Misnamed scope name e := by
  constructor
  · intro h
    rw [checkName] at h
    split at h
    case isTrue hempty =>
      obtain rfl : name = "" := by simpa using hempty
      cases h
      exact .empty
    case isFalse hempty =>
      split at h
      case isTrue hall => cases h
      case isFalse hall =>
        obtain ⟨c, hmem, hc⟩ : ∃ c ∈ name.toList, isIdChar c = false := by simpa using hall
        cases h
        refine .invalid hmem fun hident => ?_
        rw [(isIdChar_iff c).mpr hident] at hc
        cases hc
  · intro h
    cases h with
    | empty => rfl
    | invalid hmem hc =>
      have hne : ¬ name.isEmpty = true := by
        intro hempty
        obtain rfl : name = "" := by simpa using hempty
        simp at hmem
      have hall : ¬ name.toList.all isIdChar = true := by
        intro hall
        exact hc ((isIdChar_iff _).mp (List.all_eq_true.mp hall _ hmem))
      rw [checkName, if_neg hne, if_neg hall]

theorem Misnamed.error_eq {scope : Scope} {name : String} {e e' : NameError}
    (h : Misnamed scope name e) (h' : Misnamed scope name e') : e = e' := by
  have hcheck := checkName_eq_error_iff.mpr h
  rw [checkName_eq_error_iff.mpr h'] at hcheck
  exact (Except.error.inj hcheck).symm

section Each

variable {α : Type}

/-- The item at a position is refused, by its own check or else because its name is taken. -/
inductive Refused (check : α → Except NameError Unit) (name : α → String) (scope : Scope)
    (seen : List String) (items : List α) : Nat → NameError → Prop where
  | check {j : Nat} {x : α} {e : NameError} (hx : items[j]? = some x)
    (hcheck : check x = .error e) : Refused check name scope seen items j e
  | seen {j : Nat} {x : α} (hx : items[j]? = some x) (hcheck : check x = .ok ())
    (hseen : name x ∈ seen) : Refused check name scope seen items j (.duplicate scope (name x))
  | earlier {i j : Nat} {x y : α} (hx : items[j]? = some x) (hcheck : check x = .ok ())
    (hij : i < j) (hy : items[i]? = some y) (hname : name y = name x) :
    Refused check name scope seen items j (.duplicate scope (name x))

variable {check : α → Except NameError Unit} {name : α → String} {scope : Scope}
  {seen : List String} {x : α} {items : List α} {e : NameError}

theorem Refused.succ {j : Nat} (h : Refused check name scope (name x :: seen) items j e) :
    Refused check name scope seen (x :: items) (j + 1) e := by
  cases h with
  | check hx hcheck => exact .check hx hcheck
  | seen hx hcheck hseen =>
    rcases List.mem_cons.mp hseen with hname | hseen
    · exact .earlier hx hcheck (Nat.zero_lt_succ j) rfl hname.symm
    · exact .seen hx hcheck hseen
  | earlier hx hcheck hij hy hname => exact .earlier hx hcheck (Nat.succ_lt_succ hij) hy hname

end Each

/-- Where a function can break a rule: at its own name, or at a variable, which is given by its
position among the parameters and then the locals. -/
inductive FuncPlace where
  | name
  | var (index : Nat)
  deriving DecidableEq, Repr

namespace Func

/-- What is wrong at a place of a function. A bad name comes before a repeated one. -/
inductive Breaks (f : Func) : FuncPlace → NameError → Prop where
  | name {e : NameError} (hname : Misnamed f.scope f.name e) : f.Breaks .name e
  | var {j : Nat} {v : Var} {e : NameError} (hv : f.vars[j]? = some v)
    (hname : Misnamed f.scope v.name e) : f.Breaks (.var j) e
  | repeated {i j : Nat} {u v : Var} (hij : i < j) (hu : f.vars[i]? = some u)
    (hv : f.vars[j]? = some v) (hname : IsIdent v.name) (hsame : u.name = v.name) :
    f.Breaks (.var j) (.duplicate f.scope v.name)

variable {f : Func} {e : NameError}

theorem Breaks.error_eq {e' : NameError} {p : FuncPlace} (h : f.Breaks p e)
    (h' : f.Breaks p e') : e = e' := by
  cases h with
  | name h =>
    cases h' with
    | name h' => exact h.error_eq h'
  | var hv h =>
    cases h' with
    | var hv' h' =>
      cases hv.symm.trans hv'
      exact h.error_eq h'
    | repeated _ _ hv' hname' =>
      cases hv.symm.trans hv'
      exact absurd hname' h.not_isIdent
  | repeated _ _ hv hname =>
    cases h' with
    | var hv' h' =>
      cases hv.symm.trans hv'
      exact absurd hname h'.not_isIdent
    | repeated _ _ hv' =>
      cases hv.symm.trans hv'
      rfl

end Func

/-- Where a module can break a rule: at its own name, in one of its functions, or at a function
whose name comes again. Functions are given by their positions. -/
inductive Place where
  | name
  | inFunc (func : Nat) (place : FuncPlace)
  | repeatedFunc (func : Nat)
  deriving DecidableEq, Repr

namespace Module

/-- What is wrong at a place of a module. -/
inductive Breaks (m : Module) : Place → NameError → Prop where
  | name {e : NameError} (hname : Misnamed .document m.name e) : m.Breaks .name e
  | inFunc {i : Nat} {f : Func} {p : FuncPlace} {e : NameError} (hf : m.funcs[i]? = some f)
    (hp : f.Breaks p e) : m.Breaks (.inFunc i p) e
  | repeatedFunc {i j : Nat} {f g : Func} (hij : i < j) (hg : m.funcs[i]? = some g)
    (hf : m.funcs[j]? = some f) (hsame : g.name = f.name) :
    m.Breaks (.repeatedFunc j) (.duplicate m.scope f.name)

variable {m : Module} {e e' : NameError}

/-- At one place one thing is wrong. -/
theorem Breaks.error_eq {p : Place} (h : m.Breaks p e) (h' : m.Breaks p e') : e = e' := by
  cases h with
  | name h =>
    cases h' with
    | name h' => exact h.error_eq h'
  | inFunc hf hp =>
    cases h' with
    | inFunc hf' hp' =>
      cases hf.symm.trans hf'
      exact hp.error_eq hp'
  | repeatedFunc _ _ hf _ =>
    cases h' with
    | repeatedFunc _ _ hf' _ =>
      cases hf.symm.trans hf'
      rfl

/-- The function at a position is refused. -/
abbrev Refuses (m : Module) (i : Nat) (e : NameError) : Prop :=
  Refused Func.validate Func.name m.scope [] m.funcs i e

/-- A local with a blank in its name is reported before the name of its function that comes again,
and before the local that comes again behind it. -/
example : validate ⟨"m", [⟨"f", none, [⟨"x", .u32⟩], [], []⟩,
    ⟨"f", none, [⟨"x", .i32⟩], [], [⟨"a b", .f32⟩, ⟨"x", .i64⟩]⟩]⟩ =
      .error (.invalid (.func "f") "a b") := by
  rfl

end Module

end Codegen.Wasm
