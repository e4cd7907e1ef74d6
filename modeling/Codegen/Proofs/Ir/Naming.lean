import Codegen.Ir.Naming
import Codegen.Proofs.Ir.Spelling

namespace Codegen.Ir.Naming

variable {n n' : Naming}

theorem isAssigned_eq_true_iff {key : Key} :
    n.isAssigned key = true ↔ ∃ s, n.spelling? key = some s := by
  rw [isAssigned, Option.isSome_iff_exists]

theorem isAssigned_eq_false_iff {key : Key} :
    n.isAssigned key = false ↔ n.spelling? key = none := by
  rw [isAssigned, Option.isSome_eq_false_iff, Option.isNone_iff_eq_none]

theorem number?_eq_some_iff {key : Key} {value : Nat} :
    n.number? key = some value ↔ n.spelling? key = some (.number value) := by
  rw [number?, Option.bind_eq_some_iff]
  constructor
  · rintro ⟨s, hs, hvalue⟩
    cases s with
    | name text => cases hvalue
    | number v => rwa [← Option.some.inj hvalue]
  · intro h
    exact ⟨_, h, rfl⟩

theorem name?_eq_some_iff {key : Key} {text : String} :
    n.name? key = some text ↔ n.spelling? key = some (.name text) := by
  rw [name?, Option.bind_eq_some_iff]
  constructor
  · rintro ⟨s, hs, htext⟩
    cases s with
    | name t => rwa [← Option.some.inj htext]
    | number v => cases htext
  · intro h
    exact ⟨_, h, rfl⟩

/-- Every assigned identity has a name or a number. -/
theorem name?_or_number?_of_isAssigned {key : Key} (hkey : n.isAssigned key = true) :
    (∃ text, n.name? key = some text) ∨ ∃ value, n.number? key = some value := by
  obtain ⟨s, hs⟩ := isAssigned_eq_true_iff.mp hkey
  cases s with
  | name text => exact .inl ⟨text, name?_eq_some_iff.mpr hs⟩
  | number value => exact .inr ⟨value, number?_eq_some_iff.mpr hs⟩

theorem ident_of_spelling? {key : Key} {s : Spelling} (hs : n.spelling? key = some s) :
    n.ident key = s.ident := by
  simp only [ident, label, hs, Spelling.ident]

/-- Two identities that have a spelling are printed alike only if they share it. -/
theorem ident_eq_ident_iff {key key' : Key} (hkey : n.isAssigned key = true)
    (hkey' : n.isAssigned key' = true) :
    n.ident key = n.ident key' ↔ n.spelling? key = n.spelling? key' := by
  obtain ⟨s, hs⟩ := isAssigned_eq_true_iff.mp hkey
  obtain ⟨s', hs'⟩ := isAssigned_eq_true_iff.mp hkey'
  rw [ident_of_spelling? hs, ident_of_spelling? hs', hs, hs', Option.some.injEq,
    Spelling.ident_injective.eq_iff]

theorem lookup_cons {α : Type} (key key' : Key) (a : α) (entries : List (Key × α)) :
    ((key, a) :: entries).lookup key' = if key' = key then some a else entries.lookup key' := by
  by_cases h : key' = key
  · rw [List.lookup_cons, if_pos h, beq_iff_eq.mpr h]
  · rw [List.lookup_cons, if_neg h, beq_eq_false_iff_ne.mpr h]

theorem assign_of_unassigned {key : Key} (hkey : n.spelling? key = none) (s : Spelling) :
    n.assign key s = .ok { n with entries := (key, s) :: n.entries } := by
  rw [assign, hkey]

/-- Assigning succeeds only for an identity without a spelling. -/
theorem assign_eq_ok {key : Key} {s : Spelling} (h : n.assign key s = .ok n') :
    n.spelling? key = none ∧ n' = { n with entries := (key, s) :: n.entries } := by
  cases hkey : n.spelling? key with
  | none =>
    rw [assign_of_unassigned hkey] at h
    exact ⟨rfl, (Except.ok.inj h).symm⟩
  | some existing => simp [assign, hkey] at h

theorem next_assign {key : Key} {s : Spelling} (h : n.assign key s = .ok n') :
    n'.next = n.next := by
  rw [(assign_eq_ok h).2]

theorem spelling?_assign {key : Key} {s : Spelling} (h : n.assign key s = .ok n') (key' : Key) :
    n'.spelling? key' = if key' = key then some s else n.spelling? key' := by
  rw [(assign_eq_ok h).2, spelling?, lookup_cons]
  rfl

/-- Only keys that were handed out have a spelling. -/
def Bounded (n : Naming) : Prop :=
  ∀ key, n.isAssigned key = true → key.index < n.next

theorem Bounded.spelling?_eq_none (hn : n.Bounded) {key : Key} (hkey : n.next ≤ key.index) :
    n.spelling? key = none := by
  rw [← isAssigned_eq_false_iff]
  by_contra hassigned
  have hlt := hn key (by simpa using hassigned)
  omega

theorem next_fresh (n : Naming) (s : Option Spelling) : (n.fresh s).2.next = n.next + 1 :=
  rfl

theorem Bounded.spelling?_fresh (hn : n.Bounded) (s : Option Spelling) (key : Key) :
    (n.fresh s).2.spelling? key = if key = ⟨n.next⟩ then s else n.spelling? key := by
  cases s with
  | none =>
    by_cases hkey : key = ⟨n.next⟩
    · rw [if_pos hkey]
      exact hn.spelling?_eq_none (by simp [hkey])
    · rw [if_neg hkey]
      rfl
  | some s => exact lookup_cons ⟨n.next⟩ key s n.entries

theorem Bounded.fresh (hn : n.Bounded) (s : Option Spelling) : (n.fresh s).2.Bounded := by
  intro key hkey
  rw [next_fresh]
  by_cases heq : key = ⟨n.next⟩
  · rw [heq]
    exact Nat.lt_succ_self _
  · rw [isAssigned, hn.spelling?_fresh, if_neg heq] at hkey
    exact Nat.lt_succ_of_lt (hn key hkey)

/-- A new identity that gets no number changes no number. -/
theorem Bounded.number?_fresh (hn : n.Bounded) {s : Option Spelling}
    (hs : s.bind Spelling.number? = none) (key : Key) :
    (n.fresh s).2.number? key = n.number? key := by
  rw [number?, number?, hn.spelling?_fresh]
  by_cases hkey : key = ⟨n.next⟩
  · rw [if_pos hkey, hs, hn.spelling?_eq_none (by simp [hkey])]
    rfl
  · rw [if_neg hkey]

theorem bind_number?_ofName? (text : String) :
    (Spelling.ofName? text).bind Spelling.number? = none := by
  unfold Spelling.ofName?
  split <;> rfl

/-- Naming an identity changes no number. -/
theorem number?_setName (n : Naming) (key : Key) (name : String) (key' : Key) :
    ((n.setName key name).toOption.getD n).number? key' = n.number? key' := by
  have hname := bind_number?_ofName? name
  unfold setName
  split
  · next s hs =>
    rw [hs] at hname
    cases h : n.assign key s with
    | error e => rfl
    | ok n' =>
      change n'.number? key' = n.number? key'
      rw [number?, number?, spelling?_assign h]
      by_cases hkey : key' = key
      · rw [if_pos hkey, hkey, (assign_eq_ok h).1]
        exact hname
      · rw [if_neg hkey]
  · rfl

end Codegen.Ir.Naming
