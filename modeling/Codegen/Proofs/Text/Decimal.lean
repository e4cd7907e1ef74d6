import Mathlib.Data.List.TakeDrop
import Mathlib.Logic.Function.Basic

namespace Codegen.Text

/-- The text is empty or starts with a character outside a class. -/
def StartsOutside (isMember : Char → Bool) (text : List Char) : Prop :=
  ∀ c ∈ text.head?, isMember c = false

@[simp] theorem startsOutside_nil (isMember : Char → Bool) : StartsOutside isMember [] := by
  simp [StartsOutside]

@[simp] theorem startsOutside_cons (isMember : Char → Bool) (c : Char) (rest : List Char) :
    StartsOutside isMember (c :: rest) ↔ isMember c = false := by
  simp [StartsOutside]

/-- Cutting a text at the first character outside a class undoes appending a text that starts
outside it. -/
theorem span_append {isMember : Char → Bool} {front rest : List Char}
    (hfront : ∀ c ∈ front, isMember c = true) (hrest : StartsOutside isMember rest) :
    (front ++ rest).span isMember = (front, rest) := by
  rw [List.span_eq_takeWhile_dropWhile, List.takeWhile_append_of_pos hfront,
    List.dropWhile_append_of_pos hfront]
  cases rest with
  | nil => simp
  | cons c rest =>
    rw [startsOutside_cons] at hrest
    simp [hrest]

/-- The number that a text starts with, and what follows it. -/
def readNat? (text : List Char) : Option (Nat × List Char) :=
  match text.span Char.isDigit with
  | ([], _) => none
  | (digits, rest) => some (Nat.ofDigitChars 10 digits 0, rest)

theorem exists_digits_of_repr (value : Nat) :
    ∃ c digits, (Nat.repr value).toList = c :: digits ∧ ∀ d ∈ c :: digits, d.isDigit = true := by
  obtain ⟨c, digits, hdigits⟩ :=
    List.exists_cons_of_ne_nil (Nat.toDigits_ne_nil (n := value) (b := 10))
  refine ⟨c, digits, by rw [Nat.toList_repr, hdigits], ?_⟩
  intro d hd
  rw [← hdigits] at hd
  exact Nat.isDigit_of_mem_toDigits (by decide) (by decide) hd

theorem readNat?_repr (value : Nat) {rest : List Char} (hrest : StartsOutside Char.isDigit rest) :
    readNat? ((Nat.repr value).toList ++ rest) = some (value, rest) := by
  obtain ⟨c, digits, hrepr, hdigits⟩ := exists_digits_of_repr value
  have hvalue : Nat.ofDigitChars 10 (c :: digits) 0 = value := by
    rw [← hrepr, Nat.toList_repr, Nat.ofDigitChars_ten_toDigits]
  rw [readNat?, hrepr, span_append hdigits hrest]
  simp only [hvalue]

theorem repr_injective : Function.Injective Nat.repr := by
  intro m n h
  have hm := readNat?_repr m (startsOutside_nil _)
  rw [h, readNat?_repr n (startsOutside_nil _)] at hm
  exact (congrArg Prod.fst (Option.some.inj hm)).symm

end Codegen.Text
