import Mathlib.Data.List.Basic

namespace Codegen.Text

variable {α : Type}

/-- At least one item, up to and with the closing character. The bound is on the number of items. -/
def readItems (item : List Char → Option (α × List Char)) (close : Char) :
    Nat → List Char → Option (List α × List Char)
  | 0, _ => none
  | bound + 1, text =>
    match item text with
    | some (a, c :: rest) =>
      if c = close then some ([a], rest)
      else if c = ',' ∧ rest.head? = some ' ' then
        (readItems item close bound rest.tail).map fun (as, rest) => (a :: as, rest)
      else none
    | _ => none

/-- Any number of items, up to and with the closing character. -/
def readSequence (item : List Char → Option (α × List Char)) (close : Char) (bound : Nat)
    (text : List Char) : Option (List α × List Char) :=
  if text.head? = some close then some ([], text.tail) else readItems item close bound text

variable {item : List Char → Option (α × List Char)} {close : Char} {spell : α → List Char}

/-- Items are read back when each of them is, in front of a comma and of the closing character. -/
theorem readItems_intercalate (hclose : close ≠ ',') {a : α} {as : List α} {bound : Nat}
    (hbound : as.length < bound)
    (hitem : ∀ b ∈ a :: as, ∀ c rest, c = ',' ∨ c = close →
      item (spell b ++ c :: rest) = some (b, c :: rest)) (rest : List Char) :
    readItems item close bound ([',', ' '].intercalate ((a :: as).map spell) ++ close :: rest) =
      some (a :: as, rest) := by
  induction as generalizing a bound with
  | nil =>
    obtain ⟨bound, rfl⟩ := Nat.exists_eq_add_one.mpr hbound
    have hlast := hitem a List.mem_cons_self close rest (.inr rfl)
    simp [readItems, hlast]
  | cons b bs ih =>
    obtain ⟨bound, rfl⟩ := Nat.exists_eq_add_one.mpr (Nat.zero_lt_of_lt hbound)
    have hlength : bs.length < bound := by simpa using hbound
    have hrest := ih hlength fun c hc => hitem c (List.mem_cons_of_mem a hc)
    have hfirst := hitem a List.mem_cons_self ','
      (' ' :: ([',', ' '].intercalate ((b :: bs).map spell) ++ close :: rest)) (.inl rfl)
    have htext : [',', ' '].intercalate ((a :: b :: bs).map spell) ++ close :: rest = spell a ++
        ',' :: ' ' :: ([',', ' '].intercalate ((b :: bs).map spell) ++ close :: rest) := by
      simp
    rw [htext, readItems, hfirst]
    simpa [hclose.symm] using hrest

theorem readSequence_intercalate (hclose : close ≠ ',') {as : List α} {bound : Nat}
    (hbound : as.length ≤ bound)
    (hhead : ∀ b ∈ as, ∃ c cs, spell b = c :: cs ∧ c ≠ close)
    (hitem : ∀ b ∈ as, ∀ c rest, c = ',' ∨ c = close →
      item (spell b ++ c :: rest) = some (b, c :: rest)) (rest : List Char) :
    readSequence item close bound ([',', ' '].intercalate (as.map spell) ++ close :: rest) =
      some (as, rest) := by
  cases as with
  | nil => simp [readSequence]
  | cons a as =>
    obtain ⟨c, cs, hspell, hc⟩ := hhead a List.mem_cons_self
    have hne :
        ([',', ' '].intercalate ((a :: as).map spell) ++ close :: rest).head? ≠ some close := by
      cases as <;> simp [hspell, hc]
    rw [readSequence, if_neg hne]
    exact readItems_intercalate hclose hbound hitem rest

theorem length_le_intercalate_of_mem {sep text : List Char} {texts : List (List Char)}
    (htext : text ∈ texts) : text.length ≤ (sep.intercalate texts).length := by
  induction texts with
  | nil => cases htext
  | cons first texts ih =>
    cases texts with
    | nil => simp_all
    | cons second texts =>
      rcases List.mem_cons.mp htext with rfl | hmem
      · simp
      · have hle := ih hmem
        simp only [List.intercalate_cons_cons, List.length_append]
        omega

/-- Texts that are not empty are no more than the characters of their sequence. -/
theorem length_le_intercalate {sep : List Char} {texts : List (List Char)}
    (htexts : ∀ text ∈ texts, 0 < text.length) :
    texts.length ≤ (sep.intercalate texts).length := by
  induction texts with
  | nil => simp
  | cons first texts ih =>
    have hfirst := htexts first List.mem_cons_self
    have hrest := ih fun text htext => htexts text (List.mem_cons_of_mem _ htext)
    cases texts with
    | nil =>
      simp
      omega
    | cons second texts =>
      simp only [List.intercalate_cons_cons, List.length_append, List.length_cons] at hrest ⊢
      omega

end Codegen.Text
