import Codegen.Ir.Spelling
import Codegen.Proofs.Text.Decimal
import Codegen.Proofs.Text.Escape

namespace Codegen.Ir

/-- A plain name starts with a character that opens neither a number nor a quoted name. -/
theorem exists_cons_of_isPlainName {name : String} (hplain : isPlainName name = true) :
    ∃ c rest, name.toList = c :: rest ∧ c.isDigit = false ∧ isPlainChar c = true := by
  unfold isPlainName at hplain
  split at hplain
  · cases hplain
  · next c rest hname =>
    simp only [List.all_cons, Bool.and_eq_true, Bool.not_eq_true'] at hplain
    exact ⟨c, rest, hname, hplain.1, hplain.2.1⟩

theorem quoteName_of_isPlainName {name : String} (hplain : isPlainName name = true) :
    quoteName name = name :=
  if_pos hplain

theorem toList_quoteName {name : String} (hplain : ¬ isPlainName name = true) :
    (quoteName name).toList = '"' :: ((Text.escape .upper name).toList ++ ['"']) := by
  rw [quoteName, if_neg hplain]
  simp

/-- A quoted name never equals a plain one, since no plain name holds a quote. -/
theorem quoteName_ne_of_isPlainName {quoted plain : String} (hquoted : ¬ isPlainName quoted = true)
    (hplain : isPlainName plain = true) : quoteName quoted ≠ plain := by
  intro h
  obtain ⟨c, rest, hname, _, hc⟩ := exists_cons_of_isPlainName hplain
  rw [← h, toList_quoteName hquoted] at hname
  obtain ⟨hhead, _⟩ := List.cons.inj hname
  rw [← hhead] at hc
  exact absurd hc (by decide)

theorem quoteName_injective : Function.Injective quoteName := by
  intro a b h
  by_cases ha : isPlainName a = true
  · by_cases hb : isPlainName b = true
    · rwa [quoteName_of_isPlainName ha, quoteName_of_isPlainName hb] at h
    · rw [quoteName_of_isPlainName ha] at h
      exact absurd h.symm (quoteName_ne_of_isPlainName hb ha)
  · by_cases hb : isPlainName b = true
    · rw [quoteName_of_isPlainName hb] at h
      exact absurd h (quoteName_ne_of_isPlainName ha hb)
    · have hlist := congrArg String.toList h
      rw [toList_quoteName ha, toList_quoteName hb] at hlist
      have hescape := List.append_cancel_right (List.cons.inj hlist).2
      exact Text.escape_injective .upper (String.toList_injective hescape)

/-- No name is spelled like a number: a name that starts with a digit is quoted. -/
theorem quoteName_ne_repr (name : String) (value : Nat) : quoteName name ≠ Nat.repr value := by
  intro h
  obtain ⟨d, digits, hrepr, hdigits⟩ := Text.exists_digits_of_repr value
  have hd : d.isDigit = true := hdigits d List.mem_cons_self
  rw [← h] at hrepr
  by_cases hplain : isPlainName name = true
  · obtain ⟨c, rest, hname, hc, _⟩ := exists_cons_of_isPlainName hplain
    rw [quoteName_of_isPlainName hplain, hname] at hrepr
    obtain ⟨hhead, _⟩ := List.cons.inj hrepr
    rw [hhead, hd] at hc
    cases hc
  · rw [toList_quoteName hplain] at hrepr
    obtain ⟨hhead, _⟩ := List.cons.inj hrepr
    rw [← hhead] at hd
    exact absurd hd (by decide)

namespace Spelling

theorem label_injective : Function.Injective label := by
  intro s t h
  cases s with
  | name a =>
    cases t with
    | name b => rw [quoteName_injective h]
    | number n => exact absurd h (quoteName_ne_repr a n)
  | number m =>
    cases t with
    | name b => exact absurd h.symm (quoteName_ne_repr b m)
    | number n => rw [Text.repr_injective h]

theorem ident_injective : Function.Injective ident := by
  intro s t h
  have hlist := congrArg String.toList h
  simp only [ident, String.toList_append] at hlist
  exact label_injective (String.toList_injective (List.append_cancel_left hlist))

end Spelling

end Codegen.Ir
