import Codegen.Ir.Value
import Codegen.Proofs.Ir.Spelling
import Codegen.Proofs.Ir.TypeText
import Codegen.Proofs.Text.Nesting

namespace Codegen.Ir

open Codegen.Text

/-- Characters of an item outside of brackets and quotes. Operands, indices and metadata are
items. -/
def isItemChar (c : Char) : Bool :=
  c != ',' && c != ')' && c != '>'

/-- Characters of a word outside of brackets and quotes. Types, names, labels and constants are
words. -/
def isWordChar (c : Char) : Bool :=
  isItemChar c && c != ' ' && c != '('

theorem isItemChar_of_isWordChar (c : Char) (hc : isWordChar c = true) : isItemChar c = true := by
  rw [isWordChar, Bool.and_eq_true, Bool.and_eq_true] at hc
  exact hc.1.1

theorem isFlat_of_isPlainChar {c : Char} (hc : isPlainChar c = true) :
    isFlat c = true ∧ isWordChar c = true := by
  have hne {d : Char} (hd : isPlainChar d = false) : c ≠ d := by
    rintro rfl
    rw [hc] at hd
    cases hd
  have hquote : c ≠ '"' := hne rfl
  have hbrackets : (c ≠ '<' ∧ c ≠ '[' ∧ c ≠ '\x7b') ∧ c ≠ '>' ∧ c ≠ ']' ∧ c ≠ '\x7d' :=
    ⟨⟨hne rfl, hne rfl, hne rfl⟩, hne rfl, hne rfl, hne rfl⟩
  have hends : c ≠ '\n' ∧ c ≠ '\r' := ⟨hne rfl, hne rfl⟩
  have hwords : c ≠ ',' ∧ c ≠ ')' ∧ c ≠ ' ' ∧ c ≠ '(' := ⟨hne rfl, hne rfl, hne rfl, hne rfl⟩
  simp [isFlat, isOpening, isClosing, isLineEnd, isWordChar, isItemChar, hquote, hbrackets, hends,
    hwords]

theorem isPlainChar_of_isAlphanum {c : Char} (hc : c.isAlphanum = true) : isPlainChar c = true := by
  simp [isPlainChar, hc]

theorem isPlainChar_of_mem_repr {value : Nat} {c : Char} (hc : c ∈ (Nat.repr value).toList) :
    isPlainChar c = true := by
  obtain ⟨d, digits, hrepr, hdigits⟩ := exists_digits_of_repr value
  rw [hrepr] at hc
  apply isPlainChar_of_isAlphanum
  change (c.isAlpha || c.isDigit) = true
  rw [hdigits c hc, Bool.or_true]

theorem level_of_isPlainChar {text : List Char} (htext : ∀ c ∈ text, isPlainChar c = true) :
    Level isWordChar text :=
  level_of_isFlat fun c hc => isFlat_of_isPlainChar (htext c hc)

theorem level_repr (value : Nat) : Level isWordChar (Nat.repr value).toList :=
  level_of_isPlainChar fun _ hc => isPlainChar_of_mem_repr hc

theorem Ty.level_text (t : Ty) : Level isWordChar t.text.toList := by
  induction t using Ty.induction with
  | void => exact level_literal "void" rfl
  | int width =>
    simpa only [text, String.toList_append] using
      (level_literal "i" rfl).append (level_repr width.toNat)
  | float kind =>
    cases kind with
    | float => exact level_literal "float" rfl
    | double => exact level_literal "double" rfl
  | pointer elem ih =>
    simpa only [text, String.toList_append] using ih.append (level_literal "*" rfl)
  | array len elem ih =>
    have hinner := ((level_repr len.toNat).inner.append (inner_literal " x " rfl)).append ih.inner
    simpa [text, -Nat.toList_repr] using hinner.bracket '[' ']' rfl rfl rfl
  | vector len elem ih =>
    have hinner := ((level_repr len.toNat).inner.append (inner_literal " x " rfl)).append ih.inner
    simpa [text, -Nat.toList_repr] using hinner.bracket '<' '>' rfl rfl rfl
  | struct fields packed ih =>
    have hinner : Inner isWordChar (", ".intercalate (fields.map text)).toList :=
      inner_intercalate (by simpa using fun t ht => (ih t ht).inner)
    have hlevel := hinner.bracket '\x7b' '\x7d' rfl rfl rfl
    cases packed with
    | false => simpa [text, -String.toList_intercalate] using hlevel
    | true =>
      have hpacked := hlevel.inner.bracket '<' '>' rfl rfl rfl
      simpa [text, -String.toList_intercalate] using hpacked

theorem isPlainChar_of_isPlainName {name : String} (hplain : isPlainName name = true) :
    ∀ c ∈ name.toList, isPlainChar c = true := by
  unfold isPlainName at hplain
  split at hplain
  · cases hplain
  · next c rest hname =>
    rw [Bool.and_eq_true] at hplain
    rw [hname]
    exact List.all_eq_true.mp hplain.2

theorem level_quoteName (name : String) : Level isWordChar (quoteName name).toList := by
  by_cases hplain : isPlainName name = true
  · rw [quoteName_of_isPlainName hplain]
    exact level_of_isPlainChar (isPlainChar_of_isPlainName hplain)
  · have hline : IsLine (escape .upper name) :=
      isLine_of_printable fun c hc => (printable_of_mem_escape hc).1
    rw [toList_quoteName hplain]
    refine level_of_quoted rfl fun c hc => ⟨ne_quote_of_mem_escape hc, ?_⟩
    simp [isLineEnd, hline c hc]

theorem Spelling.level_label (s : Spelling) : Level isWordChar s.label.toList := by
  cases s with
  | name text => exact level_quoteName text
  | number value => exact level_repr value

theorem Naming.toList_unassignedLabel :
    unassignedLabel.toList = '<' :: ("unassigned".toList ++ ['>']) := by
  simp [unassignedLabel]

/-- No spelling looks like the text in place of a missing one. -/
theorem Spelling.label_ne_unassignedLabel (s : Spelling) : s.label ≠ Naming.unassignedLabel := by
  intro h
  have hlist := congrArg String.toList h
  rw [Naming.toList_unassignedLabel] at hlist
  cases s with
  | name text =>
    by_cases hplain : isPlainName text = true
    · obtain ⟨c, rest, hname, -, hc⟩ := exists_cons_of_isPlainName hplain
      rw [label, quoteName_of_isPlainName hplain, hname] at hlist
      rw [(List.cons.inj hlist).1] at hc
      cases hc
    · rw [label, toList_quoteName hplain] at hlist
      exact absurd (List.cons.inj hlist).1 (by decide)
  | number value =>
    obtain ⟨d, digits, hrepr, hdigits⟩ := exists_digits_of_repr value
    have hd := hdigits d List.mem_cons_self
    rw [label, hrepr] at hlist
    rw [(List.cons.inj hlist).1] at hd
    cases hd

namespace Naming

theorem level_label (n : Naming) (key : Key) : Level isWordChar (n.label key).toList := by
  rw [label]
  split
  · next s _ => exact s.level_label
  · rw [toList_unassignedLabel]
    exact (inner_literal "unassigned" rfl).bracket '<' '>' rfl rfl rfl

/-- A label shows the spelling of an identity, or that it has none. -/
theorem label_eq_iff {n n' : Naming} {key key' : Key} :
    n.label key = n'.label key' ↔ n.spelling? key = n'.spelling? key' := by
  constructor
  · intro hlabel
    rw [label, label] at hlabel
    split at hlabel
    · next s hs =>
      split at hlabel
      · next t ht => rw [hs, ht, Spelling.label_injective hlabel]
      · exact absurd hlabel s.label_ne_unassignedLabel
    · next hs =>
      split at hlabel
      · next t ht => exact absurd hlabel.symm t.label_ne_unassignedLabel
      · next ht => rw [hs, ht]
  · intro hspelling
    rw [label, label, hspelling]

theorem ident_eq_iff {n n' : Naming} {key key' : Key} :
    n.ident key = n'.ident key' ↔ n.spelling? key = n'.spelling? key' := by
  rw [ident, ident, String.append_right_inj, label_eq_iff]

end Naming

theorem level_int_repr (value : Int) : Level isWordChar (Int.repr value).toList := by
  cases value with
  | ofNat value => exact level_repr value
  | negSucc value =>
    have hminus : Level isWordChar "-".toList := level_literal "-" rfl
    change Level isWordChar ("-" ++ Nat.repr (value + 1)).toList
    rw [String.toList_append]
    exact hminus.append (level_repr (value + 1))

theorem level_hexText (x : Number.Binary64) : Level isWordChar x.hexText.toList := by
  rw [Number.Binary64.hexText, String.toList_ofList]
  exact level_of_isPlainChar fun _ hc => isPlainChar_of_isAlphanum (isAlphanum_of_mem_hexDigits hc)

/-- An integer with a sign, which a zero may have as well. -/
def decimalText (negative : Bool) (n : Nat) : String :=
  (if negative then "-" else "") ++ Nat.repr n ++ ".0"

/-- The two ways in which a float is written, by its value when rounded to the type. -/
theorem floatLiteral_cases (type : Ty) (value : Number.Binary64) :
    ∃ x, x = (if type = .single then value.toSingle else value) ∧
      ((∃ n, x.integer? = some n ∧ n < decimalLimit ∧
          floatLiteral type value = decimalText x.isNegative n) ∨
        (∀ n, x.integer? = some n → decimalLimit ≤ n) ∧
          floatLiteral type value = "0x" ++ x.hexText) := by
  refine ⟨_, rfl, ?_⟩
  rw [floatLiteral]
  generalize (if type = .single then value.toSingle else value) = x
  cases x.integer? with
  | none =>
    refine .inr ⟨fun n hn => ?_, rfl⟩
    cases hn
  | some n =>
    by_cases hlt : n < decimalLimit
    · exact .inl ⟨n, rfl, hlt, if_pos hlt⟩
    · refine .inr ⟨fun m hm => ?_, if_neg hlt⟩
      obtain rfl := Option.some.inj hm
      exact Nat.not_lt.mp hlt

theorem level_decimalText (negative : Bool) (n : Nat) :
    Level isWordChar (decimalText negative n).toList := by
  have hsign : Level isWordChar (if negative then "-" else "").toList := by
    cases negative with
    | false => exact level_literal "" rfl
    | true => exact level_literal "-" rfl
  rw [decimalText, String.toList_append, String.toList_append]
  exact (hsign.append (level_repr n)).append (level_literal ".0" rfl)

theorem level_floatLiteral (type : Ty) (value : Number.Binary64) :
    Level isWordChar (floatLiteral type value).toList := by
  obtain ⟨x, -, ⟨n, -, -, htext⟩ | ⟨-, htext⟩⟩ := floatLiteral_cases type value
  · rw [htext]
    exact level_decimalText x.isNegative n
  · rw [htext, String.toList_append]
    exact (level_literal "0x" rfl).append (level_hexText x)

namespace Constant

/-- Induction on constants, where a vector may use the statement for each of its elements. -/
@[elab_as_elim]
theorem induction {motive : Constant → Prop} (int : ∀ type value, motive (.int type value))
    (float : ∀ type value, motive (.float type value)) (undef : ∀ type, motive (.undef type))
    (zero : ∀ type, motive (.zero type))
    (vector : ∀ type elems, (∀ c ∈ elems, motive c) → motive (.vector type elems))
    (c : Constant) : motive c := by
  refine @Constant.rec motive (fun cs => ∀ c ∈ cs, motive c) int float undef zero vector ?_ ?_ c
  · simp
  · intro c cs hc hcs
    simpa using ⟨hc, hcs⟩

theorem level_ident (c : Constant) : Level isWordChar c.ident.toList := by
  induction c using Constant.induction with
  | int type value =>
    rw [ident]
    split
    · split
      · exact level_literal "false" rfl
      · exact level_literal "true" rfl
    · exact level_int_repr value.toInt
  | float type value => exact level_floatLiteral type value
  | undef type => exact level_literal "undef" rfl
  | zero type => exact level_literal "zeroinitializer" rfl
  | vector type elems ih =>
    have helem : ∀ c ∈ elems, Inner isWordChar c.text.toList := by
      intro c hc
      rw [text, String.toList_append, String.toList_append]
      exact (c.type.level_text.inner.append (inner_literal " " rfl)).append (ih c hc).inner
    have hinner : Inner isWordChar (", ".intercalate (elems.map text)).toList :=
      inner_intercalate (by simpa using helem)
    simpa [ident, -String.toList_intercalate] using hinner.bracket '<' '>' rfl rfl rfl

end Constant

theorem Value.level_ident (n : Naming) (v : Value) : Level isWordChar (v.ident n).toList := by
  have hident (key : Key) : Level isWordChar (n.ident key).toList := by
    rw [Naming.ident, String.toList_append]
    exact (level_literal "%" rfl).append (n.level_label key)
  cases v with
  | param key type => exact hident key
  | const key constant => exact constant.level_ident
  | result key operation type metadata => exact hident key

theorem Value.level_text (n : Naming) (v : Value) : Level isItemChar (v.text n).toList := by
  rw [text, String.toList_append, String.toList_append]
  exact ((v.type.level_text.mono isItemChar_of_isWordChar).append (level_literal " " rfl)).append
    ((v.level_ident n).mono isItemChar_of_isWordChar)

theorem Value.isItem_text (n : Naming) (v : Value) :
    v.text n ≠ "" ∧ Level isItemChar (v.text n).toList := by
  refine ⟨?_, v.level_text n⟩
  simp [text, String.append_eq_empty_iff]

/-- An operand shows its type and what stands behind it. -/
theorem Value.text_eq_iff {n n' : Naming} {v w : Value} :
    v.text n = w.text n' ↔ v.type = w.type ∧ v.ident n = w.ident n' := by
  constructor
  · intro htext
    have hlist := congrArg String.toList htext
    simp only [text, String.toList_append, List.append_assoc] at hlist
    obtain ⟨htype, hrest⟩ := v.type.level_text.append_inj w.type.level_text
      (by simp [isWordChar]) (by simp [isWordChar]) hlist
    exact ⟨Ty.text_injective (String.toList_injective htype),
      String.toList_injective (List.append_cancel_left hrest)⟩
  · rintro ⟨htype, hident⟩
    rw [text, text, htype, hident]

namespace Metadata

/-- The kind is made of characters that need no quotes. -/
def IsPlain (m : Metadata) : Prop :=
  ∀ c ∈ m.kind.toList, isPlainChar c = true

theorem level_text {m : Metadata} (hm : m.IsPlain) : Level isItemChar m.text.toList := by
  have hkind := (level_of_isPlainChar hm).mono isItemChar_of_isWordChar
  have hnode := (level_repr m.node.toNat).mono isItemChar_of_isWordChar
  simp only [text, String.toList_append]
  exact (((level_literal "!" rfl).append hkind).append (level_literal " !" rfl)).append hnode

theorem eq_of_text_eq {a b : Metadata} (ha : a.IsPlain) (hb : b.IsPlain) (htext : a.text = b.text) :
    a = b := by
  have hlist := congrArg String.toList htext
  simp only [text, String.toList_append, List.append_assoc] at hlist
  obtain ⟨hkind, hrest⟩ := (level_of_isPlainChar ha).append_inj (level_of_isPlainChar hb)
    (by simp [isWordChar]) (by simp [isWordChar]) (List.append_cancel_left hlist)
  have hnode := repr_injective (String.toList_injective (List.append_cancel_left hrest))
  cases a
  cases b
  rw [Metadata.mk.injEq]
  exact ⟨String.toList_injective hkind, UInt64.toNat_inj.mp hnode⟩

end Metadata

end Codegen.Ir
