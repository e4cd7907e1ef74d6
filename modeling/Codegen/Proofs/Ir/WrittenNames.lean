import Codegen.Proofs.Ir.OperandText

namespace Codegen.Text

def isUpperHexDigit (c : Char) : Bool :=
  ('0' ≤ c && c ≤ '9') || ('A' ≤ c && c ≤ 'F')

/-- Two digits stand behind every backslash. -/
inductive Escaped : List Char → Prop
  | nil : Escaped []
  | char {c : Char} {rest : List Char} (hc : c ≠ '\\') (hrest : Escaped rest) : Escaped (c :: rest)
  | byte {high low : Char} {rest : List Char} (hhigh : isUpperHexDigit high = true)
    (hlow : isUpperHexDigit low = true) (hrest : Escaped rest) :
    Escaped ('\\' :: high :: low :: rest)

theorem isUpperHexDigit_hexDigit {value : Nat} (hvalue : value < 16) :
    isUpperHexDigit (hexDigit .upper value) = true := by
  revert value
  decide

theorem ne_backslash_of_isUpperHexDigit {c : Char} (hc : isUpperHexDigit c = true) : c ≠ '\\' := by
  rintro rfl
  cases hc

theorem Escaped.escapeByte_append {rest : List Char} (hrest : Escaped rest) (b : UInt8) :
    Escaped (escapeByte .upper b ++ rest) := by
  by_cases hliteral : isLiteralByte b = true
  · have hbackslash := (isLiteralByte_iff.mp hliteral).2.2
    rw [escapeByte_of_isLiteralByte .upper hliteral]
    exact .char (ofUInt8_ne hbackslash) hrest
  · rw [escapeByte_of_not_isLiteralByte .upper hliteral]
    exact .byte (isUpperHexDigit_hexDigit (Nat.mod_lt _ (by decide)))
      (isUpperHexDigit_hexDigit (Nat.mod_lt _ (by decide))) hrest

theorem escaped_escape (s : String) : Escaped (escape .upper s).toList := by
  rw [escape, String.toList_ofList]
  induction utf8 s with
  | nil => exact .nil
  | cons b bytes ih => exact ih.escapeByte_append b

theorem exists_of_cons_eq_append {c : Char} {rest before after : List Char} (hc : c ≠ '\\')
    (h : c :: rest = before ++ '\\' :: after) : ∃ before, rest = before ++ '\\' :: after := by
  cases before with
  | nil => exact absurd (List.cons.inj h).1 hc
  | cons d before => exact ⟨before, (List.cons.inj h).2⟩

/-- Wherever a backslash stands, its digits follow. -/
theorem Escaped.exists_digits {text before after : List Char} (h : Escaped text)
    (htext : text = before ++ '\\' :: after) :
    ∃ high low rest, after = high :: low :: rest ∧ isUpperHexDigit high = true ∧
      isUpperHexDigit low = true := by
  induction h generalizing before with
  | nil => exact absurd htext.symm (by simp)
  | char hc _ ih =>
    obtain ⟨before, hrest⟩ := exists_of_cons_eq_append hc htext
    exact ih hrest
  | byte hhigh hlow _ ih =>
    cases before with
    | nil => exact ⟨_, _, _, (List.cons.inj htext).2.symm, hhigh, hlow⟩
    | cons d before =>
      have hdigits := (List.cons.inj htext).2
      obtain ⟨_, hdigit⟩ :=
        exists_of_cons_eq_append (ne_backslash_of_isUpperHexDigit hhigh) hdigits
      obtain ⟨_, hrest⟩ := exists_of_cons_eq_append (ne_backslash_of_isUpperHexDigit hlow) hdigit
      exact ih hrest

theorem fromUTF8?_utf8 (s : String) : String.fromUTF8? (utf8 s).toByteArray = some s := by
  have hbytes : (utf8 s).toByteArray = s.toByteArray := String.utf8Encode_toList
  rw [hbytes]
  exact dif_pos s.isValidUTF8

end Codegen.Text

namespace Codegen.Ir

open Codegen.Text

/-- The name that a written name stands for. Between quotes a backslash and two hexadecimal digits
stand for a byte and any other character for itself, and the bytes are UTF-8. A text that does not
start with a quote stands for itself. -/
def readName? (text : String) : Option String :=
  match text.toList with
  | [] => some text
  | c :: inner =>
    if c = '"' then do
      let (bytes, rest) ← readQuoted (fun _ => true) inner
      if rest.isEmpty then String.fromUTF8? bytes.toByteArray else none
    else some text

/-- What a plain name may start with. -/
def isNameStart (c : Char) : Bool :=
  ('A' ≤ c && c ≤ 'Z') || ('a' ≤ c && c ≤ 'z') || ['$', '.', '_', '-'].contains c

def isNameChar (c : Char) : Bool :=
  isNameStart c || ('0' ≤ c && c ≤ '9')

/-- The form of plain names. -/
def IsPlainText (text : List Char) : Prop :=
  ∃ c rest, text = c :: rest ∧ isNameStart c = true ∧ ∀ d ∈ rest, isNameChar d = true

/-- The form of quoted names. -/
def IsQuotedText (text : List Char) : Prop :=
  ∃ inner, text = '"' :: (inner ++ ['"']) ∧ '"' ∉ inner ∧
    ∀ before after, inner = before ++ '\\' :: after → ∃ high low rest,
      after = high :: low :: rest ∧ isUpperHexDigit high = true ∧ isUpperHexDigit low = true

theorem exists_head_ne_quote {name : String} (hplain : isPlainName name = true) :
    ∃ c rest, name.toList = c :: rest ∧ c ≠ '"' := by
  obtain ⟨c, rest, hname, _, hc⟩ := exists_cons_of_isPlainName hplain
  refine ⟨c, rest, hname, ?_⟩
  rintro rfl
  cases hc

theorem readName?_quoteName (name : String) : readName? (quoteName name) = some name := by
  by_cases hplain : isPlainName name = true
  · obtain ⟨c, rest, hname, hquote⟩ := exists_head_ne_quote hplain
    rw [quoteName_of_isPlainName hplain, readName?, hname]
    exact if_neg hquote
  · have hall : AllowsPrintable fun _ => true := fun _ _ _ => rfl
    have hread := readQuoted_escape hall .upper name []
    rw [readName?, toList_quoteName hplain]
    simp [hread, fromUTF8?_utf8]

theorem isPlainChar_eq (c : Char) : isPlainChar c = isNameChar c := by
  have hupper : c.isUpper = (decide ('A' ≤ c) && decide (c ≤ 'Z')) := Bool.decide_and _ _
  have hlower : c.isLower = (decide ('a' ≤ c) && decide (c ≤ 'z')) := rfl
  have hdigit : c.isDigit = (decide ('0' ≤ c) && decide (c ≤ '9')) := rfl
  change (c.isUpper || c.isLower || c.isDigit || c == '$' || c == '.' || c == '_' || c == '-') = _
  rw [hupper, hlower, hdigit]
  simp only [isNameChar, isNameStart, List.contains_cons, List.contains_nil, Bool.or_false]
  ac_rfl

theorem isNameStart_of_isPlainChar {c : Char} (hc : isPlainChar c = true)
    (hdigit : c.isDigit = false) : isNameStart c = true := by
  have hchar : (isNameStart c || c.isDigit) = true := (isPlainChar_eq c).symm.trans hc
  rwa [hdigit, Bool.or_false] at hchar

theorem isPlainText_of_isPlainName {name : String} (hplain : isPlainName name = true) :
    IsPlainText name.toList := by
  obtain ⟨c, rest, hname, hdigit, hc⟩ := exists_cons_of_isPlainName hplain
  refine ⟨c, rest, hname, isNameStart_of_isPlainChar hc hdigit, ?_⟩
  intro d hd
  rw [← isPlainChar_eq]
  apply isPlainChar_of_isPlainName hplain
  rw [hname]
  exact List.mem_cons_of_mem c hd

theorem isQuotedText_quoteName {name : String} (hplain : ¬ isPlainName name = true) :
    IsQuotedText (quoteName name).toList := by
  refine ⟨(escape .upper name).toList, toList_quoteName hplain, ?_, ?_⟩
  · intro hquote
    exact ne_quote_of_mem_escape hquote rfl
  · intro before after hinner
    exact (escaped_escape name).exists_digits hinner

theorem printable_of_isNameChar {c : Char} (hc : isNameChar c = true) :
    0x20 ≤ c.toNat ∧ c.toNat ≤ 0x7e := by
  have hrange {low high : Char} (hlow : 0x20 ≤ low.toNat) (hhigh : high.toNat ≤ 0x7e)
      (h : low ≤ c ∧ c ≤ high) : 0x20 ≤ c.toNat ∧ c.toNat ≤ 0x7e :=
    ⟨Nat.le_trans hlow h.1, Nat.le_trans h.2 hhigh⟩
  simp only [isNameChar, isNameStart, Bool.or_eq_true, Bool.and_eq_true, decide_eq_true_eq,
    List.contains_iff_mem, List.mem_cons, List.not_mem_nil, or_false] at hc
  rcases hc with ((hupper | hlower) | rfl | rfl | rfl | rfl) | hdigit
  · exact hrange (by decide) (by decide) hupper
  · exact hrange (by decide) (by decide) hlower
  · decide
  · decide
  · decide
  · decide
  · exact hrange (by decide) (by decide) hdigit

theorem printable_of_mem_quoteName {name : String} {c : Char} (hc : c ∈ (quoteName name).toList) :
    0x20 ≤ c.toNat ∧ c.toNat ≤ 0x7e := by
  by_cases hplain : isPlainName name = true
  · rw [quoteName_of_isPlainName hplain] at hc
    have hchar := isPlainChar_of_isPlainName hplain c hc
    rw [isPlainChar_eq] at hchar
    exact printable_of_isNameChar hchar
  · rw [toList_quoteName hplain, List.mem_cons, List.mem_append, List.mem_singleton] at hc
    rcases hc with rfl | hinner | rfl
    · decide
    · exact printable_of_mem_escape hinner
    · decide

/-- The first character tells the two forms apart. -/
theorem head?_quoteName_eq_quote_iff {name : String} :
    (quoteName name).toList.head? = some '"' ↔ ¬ isPlainName name = true := by
  by_cases hplain : isPlainName name = true
  · obtain ⟨c, rest, hname, hquote⟩ := exists_head_ne_quote hplain
    rw [quoteName_of_isPlainName hplain, hname]
    refine iff_of_false ?_ (not_not_intro hplain)
    rintro ⟨⟩
    exact hquote rfl
  · rw [toList_quoteName hplain]
    exact iff_of_true rfl hplain

/-- A written name stands for the name it was made from. It is printable ASCII, in the form of quoted
names if it starts with a quote and in that of plain names otherwise. So no two names are written
alike, and none like a number or like the text in place of a missing spelling. -/
theorem quoteName_decodes_and_conforms :
    (∀ name, readName? (quoteName name) = some name ∧
      (∀ c ∈ (quoteName name).toList, 0x20 ≤ c.toNat ∧ c.toNat ≤ 0x7e) ∧
      ((quoteName name).toList.head? = some '"' → IsQuotedText (quoteName name).toList) ∧
      ((quoteName name).toList.head? ≠ some '"' → IsPlainText (quoteName name).toList)) ∧
    Function.Injective quoteName ∧
    (∀ name value, quoteName name ≠ Nat.repr value) ∧
    ∀ name, quoteName name ≠ Naming.unassignedLabel := by
  refine ⟨fun name => ⟨readName?_quoteName name, fun _ => printable_of_mem_quoteName, ?_, ?_⟩,
    quoteName_injective, quoteName_ne_repr, fun name => (Spelling.name name).label_ne_unassignedLabel⟩
  · intro hhead
    exact isQuotedText_quoteName (head?_quoteName_eq_quote_iff.mp hhead)
  · intro hhead
    have hplain : isPlainName name = true := by
      by_contra hquoted
      exact hhead (head?_quoteName_eq_quote_iff.mpr hquoted)
    rw [quoteName_of_isPlainName hplain]
    exact isPlainText_of_isPlainName hplain

/-- A name that looks like an escape itself, and one that holds every kind of plain character. -/
theorem quoteName_decodes_and_conforms_both_forms :
    quoteName "3\\5Cé\"" = "\"3\\5C5C\\C3\\A9\\22\"" ∧
      readName? (quoteName "3\\5Cé\"") = some "3\\5Cé\"" ∧
      IsQuotedText (quoteName "3\\5Cé\"").toList ∧ IsPlainText (quoteName "-a.Z_$0").toList :=
  ⟨by decide, (quoteName_decodes_and_conforms.1 _).1,
    (quoteName_decodes_and_conforms.1 _).2.2.1 (by decide),
    (quoteName_decodes_and_conforms.1 _).2.2.2 (by decide)⟩

end Codegen.Ir
