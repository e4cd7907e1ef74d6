import Codegen.Proofs.Ir.Listing

namespace Codegen.Ir

open Codegen.Text

theorem startsWith_int_repr_negSucc (isMember : Char → Bool) (value : Nat) :
    startsWith isMember (Int.repr (.negSucc value)) = isMember '-' := by
  change startsWith isMember ("-" ++ Nat.repr (value + 1)) = isMember '-'
  simp [startsWith]

theorem int_repr_injective : Function.Injective Int.repr := by
  have hsign (m n : Nat) : Nat.repr m ≠ Int.repr (.negSucc n) := by
    intro h
    have hdigit := startsWith_repr (fun _ hd => hd) m
    rw [h, startsWith_int_repr_negSucc] at hdigit
    cases hdigit
  intro a b h
  cases a with
  | ofNat m =>
    cases b with
    | ofNat n => exact congrArg Int.ofNat (repr_injective h)
    | negSucc n => exact absurd h (hsign m n)
  | negSucc m =>
    cases b with
    | ofNat n => exact absurd h.symm (hsign n m)
    | negSucc n =>
      have hrepr := repr_injective ((String.append_right_inj "-").mp h)
      rw [Nat.succ.inj hrepr]

namespace Constant

/-- The forms of constants. -/
inductive Form where
  | int
  | float
  | undef
  | zero
  | vector
  deriving DecidableEq, Repr

def form : Constant → Form
  | .int .. => .int
  | .float .. => .float
  | .undef _ => .undef
  | .zero _ => .zero
  | .vector .. => .vector

/-- Constants with the same shape, equal types at every node and leaves that stand for the same: a
bit is zero or not, other integers are equal, and floats have the same literal. -/
inductive Alike : Constant → Constant → Prop where
  | int {type : Ty} {v w : Int64} (hvalue : if type = .i1 then (v = 0 ↔ w = 0) else v = w) :
    Alike (.int type v) (.int type w)
  | float {type : Ty} {v w : Number.Binary64}
    (hliteral : floatLiteral type v = floatLiteral type w) : Alike (.float type v) (.float type w)
  | undef {type : Ty} : Alike (.undef type) (.undef type)
  | zero {type : Ty} : Alike (.zero type) (.zero type)
  | vector {type : Ty} {as bs : List Constant} (helems : List.Forall₂ Alike as bs) :
    Alike (.vector type as) (.vector type bs)

/-- The form that the text of a constant shows. Only floats have a point or the mark of
hexadecimal digits. -/
def Form.ofText (text : String) : Form :=
  if startsWith (· == '<') text then .vector
  else if startsWith (· == 'u') text then .undef
  else if startsWith (· == 'z') text then .zero
  else if text.toList.any fun c => c == '.' || c == 'x' then .float
  else .int

/-- Characters of integers in decimal. -/
def isNumeralChar (c : Char) : Bool :=
  c == '-' || c.isDigit

theorem Form.ofText_of_startsWith {text : String} (htext : startsWith isNumeralChar text = true) :
    ofText text = if text.toList.any fun c => c == '.' || c == 'x' then .float else .int := by
  have hother {d : Char} (hd : isNumeralChar d = false) : startsWith (· == d) text = false := by
    cases hlist : text.toList with
    | nil => simp [startsWith, hlist]
    | cons c rest =>
      simp only [startsWith, hlist, List.head?_cons, Option.any_some] at htext ⊢
      rw [beq_eq_false_iff_ne]
      rintro rfl
      rw [htext] at hd
      cases hd
  rw [ofText, hother rfl, hother rfl, hother rfl]
  rfl

theorem isNumeralChar_of_mem_repr {value : Nat} {c : Char} (hc : c ∈ (Nat.repr value).toList) :
    isNumeralChar c = true := by
  obtain ⟨d, digits, hrepr, hdigits⟩ := exists_digits_of_repr value
  rw [hrepr] at hc
  rw [isNumeralChar, hdigits c hc, Bool.or_true]

theorem isNumeralChar_of_mem_int_repr {value : Int} {c : Char} (hc : c ∈ (Int.repr value).toList) :
    isNumeralChar c = true := by
  cases value with
  | ofNat value => exact isNumeralChar_of_mem_repr hc
  | negSucc value =>
    change c ∈ ("-" ++ Nat.repr (value + 1)).toList at hc
    rw [String.toList_append, List.mem_append] at hc
    rcases hc with hsign | hdigit
    · obtain rfl : c = '-' := by simpa using hsign
      rfl
    · exact isNumeralChar_of_mem_repr hdigit

theorem startsWith_repr_isNumeralChar (value : Nat) :
    startsWith isNumeralChar (Nat.repr value) = true :=
  startsWith_repr (fun d hd => by rw [isNumeralChar, hd, Bool.or_true]) value

theorem Form.ofText_int_repr (value : Int) : ofText (Int.repr value) = .int := by
  have hstart : startsWith isNumeralChar (Int.repr value) = true := by
    cases value with
    | ofNat value => exact startsWith_repr_isNumeralChar value
    | negSucc value => exact startsWith_int_repr_negSucc isNumeralChar value
  have hnone : ¬ (Int.repr value).toList.any (fun c => c == '.' || c == 'x') = true := by
    rw [List.any_eq_true]
    rintro ⟨c, hc, hmark⟩
    have hnumeral := isNumeralChar_of_mem_int_repr hc
    rw [Bool.or_eq_true, beq_iff_eq, beq_iff_eq] at hmark
    rcases hmark with rfl | rfl
    · cases hnumeral
    · cases hnumeral
  rw [ofText_of_startsWith hstart, if_neg hnone]

theorem Form.ofText_decimalText (negative : Bool) (n : Nat) :
    ofText (decimalText negative n) = .float := by
  have hstart : startsWith isNumeralChar (decimalText negative n) = true := by
    obtain ⟨d, digits, hrepr, hdigits⟩ := exists_digits_of_repr n
    have hd : isNumeralChar d = true := by
      rw [isNumeralChar, hdigits d List.mem_cons_self, Bool.or_true]
    cases negative with
    | false => simp [decimalText, startsWith, hrepr, hd, -Nat.toList_repr]
    | true => simp [decimalText, startsWith, isNumeralChar]
  rw [ofText_of_startsWith hstart]
  simp [decimalText]

theorem Form.ofText_hexText (x : Number.Binary64) : ofText ("0x" ++ x.hexText) = .float := by
  have hstart : startsWith isNumeralChar ("0x" ++ x.hexText) = true := by
    simp [startsWith, isNumeralChar]
  rw [ofText_of_startsWith hstart]
  simp

theorem Form.ofText_floatLiteral (type : Ty) (value : Number.Binary64) :
    ofText (floatLiteral type value) = .float := by
  obtain ⟨x, -, ⟨n, -, -, htext⟩ | ⟨-, htext⟩⟩ := floatLiteral_cases type value
  · rw [htext]
    exact ofText_decimalText x.isNegative n
  · rw [htext]
    exact ofText_hexText x

/-- The text of a constant shows its form. -/
theorem ofText_ident (c : Constant) : Form.ofText c.ident = c.form := by
  cases c with
  | int type value =>
    rw [ident]
    split
    · split
      · rfl
      · rfl
    · exact Form.ofText_int_repr value.toInt
  | float type value => exact Form.ofText_floatLiteral type value
  | undef type =>
    rw [ident]
    rfl
  | zero type =>
    rw [ident]
    rfl
  | vector type elems => simp [ident, form, Form.ofText, startsWith]

theorem text_eq_text_iff {a b : Constant} :
    a.text = b.text ↔ a.type = b.type ∧ a.ident = b.ident := by
  change (Value.const ⟨0⟩ a).text {} = (Value.const ⟨0⟩ b).text {} ↔ _
  exact Value.text_eq_iff

theorem form_eq_of_text_eq {a b : Constant} (htext : a.text = b.text) : a.form = b.form := by
  rw [← ofText_ident a, ← ofText_ident b, (text_eq_text_iff.mp htext).2]

theorem isItem_text (c : Constant) : c.text ≠ "" ∧ Level isItemChar c.text.toList :=
  Value.isItem_text {} (.const ⟨0⟩ c)

/-- The elements of a vector are told apart by the commas between them. -/
theorem ident_vector_eq_iff {type type' : Ty} {as bs : List Constant} :
    (vector type as).ident = (vector type' bs).ident ↔ as.map text = bs.map text := by
  constructor
  · intro hident
    have hitems (cs : List Constant) :
        ∀ item ∈ cs.map text, item ≠ "" ∧ Level isItemChar item.toList := by
      simpa using fun c _ => isItem_text c
    have hend : EndsSequence isItemChar ['>'] := by
      simp [EndsSequence, isItemChar]
    have hlist := congrArg String.toList hident
    simp only [ident, texts_eq_map, String.toList_append, List.append_assoc] at hlist
    exact (toList_intercalate_append_inj rfl (hitems as) (hitems bs) hend hend
      (List.append_cancel_left hlist)).1
  · intro htexts
    rw [ident, ident, texts_eq_map, texts_eq_map, htexts]

theorem ident_int_eq_iff {type : Ty} {v w : Int64} :
    (int type v).ident = (int type w).ident ↔ if type = .i1 then (v = 0 ↔ w = 0) else v = w := by
  rw [ident, ident]
  split
  · by_cases hv : v = 0 <;> by_cases hw : w = 0 <;> simp [hv, hw]
  · rw [int_repr_injective.eq_iff, Int64.toInt_inj]

theorem Alike.form_eq {a b : Constant} (h : Alike a b) : a.form = b.form := by
  cases h <;> rfl

/-- Constants of two forms are neither written alike nor related. -/
theorem text_eq_iff_alike_of_form {a b : Constant}
    (hiff : a.form = b.form → (a.text = b.text ↔ Alike a b)) : a.text = b.text ↔ Alike a b := by
  by_cases hform : a.form = b.form
  · exact hiff hform
  · exact iff_of_false (fun h => hform (form_eq_of_text_eq h)) fun h => hform h.form_eq

theorem text_eq_iff_alike (a b : Constant) : a.text = b.text ↔ Alike a b := by
  induction a using Constant.induction generalizing b with
  | int type v =>
    refine text_eq_iff_alike_of_form fun hform => ?_
    cases b with
    | int type' w =>
      rw [text_eq_text_iff]
      constructor
      · rintro ⟨rfl, hident⟩
        exact .int (ident_int_eq_iff.mp hident)
      · intro h
        cases h with
        | int hvalue => exact ⟨rfl, ident_int_eq_iff.mpr hvalue⟩
    | _ => cases hform
  | float type v =>
    refine text_eq_iff_alike_of_form fun hform => ?_
    cases b with
    | float type' w =>
      rw [text_eq_text_iff]
      constructor
      · rintro ⟨rfl, hident⟩
        exact .float hident
      · intro h
        cases h with
        | float hliteral => exact ⟨rfl, hliteral⟩
    | _ => cases hform
  | undef type =>
    refine text_eq_iff_alike_of_form fun hform => ?_
    cases b with
    | undef type' =>
      rw [text_eq_text_iff]
      constructor
      · rintro ⟨rfl, -⟩
        exact .undef
      · rintro ⟨⟩
        exact ⟨rfl, rfl⟩
    | _ => cases hform
  | zero type =>
    refine text_eq_iff_alike_of_form fun hform => ?_
    cases b with
    | zero type' =>
      rw [text_eq_text_iff]
      constructor
      · rintro ⟨rfl, -⟩
        exact .zero
      · rintro ⟨⟩
        exact ⟨rfl, rfl⟩
    | _ => cases hform
  | vector type as ih =>
    refine text_eq_iff_alike_of_form fun hform => ?_
    cases b with
    | vector type' bs =>
      rw [text_eq_text_iff, ident_vector_eq_iff,
        map_eq_map_iff_forall₂ fun a ha b _ => ih a ha b]
      constructor
      · rintro ⟨rfl, h⟩
        exact .vector h
      · intro h
        cases h with
        | vector h => exact ⟨rfl, h⟩
    | _ => cases hform

/-- Constants have the same text just when they have the same shape, equal types throughout and
leaves that are written alike. Constants of two forms never share a text, whatever their types. -/
theorem text_shows_shape_and_leaves (a b : Constant) :
    (a.text = b.text ↔ Alike a b) ∧ (a.form ≠ b.form → a.text ≠ b.text) :=
  ⟨text_eq_iff_alike a b, fun hform htext => hform (form_eq_of_text_eq htext)⟩

/-- Bits that are set to different numbers, deep inside a vector that declares another type, look
the same; an integer and a float of one type do not, even if they are equal as numbers. -/
theorem text_shows_shape_and_leaves_bits_and_numbers :
    (vector .double [vector .i1 [int .i1 (-1)], undef .i32]).text =
        (vector .double [vector .i1 [int .i1 6], undef .i32]).text ∧
      (int .double 2).form ≠ (float .double ⟨0x4000000000000000⟩).form ∧
      (int .double 2).text ≠ (float .double ⟨0x4000000000000000⟩).text := by
  have hforms : (int .double 2).form ≠ (float .double ⟨0x4000000000000000⟩).form := by decide
  refine ⟨(text_shows_shape_and_leaves _ _).1.mpr ?_, hforms,
    (text_shows_shape_and_leaves _ _).2 hforms⟩
  have hbits : Alike (vector .i1 [int .i1 (-1)]) (vector .i1 [int .i1 6]) :=
    .vector (.cons (.int (by decide)) .nil)
  exact .vector (.cons hbits (.cons .undef .nil))

end Constant

end Codegen.Ir
