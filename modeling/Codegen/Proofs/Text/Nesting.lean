import Codegen.Proofs.Text.Decimal
import Codegen.Proofs.Text.Lines
import Mathlib.Data.List.Basic

namespace Codegen.Text

/-- Where a scan is: the number of open brackets, and whether quotes are open. -/
structure Place where
  depth : Nat
  quoted : Bool

def isOpening (c : Char) : Bool :=
  c == '<' || c == '[' || c == '\x7b'

def isClosing (c : Char) : Bool :=
  c == '>' || c == ']' || c == '\x7d'

def isLineEnd (c : Char) : Bool :=
  c == '\n' || c == '\r'

namespace Place

/-- Brackets inside of quotes do not count. -/
def next (p : Place) (c : Char) : Place :=
  if c = '"' then ⟨p.depth, !p.quoted⟩
  else if p.quoted then p
  else if isOpening c then ⟨p.depth + 1, false⟩
  else if isClosing c then ⟨p.depth - 1, false⟩
  else p

/-- Whether a character stops the scan. A line end does everywhere, and what is not of the class
`isMember` does outside of brackets and quotes. -/
def stopsAt (isMember : Char → Bool) (p : Place) (c : Char) : Bool :=
  isLineEnd c || (!p.quoted && p.depth == 0 && !isMember c)

/-- Where the scan of a text ends, unless it is stopped. -/
def scan (isMember : Char → Bool) (p : Place) : List Char → Option Place
  | [] => some p
  | c :: rest => if p.stopsAt isMember c then none else (p.next c).scan isMember rest

end Place

open Place

variable {isMember : Char → Bool}

theorem scan_append (p : Place) (front rest : List Char) :
    p.scan isMember (front ++ rest) = (p.scan isMember front).bind (·.scan isMember rest) := by
  induction front generalizing p with
  | nil => rfl
  | cons c front ih =>
    rw [List.cons_append, scan, scan]
    split
    · rfl
    · exact ih (p.next c)

theorem not_isLineEnd_of_scan {p q : Place} {text : List Char}
    (hscan : p.scan isMember text = some q) : ∀ c ∈ text, isLineEnd c = false := by
  induction text generalizing p with
  | nil => simp
  | cons c text ih =>
    rw [scan] at hscan
    split at hscan
    case isTrue => cases hscan
    case isFalse hstop =>
      rw [List.forall_mem_cons]
      refine ⟨?_, ih hscan⟩
      rw [stopsAt, Bool.or_eq_true, not_or] at hstop
      simpa using hstop.1

/-- Fewer characters stop a scan where more belong to the class. -/
theorem scan_mono {isOther : Char → Bool} (hsub : ∀ c, isMember c = true → isOther c = true)
    {p q : Place} {text : List Char} (hscan : p.scan isMember text = some q) :
    p.scan isOther text = some q := by
  induction text generalizing p with
  | nil => exact hscan
  | cons c text ih =>
    rw [scan] at hscan ⊢
    split at hscan
    case isTrue => cases hscan
    case isFalse hstop =>
      have hother : ¬ p.stopsAt isOther c = true := by
        intro hother
        apply hstop
        simp only [stopsAt, Bool.or_eq_true, Bool.and_eq_true, Bool.not_eq_true'] at hother ⊢
        refine hother.imp_right fun ⟨houter, hc⟩ => ⟨houter, ?_⟩
        cases hmember : isMember c with
        | false => rfl
        | true => rw [hsub c hmember] at hc; cases hc
      rw [if_neg hother]
      exact ih hscan

/-- The text stays on its level, and holds nothing that ends a text of the class there. -/
def Level (isMember : Char → Bool) (text : List Char) : Prop :=
  ∀ depth, (Place.mk depth false).scan isMember text = some ⟨depth, false⟩

/-- The text may stand between brackets, where anything of its class or not belongs to it. -/
def Inner (isMember : Char → Bool) (text : List Char) : Prop :=
  ∀ depth, (Place.mk (depth + 1) false).scan isMember text = some ⟨depth + 1, false⟩

theorem Level.inner {text : List Char} (htext : Level isMember text) : Inner isMember text :=
  fun depth => htext (depth + 1)

theorem Level.append {front rest : List Char} (hfront : Level isMember front)
    (hrest : Level isMember rest) : Level isMember (front ++ rest) := by
  intro depth
  rw [scan_append, hfront depth]
  exact hrest depth

theorem Inner.append {front rest : List Char} (hfront : Inner isMember front)
    (hrest : Inner isMember rest) : Inner isMember (front ++ rest) := by
  intro depth
  rw [scan_append, hfront depth]
  exact hrest depth

theorem Level.mono {isOther : Char → Bool} {text : List Char}
    (hsub : ∀ c, isMember c = true → isOther c = true) (htext : Level isMember text) :
    Level isOther text :=
  fun depth => scan_mono hsub (htext depth)

theorem Level.isLine {text : String} (htext : Level isMember text.toList) : IsLine text := by
  intro c hc
  simpa [isLineEnd] using not_isLineEnd_of_scan (htext 0) c hc

/-- Characters that a scan takes no note of. -/
def isFlat (c : Char) : Bool :=
  !(c == '"' || isOpening c || isClosing c || isLineEnd c)

theorem scan_of_isFlat {p : Place} {text : List Char} (hquoted : p.quoted = false)
    (htext : ∀ c ∈ text, isFlat c = true ∧ (p.depth = 0 → isMember c = true)) :
    p.scan isMember text = some p := by
  induction text with
  | nil => rfl
  | cons c text ih =>
    rw [List.forall_mem_cons] at htext
    obtain ⟨⟨hflat, hmember⟩, htext⟩ := htext
    simp only [isFlat, Bool.not_eq_true', Bool.or_eq_false_iff, beq_eq_false_iff_ne] at hflat
    obtain ⟨⟨⟨hquote, hopening⟩, hclosing⟩, hend⟩ := hflat
    have hstop : p.stopsAt isMember c = false := by
      simpa [stopsAt, hend, hquoted] using hmember
    have hnext : p.next c = p := by
      simp [next, hquote, hquoted, hopening, hclosing]
    rw [scan, hstop, hnext]
    exact ih htext

theorem level_of_isFlat {text : List Char}
    (htext : ∀ c ∈ text, isFlat c = true ∧ isMember c = true) : Level isMember text :=
  fun _ => scan_of_isFlat rfl fun c hc => ⟨(htext c hc).1, fun _ => (htext c hc).2⟩

theorem inner_of_isFlat {text : List Char} (htext : ∀ c ∈ text, isFlat c = true) :
    Inner isMember text :=
  fun depth => scan_of_isFlat rfl fun c hc =>
    ⟨htext c hc, fun hdepth => absurd hdepth depth.succ_ne_zero⟩

theorem level_literal (text : String)
    (htext : (text.toList.all fun c => isFlat c && isMember c) = true) :
    Level isMember text.toList := by
  apply level_of_isFlat
  simpa only [List.all_eq_true, Bool.and_eq_true] using htext

theorem inner_literal (text : String) (htext : text.toList.all isFlat = true) :
    Inner isMember text.toList :=
  inner_of_isFlat (List.all_eq_true.mp htext)

theorem Inner.bracket {text : List Char} (htext : Inner isMember text) (opening closing : Char)
    (hopening : isOpening opening = true) (hmember : isMember opening = true)
    (hclosing : isClosing closing = true) :
    Level isMember (opening :: (text ++ [closing])) := by
  intro depth
  have hopen : (Place.mk depth false).scan isMember (opening :: (text ++ [closing])) =
      (Place.mk (depth + 1) false).scan isMember (text ++ [closing]) := by
    have hstop : (Place.mk depth false).stopsAt isMember opening = false := by
      simp only [isOpening, Bool.or_eq_true, beq_iff_eq] at hopening
      rcases hopening with (rfl | rfl) | rfl <;> simp [stopsAt, isLineEnd, hmember]
    have hnext : (Place.mk depth false).next opening = ⟨depth + 1, false⟩ := by
      simp only [isOpening, Bool.or_eq_true, beq_iff_eq] at hopening
      rcases hopening with (rfl | rfl) | rfl <;> rfl
    rw [scan, hstop, hnext]
    rfl
  rw [hopen, scan_append, htext depth]
  simp only [isClosing, Bool.or_eq_true, beq_iff_eq] at hclosing
  rcases hclosing with (rfl | rfl) | rfl <;> rfl

theorem scan_of_quoted {depth : Nat} {text : List Char}
    (htext : ∀ c ∈ text, c ≠ '"' ∧ isLineEnd c = false) :
    (Place.mk depth true).scan isMember text = some ⟨depth, true⟩ := by
  induction text with
  | nil => rfl
  | cons c text ih =>
    rw [List.forall_mem_cons] at htext
    obtain ⟨⟨hquote, hend⟩, htext⟩ := htext
    have hstop : (Place.mk depth true).stopsAt isMember c = false := by
      simp [stopsAt, hend]
    have hnext : (Place.mk depth true).next c = ⟨depth, true⟩ := by
      simp [next, hquote]
    rw [scan, hstop, hnext]
    exact ih htext

theorem level_of_quoted {text : List Char} (hmember : isMember '"' = true)
    (htext : ∀ c ∈ text, c ≠ '"' ∧ isLineEnd c = false) :
    Level isMember ('"' :: (text ++ ['"'])) := by
  intro depth
  have hopen : (Place.mk depth false).scan isMember ('"' :: (text ++ ['"'])) =
      (Place.mk depth true).scan isMember (text ++ ['"']) := by
    have hstop : (Place.mk depth false).stopsAt isMember '"' = false := by
      simp [stopsAt, isLineEnd, hmember]
    rw [scan, hstop]
    rfl
  rw [hopen, scan_append, scan_of_quoted htext]
  rfl

/-- No text of a level starts with a character that ends it. -/
theorem Level.isMember_head {c : Char} {text : List Char} (htext : Level isMember (c :: text)) :
    isMember c = true := by
  have hscan := htext 0
  rw [scan] at hscan
  split at hscan
  case isTrue => cases hscan
  case isFalse hstop =>
    simp only [stopsAt, Bool.or_eq_true, not_or] at hstop
    simpa using hstop.2

theorem Level.eq_nil_of_append {front text rest : List Char} (hfront : Level isMember front)
    (htext : Level isMember (front ++ text)) (hrest : StartsOutside isMember (text ++ rest)) :
    text = [] := by
  cases text with
  | nil => rfl
  | cons c text =>
    have hc : Level isMember (c :: text) := by
      intro depth
      have hscan := htext depth
      rwa [scan_append, hfront depth] at hscan
    rw [List.cons_append, startsOutside_cons, hc.isMember_head] at hrest
    cases hrest

/-- Texts of a level are told apart in front of characters that end them. -/
theorem Level.append_inj {a b r s : List Char} (ha : Level isMember a) (hb : Level isMember b)
    (hr : StartsOutside isMember r) (hs : StartsOutside isMember s) (htext : a ++ r = b ++ s) :
    a = b ∧ r = s := by
  rcases List.append_eq_append_iff.mp htext with ⟨more, rfl, rfl⟩ | ⟨more, rfl, rfl⟩
  · have hmore := ha.eq_nil_of_append hb hr
    simp [hmore]
  · have hmore := hb.eq_nil_of_append ha hs
    simp [hmore]

/-- What may stand behind a sequence: nothing, or a character that ends an item and is no comma. -/
def EndsSequence (isMember : Char → Bool) (rest : List Char) : Prop :=
  ∀ c ∈ rest.head?, isMember c = false ∧ c ≠ ','

theorem endsSequence_nil : EndsSequence isMember [] := by
  simp [EndsSequence]

theorem EndsSequence.startsOutside {rest : List Char} (hrest : EndsSequence isMember rest) :
    StartsOutside isMember rest :=
  fun c hc => (hrest c hc).1

theorem intercalate_cons {α : Type} (sep item : List α) (items : List (List α)) :
    sep.intercalate (item :: items) = item ++ items.flatMap (sep ++ ·) := by
  induction items generalizing item with
  | nil => simp
  | cons second items ih =>
    rw [List.intercalate_cons_cons, ih, List.flatMap_cons]
    simp only [List.append_assoc]

theorem inner_intercalate {texts : List String}
    (htexts : ∀ text ∈ texts, Inner isMember text.toList) :
    Inner isMember (", ".intercalate texts).toList := by
  induction texts with
  | nil => exact fun _ => rfl
  | cons text texts ih =>
    rw [List.forall_mem_cons] at htexts
    cases texts with
    | nil => simpa using htexts.1
    | cons second texts =>
      rw [String.intercalate_cons_cons, String.toList_append, String.toList_append]
      exact (htexts.1.append (inner_literal ", " rfl)).append (ih htexts.2)

section Sequence

variable {as bs : List (List Char)} {r s : List Char}

theorem startsOutside_flatMap (hcomma : isMember ',' = false) (hr : EndsSequence isMember r)
    (as : List (List Char)) : StartsOutside isMember (as.flatMap ([',', ' '] ++ ·) ++ r) := by
  cases as with
  | nil => exact hr.startsOutside
  | cons a as => simpa using hcomma

theorem flatMap_append_inj (hcomma : isMember ',' = false) (has : ∀ a ∈ as, Level isMember a)
    (hbs : ∀ b ∈ bs, Level isMember b) (hr : EndsSequence isMember r)
    (hs : EndsSequence isMember s)
    (htext : as.flatMap ([',', ' '] ++ ·) ++ r = bs.flatMap ([',', ' '] ++ ·) ++ s) :
    as = bs ∧ r = s := by
  induction as generalizing bs with
  | nil =>
    cases bs with
    | nil => exact ⟨rfl, htext⟩
    | cons b bs =>
      have hhead : ',' ∈ r.head? := by
        rw [List.flatMap_nil, List.nil_append] at htext
        simp [htext]
      exact absurd rfl (hr ',' hhead).2
  | cons a as ih =>
    cases bs with
    | nil =>
      have hhead : ',' ∈ s.head? := by
        rw [List.flatMap_nil, List.nil_append] at htext
        simp [← htext]
      exact absurd rfl (hs ',' hhead).2
    | cons b bs =>
      rw [List.forall_mem_cons] at has hbs
      have htail : a ++ (as.flatMap ([',', ' '] ++ ·) ++ r) =
          b ++ (bs.flatMap ([',', ' '] ++ ·) ++ s) := by
        simpa using htext
      obtain ⟨hab, hrest⟩ := has.1.append_inj hbs.1 (startsOutside_flatMap hcomma hr as)
        (startsOutside_flatMap hcomma hs bs) htail
      obtain ⟨hitems, hrs⟩ := ih has.2 hbs.2 hrest
      exact ⟨by rw [hab, hitems], hrs⟩

theorem ne_intercalate_append {b : List Char} (hb : b ≠ [] ∧ Level isMember b)
    (hr : EndsSequence isMember r) : r ≠ [',', ' '].intercalate (b :: bs) ++ s := by
  obtain ⟨c, text, rfl⟩ := List.exists_cons_of_ne_nil hb.1
  intro htext
  have hhead : c ∈ r.head? := by
    rw [htext, intercalate_cons]
    simp
  have hc := (hr c hhead).1
  rw [hb.2.isMember_head] at hc
  cases hc

/-- Sequences of texts that are not empty are told apart in front of what ends a sequence. -/
theorem intercalate_append_inj (hcomma : isMember ',' = false)
    (has : ∀ a ∈ as, a ≠ [] ∧ Level isMember a) (hbs : ∀ b ∈ bs, b ≠ [] ∧ Level isMember b)
    (hr : EndsSequence isMember r) (hs : EndsSequence isMember s)
    (htext : [',', ' '].intercalate as ++ r = [',', ' '].intercalate bs ++ s) :
    as = bs ∧ r = s := by
  cases as with
  | nil =>
    cases bs with
    | nil => exact ⟨rfl, htext⟩
    | cons b bs => exact absurd htext (ne_intercalate_append (hbs b List.mem_cons_self) hr)
  | cons a as =>
    cases bs with
    | nil => exact absurd htext.symm (ne_intercalate_append (has a List.mem_cons_self) hs)
    | cons b bs =>
      rw [intercalate_cons, intercalate_cons, List.append_assoc, List.append_assoc] at htext
      rw [List.forall_mem_cons] at has hbs
      obtain ⟨hab, hrest⟩ := has.1.2.append_inj hbs.1.2 (startsOutside_flatMap hcomma hr as)
        (startsOutside_flatMap hcomma hs bs) htext
      obtain ⟨hitems, hrs⟩ := flatMap_append_inj hcomma (fun c hc => (has.2 c hc).2)
        (fun c hc => (hbs.2 c hc).2) hr hs hrest
      exact ⟨by rw [hab, hitems], hrs⟩

theorem toList_intercalate_append_inj {xs ys : List String} (hcomma : isMember ',' = false)
    (hxs : ∀ x ∈ xs, x ≠ "" ∧ Level isMember x.toList)
    (hys : ∀ y ∈ ys, y ≠ "" ∧ Level isMember y.toList)
    (hr : EndsSequence isMember r) (hs : EndsSequence isMember s)
    (htext : (", ".intercalate xs).toList ++ r = (", ".intercalate ys).toList ++ s) :
    xs = ys ∧ r = s := by
  rw [String.toList_intercalate, String.toList_intercalate] at htext
  obtain ⟨hlists, hrs⟩ := intercalate_append_inj hcomma (by simpa using hxs) (by simpa using hys)
    hr hs htext
  exact ⟨List.map_injective_iff.mpr (fun _ _ => String.toList_injective) hlists, hrs⟩

end Sequence

end Codegen.Text
