import Codegen.Ir.Type
import Codegen.Proofs.Text.Decimal
import Codegen.Proofs.Text.Sequence

namespace Codegen.Ir.Ty

open Codegen.Text

/-- Induction on types, where a struct may use the statement for each of its fields. -/
@[elab_as_elim]
theorem induction {motive : Ty → Prop} (void : motive .void) (int : ∀ width, motive (.int width))
    (float : ∀ kind, motive (.float kind)) (pointer : ∀ elem, motive elem → motive (.pointer elem))
    (array : ∀ len elem, motive elem → motive (.array len elem))
    (vector : ∀ len elem, motive elem → motive (.vector len elem))
    (struct : ∀ fields packed, (∀ t ∈ fields, motive t) → motive (.struct fields packed)) (t : Ty) :
    motive t := by
  refine @Ty.rec motive (fun ts => ∀ t ∈ ts, motive t) void int float pointer array vector struct
    ?_ ?_ t
  · simp
  · intro t ts ht hts
    simpa using ⟨ht, hts⟩

/-- Each star makes a pointer of the type before it. -/
def readStars (t : Ty) : List Char → Ty × List Char
  | [] => (t, [])
  | c :: rest => if c = '*' then readStars (.pointer t) rest else (t, c :: rest)

/-- A length, an element type and the closing character. -/
def readElements (elem : List Char → Option (Ty × List Char)) (close : Char) (text : List Char) :
    Option (UInt64 × Ty × List Char) := do
  let (len, rest) ← readNat? text
  let (t, rest) ← elem (← [' ', 'x', ' '].isPrefixOf? rest)
  let rest ← [close].isPrefixOf? rest
  if len < UInt64.size then some (UInt64.ofNat len, t, rest) else none

/-- A type without the stars behind it, where `elem` reads the types inside of it. -/
def readLevel (elem : List Char → Option (Ty × List Char)) (bound : Nat) :
    List Char → Option (Ty × List Char)
  | 'v' :: rest => (['o', 'i', 'd'].isPrefixOf? rest).map fun rest => (.void, rest)
  | 'f' :: rest => (['l', 'o', 'a', 't'].isPrefixOf? rest).map fun rest => (.single, rest)
  | 'd' :: rest => (['o', 'u', 'b', 'l', 'e'].isPrefixOf? rest).map fun rest => (.double, rest)
  | 'i' :: rest => do
    let (width, rest) ← readNat? rest
    if width < UInt32.size then some (.int (UInt32.ofNat width), rest) else none
  | '[' :: rest => (readElements elem ']' rest).map fun (len, t, rest) => (.array len t, rest)
  | '\x7b' :: rest => (readSequence elem '\x7d' bound rest).map fun (ts, rest) =>
      (.struct ts false, rest)
  | '<' :: rest =>
    if rest.head? = some '\x7b' then do
      let (ts, rest) ← readSequence elem '\x7d' bound rest.tail
      (['>'].isPrefixOf? rest).map fun rest => (.struct ts true, rest)
    else (readElements elem '>' rest).map fun (len, t, rest) => (.vector len t, rest)
  | _ => none

/-- A type, at most `depth` levels deep. -/
def readType : Nat → List Char → Option (Ty × List Char)
  | 0, _ => none
  | depth + 1, text =>
    (readLevel (readType depth) depth text).map fun (t, rest) => readStars t rest

/-- The type that a text starts with, and what follows it. -/
def read (text : String) : Option (Ty × String) :=
  (readType text.length text.toList).map fun (t, rest) => (t, String.ofList rest)

theorem readStars_of_ne (t : Ty) {c : Char} (hc : c ≠ '*') (rest : List Char) :
    readStars t (c :: rest) = (t, c :: rest) := by
  rw [readStars, if_neg hc]

theorem readType_of_readLevel {depth : Nat} {text rest : List Char} {t : Ty}
    (hlevel : readLevel (readType depth) depth text = some (t, rest)) :
    readType (depth + 1) text = some (readStars t rest) := by
  rw [readType, hlevel]
  rfl

theorem isPrefixOf?_append (word rest : List Char) :
    word.isPrefixOf? (word ++ rest) = some rest := by
  induction word with
  | nil => rfl
  | cons c word ih => simp [List.isPrefixOf?, ih]

/-- The character that a type starts with tells it from everything else in a sequence. -/
theorem exists_head_of_text (t : Ty) :
    ∃ c ∈ ['v', 'i', 'f', 'd', '[', '<', '\x7b'], ∃ cs, t.text.toList = c :: cs := by
  induction t using Ty.induction with
  | void => exact ⟨'v', by decide, ['o', 'i', 'd'], by simp [text]⟩
  | int width => exact ⟨'i', by decide, (Nat.repr width.toNat).toList, by simp [text]⟩
  | float kind =>
    cases kind with
    | float => exact ⟨'f', by decide, ['l', 'o', 'a', 't'], by simp [text]⟩
    | double => exact ⟨'d', by decide, ['o', 'u', 'b', 'l', 'e'], by simp [text]⟩
  | pointer elem ih =>
    obtain ⟨c, hc, cs, helem⟩ := ih
    exact ⟨c, hc, cs ++ ['*'], by simp [text, helem]⟩
  | array len elem => exact ⟨'[', by decide, _, by simp [text]; rfl⟩
  | vector len elem => exact ⟨'<', by decide, _, by simp [text]; rfl⟩
  | struct fields packed =>
    cases packed with
    | false => exact ⟨'\x7b', by decide, _, by simp [text]; rfl⟩
    | true => exact ⟨'<', by decide, _, by simp [text]; rfl⟩

/-- No type starts like the end of a struct. -/
theorem exists_cons_of_text (t : Ty) : ∃ c cs, t.text.toList = c :: cs ∧ c ≠ '\x7d' := by
  obtain ⟨c, hc, cs, htext⟩ := exists_head_of_text t
  refine ⟨c, cs, htext, ?_⟩
  rintro rfl
  exact absurd hc (by decide)

theorem length_text_pos (t : Ty) : 0 < t.text.toList.length := by
  obtain ⟨c, cs, htext, -⟩ := exists_cons_of_text t
  rw [htext]
  exact Nat.zero_lt_succ _

theorem exists_depth_of_length_text_le {t : Ty} {depth : Nat}
    (hdepth : t.text.toList.length ≤ depth) : ∃ inner, depth = inner + 1 :=
  Nat.exists_eq_add_one.mpr (Nat.lt_of_lt_of_le t.length_text_pos hdepth)

/-- A reader gets a type back in front of a character that does not continue it. -/
def ReadBy (elem : List Char → Option (Ty × List Char)) (t : Ty) : Prop :=
  ∀ c rest, c ≠ '*' → c.isDigit = false →
    elem (t.text.toList ++ c :: rest) = some (t, c :: rest)

theorem readElements_text {elem : List Char → Option (Ty × List Char)} {close : Char} {t : Ty}
    (helem : ReadBy elem t) (hstar : close ≠ '*') (hdigit : close.isDigit = false) (len : UInt64)
    (rest : List Char) :
    readElements elem close ((Nat.repr len.toNat).toList ++
      ([' ', 'x', ' '] ++ (t.text.toList ++ close :: rest))) = some (len, t, rest) := by
  have hlen : readNat? ((Nat.repr len.toNat).toList ++
      ([' ', 'x', ' '] ++ (t.text.toList ++ close :: rest))) =
      some (len.toNat, [' ', 'x', ' '] ++ (t.text.toList ++ close :: rest)) := by
    apply readNat?_repr
    simp
  have hclose : [close].isPrefixOf? (close :: rest) = some rest := isPrefixOf?_append [close] rest
  simp only [readElements, hlen, isPrefixOf?_append, helem close rest hstar hdigit, hclose,
    Option.bind_eq_bind, Option.bind_some]
  rw [if_pos len.toNat_lt_size, UInt64.ofNat_toNat]

theorem readSequence_texts {elem : List Char → Option (Ty × List Char)} {fields : List Ty}
    {bound : Nat} (hbound : (", ".intercalate (fields.map text)).toList.length ≤ bound)
    (helem : ∀ t ∈ fields, ReadBy elem t) (rest : List Char) :
    readSequence elem '\x7d' bound
      ((", ".intercalate (fields.map text)).toList ++ '\x7d' :: rest) = some (fields, rest) := by
  have htexts : (", ".intercalate (fields.map text)).toList =
      [',', ' '].intercalate (fields.map fun t => t.text.toList) := by
    rw [String.toList_intercalate, List.map_map]
    rfl
  have hlength : fields.length ≤ bound := by
    rw [htexts] at hbound
    refine Nat.le_trans ?_ hbound
    rw [← List.length_map fun t : Ty => t.text.toList]
    apply length_le_intercalate
    simpa using fun t _ => length_text_pos t
  rw [htexts]
  apply readSequence_intercalate (by decide) hlength
  · intro t _
    exact exists_cons_of_text t
  · intro t ht c rest hc
    rcases hc with rfl | rfl
    · exact helem t ht _ rest (by decide) (by decide)
    · exact helem t ht _ rest (by decide) (by decide)

theorem length_text_le_of_mem {t : Ty} {fields : List Ty} (ht : t ∈ fields) :
    t.text.toList.length ≤ (", ".intercalate (fields.map text)).toList.length := by
  rw [String.toList_intercalate]
  exact length_le_intercalate_of_mem (List.mem_map_of_mem (List.mem_map_of_mem ht))

theorem readBy_of_readType {depth : Nat} {t : Ty}
    (hread : ∀ rest, StartsOutside Char.isDigit rest →
      readType depth (t.text.toList ++ rest) = some (readStars t rest)) :
    ReadBy (readType depth) t := by
  intro c rest hstar hdigit
  rw [hread (c :: rest) (by simpa using hdigit), readStars_of_ne t hstar]

/-- A type is read back up to the stars that follow it, which make pointers of it. -/
theorem readType_text (t : Ty) {depth : Nat} (hdepth : t.text.toList.length ≤ depth)
    {rest : List Char} (hrest : StartsOutside Char.isDigit rest) :
    readType depth (t.text.toList ++ rest) = some (readStars t rest) := by
  -- A star stays on the level of the type before it, so only the other cases use up depth.
  induction t using Ty.induction generalizing depth rest with
  | pointer elem ih =>
    have helem : elem.text.toList.length ≤ depth := by
      simp only [text, String.toList_append, List.length_append] at hdepth
      omega
    have hread := ih helem (startsOutside_cons Char.isDigit '*' rest |>.mpr (by decide))
    simpa [text, readStars] using hread
  | void =>
    obtain ⟨depth, rfl⟩ := exists_depth_of_length_text_le hdepth
    apply readType_of_readLevel
    simp [text, readLevel, List.isPrefixOf?]
  | int width =>
    obtain ⟨depth, rfl⟩ := exists_depth_of_length_text_le hdepth
    have hwidth := readNat?_repr width.toNat hrest
    apply readType_of_readLevel
    simp [text, readLevel, -Nat.toList_repr, hwidth, width.toNat_lt_size]
  | float kind =>
    obtain ⟨depth, rfl⟩ := exists_depth_of_length_text_le hdepth
    apply readType_of_readLevel
    cases kind <;> simp [text, readLevel, List.isPrefixOf?]
  | array len elem ih =>
    obtain ⟨depth, rfl⟩ := exists_depth_of_length_text_le hdepth
    have helem : elem.text.toList.length ≤ depth := by
      simp [text] at hdepth
      omega
    have hread := readElements_text (readBy_of_readType fun rest => ih helem)
      (show ']' ≠ '*' by decide) (by decide) len rest
    apply readType_of_readLevel
    simpa [text, readLevel] using hread
  | vector len elem ih =>
    obtain ⟨depth, rfl⟩ := exists_depth_of_length_text_le hdepth
    have helem : elem.text.toList.length ≤ depth := by
      simp [text] at hdepth
      omega
    have hread := readElements_text (readBy_of_readType fun rest => ih helem)
      (show '>' ≠ '*' by decide) (by decide) len rest
    obtain ⟨c, digits, hlen, hdigits⟩ := exists_digits_of_repr len.toNat
    -- The digit behind the bracket tells a vector from a packed struct.
    have hopen : c ≠ '\x7b' := by
      rintro rfl
      exact absurd (hdigits _ List.mem_cons_self) (by decide)
    apply readType_of_readLevel
    rw [hlen] at hread
    simpa [text, readLevel, -Nat.toList_repr, hlen, hopen] using hread
  | struct fields packed ih =>
    obtain ⟨depth, rfl⟩ := exists_depth_of_length_text_le hdepth
    have hlength : (", ".intercalate (fields.map text)).toList.length ≤ depth := by
      cases packed <;> simp [text] at hdepth <;> simp <;> omega
    have hfields : ∀ t ∈ fields, ReadBy (readType depth) t := fun t ht =>
      readBy_of_readType fun rest => ih t ht (Nat.le_trans (length_text_le_of_mem ht) hlength)
    have hread := readSequence_texts hlength hfields
    apply readType_of_readLevel
    cases packed with
    | false => simp [text, readLevel, hread, -String.toList_intercalate]
    | true => simp [text, readLevel, hread, List.isPrefixOf?, -String.toList_intercalate]

/-- What may follow a type: nothing, a blank, a comma or a closing character. -/
def EndsType (text : String) : Prop :=
  ∀ c ∈ text.toList.head?, c ∈ [' ', ',', '\x7d', ']', '>']

theorem EndsType.startsOutside {text : String} (hends : EndsType text) :
    StartsOutside Char.isDigit text.toList := by
  have hnone : [' ', ',', '\x7d', ']', '>'].all (!·.isDigit) = true := by decide
  intro c hc
  simpa using List.all_eq_true.mp hnone c (hends c hc)

theorem readStars_of_endsType (t : Ty) {text : String} (hends : EndsType text) :
    readStars t text.toList = (t, text.toList) := by
  cases htext : text.toList with
  | nil => rfl
  | cons c rest =>
    have hmem := hends c (by simp [htext])
    apply readStars_of_ne
    rintro rfl
    exact absurd hmem (by decide)

theorem read_append (t : Ty) {rest : String} (hrest : EndsType rest) :
    read (t.text ++ rest) = some (t, rest) := by
  have hdepth : t.text.toList.length ≤ (t.text ++ rest).length := by
    simp [String.length_append, String.length_toList]
  rw [read, String.toList_append, readType_text t hdepth hrest.startsOutside,
    readStars_of_endsType t hrest]
  simp

theorem text_injective : Function.Injective text := by
  intro a b htext
  have hempty : EndsType "" := by simp [EndsType]
  have ha := read_append a hempty
  rw [htext, read_append b hempty] at ha
  exact (congrArg Prod.fst (Option.some.inj ha)).symm

/-- The spelling of types is unambiguous: a type is read back from the start of any text that goes
on as texts may do behind a type, and so only equal types have the same spelling. -/
theorem text_unambiguous :
    (∀ (t : Ty) (rest : String), EndsType rest → read (t.text ++ rest) = some (t, rest)) ∧
      ∀ a b : Ty, a.text = b.text ↔ a = b := by
  exact ⟨fun t rest hrest => read_append t hrest, fun a b => text_injective.eq_iff⟩

/-- A packed struct in an array, with a vector of pointers among its fields and a comma behind. -/
theorem text_unambiguous_packed_in_array :
    EndsType ", i1" ∧
      read "[2 x <\x7bi8, <4 x \x7b\x7d*>, i64**\x7d>], i1" =
        some (.array 2 (.struct [.int 8, .vector 4 (.pointer (.struct [] false)),
          .pointer (.pointer (.int 64))] true), ", i1") := by
  have hrest : EndsType ", i1" := by simp [EndsType]
  have hread := text_unambiguous.1 (.array 2 (.struct [.int 8,
    .vector 4 (.pointer (.struct [] false)), .pointer (.pointer (.int 64))] true)) ", i1" hrest
  refine ⟨hrest, Eq.trans (congrArg read ?_) hread⟩
  decide +kernel

end Codegen.Ir.Ty
