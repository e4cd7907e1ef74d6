import Codegen.Text.Lines

namespace Codegen.Text

/-- The text has no line feed and no carriage return. -/
def IsLine (s : String) : Prop :=
  ∀ c ∈ s.toList, c ≠ '\n' ∧ c ≠ '\r'

instance (s : String) : Decidable (IsLine s) :=
  List.decidableBAll _ s.toList

theorem IsLine.append {s t : String} (hs : IsLine s) (ht : IsLine t) : IsLine (s ++ t) := by
  intro c hc
  rw [String.toList_append, List.mem_append] at hc
  exact hc.elim (hs c) (ht c)

theorem IsLine.join {texts : List String} (htexts : ∀ s ∈ texts, IsLine s) :
    IsLine (String.join texts) := by
  intro c hc
  rw [String.toList_join, List.mem_flatMap] at hc
  obtain ⟨s, hs, hmem⟩ := hc
  exact htexts s hs c hmem

theorem forall_mem_intercalate_iff {α : Type} {p : α → Prop} {sep : List α}
    {lists : List (List α)} (hsep : ∀ a ∈ sep, p a) :
    (∀ a ∈ sep.intercalate lists, p a) ↔ ∀ as ∈ lists, ∀ a ∈ as, p a := by
  induction lists with
  | nil => simp
  | cons as lists ih =>
    cases lists with
    | nil => simp
    | cons bs lists =>
      rw [List.forall_mem_cons, ← ih, List.intercalate_cons_cons, List.forall_mem_append,
        List.forall_mem_append]
      exact and_congr_left' (and_iff_left hsep)

theorem IsLine.intercalate {sep : String} {texts : List String} (hsep : IsLine sep)
    (htexts : ∀ s ∈ texts, IsLine s) : IsLine (sep.intercalate texts) := by
  rw [IsLine, String.toList_intercalate]
  rw [forall_mem_intercalate_iff hsep, List.forall_mem_map]
  exact htexts

theorem isLine_of_printable {s : String} (hs : ∀ c ∈ s.toList, 0x20 ≤ c.toNat) : IsLine s := by
  intro c hc
  have hcode := hs c hc
  constructor <;> rintro rfl <;> exact absurd hcode (by decide)

theorem dropReturn_of_isLine {line : List Char} (hline : ∀ c ∈ line, c ≠ '\r') :
    dropReturn line = line := by
  cases line with
  | nil => rfl
  | cons c line =>
    have hc := hline c List.mem_cons_self
    rw [dropReturn]
    intro rest hreturn
    exact absurd (List.cons.inj hreturn).1 hc

theorem cutLines_append {text : List Char} (htext : ∀ c ∈ text, c ≠ '\n') (line rest : List Char) :
    cutLines line (text ++ rest) = cutLines (text.reverse ++ line) rest := by
  induction text generalizing line with
  | nil => rfl
  | cons c text ih =>
    have hc := htext c List.mem_cons_self
    have hstep := ih (fun d hd => htext d (List.mem_cons_of_mem c hd)) (c :: line)
    simp [cutLines, hc, hstep]

theorem cutLines_line {text : List Char} (htext : ∀ c ∈ text, c ≠ '\n' ∧ c ≠ '\r')
    (rest : List Char) :
    cutLines [] (text ++ '\n' :: rest) = text :: cutLines [] rest := by
  have hreturn : dropReturn text.reverse = text.reverse :=
    dropReturn_of_isLine fun c hc => (htext c (List.mem_reverse.mp hc)).2
  rw [cutLines_append fun c hc => (htext c hc).1]
  simp [cutLines, hreturn]

/-- The lines of a text made of lines, of which the last is not ended. -/
theorem lines_join_append {texts : List String} (htexts : ∀ s ∈ texts, IsLine s) {last : String}
    (hlast : IsLine last) (hne : last ≠ "") :
    lines (String.join (texts.map (· ++ "\n")) ++ last) = texts ++ [last] := by
  induction texts with
  | nil =>
    have hempty : last.toList ≠ [] := fun h => hne (String.toList_eq_nil_iff.mp h)
    have hcut : cutLines [] last.toList = [last.toList] := by
      have happend := cutLines_append (fun c hc => (hlast c hc).1) [] []
      simpa [cutLines, hempty] using happend
    simp [lines, hcut]
  | cons s texts ih =>
    have hrest := ih fun t ht => htexts t (List.mem_cons_of_mem s ht)
    have hcut := cutLines_line (htexts s List.mem_cons_self)
      (String.join (texts.map (· ++ "\n")) ++ last).toList
    have htext : (String.join ((s :: texts).map (· ++ "\n")) ++ last).toList =
        s.toList ++ '\n' :: (String.join (texts.map (· ++ "\n")) ++ last).toList := by
      simp
    rw [lines, htext, hcut, List.map_cons, String.ofList_toList, ← lines, hrest,
      List.cons_append]

theorem indent_join_append {texts : List String} (htexts : ∀ s ∈ texts, IsLine s) {last : String}
    (hlast : IsLine last) (hne : last ≠ "") (margin : String) :
    indent margin (String.join (texts.map (· ++ "\n")) ++ last) =
      String.join ((texts ++ [last]).map fun line => margin ++ line ++ "\n") := by
  rw [indent, lines_join_append htexts hlast hne]

/-- The text has no line feed; it may have carriage returns. -/
def NoNewline (s : String) : Prop :=
  '\n' ∉ s.toList

instance (s : String) : Decidable (NoNewline s) :=
  inferInstanceAs (Decidable ('\n' ∉ s.toList))

theorem IsLine.noNewline {s : String} (hs : IsLine s) : NoNewline s :=
  fun hmem => (hs _ hmem).1 rfl

@[simp] theorem noNewline_append_iff {s t : String} :
    NoNewline (s ++ t) ↔ NoNewline s ∧ NoNewline t := by
  rw [NoNewline, String.toList_append, List.mem_append, not_or]
  rfl

theorem noNewline_iff_forall_mem {s : String} : NoNewline s ↔ ∀ c ∈ s.toList, c ≠ '\n' := by
  rw [NoNewline, List.forall_mem_ne']

theorem noNewline_intercalate_iff {sep : String} {texts : List String} (hsep : NoNewline sep) :
    NoNewline (sep.intercalate texts) ↔ ∀ s ∈ texts, NoNewline s := by
  rw [noNewline_iff_forall_mem] at hsep
  simp only [noNewline_iff_forall_mem, String.toList_intercalate, forall_mem_intercalate_iff hsep,
    List.forall_mem_map]

/-- The pieces of a text between line feeds. Behind the last line feed there is one more piece. -/
def splitLines (s : String) : List String :=
  (s.toList.splitOn '\n').map String.ofList

theorem splitLines_line {line : String} (hline : NoNewline line) (rest : String) :
    splitLines (line ++ "\n" ++ rest) = line :: splitLines rest := by
  have htext : (line ++ "\n" ++ rest).toList = line.toList ++ '\n' :: rest.toList := by simp
  have hsplit : (line.toList ++ '\n' :: rest.toList).splitOn '\n' =
      line.toList.splitOn '\n' ++ rest.toList.splitOn '\n' :=
    List.splitOnP_append_cons _ _ (beq_self_eq_true '\n')
  rw [splitLines, htext, hsplit, List.splitOn_eq_singleton hline, List.singleton_append,
    List.map_cons, String.ofList_toList, splitLines]

theorem not_mem_of_mem_splitOn {text piece : List Char} (hpiece : piece ∈ text.splitOn '\n') :
    '\n' ∉ piece := by
  induction text generalizing piece with
  | nil =>
    obtain rfl : piece = [] := by simpa [List.splitOn, List.splitOnP_nil] using hpiece
    exact List.not_mem_nil
  | cons c rest ih =>
    rw [List.splitOn, List.splitOnP_cons_eq_if_modifyHead] at hpiece
    split at hpiece
    · rcases List.mem_cons.mp hpiece with rfl | hrest
      · exact List.not_mem_nil
      · exact ih hrest
    · next hc =>
      obtain ⟨first, others, hsplit⟩ :=
        List.exists_cons_of_ne_nil (List.splitOnP_ne_nil (· == '\n') rest)
      rw [hsplit, List.modifyHead_cons] at hpiece
      rcases List.mem_cons.mp hpiece with rfl | hothers
      · have hfirst : '\n' ∉ first := ih (by rw [List.splitOn, hsplit]; exact List.mem_cons_self)
        rw [List.mem_cons, not_or]
        exact ⟨fun h => hc (beq_iff_eq.mpr h.symm), hfirst⟩
      · exact ih (by rw [List.splitOn, hsplit]; exact List.mem_cons_of_mem _ hothers)

/-- A text is cut into the lines that it was put together from exactly when none of them holds a
line feed. -/
theorem splitLines_join_iff {texts : List String} :
    splitLines (String.join (texts.map (· ++ "\n"))) = texts ++ [""] ↔
      ∀ s ∈ texts, NoNewline s := by
  constructor
  · intro hsplit s hs
    have hpiece : s ∈ splitLines (String.join (texts.map (· ++ "\n"))) := by
      rw [hsplit]
      exact List.mem_append_left _ hs
    obtain ⟨chars, hchars, rfl⟩ := List.mem_map.mp hpiece
    rw [NoNewline, String.toList_ofList]
    exact not_mem_of_mem_splitOn hchars
  · intro htexts
    induction texts with
    | nil => rfl
    | cons s texts ih =>
      rw [List.forall_mem_cons] at htexts
      rw [List.map_cons, String.join_cons, splitLines_line htexts.1, ih htexts.2, List.cons_append]

end Codegen.Text
