import Codegen.Json.Decode
import Codegen.Proofs.Json.LexemeText

namespace Codegen.Json

open Codegen.Text

/-- Induction on JSON values, where an array or an object may use the statement for each of its
parts. -/
@[elab_as_elim]
theorem induction {motive : Json → Prop} (null : motive .null)
    (bool : ∀ value, motive (.bool value)) (word : ∀ value, motive (.word value))
    (string : ∀ text, motive (.string text))
    (array : ∀ items, (∀ j ∈ items, motive j) → motive (.array items))
    (object : ∀ members, (∀ m ∈ members, motive m.2) → motive (.object members)) (j : Json) :
    motive j := by
  refine @Json.rec motive (fun items => ∀ j ∈ items, motive j)
    (fun members => ∀ m ∈ members, motive m.2) (fun m => motive m.2) null bool word string array
    object ?_ ?_ ?_ ?_ ?_ j
  · simp
  · intro j items hj hitems
    simpa using ⟨hj, hitems⟩
  · simp
  · intro m members hm hmembers m' hm'
    rcases List.mem_cons.mp hm' with rfl | hmem
    · exact hm
    · exact hmembers m' hmem
  · exact fun _ _ h => h

mutual

/-- The lexemes of the text of a value. -/
def valueLexemes : Json → List Lexeme
  | .null => [.null]
  | .bool value => [.bool value]
  | .word value => [.number (some (.natural value))]
  | .string text => [.string (some text)]
  | .array items => .openBracket :: ([Lexeme.comma].intercalate (itemLexemes items) ++
      [.closeBracket])
  | .object members => .openBrace :: ([Lexeme.comma].intercalate (memberLexemes members) ++
      [.closeBrace])

def itemLexemes : List Json → List (List Lexeme)
  | [] => []
  | item :: rest => item.valueLexemes :: itemLexemes rest

def memberLexemes : List (String × Json) → List (List Lexeme)
  | [] => []
  | (key, value) :: rest =>
    (.string (some key) :: .colon :: value.valueLexemes) :: memberLexemes rest

end

@[simp] theorem itemLexemes_eq_map (items : List Json) :
    itemLexemes items = items.map valueLexemes := by
  induction items with
  | nil => rfl
  | cons item rest ih => simp [itemLexemes, ih]

@[simp] theorem memberLexemes_eq_map (members : List (String × Json)) :
    memberLexemes members =
      members.map fun m => .string (some m.1) :: .colon :: m.2.valueLexemes := by
  induction members with
  | nil => rfl
  | cons m rest ih => simp [memberLexemes, ih]

mutual

/-- The tree of the text of a value. -/
def node : Json → Node
  | .null => .null
  | .bool value => .bool value
  | .word value => .number (some (.natural value))
  | .string text => .string (some text)
  | .array items => .array (itemNodes items) .closed
  | .object members => .object (memberNodes members) .closed

def itemNodes : List Json → List Node
  | [] => []
  | item :: rest => item.node :: itemNodes rest

def memberNodes : List (String × Json) → List (KeyMark × Node)
  | [] => []
  | (key, value) :: rest => (.text (some key), value.node) :: memberNodes rest

end

@[simp] theorem itemNodes_eq_map (items : List Json) : itemNodes items = items.map node := by
  induction items with
  | nil => rfl
  | cons item rest ih => simp [itemNodes, ih]

@[simp] theorem memberNodes_eq_map (members : List (String × Json)) :
    memberNodes members = members.map fun m => (.text (some m.1), m.2.node) := by
  induction members with
  | nil => rfl
  | cons m rest ih => simp [memberNodes, ih]

mutual

/-- How many arrays and objects are open at once where the value nests deepest. -/
def nesting : Json → Nat
  | .null | .bool _ | .word _ | .string _ => 0
  | .array items => itemsNesting items + 1
  | .object members => membersNesting members + 1

def itemsNesting : List Json → Nat
  | [] => 0
  | item :: rest => max item.nesting (itemsNesting rest)

def membersNesting : List (String × Json) → Nat
  | [] => 0
  | (_, value) :: rest => max value.nesting (membersNesting rest)

end

theorem itemsNesting_le_iff {items : List Json} {depth : Nat} :
    itemsNesting items ≤ depth ↔ ∀ j ∈ items, j.nesting ≤ depth := by
  induction items with
  | nil => simp [itemsNesting]
  | cons item rest ih => rw [itemsNesting, Nat.max_le, ih, List.forall_mem_cons]

/-- Lexing of a text in front of one that does not go on with a number. -/
def Lexes (text : List Char) (ls : List Lexeme) : Prop :=
  ∀ rest, StartsOutside isNumeralChar rest → lex (text ++ rest) = ls ++ lex rest

/-- Texts separated by commas up to a closing character are lexed one after the other. -/
theorem lex_intercalate {α : Type} {text : α → List Char} {ls : α → List Lexeme} {as : List α}
    (has : ∀ a ∈ as, Lexes (text a) (ls a)) (close : Char) {l : Lexeme}
    (hclose : ∀ rest, lex (close :: rest) = l :: lex rest) (hnumeral : isNumeralChar close = false)
    (rest : List Char) :
    lex ([','].intercalate (as.map text) ++ close :: rest) =
      [Lexeme.comma].intercalate (as.map ls) ++ l :: lex rest := by
  induction as with
  | nil => exact hclose rest
  | cons a as ih =>
    have ha := has a List.mem_cons_self
    have hrest := ih fun b hb => has b (List.mem_cons_of_mem a hb)
    cases as with
    | nil =>
      have hlast := ha (close :: rest) (by rwa [startsOutside_cons])
      simpa [hclose] using hlast
    | cons b bs =>
      have hcomma := lex_cons (show isBlank ',' = false from rfl)
        ([','].intercalate ((b :: bs).map text) ++ close :: rest)
      have hfirst := ha (',' :: ([','].intercalate ((b :: bs).map text) ++ close :: rest))
        (by rw [startsOutside_cons]; rfl)
      rw [hcomma] at hfirst
      change _ = _ ++ Lexeme.comma ::
        lex ([','].intercalate ((b :: bs).map text) ++ close :: rest) at hfirst
      rw [hrest] at hfirst
      simpa using hfirst

theorem lex_text (j : Json) : Lexes j.text.toList j.valueLexemes := by
  induction j using Json.induction with
  | null =>
    intro rest _
    exact lex_cons (c := 'n') rfl ('u' :: 'l' :: 'l' :: rest)
  | bool value =>
    intro rest _
    cases value with
    | false => exact lex_cons (c := 'f') rfl ('a' :: 'l' :: 's' :: 'e' :: rest)
    | true => exact lex_cons (c := 't') rfl ('r' :: 'u' :: 'e' :: rest)
  | word value =>
    intro rest hrest
    exact lex_repr value hrest
  | string text =>
    intro rest _
    exact lex_quote text rest
  | array items ih =>
    intro rest _
    have hitems := lex_intercalate ih ']' (fun rest => lex_cons rfl rest) rfl rest
    have hopen := lex_cons (c := '[') rfl
      ([','].intercalate (items.map fun j => j.text.toList) ++ ']' :: rest)
    change _ = Lexeme.openBracket ::
      lex ([','].intercalate (items.map fun j => j.text.toList) ++ ']' :: rest) at hopen
    rw [hitems] at hopen
    simpa [text, valueLexemes, String.toList_intercalate, Function.comp_def] using hopen
  | object members ih =>
    intro rest _
    have hmember : ∀ m ∈ members, Lexes (quote m.1 ++ ":" ++ m.2.text).toList
        (.string (some m.1) :: .colon :: m.2.valueLexemes) := by
      intro m hm rest hrest
      have hcolon := lex_cons (c := ':') rfl (m.2.text.toList ++ rest)
      change _ = Lexeme.colon :: lex (m.2.text.toList ++ rest) at hcolon
      have hkey := lex_quote m.1 (':' :: (m.2.text.toList ++ rest))
      rw [hcolon, ih m hm rest hrest] at hkey
      simpa using hkey
    have hmembers := lex_intercalate hmember '\x7d' (fun rest => lex_cons rfl rest) rfl rest
    have hopen := lex_cons (c := '\x7b') rfl ([','].intercalate
      (members.map fun m => (quote m.1 ++ ":" ++ m.2.text).toList) ++ '\x7d' :: rest)
    change _ = Lexeme.openBrace :: lex ([','].intercalate
      (members.map fun m => (quote m.1 ++ ":" ++ m.2.text).toList) ++ '\x7d' :: rest) at hopen
    rw [hmembers] at hopen
    simpa [text, valueLexemes, String.toList_intercalate, Function.comp_def] using hopen

/-- The first lexeme of a value closes nothing. -/
theorem exists_cons_of_valueLexemes (j : Json) :
    ∃ l ls, j.valueLexemes = l :: ls ∧ l ≠ .closeBracket := by
  cases j <;> simp [valueLexemes]

theorem nodeWithin_openBracket {l : Lexeme} (hl : l ≠ .closeBracket) (limit : Nat)
    (ls : List Lexeme) :
    nodeWithin (limit + 1) (.openBracket :: l :: ls) =
      (.array (itemsWithin limit (l :: ls)).1 (itemsWithin limit (l :: ls)).2.1,
        (itemsWithin limit (l :: ls)).2.2) := by
  cases l <;> first | exact absurd rfl hl | rfl

/-- A value is read from its lexemes, whatever follows, when the limit is twice their number. -/
def ReadsNode (j : Json) : Prop :=
  ∀ limit rest, 2 * j.valueLexemes.length ≤ limit →
    nodeWithin limit (j.valueLexemes ++ rest) = (j.node, rest)

theorem itemsWithin_intercalate {item : Json} {items : List Json}
    (hitems : ∀ j ∈ item :: items, ReadsNode j) (limit : Nat)
    (hlimit : 2 * ([Lexeme.comma].intercalate ((item :: items).map valueLexemes)).length < limit)
    (rest : List Lexeme) :
    itemsWithin limit ([Lexeme.comma].intercalate ((item :: items).map valueLexemes) ++
      .closeBracket :: rest) = ((item :: items).map node, .closed, rest) := by
  induction items generalizing item limit with
  | nil =>
    obtain ⟨limit, rfl⟩ := Nat.exists_eq_add_one.mpr (Nat.zero_lt_of_lt hlimit)
    simp only [List.map_cons, List.map_nil, List.intercalate_singleton] at hlimit ⊢
    have hitem := hitems item List.mem_cons_self limit (.closeBracket :: rest) (by omega)
    simp [itemsWithin, hitem]
  | cons next items ih =>
    obtain ⟨limit, rfl⟩ := Nat.exists_eq_add_one.mpr (Nat.zero_lt_of_lt hlimit)
    simp only [List.map_cons, List.intercalate_cons_cons, List.length_append,
      List.length_singleton] at hlimit
    have hitem := hitems item List.mem_cons_self limit
      (.comma :: ([Lexeme.comma].intercalate ((next :: items).map valueLexemes) ++
        .closeBracket :: rest)) (by omega)
    have hrest := ih (fun j hj => hitems j (List.mem_cons_of_mem item hj)) limit
      (by simp only [List.map_cons]; omega)
    simp only [List.map_cons, List.intercalate_cons_cons, List.append_assoc, List.cons_append,
      List.nil_append] at hitem hrest ⊢
    simp only [itemsWithin, hitem, hrest]

theorem membersWithin_intercalate {member : String × Json} {members : List (String × Json)}
    (hmembers : ∀ m ∈ member :: members, ReadsNode m.2) (limit : Nat)
    (hlimit : 2 * ([Lexeme.comma].intercalate ((member :: members).map fun m =>
      .string (some m.1) :: .colon :: m.2.valueLexemes)).length < limit) (rest : List Lexeme) :
    membersWithin limit ([Lexeme.comma].intercalate ((member :: members).map fun m =>
      .string (some m.1) :: .colon :: m.2.valueLexemes) ++ .closeBrace :: rest) =
        ((member :: members).map fun m => (.text (some m.1), m.2.node), .closed, rest) := by
  induction members generalizing member limit with
  | nil =>
    obtain ⟨limit, rfl⟩ := Nat.exists_eq_add_one.mpr (Nat.zero_lt_of_lt hlimit)
    simp only [List.map_cons, List.map_nil, List.intercalate_singleton, List.length_cons] at hlimit
    have hvalue := hmembers member List.mem_cons_self limit (.closeBrace :: rest) (by omega)
    simp [membersWithin, keyAt, hvalue]
  | cons next members ih =>
    obtain ⟨limit, rfl⟩ := Nat.exists_eq_add_one.mpr (Nat.zero_lt_of_lt hlimit)
    simp only [List.map_cons, List.intercalate_cons_cons, List.length_append,
      List.length_cons] at hlimit
    have hvalue := hmembers member List.mem_cons_self limit
      (.comma :: ([Lexeme.comma].intercalate ((next :: members).map fun m =>
        .string (some m.1) :: .colon :: m.2.valueLexemes) ++ .closeBrace :: rest)) (by omega)
    have hrest := ih (fun m hm => hmembers m (List.mem_cons_of_mem member hm)) limit
      (by simp only [List.map_cons]; omega)
    simp only [List.map_cons, List.intercalate_cons_cons, List.append_assoc, List.cons_append,
      List.nil_append] at hvalue hrest ⊢
    simp only [membersWithin, keyAt, hvalue, hrest]

theorem readsNode (j : Json) : ReadsNode j := by
  induction j using Json.induction with
  | null | bool | word | string =>
    intro limit rest hlimit
    obtain ⟨limit, rfl⟩ := Nat.exists_eq_add_one.mpr (Nat.zero_lt_of_lt hlimit)
    rfl
  | array items ih =>
    intro limit rest hlimit
    obtain ⟨limit, rfl⟩ := Nat.exists_eq_add_one.mpr (Nat.zero_lt_of_lt hlimit)
    simp only [valueLexemes, itemLexemes_eq_map, List.length_cons, List.length_append,
      List.length_nil] at hlimit
    simp only [valueLexemes, itemLexemes_eq_map, List.cons_append, List.append_assoc,
      List.nil_append]
    cases items with
    | nil => rfl
    | cons item items =>
      have hitems := itemsWithin_intercalate ih limit (by omega) rest
      obtain ⟨l, ls, hlexemes, hl⟩ := exists_cons_of_valueLexemes item
      obtain ⟨more, htext⟩ : ∃ more, [Lexeme.comma].intercalate
          ((item :: items).map valueLexemes) ++ .closeBracket :: rest = l :: more := by
        cases items <;> simp [hlexemes]
      rw [htext] at hitems ⊢
      rw [nodeWithin_openBracket hl, hitems]
      simp [node]
  | object members ih =>
    intro limit rest hlimit
    obtain ⟨limit, rfl⟩ := Nat.exists_eq_add_one.mpr (Nat.zero_lt_of_lt hlimit)
    simp only [valueLexemes, memberLexemes_eq_map, List.length_cons, List.length_append,
      List.length_nil] at hlimit
    simp only [valueLexemes, memberLexemes_eq_map, List.cons_append, List.append_assoc,
      List.nil_append]
    cases members with
    | nil => rfl
    | cons member members =>
      have hmembers := membersWithin_intercalate ih limit (by omega) rest
      obtain ⟨more, htext⟩ : ∃ more, [Lexeme.comma].intercalate ((member :: members).map fun m =>
          .string (some m.1) :: .colon :: m.2.valueLexemes) ++ .closeBrace :: rest =
            .string (some member.1) :: more := by
        cases members <;> simp
      rw [htext] at hmembers ⊢
      simp only [nodeWithin, hmembers]
      simp [node]

/-- Reading the text of a value is reading its tree. -/
theorem decode_text {α : Type} (decoder : Nat → Decoder α) (j : Json) :
    decode decoder j.text = decoder nestingLimit j.node := by
  have hlex : lexemes j.text = j.valueLexemes := by
    have hall := lex_text j [] (startsOutside_nil _)
    simpa [lexemes_eq_lex] using hall
  have hnode := readsNode j (2 * j.valueLexemes.length + 1) [] (Nat.le_succ _)
  rw [List.append_nil] at hnode
  have hdocument : Document.ofText j.text = ⟨j.node, []⟩ := by
    simp only [Document.ofText, hlex, hnode]
  rw [decode, hdocument]
  cases decoder nestingLimit j.node <;> rfl

end Codegen.Json
