import Codegen.Proofs.Json.Text

namespace Codegen.Json

variable {α β σ : Type}

/-- At a depth, a decoder gives a value back from its tree, or refuses a tree that nests deeper. -/
def ReadsAt (depth : Nat) (decoder : Decoder α) (a : α) (j : Json) : Prop :=
  decoder j.node = if j.nesting ≤ depth then .ok a else malformed

theorem ReadsAt.map {depth : Nat} {decoder : Decoder α} {a : α} {j : Json}
    (hread : ReadsAt depth decoder a j) (f : α → β) :
    (decoder j.node).map f = if j.nesting ≤ depth then .ok (f a) else malformed := by
  rw [hread]
  split <;> rfl

theorem readsAt_text (depth : Nat) (s : String) : ReadsAt depth decodeText s (.string s) := by
  simp [ReadsAt, node, nesting, decodeText]

theorem readsAt_bool (depth : Nat) (b : Bool) : ReadsAt depth decodeBool b (.bool b) := by
  simp [ReadsAt, node, nesting, decodeBool]

theorem readsAt_word64 (depth : Nat) (w : UInt64) : ReadsAt depth decodeWord64 w (.word w) := by
  have hword : decodeWord 64 (.number (some (.natural w))) = .ok w.toNat := if_pos w.toNat_lt
  simp [ReadsAt, node, nesting, decodeWord64, hword, Except.map]

theorem readsAt_word32 (depth : Nat) (w : UInt32) :
    ReadsAt depth decodeWord32 w (.word w.toUInt64) := by
  have hword : decodeWord 32 (.number (some (.natural w.toUInt64))) = .ok w.toNat := by
    rw [decodeWord, UInt32.toNat_toUInt64]
    exact if_pos w.toNat_lt
  simp [ReadsAt, node, nesting, decodeWord32, hword, Except.map]

theorem readsAt_optional {depth : Nat} {decoder : Decoder α} {toJson : α → Json}
    (hread : ∀ a, ReadsAt depth decoder a (toJson a)) (hnull : ∀ a, (toJson a).node ≠ .null)
    (a : Option α) :
    ReadsAt depth (decodeOptional decoder) a (.orNull (a.map toJson)) := by
  cases a with
  | none => simp [ReadsAt, orNull, node, nesting, decodeOptional]
  | some a =>
    have hoptional : decodeOptional decoder (toJson a).node =
        (decoder (toJson a).node).map some := by
      unfold decodeOptional
      split
      · next h => exact absurd h (hnull a)
      · rfl
    rw [Option.map_some, orNull, ReadsAt, hoptional, (hread a).map]

theorem mapM_node {depth : Nat} {decoder : Decoder α} {toJson : α → Json} {as : List α}
    (hread : ∀ a ∈ as, ReadsAt depth decoder a (toJson a)) :
    (itemNodes (as.map toJson)).mapM decoder =
      if itemsNesting (as.map toJson) ≤ depth then .ok as else malformed := by
  induction as with
  | nil => simp [itemsNesting, pure, Except.pure]
  | cons a as ih =>
    have hfirst := hread a List.mem_cons_self
    have hrest := ih fun b hb => hread b (List.mem_cons_of_mem a hb)
    rw [List.map_cons, itemNodes, itemsNesting, List.mapM_cons, hfirst, hrest]
    by_cases ha : (toJson a).nesting ≤ depth
    · by_cases has : itemsNesting (as.map toJson) ≤ depth
      · rw [if_pos ha, if_pos has, if_pos (Nat.max_le.mpr ⟨ha, has⟩)]
        rfl
      · rw [if_pos ha, if_neg has, if_neg fun h => has (Nat.max_le.mp h).2]
        rfl
    · rw [if_neg ha, if_neg fun h => ha (Nat.max_le.mp h).1]
      rfl

theorem readsAt_list {depth : Nat} {decoder : Nat → Decoder α} {toJson : α → Json} {as : List α}
    (hread : ∀ a ∈ as, ∀ depth, ReadsAt depth (decoder depth) a (toJson a)) :
    ReadsAt depth (decodeList (innerLevel decoder depth)) as (.array (as.map toJson)) := by
  cases depth with
  | zero => simp [ReadsAt, node, nesting, decodeList, innerLevel]
  | succ depth =>
    have hitems := mapM_node fun a ha => hread a ha depth
    rw [ReadsAt, node, nesting, innerLevel, decodeList, hitems]
    by_cases has : itemsNesting (as.map toJson) ≤ depth
    · rw [if_pos has, if_pos (Nat.succ_le_succ has)]
      rfl
    · rw [if_neg has, if_neg fun h => has (Nat.le_of_succ_le_succ h)]
      rfl

theorem decodeVariant_string {known : List String} {name : String}
    (hname : known.contains name = true) (plain : String → Except Fault α) (content : Option (String → Decoder α)) :
    decodeVariant known plain content (Json.string name).node = plain name :=
  if_pos hname

theorem decodeVariant_object {known : List String} {name : String}
    (hname : known.contains name = true) (plain : String → Except Fault α) (content : String → Decoder α) (j : Json) :
    decodeVariant known plain (some content) (Json.object [(name, j)]).node =
      content name j.node := by
  change (if known.contains name = true then (do
    let a ← content name j.node
    Closing.closed.check
    return a) else _) = _
  rw [if_pos hname]
  cases content name j.node <;> rfl

theorem readsAt_name {known : List (String × α)} {name : String} {a : α}
    (hlookup : known.lookup name = some a) (hname : (known.map Prod.fst).contains name = true)
    (depth : Nat) (nested : Bool) : ReadsAt depth (decodeName known nested) a (.string name) := by
  rw [ReadsAt, nesting, if_pos (Nat.zero_le depth), decodeName, decodeVariant_string hname, hlookup]

theorem decodeRecord_object (title : String) (start : σ) (fields : List (RecordField σ))
    (members : List (String × Json)) :
    decodeRecord title start (some fields) (Json.object members).node =
      readMembers fields start (memberNodes members) := by
  change (do
    let s ← readMembers fields start (memberNodes members)
    Closing.closed.check
    return s) = _
  cases readMembers fields start (memberNodes members) <;> rfl

/-- At a depth, members are read into a record one after the other, or refused if one of them nests
deeper. -/
def ReadsMembers (depth : Nat) (fields : List (RecordField σ)) (s : σ)
    (members : List (String × Json)) (s' : σ) : Prop :=
  readMembers fields s (memberNodes members) =
    if membersNesting members ≤ depth then .ok s' else malformed

theorem ReadsMembers.nil (depth : Nat) (fields : List (RecordField σ)) (s : σ) :
    ReadsMembers depth fields s [] s :=
  (if_pos (Nat.zero_le depth)).symm

theorem ReadsMembers.cons {fields : List (RecordField σ)} {name : String} {field : RecordField σ}
    (hfield : fields.find? (fun f => f.name == name) = some field) {s last : σ}
    (hgiven : field.given s = false) {decoder : Decoder α} {put : α → σ}
    (hput : ∀ node, field.read s node = (decoder node).map put) {a : α} {j : Json} {depth : Nat}
    (hread : ReadsAt depth decoder a j) {members : List (String × Json)}
    (hrest : ReadsMembers depth fields (put a) members last) :
    ReadsMembers depth fields s ((name, j) :: members) last := by
  rw [ReadsMembers, memberNodes, readMembers, membersNesting]
  have hkey : (KeyMark.text name).name = .ok name := rfl
  rw [hkey]
  simp only [bind, Except.bind, hfield, hgiven, hput, hread.map, Bool.false_eq_true, if_false]
  by_cases hj : j.nesting ≤ depth
  · rw [if_pos hj]
    refine hrest.trans ?_
    by_cases hmembers : membersNesting members ≤ depth
    · rw [if_pos hmembers, if_pos (Nat.max_le.mpr ⟨hj, hmembers⟩)]
    · rw [if_neg hmembers, if_neg fun h => hmembers (Nat.max_le.mp h).2]
  · rw [if_neg hj, if_neg fun h => hj (Nat.max_le.mp h).1]
    rfl

theorem map_innerLevel (make : Nat → α) (f : α → β) (depth : Nat) :
    (innerLevel make depth).map f = innerLevel (fun depth => f (make depth)) depth := by
  cases depth <;> rfl

/-- A record takes up one level, and its fields are read at the depth that is left. -/
theorem readsAt_record {fields : Nat → List (RecordField σ)} {start s : σ}
    {members : List (String × Json)}
    (hmembers : ∀ depth, ReadsMembers depth (fields depth) start members s)
    {finish : σ → Except Fault α} {a : α} (hfinish : finish s = .ok a) (title : String)
    (depth : Nat) :
    ReadsAt depth (fun node => decodeRecord title start (innerLevel fields depth) node >>= finish) a
      (.object members) := by
  cases depth with
  | zero => rfl
  | succ depth =>
    rw [ReadsAt, nesting, innerLevel, decodeRecord_object, hmembers depth]
    by_cases h : membersNesting members ≤ depth
    · rw [if_pos h, if_pos (Nat.succ_le_succ h)]
      exact hfinish
    · rw [if_neg h, if_neg fun h' => h (Nat.le_of_succ_le_succ h')]
      rfl

theorem wrongType_ne_ok (expected : String) (node : Node) (a : α) :
    wrongType expected node ≠ .ok a := by
  unfold wrongType
  split <;> simp

/-- What a variant is read from: its name alone, or the content that follows its name. -/
theorem cases_of_decodeVariant {known : List String} {plain : String → Except Fault α}
    {content : Option (String → Decoder α)} {node : Node} {a : α}
    (hdecode : decodeVariant known plain content node = .ok a) :
    (∃ name, plain name = .ok a) ∨
      ∃ read name inner, content = some read ∧ read name inner = .ok a := by
  unfold decodeVariant at hdecode
  split at hdecode
  · next name =>
    split at hdecode
    · exact .inl ⟨name, hdecode⟩
    · cases hdecode
  · next members closing =>
    split at hdecode
    · cases hdecode
    · obtain ⟨_, _, hmalformed⟩ := bind_eq_ok_iff.mp hdecode
      cases hmalformed
    · next read key inner rest =>
      obtain ⟨name, _, hdecode⟩ := bind_eq_ok_iff.mp hdecode
      split at hdecode
      · obtain ⟨b, hread, hdecode⟩ := bind_eq_ok_iff.mp hdecode
        dsimp only at hdecode
        split at hdecode
        · obtain ⟨_, _, hlast⟩ := bind_eq_ok_iff.mp hdecode
          cases hlast
          exact .inr ⟨read, name, inner, rfl, hread⟩
        · cases hdecode
      · cases hdecode
  · cases hdecode
  all_goals cases hdecode

theorem of_decodeList_eq_ok {item : Option (Decoder α)} {node : Node} {as : List α}
    (hdecode : decodeList item node = .ok as) :
    ∃ read, item = some read ∧ ∀ a ∈ as, ∃ inner, read inner = .ok a := by
  unfold decodeList at hdecode
  split at hdecode
  · split at hdecode
    · cases hdecode
    · next read =>
      obtain ⟨values, hvalues, hdecode⟩ := bind_eq_ok_iff.mp hdecode
      obtain ⟨_, _, hlast⟩ := bind_eq_ok_iff.mp hdecode
      cases hlast
      exact ⟨read, rfl, fun a ha => of_mapM_eq_ok hvalues ha⟩
  · exact absurd hdecode (wrongType_ne_ok _ _ _)

/-- Reading a field keeps what holds of the record so far. -/
def RecordField.Keeps (I : σ → Prop) (f : RecordField σ) : Prop :=
  ∀ s node s', I s → f.read s node = .ok s' → I s'

theorem RecordField.keeps_of {I : σ → Prop} {name : String} {get : σ → Option α} {put : σ → α → σ}
    {decoder : Decoder α} (hput : ∀ s node a, I s → decoder node = .ok a → I (put s a)) :
    (RecordField.of name get put decoder).Keeps I := by
  intro s node s' hs hread
  obtain ⟨a, hdecoder, rfl⟩ := map_eq_ok_iff.mp hread
  exact hput s node a hs hdecoder

variable {I : σ → Prop} {fields : List (RecordField σ)}

theorem keeps_readMembers (hfields : ∀ f ∈ fields, f.Keeps I) {members : List (KeyMark × Node)}
    {s s' : σ} (hs : I s) (hread : readMembers fields s members = .ok s') : I s' := by
  induction members generalizing s with
  | nil =>
    cases hread
    exact hs
  | cons member members ih =>
    obtain ⟨key, inner⟩ := member
    obtain ⟨name, _, hread⟩ := bind_eq_ok_iff.mp hread
    split at hread
    · next field hfind =>
      split at hread
      · cases hread
      · obtain ⟨next, hnext, hrest⟩ := bind_eq_ok_iff.mp hread
        exact ih (hfields field (List.mem_of_find?_eq_some hfind) s inner next hs hnext) hrest
    · split at hread
      · exact ih hs hread
      · cases hread

theorem keeps_readItems (hfields : ∀ f ∈ fields, f.Keeps I) {expected : String} {closing : Closing}
    {index : Nat} {items : List Node} {s s' : σ} (hs : I s)
    (hread : readItems expected closing index s fields items = .ok s') : I s' := by
  induction fields generalizing index items s with
  | nil =>
    cases items with
    | nil =>
      obtain ⟨_, _, hlast⟩ := bind_eq_ok_iff.mp hread
      cases hlast
      exact hs
    | cons item items => cases hread
  | cons field fields ih =>
    have hrest : ∀ f ∈ fields, f.Keeps I := fun f hf => hfields f (List.mem_cons_of_mem field hf)
    cases items with
    | nil =>
      obtain ⟨_, _, hread⟩ := bind_eq_ok_iff.mp hread
      split at hread
      · exact ih hrest hs hread
      · cases hread
    | cons item items =>
      obtain ⟨next, hnext, hread⟩ := bind_eq_ok_iff.mp hread
      exact ih hrest (hfields field List.mem_cons_self s item next hs hnext) hread

/-- A record that was read satisfies what holds at the start and what each field keeps. -/
theorem keeps_decodeRecord {title : String} {start s : σ} {fields : Option (List (RecordField σ))}
    {node : Node} (hfields : ∀ fs ∈ fields, ∀ f ∈ fs, f.Keeps I) (hstart : I start)
    (hdecode : decodeRecord title start fields node = .ok s) : I s := by
  unfold decodeRecord at hdecode
  split at hdecode
  · split at hdecode
    · cases hdecode
    · next fs =>
      obtain ⟨s, hread, hdecode⟩ := bind_eq_ok_iff.mp hdecode
      obtain ⟨_, _, hlast⟩ := bind_eq_ok_iff.mp hdecode
      cases hlast
      exact keeps_readMembers (hfields fs rfl) hstart hread
  · split at hdecode
    · cases hdecode
    · next fs => exact keeps_readItems (hfields fs rfl) hstart hdecode
  · exact absurd hdecode (wrongType_ne_ok _ _ _)

theorem require_eq_ok_iff {name : String} {x : Option α} {a : α} :
    require name x = .ok a ↔ x = some a := by
  cases x <;> simp [require]

end Codegen.Json
