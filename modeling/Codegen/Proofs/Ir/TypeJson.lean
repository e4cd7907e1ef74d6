import Codegen.Ir.Json
import Codegen.Proofs.Ir.TypeText
import Codegen.Proofs.Json.Decode

namespace Codegen.Ir

open Codegen.Json

theorem FloatKind.readsAt_toJson (depth inner : Nat) (k : FloatKind) :
    ReadsAt depth (FloatKind.decoder inner) k k.toJson := by
  cases k with
  | float => exact readsAt_name rfl rfl depth _
  | double => exact readsAt_name rfl rfl depth _

namespace Ty

/-- Where a level can be opened, the readers for what lies inside of it have one level less. -/
theorem decoder_succ (depth : Nat) :
    decoder (depth + 1) = decodeVariant jsonNames ofJsonName (some (decodeContent
      (FloatKind.decoder depth) (decoder depth) (innerLevel decoder depth)
      (innerLevel (innerLevel decoder) depth))) := by
  match depth with
  | 0 => rfl
  | 1 => rfl
  | depth + 2 => rfl

/-- A type is read back from its tree at any depth that the tree does not exceed. -/
def ReadsBack (t : Ty) : Prop :=
  ∀ depth, ReadsAt depth (decoder depth) t t.toJson

theorem readsAt_sequence {elem : Ty} (helem : elem.ReadsBack) (title : String) (depth : Nat)
    (len : UInt64) :
    ReadsAt depth (decodeSequence title (innerLevel decoder depth)) (len, elem)
      (.object [("len", .word len), ("elem", elem.toJson)]) := by
  have hmembers (depth : Nat) : ReadsMembers depth (sequenceFields (decoder depth)) {}
      [("len", .word len), ("elem", elem.toJson)] ⟨some len, some elem⟩ := by
    refine .cons rfl rfl (fun _ => rfl) (readsAt_word64 depth len) ?_
    refine .cons rfl rfl (fun _ => rfl) (helem depth) ?_
    exact .nil _ _ _
  unfold decodeSequence
  rw [map_innerLevel]
  refine readsAt_record hmembers ?_ title depth
  rfl

theorem readsAt_struct {fields : List Ty} (hfields : ∀ t ∈ fields, t.ReadsBack) (title : String)
    (depth : Nat) (packed : Bool) :
    ReadsAt depth (decodeStruct title (innerLevel (innerLevel decoder) depth)) (fields, packed)
      (.object [("fields", .array (fields.map toJson)), ("packed", .bool packed)]) := by
  have hmembers (depth : Nat) : ReadsMembers depth (structFields (innerLevel decoder depth)) {}
      [("fields", .array (fields.map toJson)), ("packed", .bool packed)]
      ⟨some fields, some packed⟩ := by
    refine .cons rfl rfl (fun _ => rfl) (readsAt_list hfields) ?_
    refine .cons rfl rfl (fun _ => rfl) (readsAt_bool depth packed) ?_
    exact .nil _ _ _
  unfold decodeStruct
  rw [map_innerLevel]
  refine readsAt_record hmembers ?_ title depth
  rfl

/-- A type with content is an object around that content, and takes up one level more than it. -/
theorem readsBack_of_content {t : Ty} {name : String} {content : Json} {α : Type}
    {read : Nat → Decoder α} {a : α} {make : α → Ty}
    (hjson : t.toJson = .object [(name, content)]) (hname : jsonNames.contains name = true)
    (hcontent : ∀ depth node, decodeContent (FloatKind.decoder depth) (decoder depth)
      (innerLevel decoder depth) (innerLevel (innerLevel decoder) depth) name node =
        (read depth node).map make)
    (hread : ∀ depth, ReadsAt depth (read depth) a content) (hmake : make a = t) :
    t.ReadsBack := by
  intro depth
  rw [hjson]
  have hnesting : (Json.object [(name, content)]).nesting = content.nesting + 1 := by
    simp [nesting, membersNesting]
  cases depth with
  | zero =>
    rw [ReadsAt, hnesting]
    rfl
  | succ depth =>
    rw [ReadsAt, hnesting, decoder_succ, decodeVariant_object hname, hcontent, (hread depth).map,
      hmake]
    by_cases h : content.nesting ≤ depth
    · rw [if_pos h, if_pos (Nat.succ_le_succ h)]
    · rw [if_neg h, if_neg fun h' => h (Nat.le_of_succ_le_succ h')]

theorem readsBack (t : Ty) : t.ReadsBack := by
  induction t using Ty.induction with
  | void =>
    intro depth
    cases depth with
    | zero => rfl
    | succ depth =>
      rw [decoder_succ]
      rfl
  | int width =>
    exact readsBack_of_content rfl rfl (fun _ _ => rfl) (fun depth => readsAt_word32 depth width)
      rfl
  | float kind =>
    exact readsBack_of_content rfl rfl (fun _ _ => rfl)
      (fun depth => FloatKind.readsAt_toJson depth depth kind) rfl
  | pointer elem ih => exact readsBack_of_content rfl rfl (fun _ _ => rfl) ih rfl
  | array len elem ih =>
    exact readsBack_of_content rfl rfl (fun _ _ => rfl)
      (fun depth => readsAt_sequence ih _ depth len) rfl
  | vector len elem ih =>
    exact readsBack_of_content rfl rfl (fun _ _ => rfl)
      (fun depth => readsAt_sequence ih _ depth len) rfl
  | struct fields packed ih =>
    have hjson : (struct fields packed).toJson = .object [("Struct",
        .object [("fields", .array (fields.map toJson)), ("packed", .bool packed)])] := by
      simp [toJson]
    exact readsBack_of_content hjson rfl (fun _ _ => rfl)
      (fun depth => readsAt_struct ih _ depth packed) rfl

theorem decode_toJson_text (t : Ty) :
    decode decoder t.toJson.text =
      if t.toJson.nesting ≤ nestingLimit then .ok t else malformed := by
  rw [decode_text, readsBack t nestingLimit]

theorem of_decodeSequence_eq_ok {title : String} {elem : Option (Decoder Ty)} {node : Node}
    {len : UInt64} {t : Ty} (hdecode : decodeSequence title elem node = .ok (len, t)) :
    ∃ read, elem = some read ∧ ∃ inner, read inner = .ok t := by
  obtain ⟨s, hrecord, hdecode⟩ := bind_eq_ok_iff.mp hdecode
  obtain ⟨_, _, hdecode⟩ := bind_eq_ok_iff.mp hdecode
  obtain ⟨found, hfound, hlast⟩ := bind_eq_ok_iff.mp hdecode
  cases hlast
  let I : SequenceParts → Prop := fun s =>
    ∀ t ∈ s.elem, ∃ read, elem = some read ∧ ∃ inner, read inner = .ok t
  have hstart : I {} := by simp [I]
  have hfields : ∀ fs ∈ elem.map sequenceFields, ∀ f ∈ fs, f.Keeps I := by
    intro fs hfs f hf
    obtain ⟨read, hread, rfl⟩ := Option.map_eq_some_iff.mp hfs
    simp only [sequenceFields, List.mem_cons, List.not_mem_nil, or_false] at hf
    rcases hf with rfl | rfl
    · exact RecordField.keeps_of fun s node len hs _ => hs
    · refine RecordField.keeps_of fun s node t _ ht => ?_
      rintro t' ⟨⟩
      exact ⟨read, hread, node, ht⟩
  exact keeps_decodeRecord hfields hstart hrecord t (require_eq_ok_iff.mp hfound)

theorem of_decodeStruct_eq_ok {title : String} {field : Option (Option (Decoder Ty))} {node : Node}
    {ts : List Ty} {packed : Bool} (hdecode : decodeStruct title field node = .ok (ts, packed)) :
    ∃ read, field = some (some read) ∧ ∀ t ∈ ts, ∃ inner, read inner = .ok t := by
  obtain ⟨s, hrecord, hdecode⟩ := bind_eq_ok_iff.mp hdecode
  obtain ⟨found, hfound, hdecode⟩ := bind_eq_ok_iff.mp hdecode
  obtain ⟨_, _, hlast⟩ := bind_eq_ok_iff.mp hdecode
  cases hlast
  let I : StructParts → Prop := fun s =>
    ∀ ts ∈ s.fields, ∃ read, field = some (some read) ∧ ∀ t ∈ ts, ∃ inner, read inner = .ok t
  have hstart : I {} := by simp [I]
  have hfields : ∀ fs ∈ field.map structFields, ∀ f ∈ fs, f.Keeps I := by
    intro fs hfs f hf
    obtain ⟨item, hitem, rfl⟩ := Option.map_eq_some_iff.mp hfs
    simp only [structFields, List.mem_cons, List.not_mem_nil, or_false] at hf
    rcases hf with rfl | rfl
    · refine RecordField.keeps_of fun s node ts _ hts => ?_
      obtain ⟨read, rfl, hread⟩ := of_decodeList_eq_ok hts
      rintro ts' ⟨⟩
      exact ⟨read, hitem, hread⟩
    · exact RecordField.keeps_of fun s node packed hs _ => hs
  exact keeps_decodeRecord hfields hstart hrecord ts (require_eq_ok_iff.mp hfound)

theorem eq_void_of_ofJsonName {name : String} {t : Ty} (hname : ofJsonName name = .ok t) :
    t = .void := by
  unfold ofJsonName at hname
  split at hname
  · cases hname
    rfl
  all_goals cases hname

theorem innerLevel_eq_some_iff {β : Type} {make : Nat → β} {depth : Nat} {b : β} :
    innerLevel make depth = some b ↔ ∃ inner, depth = inner + 1 ∧ make inner = b := by
  cases depth <;> simp [innerLevel]

theorem nesting_toJson_array (len : UInt64) (elem : Ty) :
    (array len elem).toJson.nesting = elem.toJson.nesting + 2 := by
  simp [toJson, nesting, membersNesting]

theorem nesting_toJson_vector (len : UInt64) (elem : Ty) :
    (vector len elem).toJson.nesting = elem.toJson.nesting + 2 := by
  simp [toJson, nesting, membersNesting]

theorem nesting_toJson_struct (fields : List Ty) (packed : Bool) :
    (struct fields packed).toJson.nesting = itemsNesting (fields.map toJson) + 3 := by
  simp [toJson, nesting, membersNesting]

/-- Whatever form a type was read from, its own form nests no deeper than the depth allowed. -/
theorem nesting_le_of_decoder {depth : Nat} {node : Node} {t : Ty}
    (hdecode : decoder depth node = .ok t) : t.toJson.nesting ≤ depth := by
  induction depth using Nat.strongRecOn generalizing node t with
  | ind depth ih =>
    have hplain {name : String} (hname : ofJsonName name = .ok t) : t.toJson.nesting ≤ depth := by
      rw [eq_void_of_ofJsonName hname]
      exact Nat.zero_le depth
    cases depth with
    | zero =>
      rcases cases_of_decodeVariant hdecode with ⟨name, hname⟩ | ⟨read, name, inner, hnone, _⟩
      · exact hplain hname
      · cases hnone
    | succ depth =>
      rw [decoder_succ] at hdecode
      rcases cases_of_decodeVariant hdecode with ⟨name, hname⟩ | ⟨read, name, inner, hread, hinner⟩
      · exact hplain hname
      · cases hread
        unfold decodeContent at hinner
        split at hinner
        · obtain ⟨_, _, rfl⟩ := map_eq_ok_iff.mp hinner
          exact Nat.zero_le _
        · obtain ⟨width, _, rfl⟩ := map_eq_ok_iff.mp hinner
          exact Nat.succ_le_succ (Nat.zero_le depth)
        · obtain ⟨kind, _, rfl⟩ := map_eq_ok_iff.mp hinner
          exact Nat.succ_le_succ (Nat.zero_le depth)
        · obtain ⟨elem, helem, rfl⟩ := map_eq_ok_iff.mp hinner
          have hle := ih depth (Nat.lt_succ_self depth) helem
          simpa [toJson, nesting, membersNesting] using hle
        · obtain ⟨⟨len, elem⟩, hsequence, rfl⟩ := map_eq_ok_iff.mp hinner
          obtain ⟨read, hlevel, inner, helem⟩ := of_decodeSequence_eq_ok hsequence
          obtain ⟨depth, rfl, rfl⟩ := innerLevel_eq_some_iff.mp hlevel
          have hle := ih depth (by omega) helem
          rw [nesting_toJson_array]
          omega
        · obtain ⟨⟨len, elem⟩, hsequence, rfl⟩ := map_eq_ok_iff.mp hinner
          obtain ⟨read, hlevel, inner, helem⟩ := of_decodeSequence_eq_ok hsequence
          obtain ⟨depth, rfl, rfl⟩ := innerLevel_eq_some_iff.mp hlevel
          have hle := ih depth (by omega) helem
          rw [nesting_toJson_vector]
          omega
        · obtain ⟨⟨fields, packed⟩, hstruct, rfl⟩ := map_eq_ok_iff.mp hinner
          obtain ⟨read, hlevel, hfields⟩ := of_decodeStruct_eq_ok hstruct
          obtain ⟨_, rfl, hfield⟩ := innerLevel_eq_some_iff.mp hlevel
          obtain ⟨depth, rfl, rfl⟩ := innerLevel_eq_some_iff.mp hfield
          have hle : itemsNesting (fields.map toJson) ≤ depth := by
            rw [itemsNesting_le_iff]
            intro j hj
            obtain ⟨t, ht, rfl⟩ := List.mem_map.mp hj
            obtain ⟨inner, hinner⟩ := hfields t ht
            exact ih depth (by omega) hinner
          rw [nesting_toJson_struct]
          omega

/-- The text of a type is read back when it nests at most 127 arrays and objects, and is malformed
when it nests more. A type that was read from any text at all is read again from its own text. -/
theorem json_text_read_back :
    (∀ t : Ty,
      (t.toJson.nesting ≤ 127 → decode decoder t.toJson.text = .ok t) ∧
        (128 ≤ t.toJson.nesting → decode decoder t.toJson.text = .error (.broken .malformed))) ∧
      ∀ (text : String) (t : Ty), decode decoder text = .ok t →
        decode decoder t.toJson.text = .ok t := by
  refine ⟨fun t => ⟨fun hnesting => ?_, fun hnesting => ?_⟩, fun text t hdecode => ?_⟩
  · rw [decode_toJson_text]
    exact if_pos hnesting
  · rw [decode_toJson_text]
    exact if_neg (Nat.not_le_of_lt hnesting)
  · obtain ⟨found, hdecoder, hlast⟩ := bind_eq_ok_iff.mp hdecode
    split at hlast
    · cases hlast
      rw [decode_toJson_text, if_pos (nesting_le_of_decoder hdecoder)]
    · cases hlast

/-- The limit falls inside of a struct: its form around pointers may be 127 levels deep and not 128.
A type read from other forms than its own, blanks and an unknown field among them, is void in an
array. -/
theorem json_text_read_back_at_limit :
    decode decoder (struct [Nat.repeat pointer 124 void] true).toJson.text =
        .ok (struct [Nat.repeat pointer 124 void] true) ∧
      decode decoder (struct [Nat.repeat pointer 125 void] true).toJson.text =
        .error (.broken .malformed) ∧
      decode decoder
          "\x7b \"Array\": \x7b\"x\": [\x7b\x7d], \"len\": 2, \"elem\": \x7b\"Void\": null\x7d\x7d\x7d" =
        .ok (array 2 void) ∧
      decode decoder (array 2 void).toJson.text = .ok (array 2 void) := by
  have hread : decode decoder
      "\x7b \"Array\": \x7b\"x\": [\x7b\x7d], \"len\": 2, \"elem\": \x7b\"Void\": null\x7d\x7d\x7d" =
      .ok (array 2 void) := by
    decide +kernel
  exact ⟨(json_text_read_back.1 _).1 (by decide +kernel),
    (json_text_read_back.1 _).2 (by decide +kernel), hread, json_text_read_back.2 _ _ hread⟩

end Ty

end Codegen.Ir
