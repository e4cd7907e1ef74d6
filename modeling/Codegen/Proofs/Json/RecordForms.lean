import Codegen.Proofs.Json.Decode
import Mathlib.Data.List.Forall2
import Mathlib.Data.List.Nodup

namespace Codegen.Json

variable {α σ : Type}

/-- How a field of a record may be written: under which name, in which forms its value, and whether
the value is the default. -/
structure FieldForm where
  name : String
  IsForm : Json → Prop
  IsDefault : Prop

/-- The members of an object that has each field, or leaves it out if its value is the default. -/
inductive MembersOf : List FieldForm → List (String × Json) → Prop
  | nil : MembersOf [] []
  | keep {form forms j members} : form.IsForm j → MembersOf forms members →
      MembersOf (form :: forms) ((form.name, j) :: members)
  | skip {form forms members} : form.IsDefault → MembersOf forms members →
      MembersOf (form :: forms) members

/-- The items of an array that has the fields in order, up to some that have the default. -/
inductive ItemsOf : List FieldForm → List Json → Prop
  | done {forms} : (∀ form ∈ forms, form.IsDefault) → ItemsOf forms []
  | cons {form forms j items} : form.IsForm j → ItemsOf forms items →
      ItemsOf (form :: forms) (j :: items)

/-- The forms of a record. -/
inductive RecordForm (forms : List FieldForm) : Json → Prop
  | object {kept members} : MembersOf forms kept → members.Perm kept →
      RecordForm forms (.object members)
  | array {items} : ItemsOf forms items → RecordForm forms (.array items)

/-- The forms of a list, each item in a form of its own. -/
def ListForm (IsForm : α → Json → Prop) (as : List α) (j : Json) : Prop :=
  ∃ items, j = .array items ∧ List.Forall₂ IsForm as items

/-- A field is read from each form of its value, whichever fields were read before, where `state`
tells how far the record is read once the fields of some names are. -/
structure FieldReads (state : List String → σ) (field : RecordField σ) (form : FieldForm) :
    Prop where
  name_eq : field.name = form.name
  optional : form.IsDefault → field.optional = true
  given : ∀ names, form.name ∉ names → field.given (state names) = false
  read : ∀ names j, form.IsForm j →
    field.read (state names) j.node = .ok (state (form.name :: names))

/-- What a record has for a field once the fields of some names are read. -/
def readPart (names : List String) (name : String) (a : α) : Option α :=
  if name ∈ names then some a else none

theorem require_readPart {names : List String} {name : String} (hname : name ∈ names) (a : α) :
    require name (readPart names name a) = .ok a := by
  rw [readPart, if_pos hname, require]

theorem getD_readPart {names : List String} {name : String} {a default : α}
    (h : name ∈ names ∨ a = default) : (readPart names name a).getD default = a := by
  by_cases hname : name ∈ names
  · rw [readPart, if_pos hname, Option.getD_some]
  · rw [readPart, if_neg hname, Option.getD_none, h.resolve_left hname]

namespace FieldReads

variable {state : List String → σ} {name : String} {IsForm : Json → Prop}

/-- A field that is kept in one place of the record. -/
theorem of {get : σ → Option α} {put : σ → α → σ} {decoder : Decoder α} {a : α}
    (hget : ∀ names, get (state names) = readPart names name a)
    (hput : ∀ names, put (state names) a = state (name :: names))
    (hform : ∀ j, IsForm j → decoder j.node = .ok a) :
    FieldReads state (.of name get put decoder) ⟨name, IsForm, False⟩ := by
  refine ⟨rfl, False.elim, ?_, ?_⟩
  · intro names hnames
    change (get (state names)).isSome = false
    rw [hget, readPart, if_neg hnames]
    rfl
  · intro names j hj
    change (decoder j.node).map (put (state names)) = .ok (state (name :: names))
    rw [hform j hj, ← hput names]
    rfl

theorem orAbsent {field : RecordField σ} (h : FieldReads state field ⟨name, IsForm, False⟩)
    (IsDefault : Prop) : FieldReads state field.orAbsent ⟨name, IsForm, IsDefault⟩ :=
  ⟨h.name_eq, fun _ => rfl, h.given, h.read⟩

end FieldReads

namespace MembersOf

variable {forms : List FieldForm} {members : List (String × Json)}

theorem names_sublist (h : MembersOf forms members) :
    (members.map Prod.fst).Sublist (forms.map FieldForm.name) := by
  induction h with
  | nil => exact .slnil
  | keep _ _ ih => exact ih.cons_cons _
  | skip _ _ ih => exact ih.cons _

theorem isForm (h : MembersOf forms members) :
    ∀ m ∈ members, ∃ form ∈ forms, form.name = m.1 ∧ form.IsForm m.2 := by
  induction h with
  | nil => simp
  | @keep form forms j members hj _ ih =>
    rw [List.forall_mem_cons]
    refine ⟨⟨form, List.mem_cons_self, rfl, hj⟩, fun m hm => ?_⟩
    obtain ⟨form', hform', hm⟩ := ih m hm
    exact ⟨form', List.mem_cons_of_mem _ hform', hm⟩
  | skip _ _ ih =>
    intro m hm
    obtain ⟨form', hform', hm⟩ := ih m hm
    exact ⟨form', List.mem_cons_of_mem _ hform', hm⟩

theorem mem_or_isDefault (h : MembersOf forms members) :
    ∀ form ∈ forms, form.name ∈ members.map Prod.fst ∨ form.IsDefault := by
  induction h with
  | nil => simp
  | keep _ _ ih =>
    rw [List.forall_mem_cons]
    refine ⟨.inl List.mem_cons_self, fun form hform => ?_⟩
    exact (ih form hform).imp_left (List.mem_cons_of_mem _)
  | skip hdefault _ ih =>
    rw [List.forall_mem_cons]
    exact ⟨.inr hdefault, ih⟩

end MembersOf

theorem listForm_map {IsForm : α → Json → Prop} {toJson : α → Json}
    (h : ∀ a, IsForm a (toJson a)) (as : List α) : ListForm IsForm as (.array (as.map toJson)) :=
  ⟨_, rfl, List.forall₂_map_right_iff.mpr (List.forall₂_same.mpr fun a _ => h a)⟩

/-- A list is read from each of its forms if its items are. -/
theorem decodeList_of_form {IsForm : α → Json → Prop} {decoder : Decoder α}
    (hitem : ∀ a j, IsForm a j → decoder j.node = .ok a) {as : List α} {j : Json}
    (hj : ListForm IsForm as j) : decodeList (some decoder) j.node = .ok as := by
  obtain ⟨items, rfl, hitems⟩ := hj
  have hvalues : (itemNodes items).mapM decoder = .ok as := by
    induction hitems with
    | nil => rfl
    | @cons a j as items hj _ ih =>
      rw [itemNodes, List.mapM_cons, hitem a j hj, ih]
      rfl
  rw [node, decodeList, hvalues]
  rfl

section Record

variable {state : List String → σ} {fields : List (RecordField σ)} {forms : List FieldForm}

/-- The field of a name is the one that reads its forms. -/
theorem exists_find?_of_mem (hfields : List.Forall₂ (FieldReads state) fields forms)
    (hnodup : (forms.map FieldForm.name).Nodup) {form : FieldForm} (hform : form ∈ forms) :
    ∃ field, fields.find? (fun f => f.name == form.name) = some field ∧
      FieldReads state field form := by
  induction hfields with
  | nil => cases hform
  | @cons field first fields forms hfirst _ ih =>
    obtain ⟨hnew, hrest⟩ := List.nodup_cons.mp hnodup
    rcases List.mem_cons.mp hform with rfl | hmem
    · exact ⟨field, List.find?_cons_of_pos (by simp [hfirst.name_eq]), hfirst⟩
    · have hne : field.name ≠ form.name := by
        rw [hfirst.name_eq]
        exact fun hsame => hnew (hsame ▸ List.mem_map_of_mem hmem)
      obtain ⟨found, hfind, hreads⟩ := ih hrest hmem
      exact ⟨found, by rwa [List.find?_cons_of_neg (by simpa using hne)], hreads⟩

/-- Members are read in the order in which they come, each where its field was not met before. -/
theorem readMembers_of_forms (hfields : List.Forall₂ (FieldReads state) fields forms)
    (hnodup : (forms.map FieldForm.name).Nodup) {members : List (String × Json)}
    (hforms : ∀ m ∈ members, ∃ form ∈ forms, form.name = m.1 ∧ form.IsForm m.2)
    (hmembers : (members.map Prod.fst).Nodup) (names : List String)
    (hnames : ∀ m ∈ members, m.1 ∉ names) :
    readMembers fields (state names) (memberNodes members) =
      .ok (state ((members.map Prod.fst).reverse ++ names)) := by
  induction members generalizing names with
  | nil => rfl
  | cons m members ih =>
    obtain ⟨name, j⟩ := m
    rw [List.forall_mem_cons] at hforms hnames
    obtain ⟨⟨form, hform, rfl, hj⟩, hforms⟩ := hforms
    obtain ⟨hnew, hmembers⟩ := List.nodup_cons.mp hmembers
    obtain ⟨field, hfind, hreads⟩ := exists_find?_of_mem hfields hnodup hform
    have hkey : (KeyMark.text form.name).name = .ok form.name := rfl
    have hrestNames : ∀ m ∈ members, m.1 ∉ form.name :: names := by
      intro m hm
      rw [List.mem_cons, not_or]
      exact ⟨fun hsame => hnew (List.mem_map.mpr ⟨m, hm, hsame⟩), hnames.2 m hm⟩
    have hrest := ih hforms hmembers (form.name :: names) hrestNames
    rw [memberNodes, readMembers, hkey]
    simp only [bind, Except.bind, hfind, hreads.given names hnames.1, hreads.read names j hj,
      Bool.false_eq_true, if_false]
    rw [hrest, List.map_cons, List.reverse_cons, List.append_assoc]
    rfl

/-- Items are read in declaration order, and fields without an item are left as they are. -/
theorem readItems_of_items (hfields : List.Forall₂ (FieldReads state) fields forms)
    {items : List Json} (hitems : ItemsOf forms items) (expected : String) (index : Nat)
    (names : List String) :
    ∃ read, readItems expected .closed index (state names) fields (itemNodes items) =
        .ok (state (read ++ names)) ∧
      ∀ form ∈ forms, form.name ∈ read ∨ form.IsDefault := by
  induction hfields generalizing items index names with
  | nil =>
    cases hitems with
    | done => exact ⟨[], rfl, by simp⟩
  | @cons field form fields forms hfirst _ ih =>
    cases hitems with
    | done hdefault =>
      rw [List.forall_mem_cons] at hdefault
      obtain ⟨read, hread, hall⟩ := ih (.done hdefault.2) (index + 1) names
      refine ⟨read, ?_, List.forall_mem_cons.mpr ⟨.inr hdefault.1, hall⟩⟩
      rw [itemNodes, readItems, if_pos (hfirst.optional hdefault.1)]
      exact hread
    | @cons _ _ j items hj hitems =>
      obtain ⟨read, hread, hall⟩ := ih hitems (index + 1) (form.name :: names)
      refine ⟨read ++ [form.name], ?_, ?_⟩
      · rw [itemNodes, readItems, hfirst.read names j hj, List.append_assoc]
        exact hread
      · rw [List.forall_mem_cons]
        refine ⟨.inl (by simp), fun form' hform' => ?_⟩
        exact (hall form' hform').imp_left (List.mem_append_left _)

/-- From every form of a record, all its fields are read, except for some that have the default. -/
theorem decodeRecord_of_form (hfields : List.Forall₂ (FieldReads state) fields forms)
    (hnodup : (forms.map FieldForm.name).Nodup) {j : Json} (hj : RecordForm forms j)
    (title : String) :
    ∃ names, decodeRecord title (state []) (some fields) j.node = .ok (state names) ∧
      ∀ form ∈ forms, form.name ∈ names ∨ form.IsDefault := by
  cases hj with
  | @object kept members hkept hperm =>
    have hnames := hperm.map Prod.fst
    have hread := readMembers_of_forms hfields hnodup
      (fun m hm => hkept.isForm m (hperm.mem_iff.mp hm))
      (hnames.nodup_iff.mpr (hnodup.sublist hkept.names_sublist)) [] (by simp)
    refine ⟨_, (decodeRecord_object title (state []) fields members).trans hread, ?_⟩
    intro form hform
    refine (hkept.mem_or_isDefault form hform).imp_left fun hmem => ?_
    simpa using hnames.mem_iff.mpr hmem
  | @array items hitems =>
    obtain ⟨read, hread, hall⟩ := readItems_of_items hfields hitems
      (title ++ " with " ++ Nat.repr fields.length ++ " elements") 0 []
    rw [List.append_nil] at hread
    exact ⟨read, hread, hall⟩

end Record

end Codegen.Json
