import Codegen.Proofs.Basic
import Codegen.Proofs.Ir.Layout

namespace Codegen.Ir

open Codegen.Text

/-- The same operation on other operands. -/
def Operation.map {α β : Type} (g : α → β) : Operation α → Operation β
  | .extractValue x path => .extractValue (g x) path
  | .insertValue x elem path => .insertValue (g x) (g elem) path
  | .extractElement x index => .extractElement (g x) (g index)
  | .insertElement x elem index => .insertElement (g x) (g elem) (g index)
  | .shuffleVector x y mask => .shuffleVector (g x) (g y) (g mask)

/-- What the line of an instruction shows: the operation with the text of each operand in its place,
between the result and the metadata. -/
structure Instruction.Listing where
  result : Option Spelling
  operation : Operation String
  metadata : List Metadata

/-- What the last line of a block shows. -/
inductive Terminator.Listing where
  | ret (value : Option String)
  | unreachable

/-- What the lines of a block show. -/
structure Block.Listing where
  label : Option Spelling
  instructions : List Instruction.Listing
  terminator : Option Terminator.Listing

/-- What the text of a function shows. -/
structure Function.Listing where
  name : String
  returnType : Ty
  params : List (Ty × Option Spelling)
  blocks : List Block.Listing

def Instruction.listing (n : Naming) (i : Instruction) : Instruction.Listing where
  result := n.spelling? i.key
  operation := i.operation.map (Value.text n)
  metadata := i.metadata

def Terminator.listing (n : Naming) : Terminator → Terminator.Listing
  | .ret value => .ret (value.map (Value.text n))
  | .unreachable => .unreachable

def Block.listing (n : Naming) (b : Block) : Block.Listing where
  label := n.spelling? b.key
  instructions := b.instructions.map (Instruction.listing n)
  terminator := b.terminator.map (Terminator.listing n)

def Function.listing (n : Naming) (f : Function) : Function.Listing where
  name := f.name
  returnType := f.returnType
  params := f.params.map fun p => (p.type, n.spelling? p.key)
  blocks := f.blocks.map (Block.listing n)

/-- An operation is known by its opcode, its operands and its indices. -/
theorem Operation.map_eq_map_iff {α β γ : Type} {g : α → γ} {h : β → γ} {o : Operation α}
    {o' : Operation β} :
    o.map g = o'.map h ↔ o.opcode = o'.opcode ∧ o.operands.map g = o'.operands.map h ∧
      o.indices = o'.indices := by
  cases o <;> cases o' <;> simp [map, opcode, operands, indices, and_assoc]

/-- Where one part of a list ends and the other begins is told by a test on the elements. -/
theorem append_eq_append_iff_of {α : Type} (test : α → Bool) {as bs r s : List α}
    (has : ∀ a ∈ as, test a = true) (hbs : ∀ b ∈ bs, test b = true) (hr : ∀ a ∈ r, test a = false)
    (hs : ∀ b ∈ s, test b = false) : as ++ r = bs ++ s ↔ as = bs ∧ r = s := by
  constructor
  · intro happend
    have hfilter := congrArg (List.filter test) happend
    have hnone {xs : List α} (hxs : ∀ x ∈ xs, test x = false) : xs.filter test = [] := by
      simpa [List.filter_eq_nil_iff] using hxs
    rw [List.filter_append, List.filter_append, List.filter_eq_self.mpr has,
      List.filter_eq_self.mpr hbs, hnone hr, hnone hs, List.append_nil, List.append_nil] at hfilter
    rw [hfilter] at happend
    exact ⟨hfilter, List.append_cancel_left happend⟩
  · rintro ⟨rfl, rfl⟩
    rfl

/-- Whether a text starts with a character of a class. -/
def startsWith (isMember : Char → Bool) (text : String) : Bool :=
  text.toList.head?.any isMember

/-- Characters that types start with. -/
def isTypeHead (c : Char) : Bool :=
  ['v', 'i', 'f', 'd', '[', '<', '\x7b'].contains c

theorem Value.startsWith_text (n : Naming) (v : Value) :
    startsWith isTypeHead (v.text n) = true := by
  obtain ⟨c, hc, cs, htype⟩ := v.type.exists_head_of_text
  simp [startsWith, text, htype, isTypeHead, hc]

theorem startsWith_repr {isMember : Char → Bool} {answer : Bool}
    (hdigits : ∀ d : Char, d.isDigit = true → isMember d = answer) (value : Nat) :
    startsWith isMember (Nat.repr value) = answer := by
  obtain ⟨d, digits, hrepr, hall⟩ := exists_digits_of_repr value
  have hd := hdigits d (hall d List.mem_cons_self)
  simp [startsWith, hrepr, hd, -Nat.toList_repr]

theorem isTypeHead_of_isDigit (d : Char) (hd : d.isDigit = true) : isTypeHead d = false := by
  have hnone : ['v', 'i', 'f', 'd', '[', '<', '\x7b'].all (!·.isDigit) = true := by decide
  by_contra hhead
  rw [isTypeHead, Bool.not_eq_false, List.contains_iff_mem] at hhead
  have hnot := List.all_eq_true.mp hnone d hhead
  rw [hd] at hnot
  cases hnot

theorem Metadata.startsWith_text (isMember : Char → Bool) (m : Metadata) :
    startsWith isMember m.text = isMember '!' := by
  simp [startsWith, text]

theorem forall_mem_map_startsWith {α : Type} {isMember : Char → Bool} {answer : Bool}
    {text : α → String} (htext : ∀ a, startsWith isMember (text a) = answer) (as : List α) :
    ∀ s ∈ as.map text, startsWith isMember s = answer := by
  simpa using fun a _ => htext a

namespace Instruction

/-- What stands behind the opcode. -/
def items (n : Naming) (i : Instruction) : List String :=
  i.operation.operands.map (Value.text n) ++
    (i.operation.indices.map (fun index => Nat.repr index.toNat) ++ i.metadata.map Metadata.text)

theorem line_eq (n : Naming) (i : Instruction) :
    i.line n = "%" ++ n.label i.key ++ " = " ++ i.operation.opcode ++ " " ++
      ", ".intercalate (i.items n) := by
  rw [line, items, List.append_assoc]
  rfl

variable {n n' : Naming} {i j : Instruction}

theorem level_of_mem_items (hi : i.AllMetadata Metadata.IsPlain) {text : String}
    (htext : text ∈ i.items n) : text ≠ "" ∧ Level isItemChar text.toList := by
  rw [items, List.mem_append, List.mem_append, List.mem_map, List.mem_map, List.mem_map] at htext
  rcases htext with ⟨v, -, rfl⟩ | ⟨index, -, rfl⟩ | ⟨m, hm, rfl⟩
  · exact v.isItem_text n
  · refine ⟨?_, (level_repr index.toNat).mono isItemChar_of_isWordChar⟩
    obtain ⟨d, digits, hrepr, -⟩ := exists_digits_of_repr index.toNat
    intro hempty
    rw [hempty] at hrepr
    cases hrepr
  · exact ⟨by simp [Metadata.text, String.append_eq_empty_iff], Metadata.level_text (hi m hm)⟩

/-- The first character of an item tells operands, indices and metadata apart. -/
theorem items_eq_iff (hi : i.AllMetadata Metadata.IsPlain) (hj : j.AllMetadata Metadata.IsPlain) :
    i.items n = j.items n' ↔
      i.operation.operands.map (Value.text n) = j.operation.operands.map (Value.text n') ∧
        i.operation.indices = j.operation.indices ∧ i.metadata = j.metadata := by
  have hindex (isMember : Char → Bool) (answer : Bool)
      (hdigits : ∀ d : Char, d.isDigit = true → isMember d = answer) (index : UInt64) :
      startsWith isMember (Nat.repr index.toNat) = answer :=
    startsWith_repr hdigits index.toNat
  have hrest (k : Instruction) : ∀ s ∈ k.operation.indices.map (fun x => Nat.repr x.toNat) ++
      k.metadata.map Metadata.text, startsWith isTypeHead s = false := by
    rw [List.forall_mem_append]
    exact ⟨forall_mem_map_startsWith (hindex isTypeHead false isTypeHead_of_isDigit) _,
      forall_mem_map_startsWith (Metadata.startsWith_text isTypeHead) _⟩
  rw [items, items, append_eq_append_iff_of (startsWith isTypeHead)
      (forall_mem_map_startsWith (Value.startsWith_text n) _)
      (forall_mem_map_startsWith (Value.startsWith_text n') _) (hrest i) (hrest j),
    append_eq_append_iff_of (startsWith Char.isDigit)
      (forall_mem_map_startsWith (hindex Char.isDigit true fun _ hd => hd) _)
      (forall_mem_map_startsWith (hindex Char.isDigit true fun _ hd => hd) _)
      (forall_mem_map_startsWith (Metadata.startsWith_text Char.isDigit) _)
      (forall_mem_map_startsWith (Metadata.startsWith_text Char.isDigit) _)]
  have hindices : Function.Injective fun index : UInt64 => Nat.repr index.toNat :=
    fun a b hrepr => UInt64.toNat_inj.mp (repr_injective hrepr)
  have hmetadata : i.metadata.map Metadata.text = j.metadata.map Metadata.text ↔
      i.metadata = j.metadata := by
    rw [map_eq_map_iff_forall₂ fun a ha b hb =>
      ⟨Metadata.eq_of_text_eq (hi a ha) (hj b hb), congrArg _⟩, List.forall₂_eq_eq_eq]
  rw [(List.map_injective_iff.mpr hindices).eq_iff, hmetadata]

/-- A line shows its parts: the result, the opcode and the items. -/
theorem line_eq_iff (hi : i.AllMetadata Metadata.IsPlain) (hj : j.AllMetadata Metadata.IsPlain) :
    i.line n = j.line n' ↔ i.listing n = j.listing n' := by
  have hlisting : i.listing n = j.listing n' ↔ n.label i.key = n'.label j.key ∧
      i.operation.opcode = j.operation.opcode ∧ i.items n = j.items n' := by
    rw [listing, listing, Listing.mk.injEq, Operation.map_eq_map_iff, ← Naming.label_eq_iff,
      items_eq_iff hi hj, and_assoc, and_assoc]
  rw [hlisting, line_eq, line_eq]
  constructor
  · intro hline
    have hlist := congrArg String.toList hline
    simp only [String.toList_append, List.append_assoc] at hlist
    obtain ⟨hlabel, hrest⟩ := (n.level_label i.key).append_inj (n'.level_label j.key)
      (by simp [isWordChar]) (by simp [isWordChar]) (List.append_cancel_left hlist)
    obtain ⟨hopcode, hitems⟩ := i.operation.level_opcode.append_inj j.operation.level_opcode
      (by simp [isWordChar]) (by simp [isWordChar]) (List.append_cancel_left hrest)
    have hsequence : (", ".intercalate (i.items n)).toList ++ [] =
        (", ".intercalate (j.items n')).toList ++ [] := by
      rw [List.append_cancel_left hitems]
    obtain ⟨hitems, -⟩ := toList_intercalate_append_inj rfl (fun _ => level_of_mem_items hi)
      (fun _ => level_of_mem_items hj) endsSequence_nil endsSequence_nil hsequence
    exact ⟨String.toList_injective hlabel, String.toList_injective hopcode, hitems⟩
  · rintro ⟨hlabel, hopcode, hitems⟩
    rw [hlabel, hopcode, hitems]

theorem startsWith_line (n : Naming) (i : Instruction) :
    startsWith (· == '%') (i.line n) = true := by
  simp [startsWith, line_eq]

end Instruction

theorem Terminator.startsWith_text (n : Naming) (t : Terminator) :
    startsWith (· == '%') (t.text n) = false := by
  cases t with
  | ret value => cases value <;> simp [startsWith, text]
  | unreachable => simp [startsWith, text]

theorem Terminator.text_eq_iff {n n' : Naming} {t u : Terminator} :
    t.text n = u.text n' ↔ t.listing n = u.listing n' := by
  have hvoid (n : Naming) (v : Value) : "ret void" ≠ "ret " ++ v.text n := by
    intro hline
    have hblanks := congrArg (fun line => line.toList.count ' ') hline
    simp [Value.text] at hblanks
  cases t with
  | ret x =>
    cases u with
    | ret y => cases x <;> cases y <;> simp [text, listing, hvoid, (hvoid _ _).symm]
    | unreachable => cases x <;> simp [text, listing, String.ext_iff]
  | unreachable =>
    cases u with
    | ret y => cases y <;> simp [text, listing, String.ext_iff]
    | unreachable => simp [text, listing]

namespace Block

variable {n n' : Naming} {b c : Block}

/-- A percent sign tells the instructions of a block from its terminator. -/
theorem body_eq_iff (hb : b.AllMetadata Metadata.IsPlain) (hc : c.AllMetadata Metadata.IsPlain) :
    b.body n = c.body n' ↔
      b.instructions.map (Instruction.listing n) = c.instructions.map (Instruction.listing n') ∧
        b.terminator.map (Terminator.listing n) = c.terminator.map (Terminator.listing n') := by
  have hterminator (n : Naming) (b : Block) :
      ∀ s ∈ (b.terminator.map (Terminator.text n)).toList, startsWith (· == '%') s = false := by
    simpa using fun t _ => Terminator.startsWith_text n t
  have hlines : b.instructions.map (Instruction.line n) = c.instructions.map (Instruction.line n') ↔
      b.instructions.map (Instruction.listing n) = c.instructions.map (Instruction.listing n') := by
    rw [map_eq_map_iff_forall₂ fun i hi j hj => Instruction.line_eq_iff (hb i hi) (hc j hj),
      map_eq_map_iff_forall₂ fun _ _ _ _ => Iff.rfl]
  rw [body, body, append_eq_append_iff_of (startsWith (· == '%'))
    (forall_mem_map_startsWith (Instruction.startsWith_line n) _)
    (forall_mem_map_startsWith (Instruction.startsWith_line n') _) (hterminator n b)
    (hterminator n' c), hlines, and_congr_right_iff]
  intro _
  cases b.terminator <;> cases c.terminator <;> simp [Terminator.text_eq_iff]

theorem lines_eq_iff (hb : b.AllMetadata Metadata.IsPlain) (hc : c.AllMetadata Metadata.IsPlain) :
    b.lines n = c.lines n' ↔ b.listing n = c.listing n' := by
  have hmargin : Function.Injective fun line : String => "  " ++ line :=
    fun _ _ hline => (String.append_right_inj "  ").mp hline
  rw [lines, lines, List.cons.injEq, String.append_left_inj, Naming.label_eq_iff,
    (List.map_injective_iff.mpr hmargin).eq_iff, body_eq_iff hb hc, listing, listing,
    Listing.mk.injEq]

theorem lines_ne_nil_and_no_blank (n : Naming) (b : Block) : b.lines n ≠ [] ∧ "" ∉ b.lines n := by
  refine ⟨List.cons_ne_nil _ _, ?_⟩
  simp [lines, String.append_eq_empty_iff]

end Block

theorem Param.text_eq_iff {n n' : Naming} {p q : Param} :
    p.value.text n = q.value.text n' ↔
      (p.type, n.spelling? p.key) = (q.type, n'.spelling? q.key) := by
  rw [Value.text_eq_iff, Prod.mk.injEq, ← Naming.ident_eq_iff]
  rfl

theorem intercalate_inj {α : Type} [DecidableEq α] {sep : α} {xs ys : List (List α)}
    (hxs : ∀ x ∈ xs, x ≠ [] ∧ sep ∉ x) (hys : ∀ y ∈ ys, y ≠ [] ∧ sep ∉ y) :
    [sep].intercalate xs = [sep].intercalate ys ↔ xs = ys := by
  have hne {zs : List (List α)} (hzs : ∀ z ∈ zs, z ≠ [] ∧ sep ∉ z)
      (hnil : [sep].intercalate zs = []) : zs = [] := by
    by_contra hzs'
    have hsplit := List.splitOn_intercalate sep (fun z hz => (hzs z hz).2) hzs'
    rw [hnil, List.splitOn_nil] at hsplit
    exact (hzs [] (by simp [← hsplit])).1 rfl
  refine ⟨fun h => ?_, congrArg _⟩
  by_cases hx : xs = []
  · rw [hx] at h ⊢
    exact (hne hys h.symm).symm
  · by_cases hy : ys = []
    · rw [hy] at h
      exact absurd (hne hxs h) hx
    · rw [← List.splitOn_intercalate sep (fun x hx => (hxs x hx).2) hx, h,
        List.splitOn_intercalate sep (fun y hy => (hys y hy).2) hy]

namespace Function

variable {n n' : Naming} {f g : Function}

theorem signature_eq_iff :
    f.signature n = g.signature n' ↔ f.name = g.name ∧ f.returnType = g.returnType ∧
      f.params.map (fun p => (p.type, n.spelling? p.key)) =
        g.params.map fun p => (p.type, n'.spelling? p.key) := by
  have hparams : (f.params.map fun p => p.value.text n) = (g.params.map fun p => p.value.text n') ↔
      f.params.map (fun p => (p.type, n.spelling? p.key)) =
        g.params.map fun p => (p.type, n'.spelling? p.key) := by
    rw [map_eq_map_iff_forall₂ fun _ _ _ _ => Param.text_eq_iff,
      map_eq_map_iff_forall₂ fun _ _ _ _ => Iff.rfl]
  rw [← hparams]
  constructor
  · intro hsignature
    have hlist := congrArg String.toList hsignature
    simp only [signature, String.toList_append, List.append_assoc] at hlist
    obtain ⟨htype, hrest⟩ := f.returnType.level_text.append_inj g.returnType.level_text
      (by simp [isWordChar]) (by simp [isWordChar]) (List.append_cancel_left hlist)
    obtain ⟨hname, hrest⟩ := (level_quoteName f.name).append_inj (level_quoteName g.name)
      (by simp [isWordChar]) (by simp [isWordChar]) (List.append_cancel_left hrest)
    obtain ⟨htexts, -⟩ := toList_intercalate_append_inj (show isItemChar ',' = false from rfl)
      (by simpa using fun p _ => p.value.isItem_text n)
      (by simpa using fun p _ => p.value.isItem_text n')
      (by simp [EndsSequence, isItemChar]) (by simp [EndsSequence, isItemChar])
      (List.append_cancel_left hrest)
    exact ⟨quoteName_injective (String.toList_injective hname),
      Ty.text_injective (String.toList_injective htype), htexts⟩
  · rintro ⟨hname, htype, htexts⟩
    rw [signature, signature, hname, htype, htexts]

theorem lines_eq_iff (hf : f.AllMetadata Metadata.IsPlain) (hg : g.AllMetadata Metadata.IsPlain) :
    f.lines n = g.lines n' ↔ f.listing n = g.listing n' := by
  have hblocks : f.blocks.map (Block.lines n) = g.blocks.map (Block.lines n') ↔
      f.blocks.map (Block.listing n) = g.blocks.map (Block.listing n') := by
    rw [map_eq_map_iff_forall₂ fun b hb c hc => Block.lines_eq_iff (hf b hb) (hg c hc),
      map_eq_map_iff_forall₂ fun _ _ _ _ => Iff.rfl]
  have hseparated (n : Naming) (f : Function) :
      ∀ lines ∈ f.blocks.map (Block.lines n), lines ≠ [] ∧ "" ∉ lines := by
    simpa using fun b _ => Block.lines_ne_nil_and_no_blank n b
  rw [lines, lines, List.cons.injEq, signature_eq_iff, intercalate_inj (hseparated n f)
    (hseparated n' g), hblocks, listing, listing, Listing.mk.injEq, and_assoc, and_assoc]

theorem allMetadata_isOneLine (hf : f.AllMetadata Metadata.IsPlain) :
    f.AllMetadata Metadata.IsOneLine :=
  fun b hb i hi m hm => (level_of_isPlainChar (hf b hb i hi m hm)).isLine

/-- Two functions have the same text just when they show the same: the name and the return type,
each parameter's type and spelling, each block's label, instructions and terminator. Names, types
and constants may be anything, and identities may be spelled or not. -/
theorem text_eq_iff_listing_eq (hf : f.AllMetadata Metadata.IsPlain)
    (hg : g.AllMetadata Metadata.IsPlain) : f.text n = g.text n' ↔ f.listing n = g.listing n' := by
  rw [text_eq_iff (allMetadata_isOneLine hf) (allMetadata_isOneLine hg), lines_eq_iff hf hg]

/-- One operand, one index or one comma apart: a name that holds a comma and a digit is told from an
index behind a name, also where neither the block nor the result is spelled and one kind of metadata
is empty. -/
theorem text_eq_iff_listing_eq_one_item_apart :
    let f (operation : Operation Value) (type : Ty) : Function := ⟨"f", .void, [],
      [⟨⟨0⟩, [⟨⟨1⟩, operation, type, [⟨"", 7⟩, ⟨"a$._-", 8⟩]⟩], none⟩]⟩
    let lanes : Value := .const ⟨2⟩ (.undef (.vector 2 .i32))
    let nine : Value := .const ⟨3⟩ (.i32 9)
    let zero : Value := .const ⟨4⟩ (.i32 0)
    let pair : Value := .param ⟨5⟩ (.array 2 .i1)
    (f (.insertElement lanes nine zero) (.vector 2 .i32)).text {} ≠
        (f (.insertElement lanes zero zero) (.vector 2 .i32)).text {} ∧
      (f (.insertValue pair zero [0, 1]) (.array 2 .i1)).text {} ≠
        (f (.insertValue pair zero [0, 2]) (.array 2 .i1)).text {} ∧
      (f (.extractValue pair []) (.array 2 .i1)).text ⟨6, [(⟨5⟩, .name "x, 0")]⟩ ≠
        (f (.extractValue pair [0]) .i1).text ⟨6, [(⟨5⟩, .name "x")]⟩ := by
  intro f lanes nine zero pair
  have hplain (operation : Operation Value) (type : Ty) :
      (f operation type).AllMetadata Metadata.IsPlain := by
    simp [f, AllMetadata, Block.AllMetadata, Instruction.AllMetadata, Metadata.IsPlain, isPlainChar]
  have hlisting {operation operation' : Operation Value} {type type' : Ty} {n n' : Naming}
      (hne : operation.map (Value.text n) ≠ operation'.map (Value.text n')) :
      (f operation type).text n ≠ (f operation' type').text n' := by
    rw [Ne, text_eq_iff_listing_eq (hplain _ _) (hplain _ _)]
    simp [f, listing, Block.listing, Instruction.listing, hne]
  refine ⟨hlisting ?_, hlisting ?_, hlisting ?_⟩
  · have hnine : nine.text {} ≠ zero.text {} := by decide
    simp [Operation.map, hnine]
  · simp [Operation.map]
  · simp [Operation.map]

end Function

end Codegen.Ir
