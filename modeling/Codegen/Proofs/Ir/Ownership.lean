import Codegen.Proofs.Ir.Session

namespace Codegen.Ir

private theorem exists_split_of_getElem? {α : Type} {l : List α} {i : Nat} {a : α}
    (h : l[i]? = some a) :
    ∃ front back, l = front ++ a :: back ∧ l.eraseIdx i = front ++ back ∧
      ∀ b, l.set i b = front ++ b :: back := by
  induction l generalizing i with
  | nil => simp at h
  | cons x l ih =>
    cases i with
    | zero =>
      obtain rfl : x = a := by simpa using h
      exact ⟨[], l, rfl, rfl, fun _ => rfl⟩
    | succ i =>
      obtain ⟨front, back, hl, herase, hset⟩ := ih (by simpa using h)
      refine ⟨x :: front, back, by simp [hl], by simp [herase], ?_⟩
      intro b
      simp [hset b]

/-- Replacing an entry of a list adds to its keys what the new entry has more than the old one. -/
theorem flatMap_set_perm {α : Type} {keys : α → List Key} {l : List α} {i : Nat} {a b : α}
    {added : List Key} (hget : l[i]? = some a) (hkeys : (keys b).Perm (added ++ keys a)) :
    ((l.set i b).flatMap keys).Perm (added ++ l.flatMap keys) := by
  obtain ⟨front, back, hl, _, hset⟩ := exists_split_of_getElem? hget
  rw [hset b, hl, List.flatMap_append, List.flatMap_append, List.flatMap_cons, List.flatMap_cons]
  have hentry := (hkeys.append_right (back.flatMap keys)).append_left (front.flatMap keys)
  rw [List.append_assoc added] at hentry
  exact hentry.trans (List.perm_append_comm_assoc _ _ _)

theorem flatMap_eraseIdx_perm {α : Type} (keys : α → List Key) {l : List α} {i : Nat} {a : α}
    (hget : l[i]? = some a) : (keys a ++ (l.eraseIdx i).flatMap keys).Perm (l.flatMap keys) := by
  obtain ⟨front, back, hl, herase, _⟩ := exists_split_of_getElem? hget
  rw [herase, hl, List.flatMap_append, List.flatMap_append, List.flatMap_cons]
  exact List.perm_append_comm_assoc _ _ _

namespace Session

variable {s s' : Session}

/-- The identities of all blocks and functions. -/
def keys (s : Session) : List Key :=
  s.blocks.flatMap Block.keys ++ s.allFunctions.flatMap Function.keys

/-- Every identity was handed out, and to one owner only. -/
structure Owned (s : Session) : Prop where
  bounded : s.naming.Bounded
  allocated : ∀ key ∈ s.keys, key.index < s.naming.next
  nodup : s.keys.Nodup

theorem owned_start (name : String) : (start name).Owned := by
  refine ⟨?_, ?_, List.nodup_nil⟩
  · intro key hkey
    cases hkey
  · intro key hkey
    cases hkey

theorem Owned.keys_nodup (hs : s.Owned) {f : Function} (hf : f ∈ s.allFunctions) :
    f.keys.Nodup := by
  have hfunctions : (s.allFunctions.flatMap Function.keys).Nodup := hs.nodup.of_append_right
  exact (List.nodup_flatMap.mp hfunctions).1 f hf

theorem Owned.allocated_function (hs : s.Owned) {f : Function} (hf : f ∈ s.allFunctions) :
    ∀ key ∈ f.keys, key.index < s.naming.next := by
  intro key hkey
  apply hs.allocated
  exact List.mem_append_right _ (List.mem_flatMap.mpr ⟨f, hf, hkey⟩)

theorem Owned.not_mem_keys_of_mem_block (hs : s.Owned) {b : Block} (hb : b ∈ s.blocks) {key : Key}
    (hkey : key ∈ b.keys) {f : Function} (hf : f ∈ s.allFunctions) : key ∉ f.keys := by
  intro hmem
  have hdisjoint := (List.nodup_append.mp hs.nodup).2.2
  exact hdisjoint key (List.mem_flatMap.mpr ⟨b, hb, hkey⟩) key
    (List.mem_flatMap.mpr ⟨f, hf, hmem⟩) rfl

theorem Owned.not_mem_keys_of_ne (hs : s.Owned) {i j : Nat} (hij : i ≠ j) {f g : Function}
    (hf : s.allFunctions[i]? = some f) (hg : s.allFunctions[j]? = some g) {key : Key}
    (hkey : key ∈ f.keys) : key ∉ g.keys := by
  have hfunctions : (s.allFunctions.flatMap Function.keys).Nodup := hs.nodup.of_append_right
  obtain ⟨hi, rfl⟩ := List.getElem?_eq_some_iff.mp hf
  obtain ⟨hj, rfl⟩ := List.getElem?_eq_some_iff.mp hg
  have hpairwise := List.pairwise_iff_getElem.mp (List.nodup_flatMap.mp hfunctions).2
  rcases Nat.lt_or_gt_of_ne hij with hlt | hgt
  · exact fun hmem => hpairwise i j hi hj hlt hkey hmem
  · exact fun hmem => hpairwise j i hj hi hgt hmem hkey

/-- The later session owns what the earlier one does, and besides only identities that were handed
out in between. -/
structure Grows (s s' : Session) : Prop where
  next_le : s.naming.next ≤ s'.naming.next
  bounded : s.naming.Bounded → s'.naming.Bounded
  keys_perm : ∃ added : List Key, s'.keys.Perm (added ++ s.keys) ∧ added.Nodup ∧
    ∀ key ∈ added, s.naming.next ≤ key.index ∧ key.index < s'.naming.next

theorem Owned.of_grows (hs : s.Owned) (h : s.Grows s') : s'.Owned := by
  obtain ⟨added, hperm, hadded, hfresh⟩ := h.keys_perm
  refine ⟨h.bounded hs.bounded, ?_, ?_⟩
  · intro key hkey
    rcases List.mem_append.mp (hperm.mem_iff.mp hkey) with hnew | hold
    · exact (hfresh key hnew).2
    · exact Nat.lt_of_lt_of_le (hs.allocated key hold) h.next_le
  · rw [hperm.nodup_iff, List.nodup_append]
    refine ⟨hadded, hs.nodup, ?_⟩
    rintro key hnew _ hold rfl
    have hle := (hfresh key hnew).1
    have hlt := hs.allocated key hold
    omega

theorem Grows.of_perm (hnaming : s'.naming = s.naming) (hperm : s'.keys.Perm s.keys) :
    s.Grows s' := by
  refine ⟨Nat.le_of_eq (by rw [hnaming]), ?_, [], hperm, List.nodup_nil, by simp⟩
  rw [hnaming]
  exact id

/-- A new identity for one new owner. -/
theorem Grows.of_fresh (spelling : Option Spelling)
    (hnaming : s'.naming = (s.naming.fresh spelling).2)
    (hperm : s'.keys.Perm (⟨s.naming.next⟩ :: s.keys)) : s.Grows s' := by
  have hnext : s'.naming.next = s.naming.next + 1 := by rw [hnaming, Naming.next_fresh]
  refine ⟨by omega, ?_, [⟨s.naming.next⟩], hperm, List.nodup_singleton _, ?_⟩
  · intro hbounded
    rw [hnaming]
    exact hbounded.fresh spelling
  · intro key hkey
    rw [List.mem_singleton.mp hkey, hnext]
    exact ⟨Nat.le_refl _, Nat.lt_succ_self _⟩

/-- A new identity that no block or function owns. -/
theorem Grows.of_loose (spelling : Option Spelling)
    (hnaming : s'.naming = (s.naming.fresh spelling).2) (hkeys : s'.keys = s.keys) :
    s.Grows s' := by
  refine ⟨?_, ?_, [], by rw [hkeys]; rfl, List.nodup_nil, by simp⟩
  · rw [hnaming, Naming.next_fresh]
    exact Nat.le_succ _
  · intro hbounded
    rw [hnaming]
    exact hbounded.fresh spelling

theorem Grows.of_touches {keys : List Key} (htouches : s.naming.Touches keys s'.naming)
    (hallocated : ∀ key ∈ keys, key.index < s.naming.next) (hkeys : s'.keys = s.keys) :
    s.Grows s' := by
  refine ⟨Nat.le_of_eq htouches.next_eq.symm, ?_, [], by rw [hkeys]; rfl, List.nodup_nil, by simp⟩
  intro hbounded
  exact htouches.bounded hbounded hallocated

theorem keys_append_perm (b : Block) (d : Draft) (n : Naming) :
    (b.append d n).2.1.keys.Perm (⟨n.next⟩ :: b.keys) := by
  have hkeys : (b.append d n).2.1.keys = b.keys ++ [⟨n.next⟩] := by
    simp [Block.append, Draft.place, Naming.fresh, Block.keys]
  rw [hkeys]
  exact List.perm_append_singleton _ _

theorem keys_addParam_perm (f : Function) (name : String) (type : Ty) (n : Naming) :
    (f.addParam name type n).2.1.keys.Perm (⟨n.next⟩ :: f.keys) := by
  have hkeys : (f.addParam name type n).2.1.keys =
      f.params.map Param.key ++ ⟨n.next⟩ :: f.blocks.flatMap Block.keys := by
    simp [Function.addParam, Naming.fresh, Function.keys]
  rw [hkeys]
  exact List.perm_middle

theorem keys_addBlock (f : Function) (b : Block) : (f.addBlock b).keys = f.keys ++ b.keys := by
  simp [Function.addBlock, Function.keys]

theorem keys_set_block_perm {i : Nat} {b b' : Block} {n : Naming} (added : List Key)
    (hb : s.blocks[i]? = some b) (hkeys : b'.keys.Perm (added ++ b.keys)) :
    ({ s with naming := n, blocks := s.blocks.set i b' } : Session).keys.Perm (added ++ s.keys) := by
  rw [keys, keys, ← List.append_assoc]
  exact (flatMap_set_perm hb hkeys).append_right _

theorem keys_set_function_perm {i : Nat} {f f' : Function} {n : Naming} (added : List Key)
    (hf : s.functions[i]? = some f) (hkeys : f'.keys.Perm (added ++ f.keys)) :
    ({ s with naming := n, functions := s.functions.set i f' } : Session).keys.Perm
      (added ++ s.keys) := by
  simp only [keys, allFunctions, List.flatMap_append]
  have hfunctions :=
    (flatMap_set_perm hf hkeys).append_right (s.module.functions.flatMap Function.keys)
  rw [List.append_assoc] at hfunctions
  exact (hfunctions.append_left _).trans (List.perm_append_comm_assoc _ _ _)

/-- Placing a draft in a block adds one identity. -/
theorem grows_append {i : Nat} {b : Block} (hb : s.blocks[i]? = some b) (d : Draft) :
    s.Grows { s with
      naming := (b.append d s.naming).2.2
      blocks := s.blocks.set i (b.append d s.naming).2.1 } := by
  refine Grows.of_fresh d.spelling rfl ?_
  exact keys_set_block_perm [⟨s.naming.next⟩] hb (keys_append_perm b d s.naming)

theorem grows_setTerminator {i : Nat} {b : Block} (hb : s.blocks[i]? = some b) (t : Terminator) :
    s.Grows { s with blocks := s.blocks.set i (b.setTerminator t) } :=
  Grows.of_perm rfl (keys_set_block_perm [] hb (.refl _))

theorem grows_addBlock {i j : Nat} {f : Function} {b : Block} (hf : s.functions[i]? = some f)
    (hb : s.blocks[j]? = some b) :
    s.Grows { s with
      blocks := s.blocks.eraseIdx j
      functions := s.functions.set i (f.addBlock b) } := by
  refine Grows.of_perm rfl ?_
  have hkeys : (f.addBlock b).keys.Perm (b.keys ++ f.keys) := by
    rw [keys_addBlock]
    exact List.perm_append_comm
  have hfunctions := (flatMap_set_perm hf hkeys).append_right
    (s.module.functions.flatMap Function.keys)
  rw [List.append_assoc] at hfunctions
  have hblocks := (flatMap_eraseIdx_perm Block.keys hb).append_right
    (s.functions.flatMap Function.keys ++ s.module.functions.flatMap Function.keys)
  rw [List.append_assoc] at hblocks
  simp only [keys, allFunctions, List.flatMap_append]
  exact ((hfunctions.append_left _).trans (List.perm_append_comm_assoc _ _ _)).trans hblocks

theorem grows_addFunction {i : Nat} {f : Function} (hf : s.functions[i]? = some f) :
    s.Grows { s with
      functions := s.functions.eraseIdx i
      module := s.module.addFunction f } := by
  refine Grows.of_perm rfl ?_
  have hfunctions := (flatMap_eraseIdx_perm Function.keys hf).append_right
    (s.module.functions.flatMap Function.keys)
  rw [List.append_assoc] at hfunctions
  simp only [keys, allFunctions, Module.addFunction, List.flatMap_append, List.flatMap_singleton]
  refine List.Perm.append_left _ (List.Perm.trans ?_ hfunctions)
  rw [← List.append_assoc]
  exact List.perm_append_comm

/-- Printing numbers functions one after the other, so it touches only their identities, also when
it stops at a function that it refuses. -/
theorem touches_emitAfter {n : Naming} {functions : List Function} (out : String)
    (hkeys : (functions.flatMap Function.keys).Nodup) :
    n.Touches (functions.flatMap Function.keys) (Module.emitAfter n out functions).2 := by
  induction functions generalizing n out with
  | nil => exact Naming.Touches.refl n _
  | cons f rest ih =>
    rw [List.flatMap_cons] at hkeys ⊢
    unfold Module.emitAfter
    split
    · exact Naming.Touches.refl n _
    · next n' hpass =>
      obtain ⟨_, hnumbers⟩ := Function.assignNumbers_eq_ok hkeys.of_append_left hpass
      exact hnumbers.touches.append (ih _ hkeys.of_append_right)

theorem grows_updateBlock {i : Nat} {change : Block → Option (Block × Naming)}
    (hchange : ∀ b b' n, s.blocks[i]? = some b → change b = some (b', n) →
      s.Grows { s with naming := n, blocks := s.blocks.set i b' }) :
    s.Grows (s.updateBlock i change) := by
  obtain hsame | ⟨b, b', n, hb, hb', hupdate⟩ := updateBlock_cases s i change
  · rw [hsame]
    exact Grows.of_perm rfl (.refl _)
  · rw [hupdate]
    exact hchange b b' n hb hb'

theorem grows_respell {key : Key} {result : Except IrError Naming}
    (hresult : s.naming.Touches [key] (result.toOption.getD s.naming)) :
    s.Grows (s.respell key result) := by
  obtain hsame | ⟨hkey, hrespell⟩ := respell_cases s key result
  · rw [hsame]
    exact Grows.of_perm rfl (.refl _)
  · rw [hrespell]
    refine Grows.of_touches hresult ?_ rfl
    intro key' hkey'
    rwa [List.mem_singleton.mp hkey']

theorem Owned.module_keys_nodup (hs : s.Owned) :
    (s.module.functions.flatMap Function.keys).Nodup := by
  have hfunctions := hs.nodup.of_append_right
  rw [allFunctions, List.flatMap_append] at hfunctions
  exact hfunctions.of_append_right

theorem touches_emit (hs : s.Owned) (withHeader : Bool) :
    s.naming.Touches (s.allFunctions.flatMap Function.keys)
      (s.module.emit withHeader s.naming).2 := by
  rw [allFunctions, List.flatMap_append]
  exact (Naming.Touches.refl _ _).append (touches_emitAfter _ hs.module_keys_nodup)

/-- What every call does to the identities at hand. -/
theorem Owned.grows_exec (hs : s.Owned) (call : Call) : s.Grows (s.exec call) := by
  have hallocated : ∀ key ∈ s.allFunctions.flatMap Function.keys, key.index < s.naming.next :=
    fun key hkey => hs.allocated key (List.mem_append_right _ hkey)
  cases call with
  | constant c => exact Grows.of_loose none rfl rfl
  | loose d => exact Grows.of_loose d.spelling rfl rfl
  | block name =>
    cases name with
    | none =>
      refine Grows.of_fresh none rfl ?_
      simp [exec, Block.unnamed, Naming.fresh, keys, allFunctions, Block.keys]
    | some name =>
      refine Grows.of_fresh (Spelling.ofName? name) rfl ?_
      simp [exec, Block.named, Naming.fresh, keys, allFunctions, Block.keys]
  | append i d =>
    apply grows_updateBlock
    intro b b' n hb hb'
    cases hb'
    exact grows_append hb d
  | build i operation =>
    apply grows_updateBlock
    intro b b' n hb hb'
    cases hdraft : Draft.checked operation with
    | error e =>
      rw [hdraft] at hb'
      cases hb'
    | ok d =>
      rw [hdraft] at hb'
      cases hb'
      exact grows_append hb d
  | terminate i t =>
    apply grows_updateBlock
    intro b b' n hb hb'
    cases hb'
    exact grows_setTerminator hb t
  | function name returnType =>
    refine Grows.of_perm rfl ?_
    simp [exec, keys, allFunctions, Function.keys]
  | param i name type =>
    simp only [exec]
    split
    · next f hf =>
      refine Grows.of_fresh (Spelling.ofName? name) rfl ?_
      exact keys_set_function_perm [⟨s.naming.next⟩] hf (keys_addParam_perm f name type s.naming)
    · exact Grows.of_perm rfl (.refl _)
  | addBlock i j =>
    simp only [exec]
    split
    · next f b hf hb => exact grows_addBlock hf hb
    · exact Grows.of_perm rfl (.refl _)
  | addFunction i =>
    simp only [exec]
    split
    · next f hf => exact grows_addFunction hf
    · exact Grows.of_perm rfl (.refl _)
  | setName key name => exact grows_respell (Naming.touches_setName s.naming key name)
  | setNumber key number =>
    exact grows_respell (Naming.touches_assign s.naming key (.number number))
  | assignNumbers i =>
    simp only [exec]
    split
    · next f hf =>
      have hmem : f ∈ s.allFunctions := List.mem_of_getElem? hf
      exact Grows.of_touches (Function.touches_assignNumbers s.naming (hs.keys_nodup hmem))
        (hs.allocated_function hmem) rfl
    · exact Grows.of_perm rfl (.refl _)
  | emit withHeader => exact Grows.of_touches (touches_emit hs withHeader) hallocated rfl
  | compile wasm options =>
    refine Grows.of_touches ?_ hallocated rfl
    simp only [exec, Program.compile]
    split
    · exact touches_emit hs options.header
    · exact Naming.Touches.refl _ _
    · exact Naming.Touches.refl _ _

theorem Owned.run (hs : s.Owned) (calls : List Call) : (s.run calls).Owned := by
  induction calls generalizing s with
  | nil => exact hs
  | cons call calls ih => exact ih (hs.of_grows (hs.grows_exec call))

end Session

end Codegen.Ir
