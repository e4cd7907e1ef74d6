import Codegen.Proofs.Ir.Ownership
import Mathlib.Data.List.Pairwise

namespace Codegen.Ir

private theorem eq_of_nodup_filterMap {α β : Type} {f : α → Option β} {l : List α}
    (hl : (l.filterMap f).Nodup) {a a' : α} {b : β} (ha : a ∈ l) (ha' : a' ∈ l) (hb : f a = some b)
    (hb' : f a' = some b) : a = a' := by
  by_contra hne
  have hsymm : Std.Symm fun x y => ∀ c, f x = some c → ∀ c', f y = some c' → c ≠ c' :=
    ⟨fun x y hxy c hc c' hc' heq => hxy c' hc' c hc heq.symm⟩
  exact (List.pairwise_filterMap.mp hl).forall ha ha' hne b hb b hb' rfl

namespace Naming

variable {n n' : Naming} {keys : List Key} {start : Nat}

/-- No two identities among `keys` carry the same number. -/
def NumbersDistinct (n : Naming) (keys : List Key) : Prop :=
  ∀ key ∈ keys, ∀ key' ∈ keys, ∀ value, n.number? key = some value →
    n.number? key' = some value → key = key'

theorem Numbers.isAssigned (h : n.Numbers keys start n') {key : Key} (hkey : key ∈ keys) :
    n'.isAssigned key = true := by
  by_cases hmem : key ∈ n.unassigned keys
  · obtain ⟨i, hi⟩ := List.mem_iff_getElem?.mp hmem
    exact isAssigned_eq_true_iff.mpr ⟨_, h.numbered i key hi⟩
  · have hassigned : n.isAssigned key = true := by
      by_contra hnone
      exact hmem (mem_unassigned.mpr ⟨hkey, isAssigned_eq_false_iff.mp (by simpa using hnone)⟩)
    exact h.touches.isAssigned hassigned

/-- Numbering gives no names and takes none away. -/
theorem Numbers.name?_eq (h : n.Numbers keys start n') (key : Key) :
    n'.name? key = n.name? key := by
  by_cases hmem : key ∈ n.unassigned keys
  · obtain ⟨i, hi⟩ := List.mem_iff_getElem?.mp hmem
    rw [name?, name?, h.numbered i key hi, (mem_unassigned.mp hmem).2]
    rfl
  · rw [name?, name?, h.kept key hmem]

theorem Numbers.nodup_names (h : n.Numbers keys start n')
    (hnames : (keys.filterMap n.name?).Nodup) :
    (keys.filterMap n'.name?).Nodup := by
  rwa [List.filterMap_congr fun key _ => h.name?_eq key]

/-- A number is one that was there before, or the position among the unassigned identities. -/
theorem Numbers.number?_eq_some_iff (h : n.Numbers keys start n') {key : Key} {value : Nat} :
    n'.number? key = some value ↔ n.number? key = some value ∨
      ∃ i, (n.unassigned keys)[i]? = some key ∧ value = start + i := by
  by_cases hmem : key ∈ n.unassigned keys
  · have hbefore : n.number? key ≠ some value := by
      rw [number?, (mem_unassigned.mp hmem).2]
      simp
    constructor
    · intro hvalue
      obtain ⟨i, hi⟩ := List.mem_iff_getElem?.mp hmem
      rw [Naming.number?_eq_some_iff, h.numbered i key hi] at hvalue
      cases hvalue
      exact .inr ⟨i, hi, rfl⟩
    · rintro (hvalue | ⟨i, hi, rfl⟩)
      · exact absurd hvalue hbefore
      · exact Naming.number?_eq_some_iff.mpr (h.numbered i key hi)
  · have hbefore : n'.number? key = n.number? key := by rw [number?, number?, h.kept key hmem]
    rw [hbefore]
    constructor
    · exact .inl
    · rintro (hvalue | ⟨i, hi, _⟩)
      · exact hvalue
      · exact absurd (List.mem_of_getElem? hi) hmem

/-- A pass that starts at zero leaves the numbers distinct exactly when those before it were
distinct and none of them is below the count of identities it numbers. -/
theorem Numbers.numbersDistinct_iff (h : n.Numbers keys 0 n') (hkeys : keys.Nodup) :
    n'.NumbersDistinct keys ↔ n.NumbersDistinct keys ∧
      ∀ key ∈ keys, ∀ value, n.number? key = some value → (n.unassigned keys).length ≤ value := by
  have hunassigned : (n.unassigned keys).Nodup := hkeys.filter _
  constructor
  · intro hdistinct
    refine ⟨?_, ?_⟩
    · intro key hkey key' hkey' value hvalue hvalue'
      exact hdistinct key hkey key' hkey' value (h.number?_eq_some_iff.mpr (.inl hvalue))
        (h.number?_eq_some_iff.mpr (.inl hvalue'))
    · intro key hkey value hvalue
      by_contra hlt
      have hbound : value < (n.unassigned keys).length := by omega
      have hat := List.getElem?_eq_getElem hbound
      have hmem := mem_unassigned.mp (List.getElem_mem hbound)
      have heq := hdistinct key hkey _ hmem.1 value (h.number?_eq_some_iff.mpr (.inl hvalue))
        (h.number?_eq_some_iff.mpr (.inr ⟨value, hat, by omega⟩))
      rw [heq, number?, hmem.2] at hvalue
      cases hvalue
  · rintro ⟨hdistinct, hbound⟩ key hkey key' hkey' value hvalue hvalue'
    rcases h.number?_eq_some_iff.mp hvalue with hold | ⟨i, hi, hvi⟩ <;>
      rcases h.number?_eq_some_iff.mp hvalue' with hold' | ⟨j, hj, hvj⟩
    · exact hdistinct key hkey key' hkey' value hold hold'
    · have hle := hbound key hkey value hold
      have hlt := (List.getElem?_eq_some_iff.mp hj).1
      omega
    · have hle := hbound key' hkey' value hold'
      have hlt := (List.getElem?_eq_some_iff.mp hi).1
      omega
    · obtain rfl : i = j := by omega
      exact Option.some.inj (hi.symm.trans hj)

/-- Where all identities have a spelling and no name stands twice, the spellings are distinct exactly
when the numbers are. -/
theorem nodup_idents_iff (hkeys : keys.Nodup) (hall : ∀ key ∈ keys, n.isAssigned key = true)
    (hnames : (keys.filterMap n.name?).Nodup) :
    (keys.map n.ident).Nodup ↔ n.NumbersDistinct keys := by
  rw [List.nodup_map_iff_inj_on hkeys]
  constructor
  · intro hinj key hkey key' hkey' value hvalue hvalue'
    apply hinj key hkey key' hkey'
    rw [ident_eq_ident_iff (hall key hkey) (hall key' hkey'), number?_eq_some_iff.mp hvalue,
      number?_eq_some_iff.mp hvalue']
  · intro hdistinct key hkey key' hkey' hident
    rw [ident_eq_ident_iff (hall key hkey) (hall key' hkey')] at hident
    rcases name?_or_number?_of_isAssigned (hall key hkey) with ⟨text, htext⟩ | ⟨value, hvalue⟩
    · have htext' : n.name? key' = some text := by rw [name?, ← hident, ← name?, htext]
      exact eq_of_nodup_filterMap hnames hkey hkey' htext htext'
    · have hvalue' : n.number? key' = some value := by rw [number?, ← hident, ← number?, hvalue]
      exact hdistinct key hkey key' hkey' value hvalue hvalue'

end Naming

/-- The values that a terminator uses. -/
def Terminator.operands : Terminator → List Value
  | .ret value => value.toList
  | .unreachable => []

namespace Function

variable {f : Function} {n n' : Naming}

/-- The values that a function defines: parameters and results. -/
def definitions (f : Function) : List Value :=
  f.params.map Param.value ++ f.blocks.flatMap fun b => b.instructions.map Instruction.value

/-- The values that the instructions and terminators of a function use. -/
def operands (f : Function) : List Value :=
  f.blocks.flatMap fun b => b.instructions.flatMap (fun i => i.operation.operands) ++
    b.terminator.toList.flatMap Terminator.operands

theorem keys_eq (f : Function) :
    f.keys = f.params.map Param.key ++
      f.blocks.flatMap fun b => b.key :: b.instructions.map Instruction.key := rfl

/-- A definition is printed as an operand by its own identity, which is one of the function. -/
theorem ident_of_mem_definitions {v : Value} (hv : v ∈ f.definitions) (n : Naming) :
    v.key ∈ f.keys ∧ v.ident n = n.ident v.key := by
  rcases List.mem_append.mp hv with hparam | hresult
  · obtain ⟨p, hp, rfl⟩ := List.mem_map.mp hparam
    exact ⟨List.mem_append_left _ (List.mem_map_of_mem hp), rfl⟩
  · obtain ⟨b, hb, hinstruction⟩ := List.mem_flatMap.mp hresult
    obtain ⟨i, hi, rfl⟩ := List.mem_map.mp hinstruction
    refine ⟨List.mem_append_right _ (List.mem_flatMap.mpr ⟨b, hb, ?_⟩), rfl⟩
    exact List.mem_cons_of_mem _ (List.mem_map_of_mem hi)

/-- After a pass that succeeds, the spellings of a function are distinct exactly when no number that
was there before stands twice or is below the count of identities that the pass numbered. -/
theorem nodup_idents_iff (hkeys : f.keys.Nodup) (hpass : f.assignNumbers n = .ok n') :
    (f.keys.map n'.ident).Nodup ↔ n.NumbersDistinct f.keys ∧
      ∀ key ∈ f.keys, ∀ value, n.number? key = some value →
        (n.unassigned f.keys).length ≤ value := by
  obtain ⟨hnames, hnumbers⟩ := assignNumbers_eq_ok hkeys hpass
  rw [Naming.nodup_idents_iff hkeys (fun _ => hnumbers.isAssigned) (hnumbers.nodup_names hnames)]
  exact hnumbers.numbersDistinct_iff hkeys

/-- Identities without a number are unassigned as soon as they are unnamed. -/
theorem filter_unnamed_eq_unassigned (hfresh : ∀ key ∈ f.keys, n.number? key = none) :
    f.keys.filter (fun key => (n.name? key).isNone) = n.unassigned f.keys := by
  apply List.filter_congr
  intro key hkey
  cases hassigned : n.isAssigned key with
  | false =>
    rw [Naming.name?, Naming.isAssigned_eq_false_iff.mp hassigned]
    rfl
  | true =>
    rcases Naming.name?_or_number?_of_isAssigned hassigned with ⟨text, htext⟩ | ⟨value, hvalue⟩
    · rw [htext]
      rfl
    · rw [hfresh key hkey] at hvalue
      cases hvalue

end Function

namespace Session

/-- A session that some calls lead to. -/
def Reachable (s : Session) : Prop :=
  ∃ name calls, s = (start name).run calls

theorem Reachable.owned {s : Session} (hs : s.Reachable) : s.Owned := by
  obtain ⟨name, calls, rfl⟩ := hs
  exact (owned_start name).run calls

/-- A pass over a function without numbers that succeeds: names are kept, the unnamed identities are
numbered from zero in printing order, and every identity has a spelling that no other has. A
definition is printed as an operand with the spelling of its own identity. -/
theorem assignNumbers_spells_each_definition {s : Session} (hs : s.Reachable) {f : Function}
    (hf : f ∈ s.allFunctions) {keys : List Key}
    (hkeys : keys = f.params.map Param.key ++
      f.blocks.flatMap fun b => b.key :: b.instructions.map Instruction.key)
    (hfresh : ∀ key ∈ keys, s.naming.number? key = none) {n : Naming}
    (hpass : f.assignNumbers s.naming = .ok n) :
    (∀ key ∈ keys, ∀ text, s.naming.name? key = some text → n.name? key = some text) ∧
    (∀ (i : Nat) (key : Key),
      (keys.filter fun key => (s.naming.name? key).isNone)[i]? = some key →
        n.number? key = some i) ∧
    (∀ key ∈ keys, n.isAssigned key = true) ∧
    (keys.map n.ident).Nodup ∧
    ∀ v ∈ f.definitions, v.key ∈ keys ∧ v.text n = v.type.text ++ " " ++ n.ident v.key ∧
      ∀ key ∈ keys, v.text n = v.type.text ++ " " ++ n.ident key → key = v.key := by
  rw [← f.keys_eq] at hkeys
  subst hkeys
  have hnodup := hs.owned.keys_nodup hf
  obtain ⟨_, hnumbers⟩ := Function.assignNumbers_eq_ok hnodup hpass
  have hidents : (f.keys.map n.ident).Nodup := by
    rw [Function.nodup_idents_iff hnodup hpass]
    refine ⟨?_, ?_⟩
    · intro key hkey _ _ value hvalue _
      rw [hfresh key hkey] at hvalue
      cases hvalue
    · intro key hkey value hvalue
      rw [hfresh key hkey] at hvalue
      cases hvalue
  refine ⟨?_, ?_, fun _ => hnumbers.isAssigned, hidents, ?_⟩
  · intro key _ text htext
    rwa [hnumbers.name?_eq]
  · intro i key hi
    rw [Function.filter_unnamed_eq_unassigned hfresh] at hi
    exact hnumbers.number?_eq_some_iff.mpr (.inr ⟨i, hi, (Nat.zero_add i).symm⟩)
  · intro v hv
    obtain ⟨hkey, hident⟩ := Function.ident_of_mem_definitions hv n
    refine ⟨hkey, by rw [Value.text, hident], ?_⟩
    intro key hkey' htext
    rw [Value.text, hident, String.append_right_inj] at htext
    exact (List.inj_on_of_nodup_map hidents hkey hkey' htext).symm

/-- A parameter named `3` beside numbers, and an instruction that uses both parameters. -/
theorem spells_each_definition_beside_quoted_digit :
    let s := (start "m").run [.function "f" .i32, .param 0 "3" (.vector 2 .i32), .param 0 "" .i32,
      .block none, .build 0 (.extractElement (.param ⟨0⟩ (.vector 2 .i32)) (.param ⟨1⟩ .i32)),
      .addBlock 0 0]
    let keys : List Key := [⟨0⟩, ⟨1⟩, ⟨2⟩, ⟨3⟩]
    ∃ f n, f ∈ s.allFunctions ∧
      keys = f.params.map Param.key ++
        (f.blocks.flatMap fun b => b.key :: b.instructions.map Instruction.key) ∧
      (∀ key ∈ keys, s.naming.number? key = none) ∧ f.assignNumbers s.naming = .ok n ∧
      keys.map n.ident = ["%\"3\"", "%0", "%1", "%2"] ∧ (keys.map n.ident).Nodup := by
  refine ⟨_, _, List.mem_cons_self, ?keys, ?fresh, rfl, by decide,
    (assignNumbers_spells_each_definition ⟨"m", _, rfl⟩ List.mem_cons_self ?keys ?fresh
      rfl).2.2.2.1⟩
  case keys => rfl
  case fresh => decide

end Session

end Codegen.Ir
