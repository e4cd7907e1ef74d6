import Codegen.Ir.Function
import Codegen.Proofs.Ir.Naming
import Mathlib.Data.List.Nodup

namespace Codegen.Ir

theorem firstRepeatedAfter_eq_none_iff {seen names : List String} :
    firstRepeatedAfter seen names = none ↔ names.Nodup ∧ ∀ name ∈ names, name ∉ seen := by
  induction names generalizing seen with
  | nil => simp [firstRepeatedAfter]
  | cons name rest ih =>
    rw [firstRepeatedAfter]
    by_cases hname : name ∈ seen
    · simp [hname]
    · rw [if_neg (by simpa using hname), ih, List.nodup_cons]
      grind

/-- The check for names accepts exactly the lists without repetition. -/
theorem firstRepeated_eq_none_iff {names : List String} :
    firstRepeated names = none ↔ names.Nodup := by
  simp [firstRepeated, firstRepeatedAfter_eq_none_iff]

namespace Naming

variable {n n' : Naming} {keys : List Key}

/-- The identities among `keys` that have no spelling, in order. -/
def unassigned (n : Naming) (keys : List Key) : List Key :=
  keys.filter fun key => !n.isAssigned key

theorem mem_unassigned {key : Key} :
    key ∈ n.unassigned keys ↔ key ∈ keys ∧ n.spelling? key = none := by
  simp [unassigned, isAssigned_eq_false_iff]

theorem unassigned_cons_of_isAssigned {key : Key} (hkey : n.isAssigned key = true) :
    n.unassigned (key :: keys) = n.unassigned keys := by
  simp [unassigned, hkey]

theorem unassigned_cons {key : Key} (hkey : n.isAssigned key = false) :
    n.unassigned (key :: keys) = key :: n.unassigned keys := by
  simp [unassigned, hkey]

theorem unassigned_congr (h : ∀ key ∈ keys, n'.spelling? key = n.spelling? key) :
    n'.unassigned keys = n.unassigned keys := by
  apply List.filter_congr
  intro key hkey
  rw [isAssigned, isAssigned, h key hkey]

/-- `n'` is `n` with the unassigned identities among `keys` numbered in order from `start` on. -/
structure Numbers (n : Naming) (keys : List Key) (start : Nat) (n' : Naming) : Prop where
  next_eq : n'.next = n.next
  kept : ∀ key, key ∉ n.unassigned keys → n'.spelling? key = n.spelling? key
  numbered : ∀ (i : Nat) (key : Key), (n.unassigned keys)[i]? = some key →
    n'.spelling? key = some (.number (start + i))

/-- `n'` differs from `n` at most in the spellings of identities among `keys` that had none. -/
structure Touches (n : Naming) (keys : List Key) (n' : Naming) : Prop where
  next_eq : n'.next = n.next
  kept : ∀ key, n.isAssigned key = true ∨ key ∉ keys → n'.spelling? key = n.spelling? key

theorem Touches.refl (n : Naming) (keys : List Key) : n.Touches keys n :=
  ⟨rfl, fun _ _ => rfl⟩

theorem Touches.isAssigned (h : n.Touches keys n') {key : Key} (hkey : n.isAssigned key = true) :
    n'.isAssigned key = true := by
  rw [Naming.isAssigned, h.kept key (.inl hkey)]
  exact hkey

/-- Changes to two lists of identities, one after the other, are changes to the joined list. -/
theorem Touches.append {n'' : Naming} {keys' : List Key} (h : n.Touches keys n')
    (h' : n'.Touches keys' n'') : n.Touches (keys ++ keys') n'' := by
  refine ⟨h'.next_eq.trans h.next_eq, ?_⟩
  intro key hkey
  rw [List.mem_append, not_or] at hkey
  rw [h'.kept key (hkey.imp h.isAssigned And.right), h.kept key (hkey.imp_right And.left)]

theorem Touches.bounded (h : n.Touches keys n') (hn : n.Bounded)
    (hkeys : ∀ key ∈ keys, key.index < n.next) : n'.Bounded := by
  intro key hkey
  rw [h.next_eq]
  by_cases hmem : key ∈ keys
  · exact hkeys key hmem
  · apply hn
    rwa [Naming.isAssigned, h.kept key (.inr hmem)] at hkey

theorem Numbers.touches {start : Nat} (h : n.Numbers keys start n') : n.Touches keys n' := by
  refine ⟨h.next_eq, ?_⟩
  intro key hkey
  apply h.kept
  rw [mem_unassigned]
  rintro ⟨hmem, hnone⟩
  rcases hkey with hassigned | hout
  · rw [isAssigned_eq_false_iff.mpr hnone] at hassigned
    cases hassigned
  · exact hout hmem

/-- Spelling one identity touches that identity only, and nothing if it fails. -/
theorem touches_assign (n : Naming) (key : Key) (spelling : Spelling) :
    n.Touches [key] ((n.assign key spelling).toOption.getD n) := by
  cases h : n.assign key spelling with
  | error e => exact Touches.refl n _
  | ok n' =>
    refine ⟨next_assign h, ?_⟩
    intro key' hkey'
    have hne : key' ≠ key := by
      rintro rfl
      rw [isAssigned, (assign_eq_ok h).1] at hkey'
      simp at hkey'
    change n'.spelling? key' = _
    rw [spelling?_assign h, if_neg hne]

theorem touches_setName (n : Naming) (key : Key) (name : String) :
    n.Touches [key] ((n.setName key name).toOption.getD n) := by
  unfold setName
  split
  · exact touches_assign n key _
  · exact Touches.refl n _

/-- Numbering never fails, since it only touches identities without a spelling. -/
theorem numberFrom_spec (n : Naming) (start : Nat) (hkeys : keys.Nodup) :
    ∃ n', n.numberFrom start keys = .ok n' ∧ n.Numbers keys start n' := by
  induction keys generalizing n start with
  | nil => exact ⟨n, rfl, rfl, fun _ _ => rfl, by simp [unassigned]⟩
  | cons key rest ih =>
    obtain ⟨hkey, hrest⟩ := List.nodup_cons.mp hkeys
    cases hassigned : n.isAssigned key with
    | true =>
      obtain ⟨n', hrun, hnext, hkept, hnumbered⟩ := ih n start hrest
      refine ⟨n', by simpa [numberFrom, hassigned] using hrun, hnext, ?_, ?_⟩
      · simpa only [unassigned_cons_of_isAssigned hassigned] using hkept
      · simpa only [unassigned_cons_of_isAssigned hassigned] using hnumbered
    | false =>
      have hassign := assign_of_unassigned (isAssigned_eq_false_iff.mp hassigned) (.number start)
      have hspelling := spelling?_assign hassign
      have hothers : (⟨n.next, (key, .number start) :: n.entries⟩ : Naming).unassigned rest =
          n.unassigned rest := by
        apply unassigned_congr
        intro key' hkey'
        rw [hspelling, if_neg (ne_of_mem_of_not_mem hkey' hkey)]
      obtain ⟨n', hrun, hnext, hkept, hnumbered⟩ := ih _ (start + 1) hrest
      rw [hothers] at hkept hnumbered
      have hhead : n'.spelling? key = some (.number start) := by
        rw [hkept key fun hmem => hkey (mem_unassigned.mp hmem).1, hspelling, if_pos rfl]
      refine ⟨n', ?_, hnext, ?_, ?_⟩
      · rw [numberFrom, if_neg (by simp [hassigned]), setNumber, hassign]
        exact hrun
      · intro key' hkey'
        rw [unassigned_cons hassigned, List.mem_cons, not_or] at hkey'
        rw [hkept key' hkey'.2, hspelling, if_neg hkey'.1]
      · intro i key' hi
        rw [unassigned_cons hassigned] at hi
        cases i with
        | zero =>
          obtain rfl : key = key' := by simpa using hi
          exact hhead
        | succ i => rw [hnumbered i key' (by simpa using hi), Nat.add_right_comm, Nat.add_assoc]

end Naming

namespace Function

variable {f : Function} {n n' : Naming}

/-- A pass that succeeds has found no name twice and numbers the unassigned identities from zero. -/
theorem assignNumbers_eq_ok (hkeys : f.keys.Nodup) (h : f.assignNumbers n = .ok n') :
    (f.localNames n).Nodup ∧ n.Numbers f.keys 0 n' := by
  unfold assignNumbers at h
  split at h
  · cases h
  · next hnames =>
    obtain ⟨n'', hrun, hnumbers⟩ := n.numberFrom_spec 0 hkeys
    rw [hrun] at h
    cases h
    exact ⟨firstRepeated_eq_none_iff.mp hnames, hnumbers⟩

theorem touches_assignNumbers (n : Naming) (hkeys : f.keys.Nodup) :
    n.Touches f.keys ((f.assignNumbers n).toOption.getD n) := by
  cases h : f.assignNumbers n with
  | error e => exact Naming.Touches.refl n _
  | ok n' => exact (assignNumbers_eq_ok hkeys h).2.touches

end Function

end Codegen.Ir
