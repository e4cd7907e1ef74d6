import Mathlib.Data.List.Forall2

namespace Codegen

variable {ε α β γ δ : Type}

theorem bind_eq_ok_iff {x : Except ε α} {f : α → Except ε β} {b : β} :
    (x >>= f) = .ok b ↔ ∃ a, x = .ok a ∧ f a = .ok b := by
  cases x with
  | error e => simp [bind, Except.bind]
  | ok a => simp [bind, Except.bind]

theorem map_eq_ok_iff {x : Except ε α} {f : α → β} {b : β} :
    x.map f = .ok b ↔ ∃ a, x = .ok a ∧ f a = b := by
  cases x with
  | error e => simp [Except.map]
  | ok a => simp [Except.map]

theorem mapM_eq_ok {f : α → Except ε β} {g : α → β} {as : List α}
    (heach : ∀ a ∈ as, f a = .ok (g a)) : as.mapM f = .ok (as.map g) := by
  induction as with
  | nil => rfl
  | cons a as ih =>
    rw [List.forall_mem_cons] at heach
    rw [List.mapM_cons, heach.1, ih heach.2]
    rfl

theorem of_mapM_eq_ok {f : α → Except ε β} {as : List α} {bs : List β}
    (hmap : as.mapM f = .ok bs) {b : β} (hb : b ∈ bs) : ∃ a, f a = .ok b := by
  induction as generalizing bs with
  | nil =>
    cases hmap
    cases hb
  | cons a as ih =>
    rw [List.mapM_cons] at hmap
    obtain ⟨first, hfirst, hmap⟩ := bind_eq_ok_iff.mp hmap
    obtain ⟨rest, hrest, hlast⟩ := bind_eq_ok_iff.mp hmap
    cases hlast
    rcases List.mem_cons.mp hb with rfl | hmem
    · exact ⟨a, hfirst⟩
    · exact ih hrest hmem

/-- Lists have the same images just when their elements have, one by one. What the same image of two
elements means may depend on their being in the lists. -/
theorem map_eq_map_iff_forall₂ {f : α → γ} {g : β → γ} {R : α → β → Prop} {as : List α}
    {bs : List β} (hiff : ∀ a ∈ as, ∀ b ∈ bs, f a = g b ↔ R a b) :
    as.map f = bs.map g ↔ List.Forall₂ R as bs := by
  induction as generalizing bs with
  | nil => cases bs <;> simp
  | cons a as ih =>
    cases bs with
    | nil => simp
    | cons b bs =>
      have hhead := hiff a List.mem_cons_self b List.mem_cons_self
      have htail := ih fun c hc d hd =>
        hiff c (List.mem_cons_of_mem a hc) d (List.mem_cons_of_mem b hd)
      rw [List.map_cons, List.map_cons, List.cons.injEq, List.forall₂_cons, hhead, htail]

theorem map_eq_map_of_imp {f : α → γ} {g : β → γ} {f' : α → δ} {g' : β → δ} {as : List α}
    {bs : List β} (himp : ∀ a b, f a = g b → f' a = g' b) (hmap : as.map f = bs.map g) :
    as.map f' = bs.map g' := by
  rw [map_eq_map_iff_forall₂ fun _ _ _ _ => Iff.rfl] at hmap ⊢
  exact hmap.imp himp

end Codegen
