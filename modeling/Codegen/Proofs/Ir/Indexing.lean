import Codegen.Proofs.Ir.Paths

namespace Codegen.Ir.Ty

/-- Aggregates and pointers. -/
def IsIndexable (type : Ty) : Prop :=
  type.isAggregate = true ∨ ∃ elem, type = .pointer elem

/-- A property of types predicts a walk: the walk is refused for a type exactly if some proper
prefix of the path leads to a type without the property, and the type in the error is the one at the
shortest such prefix. -/
structure Predicts (through : Ty → Prop) (type : Ty) (path : Path) : Prop where
  refused_iff : (∃ bad, type.resolve path = .error (.notIndexable bad)) ↔
    ∃ k < path.length, ∃ reached, type.resolve (path.take k) = .ok reached ∧ ¬ through reached
  reports_first : ∀ bad, type.resolve path = .error (.notIndexable bad) →
    ∃ k < path.length, type.resolve (path.take k) = .ok bad ∧ ¬ through bad ∧
      ∀ j < k, ∀ reached, type.resolve (path.take j) = .ok reached → through reached

variable {type inner reached bad : Ty} {path : Path} {index : UInt64} {j k : Nat}

/-- A step is refused for the type alone, whatever the index. -/
theorem refuses_notIndexable_iff :
    type.Refuses index (.notIndexable bad) ↔ type = bad ∧ ¬ type.IsIndexable := by
  constructor
  · intro h
    cases h <;> exact ⟨rfl, by simp [IsIndexable, isAggregate]⟩
  · rintro ⟨rfl, hnot⟩
    cases type with
    | void => exact .void index
    | int width => exact .int width index
    | float kind => exact .float kind index
    | vector len elem => exact .vector len elem index
    | pointer elem => exact absurd (.inr ⟨elem, rfl⟩) hnot
    | array len elem => exact absurd (.inl rfl) hnot
    | struct fields packed => exact absurd (.inl rfl) hnot

/-- The type in the error is met before the last index is used. -/
theorem resolve_eq_notIndexable_iff :
    type.resolve path = .error (.notIndexable bad) ↔
      ∃ k < path.length, type.resolve (path.take k) = .ok bad ∧ ¬ bad.IsIndexable := by
  constructor
  · intro h
    obtain ⟨k, hfails⟩ := exists_failsAt h
    obtain ⟨reached, index, hreached, -, hrefuses⟩ := failsAt_iff.mp hfails
    obtain ⟨rfl, hnot⟩ := refuses_notIndexable_iff.mp hrefuses
    exact ⟨k, hfails.inside, hreached, hnot⟩
  · rintro ⟨k, hk, hreached, hnot⟩
    have hfails : type.FailsAt path k (.notIndexable bad) :=
      failsAt_iff.mpr ⟨bad, path[k], hreached, List.getElem?_eq_getElem hk,
        refuses_notIndexable_iff.mpr ⟨rfl, hnot⟩⟩
    have herror := hfails.after path.length hk []
    rwa [List.append_nil, List.take_length] at herror

/-- Whatever a walk leaves behind can be indexed. -/
theorem isIndexable_of_resolve_take (hinner : type.resolve (path.take j) = .ok inner)
    (hreached : type.resolve (path.take k) = .ok reached) (hjk : j < k) (hk : k ≤ path.length) :
    inner.IsIndexable := by
  by_contra hnot
  have herror : type.resolve (path.take k) = .error (.notIndexable inner) := by
    refine resolve_eq_notIndexable_iff.mpr ⟨j, ?_, ?_, hnot⟩
    · rw [List.length_take]
      omega
    · rw [List.take_take, Nat.min_eq_left (Nat.le_of_lt hjk), hinner]
  rw [hreached] at herror
  cases herror

/-- A property predicts a walk exactly if, among the types met before the end, it holds of just
those that can be indexed. -/
theorem predicts_iff {through : Ty → Prop} :
    Predicts through type path ↔ ∀ k < path.length, ∀ reached,
      type.resolve (path.take k) = .ok reached → (through reached ↔ reached.IsIndexable) := by
  constructor
  · intro h k hk reached hreached
    by_cases hrefused : ∃ bad, type.resolve path = .error (.notIndexable bad)
    · obtain ⟨bad, hbad⟩ := hrefused
      obtain ⟨m, hm, hstop, hthrough, hbefore⟩ := h.reports_first bad hbad
      obtain ⟨-, -, -, hnot⟩ := resolve_eq_notIndexable_iff.mp hbad
      rcases Nat.lt_trichotomy k m with hlt | rfl | hgt
      · exact iff_of_true (hbefore k hlt reached hreached)
          (isIndexable_of_resolve_take hreached hstop hlt (Nat.le_of_lt hm))
      · rw [hstop] at hreached
        cases hreached
        exact iff_of_false hthrough hnot
      · exact absurd (isIndexable_of_resolve_take hstop hreached hgt (Nat.le_of_lt hk)) hnot
    · have hthrough : through reached := by
        by_contra hnot
        exact hrefused (h.refused_iff.mpr ⟨k, hk, reached, hreached, hnot⟩)
      have hindexable : reached.IsIndexable := by
        by_contra hnot
        exact hrefused ⟨reached, resolve_eq_notIndexable_iff.mpr ⟨k, hk, hreached, hnot⟩⟩
      exact iff_of_true hthrough hindexable
  · intro h
    refine ⟨⟨?_, ?_⟩, ?_⟩
    · rintro ⟨bad, hbad⟩
      obtain ⟨k, hk, hreached, hnot⟩ := resolve_eq_notIndexable_iff.mp hbad
      exact ⟨k, hk, bad, hreached, mt (h k hk bad hreached).mp hnot⟩
    · rintro ⟨k, hk, reached, hreached, hnot⟩
      exact ⟨reached, resolve_eq_notIndexable_iff.mpr
        ⟨k, hk, hreached, mt (h k hk reached hreached).mpr hnot⟩⟩
    · intro bad hbad
      obtain ⟨k, hk, hreached, hnot⟩ := resolve_eq_notIndexable_iff.mp hbad
      refine ⟨k, hk, hreached, mt (h k hk bad hreached).mp hnot, ?_⟩
      intro j hj inner hinner
      exact (h j (Nat.lt_trans hj hk) inner hinner).mpr
        (isIndexable_of_resolve_take hinner hreached hj (Nat.le_of_lt hk))

theorem isAggregate_iff_isIndexable_iff :
    (type.isAggregate = true ↔ type.IsIndexable) ↔ ∀ elem, type ≠ .pointer elem := by
  cases type <;> simp [IsIndexable, isAggregate]

/-- Every walk is predicted by what can be indexed, aggregates and pointers. The aggregates alone
predict exactly the walks that meet no pointer before their end. -/
theorem isAggregate_predicts_iff_no_pointer (type : Ty) (path : Path) :
    Predicts IsIndexable type path ∧
    (Predicts (fun inner => inner.isAggregate = true) type path ↔
      ∀ k < path.length, ∀ elem, type.resolve (path.take k) ≠ .ok (.pointer elem)) := by
  refine ⟨predicts_iff.mpr fun k _ reached _ => Iff.rfl, ?_⟩
  simp only [predicts_iff, isAggregate_iff_isIndexable_iff]
  constructor
  · intro h k hk elem hreached
    exact h k hk _ hreached elem rfl
  · rintro h k hk reached hreached elem rfl
    exact h k hk elem hreached

/-- The walk goes past a struct and an array, and the vector that stops it is no aggregate. -/
theorem isAggregate_predicts_stop_at_vector :
    (.struct [.array 4 (.vector 2 .single), .pointer .double] true : Ty).resolve [0, 17, 1] =
      .error (.notIndexable (.vector 2 .single)) ∧
    Predicts (fun inner => inner.isAggregate = true)
      (.struct [.array 4 (.vector 2 .single), .pointer .double] true) [0, 17, 1] := by
  refine ⟨rfl, (isAggregate_predicts_iff_no_pointer _ _).2.mpr ?_⟩
  intro k hk elem hpointer
  have hcases : k = 0 ∨ k = 1 ∨ k = 2 := by
    change k < 3 at hk
    omega
  rcases hcases with rfl | rfl | rfl <;> cases hpointer

/-- A pointer is no aggregate, but a walk arrives behind it; and one that is refused further on
reports the type there and not the pointer. -/
theorem not_isAggregate_predicts_past_pointer :
    ¬ Predicts (fun inner => inner.isAggregate = true) (.pointer .i32) [0] ∧
    ¬ Predicts (fun inner => inner.isAggregate = true)
      (.struct [.pointer .double] false) [0, 0, 0] := by
  constructor
  · intro h
    obtain ⟨bad, hbad⟩ := h.refused_iff.mpr ⟨0, by decide, .pointer .i32, rfl, by decide⟩
    cases hbad
  · intro h
    obtain ⟨k, hk, hreached, -, hbefore⟩ := h.reports_first .double rfl
    have hcases : k = 0 ∨ k = 1 ∨ k = 2 := by
      change k < 3 at hk
      omega
    rcases hcases with rfl | rfl | rfl
    · cases hreached
    · cases hreached
    · cases hbefore 1 (by decide) (.pointer .double) rfl

end Codegen.Ir.Ty
