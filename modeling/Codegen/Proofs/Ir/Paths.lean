import Codegen.Ir.Path
import Mathlib.Logic.ExistsUnique
import Mathlib.Tactic.ByContra

namespace Codegen.Ir.Ty

/-- The types that an index cannot go into, and the error that says so. -/
inductive Refuses : Ty → UInt64 → IrError → Prop
  | field {fields : List Ty} {packed : Bool} {index : UInt64}
    (hfields : fields.length ≤ index.toNat) :
    Refuses (.struct fields packed) index
      (.fieldOutOfRange index fields.length (.struct fields packed))
  | void (index : UInt64) : Refuses .void index (.notIndexable .void)
  | int (width : UInt32) (index : UInt64) : Refuses (.int width) index (.notIndexable (.int width))
  | float (kind : FloatKind) (index : UInt64) :
    Refuses (.float kind) index (.notIndexable (.float kind))
  | vector (len : UInt64) (elem : Ty) (index : UInt64) :
    Refuses (.vector len elem) index (.notIndexable (.vector len elem))

/-- Arrays and pointers: all their elements have one type. -/
def IsUniform (type : Ty) : Prop :=
  (∃ len elem, type = .array len elem) ∨ ∃ elem, type = .pointer elem

variable {type reached : Ty} {path : Path} {index : UInt64} {e : IrError} {k : Nat}

/-- A step fails exactly by the rules. -/
theorem element_eq_error_iff : type.element index = .error e ↔ type.Refuses index e := by
  constructor
  · intro h
    cases type with
    | void =>
      cases h
      exact .void index
    | int width =>
      cases h
      exact .int width index
    | float kind =>
      cases h
      exact .float kind index
    | vector len elem =>
      cases h
      exact .vector len elem index
    | pointer elem => cases h
    | array len elem => cases h
    | struct fields packed =>
      rw [element] at h
      split at h
      · cases h
      · next hnone =>
        cases h
        exact .field (List.getElem?_eq_none_iff.mp hnone)
  · intro h
    cases h with
    | field hfields => rw [element, List.getElem?_eq_none hfields]
    | void | int | float | vector => rfl

theorem Refuses.not_isUniform (h : type.Refuses index e) : ¬ type.IsUniform := by
  rintro (⟨len, elem, rfl⟩ | ⟨elem, rfl⟩) <;> cases h

theorem IsUniform.element_eq (h : type.IsUniform) (index other : UInt64) :
    type.element index = type.element other := by
  rcases h with ⟨len, elem, rfl⟩ | ⟨elem, rfl⟩ <;> rfl

theorem resolve_eq_foldlM (type : Ty) (path : Path) :
    type.resolve path = path.foldlM element type := by
  induction path generalizing type with
  | nil => rfl
  | cons index path ih =>
    rw [resolve, List.foldlM_cons]
    exact congrArg _ (funext fun inner => ih inner)

theorem resolve_singleton (type : Ty) (index : UInt64) :
    type.resolve [index] = type.element index := by
  rw [resolve_eq_foldlM, List.foldlM_cons]
  exact bind_pure _

/-- Paths compose: the second goes on from where the first ends. -/
theorem resolve_append (type : Ty) (path rest : Path) :
    type.resolve (path ++ rest) = type.resolve path >>= fun reached => reached.resolve rest := by
  simp only [resolve_eq_foldlM, List.foldlM_append]

theorem resolve_append_of_ok (hreached : type.resolve path = .ok reached) (rest : Path) :
    type.resolve (path ++ rest) = reached.resolve rest := by
  rw [resolve_append, hreached]
  rfl

theorem resolve_append_of_error (herror : type.resolve path = .error e) (rest : Path) :
    type.resolve (path ++ rest) = .error e := by
  rw [resolve_append, herror]
  rfl

/-- A walk that arrives was never refused on its way. -/
theorem exists_resolve_take (h : type.resolve path = .ok reached) (j : Nat) :
    ∃ inner, type.resolve (path.take j) = .ok inner := by
  cases htake : type.resolve (path.take j) with
  | ok inner => exact ⟨inner, rfl⟩
  | error e =>
    have herror := resolve_append_of_error htake (path.drop j)
    rw [List.take_append_drop, h] at herror
    cases herror

theorem resolve_take_add_one (hreached : type.resolve (path.take k) = .ok reached)
    (hindex : path[k]? = some index) : type.resolve (path.take (k + 1)) = reached.element index := by
  rw [List.take_add_one, hindex, Option.toList_some, resolve_append_of_ok hreached,
    resolve_singleton]

/-- A walk goes wrong at position `k`: it gets there, and whatever goes one step further fails. -/
structure FailsAt (type : Ty) (path : Path) (k : Nat) (e : IrError) : Prop where
  inside : k < path.length
  before : ∀ j ≤ k, ∃ reached, type.resolve (path.take j) = .ok reached
  after : ∀ j, k < j → ∀ rest, type.resolve (path.take j ++ rest) = .error e

theorem FailsAt.position_le {k' : Nat} {e' : IrError} (h : type.FailsAt path k e)
    (h' : type.FailsAt path k' e') : k ≤ k' := by
  by_contra hlt
  obtain ⟨reached, hreached⟩ := h.before (k' + 1) (by omega)
  have herror := h'.after (k' + 1) (by omega) []
  rw [List.append_nil, hreached] at herror
  cases herror

/-- The step that fails is the one where the type so far refuses the next index. -/
theorem failsAt_iff :
    type.FailsAt path k e ↔ ∃ reached index, type.resolve (path.take k) = .ok reached ∧
      path[k]? = some index ∧ reached.Refuses index e := by
  constructor
  · intro h
    obtain ⟨reached, hreached⟩ := h.before k (Nat.le_refl k)
    have hindex := List.getElem?_eq_getElem h.inside
    have herror := h.after (k + 1) (Nat.lt_succ_self k) []
    rw [List.append_nil, resolve_take_add_one hreached hindex] at herror
    exact ⟨reached, _, hreached, hindex, element_eq_error_iff.mp herror⟩
  · rintro ⟨reached, index, hreached, hindex, hrefuses⟩
    have herror : type.resolve (path.take (k + 1)) = .error e := by
      rw [resolve_take_add_one hreached hindex, element_eq_error_iff.mpr hrefuses]
    refine ⟨(List.getElem?_eq_some_iff.mp hindex).1, ?_, ?_⟩
    · intro j hj
      obtain ⟨inner, hinner⟩ := exists_resolve_take hreached j
      rw [List.take_take, Nat.min_eq_left hj] at hinner
      exact ⟨inner, hinner⟩
    · intro j hj rest
      rw [← List.take_append_drop (k + 1) (path.take j), List.take_take, Nat.min_eq_left hj,
        List.append_assoc, resolve_append_of_error herror]

/-- A walk that does not arrive goes wrong somewhere. -/
theorem exists_failsAt (h : type.resolve path = .error e) : ∃ k, type.FailsAt path k e := by
  simp only [failsAt_iff]
  induction path generalizing type with
  | nil => cases h
  | cons index path ih =>
    cases hstep : type.element index with
    | error e' =>
      rw [resolve, hstep] at h
      cases h
      exact ⟨0, type, index, rfl, rfl, element_eq_error_iff.mp hstep⟩
    | ok elem =>
      have hcons (rest : Path) : type.resolve (index :: rest) = elem.resolve rest := by
        rw [resolve, hstep]
        rfl
      rw [hcons] at h
      obtain ⟨k, reached, bad, hreached, hbad, hrefuses⟩ := ih h
      refine ⟨k + 1, reached, bad, ?_, ?_, hrefuses⟩
      · rw [List.take_succ_cons, hcons, hreached]
      · rwa [List.getElem?_cons_succ]

theorem resolve_set_of_isUniform (hreached : type.resolve (path.take k) = .ok reached)
    (huniform : reached.IsUniform) (other : UInt64) :
    type.resolve (path.set k other) = type.resolve path := by
  by_cases hk : k < path.length
  · have hpath : path = path.take k ++ path[k] :: path.drop (k + 1) := by
      rw [← List.drop_eq_getElem_cons hk, List.take_append_drop]
    conv => rhs; rw [hpath]
    rw [List.set_eq_take_append_cons_drop, if_pos hk, resolve_append_of_ok hreached,
      resolve_append_of_ok hreached, resolve, resolve, huniform.element_eq other path[k]]
  · rw [List.set_eq_of_length_le (by omega)]

/-- A walk arrives with all its prefixes, or there is one step at which it goes wrong. That step is
where the type so far refuses the index, which arrays and pointers never do: what the index into one
of those is makes no difference. -/
theorem resolve_fails_at_first_bad_step (type : Ty) (path : Path) :
    ((∀ j ≤ path.length, ∃ reached, type.resolve (path.take j) = .ok reached) ∨
      ∃! k, ∃ e, type.FailsAt path k e) ∧
    (∀ k e, type.FailsAt path k e ↔ ∃ reached index, type.resolve (path.take k) = .ok reached ∧
      path[k]? = some index ∧ reached.Refuses index e) ∧
    (∀ k e reached, type.FailsAt path k e → type.resolve (path.take k) = .ok reached →
      ¬ reached.IsUniform) ∧
    ∀ k reached other, type.resolve (path.take k) = .ok reached → reached.IsUniform →
      type.resolve (path.set k other) = type.resolve path := by
  refine ⟨?_, fun k e => failsAt_iff, ?_, ?_⟩
  · cases h : type.resolve path with
    | ok reached => exact .inl fun j _ => exists_resolve_take h j
    | error e =>
      obtain ⟨k, hk⟩ := exists_failsAt h
      refine .inr ⟨k, ⟨e, hk⟩, ?_⟩
      rintro k' ⟨e', hk'⟩
      exact Nat.le_antisymm (hk'.position_le hk) (hk.position_le hk')
  · intro k e reached hfails hreached
    obtain ⟨reached', index, hreached', _, hrefuses⟩ := failsAt_iff.mp hfails
    rw [hreached] at hreached'
    cases hreached'
    exact hrefuses.not_isUniform
  · intro k reached other hreached huniform
    exact resolve_set_of_isUniform hreached huniform other

/-- An index far beyond the array is passed, and the walk ends at the integer inside. -/
theorem resolve_fails_at_integer :
    let type : Ty := .struct [.array 4 .i32, .pointer .double] true
    type.FailsAt [0, 17, 0, 5] 2 (.notIndexable .i32) ∧
      type.resolve [0, 18446744073709551615, 0, 5] = type.resolve [0, 17, 0, 5] := by
  intro type
  obtain ⟨_, hfails, _, hset⟩ := resolve_fails_at_first_bad_step type [0, 17, 0, 5]
  exact ⟨(hfails 2 _).mpr ⟨.i32, 0, rfl, rfl, .int 32 0⟩,
    hset 1 (.array 4 .i32) 18446744073709551615 rfl (.inl ⟨4, .i32, rfl⟩)⟩

end Codegen.Ir.Ty
