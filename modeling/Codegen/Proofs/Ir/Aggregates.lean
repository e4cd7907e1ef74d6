import Codegen.Proofs.Ir.Paths
import Codegen.Proofs.Ir.TypeCells
import Mathlib.Logic.Relation

namespace Codegen.Ir

namespace Draft

/-- The value that a draft becomes once it is named, given metadata and placed. -/
def value (d : Draft) (changes : List Draft.Change) (n : Naming) : Value :=
  ((changes.foldl Draft.change d).place n).1.value

theorem type_value (d : Draft) (changes : List Draft.Change) (n : Naming) :
    (d.value changes n).type = d.type :=
  (d.foldl_change changes).2

variable {x : Value} {path : Path} {type : Ty} {e : IrError}

theorem extractValue_of_ok (htype : x.type.resolve path = .ok type) :
    extractValue x path = .ok { operation := .extractValue x path, type } := by
  rw [extractValue, ofOperation, Operation.resultType, htype]
  rfl

theorem extractValue_of_error (herror : x.type.resolve path = .error e) :
    extractValue x path = .error e := by
  rw [extractValue, ofOperation, Operation.resultType, herror]
  rfl

/-- Reading an element has the outcome of the walk through the type. -/
theorem map_type_extractValue (x : Value) (path : Path) :
    (extractValue x path).map Draft.type = x.type.resolve path := by
  cases htype : x.type.resolve path with
  | error e => rw [extractValue_of_error htype, Except.map]
  | ok type => rw [extractValue_of_ok htype, Except.map]

theorem resolve_of_extractValue {d : Draft} (h : extractValue x path = .ok d) :
    x.type.resolve path = .ok d.type := by
  rw [← map_type_extractValue, h, Except.map]

theorem resolve_of_extractValue_error (h : extractValue x path = .error e) :
    x.type.resolve path = .error e := by
  rw [← map_type_extractValue, h, Except.map]

theorem insertValue_of_ok (htype : x.type.resolve path = .ok type) (elem : Value) :
    insertValue x elem path =
      if type = elem.type then .ok { operation := .insertValue x elem path, type := x.type }
      else .error (.elementMismatch type elem.type) := by
  rw [insertValue, htype]
  rfl

theorem insertValue_of_error (herror : x.type.resolve path = .error e) (elem : Value) :
    insertValue x elem path = .error e := by
  rw [insertValue, herror]
  rfl

/-- An element is replaced by a value of its own type, and the type of the whole stays. -/
theorem insertValue_eq_ok {elem : Value} {d : Draft} (h : insertValue x elem path = .ok d) :
    x.type.resolve path = .ok elem.type ∧ d.type = x.type := by
  cases htype : x.type.resolve path with
  | error e =>
    rw [insertValue_of_error htype] at h
    cases h
  | ok type =>
    rw [insertValue_of_ok htype] at h
    split at h
    · next heq =>
      cases h
      exact ⟨congrArg _ heq, rfl⟩
    · cases h

/-- Paths compose, and so do the instructions that follow them: an element of an element is read
with the type, or refused with the error, that the joined path gives. -/
theorem extractValue_along_joined_path :
    (∀ (type : Ty) (path rest : Path),
      type.resolve (path ++ rest) = do (← type.resolve path).resolve rest) ∧
    ∀ (x : Value) (path rest : Path) (changes : List Draft.Change) (n : Naming),
      (do
        let inner ← extractValue x path
        (extractValue (inner.value changes n) rest).map Draft.type) =
      (extractValue x (path ++ rest)).map Draft.type := by
  refine ⟨Ty.resolve_append, ?_⟩
  intro x path rest changes n
  rw [map_type_extractValue]
  cases htype : x.type.resolve path with
  | error e =>
    rw [extractValue_of_error htype, Ty.resolve_append_of_error htype]
    rfl
  | ok type =>
    rw [extractValue_of_ok htype, Ty.resolve_append_of_ok htype]
    change (extractValue _ rest).map Draft.type = type.resolve rest
    rw [map_type_extractValue, type_value]

end Draft

/-- `y` is the result of an instruction that replaces an element of `x`. -/
def Value.Inserts (x y : Value) : Prop :=
  ∃ (elem : Value) (path : Path) (d : Draft) (changes : List Draft.Change) (n : Naming),
    Draft.insertValue x elem path = .ok d ∧ y = d.value changes n

theorem Value.Inserts.type_eq {x y : Value} (h : x.Inserts y) : y.type = x.type := by
  obtain ⟨elem, path, d, changes, n, hd, rfl⟩ := h
  rw [Draft.type_value, (Draft.insertValue_eq_ok hd).2]

theorem Value.type_eq_of_insertions {x y : Value} (h : Relation.ReflTransGen Value.Inserts x y) :
    y.type = x.type := by
  induction h with
  | refl => rfl
  | tail _ hstep ih => rw [hstep.type_eq, ih]

namespace Draft

/-- An element can be replaced exactly by a value of the type with which it is read; otherwise the
error is that of reading, or tells the two types. After any number of replacements the whole has its
type still, and every element is read as before. -/
theorem insertValue_follows_extractValue (x : Value) :
    (∀ (elem : Value) (path : Path),
      ((∃ d, insertValue x elem path = .ok d) ↔
        ∃ d, extractValue x path = .ok d ∧ d.type = elem.type) ∧
      (∀ e, extractValue x path = .error e → insertValue x elem path = .error e) ∧
      ∀ d, extractValue x path = .ok d → d.type ≠ elem.type →
        insertValue x elem path = .error (.elementMismatch d.type elem.type)) ∧
    ∀ y, Relation.ReflTransGen Value.Inserts x y →
      y.type = x.type ∧ ∀ path,
        (extractValue y path).map Draft.type = (extractValue x path).map Draft.type := by
  refine ⟨fun elem path => ⟨⟨?_, ?_⟩, ?_, ?_⟩, ?_⟩
  · rintro ⟨d, hd⟩
    exact ⟨_, extractValue_of_ok (insertValue_eq_ok hd).1, rfl⟩
  · rintro ⟨d, hd, heq⟩
    exact ⟨_, (insertValue_of_ok (resolve_of_extractValue hd) elem).trans (if_pos heq)⟩
  · intro e he
    exact insertValue_of_error (resolve_of_extractValue_error he) elem
  · intro d hd hne
    rw [insertValue_of_ok (resolve_of_extractValue hd), if_neg hne]
  · intro y hy
    have htype := Value.type_eq_of_insertions hy
    refine ⟨htype, fun path => ?_⟩
    rw [map_type_extractValue, map_type_extractValue, htype]

/-- Both elements of a pair are replaced, the second by an instruction with a name. -/
theorem insertValue_follows_extractValue_pair :
    let x : Value := .param ⟨0⟩ (.struct [.i32, .double] false)
    ∃ y, Relation.ReflTransGen Value.Inserts x y ∧ y.type = x.type ∧
      (extractValue y [1]).map Draft.type = .ok .double ∧
      (extractValue y [2]).map Draft.type = .error (.fieldOutOfRange 2 2 x.type) := by
  intro x
  let whole : Value := .const ⟨1⟩ (.i32 9)
  let fraction : Value := .const ⟨2⟩ (.undef .double)
  let y : Value := .result ⟨3⟩ (.insertValue x whole [0]) x.type []
  let z : Value := .result ⟨4⟩ (.insertValue y fraction [1]) x.type []
  have hy : x.Inserts y := ⟨whole, [0], _, [], { next := 3 }, rfl, rfl⟩
  have hz : y.Inserts z := ⟨fraction, [1], _, [.name "z"], { next := 4 }, rfl, rfl⟩
  have hchain := (Relation.ReflTransGen.single hy).tail hz
  obtain ⟨htype, hread⟩ := (insertValue_follows_extractValue x).2 z hchain
  exact ⟨z, hchain, htype, hread [1], hread [2]⟩

end Draft

end Codegen.Ir
