namespace Codegen.Ir

/-- Width of a floating point type. -/
inductive FloatKind where
  /-- 32 bits -/
  | float
  /-- 64 bits -/
  | double
  deriving DecidableEq, Repr

/-- Types of values, compared by structure; there are no named types. Widths are 32-bit words and
lengths 64-bit words. -/
inductive Ty where
  | void
  | int (width : UInt32)
  | float (kind : FloatKind)
  | pointer (elem : Ty)
  | array (len : UInt64) (elem : Ty)
  | vector (len : UInt64) (elem : Ty)
  /-- A literal struct; a packed one has no padding between its fields. -/
  | struct (fields : List Ty) (packed : Bool)
  deriving Repr, Inhabited

namespace Ty

mutual

/-- Structural comparison. -/
def beq : Ty → Ty → Bool
  | .void, .void => true
  | .int w, .int w' => w == w'
  | .float k, .float k' => k == k'
  | .pointer t, .pointer t' => beq t t'
  | .array n t, .array n' t' => n == n' && beq t t'
  | .vector n t, .vector n' t' => n == n' && beq t t'
  | .struct fs p, .struct fs' p' => beqAll fs fs' && p == p'
  | _, _ => false

/-- Comparison of two lists of fields. -/
def beqAll : List Ty → List Ty → Bool
  | [], [] => true
  | t :: ts, t' :: ts' => beq t t' && beqAll ts ts'
  | _, _ => false

end

mutual

private theorem eq_of_beq {a b : Ty} (h : beq a b = true) : a = b := by
  match a, b with
  | .void, .void => rfl
  | .int w, .int w' => simp_all [beq]
  | .float k, .float k' => simp_all [beq]
  | .pointer t, .pointer t' => rw [beq] at h; rw [eq_of_beq h]
  | .array n t, .array n' t' =>
    simp only [beq, Bool.and_eq_true, beq_iff_eq] at h
    rw [h.1, eq_of_beq h.2]
  | .vector n t, .vector n' t' =>
    simp only [beq, Bool.and_eq_true, beq_iff_eq] at h
    rw [h.1, eq_of_beq h.2]
  | .struct fs p, .struct fs' p' =>
    simp only [beq, Bool.and_eq_true, beq_iff_eq] at h
    rw [eq_of_beqAll h.1, h.2]

private theorem eq_of_beqAll {as bs : List Ty} (h : beqAll as bs = true) : as = bs := by
  match as, bs with
  | [], [] => rfl
  | t :: ts, t' :: ts' =>
    simp only [beqAll, Bool.and_eq_true] at h
    rw [eq_of_beq h.1, eq_of_beqAll h.2]

end

mutual

private theorem beq_self (t : Ty) : beq t t = true := by
  match t with
  | .void => rfl
  | .int _ | .float _ => simp [beq]
  | .pointer t | .array _ t | .vector _ t => simp [beq, beq_self t]
  | .struct fs _ => simp [beq, beqAll_self fs]

private theorem beqAll_self (ts : List Ty) : beqAll ts ts = true := by
  match ts with
  | [] => rfl
  | t :: ts => simp [beqAll, beq_self t, beqAll_self ts]

end

instance : DecidableEq Ty := fun a b =>
  decidable_of_iff (beq a b = true) ⟨eq_of_beq, fun h => h ▸ beq_self a⟩

abbrev i1 : Ty := .int 1
abbrev i32 : Ty := .int 32
abbrev single : Ty := .float .float
abbrev double : Ty := .float .double

/-- Scalar types that are not derived from others. -/
def isPrimitive : Ty → Bool
  | .void | .int _ | .float _ => true
  | _ => false

/-- Types that hold elements by position. -/
def isAggregate : Ty → Bool
  | .array .. | .struct .. => true
  | _ => false

/-- Length and element type of a vector type. -/
def vectorParts? : Ty → Option (UInt64 × Ty)
  | .vector len elem => some (len, elem)
  | _ => none

mutual

/-- Spelling of a type in the output. -/
def text : Ty → String
  | .void => "void"
  | .int width => "i" ++ Nat.repr width.toNat
  | .float .float => "float"
  | .float .double => "double"
  | .pointer elem => elem.text ++ "*"
  | .array len elem => "[" ++ Nat.repr len.toNat ++ " x " ++ elem.text ++ "]"
  | .vector len elem => "<" ++ Nat.repr len.toNat ++ " x " ++ elem.text ++ ">"
  | .struct fields false => "\x7b" ++ ", ".intercalate (texts fields) ++ "\x7d"
  | .struct fields true => "<\x7b" ++ ", ".intercalate (texts fields) ++ "\x7d>"

/-- Spelling of each field of a struct. -/
def texts : List Ty → List String
  | [] => []
  | t :: ts => t.text :: texts ts

end

@[simp] theorem texts_eq_map (ts : List Ty) : texts ts = ts.map text := by
  induction ts with
  | nil => rfl
  | cons t ts ih => simp [texts, ih]

end Ty

end Codegen.Ir
