import Mathlib.Algebra.Group.Int.Defs
import Mathlib.Algebra.GroupWithZero.Nat

/-!
# Checked indexing and arithmetic

What panics in the source, in a slice out of range or in a sum or a difference that its type does
not hold, as a `Fault`.

* `slice` — a slice, or nothing; `sliceChecked`, `indexChecked` — slices and indices;
  `sliceChecked_eq`, `indexChecked_eq` — their values in range.
* `addU64`, `mulU64`, `subU64`, `addU32`, `subI64` — arithmetic, with its values where it does not
  overflow.
-/

namespace TitanDns

/-- `bytes[i..j]` -/
def slice (bs : List UInt8) (i j : Nat) : Option (List UInt8) :=
  if i ≤ j ∧ j ≤ bs.length then some ((bs.drop i).take (j - i)) else none

theorem slice_some {bs : List UInt8} {i j : Nat} (hij : i ≤ j) (hj : j ≤ bs.length) :
    slice bs i j = some ((bs.drop i).take (j - i)) := if_pos ⟨hij, hj⟩

inductive Fault where
  | outOfBounds
  | overflow
  deriving DecidableEq, Repr

/-- `a + b` of `u64`. -/
def addU64 (a b : Nat) : Except Fault Nat :=
  if a + b < 2 ^ 64 then .ok (a + b) else .error .overflow

/-- `a * b` of `u64`. -/
def mulU64 (a b : Nat) : Except Fault Nat :=
  if a * b < 2 ^ 64 then .ok (a * b) else .error .overflow

/-- `a + b` of `u32`. -/
def addU32 (a b : UInt32) : Except Fault UInt32 :=
  if a.toNat + b.toNat < 2 ^ 32 then .ok (a + b) else .error .overflow

/-- `n as i64` of a `u64`. -/
def asI64 (n : Nat) : Int := if n < 2 ^ 63 then n else n - 2 ^ 64

/-- `a - b` of `i64`. -/
def subI64 (a b : Int) : Except Fault Int :=
  if -2 ^ 63 ≤ a - b ∧ a - b < 2 ^ 63 then .ok (a - b) else .error .overflow

/-- `a - b` of an unsigned type. -/
def subU64 (a b : Nat) : Except Fault Nat :=
  if b ≤ a then .ok (a - b) else .error .overflow

/-- `bytes[i..j]` -/
def sliceChecked (bs : List UInt8) (i j : Nat) : Except Fault (List UInt8) :=
  match slice bs i j with
  | some part => .ok part
  | none => .error .outOfBounds

/-- `bytes[i]` -/
def indexChecked (bs : List UInt8) (i : Nat) : Except Fault UInt8 :=
  match bs[i]? with
  | some b => .ok b
  | none => .error .outOfBounds

theorem sliceChecked_eq {bs : List UInt8} {i j : Nat} (hij : i ≤ j) (hj : j ≤ bs.length) :
    sliceChecked bs i j = .ok ((bs.drop i).take (j - i)) := by
  rw [sliceChecked, slice_some hij hj]

theorem indexChecked_eq {bs : List UInt8} {i : Nat} {b : UInt8} (h : bs[i]? = some b) :
    indexChecked bs i = .ok b := by
  rw [indexChecked, h]

/-- An octet behind the first `n`. -/
theorem indexChecked_drop {data : List UInt8} {n k : Nat} {b : UInt8}
    (h : (data.drop n)[k]? = some b) : indexChecked data (n + k) = .ok b := by
  rw [List.getElem?_drop] at h
  exact indexChecked_eq h

theorem addU64_eq {a b : Nat} (h : a + b < 2 ^ 64) : addU64 a b = .ok (a + b) := if_pos h

theorem mulU64_eq {a b : Nat} (h : a * b < 2 ^ 64) : mulU64 a b = .ok (a * b) := if_pos h

theorem addU32_eq {a b : UInt32} (h : a.toNat + b.toNat < 2 ^ 32) : addU32 a b = .ok (a + b) :=
  if_pos h

theorem asI64_eq {n : Nat} (h : n < 2 ^ 63) : asI64 n = n := if_pos h

theorem subI64_eq {a b : Int} (hlow : -2 ^ 63 ≤ a - b) (hhigh : a - b < 2 ^ 63) :
    subI64 a b = .ok (a - b) := if_pos ⟨hlow, hhigh⟩

theorem subU64_eq {a b : Nat} (h : b ≤ a) : subU64 a b = .ok (a - b) := if_pos h

end TitanDns
