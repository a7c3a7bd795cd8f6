import Mathlib.Data.List.Basic

/-!
# Slots of a flat buffer

One buffer serves as many slots of the same size, the one behind the other.

* `writeAt` — items written at an offset; `getElem?_writeAt` — what is where afterwards.
* `slot` — the first items of a slot; `slot_writeAt` — **what was written into a slot is read
  back**, `slot_writeAt_of_ne` — **and the other slots are as before.**
-/

namespace Slots

variable {α : Type*}

/-- The buffer with `xs` written over what stands at `offset`. -/
def writeAt (buffer : List α) (offset : Nat) (xs : List α) : List α :=
  buffer.take offset ++ xs ++ buffer.drop (offset + xs.length)

/-- The first `n` items of slot `i`. -/
def slot (size : Nat) (buffer : List α) (i n : Nat) : List α := (buffer.drop (i * size)).take n

variable {buffer xs : List α} {offset : Nat}

@[simp] theorem length_writeAt (h : offset + xs.length ≤ buffer.length) :
    (writeAt buffer offset xs).length = buffer.length := by
  simp only [writeAt, List.length_append, List.length_take, List.length_drop]
  omega

/-- What is where after a write. -/
theorem getElem?_writeAt (h : offset + xs.length ≤ buffer.length) (k : Nat) :
    (writeAt buffer offset xs)[k]? =
      if offset ≤ k ∧ k < offset + xs.length then xs[k - offset]? else buffer[k]? := by
  have htake : (buffer.take offset).length = offset := by
    rw [List.length_take]
    omega
  unfold writeAt
  rw [List.append_assoc, List.getElem?_append, htake]
  by_cases hbefore : k < offset
  · rw [if_pos hbefore, if_neg (by omega), List.getElem?_take, if_pos hbefore]
  · rw [if_neg hbefore, List.getElem?_append]
    by_cases hinside : k - offset < xs.length
    · rw [if_pos hinside, if_pos (by omega)]
    · rw [if_neg hinside, if_neg (by omega), List.getElem?_drop]
      congr 1
      omega

theorem getElem?_slot (size : Nat) (buffer : List α) (i n k : Nat) :
    (slot size buffer i n)[k]? = if k < n then buffer[i * size + k]? else none := by
  unfold slot
  rw [List.getElem?_take, List.getElem?_drop]

/-- **What was written into a slot is read back.** -/
theorem slot_writeAt {size i : Nat} (h : i * size + xs.length ≤ buffer.length) :
    slot size (writeAt buffer (i * size) xs) i xs.length = xs := by
  refine List.ext_getElem? fun k => ?_
  rw [getElem?_slot, getElem?_writeAt h]
  by_cases hk : k < xs.length
  · rw [if_pos hk, if_pos (by omega), Nat.add_sub_cancel_left]
  · rw [if_neg hk, List.getElem?_eq_none (by omega)]

/-- **The other slots are as before.** -/
theorem slot_writeAt_of_ne {size i j n : Nat} (h : i * size + xs.length ≤ buffer.length)
    (hxs : xs.length ≤ size) (hn : n ≤ size) (hne : j ≠ i) :
    slot size (writeAt buffer (i * size) xs) j n = slot size buffer j n := by
  refine List.ext_getElem? fun k => ?_
  rw [getElem?_slot, getElem?_slot, getElem?_writeAt h]
  by_cases hk : k < n
  · have hoff : ¬ (i * size ≤ j * size + k ∧ j * size + k < i * size + xs.length) := by
      rcases Nat.lt_or_gt_of_ne hne with hlt | hgt
      · have hslot : (j + 1) * size ≤ i * size := Nat.mul_le_mul_right size hlt
        rw [Nat.add_mul, Nat.one_mul] at hslot
        omega
      · have hslot : (i + 1) * size ≤ j * size := Nat.mul_le_mul_right size hgt
        rw [Nat.add_mul, Nat.one_mul] at hslot
        omega
    rw [if_pos hk, if_pos hk, if_neg hoff]
  · rw [if_neg hk, if_neg hk]

end Slots
