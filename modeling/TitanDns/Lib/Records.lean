import Mathlib.Algebra.GroupWithZero.Nat
import Mathlib.Data.List.Basic

/-!
# Records one behind the other

A file of records that tell where they end, read from its start until no further record is there as
a whole.

* `Reader` — what reads one record; it leaves less than it found.
* `Reader.readAll` — the loop.
* `Reader.readAll_encoded` — **what was written record by record is read back record by record**,
  also in front of other bytes.
* `whole` — how many records lie wholly in front of a cut; `Reader.readAll_take` — **those are what
  is read of a file that was cut.**
-/

namespace Records

variable {α β γ : Type*}

/-- Reads one record off the front. -/
structure Reader (α β : Type*) where
  next : List α → Option (β × List α)
  shorter : ∀ {bs b rest}, next bs = some (b, rest) → rest.length < bs.length

namespace Reader

variable (r : Reader α β)

/-- Read records until there is none. -/
def readAll (bs : List α) : List β :=
  match _h : r.next bs with
  | none => []
  | some (b, rest) => b :: readAll rest
termination_by bs.length
decreasing_by
  apply r.shorter
  assumption

variable {r} {bs rest : List α} {b : β}

theorem readAll_none (h : r.next bs = none) : r.readAll bs = [] := by
  rw [readAll]
  split
  · rfl
  · rename_i hsome
    rw [h] at hsome
    cases hsome

theorem readAll_some (h : r.next bs = some (b, rest)) : r.readAll bs = b :: r.readAll rest := by
  rw [readAll]
  split
  · rename_i hnone
    rw [h] at hnone
    cases hnone
  · rename_i hsome
    rw [h] at hsome
    cases hsome
    rfl

/-- A record that was read was read somewhere. -/
theorem mem_readAll {input : List α} (h : b ∈ r.readAll input) :
    ∃ part after, r.next part = some (b, after) := by
  cases hnext : r.next input with
  | none =>
    rw [readAll_none hnext] at h
    cases h
  | some found =>
    obtain ⟨b', after⟩ := found
    rw [readAll_some hnext] at h
    rcases List.mem_cons.mp h with rfl | h
    · exact ⟨input, after, hnext⟩
    · have hshorter := r.shorter hnext
      exact mem_readAll h
termination_by input.length

/-- **Written records are read back.** -/
theorem readAll_encoded {encode : γ → List α} {decode : γ → β} {xs : List γ}
    (hnext : ∀ x ∈ xs, ∀ rest, r.next (encode x ++ rest) = some (decode x, rest))
    (rest : List α) :
    r.readAll (xs.flatMap encode ++ rest) = xs.map decode ++ r.readAll rest := by
  induction xs with
  | nil => simp
  | cons x xs ih =>
    have hx := hnext x List.mem_cons_self (xs.flatMap encode ++ rest)
    have hxs := ih fun y hy => hnext y (List.mem_cons_of_mem _ hy)
    rw [List.flatMap_cons, List.append_assoc, readAll_some hx, hxs]
    rfl

/-- There is no record in nothing. -/
theorem next_nil : r.next [] = none := by
  cases h : r.next [] with
  | none => rfl
  | some found =>
    have := r.shorter h
    simp at this

end Reader

/-! ## A file that was cut -/

/-- How many of the records, of these sizes, lie wholly within the first `n` letters. -/
def whole : List Nat → Nat → Nat
  | [], _ => 0
  | size :: sizes, n => if size ≤ n then whole sizes (n - size) + 1 else 0

/-- A record lies wholly within them when it ends there. -/
theorem lt_whole_iff {sizes : List Nat} {i n : Nat} (hi : i < sizes.length) :
    i < whole sizes n ↔ (sizes.take (i + 1)).sum ≤ n := by
  induction sizes generalizing i n with
  | nil => simp at hi
  | cons size sizes ih =>
    rw [whole, List.take_succ_cons, List.sum_cons]
    by_cases hsize : size ≤ n
    · rw [if_pos hsize]
      cases i with
      | zero =>
        simpa using hsize
      | succ i =>
        have hrest := @ih i (n - size) (by simpa using hi)
        constructor
        · intro h
          have := hrest.mp (by omega)
          omega
        · intro h
          have := hrest.mpr (by omega)
          omega
    · rw [if_neg hsize]
      constructor
      · intro h
        omega
      · intro h
        omega

/-- **What is read of a file that was cut are the records in front of the cut**, if no part of a
record passes for one. -/
theorem Reader.readAll_take {r : Reader α β} {encode : γ → List α} {decode : γ → β} {xs : List γ}
    (hnext : ∀ x ∈ xs, ∀ rest, r.next (encode x ++ rest) = some (decode x, rest))
    (htorn : ∀ x ∈ xs, ∀ k < (encode x).length, r.next ((encode x).take k) = none) (n : Nat) :
    r.readAll ((xs.flatMap encode).take n) =
      (xs.take (whole (xs.map fun x => (encode x).length) n)).map decode := by
  induction xs generalizing n with
  | nil =>
    rw [List.flatMap_nil, List.take_nil, readAll_none next_nil]
    rfl
  | cons x xs ih =>
    have hxs := ih (fun y hy => hnext y (List.mem_cons_of_mem _ hy))
      (fun y hy => htorn y (List.mem_cons_of_mem _ hy)) (n - (encode x).length)
    rw [List.flatMap_cons, List.take_append, List.map_cons, whole]
    by_cases hsize : (encode x).length ≤ n
    · have hx := hnext x List.mem_cons_self ((xs.flatMap encode).take (n - (encode x).length))
      rw [if_pos hsize, List.take_of_length_le hsize, readAll_some hx, hxs]
      rfl
    · have hx := htorn x List.mem_cons_self n (by omega)
      rw [if_neg hsize, show n - (encode x).length = 0 by omega, List.take_zero, List.append_nil,
        readAll_none hx]
      rfl

end Records
