import Mathlib.Data.List.Infix

/-!
# Buffers of the newest entries

A buffer takes an entry at the back, and drops one at the front when it has reached its capacity.
The capacity may be another one at each entry.

* `push` — one entry; `push_suffix`: **a buffer is the newest part of its history**;
  `push_length_min`: with one capacity, as much as fits.
* `pushes` — entries with the capacities they met; `pushes_length_le`, `le_pushes_length`: **the
  buffer holds no more than the largest of them, and as much as fits into the smallest.**
-/

namespace Ring

variable {α : Type*} {cap : Nat} {buf hist : List α} {x : α}

/-- One entry; at the capacity the oldest is dropped first. -/
def push (cap : Nat) (buf : List α) (x : α) : List α :=
  (if cap ≤ buf.length then buf.drop 1 else buf) ++ [x]

/-- **A buffer is the newest part of its history.** -/
theorem push_suffix (h : buf <:+ hist) : push cap buf x <:+ hist ++ [x] := by
  obtain ⟨old, rfl⟩ := h
  unfold push
  split
  · refine ⟨old ++ buf.take 1, ?_⟩
    have hback : buf.take 1 ++ buf.drop 1 = buf := List.take_append_drop 1 buf
    calc old ++ buf.take 1 ++ (buf.drop 1 ++ [x]) = old ++ (buf.take 1 ++ buf.drop 1) ++ [x] := by
          simp only [List.append_assoc]
      _ = old ++ buf ++ [x] := by rw [hback]
  · exact ⟨old, by simp⟩

/-- A capacity of nothing still keeps the last entry. -/
theorem push_length_le {largest : Nat} (h : buf.length ≤ max 1 largest) (hcap : cap ≤ largest) :
    (push cap buf x).length ≤ max 1 largest := by
  unfold push
  split <;> simp <;> omega

/-- A buffer never gets smaller. -/
theorem le_push_length {n smallest : Nat} (h : min n (max 1 smallest) ≤ buf.length)
    (hcap : smallest ≤ cap) : min (n + 1) (max 1 smallest) ≤ (push cap buf x).length := by
  unfold push
  split <;> simp <;> omega

theorem push_length_min {n : Nat} (h : buf.length = min n (max 1 cap)) :
    (push cap buf x).length = min (n + 1) (max 1 cap) := by
  unfold push
  split <;> simp <;> omega

/-! ## Changing capacities -/

/-- The buffer after entries with the capacities they met. -/
def pushes (entries : List (α × Nat)) : List α := entries.foldl (fun buf e => push e.2 buf e.1) []

@[simp] theorem pushes_append (entries : List (α × Nat)) (e : α × Nat) :
    pushes (entries ++ [e]) = push e.2 (pushes entries) e.1 := by simp [pushes]

variable {entries : List (α × Nat)}

theorem pushes_suffix (entries : List (α × Nat)) : pushes entries <:+ entries.map Prod.fst := by
  induction entries using List.reverseRecOn with
  | nil => simp [pushes]
  | append_singleton entries e ih => simpa using push_suffix ih

theorem pushes_length_le {largest : Nat} (h : ∀ e ∈ entries, e.2 ≤ largest) :
    (pushes entries).length ≤ max 1 largest := by
  induction entries using List.reverseRecOn with
  | nil => simp [pushes]
  | append_singleton entries e ih =>
    have hrest := ih fun e' he' => h e' (by simp [he'])
    simpa using push_length_le hrest (h e (by simp))

theorem le_pushes_length {smallest : Nat} (h : ∀ e ∈ entries, smallest ≤ e.2) :
    min entries.length (max 1 smallest) ≤ (pushes entries).length := by
  induction entries using List.reverseRecOn with
  | nil => simp
  | append_singleton entries e ih =>
    have hrest := ih fun e' he' => h e' (by simp [he'])
    have hpush := le_push_length (x := e.1) hrest (h e (by simp))
    rw [pushes_append, List.length_append, List.length_singleton]
    exact hpush

/-- The newest entries first, as many as there are. -/
theorem take_reverse (h : buf <:+ hist) (limit : Nat) :
    buf.reverse.take limit = hist.reverse.take (min limit buf.length) := by
  obtain ⟨old, rfl⟩ := h
  have hwhole : buf.reverse.take buf.length = buf.reverse := List.take_of_length_le (by simp)
  have hle : min limit buf.length ≤ buf.reverse.length := by
    rw [List.length_reverse]
    omega
  rw [List.reverse_append, List.take_append_of_le_length hle, ← List.take_take, hwhole]

end Ring
