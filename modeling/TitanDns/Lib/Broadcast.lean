import Mathlib.Tactic.TypeStar

/-!
# Lossy broadcast channels

A sender appends messages; only the last `capacity` of them are retained.  A receiver has a
position; one that has fallen behind what is retained is told so once and goes on with the oldest
retained message.

* `Broadcast.send`, `Broadcast.recv` — the two ends.
* `Follows` — a receiver's value is that of the last message, if it has nothing left to receive.
* `Follows.send`, `Follows.lagged`, `Follows.message` — **every step of the channel keeps that**, so
  a lagging receiver that takes each message it is given ends with the last one.
-/

/-- A broadcast channel with everything ever sent. -/
structure Broadcast (α : Type*) where
  capacity : Nat
  sent : List α

namespace Broadcast

variable {α : Type*}

def new (capacity : Nat) : Broadcast α := ⟨capacity, []⟩

def send (b : Broadcast α) (x : α) : Broadcast α := { b with sent := b.sent ++ [x] }

/-- The index of the oldest retained message. -/
def oldest (b : Broadcast α) : Nat := b.sent.length - b.capacity

inductive RecvResult (α : Type*) where
  | message (x : α) (next : Nat)
  | lagged (next : Nat)
  | empty

/-- The receiver at position `next`. -/
def recv (b : Broadcast α) (next : Nat) : RecvResult α :=
  if next < b.oldest then .lagged b.oldest
  else
    match b.sent[next]? with
    | some x => .message x (next + 1)
    | none => .empty

/-- The last message, or what was there before the first. -/
def last (b : Broadcast α) (initial : α) : α := b.sent.getLast?.getD initial

theorem last_send (b : Broadcast α) (x initial : α) : (b.send x).last initial = x := by
  simp [last, send]

/-- A receiver at `next` that holds `value` and, with nothing left to receive, holds the last. -/
structure Follows (b : Broadcast α) (initial : α) (next : Nat) (value : α) : Prop where
  next_le : next ≤ b.sent.length
  current : next = b.sent.length → value = b.last initial

theorem follows_new (capacity : Nat) (initial : α) : (new capacity).Follows initial 0 initial :=
  ⟨Nat.le_refl _, fun _ => rfl⟩

section
variable {b : Broadcast α} {initial value : α} {next : Nat}

theorem Follows.send (h : b.Follows initial next value) (x : α) :
    (b.send x).Follows initial next value := by
  have hlength : (b.send x).sent.length = b.sent.length + 1 := by simp [Broadcast.send]
  have hle := h.next_le
  exact ⟨by omega, fun hend => by omega⟩

/-- Of a channel with room for a message the oldest retained one is not past the last. -/
theorem Follows.lagged (hcapacity : 0 < b.capacity) {next' : Nat}
    (hrecv : b.recv next = .lagged next') : b.Follows initial next' value := by
  unfold recv at hrecv
  split at hrecv
  · rename_i hbehind
    cases hrecv
    have hlt : b.oldest < b.sent.length := by
      unfold oldest at hbehind ⊢
      omega
    exact ⟨Nat.le_of_lt hlt, fun hend => by omega⟩
  · split at hrecv <;> cases hrecv

theorem Follows.message {x : α} {next' : Nat} (hrecv : b.recv next = .message x next') :
    b.Follows initial next' x := by
  unfold recv at hrecv
  split at hrecv
  · cases hrecv
  split at hrecv
  · rename_i y hat
    cases hrecv
    obtain ⟨hlt, hget⟩ := List.getElem?_eq_some_iff.mp hat
    refine ⟨hlt, fun hend => ?_⟩
    have hlast : b.sent.getLast? = some x := by
      rw [List.getLast?_eq_getElem?, ← hend, Nat.add_sub_cancel, hat]
    rw [last, hlast]
    rfl
  · cases hrecv

end

end Broadcast
