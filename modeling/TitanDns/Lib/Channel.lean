import Mathlib.Tactic.TypeStar

/-!
# Bounded channels

A channel holds at most `capacity` messages in order; either end may be gone.

* `Channel.trySend` — sends or fails at once; `send`, the sender that waits, is `trySend` taken when
  it succeeds.
* `Channel.blockingSend` — sends from a thread of its own; inside an asynchronous task it panics.
* `Channel.recv` — a message, nothing yet, or the end.
* `Silent` — **nothing can be received now, and no end has been announced.**
-/

/-- A channel; `senders` and `receiver` tell whether the ends are still held. -/
structure Channel (α : Type*) where
  capacity : Nat
  buffer : List α
  senders : Bool
  receiver : Bool
  deriving Repr

namespace Channel

variable {α : Type*}

def new (capacity : Nat) : Channel α := ⟨capacity, [], true, true⟩

inductive SendResult (α : Type*) where
  | sent (c : Channel α)
  | full
  | closed
  /-- The call panics. -/
  | panicked

inductive RecvResult (α : Type*) where
  | message (x : α) (c : Channel α)
  | empty
  | closed

def trySend (c : Channel α) (x : α) : SendResult α :=
  if c.receiver = false then .closed
  else if c.buffer.length < c.capacity then .sent { c with buffer := c.buffer ++ [x] }
  else .full

/-- A caller inside an asynchronous task must not block its thread. -/
def blockingSend (c : Channel α) (x : α) (insideTask : Bool) : SendResult α :=
  if insideTask then .panicked else c.trySend x

/-- What was sent can still be received when the senders are gone. -/
def recv (c : Channel α) : RecvResult α :=
  match c.buffer with
  | x :: rest => .message x { c with buffer := rest }
  | [] => if c.senders then .empty else .closed

/-- Nothing to receive, and no end announced. -/
def Silent (c : Channel α) : Prop := c.buffer = [] ∧ c.senders = true

theorem Silent.recv {c : Channel α} (h : c.Silent) : c.recv = .empty := by
  simp [Channel.recv, h.1, h.2]

theorem silent_new (capacity : Nat) : (new capacity : Channel α).Silent := ⟨rfl, rfl⟩

theorem trySend_sent {c d : Channel α} {x : α} (h : c.trySend x = .sent d) :
    d = { c with buffer := c.buffer ++ [x] } := by
  unfold trySend at h
  split at h
  · cases h
  split at h
  · cases h
    rfl
  · cases h

/-- A message was sent: there was room for it, and someone to receive it. -/
theorem trySend_room {c d : Channel α} {x : α} (h : c.trySend x = .sent d) :
    c.buffer.length < c.capacity ∧ c.receiver = true := by
  unfold trySend at h
  split at h
  · cases h
  · rename_i hopen
    split at h
    · rename_i hroom
      exact ⟨hroom, by simpa using hopen⟩
    · cases h

theorem trySend_closed {c : Channel α} {x : α} (h : c.trySend x = .closed) :
    c.receiver = false := by
  unfold trySend at h
  split at h
  · assumption
  · split at h <;> cases h

theorem recv_message {c d : Channel α} {x : α} (h : c.recv = .message x d) :
    c.buffer = x :: d.buffer ∧ d = { c with buffer := d.buffer } := by
  unfold recv at h
  split at h
  · rename_i heq
    cases h
    exact ⟨heq, rfl⟩
  · split at h <;> cases h

theorem trySend_full {c : Channel α} {x : α} (h : c.trySend x = .full) :
    c.capacity ≤ c.buffer.length := by
  unfold trySend at h
  split at h
  · cases h
  · split at h
    · cases h
    · rename_i hfull
      exact Nat.le_of_not_lt hfull

theorem trySend_ne_panicked (c : Channel α) (x : α) : c.trySend x ≠ .panicked := by
  unfold trySend
  split
  · simp
  · split <;> simp

theorem recv_closed {c : Channel α} (h : c.recv = .closed) : c.buffer = [] := by
  unfold recv at h
  split at h
  · cases h
  · assumption

theorem recv_empty {c : Channel α} (h : c.recv = .empty) : c.buffer = [] := by
  unfold recv at h
  split at h
  · cases h
  · assumption

end Channel
