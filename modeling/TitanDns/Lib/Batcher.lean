import TitanDns.Lib.Fifo
import Mathlib.Logic.Function.Iterate

/-!
# A task that settles in batches

Items wait in a bounded queue.  A task moves them into a buffer, and settles what is in the buffer
when it is full or at a tick; while it settles it moves nothing.

* `offer` — an item enters the queue, if there is room; `advance` — one step of the task; `tick`.
* `offer_waiting`, `advance_waiting`, `tick_waiting` — **items are settled in the order they enter,
  and none is lost.**
* `Sound` — the invariant: both lists keep to their bounds.
* `drained` — **enough steps, a tick and enough steps settle everything.**
-/

/-- What waits: in the queue, and in the buffer of the task. -/
structure Batcher (α : Type*) where
  queue : List α
  buffer : List α
  draining : Bool

namespace Batcher

variable {α : Type*}

def empty : Batcher α := ⟨[], [], false⟩

def waiting (b : Batcher α) : List α := b.buffer ++ b.queue

def offer (capacity : Nat) (b : Batcher α) (x : α) : Option (Batcher α) :=
  if b.queue.length < capacity then some { b with queue := b.queue ++ [x] } else none

/-- One step of the task: an item of the buffer is settled, or one comes into it. -/
def advance (full : Nat) (b : Batcher α) : Option α × Batcher α :=
  if b.draining then
    match b.buffer with
    | x :: rest => (some x, { b with buffer := rest, draining := !rest.isEmpty })
    | [] => (none, { b with draining := false })
  else
    match b.queue with
    | x :: rest =>
      (none, ⟨rest, b.buffer ++ [x], decide (full ≤ (b.buffer ++ [x]).length)⟩)
    | [] => (none, b)

def tick (b : Batcher α) : Batcher α :=
  if b.draining then b else { b with draining := !b.buffer.isEmpty }

@[simp] theorem waiting_empty : (empty : Batcher α).waiting = [] := rfl

theorem offer_waiting {capacity : Nat} {b b' : Batcher α} {x : α}
    (h : b.offer capacity x = some b') : b'.waiting = b.waiting ++ [x] := by
  unfold offer at h
  split at h
  · cases h
    simp [waiting]
  · cases h

/-- What a step can do. -/
theorem advance_cases (full : Nat) (b : Batcher α) :
    (∃ x rest, b.draining = true ∧ b.buffer = x :: rest ∧
        b.advance full = (some x, { b with buffer := rest, draining := !rest.isEmpty })) ∨
      (b.draining = true ∧ b.buffer = [] ∧ b.advance full = (none, { b with draining := false })) ∨
      (∃ x rest, b.draining = false ∧ b.queue = x :: rest ∧
        b.advance full =
          (none, ⟨rest, b.buffer ++ [x], decide (full ≤ (b.buffer ++ [x]).length)⟩)) ∨
      (b.draining = false ∧ b.queue = [] ∧ b.advance full = (none, b)) := by
  unfold advance
  cases hdraining : b.draining with
  | true =>
    cases hbuffer : b.buffer with
    | nil => simp
    | cons x rest => exact .inl ⟨x, rest, by simp⟩
  | false =>
    cases hqueue : b.queue with
    | nil => simp
    | cons x rest => exact .inr (.inr (.inl ⟨x, rest, by simp⟩))

/-- **Items are settled in order.** -/
theorem advance_waiting (full : Nat) (b : Batcher α) :
    (b.advance full).1.toList ++ (b.advance full).2.waiting = b.waiting := by
  rcases advance_cases full b with ⟨x, rest, -, hbuffer, h⟩ | ⟨-, hbuffer, h⟩ |
    ⟨x, rest, -, hqueue, h⟩ | ⟨-, -, h⟩
  · simp [h, waiting, hbuffer]
  · simp [h, waiting]
  · simp [h, waiting, hqueue]
  · simp [h]

theorem tick_waiting (b : Batcher α) : b.tick.waiting = b.waiting := by
  unfold tick
  split <;> rfl

/-! ## Bounds -/

/-- The queue keeps to its capacity; the buffer is full at most while it is settled. -/
structure Sound (capacity full : Nat) (b : Batcher α) : Prop where
  queue : b.queue.length ≤ capacity
  buffer : b.buffer.length ≤ full
  idle : b.draining = false → b.buffer.length < full
  draining : b.draining = true → b.buffer ≠ []

section Bounds

variable {capacity full : Nat} {b b' : Batcher α}

theorem sound_empty (hfull : 0 < full) : Sound capacity full (empty : Batcher α) :=
  ⟨by simp [empty], by simp [empty], by simpa [empty] using hfull, by simp [empty]⟩

theorem Sound.offer {x : α} (h : Sound capacity full b) (hoffer : b.offer capacity x = some b') :
    Sound capacity full b' := by
  unfold Batcher.offer at hoffer
  split at hoffer
  · rename_i hroom
    cases hoffer
    refine ⟨?_, h.buffer, h.idle, h.draining⟩
    simp only [List.length_append, List.length_singleton]
    omega
  · cases hoffer

theorem Sound.advance (h : Sound capacity full b) : Sound capacity full (b.advance full).2 := by
  have hqueue := h.queue
  have hbuffer := h.buffer
  rcases advance_cases full b with ⟨x, rest, -, hcons, hstep⟩ | ⟨hdraining, hnil, -⟩ |
    ⟨x, rest, hidle, hcons, hstep⟩ | ⟨-, -, hstep⟩
  · rw [hstep]
    rw [hcons, List.length_cons] at hbuffer
    refine ⟨hqueue, ?_, fun _ => ?_, fun hrest => ?_⟩
    · simp only
      omega
    · simp only
      omega
    · simpa using hrest
  · exact absurd hnil (h.draining hdraining)
  · rw [hstep]
    have hroom := h.idle hidle
    rw [hcons, List.length_cons] at hqueue
    refine ⟨?_, ?_, fun hnot => ?_, by simp⟩
    · simp only
      omega
    · simp only [List.length_append, List.length_singleton]
      omega
    · simpa using hnot
  · rw [hstep]
    exact h

theorem Sound.tick (h : Sound capacity full b) : Sound capacity full b.tick := by
  unfold Batcher.tick
  split
  · exact h
  · rename_i hidle
    exact ⟨h.queue, h.buffer, fun _ => h.idle (by simpa using hidle), by simp⟩

/-! ## Progress -/

/-- The task, `n` steps later. -/
def advances (full n : Nat) (b : Batcher α) : Batcher α := (fun b => (b.advance full).2)^[n] b

theorem advances_succ (n : Nat) (b : Batcher α) :
    b.advances full (n + 1) = ((b.advance full).2).advances full n := rfl

theorem Sound.advances (h : Sound capacity full b) (n : Nat) :
    Sound capacity full (b.advances full n) := by
  induction n generalizing b with
  | zero => exact h
  | succ n ih => exact ih h.advance

/-- Each item has to come into the buffer and to be settled. -/
def work (b : Batcher α) : Nat := 2 * b.queue.length + b.buffer.length

/-- The queue is empty, and nothing is settled. -/
def Idle (b : Batcher α) : Prop := b.queue = [] ∧ b.draining = false

theorem Idle.advance (h : b.Idle) : (b.advance full).2 = b := by
  simp [Batcher.advance, h.1, h.2]

theorem Sound.work_advance (h : Sound capacity full b) (hbusy : ¬ b.Idle) :
    (b.advance full).2.work + 1 = b.work := by
  rcases advance_cases full b with ⟨x, rest, -, hcons, hstep⟩ | ⟨hdraining, hnil, -⟩ |
    ⟨x, rest, -, hcons, hstep⟩ | ⟨hidle, hnil, -⟩
  · simp only [hstep, work, hcons, List.length_cons]
    omega
  · exact absurd hnil (h.draining hdraining)
  · simp only [hstep, work, hcons, List.length_cons, List.length_append, List.length_nil]
    omega
  · exact absurd ⟨hnil, hidle⟩ hbusy

theorem Idle.advances (h : b.Idle) (n : Nat) : b.advances full n = b := by
  induction n with
  | zero => rfl
  | succ n ih => rw [advances_succ, h.advance, ih]

/-- Enough steps leave the queue empty. -/
theorem Sound.idle_advances (h : Sound capacity full b) {n : Nat} (hn : b.work ≤ n) :
    (b.advances full n).Idle := by
  induction n generalizing b with
  | zero =>
    by_contra hbusy
    have hstep := h.work_advance hbusy
    omega
  | succ n ih =>
    by_cases hidle : b.Idle
    · rw [hidle.advances]
      exact hidle
    · have hstep := h.work_advance hidle
      have hless : (b.advance full).2.work ≤ n := by omega
      exact ih h.advance hless

/-- Then what is in the buffer is settled, once that has begun. -/
theorem clear_advances (hqueue : b.queue = []) (hbegun : b.draining = true ∨ b.buffer = [])
    {n : Nat} (hn : b.buffer.length ≤ n) : (b.advances full n).waiting = [] := by
  induction n generalizing b with
  | zero =>
    have hbuffer : b.buffer = [] := List.eq_nil_of_length_eq_zero (by omega)
    simp [advances, waiting, hqueue, hbuffer]
  | succ n ih =>
    rw [advances_succ]
    rcases advance_cases full b with ⟨x, rest, -, hcons, hstep⟩ | ⟨-, hnil, hstep⟩ |
      ⟨x, rest, -, hcons, -⟩ | ⟨hidle, -, hstep⟩
    · rw [hcons, List.length_cons] at hn
      rw [hstep]
      apply ih
      · exact hqueue
      · cases rest <;> simp
      · simp only
        omega
    · rw [hstep]
      apply ih
      · exact hqueue
      · exact .inr hnil
      · simp [hnil]
    · rw [hqueue] at hcons
      cases hcons
    · have hnil : b.buffer = [] := by simpa [hidle] using hbegun
      rw [hstep]
      apply ih
      · exact hqueue
      · exact hbegun
      · simp [hnil]

/-- **Enough steps, a tick and enough steps settle everything.** -/
theorem Sound.drained (h : Sound capacity full b) {n m : Nat} (hn : 2 * capacity + full ≤ n)
    (hm : full ≤ m) : ((b.advances full n).tick.advances full m).waiting = [] := by
  have hqueue := h.queue
  have hbuffer := h.buffer
  have hwork : b.work ≤ n := by
    unfold work
    omega
  obtain ⟨hempty, hidle⟩ := h.idle_advances hwork
  have hfew := (h.advances n).tick.buffer
  refine clear_advances ?_ ?_ (Nat.le_trans hfew hm)
  · simp [Batcher.tick, hidle, hempty]
  · cases hrest : (b.advances full n).buffer <;> simp [Batcher.tick, hidle, hrest]

end Bounds

end Batcher
