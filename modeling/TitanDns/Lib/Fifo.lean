import Mathlib.Data.List.Basic

/-!
# What a queue owes

Items enter a queue at one end and are settled at the other.  Beside the queue stands the account of
what entered and what was settled.

* `Account.Balanced` — **what entered was settled, in order, or still waits.**
* `Account.move` — some items enter, some are settled, some wait afterwards; `Balanced.move_iff` —
  **that keeps the balance exactly when nothing is lost, doubled or out of turn.**
-/

/-- What entered a queue, what was settled of it, and what waits. -/
structure Account (α : Type*) where
  entered : List α
  settled : List α
  waiting : List α

namespace Account

variable {α : Type*}

def empty : Account α := ⟨[], [], []⟩

/-- Every item that entered was settled, in the order of entry, or still waits. -/
def Balanced (a : Account α) : Prop := a.settled ++ a.waiting = a.entered

/-- `came` enters, `went` is settled, and then `left` waits. -/
def move (a : Account α) (came went left : List α) : Account α :=
  ⟨a.entered ++ came, a.settled ++ went, left⟩

theorem empty_balanced : (empty : Account α).Balanced := rfl

theorem Balanced.move_iff {a : Account α} (h : a.Balanced) (came went left : List α) :
    (a.move came went left).Balanced ↔ went ++ left = a.waiting ++ came := by
  unfold Balanced move at *
  simp only
  rw [← h, List.append_assoc, List.append_assoc, List.append_right_inj]

/-- Items only enter. -/
theorem Balanced.enter {a : Account α} (h : a.Balanced) (came : List α) :
    (a.move came [] (a.waiting ++ came)).Balanced := (h.move_iff came [] _).mpr rfl

/-- Settling from the front and leaving `left` accounts for everything exactly when `left` is the
rest. -/
theorem Balanced.settle_iff {a : Account α} (h : a.Balanced) (k : Nat) (left : List α) :
    (a.move [] (a.waiting.take k) left).Balanced ↔ left = a.waiting.drop k := by
  rw [h.move_iff, List.append_nil]
  have hsplit : a.waiting.take k ++ a.waiting.drop k = a.waiting :=
    List.take_append_drop k a.waiting
  constructor
  · intro heq
    exact List.append_cancel_left (heq.trans hsplit.symm)
  · rintro rfl
    exact hsplit

end Account
