import TitanDns.Lib.LittleEndian
import Mathlib.Data.List.Infix

/-!
# Messages on a byte stream

Each message goes behind its length in two octets, most significant first.

* `frame` — a message as it is written; `missing` — how many bytes a reader asks for next: first
  those of the length, then those of the message.
* `missing_eq_zero` — **a reader in the middle of a message stops exactly at its end**;
  `frame_prefix` — no message begins with another.
* `takeFrame` — the first message of a stream; `takeFrame_partial`, `takeFrame_frame`.
* `messages` — all complete messages a stream begins with; `messages_frames` — **what was written
  one behind the other is read back**, `messages_prefix` — more bytes only add messages.
-/

namespace Framing

/-- A message behind its length. -/
def frame (bs : List UInt8) : List UInt8 := (leBytes 2 bs.length).reverse ++ bs

/-- The length that stands in front. -/
def frameLength (bs : List UInt8) : Nat := leNat (bs.take 2).reverse

/-- How many bytes a reader that has read `got` asks for. -/
def missing (got : List UInt8) : Nat :=
  if got.length < 2 then 2 - got.length else 2 + frameLength got - got.length

/-- The first message, once it is there as a whole, and what follows it. -/
def takeFrame (bs : List UInt8) : Option (List UInt8 × List UInt8) :=
  if missing bs = 0 then
    some ((bs.drop 2).take (frameLength bs), bs.drop (2 + frameLength bs))
  else none

@[simp] theorem frame_length (bs : List UInt8) : (frame bs).length = 2 + bs.length := by
  simp [frame]

variable {bs got rest : List UInt8}

/-- The length is read off any part that has it. -/
theorem frameLength_part (hlen : bs.length < 65536) (h : got ++ rest = frame bs)
    (htwo : 2 ≤ got.length) : frameLength got = bs.length := by
  have htake : got.take 2 = (leBytes 2 bs.length).reverse := by
    have hall : (got ++ rest).take 2 = (leBytes 2 bs.length).reverse := by
      rw [h, frame]
      exact List.take_left' (by simp)
    rw [List.take_append_of_le_length htwo] at hall
    exact hall
  rw [frameLength, htake, List.reverse_reverse]
  apply leNat_leBytes
  omega

theorem part_length (h : got ++ rest = frame bs) : got.length + rest.length = 2 + bs.length := by
  have hlen := congrArg List.length h
  simpa using hlen

/-- **A reader in the middle of a message stops exactly at its end.** -/
theorem missing_eq_zero (hlen : bs.length < 65536) (h : got ++ rest = frame bs) :
    missing got = 0 ↔ rest = [] := by
  have hsum := part_length h
  rw [← List.length_eq_zero_iff]
  unfold missing
  split
  · omega
  · rename_i htwo
    rw [frameLength_part hlen h (by omega)]
    omega

/-- At the end, what was read behind the length is the message. -/
theorem drop_frame (bs : List UInt8) : (frame bs).drop 2 = bs := List.drop_left' (by simp)

/-- No message begins with another. -/
theorem frame_prefix {bs' : List UInt8} (hlen : bs.length < 65536) (hlen' : bs'.length < 65536)
    (h : frame bs ++ rest = frame bs') : bs = bs' ∧ rest = [] := by
  have hzero : missing (frame bs) = 0 := (missing_eq_zero hlen (List.append_nil _)).mpr rfl
  have hrest : rest = [] := (missing_eq_zero hlen' h).mp hzero
  refine ⟨?_, hrest⟩
  rw [hrest, List.append_nil] at h
  have hdrop := congrArg (List.drop 2) h
  rw [drop_frame, drop_frame] at hdrop
  exact hdrop

theorem takeFrame_partial (hlen : bs.length < 65536) (h : got ++ rest = frame bs)
    (hrest : rest ≠ []) : takeFrame got = none := by
  unfold takeFrame
  rw [if_neg]
  intro hzero
  exact hrest ((missing_eq_zero hlen h).mp hzero)

theorem takeFrame_frame (hlen : bs.length < 65536) : takeFrame (frame bs) = some (bs, []) := by
  have hwhole : frame bs ++ [] = frame bs := List.append_nil _
  have hfl : frameLength (frame bs) = bs.length := frameLength_part hlen hwhole (by simp)
  unfold takeFrame
  rw [if_pos ((missing_eq_zero hlen hwhole).mpr rfl), hfl, drop_frame, List.take_length]
  simp

theorem takeFrame_nil : takeFrame [] = none := rfl

/-! ## Streams of messages -/

variable {m : List UInt8} {ms : List (List UInt8)}

/-- What follows a message does not change the length in front of it. -/
theorem frameLength_append (hlen : m.length < 65536) (rest : List UInt8) :
    frameLength (frame m ++ rest) = m.length := by
  rw [frameLength, frame, List.append_assoc, List.take_left' (by simp), List.reverse_reverse]
  exact leNat_leBytes hlen

theorem takeFrame_append (hlen : m.length < 65536) (rest : List UInt8) :
    takeFrame (frame m ++ rest) = some (m, rest) := by
  have hfl := frameLength_append hlen rest
  have hmissing : missing (frame m ++ rest) = 0 := by
    simp only [missing, hfl, List.length_append, frame_length]
    split <;> omega
  have hhead : (frame m ++ rest).drop 2 = m ++ rest := by
    simp [frame]
  have htail : (frame m ++ rest).drop (2 + m.length) = rest := List.drop_left' (by simp)
  simp [takeFrame, hmissing, hfl, hhead, htail]

/-- A message that was taken stood in front of the rest. -/
theorem takeFrame_some (h : takeFrame bs = some (m, rest)) :
    bs = frame m ++ rest ∧ m.length < 65536 := by
  unfold takeFrame at h
  split at h
  · rename_i hzero
    cases h
    have hlen : 2 + frameLength bs ≤ bs.length := by
      unfold missing at hzero
      split at hzero <;> omega
    have hm : ((bs.drop 2).take (frameLength bs)).length = frameLength bs := by
      simp; omega
    have htwo : (bs.take 2).reverse.length = 2 := by simp; omega
    have hfront : (leBytes 2 (frameLength bs)).reverse = bs.take 2 := by
      have hback := leBytes_leNat (bs.take 2).reverse
      rw [htwo] at hback
      rw [frameLength, hback, List.reverse_reverse]
    have hlt : frameLength bs < 65536 := by
      have hnat := leNat_lt (bs.take 2).reverse
      rw [htwo] at hnat
      exact hnat
    refine ⟨?_, by omega⟩
    rw [frame, hm, hfront, ← List.drop_drop, List.append_assoc, List.take_append_drop,
      List.take_append_drop]
  · cases h

theorem takeFrame_shrinks (h : takeFrame bs = some (m, rest)) : rest.length < bs.length := by
  obtain ⟨rfl, -⟩ := takeFrame_some h
  simp only [List.length_append, frame_length]
  omega

/-- The complete messages a stream begins with, and what follows them. -/
def messages (bs : List UInt8) : List (List UInt8) × List UInt8 :=
  match _htake : takeFrame bs with
  | none => ([], bs)
  | some (m, rest) => (m :: (messages rest).1, (messages rest).2)
termination_by bs.length
decreasing_by all_goals exact takeFrame_shrinks _htake

theorem messages_none (h : takeFrame bs = none) : messages bs = ([], bs) := by
  rw [messages]
  split
  · rfl
  · simp_all

theorem messages_append (hlen : m.length < 65536) (rest : List UInt8) :
    messages (frame m ++ rest) = (m :: (messages rest).1, (messages rest).2) := by
  have htake := takeFrame_append hlen rest
  rw [messages]
  split
  · simp_all
  · simp_all

/-- **What was written one behind the other is read back**, and then what follows. -/
theorem messages_frames (hms : ∀ m ∈ ms, m.length < 65536) (rest : List UInt8) :
    messages (ms.flatMap frame ++ rest) = (ms ++ (messages rest).1, (messages rest).2) := by
  induction ms with
  | nil => simp
  | cons m ms ih =>
    have hm : m.length < 65536 := hms m (by simp)
    rw [List.flatMap_cons, List.append_assoc, messages_append hm,
      ih fun m' hm' => hms m' (by simp [hm'])]
    simp

/-- A stream is its messages and what follows them, and no further message is in there. -/
theorem messages_spec (bs : List UInt8) :
    bs = (messages bs).1.flatMap frame ++ (messages bs).2 ∧
      (∀ m ∈ (messages bs).1, m.length < 65536) ∧ takeFrame (messages bs).2 = none := by
  induction bs using messages.induct with
  | case1 bs h => simp [messages_none h, h]
  | case2 bs m rest h ih =>
    obtain ⟨rfl, hlen⟩ := takeFrame_some h
    obtain ⟨heq, hall, hnone⟩ := ih
    rw [messages_append hlen]
    refine ⟨?_, ?_, hnone⟩
    · rw [List.flatMap_cons, List.append_assoc, ← heq]
    · simpa using ⟨hlen, hall⟩

/-- More bytes only add messages. -/
theorem messages_prefix {cs : List UInt8} (h : bs <+: cs) :
    (messages bs).1 <+: (messages cs).1 := by
  obtain ⟨more, rfl⟩ := h
  obtain ⟨heq, hall, -⟩ := messages_spec bs
  have hmore : messages (bs ++ more) = ((messages bs).1 ++ (messages ((messages bs).2 ++ more)).1,
      (messages ((messages bs).2 ++ more)).2) := by
    conv_lhs => rw [heq, List.append_assoc]
    exact messages_frames hall _
  rw [hmore]
  exact List.prefix_append _ _

/-- **Read back exactly when no message is too long for its length.** -/
theorem messages_flatMap_iff :
    messages (ms.flatMap frame) = (ms, []) ↔ ∀ m ∈ ms, m.length < 65536 := by
  constructor
  · intro h
    have hall := (messages_spec (ms.flatMap frame)).2.1
    rw [h] at hall
    exact hall
  · intro hms
    have h := messages_frames hms []
    simpa [messages_none takeFrame_nil] using h

end Framing
