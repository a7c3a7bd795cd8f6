import TitanDns.Bpf.Filter
import TitanDns.Lib.Fifo
import TitanDns.Lib.LittleEndian
import TitanDns.Lib.Run

/-!
# The refresh ring buffer

The events that the kernel program leaves for userspace, and the loop that takes them out.

* `RefreshEvent.bytes`, `readEvent` — an item of the ring and how it is read; `readEvent_bytes` —
  **what the program submits is well formed and read back.**
* `pollRefreshEvents` — the function: an item is gone once `next` has returned it, and the limit is
  tested afterwards.
* `withinLimit`, `beyondLimit` — what one poll handles, and what waits behind it; `poll_eq` — **a
  poll delivers the one and loses the first item of the other.**
* `Delivered` — every well-formed event was delivered, once and in order, or still waits.
* `delivered_iff` — **exactly the runs keep it in which no poll finds another well-formed event
  behind the last it handles**; `eleventh_event_lost`.
* `delivered_all` — such a run that is polled to its end has delivered everything.
-/

namespace TitanDns.Bpf

open Run

/-! ## Items -/

/-- The native 64-bit word stored as the bytes. -/
def Endian.word64 (e : Endian) (bs : List UInt8) : UInt64 :=
  match e with
  | .little => UInt64.ofNat (leNat bs)
  | .big => UInt64.ofNat (leNat bs.reverse)

/-- The bytes a native 64-bit word is stored as. -/
def Endian.bytes64 (e : Endian) (w : UInt64) : List UInt8 :=
  match e with
  | .little => leBytes 8 w.toNat
  | .big => (leBytes 8 w.toNat).reverse

@[simp] theorem Endian.bytes64_length (e : Endian) (w : UInt64) : (e.bytes64 w).length = 8 := by
  cases e <;> simp [bytes64]

theorem Endian.word64_bytes64 (e : Endian) (w : UInt64) : e.word64 (e.bytes64 w) = w := by
  have hread : leNat (leBytes 8 w.toNat) = w.toNat := leNat_leBytes w.toNat_lt
  cases e with
  | little => rw [bytes64, word64, hread, UInt64.ofNat_toNat]
  | big =>
    rw [bytes64, word64]
    simp only [List.reverse_reverse]
    rw [hread, UInt64.ofNat_toNat]

/-- An item of the ring buffer. -/
abbrev Item := List UInt8

/-- The item that the program submits. -/
def RefreshEvent.bytes (e : Endian) (ev : RefreshEvent) : Item :=
  e.bytes64 ev.qhash ++ e.bytes64 ev.remainingNs

/-- `size_of::<RefreshEvent>()` -/
def REFRESH_EVENT_SIZE : Nat := 16

/-- The item is long enough to be read. -/
def wellFormed (item : Item) : Bool := decide (REFRESH_EVENT_SIZE ≤ item.length)

/-- `read_unaligned`: the `qhash` of an item. -/
def readEvent (e : Endian) (item : Item) : UInt64 := e.word64 (item.take 8)

/-- **What the program submits is well formed and read back.** -/
theorem readEvent_bytes (e : Endian) (ev : RefreshEvent) :
    wellFormed (ev.bytes e) = true ∧ readEvent e (ev.bytes e) = ev.qhash := by
  constructor
  · simp [wellFormed, RefreshEvent.bytes, REFRESH_EVENT_SIZE]
  · rw [readEvent, RefreshEvent.bytes, List.take_left' (e.bytes64_length ev.qhash),
      e.word64_bytes64]

/-! ## The poll -/

def MAX_EVENTS_PER_POLL : Nat := 10

/-- What a poll returns, the calls of the callback, and what is left in the ring. -/
structure Polled where
  count : Nat
  delivered : List UInt64
  left : List Item

/-- The loop: `next` has taken the item when the limit is tested. -/
def pollLoop (e : Endian) : Nat → List Item → Polled
  | count, [] => ⟨count, [], []⟩
  | count, item :: rest =>
    if MAX_EVENTS_PER_POLL ≤ count then ⟨count, [], rest⟩
    else if wellFormed item then
      let polled := pollLoop e (count + 1) rest
      { polled with delivered := readEvent e item :: polled.delivered }
    else pollLoop e count rest

/-- `poll_refresh_events` on a loaded filter. -/
def pollRefreshEvents (e : Endian) (ring : List Item) : Polled := pollLoop e 0 ring

/-- The items up to the `n`-th well-formed one. -/
def withinLimit : Nat → List Item → List Item
  | 0, _ => []
  | _ + 1, [] => []
  | n + 1, item :: rest =>
    item :: if wellFormed item then withinLimit n rest else withinLimit (n + 1) rest

/-- The items behind it. -/
def beyondLimit : Nat → List Item → List Item
  | 0, items => items
  | _ + 1, [] => []
  | n + 1, item :: rest => if wellFormed item then beyondLimit n rest else beyondLimit (n + 1) rest

theorem within_append_beyond (n : Nat) (items : List Item) :
    withinLimit n items ++ beyondLimit n items = items := by
  induction items generalizing n with
  | nil => cases n <;> rfl
  | cons item rest ih =>
    cases n with
    | zero => rfl
    | succ n =>
      unfold withinLimit beyondLimit
      cases wellFormed item with
      | true => exact congrArg _ (ih n)
      | false => exact congrArg _ (ih (n + 1))

/-- The well-formed events among some items. -/
def events (e : Endian) (items : List Item) : List UInt64 :=
  (items.filter wellFormed).map (readEvent e)

theorem events_append (e : Endian) (items items' : List Item) :
    events e (items ++ items') = events e items ++ events e items' := by
  simp [events]

theorem events_cons (e : Endian) (item : Item) (items : List Item) :
    events e (item :: items) =
      if wellFormed item then readEvent e item :: events e items else events e items := by
  unfold events
  rw [List.filter_cons]
  split <;> rfl

theorem pollLoop_eq (e : Endian) {count n : Nat} (hn : count + n = MAX_EVENTS_PER_POLL)
    (items : List Item) :
    (pollLoop e count items).delivered = events e (withinLimit n items) ∧
      (pollLoop e count items).left = (beyondLimit n items).drop 1 := by
  induction items generalizing count n with
  | nil => cases n <;> exact ⟨rfl, rfl⟩
  | cons item rest ih =>
    unfold pollLoop
    cases n with
    | zero =>
      rw [if_pos (by omega)]
      exact ⟨rfl, rfl⟩
    | succ n =>
      rw [if_neg (by omega), withinLimit, beyondLimit, events_cons]
      cases wellFormed item with
      | true =>
        obtain ⟨hdelivered, hleft⟩ := @ih (count + 1) n (by omega)
        exact ⟨congrArg _ hdelivered, hleft⟩
      | false => exact ih hn

/-- **A poll delivers the events within its limit and loses the first item beyond.** -/
theorem poll_eq (e : Endian) (ring : List Item) :
    (pollRefreshEvents e ring).delivered = events e (withinLimit MAX_EVENTS_PER_POLL ring) ∧
      (pollRefreshEvents e ring).left = (beyondLimit MAX_EVENTS_PER_POLL ring).drop 1 :=
  pollLoop_eq e (Nat.zero_add _) ring

/-! ## Runs -/

/-- The ring, what was put into it, and the calls of the callback so far. -/
structure Ring where
  waiting : List Item
  added : List Item
  delivered : List UInt64

def Ring.empty : Ring := ⟨[], [], []⟩

inductive RingEvent where
  | add (item : Item)
  | poll

namespace Ring

variable (e : Endian)

def step (s : Ring) : RingEvent → Ring
  | .add item => { s with waiting := s.waiting ++ [item], added := s.added ++ [item] }
  | .poll =>
    let polled := pollRefreshEvents e s.waiting
    { s with waiting := polled.left, delivered := s.delivered ++ polled.delivered }

/-- The account of the well-formed events. -/
def account (s : Ring) : Account UInt64 := ⟨events e s.added, s.delivered, events e s.waiting⟩

/-- Every well-formed event was delivered, once and in order, or still waits. -/
def Delivered (s : Ring) : Prop := (s.account e).Balanced

instance (s : Ring) : Decidable (s.Delivered e) := inferInstanceAs (Decidable (_ = _))

/-- No well-formed event stands right behind the last one that a poll handles. -/
def Fits (s : Ring) : RingEvent → Prop
  | .add _ => True
  | .poll => ∀ item ∈ (beyondLimit MAX_EVENTS_PER_POLL s.waiting).head?, wellFormed item = false

variable {e} {s : Ring}

theorem step_add (item : Item) :
    (s.step e (.add item)).account e =
      (s.account e).move (events e [item]) [] ((s.account e).waiting ++ events e [item]) := by
  simp [step, account, Account.move, events_append]

theorem step_poll :
    (s.step e .poll).account e =
      (s.account e).move [] (events e (withinLimit MAX_EVENTS_PER_POLL s.waiting))
        (events e ((beyondLimit MAX_EVENTS_PER_POLL s.waiting).drop 1)) := by
  obtain ⟨hdelivered, hleft⟩ := poll_eq e s.waiting
  simp [step, account, Account.move, hdelivered, hleft]

/-- Taking an item away loses no event exactly when it is not one. -/
theorem events_drop_iff (items : List Item) :
    events e (items.drop 1) = events e items ↔ ∀ item ∈ items.head?, wellFormed item = false := by
  cases items with
  | nil => simp
  | cons item rest =>
    rw [events_cons]
    simp only [List.drop_succ_cons, List.drop_zero, List.head?_cons, Option.mem_some_iff]
    cases hwell : wellFormed item with
    | true =>
      have hlonger : events e rest ≠ readEvent e item :: events e rest := fun h => by
        have := congrArg List.length h
        simp at this
      simp [hlonger, hwell]
    | false => simp [hwell]

/-- **A step keeps every event accounted for exactly when it fits.** -/
theorem step_delivered_iff (h : s.Delivered e) (ev : RingEvent) :
    (s.step e ev).Delivered e ↔ s.Fits ev := by
  unfold Delivered at *
  cases ev with
  | add item =>
    rw [step_add]
    exact ⟨fun _ => trivial, fun _ => h.enter _⟩
  | poll =>
    have hsplit : events e (withinLimit MAX_EVENTS_PER_POLL s.waiting) ++
        events e (beyondLimit MAX_EVENTS_PER_POLL s.waiting) = events e s.waiting := by
      rw [← events_append, within_append_beyond]
    rw [step_poll, h.move_iff, List.append_nil]
    show _ = events e s.waiting ↔ _
    rw [← hsplit, List.append_right_inj]
    exact events_drop_iff _

end Ring

/-- **Events are delivered exactly in the runs whose polls all fit.** -/
theorem delivered_iff (e : Endian) (es : List RingEvent) :
    Always (Ring.step e) (Ring.Delivered e) .empty es ↔
      Meets (Ring.step e) Ring.Fits .empty es := by
  have hinit : Ring.empty.Delivered e := Account.empty_balanced
  have hstep : ∀ (s : Ring) ev, s.Delivered e → ((s.step e ev).Delivered e ↔ s.Fits ev) :=
    fun _ ev h => Ring.step_delivered_iff h ev
  exact always_iff hstep hinit es

/-- Of eleven events the last is taken and not delivered. -/
theorem eleventh_event_lost :
    ¬ ∀ e es, Always (Ring.step e) (Ring.Delivered e) .empty es := by
  intro h
  have hlast := (h .little (List.replicate 11 (.add (List.replicate 16 0)) ++ [.poll])).last
  revert hlast
  decide

/-! ## Polling to the end -/

theorem beyondLimit_length (n : Nat) (items : List Item) :
    (beyondLimit n items).length ≤ items.length := by
  have := congrArg List.length (within_append_beyond n items)
  rw [List.length_append] at this
  omega

/-- A poll takes at least one item. -/
theorem poll_shortens (e : Endian) (s : Ring) :
    (s.step e .poll).waiting.length ≤ s.waiting.length - 1 := by
  have hbeyond := beyondLimit_length MAX_EVENTS_PER_POLL s.waiting
  show (pollRefreshEvents e s.waiting).left.length ≤ _
  rw [(poll_eq e s.waiting).2, List.length_drop]
  omega

/-- **Polled often enough the ring runs empty.** -/
theorem polls_drain (e : Endian) {n : Nat} {s : Ring} (h : s.waiting.length ≤ n) :
    (run (Ring.step e) s (List.replicate n .poll)).waiting = [] := by
  induction n generalizing s with
  | zero => exact List.length_eq_zero_iff.mp (Nat.le_zero.mp h)
  | succ n ih =>
    have hshorter := poll_shortens e s
    rw [List.replicate_succ, run_cons]
    exact ih (by omega)

/-- **A run whose polls fit, polled to its end, has delivered every event.** -/
theorem delivered_all (e : Endian) {es : List RingEvent} {n : Nat}
    (hn : (run (Ring.step e) .empty es).waiting.length ≤ n)
    (hfits : Meets (Ring.step e) Ring.Fits .empty (es ++ List.replicate n .poll)) :
    (run (Ring.step e) .empty (es ++ List.replicate n .poll)).delivered =
      events e (run (Ring.step e) .empty (es ++ List.replicate n .poll)).added := by
  have hbalanced := ((delivered_iff e _).mpr hfits).last
  have hempty : (run (Ring.step e) .empty (es ++ List.replicate n .poll)).waiting = [] := by
    rw [run_append]
    exact polls_drain e hn
  unfold Ring.Delivered Ring.account Account.Balanced at hbalanced
  rw [hempty] at hbalanced
  simpa [events] using hbalanced

end TitanDns.Bpf
