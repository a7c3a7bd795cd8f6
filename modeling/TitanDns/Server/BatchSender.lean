import TitanDns.Lib.Fifo
import TitanDns.Lib.Run
import TitanDns.Plugins.UdpExchange

/-!
# `BatchSender`

The queue of responses that the Linux server sends with one `sendmmsg` call.

* `push`, `flush` — the functions; `hdrs_eq` — **the headers that `flush` links by index are the
  queue, packet by packet.**
* `Sending` — a sender with what was pushed and what became of it; `Conserved` — every packet was
  handed to the kernel or belongs to a flush that reported an error, in the order of the pushes, or
  is still queued.
* `conserved_iff` — **exactly the runs keep it in which every send that does not fail takes the
  whole batch**; `partial_send_loses` — one that does not.
* `UdpLoop` — the sender as `run_udp_linux` drives it, with its flush timer: `udpLoop_sends` — **its
  run is a run of the sender**, and `udpLoop_timed` — **no packet waits without the timer set.**
-/

namespace TitanDns

open Run

/-- A response and where it goes. -/
abbrev Packet := List UInt8 × SocketAddr

structure BatchSender where
  queue : List Packet
  maxBatch : Nat

/-- What `sendmmsg` returns: how many packets it sent, or an error. -/
abbrev SendResult := Except Int Nat

namespace BatchSender

def new (maxBatch : Nat) : BatchSender := ⟨[], maxBatch⟩

/-- `push`; the result is whether the batch is full. -/
def push (b : BatchSender) (data : List UInt8) (addr : SocketAddr) : BatchSender × Bool :=
  let queue := b.queue ++ [(data, addr)]
  ({ b with queue := queue }, decide (b.maxBatch ≤ queue.length))

def isEmpty (b : BatchSender) : Bool := b.queue.isEmpty

/-- The first loop of `flush`: the addresses, in an array of their own. -/
def sockaddrs (b : BatchSender) : List SocketAddr := b.queue.map (·.2)

/-- The data of the packets, in another. -/
def iovecs (b : BatchSender) : List (List UInt8) := b.queue.map (·.1)

/-- The headers: the second loop links the arrays by index. -/
def hdrs (b : BatchSender) : List Packet :=
  List.ofFn fun i : Fin b.queue.length =>
    (b.iovecs.get ⟨i, by simp [iovecs]⟩, b.sockaddrs.get ⟨i, by simp [sockaddrs]⟩)

/-- **The arrays stay in step.** -/
theorem hdrs_eq (b : BatchSender) : b.hdrs = b.queue := by
  refine List.ext_getElem (by simp [hdrs]) fun i hi hi' => ?_
  simp [hdrs, iovecs, sockaddrs]

/-- `flush` when `sendmmsg` returns `res`: the queue is cleared in any case.  Also the packets the
kernel took; it never takes more than it was given. -/
def flush (b : BatchSender) (res : SendResult) : BatchSender × SendResult × List Packet :=
  if b.queue.isEmpty then (b, .ok 0, [])
  else
    match res with
    | .error e => ({ b with queue := [] }, .error e, [])
    | .ok k => ({ b with queue := [] }, .ok (min k b.queue.length), b.hdrs.take k)

theorem flush_queue (b : BatchSender) (res : SendResult) : (b.flush res).1.queue = [] := by
  unfold flush
  split
  · rename_i hempty
    exact List.isEmpty_iff.mp hempty
  · cases res <;> rfl

theorem flush_maxBatch (b : BatchSender) (res : SendResult) :
    (b.flush res).1.maxBatch = b.maxBatch := by
  unfold flush
  split
  · rfl
  · cases res <;> rfl

end BatchSender

/-! ## What becomes of the packets -/

/-- How a packet left the queue for good. -/
inductive Fate where
  | handed
  /-- The flush it was in returned the error. -/
  | reported
  deriving Repr

/-- A sender, what was pushed, and what became of it in the order in which it left. -/
structure Sending where
  sender : BatchSender
  pushed : List Packet
  settled : List (Fate × Packet)

inductive SenderCall where
  | push (data : List UInt8) (addr : SocketAddr)
  /-- With what `sendmmsg` returns if it is called. -/
  | flush (res : SendResult)

namespace Sending

def init (maxBatch : Nat) : Sending := ⟨.new maxBatch, [], []⟩

/-- The packets a flush settles: those the kernel took, or all of them if it returns an error. -/
def settles (b : BatchSender) (res : SendResult) : List (Fate × Packet) :=
  match b.flush res with
  | (_, .error _, _) => b.queue.map (.reported, ·)
  | (_, .ok _, taken) => taken.map (.handed, ·)

def step (s : Sending) : SenderCall → Sending
  | .push data addr =>
    { s with sender := (s.sender.push data addr).1, pushed := s.pushed ++ [(data, addr)] }
  | .flush res =>
    { s with sender := (s.sender.flush res).1, settled := s.settled ++ settles s.sender res }

/-- The account of the packets. -/
def account (s : Sending) : Account Packet := ⟨s.pushed, s.settled.map (·.2), s.sender.queue⟩

/-- Every packet was handed to the kernel or reported, once and in the order of the pushes, or is
still queued. -/
def Conserved (s : Sending) : Prop := s.account.Balanced

instance (s : Sending) : Decidable s.Conserved := inferInstanceAs (Decidable (_ = _))

/-- A send that does not fail takes every packet there is. -/
def Whole (s : Sending) : SenderCall → Prop
  | .push _ _ => True
  | .flush (.error _) => True
  | .flush (.ok k) => s.sender.queue.length ≤ k

/-! ## One call -/

variable {s : Sending}

theorem step_push (data : List UInt8) (addr : SocketAddr) :
    (s.step (.push data addr)).account =
      s.account.move [(data, addr)] [] (s.account.waiting ++ [(data, addr)]) := by
  simp [step, account, Account.move, BatchSender.push]

/-- An error is reported of the whole queue. -/
theorem settles_error (b : BatchSender) (e : Int) :
    (settles b (.error e)).map (·.2) = b.queue := by
  unfold settles BatchSender.flush
  cases hempty : b.queue.isEmpty with
  | true => simp [List.isEmpty_iff.mp hempty]
  | false => simp [Function.comp_def]

/-- The kernel takes a prefix of the queue. -/
theorem settles_sent (b : BatchSender) (k : Nat) :
    (settles b (.ok k)).map (·.2) = b.queue.take k := by
  unfold settles BatchSender.flush
  cases hempty : b.queue.isEmpty with
  | true => simp [List.isEmpty_iff.mp hempty]
  | false => simp [Function.comp_def, BatchSender.hdrs_eq]

/-- A flush settles what it settles, and nothing is left. -/
theorem step_flush (res : SendResult) :
    (s.step (.flush res)).account =
      s.account.move [] ((settles s.sender res).map (·.2)) [] := by
  simp [step, account, Account.move, s.sender.flush_queue res]

/-- **A call keeps every packet accounted for exactly when it is not a partial send.** -/
theorem step_conserved_iff (h : s.Conserved) (call : SenderCall) :
    (s.step call).Conserved ↔ s.Whole call := by
  unfold Conserved at *
  cases call with
  | push data addr =>
    rw [step_push]
    exact ⟨fun _ => trivial, fun _ => h.enter _⟩
  | flush res =>
    cases res with
    | error e =>
      rw [step_flush, settles_error]
      have hall : (s.account.move [] s.sender.queue []).Balanced := by
        rw [h.move_iff, List.append_nil, List.append_nil]
        rfl
      exact ⟨fun _ => trivial, fun _ => hall⟩
    | ok k =>
      rw [step_flush, settles_sent]
      have hsettle := h.settle_iff k []
      rw [eq_comm, List.drop_eq_nil_iff] at hsettle
      exact hsettle

end Sending

/-- **Packets are conserved exactly in the runs without a partial send.** -/
theorem conserved_iff (maxBatch : Nat) (calls : List SenderCall) :
    Always Sending.step Sending.Conserved (.init maxBatch) calls ↔
      Meets Sending.step Sending.Whole (.init maxBatch) calls := by
  have hinit : (Sending.init maxBatch).Conserved := Account.empty_balanced
  have hstep : ∀ (s : Sending) call, s.Conserved → ((s.step call).Conserved ↔ s.Whole call) :=
    fun _ call h => Sending.step_conserved_iff h call
  exact always_iff hstep hinit calls

/-- Of two packets the kernel takes one, and the other is gone. -/
theorem partial_send_loses :
    ¬ ∀ maxBatch calls, Always Sending.step Sending.Conserved (.init maxBatch) calls := by
  intro h
  have hlast := (h 64 [.push [1] ⟨.v4 ⟨10, 0, 0, 2⟩, 4000⟩, .push [2] ⟨.v4 ⟨10, 0, 0, 3⟩, 4000⟩,
    .flush (.ok 1)]).last
  revert hlast
  decide

/-! ## The server's loop -/

/-- The sender of `run_udp_linux`, and whether the flush timer is set. -/
structure UdpLoop where
  sending : Sending
  flushTimer : Bool

/-- The arms of the loop that concern the sender, with what `sendmmsg` returns if it is called. -/
inductive LoopEvent where
  | response (data : List UInt8) (dest : SocketAddr) (res : SendResult)
  /-- The flush timer, if it is set. -/
  | timer (res : SendResult)

namespace UdpLoop

/-- `TX_BATCH_SIZE` -/
def TX_BATCH_SIZE : Nat := 64

def init : UdpLoop := ⟨.init TX_BATCH_SIZE, false⟩

def step (l : UdpLoop) : LoopEvent → UdpLoop
  | .response data dest res =>
    let sending := l.sending.step (.push data dest)
    if (l.sending.sender.push data dest).2 then ⟨sending.step (.flush res), false⟩
    else ⟨sending, true⟩
  | .timer res =>
    if l.flushTimer then
      ⟨if l.sending.sender.isEmpty then l.sending else l.sending.step (.flush res), false⟩
    else l

/-- The calls of the sender that an event makes. -/
def calls (l : UdpLoop) : LoopEvent → List SenderCall
  | .response data dest res =>
    .push data dest :: if (l.sending.sender.push data dest).2 then [.flush res] else []
  | .timer res => if l.flushTimer && !l.sending.sender.isEmpty then [.flush res] else []

theorem step_sending (l : UdpLoop) (ev : LoopEvent) :
    (l.step ev).sending = run Sending.step l.sending (l.calls ev) := by
  cases ev with
  | response data dest res =>
    unfold step calls
    simp only
    split <;> rfl
  | timer res =>
    unfold step calls
    cases l.flushTimer <;> cases l.sending.sender.isEmpty <;> rfl

/-- The timer is set whenever something is queued, and the queue stays below a batch. -/
structure Timed (l : UdpLoop) : Prop where
  set : l.sending.sender.queue ≠ [] → l.flushTimer = true
  short : l.sending.sender.queue.length < TX_BATCH_SIZE
  batch : l.sending.sender.maxBatch = TX_BATCH_SIZE

theorem flush_timed (b : BatchSender) (sending : Sending) (hbatch : b.maxBatch = TX_BATCH_SIZE)
    (res : SendResult) (hsender : sending.sender = (b.flush res).1) :
    Timed ⟨sending, false⟩ := by
  have hqueue : sending.sender.queue = [] := by rw [hsender, b.flush_queue]
  refine ⟨fun hne => absurd hqueue hne, ?_, ?_⟩
  · rw [hqueue]
    decide
  · rw [hsender, b.flush_maxBatch, hbatch]

theorem step_timed {l : UdpLoop} (h : l.Timed) (ev : LoopEvent) : (l.step ev).Timed := by
  cases ev with
  | response data dest res =>
    rw [step]
    split
    · exact flush_timed (l.sending.sender.push data dest).1 _ h.batch res rfl
    · rename_i hroom
      have hshort : l.sending.sender.queue.length + 1 < TX_BATCH_SIZE := by
        simpa [BatchSender.push, h.batch] using hroom
      refine ⟨fun _ => rfl, ?_, h.batch⟩
      show (l.sending.sender.queue ++ [(data, dest)]).length < TX_BATCH_SIZE
      rwa [List.length_append]
  | timer res =>
    rw [step]
    split
    · split
      · rename_i hempty
        exact ⟨fun hne => absurd (List.isEmpty_iff.mp hempty) hne, h.short, h.batch⟩
      · exact flush_timed l.sending.sender _ h.batch res rfl
    · exact h

end UdpLoop

/-- **What the loop does to the sender is a run of the sender.** -/
theorem udpLoop_sends (l : UdpLoop) (es : List LoopEvent) :
    (run UdpLoop.step l es).sending =
      run Sending.step l.sending (trace UdpLoop.step UdpLoop.calls l es) :=
  run_trace UdpLoop.step_sending l es

/-- **No packet waits without the timer set**, and the queue stays below a batch. -/
theorem udpLoop_timed (es : List LoopEvent) : (run UdpLoop.step UdpLoop.init es).Timed := by
  have hinit : UdpLoop.init.Timed := ⟨fun hne => absurd rfl hne, by decide, rfl⟩
  have hstep : ∀ (l : UdpLoop) ev, l.Timed → (l.step ev).Timed :=
    fun _ ev h => UdpLoop.step_timed h ev
  exact invariant_run hstep hinit es

end TitanDns
