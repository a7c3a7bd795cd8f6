import TitanDns.Lib.WorkerPool
import TitanDns.Server.BatchIo
import TitanDns.Server.UdpBuffer
import Mathlib.Data.List.Induction

/-!
# The UDP server on Linux

The loop of `run_udp_linux` receives packets in batches and gives them to workers; these process the
requests, and the loop sends their responses in batches.  Workers and loop meet in two bounded
channels only.

* `UdpServer`, `step` — batches, steps of the workers and of the loop, panics and the end, in any
  order.
* `Served` — what every event keeps.
* `measure`, `works_measure` — **every step of a worker or of the loop does some of the work.**

Principal results: `udp_answers_exact` — **every packet sent answers a packet received from the same
client, and no packet is answered twice**; `udp_in_order` — with one worker in the order of arrival;
`udp_settles` — **without new packets the server comes to rest, and then every packet it accepted
has been handled.**
-/

namespace TitanDns

open Run

def TASK_QUEUE : Nat := 4096

def RESPONSE_QUEUE : Nat := 4096

/-- A request and its client; a response and its client. -/
abbrev WorkerPool (W : Type) := Pool W Packet Packet

structure UdpServer (W : Type) where
  running : Bool
  batchRx : BatchIo
  pool : WorkerPool W
  responses : Channel Packet
  udpLoop : UdpLoop

namespace UdpServer

variable {W : Type}

def new : UdpServer W where
  running := true
  batchRx := .new
  pool := .new TASK_QUEUE
  responses := .new RESPONSE_QUEUE
  udpLoop := .init

/-- A packet of a batch goes to the workers, unless there is no room. -/
def accept (pool : WorkerPool W) (packet : Packet) : WorkerPool W :=
  if MAX_DNS_PACKET_SIZE < packet.1.length ∨ packet.1.length < 12 then pool
  else pool.offer packet

/-- The loop over the packets of a batch. -/
def dispatch (pool : WorkerPool W) :
    List (Except Fault (Option Packet)) → Except Fault (WorkerPool W)
  | [] => .ok pool
  | .ok (some packet) :: rest => dispatch (accept pool packet) rest
  | .ok none :: rest => dispatch pool rest
  | .error fault :: _ => .error fault

/-- The loop ends: what waits to be sent is dropped, the workers get what waits for them. -/
def stop (s : UdpServer W) : UdpServer W :=
  { s with
    running := false
    pool := s.pool.close
    responses := { s.responses with buffer := [], receiver := false } }

/-- A batch is received; the QPS when it is time to tune. -/
def batch (s : UdpServer W) (res : Except Int (List Datagram)) (qps : Option Nat) : UdpServer W :=
  match s.batchRx.recvBatch res with
  | (b, .error _) => { s with batchRx := b }
  | (b, .ok count) =>
    let b := match qps with
      | some currentQps => b.autoTuneBatchSize currentQps
      | none => b
    match dispatch s.pool (b.packets count) with
    | .ok pool => { s with batchRx := b, pool := pool }
    | .error _ => s.stop

/-- A response comes from the workers. -/
def response (s : UdpServer W) (res : SendResult) : UdpServer W :=
  match s.responses.recv with
  | .message (data, dest) c =>
    { s with responses := c, udpLoop := s.udpLoop.step (.response data dest res) }
  | _ => s

inductive Event (W : Type) where
  | batch (res : Except Int (List Datagram)) (qps : Option Nat)
  | take (w : W)
  /-- `process_request_bytes` ends, with a response or without. -/
  | finish (w : W) (answer : Option (List UInt8))
  | panic (w : W)
  | deliver (w : W)
  | response (res : SendResult)
  | timer (res : SendResult)
  | cancel

section
variable [DecidableEq W]

/-- A response enters the channel when there is room, and is dropped when the loop has ended. -/
def deliver (s : UdpServer W) (w : W) : UdpServer W :=
  match s.pool.worker w with
  | .delivering r =>
    match s.responses.trySend r with
    | .sent c => { s with pool := s.pool.deliver w, responses := c }
    | .closed => { s with pool := s.pool.deliver w }
    | _ => s
  | _ => s

/-- The answer goes where the request came from. -/
def reply (answer : Option (List UInt8)) (request : Packet) : Option Packet :=
  answer.map fun bytes => (bytes, request.2)

def step (s : UdpServer W) : Event W → UdpServer W
  | .batch res qps => if s.running then s.batch res qps else s
  | .take w => { s with pool := s.pool.take w }
  | .finish w answer => { s with pool := s.pool.finish w (reply answer) }
  | .panic w => { s with pool := s.pool.abandon w }
  | .deliver w => s.deliver w
  | .response res => if s.running then s.response res else s
  | .timer res => if s.running then { s with udpLoop := s.udpLoop.step (.timer res) } else s
  | .cancel => if s.running then s.stop else s

theorem step_batch {s : UdpServer W} (hrun : s.running = true)
    (res : Except Int (List Datagram)) (qps : Option Nat) :
    s.step (.batch res qps) = s.batch res qps := if_pos hrun

/-- The server after the events `es`, taken in order. -/
def served (es : List (Event W)) : UdpServer W := run step new es

end

/-- The packets that the kernel took. -/
def sent (s : UdpServer W) : List Packet :=
  s.udpLoop.sending.settled.filterMap fun
    | (.handed, packet) => some packet
    | (.reported, _) => none

/-! ## A batch -/

variable {s : UdpServer W}

/-- Reading back what was received, every packet is offered. -/
theorem dispatch_read (pool : WorkerPool W) (datagrams : List Datagram) :
    dispatch pool (datagrams.map fun d => .ok d.read) =
      .ok (run accept pool (datagrams.filterMap Datagram.read)) := by
  induction datagrams generalizing pool with
  | nil => rfl
  | cons d rest ih =>
    cases hread : d.read with
    | none => simpa [dispatch, hread] using ih pool
    | some packet => simpa [dispatch, hread] using ih (accept pool packet)

/-- **A batch is offered to the workers**, and nothing else changes but the receiver. -/
theorem batch_ok (hlayout : s.batchRx.Layout) (datagrams : List Datagram) (qps : Option Nat) :
    ∃ b, b.Layout ∧ s.batch (.ok datagrams) qps =
      { s with
        batchRx := b
        pool := run accept s.pool
          ((datagrams.take s.batchRx.currentBatchSize).filterMap Datagram.read) } := by
  have hpackets := BatchIo.packets_recvBatch hlayout datagrams
  have hnext := hlayout.recvBatch (.ok datagrams)
  unfold batch
  generalize hr : s.batchRx.recvBatch (.ok datagrams) = r at hpackets hnext
  obtain ⟨b, res⟩ := r
  have hres : res = .ok (min s.batchRx.currentBatchSize datagrams.length) := by
    have hsnd := congrArg Prod.snd hr
    exact hsnd.symm
  subst hres
  simp only at hpackets hnext ⊢
  cases qps with
  | none =>
    simp only
    rw [hpackets, dispatch_read]
    exact ⟨b, hnext, rfl⟩
  | some currentQps =>
    have htuned : (b.autoTuneBatchSize currentQps).packets
        (min s.batchRx.currentBatchSize datagrams.length) =
        b.packets (min s.batchRx.currentBatchSize datagrams.length) := rfl
    simp only
    rw [htuned, hpackets, dispatch_read]
    exact ⟨b.autoTuneBatchSize currentQps, hnext.step (.tune currentQps), rfl⟩

theorem batch_error (hlayout : s.batchRx.Layout) (e : Int) (qps : Option Nat) :
    ∃ b, b.Layout ∧ s.batch (.error e) qps = { s with batchRx := b } := by
  have hnext := hlayout.recvBatch (.error e)
  exact ⟨(s.batchRx.recvBatch (.error e)).1, hnext, rfl⟩

theorem accept_cases (pool : WorkerPool W) (packet : Packet) :
    accept pool packet = pool ∨ accept pool packet = pool.offer packet := by
  unfold accept
  split
  · exact .inl rfl
  · exact .inr rfl

/-- Packets of a fitting size are all offered. -/
theorem run_accept {pool : WorkerPool W} {ps : List Packet}
    (hsizes : ∀ packet ∈ ps, 12 ≤ packet.1.length ∧ packet.1.length ≤ MAX_DNS_PACKET_SIZE) :
    run accept pool ps = run Pool.offer pool ps := by
  induction ps generalizing pool with
  | nil => rfl
  | cons packet rest ih =>
    have hfits := hsizes packet List.mem_cons_self
    have haccept : accept pool packet = pool.offer packet := if_neg (by omega)
    rw [run_cons, run_cons, haccept]
    exact ih fun p hp => hsizes p (List.mem_cons_of_mem packet hp)

/-- What is offered is admitted, in order, or dropped. -/
theorem admitted_run (pool : WorkerPool W) (ps : List Packet) :
    ∃ came : List Packet, came.Sublist ps ∧
      (run accept pool ps).admitted = pool.admitted ++ came := by
  induction ps generalizing pool with
  | nil => exact ⟨[], .slnil, (List.append_nil _).symm⟩
  | cons packet rest ih =>
    obtain ⟨came, hcame, hadmitted⟩ := ih (accept pool packet)
    rw [run_cons, hadmitted]
    rcases accept_cases pool packet with hsame | hoffered
    · rw [hsame]
      exact ⟨came, hcame.cons packet, rfl⟩
    · rw [hoffered]
      rcases pool.admitted_offer packet with hsame | hmore
      · rw [hsame]
        exact ⟨came, hcame.cons packet, rfl⟩
      · rw [hmore]
        exact ⟨packet :: came, hcame.cons_cons packet, by simp⟩

/-- Offering changes the queue only. -/
theorem handled_run (pool : WorkerPool W) (ps : List Packet) :
    (run accept pool ps).handled = pool.handled ∧
      (run accept pool ps).delivered = pool.delivered := by
  have hstep : ∀ (q : WorkerPool W) (packet : Packet),
      q.handled = pool.handled ∧ q.delivered = pool.delivered →
        (accept q packet).handled = pool.handled ∧
          (accept q packet).delivered = pool.delivered := by
    intro q packet hq
    rcases accept_cases q packet with hsame | hoffered
    · rwa [hsame]
    · rw [hoffered, q.handled_offer packet, q.delivered_offer packet]
      exact hq
  exact invariant_run hstep ⟨rfl, rfl⟩ ps

/-! ## The sender -/

/-- The packets that left the sender or wait in it, in the order in which they came. -/
def SendsInOrder (x : Sending) : Prop := (x.settled.map (·.2) ++ x.sender.queue).Sublist x.pushed

theorem SendsInOrder.step {x : Sending} (h : SendsInOrder x) (call : SenderCall) :
    SendsInOrder (x.step call) := by
  unfold SendsInOrder at *
  cases call with
  | push data addr =>
    have hqueue : (x.step (.push data addr)).sender.queue = x.sender.queue ++ [(data, addr)] := rfl
    have hpushed : (x.step (.push data addr)).pushed = x.pushed ++ [(data, addr)] := rfl
    rw [hqueue, hpushed, ← List.append_assoc]
    exact h.append_right _
  | flush res =>
    have hqueue : (x.step (.flush res)).sender.queue = [] := x.sender.flush_queue res
    have hsettled : (x.step (.flush res)).settled = x.settled ++ Sending.settles x.sender res := rfl
    have hpushed : (x.step (.flush res)).pushed = x.pushed := rfl
    have hpart : ((Sending.settles x.sender res).map (·.2)).Sublist x.sender.queue := by
      cases res with
      | error e =>
        rw [Sending.settles_error]
      | ok k =>
        rw [Sending.settles_sent]
        exact List.take_sublist k _
    rw [hqueue, hsettled, hpushed, List.append_nil, List.map_append]
    exact (hpart.append_left _).trans h

theorem SendsInOrder.loop {l : UdpLoop} (h : SendsInOrder l.sending) (ev : LoopEvent) :
    SendsInOrder (l.step ev).sending := by
  rw [l.step_sending ev]
  have hstep : ∀ (x : Sending) (call : SenderCall), SendsInOrder x → SendsInOrder (x.step call) :=
    fun _ call hx => hx.step call
  exact invariant_run hstep h _

theorem pushed_response (l : UdpLoop) (data : List UInt8) (dest : SocketAddr) (res : SendResult) :
    (l.step (.response data dest res)).sending.pushed = l.sending.pushed ++ [(data, dest)] := by
  unfold UdpLoop.step
  simp only
  split <;> rfl

theorem pushed_timer (l : UdpLoop) (res : SendResult) :
    (l.step (.timer res)).sending.pushed = l.sending.pushed := by
  simp only [UdpLoop.step]
  split
  · split <;> rfl
  · rfl

/-! ## What every event keeps -/

variable [Fintype W]

structure Served (s : UdpServer W) : Prop where
  layout : s.batchRx.Layout
  pool : s.pool.Sound TASK_QUEUE
  /-- What the workers let go is pushed or waits, in order; the rest is dropped at the end. -/
  pushed : s.udpLoop.sending.pushed <+: s.pool.delivered
  passed : s.running = true → s.udpLoop.sending.pushed ++ s.responses.buffer = s.pool.delivered
  ended : s.running = false → s.responses.buffer = [] ∧ s.responses.receiver = false
  opened : s.running = true → s.responses.receiver = true
  room : s.responses.buffer.length ≤ RESPONSE_QUEUE
  size : s.responses.capacity = RESPONSE_QUEUE
  sends : SendsInOrder s.udpLoop.sending
  timed : s.udpLoop.Timed
  addressed : ∀ request answer, (request, some answer) ∈ s.pool.handled → answer.2 = request.2

namespace Served

theorem new : Served (UdpServer.new : UdpServer W) where
  layout := BatchIo.layout_new
  pool := .new TASK_QUEUE
  pushed := List.prefix_refl _
  passed _ := rfl
  ended h := by simp [UdpServer.new] at h
  opened _ := rfl
  room := Nat.zero_le _
  size := rfl
  sends := .slnil
  timed := udpLoop_timed []
  addressed := by simp [UdpServer.new, Pool.new]

theorem stop (h : s.Served) : s.stop.Served where
  layout := h.layout
  pool := h.pool.close
  pushed := h.pushed
  passed hrun := by simp [UdpServer.stop] at hrun
  ended _ := ⟨rfl, rfl⟩
  opened hrun := by simp [UdpServer.stop] at hrun
  room := Nat.zero_le _
  size := h.size
  sends := h.sends
  timed := h.timed
  addressed := h.addressed

theorem batch (h : s.Served) (res : Except Int (List Datagram)) (qps : Option Nat) :
    (s.batch res qps).Served := by
  cases res with
  | error e =>
    obtain ⟨b, hb, hbatch⟩ := batch_error h.layout e qps
    rw [hbatch]
    exact { h with layout := hb }
  | ok datagrams =>
    obtain ⟨b, hb, hbatch⟩ := batch_ok h.layout datagrams qps
    have hstep : ∀ (q : WorkerPool W) (packet : Packet), q.Sound TASK_QUEUE →
        (accept q packet).Sound TASK_QUEUE := by
      intro q packet hq
      rcases accept_cases q packet with hsame | hoffered
      · rwa [hsame]
      · rw [hoffered]
        exact hq.offer packet
    have hpool := invariant_run hstep h.pool
      ((datagrams.take s.batchRx.currentBatchSize).filterMap Datagram.read)
    obtain ⟨hhandled, hdelivered⟩ := handled_run s.pool
      ((datagrams.take s.batchRx.currentBatchSize).filterMap Datagram.read)
    rw [hbatch]
    refine { h with layout := hb, pool := hpool, pushed := ?_, passed := ?_, addressed := ?_ }
    · rw [hdelivered]
      exact h.pushed
    · rw [hdelivered]
      exact h.passed
    · rw [hhandled]
      exact h.addressed

theorem response (h : s.Served) (hrun : s.running = true) (res : SendResult) :
    (s.response res).Served := by
  unfold UdpServer.response
  cases hrecv : s.responses.recv with
  | message packet c =>
    obtain ⟨data, dest⟩ := packet
    obtain ⟨hfront, hc⟩ := Channel.recv_message hrecv
    have hpassed := h.passed hrun
    have hroom := h.room
    rw [hfront] at hpassed hroom
    have hnext : s.udpLoop.sending.pushed ++ [(data, dest)] ++ c.buffer = s.pool.delivered := by
      rw [← hpassed, List.append_assoc]
      rfl
    refine { h with
      pushed := ?_
      passed := fun _ => ?_
      ended := fun hstop => ?_
      opened := fun _ => ?_
      room := (Nat.le_succ _).trans hroom
      size := ?_
      sends := h.sends.loop (.response data dest res)
      timed := UdpLoop.step_timed h.timed (.response data dest res) }
    · rw [pushed_response, ← hnext]
      exact List.prefix_append _ _
    · rw [pushed_response]
      exact hnext
    · rw [hrun] at hstop
      cases hstop
    · rw [hc]
      exact h.opened hrun
    · rw [hc]
      exact h.size
  | _ => exact h

theorem timer (h : s.Served) (res : SendResult) :
    ({ s with udpLoop := s.udpLoop.step (.timer res) } : UdpServer W).Served := by
  refine { h with
    pushed := ?_
    passed := fun hrun => ?_
    sends := h.sends.loop (.timer res)
    timed := UdpLoop.step_timed h.timed (.timer res) }
  · rw [pushed_timer]
    exact h.pushed
  · rw [pushed_timer]
    exact h.passed hrun

variable [DecidableEq W]

omit [DecidableEq W] in
/-- A worker moves and lets nothing go. -/
theorem worker (h : s.Served) {pool : WorkerPool W} (hpool : pool.Sound TASK_QUEUE)
    (hdelivered : pool.delivered = s.pool.delivered)
    (haddressed : ∀ request answer, (request, some answer) ∈ pool.handled →
      answer.2 = request.2) : ({ s with pool := pool } : UdpServer W).Served := by
  refine { h with pool := hpool, pushed := ?_, passed := ?_, addressed := haddressed }
  · rw [hdelivered]
    exact h.pushed
  · rw [hdelivered]
    exact h.passed

theorem deliver (h : s.Served) (w : W) : (s.deliver w).Served := by
  unfold UdpServer.deliver
  cases hw : s.pool.worker w with
  | delivering r =>
    have hpool := h.pool.deliver w
    obtain ⟨hhandled, hdelivered⟩ := Pool.deliver_books hw
    simp only
    cases hsend : s.responses.trySend r with
    | sent c =>
      have hc := Channel.trySend_sent hsend
      obtain ⟨hroom, hopen⟩ := Channel.trySend_room hsend
      subst hc
      refine { h with
        pool := hpool
        pushed := ?_
        passed := fun hrun => ?_
        ended := fun hstop => ?_
        room := ?_
        addressed := ?_ }
      · rw [hdelivered]
        exact h.pushed.trans (List.prefix_append _ _)
      · rw [hdelivered, ← h.passed hrun, List.append_assoc]
      · rw [(h.ended hstop).2] at hopen
        cases hopen
      · rw [h.size] at hroom
        simp only [List.length_append, List.length_singleton]
        omega
      · rw [hhandled]
        exact h.addressed
    | closed =>
      refine { h with pool := hpool, pushed := ?_, passed := fun hrun => ?_, addressed := ?_ }
      · rw [hdelivered]
        exact h.pushed.trans (List.prefix_append _ _)
      · have hopen := h.opened hrun
        rw [Channel.trySend_closed hsend] at hopen
        cases hopen
      · rw [hhandled]
        exact h.addressed
    | _ => exact h
  | _ => exact h

theorem step (h : s.Served) (e : Event W) : (s.step e).Served := by
  cases e with
  | batch res qps =>
    simp only [UdpServer.step]
    split
    · exact h.batch res qps
    · exact h
  | take w =>
    obtain ⟨hhandled, hdelivered⟩ := s.pool.take_books w
    exact h.worker (h.pool.take w) hdelivered (by rw [hhandled]; exact h.addressed)
  | finish w answer =>
    refine h.worker (h.pool.finish w _) (s.pool.delivered_finish w _) fun request packet hmem => ?_
    rcases s.pool.mem_finish hmem with hold | ⟨-, hnew⟩
    · exact h.addressed request packet hold
    · obtain ⟨bytes, -, rfl⟩ := Option.map_eq_some_iff.mp hnew.symm
      rfl
  | panic w =>
    obtain ⟨hhandled, hdelivered⟩ := s.pool.abandon_books w
    exact h.worker (h.pool.abandon w) hdelivered (by rw [hhandled]; exact h.addressed)
  | deliver w => exact h.deliver w
  | response res =>
    simp only [UdpServer.step]
    split
    · rename_i hrun
      exact h.response hrun res
    · exact h
  | timer res =>
    simp only [UdpServer.step]
    split
    · exact h.timer res
    · exact h
  | cancel =>
    simp only [UdpServer.step]
    split
    · exact h.stop
    · exact h

end Served

variable [DecidableEq W]

theorem served_inv (es : List (Event W)) : (served es).Served := by
  have hstep : ∀ (s : UdpServer W) (e : Event W), s.Served → (s.step e).Served :=
    fun _ e h => h.step e
  have hrun := invariant_run hstep Served.new es
  exact hrun

omit [Fintype W] in
theorem served_append (es : List (Event W)) (e : Event W) :
    served (es ++ [e]) = (served es).step e := run_append _ _ _

/-! ## Requests and answers -/

/-- What the kernel hands over in a run. -/
def datagramsOf (es : List (Event W)) : List Datagram :=
  es.flatMap fun
    | .batch (.ok datagrams) _ => datagrams
    | _ => []

omit [DecidableEq W] [Fintype W] in
theorem sent_sublist (h : SendsInOrder s.udpLoop.sending) :
    s.sent.Sublist s.udpLoop.sending.pushed := by
  have htaken : ∀ settled : List (Fate × Packet),
      (settled.filterMap fun
        | (.handed, packet) => some packet
        | (.reported, _) => none).Sublist (settled.map (·.2)) := by
    intro settled
    induction settled with
    | nil => exact .slnil
    | cons x rest ih =>
      obtain ⟨fate, packet⟩ := x
      cases fate with
      | handed => exact ih.cons_cons packet
      | reported => exact ih.cons packet
  exact (htaken _).trans ((List.sublist_append_left _ _).trans h)

omit [Fintype W] in
/-- Only a batch admits packets. -/
theorem admitted_step (hlayout : s.batchRx.Layout) (e : Event W) :
    ∃ came : List Packet, came.Sublist ((datagramsOf [e]).filterMap Datagram.read) ∧
      (s.step e).pool.admitted = s.pool.admitted ++ came := by
  have hsame {e : Event W} (h : (s.step e).pool.admitted = s.pool.admitted) :
      ∃ came : List Packet, came.Sublist ((datagramsOf [e]).filterMap Datagram.read) ∧
        (s.step e).pool.admitted = s.pool.admitted ++ came :=
    ⟨[], List.nil_sublist _, by rw [h, List.append_nil]⟩
  cases e with
  | batch res qps =>
    by_cases hrun : s.running = true
    · have hstep := step_batch hrun res qps
      cases res with
      | error e =>
        obtain ⟨b, -, hbatch⟩ := batch_error hlayout e qps
        exact hsame (by rw [hstep, hbatch])
      | ok datagrams =>
        obtain ⟨b, -, hbatch⟩ := batch_ok hlayout datagrams qps
        obtain ⟨came, hcame, hadmitted⟩ := admitted_run s.pool
          ((datagrams.take s.batchRx.currentBatchSize).filterMap Datagram.read)
        refine ⟨came, hcame.trans ?_, by rw [hstep, hbatch, hadmitted]⟩
        have hall : datagramsOf [(.batch (.ok datagrams) qps : Event W)] = datagrams := by
          simp [datagramsOf]
        rw [hall]
        exact (List.take_sublist _ _).filterMap _
    · exact hsame (by rw [step, if_neg hrun])
  | take w => exact hsame (s.pool.admitted_take w)
  | finish w answer => exact hsame (s.pool.admitted_finish w _)
  | panic w => exact hsame (s.pool.admitted_abandon w)
  | deliver w =>
    refine hsame ?_
    simp only [step, deliver]
    split
    · split
      · exact s.pool.admitted_deliver w
      · exact s.pool.admitted_deliver w
      · rfl
    · rfl
  | response res =>
    refine hsame ?_
    simp only [step, response]
    split
    · split <;> rfl
    · rfl
  | timer res =>
    refine hsame ?_
    simp only [step]
    split <;> rfl
  | cancel =>
    refine hsame ?_
    simp only [step]
    split <;> rfl

theorem admitted_sublist (es : List (Event W)) :
    (served es).pool.admitted.Sublist ((datagramsOf es).filterMap Datagram.read) := by
  induction es using List.reverseRecOn with
  | nil => exact .slnil
  | append_singleton es e ih =>
    obtain ⟨came, hcame, hadmitted⟩ := admitted_step (served_inv es).layout e
    have hsplit : datagramsOf (es ++ [e]) = datagramsOf es ++ datagramsOf [e] :=
      List.flatMap_append
    rw [served_append, hadmitted, hsplit, List.filterMap_append]
    exact ih.append hcame

omit [DecidableEq W] in
/-- No answer is sent twice. -/
theorem sent_subperm (h : s.Served) : s.sent.Subperm (s.pool.handled.filterMap Prod.snd) := by
  have hsent := (sent_sublist h.sends).subperm
  exact hsent.trans (h.pushed.sublist.subperm.trans h.pool.subperm_results)

/-- **Every packet sent answers a packet received from the same client**: what was received is
accepted in order or dropped, none is handled twice, what the kernel takes are answers, none of them
twice, and each goes where its request came from.  What is under way fits into the channels and the
workers. -/
theorem udp_answers_exact (es : List (Event W)) :
    let s := served es
    s.pool.admitted.Sublist ((datagramsOf es).filterMap Datagram.read) ∧
      (s.pool.handled.map Prod.fst ++ s.pool.lost).Subperm s.pool.admitted ∧
      s.sent.Subperm (s.pool.handled.filterMap Prod.snd) ∧
      (∀ request answer, (request, some answer) ∈ s.pool.handled → answer.2 = request.2) ∧
      s.pool.admitted.length ≤
        s.pool.handled.length + s.pool.lost.length + TASK_QUEUE + Fintype.card W ∧
      (s.running = true → (s.pool.handled.filterMap Prod.snd).length ≤
        s.udpLoop.sending.pushed.length + RESPONSE_QUEUE + Fintype.card W) := by
  have h := served_inv es
  obtain ⟨hjobs, hresults⟩ := h.pool.under_way
  refine ⟨admitted_sublist es, h.pool.subperm_jobs, sent_subperm h, h.addressed, hjobs,
    fun hrun => ?_⟩
  have hpassed := congrArg List.length (h.passed hrun)
  have hroom := h.room
  rw [List.length_append] at hpassed
  omega

/-- The only worker keeps the order. -/
theorem inOrder (es : List (Event Unit)) : (served es).pool.InOrder () := by
  induction es using List.reverseRecOn with
  | nil => exact Pool.InOrder.new TASK_QUEUE ()
  | append_singleton es e ih =>
    rw [served_append]
    cases e with
    | batch res qps =>
      by_cases hrun : (served es).running = true
      · rw [step_batch hrun]
        cases res with
        | error e =>
          obtain ⟨b, -, hbatch⟩ := batch_error (served_inv es).layout e qps
          rwa [hbatch]
        | ok datagrams =>
          obtain ⟨b, -, hbatch⟩ := batch_ok (served_inv es).layout datagrams qps
          have hkeep : ∀ (q : WorkerPool Unit) (packet : Packet), q.InOrder () →
              (accept q packet).InOrder () := by
            intro q packet hq
            rcases accept_cases q packet with hsame | hoffered
            · rwa [hsame]
            · rw [hoffered]
              exact hq.offer packet
          rw [hbatch]
          exact invariant_run hkeep ih _
      · have hstep : (served es).step (.batch res qps) = served es := if_neg hrun
        rwa [hstep]
    | take w => exact ih.take w
    | finish w answer => exact ih.finish w _
    | panic w => exact ih.abandon w
    | deliver w =>
      simp only [step, deliver]
      split
      · split
        · exact ih.deliver w
        · exact ih.deliver w
        · exact ih
      · exact ih
    | response res =>
      simp only [step, response]
      split
      · split <;> exact ih
      · exact ih
    | timer res =>
      simp only [step]
      split <;> exact ih
    | cancel =>
      simp only [step]
      split
      · exact ih.close
      · exact ih

/-- **With one worker the packets are handled in the order of arrival, and answered in that
order.** -/
theorem udp_in_order (es : List (Event Unit)) :
    let s := served es
    s.pool.handled.map Prod.fst <+: s.pool.admitted ∧
      s.udpLoop.sending.pushed <+: s.pool.handled.filterMap Prod.snd ∧
      s.sent.Sublist (s.pool.handled.filterMap Prod.snd) := by
  have h := served_inv es
  have horder := inOrder es
  have htaken : (served es).pool.taken <+: (served es).pool.admitted := by
    rw [← h.pool.fifo]
    exact List.prefix_append _ _
  have hdelivered : (served es).pool.delivered <+: (served es).pool.handled.filterMap Prod.snd := by
    rw [← horder.results]
    exact List.prefix_append _ _
  have hpushed := h.pushed.trans hdelivered
  exact ⟨horder.handled.trans htaken, hpushed, (sent_sublist h.sends).trans hpushed.sublist⟩

/-! ## The server comes to rest -/

/-- A step of a worker or of the loop that brings nothing new. -/
def Event.Works : Event W → Prop
  | .take _ => True
  | .finish _ _ => True
  | .deliver _ => True
  | .response _ => True
  | .timer _ => True
  | _ => False

/-- What is left to do: at the workers, in the channel, and for the timer. -/
def measure (s : UdpServer W) : Nat :=
  s.pool.load + 2 * s.responses.buffer.length + if s.udpLoop.flushTimer then 1 else 0

omit [DecidableEq W] in
theorem measure_pool (s : UdpServer W) (pool : WorkerPool W) :
    ({ s with pool := pool } : UdpServer W).measure + s.pool.load = s.measure + pool.load := by
  unfold measure
  simp only
  omega

theorem deliver_measure (h : s.Served) (w : W) :
    (s.deliver w = s ∧ ((s.pool.worker w).result? = [] ∨
        RESPONSE_QUEUE ≤ s.responses.buffer.length)) ∨
      (s.deliver w).measure < s.measure := by
  unfold deliver
  cases hw : s.pool.worker w with
  | delivering r =>
    have hload := Pool.deliver_load hw
    simp only
    cases hsend : s.responses.trySend r with
    | sent c =>
      have hc := Channel.trySend_sent hsend
      subst hc
      refine .inr ?_
      simp only [measure, List.length_append, List.length_singleton]
      omega
    | closed =>
      refine .inr ?_
      simp only [measure]
      omega
    | full =>
      refine .inl ⟨rfl, .inr ?_⟩
      rw [← h.size]
      exact Channel.trySend_full hsend
    | panicked => exact absurd hsend (Channel.trySend_ne_panicked _ _)
  | _ => exact .inl ⟨rfl, .inl rfl⟩

omit [DecidableEq W] in
theorem response_measure (res : SendResult) :
    (s.response res = s ∧ s.responses.buffer = []) ∨ (s.response res).measure < s.measure := by
  unfold response
  cases hrecv : s.responses.recv with
  | message packet c =>
    obtain ⟨data, dest⟩ := packet
    have hfront := (Channel.recv_message hrecv).1
    have hlength : s.responses.buffer.length = c.buffer.length + 1 := by
      rw [hfront, List.length_cons]
    refine .inr ?_
    simp only [measure]
    split <;> split <;> omega
  | empty => exact .inl ⟨rfl, Channel.recv_empty hrecv⟩
  | closed => exact .inl ⟨rfl, Channel.recv_closed hrecv⟩

omit [DecidableEq W] in
theorem timer_measure (res : SendResult) :
    (s.udpLoop.step (.timer res) = s.udpLoop ∧ s.udpLoop.flushTimer = false) ∨
      ({ s with udpLoop := s.udpLoop.step (.timer res) } : UdpServer W).measure < s.measure := by
  cases ht : s.udpLoop.flushTimer with
  | false =>
    refine .inl ⟨?_, rfl⟩
    simp only [UdpLoop.step, ht]
    rfl
  | true =>
    refine .inr ?_
    simp only [measure, UdpLoop.step, ht, if_true]
    simp

theorem timer_ne (hrun : s.running = true) (htimer : s.udpLoop.flushTimer = true)
    (res : SendResult) : s.step (.timer res) ≠ s := by
  intro hsame
  rcases timer_measure (s := s) res with ⟨-, hunset⟩ | hless
  · rw [htimer] at hunset
    cases hunset
  · have hstep : s.step (.timer res) = { s with udpLoop := s.udpLoop.step (.timer res) } :=
      if_pos hrun
    rw [← hstep, hsame] at hless
    exact Nat.lt_irrefl _ hless

/-- **Every step of a worker or of the loop does some of the work**, or changes nothing. -/
theorem works_measure (h : s.Served) {e : Event W} (he : e.Works) :
    s.step e = s ∨ (s.step e).measure < s.measure := by
  cases e with
  | batch res qps => exact he.elim
  | take w =>
    rcases s.pool.take_load w with ⟨hsame, -⟩ | hless
    · exact .inl (by simp only [step, hsame])
    · have hmeasure := measure_pool s (s.pool.take w)
      refine .inr ?_
      simp only [step]
      omega
  | finish w answer =>
    rcases s.pool.finish_load w (reply answer) with ⟨hsame, -⟩ | hless
    · exact .inl (by simp only [step, hsame])
    · have hmeasure := measure_pool s (s.pool.finish w (reply answer))
      refine .inr ?_
      simp only [step]
      omega
  | panic w => exact he.elim
  | deliver w =>
    rcases deliver_measure h w with ⟨hsame, -⟩ | hless
    · exact .inl hsame
    · exact .inr hless
  | response res =>
    simp only [step]
    split
    · rcases response_measure (s := s) res with ⟨hsame, -⟩ | hless
      · exact .inl hsame
      · exact .inr hless
    · exact .inl rfl
  | timer res =>
    simp only [step]
    split
    · rcases timer_measure (s := s) res with ⟨hsame, -⟩ | hless
      · exact .inl (by rw [hsame])
      · exact .inr hless
    · exact .inl rfl
  | cancel => exact he.elim

/-- Nothing is left for the workers and the loop. -/
structure Rests (s : UdpServer W) : Prop where
  jobs : ∀ w, (s.pool.worker w).job? = []
  results : ∀ w, (s.pool.worker w).result? = []
  queue : (∃ w, s.pool.worker w ≠ .gone) → s.pool.queue.buffer = []
  responses : s.responses.buffer = []
  sender : s.running = true → s.udpLoop.sending.sender.queue = []

/-- **Where no step of a worker or of the loop changes anything, nothing is left.** -/
theorem rests_of_stuck (h : s.Served) (hstuck : ∀ e : Event W, e.Works → s.step e = s) :
    s.Rests := by
  have hpool {p : WorkerPool W} (hp : ({ s with pool := p } : UdpServer W) = s) : p = s.pool :=
    congrArg UdpServer.pool hp
  have hjobs : ∀ w, (s.pool.worker w).job? = [] := by
    intro w
    have hsame := hpool (hstuck (.finish w none) trivial)
    rcases s.pool.finish_load w (reply none) with ⟨-, hnone⟩ | hless
    · exact hnone
    · rw [hsame] at hless
      exact absurd hless (Nat.lt_irrefl _)
  have hresponses : s.responses.buffer = [] := by
    cases hrun : s.running with
    | false => exact (h.ended hrun).1
    | true =>
      have hsame := hstuck (.response (.ok 0)) trivial
      have hstep : s.step (.response (.ok 0)) = s.response (.ok 0) := if_pos hrun
      rw [hstep] at hsame
      rcases response_measure (s := s) (.ok 0) with ⟨-, hempty⟩ | hless
      · exact hempty
      · rw [hsame] at hless
        exact absurd hless (Nat.lt_irrefl _)
  refine ⟨hjobs, fun w => ?_, fun ⟨w, hw⟩ => ?_, hresponses, fun hrun => ?_⟩
  · have hsame : s.deliver w = s := hstuck (.deliver w) trivial
    rcases deliver_measure h w with ⟨-, hnone | hfull⟩ | hless
    · exact hnone
    · rw [hresponses] at hfull
      exact absurd hfull (by decide)
    · rw [hsame] at hless
      exact absurd hless (Nat.lt_irrefl _)
  · have hsame := hpool (hstuck (.take w) trivial)
    have hdeliver : s.deliver w = s := hstuck (.deliver w) trivial
    rcases s.pool.take_load w with ⟨-, hidle⟩ | hless
    · refine hidle ?_
      have hjob := hjobs w
      cases hat : s.pool.worker w with
      | idle => rfl
      | busy job =>
        rw [hat] at hjob
        cases hjob
      | delivering r =>
        rcases deliver_measure h w with ⟨-, hnone | hfull⟩ | hless
        · rw [hat] at hnone
          cases hnone
        · rw [hresponses] at hfull
          exact absurd hfull (by decide)
        · rw [hdeliver] at hless
          exact absurd hless (Nat.lt_irrefl _)
      | gone => exact absurd hat hw
    · rw [hsame] at hless
      exact absurd hless (Nat.lt_irrefl _)
  · have hsame := hstuck (.timer (.ok 0)) trivial
    have hstep : s.step (.timer (.ok 0)) =
        { s with udpLoop := s.udpLoop.step (.timer (.ok 0)) } := if_pos hrun
    rw [hstep] at hsame
    have htimer : s.udpLoop.flushTimer = false := by
      rcases timer_measure (s := s) (.ok 0) with ⟨-, hnone⟩ | hless
      · exact hnone
      · rw [hsame] at hless
        exact absurd hless (Nat.lt_irrefl _)
    by_contra hqueue
    rw [h.timed.set hqueue] at htimer
    cases htimer

omit [DecidableEq W] in
theorem measure_le (h : s.Served) : s.measure ≤ 28673 + 5 * Fintype.card W := by
  have hload := h.pool.load_le
  have hroom := h.room
  unfold TASK_QUEUE at hload
  unfold RESPONSE_QUEUE at hroom
  unfold measure
  split <;> omega

/-- A run of steps that all do something is no longer than what was left to do. -/
theorem works_length {fs : List (Event W)} (h : s.Served) (hworks : ∀ e ∈ fs, e.Works)
    (heffect : Meets step (fun s e => s.step e ≠ s) s fs) :
    fs.length + (run step s fs).measure ≤ s.measure := by
  induction fs generalizing s with
  | nil => simp
  | cons e fs ih =>
    have hless := (works_measure h (hworks e (by simp))).resolve_left heffect.1
    have hrest := ih (h.step e) (fun e he => hworks e (by simp [he])) heffect.2
    rw [run_cons, List.length_cons]
    omega

/-- **Without new packets the server comes to rest**: there are not more than so many steps that do
something, and where none is left, every accepted packet has been handled or its worker panicked,
and every answer has gone to the sender, unless all workers are gone or the loop has ended. -/
theorem udp_settles (es fs : List (Event W)) (hworks : ∀ e ∈ fs, e.Works)
    (heffect : Meets step (fun s e => s.step e ≠ s) (served es) fs) :
    fs.length ≤ 28673 + 5 * Fintype.card W ∧
      ((∀ e : Event W, e.Works → (served (es ++ fs)).step e = served (es ++ fs)) →
        ((∃ w, (served (es ++ fs)).pool.worker w ≠ .gone) →
          ((served (es ++ fs)).pool.handled.map Prod.fst ++ (served (es ++ fs)).pool.lost).Perm
            (served (es ++ fs)).pool.admitted) ∧
        ((served (es ++ fs)).running = true →
          (served (es ++ fs)).udpLoop.sending.sender.queue = [] ∧
            ((∃ w, (served (es ++ fs)).pool.worker w ≠ .gone) →
              (served (es ++ fs)).udpLoop.sending.pushed.Perm
                ((served (es ++ fs)).pool.handled.filterMap Prod.snd)))) := by
  have hlength := works_length (served_inv es) hworks heffect
  have hbound := measure_le (served_inv es)
  refine ⟨by omega, fun hstuck => ?_⟩
  have h := served_inv (es ++ fs)
  have hrests := rests_of_stuck h hstuck
  refine ⟨fun halive => ?_, fun hrun => ⟨hrests.sender hrun, fun halive => ?_⟩⟩
  · exact (h.pool.settled (hrests.queue halive) hrests.jobs hrests.results).1
  · have hpassed := h.passed hrun
    rw [hrests.responses, List.append_nil] at hpassed
    rw [hpassed]
    exact (h.pool.settled (hrests.queue halive) hrests.jobs hrests.results).2

omit [Fintype W] in
/-- The packets of a first batch come to the workers in their order. -/
theorem served_batch (datagrams : List Datagram) (hfits : datagrams.length ≤ MIN_BATCH_SIZE)
    (hsizes : ∀ packet ∈ datagrams.filterMap Datagram.read,
      12 ≤ packet.1.length ∧ packet.1.length ≤ MAX_DNS_PACKET_SIZE) :
    ∃ b, served [(.batch (.ok datagrams) none : Event W)] =
      { (new : UdpServer W) with
        batchRx := b
        pool := run Pool.offer (.new TASK_QUEUE) (datagrams.filterMap Datagram.read) } := by
  obtain ⟨b, -, hbatch⟩ := batch_ok (s := (new : UdpServer W)) BatchIo.layout_new datagrams none
  have hserved : served [(.batch (.ok datagrams) none : Event W)] =
      (new : UdpServer W).batch (.ok datagrams) none := by
    unfold served
    rw [run_cons, run_nil]
    exact step_batch rfl _ _
  have htake : datagrams.take (new : UdpServer W).batchRx.currentBatchSize = datagrams := by
    have hroom := (BatchIo.currentBatchSize_bounds (new : UdpServer W).batchRx).1
    exact List.take_of_length_le (hfits.trans hroom)
  refine ⟨b, ?_⟩
  rw [hserved, hbatch, htake]
  congr 1
  exact run_accept hsizes

/-- Two queries, received in one batch. -/
def twoReceived (p q : Packet) : List (Event Bool) :=
  [.batch (.ok [⟨p.1, some p.2⟩, ⟨q.1, some q.2⟩]) none]

/-- Each has its worker, and the second is answered first. -/
def twoHandled (a b : List UInt8) : List (Event Bool) :=
  [.take false, .take true, .finish true (some b), .deliver true, .finish false (some a),
    .deliver false]

def twoSent : List (Event Bool) := [.response (.ok 0), .response (.ok 0), .timer (.ok 2)]

def twoPool (p q : Packet) (a b : List UInt8) : WorkerPool Bool :=
  let pool := run Pool.offer (.new TASK_QUEUE) [p, q]
  let pool := (pool.take false).take true
  let pool := (pool.finish true (reply (some b))).deliver true
  (pool.finish false (reply (some a))).deliver false

theorem served_twoReceived (p q : Packet) (hsizes : ∀ packet ∈ [p, q],
    12 ≤ packet.1.length ∧ packet.1.length ≤ MAX_DNS_PACKET_SIZE) :
    ∃ batchRx, served (twoReceived p q) =
      { (new : UdpServer Bool) with
        batchRx
        pool := run Pool.offer (.new TASK_QUEUE) [p, q] } := by
  have hread : [Datagram.mk p.1 (some p.2), ⟨q.1, some q.2⟩].filterMap Datagram.read = [p, q] := by
    have hp := Datagram.read_packet (hsizes p (by simp))
    have hq := Datagram.read_packet (hsizes q (by simp))
    simp only [List.filterMap_cons, List.filterMap_nil, hp, hq]
  have hserved := served_batch (W := Bool) [⟨p.1, some p.2⟩, ⟨q.1, some q.2⟩]
    (show 2 ≤ MIN_BATCH_SIZE by decide) (by rwa [hread])
  rwa [hread] at hserved

theorem served_twoHandled (p q : Packet) (hsizes : ∀ packet ∈ [p, q],
    12 ≤ packet.1.length ∧ packet.1.length ≤ MAX_DNS_PACKET_SIZE) (a b : List UInt8) :
    ∃ batchRx, served (twoReceived p q ++ twoHandled a b) =
      { (new : UdpServer Bool) with
        batchRx
        pool := twoPool p q a b
        responses := ⟨RESPONSE_QUEUE, [(b, q.2), (a, p.2)], true, true⟩ } := by
  obtain ⟨batchRx, hbatch⟩ := served_twoReceived p q hsizes
  have hrun : served (twoReceived p q ++ twoHandled a b) =
      run step (served (twoReceived p q)) (twoHandled a b) := run_append _ _ _
  refine ⟨batchRx, ?_⟩
  rw [hrun, hbatch]
  rfl

/-- Two queries of two clients, received. -/
def twoArrived : List (Event Bool) :=
  twoReceived (List.replicate 12 1, ⟨.v4 ⟨10, 0, 0, 2⟩, 4000⟩)
    (List.replicate 12 2, ⟨.v4 ⟨10, 0, 0, 3⟩, 4000⟩)

def twoSettled : List (Event Bool) := twoHandled [1] [2] ++ twoSent

/-- Both are handled and answered, and then nothing is left. -/
theorem udp_settles_two :
    (served (twoArrived ++ twoSettled)).udpLoop.sending.pushed =
        [([2], ⟨.v4 ⟨10, 0, 0, 3⟩, 4000⟩), ([1], ⟨.v4 ⟨10, 0, 0, 2⟩, 4000⟩)] ∧
      (served (twoArrived ++ twoSettled)).udpLoop.sending.pushed.Perm
        ((served (twoArrived ++ twoSettled)).pool.handled.filterMap Prod.snd) := by
  obtain ⟨_, hbatch⟩ : ∃ batchRx, served twoArrived = _ := served_twoReceived _ _ (by decide)
  obtain ⟨_, hhandled⟩ : ∃ batchRx, served (twoArrived ++ twoHandled [1] [2]) = _ :=
    served_twoHandled _ _ (by decide) [1] [2]
  have hend : served (twoArrived ++ twoSettled) =
      run step (served (twoArrived ++ twoHandled [1] [2])) twoSent := by
    unfold twoSettled
    rw [← List.append_assoc]
    exact run_append _ _ _
  have heffect : Meets step (fun s e => s.step e ≠ s) (served twoArrived) twoSettled := by
    have hrun : run step (served twoArrived) (twoHandled [1] [2]) =
        served (twoArrived ++ twoHandled [1] [2]) := (run_append _ _ _).symm
    refine .append ?_ ?_
    · rw [hbatch]
      refine ⟨fun h => ?_, fun h => ?_, fun h => ?_, fun h => ?_, fun h => ?_, fun h => ?_,
        trivial⟩
      · cases congrArg (fun s : UdpServer Bool => s.pool.taken.length) h
      · cases congrArg (fun s : UdpServer Bool => s.pool.taken.length) h
      · cases congrArg (fun s : UdpServer Bool => s.pool.handled.length) h
      · cases congrArg (fun s : UdpServer Bool => s.pool.delivered.length) h
      · cases congrArg (fun s : UdpServer Bool => s.pool.handled.length) h
      · cases congrArg (fun s : UdpServer Bool => s.pool.delivered.length) h
    · rw [hrun, hhandled]
      refine ⟨fun h => ?_, fun h => ?_, timer_ne rfl rfl _, trivial⟩
      · cases congrArg (fun s : UdpServer Bool => s.udpLoop.sending.pushed.length) h
      · cases congrArg (fun s : UdpServer Bool => s.udpLoop.sending.pushed.length) h
  have hworks : ∀ e ∈ twoSettled, e.Works := by
    simp [twoSettled, twoHandled, twoSent, Event.Works]
  have hsettled := (udp_settles twoArrived twoSettled hworks heffect).2
  refine ⟨?_, ((hsettled ?_).2 ?_).2 ⟨true, ?_⟩⟩
  · rw [hend, hhandled]
    rfl
  · rw [hend, hhandled]
    intro e he
    cases e with
    | batch res qps => exact he.elim
    | take w => cases w <;> rfl
    | finish w answer => cases w <;> rfl
    | panic w => exact he.elim
    | deliver w => cases w <;> rfl
    | response res => rfl
    | timer res => rfl
    | cancel => exact he.elim
  · rw [hend, hhandled]
    rfl
  · rw [hend, hhandled]
    exact fun h => by cases h

end UdpServer

end TitanDns
