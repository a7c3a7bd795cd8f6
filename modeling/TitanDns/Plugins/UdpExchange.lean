import TitanDns.Dns.Message

/-!
# Exchanges over plain UDP

`raw_udp_bytes` of the forwarder and `send_udp_query` of the recursive backend, over what the
network does to their sockets: `UdpEnv`, with the deliveries in order of arrival and times in
milliseconds from the first send.

* `recvBy`, `accept`, `attempt` — one timed receive; what is received is decoded, and a truncated
  response is asked for again over TCP.
* `rawUdpBytes`, `sendUdpQuery` — the exchanges; `rawUdpBytes_eq`, `sendUdpQuery_eq` — **the result
  is what the first delivery in time leads to.**
* `OnlyReplies` — only replies are accepted, and nothing else ends the wait for one.

Principal result: `udp_onlyReplies_iff` — **that is so exactly when the first delivery leads to a
reply**, or to nothing while no reply comes after it.
-/

namespace TitanDns

structure SocketAddr where
  ip : IpAddr
  port : UInt16
  deriving DecidableEq

/-- What a socket delivers: a datagram, or an error pending on it. -/
structure Delivery where
  time : Nat
  source : SocketAddr
  content : Except String (List UInt8)

/-- The network during one exchange. -/
structure UdpEnv where
  /-- Creating, binding and connecting the socket. -/
  opened : Except String Unit
  /-- The error of the send with the given number, if it fails. -/
  sendError : List UInt8 → Nat → Option String
  deliveries : List Delivery
  ordered : deliveries.Pairwise fun d e => d.time ≤ e.time
  /-- The frame read in an exchange over TCP. -/
  tcp : Except String (List UInt8)

namespace UdpEnv

/-- A connected socket takes only what comes from its peer. -/
def received (env : UdpEnv) (peer : SocketAddr) : List Delivery :=
  env.deliveries.filter (·.source == peer)

theorem received_ordered (env : UdpEnv) (peer : SocketAddr) :
    (env.received peer).Pairwise fun d e => d.time ≤ e.time := env.ordered.filter _

end UdpEnv

/-! ## Receiving -/

/-- `timeout(.., socket.recv(..))` that ends at the deadline. -/
def recvBy (queue : List Delivery) (deadline : Nat) : Option Delivery :=
  queue.head?.filter fun d => decide (d.time ≤ deadline)

/-- `raw_tcp_bytes`, `send_tcp_query`: the frame read is decoded. -/
def exchangeTcp (codec : Codec) (tcp : Except String (List UInt8)) : Except String Message :=
  match tcp with
  | .error e => .error e
  | .ok bytes =>
    match codec.fromVec bytes with
    | none => .error "decode"
    | some resp => .ok resp

/-- The receive buffer. -/
def UDP_BUFFER : Nat := 4096

/-- The message in a delivery, as far as it fits into the buffer. -/
def decoded (codec : Codec) (d : Delivery) : Option Message :=
  match d.content with
  | .ok bytes => codec.fromVec (bytes.take UDP_BUFFER)
  | .error _ => none

/-- What a delivery leads to. -/
def accept (codec : Codec) (env : UdpEnv) (d : Delivery) : Except String Message :=
  match d.content with
  | .error e => .error e
  | .ok _ =>
    match decoded codec d with
    | none => .error "decode"
    | some resp => if resp.truncated then exchangeTcp codec env.tcp else .ok resp

/-- Send number `n` at `now`, and one timed receive. -/
def attempt (codec : Codec) (env : UdpEnv) (queue : List Delivery) (reqBytes : List UInt8)
    (replyTimeout n now : Nat) (onTimeout : Except String Message) : Except String Message :=
  match env.sendError reqBytes n with
  | some e => .error e
  | none =>
    match recvBy queue (now + replyTimeout) with
    | some d => accept codec env d
    | none => onTimeout

/-! ## The exchanges -/

/-- The loop of `raw_udp_bytes` with the given number of retries left. -/
def udpLoop (codec : Codec) (env : UdpEnv) (queue : List Delivery) (reqBytes : List UInt8)
    (replyTimeout maxRetries : Nat) : Nat → Nat → Except String Message
  | 0, now =>
    attempt codec env queue reqBytes replyTimeout maxRetries now
      (.error ("UDP timeout after " ++ toString maxRetries ++ " retries"))
  | left + 1, now =>
    attempt codec env queue reqBytes replyTimeout (maxRetries - (left + 1)) now
      (udpLoop codec env queue reqBytes replyTimeout maxRetries left (now + replyTimeout))

def rawUdpBytes (codec : Codec) (env : UdpEnv) (addr : SocketAddr)
    (replyTimeout maxRetries : Nat) (reqBytes : List UInt8) : Except String Message :=
  match env.opened with
  | .error e => .error e
  | .ok () =>
    udpLoop codec env (env.received addr) reqBytes replyTimeout maxRetries maxRetries 0

/-- Two seconds. -/
def UDP_QUERY_TIMEOUT : Nat := 2000

def sendUdpQuery (codec : Codec) (env : UdpEnv) (server : IpAddr) (msg : Message) :
    Except String Message :=
  match env.opened with
  | .error e => .error e
  | .ok () =>
    match codec.toVec msg with
    | none => .error "encode"
    | some reqBytes =>
      attempt codec env (env.received ⟨server, 53⟩) reqBytes UDP_QUERY_TIMEOUT 0 0
        (.error "deadline has elapsed")

/-! ## The first delivery in time -/

/-- The result is what the first of the deliveries leads to. -/
def FirstDecides (codec : Codec) (env : UdpEnv) (inTime : List Delivery)
    (result : Except String Message) : Prop :=
  match inTime.head? with
  | some d => result = accept codec env d
  | none => ∃ e, result = .error e

/-- The deliveries that arrive by the deadline. -/
def arrivedBy (queue : List Delivery) (deadline : Nat) : List Delivery :=
  queue.filter fun d => decide (d.time ≤ deadline)

theorem head_arrivedBy {queue : List Delivery} (h : queue.Pairwise fun d e => d.time ≤ e.time)
    (deadline : Nat) : (arrivedBy queue deadline).head? = recvBy queue deadline := by
  unfold arrivedBy recvBy
  cases queue with
  | nil => rfl
  | cons d queue =>
    rw [List.filter_cons, List.head?_cons]
    by_cases hd : d.time ≤ deadline
    · simp [Option.filter, hd]
    · have hlate : queue.filter (fun e => decide (e.time ≤ deadline)) = [] := by
        rw [List.filter_eq_nil_iff]
        intro e he
        have := List.rel_of_pairwise_cons h he
        simp only [decide_eq_true_eq]
        omega
      simp [Option.filter, hd, hlate]

/-- How many sends succeed, from send number `n` on, with the given number of retries left. -/
def sendsFrom (env : UdpEnv) (reqBytes : List UInt8) (maxRetries : Nat) : Nat → Nat
  | 0 => if (env.sendError reqBytes maxRetries).isSome then 0 else 1
  | left + 1 =>
    if (env.sendError reqBytes (maxRetries - (left + 1))).isSome then 0
    else 1 + sendsFrom env reqBytes maxRetries left

/-- What arrives during the given number of waits. -/
def arrivedDuring (queue : List Delivery) (now replyTimeout sends : Nat) : List Delivery :=
  if sends = 0 then [] else arrivedBy queue (now + sends * replyTimeout)

section
variable {codec : Codec} {env : UdpEnv} {queue : List Delivery} {reqBytes : List UInt8}
  {replyTimeout maxRetries : Nat}

theorem attempt_sendError {n now : Nat} {onTimeout : Except String Message}
    (h : (env.sendError reqBytes n).isSome = true) :
    ∃ e, attempt codec env queue reqBytes replyTimeout n now onTimeout = .error e := by
  obtain ⟨e, he⟩ := Option.isSome_iff_exists.mp h
  exact ⟨e, by rw [attempt, he]⟩

theorem attempt_sent {n now : Nat} {onTimeout : Except String Message}
    (h : ¬ (env.sendError reqBytes n).isSome = true) :
    attempt codec env queue reqBytes replyTimeout n now onTimeout =
      match recvBy queue (now + replyTimeout) with
      | some d => accept codec env d
      | none => onTimeout := by
  have hnone : env.sendError reqBytes n = none := by simpa using h
  rw [attempt, hnone]

/-- One send and one wait. -/
theorem attempt_firstDecides (h : queue.Pairwise fun d e => d.time ≤ e.time) (n now : Nat)
    {onTimeout : Except String Message} (htimeout : ∃ e, onTimeout = .error e) :
    FirstDecides codec env
      (arrivedDuring queue now replyTimeout (if (env.sendError reqBytes n).isSome then 0 else 1))
      (attempt codec env queue reqBytes replyTimeout n now onTimeout) := by
  by_cases herr : (env.sendError reqBytes n).isSome = true
  · simp only [if_pos herr]
    exact attempt_sendError herr
  · simp only [if_neg herr]
    rw [attempt_sent herr, arrivedDuring, if_neg Nat.one_ne_zero, Nat.one_mul, FirstDecides,
      head_arrivedBy h]
    cases recvBy queue (now + replyTimeout) with
    | some d => rfl
    | none => exact htimeout

/-- A delivery that one wait receives is the first of a longer one. -/
theorem recvBy_mono {d : Delivery} {deadline later : Nat} (h : recvBy queue deadline = some d)
    (hle : deadline ≤ later) : recvBy queue later = some d := by
  unfold recvBy at h ⊢
  obtain ⟨hhead, htime⟩ := Option.filter_eq_some_iff.mp h
  rw [Option.filter_eq_some_iff]
  refine ⟨hhead, ?_⟩
  simp only [decide_eq_true_eq] at htime ⊢
  omega

/-- **The waits of the loop are one long wait.** -/
theorem udpLoop_firstDecides (h : queue.Pairwise fun d e => d.time ≤ e.time) (left now : Nat) :
    FirstDecides codec env
      (arrivedDuring queue now replyTimeout (sendsFrom env reqBytes maxRetries left))
      (udpLoop codec env queue reqBytes replyTimeout maxRetries left now) := by
  induction left generalizing now with
  | zero =>
    unfold sendsFrom udpLoop
    exact attempt_firstDecides h maxRetries now ⟨_, rfl⟩
  | succ left ih =>
    unfold sendsFrom udpLoop
    by_cases herr : (env.sendError reqBytes (maxRetries - (left + 1))).isSome = true
    · rw [if_pos herr]
      exact attempt_sendError herr
    · rw [if_neg herr, attempt_sent herr]
      have hrest := ih (now + replyTimeout)
      generalize sendsFrom env reqBytes maxRetries left = sends at hrest ⊢
      have hdeadline : now + (1 + sends) * replyTimeout =
          now + replyTimeout + sends * replyTimeout := by
        rw [Nat.add_mul, Nat.one_mul, Nat.add_assoc]
      unfold arrivedDuring at hrest ⊢
      rw [if_neg (by omega), hdeadline]
      unfold FirstDecides at hrest ⊢
      rw [head_arrivedBy h]
      cases hrecv : recvBy queue (now + replyTimeout) with
      | some d => rw [recvBy_mono hrecv (Nat.le_add_right _ _)]
      | none =>
        simp only
        by_cases hzero : sends = 0
        · rw [if_pos hzero] at hrest
          rw [hzero, Nat.zero_mul, Nat.add_zero, hrecv]
          exact hrest
        · rw [if_neg hzero, head_arrivedBy h] at hrest
          exact hrest

end

/-- What arrives before `rawUdpBytes` gives up. -/
def rawInTime (env : UdpEnv) (addr : SocketAddr) (replyTimeout maxRetries : Nat)
    (reqBytes : List UInt8) : List Delivery :=
  match env.opened with
  | .error _ => []
  | .ok () =>
    arrivedDuring (env.received addr) 0 replyTimeout (sendsFrom env reqBytes maxRetries maxRetries)

/-- What arrives before `sendUdpQuery` gives up. -/
def queryInTime (codec : Codec) (env : UdpEnv) (server : IpAddr) (msg : Message) : List Delivery :=
  match env.opened, codec.toVec msg with
  | .ok (), some reqBytes =>
    arrivedDuring (env.received ⟨server, 53⟩) 0 UDP_QUERY_TIMEOUT (sendsFrom env reqBytes 0 0)
  | _, _ => []

theorem rawUdpBytes_eq (codec : Codec) (env : UdpEnv) (addr : SocketAddr)
    (replyTimeout maxRetries : Nat) (reqBytes : List UInt8) :
    FirstDecides codec env (rawInTime env addr replyTimeout maxRetries reqBytes)
      (rawUdpBytes codec env addr replyTimeout maxRetries reqBytes) := by
  unfold rawInTime rawUdpBytes
  cases env.opened with
  | error e => exact ⟨e, rfl⟩
  | ok _ => exact udpLoop_firstDecides (env.received_ordered addr) maxRetries 0

theorem sendUdpQuery_eq (codec : Codec) (env : UdpEnv) (server : IpAddr) (msg : Message) :
    FirstDecides codec env (queryInTime codec env server msg)
      (sendUdpQuery codec env server msg) := by
  unfold queryInTime sendUdpQuery
  cases env.opened with
  | error e => exact ⟨e, rfl⟩
  | ok _ =>
    cases codec.toVec msg with
    | none => exact ⟨_, rfl⟩
    | some reqBytes =>
      exact attempt_firstDecides (env.received_ordered ⟨server, 53⟩) 0 0 ⟨_, rfl⟩

/-! ## Only replies -/

/-- The message has the ID and the question of the request; names are compared up to case. -/
def RepliesTo (req m : Message) : Prop :=
  m.id = req.id ∧ m.query.map Question.folded = req.query.map Question.folded

instance (req m : Message) : Decidable (RepliesTo req m) :=
  inferInstanceAs (Decidable (_ ∧ _))

/-- A datagram with a reply to the request. -/
def IsReply (codec : Codec) (req : Message) (d : Delivery) : Prop :=
  ∃ m, decoded codec d = some m ∧ RepliesTo req m

/-- The first reply that arrives, with nothing but other datagrams before it. -/
def RightOne (codec : Codec) (req : Message) (inTime : List Delivery) (d : Delivery) : Prop :=
  ∃ before rest, inTime = before ++ d :: rest ∧ IsReply codec req d ∧
    ∀ e ∈ before, (∃ bytes, e.content = .ok bytes) ∧ ¬ IsReply codec req e

/-- Only replies are accepted, and other datagrams do not end the wait for the right one: if that
leads to a message, the exchange gives one. -/
structure OnlyReplies (codec : Codec) (env : UdpEnv) (req : Message) (inTime : List Delivery)
    (result : Except String Message) : Prop where
  only : ∀ m, result = .ok m → RepliesTo req m
  waits : ∀ d m, RightOne codec req inTime d → accept codec env d = .ok m →
    ∃ m', result = .ok m'

/-- The first delivery leads to a reply, or it leads to no message and neither does the right
one. -/
def FirstIsReply (codec : Codec) (env : UdpEnv) (req : Message) (inTime : List Delivery) : Prop :=
  ∀ first, inTime.head? = some first →
    match accept codec env first with
    | .ok m => RepliesTo req m
    | .error _ => ∀ d m, RightOne codec req inTime d → accept codec env d ≠ .ok m

theorem onlyReplies_iff {codec : Codec} {env : UdpEnv} {req : Message} {inTime : List Delivery}
    {result : Except String Message} (h : FirstDecides codec env inTime result) :
    OnlyReplies codec env req inTime result ↔ FirstIsReply codec env req inTime := by
  unfold FirstDecides at h
  unfold FirstIsReply
  cases hhead : inTime.head? with
  | none =>
    -- nothing arrives, so there is no right one
    rw [hhead] at h
    obtain ⟨e, rfl⟩ := h
    have hnil : inTime = [] := List.head?_eq_none_iff.mp hhead
    refine ⟨fun _ first hfirst => (by cases hfirst), fun _ => ⟨fun m hm => (by cases hm), ?_⟩⟩
    rintro d m ⟨before, rest, heq, -⟩
    rw [hnil] at heq
    cases before <;> cases heq
  | some first =>
    rw [hhead] at h
    simp only at h
    subst h
    constructor
    · rintro ⟨honly, hwaits⟩ first' heq
      obtain rfl := Option.some.inj heq
      cases haccept : accept codec env first with
      | ok m => exact honly m haccept
      | error e =>
        intro d m hright hm
        obtain ⟨m', hm'⟩ := hwaits d m hright hm
        rw [haccept] at hm'
        cases hm'
    · intro hfirst
      have hfirst := hfirst first rfl
      cases haccept : accept codec env first with
      | ok m =>
        rw [haccept] at hfirst
        refine ⟨fun m' hm' => ?_, fun d m' _ _ => ⟨m, rfl⟩⟩
        cases hm'
        exact hfirst
      | error e =>
        rw [haccept] at hfirst
        exact ⟨fun m' hm' => (by cases hm'), fun d m hright hm => absurd hm (hfirst d m hright)⟩

/-- **Only replies are accepted, by either exchange, exactly when** what arrives first leads to a
reply, or to no message when the right one does not either. -/
theorem udp_onlyReplies_iff (codec : Codec) (env : UdpEnv) (req : Message) :
    (∀ addr replyTimeout maxRetries reqBytes,
      OnlyReplies codec env req (rawInTime env addr replyTimeout maxRetries reqBytes)
        (rawUdpBytes codec env addr replyTimeout maxRetries reqBytes) ↔
      FirstIsReply codec env req (rawInTime env addr replyTimeout maxRetries reqBytes)) ∧
    ∀ server,
      OnlyReplies codec env req (queryInTime codec env server req)
        (sendUdpQuery codec env server req) ↔
      FirstIsReply codec env req (queryInTime codec env server req) :=
  ⟨fun addr replyTimeout maxRetries reqBytes =>
      onlyReplies_iff (rawUdpBytes_eq codec env addr replyTimeout maxRetries reqBytes),
    fun server => onlyReplies_iff (sendUdpQuery_eq codec env server req)⟩

/-- A response with ID 0 and no answers. -/
def emptyReply : Message := { messageType := .response, queries := [exampleQuestion] }

def emptyReplyBytes : List UInt8 := [0, 0, 0x80, 0, 0, 1, 0, 0, 0, 0, 0, 0] ++ exampleQuestion.wire

/-- The library on that response. -/
def emptyReplyCodec : Codec :=
  .ofTable [(emptyReply, emptyReplyBytes)] [(exampleQuestion.name, "www.example.com.")]

/-- It comes within a millisecond, under the address of the server. -/
def spoofedEnv : UdpEnv where
  opened := .ok ()
  sendError _ _ := none
  deliveries := [⟨1, ⟨.v4 ⟨192, 0, 2, 53⟩, 53⟩, .ok emptyReplyBytes⟩]
  ordered := List.pairwise_singleton _ _
  tcp := .error "refused"

/-- A response with another ID is accepted. -/
theorem spoofed_reply_accepted :
    ¬ ∀ (codec : Codec) (env : UdpEnv) (req : Message),
      (∀ addr replyTimeout maxRetries reqBytes,
        OnlyReplies codec env req (rawInTime env addr replyTimeout maxRetries reqBytes)
          (rawUdpBytes codec env addr replyTimeout maxRetries reqBytes)) ∧
      ∀ server,
        OnlyReplies codec env req (queryInTime codec env server req)
          (sendUdpQuery codec env server req) := by
  intro h
  have honly := ((h emptyReplyCodec spoofedEnv { id := 7, queries := [exampleQuestion] }).1
    ⟨.v4 ⟨192, 0, 2, 53⟩, 53⟩ 500 1 []).only emptyReply (by rfl)
  revert honly
  decide +kernel

end TitanDns
