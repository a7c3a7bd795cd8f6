import TitanDns.Lib.LittleEndian
import TitanDns.Lib.Run
import TitanDns.Plugins.UdpExchange
import Mathlib.Logic.Function.Basic

/-!
# DoQ over a SOCKS5 tunnel

`raw_doq_via_socks5_bytes`: the queries of all clients go one after the other through one UDP
socket, under a mutex that is held from the send to the end of the wait.

* `packet`, `recvFrom` — the datagrams of `Socks5UdpTunnel`; `recvFrom_packet` — **what is read back
  is the payload**.
* `Tunnel`, `step` — the mutex, the socket and the queries; the environment delivers replies,
  whenever and as often as it likes, and ends waits.
* `Paired` — a message returned to a query is the reply to that query.

Principal results: `paired_of_onTime` — **that is so in every run in which a reply arrives only
while its query waits, and no query is sent while one is left in the socket**; `receive_stale` — **a
reply that is left is what the next query gets.**
-/

namespace TitanDns.Socks5

open Run

/-! ## Datagrams -/

/-- The `k` low octets of a number, most significant first. -/
def octets : Nat → Nat → List UInt8
  | 0, _ => []
  | k + 1, n => octets k (n / 256) ++ [UInt8.ofNat n]

/-- `from_be_bytes` -/
def beValue (bs : List UInt8) : Nat := bs.foldl (fun n b => n * 256 + b.toNat) 0

theorem octets_eq (k n : Nat) : octets k n = (leBytes k n).reverse := by
  induction k generalizing n with
  | zero => rfl
  | succ k ih => rw [octets, leBytes, List.reverse_cons, ih]

theorem beValue_reverse (bs : List UInt8) : beValue bs.reverse = leNat bs := by
  unfold beValue leNat
  rw [List.foldl_reverse]
  simp only [Nat.mul_comm, Nat.add_comm]

@[simp] theorem octets_length (k n : Nat) : (octets k n).length = k := by
  rw [octets_eq, List.length_reverse, leBytes_length]

theorem beValue_octets {k n : Nat} (h : n < 256 ^ k) : beValue (octets k n) = n := by
  rw [octets_eq, beValue_reverse, leNat_leBytes h]

/-- RSV, FRAG, ATYP, address and port. -/
def header (target : SocketAddr) : List UInt8 :=
  match target.ip with
  | .v4 ip => [0, 0, 0, 1, ip.a, ip.b, ip.c, ip.d] ++ octets 2 target.port.toNat
  | .v6 ip =>
    [0, 0, 0, 4] ++ octets 8 ip.high.toNat ++ octets 8 ip.low.toNat ++ octets 2 target.port.toNat

/-- The datagram of `send_to`. -/
def packet (target : SocketAddr) (data : List UInt8) : List UInt8 := header target ++ data

/-- The sender in the header of a datagram, and where its payload starts. -/
def source (data : List UInt8) : Except String (SocketAddr × Nat) :=
  match data.drop 3 with
  | 1 :: a :: b :: c :: d :: rest =>
    .ok (⟨.v4 ⟨a, b, c, d⟩, UInt16.ofNat (beValue (rest.take 2))⟩, 10)
  | 4 :: rest =>
    if data.length < 22 then .error "Invalid SOCKS5 UDP response"
    else
      .ok (⟨.v6 ⟨UInt64.ofNat (beValue (rest.take 8)),
        UInt64.ofNat (beValue ((rest.drop 8).take 8))⟩,
        UInt16.ofNat (beValue ((rest.drop 16).take 2))⟩, 22)
  | _ => .error "Unsupported ATYP in response"

/-- `recv_from` into a buffer of the given length. -/
def recvFrom (datagram : List UInt8) (bufLen : Nat) : Except String (List UInt8 × SocketAddr) :=
  let data := datagram.take (bufLen + 64)
  if data.length < 10 then .error "Invalid SOCKS5 UDP response"
  else
    match source data with
    | .error e => .error e
    | .ok (addr, offset) =>
      if bufLen < data.length - offset then .error "Buffer too small"
      else .ok (data.drop offset, addr)

theorem header_length (target : SocketAddr) :
    10 ≤ (header target).length ∧ (header target).length ≤ 22 := by
  unfold header
  split <;> simp

/-- The header says who sent the packet, and how long it is. -/
theorem source_packet (target : SocketAddr) (data : List UInt8) :
    source (packet target data) = .ok (target, (header target).length) := by
  obtain ⟨ip, port⟩ := target
  have hport : UInt16.ofNat (beValue (octets 2 port.toNat)) = port := by
    rw [beValue_octets (by have := port.toNat_lt; omega), UInt16.ofNat_toNat]
  cases ip with
  | v4 ip =>
    have hdrop : (packet ⟨.v4 ip, port⟩ data).drop 3 =
        1 :: ip.a :: ip.b :: ip.c :: ip.d :: (octets 2 port.toNat ++ data) := by
      simp [packet, header]
    unfold source
    rw [hdrop]
    simp only
    rw [List.take_left' (octets_length 2 _), hport]
    simp [header]
  | v6 ip =>
    have hlen : ¬ (packet ⟨.v6 ip, port⟩ data).length < 22 := by
      simp [packet, header]
      omega
    have hhigh : UInt64.ofNat (beValue (octets 8 ip.high.toNat)) = ip.high := by
      rw [beValue_octets (by have := ip.high.toNat_lt; omega), UInt64.ofNat_toNat]
    have hlow : UInt64.ofNat (beValue (octets 8 ip.low.toNat)) = ip.low := by
      rw [beValue_octets (by have := ip.low.toNat_lt; omega), UInt64.ofNat_toNat]
    have hdrop : (packet ⟨.v6 ip, port⟩ data).drop 3 =
        4 :: (octets 8 ip.high.toNat ++ (octets 8 ip.low.toNat ++
          (octets 2 port.toNat ++ data))) := by
      simp [packet, header]
    unfold source
    rw [hdrop]
    simp only
    rw [if_neg hlen, List.take_left' (octets_length 8 _), List.drop_left' (octets_length 8 _),
      List.take_left' (octets_length 8 _), hhigh, hlow]
    have hrest : (octets 8 ip.high.toNat ++ (octets 8 ip.low.toNat ++
        (octets 2 port.toNat ++ data))).drop 16 = octets 2 port.toNat ++ data := by
      rw [← List.append_assoc]
      exact List.drop_left' (by simp)
    rw [hrest, List.take_left' (octets_length 2 _), hport]
    simp [header]

/-- **What is read back is the payload, and who sent it.** -/
theorem recvFrom_packet (target : SocketAddr) {data : List UInt8} {bufLen : Nat}
    (h : data.length ≤ bufLen) :
    recvFrom (packet target data) bufLen = .ok (data, target) := by
  have hheader := header_length target
  have hlen : (packet target data).length = (header target).length + data.length :=
    List.length_append
  have htake : (packet target data).take (bufLen + 64) = packet target data :=
    List.take_of_length_le (by omega)
  have hdrop : (packet target data).drop (header target).length = data := List.drop_left
  unfold recvFrom
  simp only [htake, source_packet, hdrop]
  rw [if_neg (by omega), if_neg (by omega)]

/-! ## The tunnel -/

section
variable (codec : Codec) (queries : Nat → Message)

/-- The receive buffer of a query. -/
def RESP_BUFFER : Nat := 4096

/-- What is made of a datagram. -/
def readReply (datagram : List UInt8) : Except String Message :=
  match recvFrom datagram RESP_BUFFER with
  | .error e => .error ("SOCKS5 UDP recv failed: " ++ e)
  | .ok (payload, _) =>
    match codec.fromVec payload with
    | none => .error "decode"
    | some m => .ok m

/-- A reply to the query with the given number, or a duplicate of one. -/
structure Reply where
  query : Nat
  datagram : List UInt8
  replies : ∀ m, readReply codec datagram = .ok m → RepliesTo (queries query) m

/-- Where a query is in `raw_doq_via_socks5_bytes`. -/
inductive Phase where
  | idle
  /-- The tunnel exists; its lock is released. -/
  | ready
  /-- Sent, and waiting with the lock held. -/
  | waiting
  /-- A datagram was read. -/
  | received (r : Reply codec queries)
  | failed (error : String)
  /-- The future was dropped. -/
  | cancelled

/-- The result of a query that has returned. -/
def Phase.result {codec : Codec} {queries : Nat → Message} :
    Phase codec queries → Option (Except String Message)
  | .received r => some (readReply codec r.datagram)
  | .failed e => some (.error e)
  | _ => none

structure Tunnel where
  connected : Bool
  /-- Who holds the lock across a send and the wait after it. -/
  holder : Option Nat
  /-- The receive queue of the socket. -/
  socket : List (Reply codec queries)
  phase : Nat → Phase codec queries

inductive Event where
  /-- The first locked section, with the outcome of a connect. -/
  | setUp (i : Nat) (connect : Except String Unit)
  | send (i : Nat) (outcome : Except String Unit)
  | deliver (r : Reply codec queries)
  | receive (i : Nat)
  /-- The wait ends without a datagram: a timeout, or an error of the socket. -/
  | giveUp (i : Nat) (error : String)
  | cancel (i : Nat)

def Tunnel.init : Tunnel codec queries := ⟨false, none, [], fun _ => .idle⟩

variable {codec queries}

/-- The phase of one query changes. -/
def Tunnel.enter (t : Tunnel codec queries) (i : Nat) (p : Phase codec queries) :
    Tunnel codec queries := { t with phase := Function.update t.phase i p }

/-- The guard of the holder is dropped. -/
def Tunnel.release (t : Tunnel codec queries) (i : Nat) : Tunnel codec queries :=
  { t with holder := if t.holder = some i then none else t.holder }

namespace Tunnel

def setUp (t : Tunnel codec queries) (i : Nat) (connect : Except String Unit) :
    Tunnel codec queries :=
  match t.holder, t.phase i with
  | none, .idle =>
    if t.connected then t.enter i .ready
    else
      match connect with
      | .ok () => { t.enter i .ready with connected := true }
      | .error e => t.enter i (.failed ("SOCKS5 UDP tunnel failed: " ++ e))
  | _, _ => t

def send (t : Tunnel codec queries) (i : Nat) (outcome : Except String Unit) :
    Tunnel codec queries :=
  match t.holder, t.phase i with
  | none, .ready =>
    match outcome with
    | .ok () => { t.enter i .waiting with holder := some i }
    | .error e => t.enter i (.failed ("SOCKS5 UDP send failed: " ++ e))
  | _, _ => t

def deliver (t : Tunnel codec queries) (r : Reply codec queries) : Tunnel codec queries :=
  { t with socket := t.socket ++ [r] }

def receive (t : Tunnel codec queries) (i : Nat) : Tunnel codec queries :=
  match t.phase i, t.socket with
  | .waiting, r :: rest => { (t.enter i (.received r)).release i with socket := rest }
  | _, _ => t

def giveUp (t : Tunnel codec queries) (i : Nat) (error : String) : Tunnel codec queries :=
  match t.phase i with
  | .waiting => (t.enter i (.failed error)).release i
  | _ => t

def cancel (t : Tunnel codec queries) (i : Nat) : Tunnel codec queries :=
  match t.phase i with
  | .received _ => t
  | .failed _ => t
  | _ => (t.enter i .cancelled).release i

end Tunnel

def step (t : Tunnel codec queries) : Event codec queries → Tunnel codec queries
  | .setUp i connect => t.setUp i connect
  | .send i outcome => t.send i outcome
  | .deliver r => t.deliver r
  | .receive i => t.receive i
  | .giveUp i error => t.giveUp i error
  | .cancel i => t.cancel i

/-- A message returned to a query is the reply to that query, with its ID and its question. -/
def Paired (t : Tunnel codec queries) : Prop :=
  ∀ i m, (t.phase i).result = some (.ok m) →
    (∃ r, t.phase i = .received r ∧ r.query = i) ∧ RepliesTo (queries i) m

/-- A reply arrives only while its query waits, and a query is sent only when none is left. -/
def OnTime (t : Tunnel codec queries) : Event codec queries → Prop
  | .deliver r => t.holder = some r.query
  | .send _ _ => t.socket = []
  | _ => True

/-- What holds along a run in time. -/
structure Inv (t : Tunnel codec queries) : Prop where
  held : ∀ i, t.phase i = .waiting ↔ t.holder = some i
  own : ∀ i, t.holder = some i → ∀ r ∈ t.socket, r.query = i
  received : ∀ i r, t.phase i = .received r → r.query = i

theorem Inv.init : Inv (Tunnel.init codec queries) where
  held i := ⟨fun h => (by cases h), fun h => (by cases h)⟩
  own i h := by cases h
  received i r h := by cases h

@[simp] theorem enter_phase (t : Tunnel codec queries) (i : Nat) (p : Phase codec queries) :
    (t.enter i p).phase i = p := Function.update_self ..

theorem enter_phase_of_ne (t : Tunnel codec queries) {i j : Nat} (h : j ≠ i)
    (p : Phase codec queries) : (t.enter i p).phase j = t.phase j := Function.update_of_ne h ..

/-- A query that stops waiting, or never waited, leaves the lock free of it. -/
theorem Inv.leave {t : Tunnel codec queries} (h : Inv t) (i : Nat) {p : Phase codec queries}
    (hp : p ≠ .waiting) (hown : ∀ r, p = .received r → r.query = i)
    {socket : List (Reply codec queries)} (hsocket : ∀ r ∈ socket, r ∈ t.socket)
    (connected : Bool) :
    Inv { (t.enter i p).release i with socket := socket, connected := connected } := by
  have hholder : ∀ j, (if t.holder = some i then none else t.holder) = some j ↔
      t.holder = some j ∧ j ≠ i := by
    intro j
    split
    · rename_i hi
      rw [hi]
      refine ⟨fun hj => (by cases hj), fun hj => ?_⟩
      exact absurd (Option.some.inj hj.1).symm hj.2
    · rename_i hi
      refine ⟨fun hj => ⟨hj, ?_⟩, fun hj => hj.1⟩
      rintro rfl
      exact hi hj
  constructor
  · intro j
    show (t.enter i p).phase j = .waiting ↔ (if t.holder = some i then none else t.holder) = some j
    rw [hholder]
    by_cases hj : j = i
    · subst hj
      rw [enter_phase]
      exact ⟨fun hw => absurd hw hp, fun hw => absurd rfl hw.2⟩
    · rw [enter_phase_of_ne t hj, h.held]
      exact ⟨fun hw => ⟨hw, hj⟩, fun hw => hw.1⟩
  · intro j hj r hr
    exact h.own j ((hholder j).mp hj).1 r (hsocket r hr)
  · intro j r hr
    have hr : (t.enter i p).phase j = .received r := hr
    by_cases hj : j = i
    · subst hj
      rw [enter_phase] at hr
      exact hown r hr
    · rw [enter_phase_of_ne t hj] at hr
      exact h.received j r hr

theorem release_of_none {t : Tunnel codec queries} (h : t.holder = none) (i : Nat)
    (p : Phase codec queries) : (t.enter i p).release i = t.enter i p := by
  have hnone : (t.enter i p).holder = none := h
  unfold Tunnel.release
  rw [hnone]
  simp [← hnone]

theorem setUp_inv {t : Tunnel codec queries} (h : Inv t) (i : Nat) (connect : Except String Unit) :
    Inv (t.setUp i connect) := by
  unfold Tunnel.setUp
  split
  · rename_i hnone hidle
    have hready := fun connected => h.leave i (p := .ready) (by simp) (by simp) (fun _ hr => hr)
      connected
    have hfailed := fun e => h.leave i (p := .failed e) (by simp) (by simp) (fun _ hr => hr)
      t.connected
    simp only [release_of_none hnone i] at hready hfailed
    split
    · exact hready t.connected
    split
    · exact hready true
    · exact hfailed _
  · exact h

/-- A query is sent when nobody waits and the socket is empty. -/
theorem send_inv {t : Tunnel codec queries} (h : Inv t) (i : Nat) (outcome : Except String Unit)
    (hempty : t.socket = []) : Inv (t.send i outcome) := by
  unfold Tunnel.send
  split
  · rename_i hnone hready
    split
    · constructor
      · intro j
        show (t.enter i .waiting).phase j = .waiting ↔ some i = some j
        by_cases hj : j = i
        · subst hj
          simp
        · rw [enter_phase_of_ne t hj, h.held, hnone]
          simp [Ne.symm hj]
      · intro j hj r hr
        have hr : r ∈ t.socket := hr
        rw [hempty] at hr
        cases hr
      · intro j r hr
        have hr : (t.enter i .waiting).phase j = .received r := hr
        by_cases hj : j = i
        · subst hj
          rw [enter_phase] at hr
          cases hr
        · rw [enter_phase_of_ne t hj] at hr
          exact h.received j r hr
    · have hfailed := fun e => h.leave i (p := .failed e) (by simp) (by simp) (fun _ hr => hr)
        t.connected
      simp only [release_of_none hnone i] at hfailed
      exact hfailed _
  · exact h

/-- A reply is delivered to the query that waits for it. -/
theorem deliver_inv {t : Tunnel codec queries} (h : Inv t) {r : Reply codec queries}
    (hholder : t.holder = some r.query) : Inv (t.deliver r) := by
  constructor
  · exact h.held
  · intro j hj r' hr'
    rcases List.mem_append.mp hr' with hr' | hr'
    · exact h.own j hj r' hr'
    · obtain rfl := List.mem_singleton.mp hr'
      have hj : t.holder = some j := hj
      rw [hholder] at hj
      exact Option.some.inj hj
  · exact h.received

theorem receive_inv {t : Tunnel codec queries} (h : Inv t) (i : Nat) : Inv (t.receive i) := by
  unfold Tunnel.receive
  split
  · rename_i r rest hwaiting hsocket
    have hholder := (h.held i).mp hwaiting
    have hmem : ∀ r' ∈ rest, r' ∈ t.socket := by
      intro r' hr'
      rw [hsocket]
      exact List.mem_cons_of_mem _ hr'
    refine h.leave i (by simp) ?_ hmem t.connected
    rintro r' ⟨⟩
    exact h.own i hholder r (by rw [hsocket]; exact List.mem_cons_self)
  · exact h

theorem giveUp_inv {t : Tunnel codec queries} (h : Inv t) (i : Nat) (error : String) :
    Inv (t.giveUp i error) := by
  unfold Tunnel.giveUp
  split
  · exact h.leave i (by simp) (by simp) (fun _ hr => hr) t.connected
  · exact h

theorem cancel_inv {t : Tunnel codec queries} (h : Inv t) (i : Nat) : Inv (t.cancel i) := by
  unfold Tunnel.cancel
  split
  · exact h
  · exact h
  · exact h.leave i (by simp) (by simp) (fun _ hr => hr) t.connected

/-- **A step in time keeps the invariant.** -/
theorem step_inv {t : Tunnel codec queries} (h : Inv t) (e : Event codec queries)
    (hok : OnTime t e) : Inv (step t e) := by
  cases e with
  | setUp i connect => exact setUp_inv h i connect
  | send i outcome => exact send_inv h i outcome hok
  | deliver r => exact deliver_inv h hok
  | receive i => exact receive_inv h i
  | giveUp i error => exact giveUp_inv h i error
  | cancel i => exact cancel_inv h i

/-- What the invariant says about what is returned. -/
theorem Inv.paired {t : Tunnel codec queries} (h : Inv t) : Paired t := by
  intro i m hm
  cases hphase : t.phase i with
  | received r =>
    rw [hphase] at hm
    have hquery := h.received i r hphase
    have hreplies := r.replies m (Option.some.inj hm)
    rw [hquery] at hreplies
    exact ⟨⟨r, rfl, hquery⟩, hreplies⟩
  | idle | ready | waiting | failed _ | cancelled =>
    rw [hphase] at hm
    cases hm

/-- **A message returned to a query is the reply to it, in every run in time.** -/
theorem paired_of_onTime (es : List (Event codec queries))
    (h : Meets step OnTime (Tunnel.init codec queries) es) :
    Paired (run step (Tunnel.init codec queries) es) := by
  have hstep : ∀ (t : Tunnel codec queries) e, Inv t → OnTime t e → Inv (step t e) :=
    fun _ e hinv hok => step_inv hinv e hok
  exact (invariant hstep Inv.init h).paired

/-- Queries for one name, with their numbers as IDs. -/
def numberedQueries (i : Nat) : Message := { id := UInt16.ofNat i, queries := [exampleQuestion] }

/-- The server's reply to the query with ID 0, as the relay passes it on. -/
def firstReply : Reply emptyReplyCodec numberedQueries where
  query := 0
  datagram := packet ⟨.v4 ⟨192, 0, 2, 53⟩, 853⟩ emptyReplyBytes
  replies m h := by
    have hread : readReply emptyReplyCodec (packet ⟨.v4 ⟨192, 0, 2, 53⟩, 853⟩ emptyReplyBytes) =
        .ok emptyReply := by
      unfold readReply
      rw [recvFrom_packet _ (by decide)]
      rfl
    rw [hread] at h
    cases h
    decide

theorem paired_of_onTime_firstReply :
    Paired (run step (Tunnel.init emptyReplyCodec numberedQueries)
      [.setUp 0 (.ok ()), .send 0 (.ok ()), .deliver firstReply, .receive 0]) :=
  paired_of_onTime _ ⟨trivial, rfl, rfl, trivial, trivial⟩

/-- The first query times out, its reply arrives, and the second query gets it. -/
theorem late_reply_returned :
    ¬ ∀ (codec : Codec) (queries : Nat → Message) (es : List (Event codec queries)),
      Paired (run step (Tunnel.init codec queries) es) := by
  intro h
  have hpaired := h emptyReplyCodec numberedQueries
    [.setUp 0 (.ok ()), .send 0 (.ok ()), .giveUp 0 "DoQ via SOCKS5 timeout", .deliver firstReply,
      .setUp 1 (.ok ()), .send 1 (.ok ()), .receive 1]
  obtain ⟨⟨r, hr, hquery⟩, -⟩ := hpaired 1 emptyReply (by rfl)
  cases hr
  cases hquery

/-- **A reply that is left is what the next query gets**, and those behind it are left for the
queries after it. -/
theorem receive_stale {t : Tunnel codec queries} {i : Nat} {r : Reply codec queries}
    {rest : List (Reply codec queries)} (hholder : t.holder = none) (hready : t.phase i = .ready)
    (hsocket : t.socket = r :: rest) :
    (run step t [.send i (.ok ()), .receive i]).phase i = .received r ∧
      (run step t [.send i (.ok ()), .receive i]).socket = rest ∧
      (run step t [.send i (.ok ()), .receive i]).holder = none := by
  have hsend : step t (.send i (.ok ())) = { t.enter i .waiting with holder := some i } := by
    show t.send i (.ok ()) = _
    unfold Tunnel.send
    rw [hholder, hready]
  have hwaiting : (t.enter i .waiting).phase i = .waiting := enter_phase t i .waiting
  have hleft : (t.enter i .waiting).socket = r :: rest := hsocket
  rw [run_cons, run_cons, run_nil, hsend]
  show (Tunnel.receive _ i).phase i = _ ∧ (Tunnel.receive _ i).socket = _ ∧
    (Tunnel.receive _ i).holder = none
  unfold Tunnel.receive
  simp only [hwaiting, hleft]
  refine ⟨enter_phase _ _ _, trivial, ?_⟩
  unfold Tunnel.release Tunnel.enter
  simp

end

end TitanDns.Socks5
