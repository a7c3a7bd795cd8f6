import TitanDns.Core.Context
import TitanDns.Lib.Framing
import TitanDns.Lib.Run

/-!
# The DoT connection pool

`raw_dot_pooled_bytes`: queries over one DoT upstream, each with a connection of its own from the
pool or a new one, from its first byte written to its last byte read.

* `Connection` — the bytes under way in both directions, who has used it, and what the server has
  read and answered; the server answers each query it reads once and in order.
* `step` — one step of a query between two awaits, a step of the server, or time; a query may fail
  or be dropped at every await.
* `Paired` — a returned message is decoded from the reply to the very frame its query wrote.
* `Inv` — the invariant: a connection in the pool is owed nothing, and one in use is owed the rest
  of one exchange.
* `pool_pairs` — **every run keeps the pairing, at most four connections, and away from every
  connection whose reply was not read to the end**; `undecodable_reused` — one that a query failed
  on is used again.
-/

namespace TitanDns.Dot

open Run Framing

/-- The bytes of a request: no longer than a TCP message can be. -/
abbrev Query := { bs : List UInt8 // bs.length < 65536 }

abbrev ConnId := Nat

structure Connection where
  toServer : List UInt8
  fromServer : List UInt8
  /-- The queries that had the connection, in turn. -/
  users : List Nat
  /-- What the server read as a query, and its reply. -/
  served : List (List UInt8 × List UInt8)

def Connection.new : Connection := ⟨[], [], [], []⟩

/-- The server takes the first query that is there as a whole, and answers it. -/
def Connection.serve (conn : Connection) (reply : Query) : Connection :=
  match takeFrame conn.toServer with
  | some (query, rest) =>
    { conn with
      toServer := rest
      fromServer := conn.fromServer ++ frame reply.1
      served := conn.served ++ [(query, reply.1)] }
  | none => conn

/-- A `DotConnection` of the pool. -/
structure DotConnection where
  stream : ConnId
  lastUsed : Nat
  maxIdle : Nat

def DotConnection.isAlive (now : Nat) (c : DotConnection) : Bool :=
  decide (now - c.lastUsed < c.maxIdle)

/-- How a query ends. -/
inductive Outcome where
  | returned (m : Message)
  /-- The reply was read, and `Message::from_vec` fails. -/
  | undecodable
  /-- A `?` on the way returned. -/
  | failed
  /-- The future was dropped. -/
  | cancelled

/-- The reply was read to its end. -/
def Outcome.complete : Outcome → Bool
  | .returned _ => true
  | .undecodable => true
  | _ => false

/-- Where a query stands. -/
inductive Phase where
  | idle
  /-- Before the lock of step 2. -/
  | locking
  | connecting
  | writing (c : ConnId) (rest : List UInt8)
  | flushing (c : ConnId)
  | reading (c : ConnId) (got : List UInt8)
  /-- Before the lock of step 6. -/
  | givingBack (c : ConnId) (reply : List UInt8)
  | ended (o : Outcome)

/-- The connection that the query owns. -/
def Phase.conn? : Phase → Option ConnId
  | .writing c _ => some c
  | .flushing c => some c
  | .reading c _ => some c
  | .givingBack c _ => some c
  | _ => none

def Phase.complete : Phase → Bool
  | .ended o => o.complete
  | _ => false

/-- An await of the phase may fail; the locks do not. -/
def Phase.fallible : Phase → Bool
  | .connecting => true
  | .writing _ _ => true
  | .flushing _ => true
  | .reading _ _ => true
  | _ => false

/-- The query has begun, and has not ended. -/
def Phase.underWay : Phase → Bool
  | .idle => false
  | .ended _ => false
  | _ => true

theorem Phase.open_of_underWay {p : Phase} (h : p.underWay = true) : p.complete = false := by
  cases p with
  | ended o => cases h
  | _ => rfl

theorem Phase.open_of_fallible {p : Phase} (h : p.fallible = true) : p.complete = false := by
  cases p with
  | ended o => cases h
  | _ => rfl

structure State where
  now : Nat
  conns : ConnId → Connection
  /-- The next new connection. -/
  fresh : ConnId
  pool : List DotConnection
  phase : Nat → Phase

def State.init : State := ⟨0, fun _ => .new, 0, [], fun _ => .idle⟩

inductive Event where
  | start (t : Nat)
  /-- Step 2, with the lock. -/
  | take (t : Nat)
  /-- Step 3 has ended. -/
  | connect (t : Nat)
  /-- The stream takes `n` more bytes. -/
  | write (t n : Nat)
  | flush (t : Nat)
  /-- At most `n` bytes are read. -/
  | read (t n : Nat)
  /-- Step 6, with the lock, and the return. -/
  | giveBack (t : Nat)
  | fail (t : Nat)
  | cancel (t : Nat)
  /-- The server answers the next query of the connection, if it is there. -/
  | serve (c : ConnId) (reply : Query)
  | tick (d : Nat)

section

variable (codec : Codec) (req : Nat → Query) (idleTimeout : Nat)

namespace State

variable (s : State)

def setPhase (t : Nat) (p : Phase) : State := { s with phase := Function.update s.phase t p }

def setConn (c : ConnId) (conn : Connection) : State :=
  { s with conns := Function.update s.conns c conn }

@[simp] theorem setConn_self (c : ConnId) (conn : Connection) :
    (s.setConn c conn).conns c = conn := Function.update_self ..

theorem setConn_of_ne {c c' : ConnId} (h : c' ≠ c) (conn : Connection) :
    (s.setConn c conn).conns c' = s.conns c' := Function.update_of_ne h ..

/-- The query gets a connection, and is about to write. -/
def acquire (t : Nat) (c : ConnId) : State :=
  let conn := s.conns c
  (s.setConn c { conn with users := conn.users ++ [t] }).setPhase t
    (.writing c (frame (req t).1))

/-- Step 2: dead connections are dropped, and the last one is popped. -/
def take (t : Nat) : State :=
  let pool := s.pool.filter (·.isAlive s.now)
  match pool.getLast? with
  | some c => { s.acquire req t c.stream with pool := pool.dropLast }
  | none => { s.setPhase t .connecting with pool := pool }

/-- Step 3: a new connection. -/
def connect (t : Nat) : State := { s.acquire req t s.fresh with fresh := s.fresh + 1 }

/-- Step 4: some of the bytes are written. -/
def write (t : Nat) (c : ConnId) (rest : List UInt8) (n : Nat) : State :=
  let conn := s.conns c
  let left := rest.drop n
  (s.setConn c { conn with toServer := conn.toServer ++ rest.take n }).setPhase t
    (if left.isEmpty then .flushing c else .writing c left)

/-- Step 5: `read_exact` of the length, then of the reply. -/
def read (t : Nat) (c : ConnId) (got : List UInt8) (n : Nat) : State :=
  let conn := s.conns c
  let k := min n (missing got)
  let got' := got ++ conn.fromServer.take k
  (s.setConn c { conn with fromServer := conn.fromServer.drop k }).setPhase t
    (if missing got' = 0 then .givingBack c (got'.drop 2) else .reading c got')

/-- Step 6, and `Message::from_vec` after it. -/
def giveBack (t : Nat) (c : ConnId) (reply : List UInt8) : State :=
  let outcome :=
    match codec.fromVec reply with
    | some m => Outcome.returned m
    | none => .undecodable
  { s.setPhase t (.ended outcome) with
    pool := if s.pool.length < 4 then s.pool ++ [⟨c, s.now, idleTimeout⟩] else s.pool }

/-- The server answers on the connection. -/
def serve (c : ConnId) (reply : Query) : State := s.setConn c ((s.conns c).serve reply)

def step : Event → State
  | .start t =>
    match s.phase t with
    | .idle => s.setPhase t .locking
    | _ => s
  | .take t =>
    match s.phase t with
    | .locking => s.take req t
    | _ => s
  | .connect t =>
    match s.phase t with
    | .connecting => s.connect req t
    | _ => s
  | .write t n =>
    match s.phase t with
    | .writing c rest => s.write t c rest n
    | _ => s
  | .flush t =>
    match s.phase t with
    | .flushing c => s.setPhase t (.reading c [])
    | _ => s
  | .read t n =>
    match s.phase t with
    | .reading c got => s.read t c got n
    | _ => s
  | .giveBack t =>
    match s.phase t with
    | .givingBack c reply => s.giveBack codec idleTimeout t c reply
    | _ => s
  | .fail t =>
    match s.phase t with
    -- the locks do not fail
    | .connecting | .writing _ _ | .flushing _ | .reading _ _ => s.setPhase t (.ended .failed)
    | _ => s
  | .cancel t =>
    match s.phase t with
    | .idle | .ended _ => s
    | _ => s.setPhase t (.ended .cancelled)
  | .serve c reply => s.serve c reply
  | .tick d => { s with now := s.now + d }

/-! ## What an event does -/

/-- An event that finds its query in its phase, and the state after it. -/
inductive Turn : Event → State → Prop
  | start {t : Nat} (h : s.phase t = .idle) : Turn (.start t) (s.setPhase t .locking)
  | take {t : Nat} (h : s.phase t = .locking) : Turn (.take t) (s.take req t)
  | connect {t : Nat} (h : s.phase t = .connecting) : Turn (.connect t) (s.connect req t)
  | write {t n : Nat} {c : ConnId} {rest : List UInt8} (h : s.phase t = .writing c rest) :
      Turn (.write t n) (s.write t c rest n)
  | flush {t : Nat} {c : ConnId} (h : s.phase t = .flushing c) :
      Turn (.flush t) (s.setPhase t (.reading c []))
  | read {t n : Nat} {c : ConnId} {got : List UInt8} (h : s.phase t = .reading c got) :
      Turn (.read t n) (s.read t c got n)
  | giveBack {t : Nat} {c : ConnId} {reply : List UInt8} (h : s.phase t = .givingBack c reply) :
      Turn (.giveBack t) (s.giveBack codec idleTimeout t c reply)
  | fail {t : Nat} (h : (s.phase t).fallible = true) :
      Turn (.fail t) (s.setPhase t (.ended .failed))
  | cancel {t : Nat} (h : (s.phase t).underWay = true) :
      Turn (.cancel t) (s.setPhase t (.ended .cancelled))
  | serve (c : ConnId) (reply : Query) : Turn (.serve c reply) (s.serve c reply)
  | tick (d : Nat) : Turn (.tick d) { s with now := s.now + d }

/-! ## What the pool promises -/

/-- A message that was returned is decoded from the reply to the query's own request: its request is
the one that the server read in its turn. -/
def Paired : Prop :=
  ∀ t m, s.phase t = .ended (.returned m) → ∃ (c : ConnId) (k : Nat) (reply : List UInt8),
    (s.conns c).users[k]? = some t ∧ (s.conns c).served[k]? = some ((req t).1, reply) ∧
      codec.fromVec reply = some m

/-- A query that ended so was the last to have its connection. -/
def LastOf (lost : Outcome → Prop) : Prop :=
  ∀ c us t vs o, (s.conns c).users = us ++ t :: vs → s.phase t = .ended o → lost o → vs = []

/-- The pool over one upstream, where no connection is used again on which a query was `lost`. -/
structure Pooled (lost : Outcome → Prop) : Prop where
  paired : s.Paired codec req
  lastOf : s.LastOf lost
  small : s.pool.length ≤ 4

/-! ## The invariant -/

end State

namespace Connection

variable (conn : Connection)

/-- Nothing is under way, and every query was answered. -/
def Quiet : Prop :=
  conn.toServer = [] ∧ conn.fromServer = [] ∧
    conn.served.map (·.1) = conn.users.map fun t => (req t).1

/-- The query is being written, with `rest` to come. -/
def Asking (t : Nat) (rest : List UInt8) : Prop :=
  ∃ us, conn.users = us ++ [t] ∧ conn.served.map (·.1) = us.map (fun t => (req t).1) ∧
    conn.toServer ++ rest = frame (req t).1 ∧ conn.fromServer = []

/-- The query was answered, and of its reply `got` was read. -/
def Answered (t : Nat) (got : List UInt8) : Prop :=
  ∃ us log reply, conn.users = us ++ [t] ∧ conn.served = log ++ [((req t).1, reply)] ∧
    log.map (·.1) = us.map (fun t => (req t).1) ∧ conn.toServer = [] ∧ reply.length < 65536 ∧
    got ++ conn.fromServer = frame reply

/-- The exchange of the query has come to where `rest` is to be written and `got` was read. -/
def Exchange (t : Nat) (rest got : List UInt8) : Prop :=
  (got = [] ∧ conn.Asking req t rest) ∨ (rest = [] ∧ conn.Answered req t got)

variable {req} {conn} {t : Nat}

theorem Answered.toServer {got : List UInt8} (h : conn.Answered req t got) :
    conn.toServer = [] := by
  obtain ⟨us, log, reply, -, -, -, hto, -⟩ := h
  exact hto

/-- Some of the bytes of the query are written. -/
theorem Exchange.write {rest : List UInt8} (h : conn.Exchange req t rest []) (n : Nat) :
    Exchange req { conn with toServer := conn.toServer ++ rest.take n } t (rest.drop n) [] := by
  rcases h with ⟨-, us, husers, hserved, hframe, hfrom⟩ | ⟨rfl, us, log, reply, h⟩
  · left
    refine ⟨rfl, us, husers, hserved, ?_, hfrom⟩
    show conn.toServer ++ rest.take n ++ rest.drop n = frame (req t).1
    rw [List.append_assoc, List.take_append_drop, hframe]
  · right
    refine ⟨List.drop_nil, us, log, reply, ?_⟩
    show conn.users = _ ∧ conn.served = _ ∧ _ ∧ conn.toServer ++ [].take n = [] ∧ _
    rw [List.take_nil, List.append_nil]
    exact h

/-- Some of the bytes of the reply are read: the reader stops exactly at its end. -/
theorem Exchange.read {got : List UInt8} (h : conn.Exchange req t [] got) (n : Nat)
    {taken : List UInt8} (htaken : taken = conn.fromServer.take (min n (missing got))) :
    let conn' : Connection :=
      { conn with fromServer := conn.fromServer.drop (min n (missing got)) }
    (missing (got ++ taken) ≠ 0 → conn'.Exchange req t [] (got ++ taken)) ∧
      (missing (got ++ taken) = 0 → ∃ reply, reply.length < 65536 ∧ (got ++ taken).drop 2 = reply ∧
        conn'.Answered req t (frame reply)) := by
  intro conn'
  rcases h with ⟨rfl, us, husers, hserved, hframe, hfrom⟩ | ⟨-, us, log, reply, h⟩
  · -- nothing is there yet
    have hnil : taken = [] := by rw [htaken, hfrom, List.take_nil]
    have hrest : conn'.fromServer = [] := by
      show conn.fromServer.drop _ = []
      rw [hfrom, List.drop_nil]
    subst hnil
    refine ⟨fun _ => Or.inl ⟨rfl, us, husers, hserved, hframe, hrest⟩, fun hzero => ?_⟩
    cases hzero
  · obtain ⟨husers, hserved, hlog, hto, hlen, hframe⟩ := h
    have hsplit : (got ++ taken) ++ conn'.fromServer = frame reply := by
      rw [htaken, List.append_assoc, List.take_append_drop, hframe]
    refine ⟨fun _ => Or.inr ⟨rfl, us, log, reply, husers, hserved, hlog, hto, hlen, hsplit⟩, ?_⟩
    intro hzero
    have hend : conn'.fromServer = [] := (missing_eq_zero hlen hsplit).mp hzero
    have hgot : got ++ taken = frame reply := by rw [← hsplit, hend, List.append_nil]
    refine ⟨reply, hlen, ?_, us, log, reply, husers, hserved, hlog, hto, hlen, ?_⟩
    · rw [hgot, drop_frame]
    · rw [hend, List.append_nil]

theorem serve_users (conn : Connection) (reply : Query) :
    (conn.serve reply).users = conn.users := by
  unfold serve
  split <;> rfl

theorem serve_extends (conn : Connection) (reply : Query) :
    conn.served <+: (conn.serve reply).served := by
  unfold serve
  split
  · exact List.prefix_append _ _
  · exact List.prefix_refl _

/-- Where no query is under way the server has nothing to answer. -/
theorem serve_idle (h : conn.toServer = []) (reply : Query) : conn.serve reply = conn := by
  rw [serve, h, takeFrame_nil]

/-- A query that is there as a whole is answered. -/
theorem Asking.serve (h : conn.Asking req t []) (reply : Query) :
    (conn.serve reply).Answered req t [] := by
  obtain ⟨us, husers, hserved, hframe, hfrom⟩ := h
  rw [List.append_nil] at hframe
  have htake : takeFrame conn.toServer = some ((req t).1, []) := by
    rw [hframe]
    exact takeFrame_frame (req t).2
  refine ⟨us, conn.served, reply.1, ?_⟩
  rw [Connection.serve, htake]
  exact ⟨husers, rfl, hserved, rfl, reply.2, by rw [hfrom]; rfl⟩

/-- A connection that is owed nothing is ready for a query. -/
theorem Quiet.asking (h : conn.Quiet req) (t : Nat) :
    Asking req { conn with users := conn.users ++ [t] } t (frame (req t).1) := by
  obtain ⟨hto, hfrom, hserved⟩ := h
  refine ⟨conn.users, rfl, hserved, ?_, hfrom⟩
  show conn.toServer ++ frame (req t).1 = frame (req t).1
  rw [hto, List.nil_append]

/-- The server answers a query once it is there as a whole. -/
theorem Exchange.serve {rest got : List UInt8} (h : conn.Exchange req t rest got) (reply : Query) :
    (conn.serve reply).Exchange req t rest got := by
  rcases h with ⟨rfl, hasking⟩ | ⟨hrest, us, log, old, h⟩
  · by_cases hrest : rest = []
    · subst hrest
      exact Or.inr ⟨rfl, hasking.serve reply⟩
    · left
      obtain ⟨us, husers, hserved, hframe, hfrom⟩ := hasking
      have htake : takeFrame conn.toServer = none := takeFrame_partial (req t).2 hframe hrest
      rw [Connection.serve, htake]
      exact ⟨rfl, us, husers, hserved, hframe, hfrom⟩
  · right
    rw [serve_idle h.2.2.2.1]
    exact ⟨hrest, us, log, old, h⟩

end Connection

namespace State

/-- What a query in the phase relies on. -/
def Stands (s : State) (t : Nat) : Phase → Prop
  | .writing c rest => (s.conns c).Exchange req t rest []
  | .flushing c => (s.conns c).Exchange req t [] []
  | .reading c got => (s.conns c).Exchange req t [] got
  | .givingBack c reply => (s.conns c).Answered req t (frame reply) ∧ reply.length < 65536
  | .ended (.returned m) => ∃ (c : ConnId) (k : Nat) (reply : List UInt8),
      (s.conns c).users[k]? = some t ∧ (s.conns c).served[k]? = some ((req t).1, reply) ∧
        codec.fromVec reply = some m
  | _ => True

structure Inv (s : State) : Prop where
  small : s.pool.length ≤ 4
  /-- A connection is in the pool once, or with one query. -/
  once : (s.pool.map (·.stream)).Nodup
  free : ∀ t c, (s.phase t).conn? = some c → c ∉ s.pool.map (·.stream)
  apart : ∀ t t' c, (s.phase t).conn? = some c → (s.phase t').conn? = some c → t = t'
  known : ∀ c, s.fresh ≤ c → s.conns c = .new
  pooled : ∀ e ∈ s.pool, e.stream < s.fresh
  owned : ∀ t c, (s.phase t).conn? = some c → c < s.fresh
  quiet : ∀ e ∈ s.pool, (s.conns e.stream).Quiet req
  stands : ∀ t, s.Stands codec req t (s.phase t)
  /-- Those who passed a connection on had read their replies. -/
  passed : ∀ c, ∀ t ∈ (s.conns c).users.dropLast, (s.phase t).complete = true
  rested : ∀ e ∈ s.pool, ∀ t ∈ (s.conns e.stream).users, (s.phase t).complete = true

theorem inv_init : Inv codec req init where
  small := Nat.zero_le _
  once := List.nodup_nil
  free := by
    intro t c hc
    cases hc
  apart := by
    intro t t' c hc
    cases hc
  known := fun _ _ => rfl
  pooled := by
    intro e he
    cases he
  owned := by
    intro t c hc
    cases hc
  quiet := by
    intro e he
    cases he
  stands := fun _ => trivial
  passed := by
    intro c t ht
    cases ht
  rested := by
    intro e he
    cases he

variable {codec req} {s : State}

/-- The invariant is what the pool promises, and more. -/
theorem Inv.promise (h : s.Inv codec req) : s.Pooled codec req fun o => o.complete = false where
  paired := by
    intro t m ht
    have hs := h.stands t
    rw [ht] at hs
    exact hs
  lastOf := by
    intro c us t vs o husers ht ho
    by_contra hvs
    have hmem : t ∈ (s.conns c).users.dropLast := by
      rw [husers, List.dropLast_append_of_ne_nil (List.cons_ne_nil t vs),
        List.dropLast_cons_of_ne_nil hvs]
      exact List.mem_append_right _ List.mem_cons_self
    have hdone := h.passed c t hmem
    rw [ht] at hdone
    rw [Phase.complete, ho] at hdone
    cases hdone
  small := h.small

/-! ## One step -/

variable {idleTimeout} in
/-- **All that a step can do**; an event whose query is in another phase does nothing. -/
theorem step_cases {e : Event} {s' : State} (h : s.step codec req idleTimeout e = s') :
    s' = s ∨ s.Turn codec req idleTimeout e s' := by
  subst h
  cases e with
  | start t =>
    rw [step]
    split
    · exact Or.inr (.start ‹_›)
    · exact Or.inl rfl
  | take t =>
    rw [step]
    split
    · exact Or.inr (.take ‹_›)
    · exact Or.inl rfl
  | connect t =>
    rw [step]
    split
    · exact Or.inr (.connect ‹_›)
    · exact Or.inl rfl
  | write t n =>
    rw [step]
    split
    · exact Or.inr (.write ‹_›)
    · exact Or.inl rfl
  | flush t =>
    rw [step]
    split
    · exact Or.inr (.flush ‹_›)
    · exact Or.inl rfl
  | read t n =>
    rw [step]
    split
    · exact Or.inr (.read ‹_›)
    · exact Or.inl rfl
  | giveBack t =>
    rw [step]
    split
    · exact Or.inr (.giveBack ‹_›)
    · exact Or.inl rfl
  | fail t =>
    rw [step]
    split
    all_goals first
      | exact Or.inl rfl
      | (rename_i hphase
         exact Or.inr (.fail (by rw [hphase]; rfl)))
  | cancel t =>
    rw [step]
    split
    · exact Or.inl rfl
    · exact Or.inl rfl
    · rename_i hidle hended
      refine Or.inr (.cancel ?_)
      cases hphase : s.phase t with
      | idle => exact absurd hphase hidle
      | ended o => exact absurd hphase (hended o)
      | _ => rfl
  | serve c reply => exact Or.inr (.serve c reply)
  | tick d => exact Or.inr (.tick d)

theorem getElem?_of_prefix {α : Type} {l l' : List α} (h : l <+: l') {k : Nat} {a : α}
    (ha : l[k]? = some a) : l'[k]? = some a := by
  obtain ⟨more, rfl⟩ := h
  have hk : k < l.length := (List.getElem?_eq_some_iff.mp ha).1
  rw [List.getElem?_append_left hk]
  exact ha

/-- A phase stands on the connection it owns, and on what was served. -/
theorem Stands.frame {s' : State} {t : Nat} {p : Phase} (hs : s.Stands codec req t p)
    (hconn : ∀ c, p.conn? = some c → s'.conns c = s.conns c)
    (husers : ∀ c, (s.conns c).users <+: (s'.conns c).users)
    (hserved : ∀ c, (s.conns c).served <+: (s'.conns c).served) : s'.Stands codec req t p := by
  cases p with
  | idle => trivial
  | locking => trivial
  | connecting => trivial
  | writing c rest =>
    rw [Stands, hconn c rfl]
    exact hs
  | flushing c =>
    rw [Stands, hconn c rfl]
    exact hs
  | reading c got =>
    rw [Stands, hconn c rfl]
    exact hs
  | givingBack c reply =>
    rw [Stands, hconn c rfl]
    exact hs
  | ended o =>
    cases o with
    | returned m =>
      obtain ⟨c, k, reply, huser, hreply, hm⟩ := hs
      exact ⟨c, k, reply, getElem?_of_prefix (husers c) huser,
        getElem?_of_prefix (hserved c) hreply, hm⟩
    | undecodable => trivial
    | failed => trivial
    | cancelled => trivial

/-- Who had read its reply is not the query that moves. -/
theorem complete_update {t t' : Nat} (p : Phase) (hopen : (s.phase t).complete = false)
    (hdone : (s.phase t').complete = true) :
    (Function.update s.phase t p t').complete = true := by
  have ht : t' ≠ t := by
    rintro rfl
    rw [hopen] at hdone
    cases hdone
  rw [Function.update_of_ne ht]
  exact hdone

/-- A query moves on with the connection it owns, or lets it go; nobody else notices. -/
theorem Inv.move (h : s.Inv codec req) {t : Nat} {p : Phase} {conns : ConnId → Connection}
    (hopen : (s.phase t).complete = false)
    (hconn : ∀ c, p.conn? = some c → (s.phase t).conn? = some c)
    (hother : ∀ c, (s.phase t).conn? ≠ some c → conns c = s.conns c)
    (husers : ∀ c, (conns c).users = (s.conns c).users)
    (hserved : ∀ c, (conns c).served = (s.conns c).served)
    (hp : Stands codec req { s with conns := conns } t p) :
    Inv codec req { s with conns := conns, phase := Function.update s.phase t p } := by
  have hphase : ∀ t' c, (Function.update s.phase t p t').conn? = some c →
      (s.phase t').conn? = some c := by
    intro t' c hc
    by_cases ht : t' = t
    · subst ht
      rw [Function.update_self] at hc
      exact hconn c hc
    · rw [Function.update_of_ne ht] at hc
      exact hc
  have hpool : ∀ e ∈ s.pool, conns e.stream = s.conns e.stream := by
    intro e he
    apply hother
    intro hc
    exact h.free t e.stream hc (List.mem_map_of_mem he)
  refine {
    small := h.small, once := h.once, free := ?free, apart := ?apart, known := ?known
    pooled := h.pooled, owned := ?owned, quiet := ?quiet, stands := ?stands, passed := ?passed
    rested := ?rested }
  case free => exact fun t' c hc => h.free t' c (hphase t' c hc)
  case apart => exact fun t₁ t₂ c h₁ h₂ => h.apart t₁ t₂ c (hphase t₁ c h₁) (hphase t₂ c h₂)
  case known =>
    intro c hc
    have hne : (s.phase t).conn? ≠ some c := by
      intro hown
      exact absurd (h.owned t c hown) (Nat.not_lt_of_le hc)
    exact (hother c hne).trans (h.known c hc)
  case owned => exact fun t' c hc => h.owned t' c (hphase t' c hc)
  case quiet =>
    intro e he
    show (conns e.stream).Quiet req
    rw [hpool e he]
    exact h.quiet e he
  case stands =>
    intro t'
    by_cases ht : t' = t
    · subst ht
      show Stands codec req _ t' (Function.update s.phase t' p t')
      rw [Function.update_self]
      exact hp.frame (fun _ _ => rfl) (fun _ => List.prefix_refl _) fun _ => List.prefix_refl _
    · show Stands codec req _ t' (Function.update s.phase t p t')
      rw [Function.update_of_ne ht]
      refine (h.stands t').frame ?_ ?_ ?_
      · intro c hc
        apply hother
        intro hc'
        exact ht (h.apart t' t c hc hc')
      · intro c
        show (s.conns c).users <+: (conns c).users
        rw [husers c]
      · intro c
        show (s.conns c).served <+: (conns c).served
        rw [hserved c]
  case passed =>
    intro c t' ht'
    change t' ∈ (conns c).users.dropLast at ht'
    rw [husers c] at ht'
    exact complete_update p hopen (h.passed c t' ht')
  case rested =>
    intro e he t' ht'
    change t' ∈ (conns e.stream).users at ht'
    rw [husers e.stream] at ht'
    exact complete_update p hopen (h.rested e he t' ht')

/-- The query's own connection changes, but not who had it and what was served. -/
theorem Inv.move_conn (h : s.Inv codec req) {t : Nat} {p : Phase} {c : ConnId} {conn : Connection}
    (hown : (s.phase t).conn? = some c) (hconn : ∀ c', p.conn? = some c' → c' = c)
    (husers : conn.users = (s.conns c).users) (hserved : conn.served = (s.conns c).served)
    (hp : Stands codec req (s.setConn c conn) t p) :
    ((s.setConn c conn).setPhase t p).Inv codec req := by
  refine h.move ?_ ?_ ?_ ?_ ?_ hp
  · cases hphase : s.phase t with
    | ended o =>
      rw [hphase] at hown
      cases hown
    | _ => rfl
  · intro c' hc'
    rw [hconn c' hc']
    exact hown
  · intro c' hc'
    have hne : c' ≠ c := by
      rintro rfl
      exact hc' hown
    exact s.setConn_of_ne hne conn
  · intro c'
    by_cases hc' : c' = c
    · subst hc'
      rw [setConn_self]
      exact husers
    · rw [setConn_of_ne s hc']
  · intro c'
    by_cases hc' : c' = c
    · subst hc'
      rw [setConn_self]
      exact hserved
    · rw [setConn_of_ne s hc']

/-- A query moves that changes no connection. -/
theorem Inv.setPhase (h : s.Inv codec req) {t : Nat} {p : Phase}
    (hopen : (s.phase t).complete = false)
    (hconn : ∀ c, p.conn? = some c → (s.phase t).conn? = some c) (hp : s.Stands codec req t p) :
    (s.setPhase t p).Inv codec req :=
  h.move hopen hconn (fun _ _ => rfl) (fun _ => rfl) (fun _ => rfl) hp

/-- Connections leave the pool. -/
theorem Inv.shrink (h : s.Inv codec req) {pool : List DotConnection} (hpool : pool.Sublist s.pool) :
    Inv codec req { s with pool := pool } where
  small := Nat.le_trans hpool.length_le h.small
  once := h.once.sublist (hpool.map _)
  free := fun t c hc hmem => h.free t c hc ((hpool.map _).subset hmem)
  apart := h.apart
  known := h.known
  pooled := fun e he => h.pooled e (hpool.subset he)
  owned := h.owned
  quiet := fun e he => h.quiet e (hpool.subset he)
  stands := fun t => (h.stands t).frame (fun _ _ => rfl) (fun _ => List.prefix_refl _)
    fun _ => List.prefix_refl _
  passed := h.passed
  rested := fun e he => h.rested e (hpool.subset he)

/-- A connection that is owed nothing enters the pool. -/
theorem Inv.push (h : s.Inv codec req) {e : DotConnection} (hsmall : s.pool.length < 4)
    (hout : e.stream ∉ s.pool.map (·.stream)) (hfree : ∀ t, (s.phase t).conn? ≠ some e.stream)
    (hfresh : e.stream < s.fresh) (hquiet : (s.conns e.stream).Quiet req)
    (hrested : ∀ t ∈ (s.conns e.stream).users, (s.phase t).complete = true) :
    Inv codec req { s with pool := s.pool ++ [e] } where
  small := by
    rw [List.length_append, List.length_singleton]
    omega
  once := by
    rw [List.map_append, List.nodup_append]
    refine ⟨h.once, by simp, ?_⟩
    intro c hc c' hc' heq
    cases List.mem_singleton.mp hc'
    subst heq
    exact hout hc
  free := by
    intro t c hc hmem
    rw [List.map_append] at hmem
    rcases List.mem_append.mp hmem with hmem | hmem
    · exact h.free t c hc hmem
    · cases List.mem_singleton.mp hmem
      exact hfree t hc
  apart := h.apart
  known := h.known
  pooled := by
    intro e' he'
    rcases List.mem_append.mp he' with he' | he'
    · exact h.pooled e' he'
    · cases List.mem_singleton.mp he'
      exact hfresh
  owned := h.owned
  quiet := by
    intro e' he'
    rcases List.mem_append.mp he' with he' | he'
    · exact h.quiet e' he'
    · cases List.mem_singleton.mp he'
      exact hquiet
  stands := fun t => (h.stands t).frame (fun _ _ => rfl) (fun _ => List.prefix_refl _)
    fun _ => List.prefix_refl _
  passed := h.passed
  rested := by
    intro e' he'
    rcases List.mem_append.mp he' with he' | he'
    · exact h.rested e' he'
    · cases List.mem_singleton.mp he'
      exact hrested

theorem acquire_conn_self (t : Nat) (c : ConnId) : (s.acquire req t c).conns c =
    { s.conns c with users := (s.conns c).users ++ [t] } := s.setConn_self c _

theorem acquire_conn_of_ne {c c' : ConnId} (h : c' ≠ c) (t : Nat) :
    (s.acquire req t c).conns c' = s.conns c' := s.setConn_of_ne h _

theorem acquire_users (t : Nat) (c c' : ConnId) :
    (s.conns c').users <+: ((s.acquire req t c).conns c').users := by
  by_cases hc : c' = c
  · subst hc
    rw [acquire_conn_self]
    exact List.prefix_append _ _
  · rw [acquire_conn_of_ne hc]

theorem acquire_served (t : Nat) (c c' : ConnId) :
    ((s.acquire req t c).conns c').served = (s.conns c').served := by
  by_cases hc : c' = c
  · subst hc
    rw [acquire_conn_self]
  · rw [acquire_conn_of_ne hc]

/-- Who owns a connection then. -/
theorem acquire_owner {t t' : Nat} {c c' : ConnId}
    (hc' : ((s.acquire req t c).phase t').conn? = some c') :
    (t' = t ∧ c' = c) ∨ (t' ≠ t ∧ (s.phase t').conn? = some c') := by
  change (Function.update s.phase t _ t').conn? = some c' at hc'
  by_cases ht : t' = t
  · subst ht
    rw [Function.update_self] at hc'
    exact Or.inl ⟨rfl, (Option.some.inj hc').symm⟩
  · rw [Function.update_of_ne ht] at hc'
    exact Or.inr ⟨ht, hc'⟩

/-- A query gets a connection that is owed nothing, and that nobody else has. -/
theorem Inv.acquire (h : s.Inv codec req) {t : Nat} {c : ConnId} {fresh : ConnId}
    (hopen : (s.phase t).complete = false) (hout : c ∉ s.pool.map (·.stream))
    (hfree : ∀ t', (s.phase t').conn? ≠ some c) (hquiet : (s.conns c).Quiet req)
    (hrested : ∀ t' ∈ (s.conns c).users, (s.phase t').complete = true) (hfresh : s.fresh ≤ fresh)
    (hc : c < fresh) : Inv codec req { s.acquire req t c with fresh := fresh } := by
  have hcomplete : ∀ t', (s.phase t').complete = true →
      ((s.acquire req t c).phase t').complete = true := fun t' => complete_update _ hopen
  have hpool : ∀ e ∈ s.pool, e.stream ≠ c := by
    intro e he heq
    exact hout (heq ▸ List.mem_map_of_mem he)
  refine {
    small := h.small, once := h.once, free := ?free, apart := ?apart, known := ?known
    pooled := fun e he => Nat.lt_of_lt_of_le (h.pooled e he) hfresh
    owned := ?owned, quiet := ?quiet, stands := ?stands, passed := ?passed, rested := ?rested }
  case free =>
    intro t' c' hc'
    rcases acquire_owner hc' with ⟨-, rfl⟩ | ⟨-, hc'⟩
    · exact hout
    · exact h.free t' c' hc'
  case apart =>
    intro t₁ t₂ c' h₁ h₂
    rcases acquire_owner h₁ with ⟨rfl, rfl⟩ | ⟨-, hold₁⟩
    · rcases acquire_owner h₂ with ⟨rfl, -⟩ | ⟨-, hold₂⟩
      · rfl
      · exact absurd hold₂ (hfree t₂)
    · rcases acquire_owner h₂ with ⟨rfl, rfl⟩ | ⟨-, hold₂⟩
      · exact absurd hold₁ (hfree t₁)
      · exact h.apart t₁ t₂ c' hold₁ hold₂
  case known =>
    intro c' hc'
    have hne : c' ≠ c := by
      rintro rfl
      exact absurd hc (Nat.not_lt_of_le hc')
    show (s.acquire req t c).conns c' = .new
    rw [acquire_conn_of_ne hne]
    exact h.known c' (Nat.le_trans hfresh hc')
  case owned =>
    intro t' c' hc'
    rcases acquire_owner hc' with ⟨-, rfl⟩ | ⟨-, hc'⟩
    · exact hc
    · exact Nat.lt_of_lt_of_le (h.owned t' c' hc') hfresh
  case quiet =>
    intro e he
    show ((s.acquire req t c).conns e.stream).Quiet req
    rw [acquire_conn_of_ne (hpool e he)]
    exact h.quiet e he
  case stands =>
    intro t'
    show Stands codec req _ t' (Function.update s.phase t _ t')
    by_cases ht : t' = t
    · subst ht
      rw [Function.update_self]
      refine Or.inl ⟨rfl, ?_⟩
      show ((s.acquire req t' c).conns c).Asking req t' (frame (req t').1)
      rw [acquire_conn_self]
      exact hquiet.asking t'
    · rw [Function.update_of_ne ht]
      refine (h.stands t').frame (fun c' hc' => ?_) (@acquire_users req s t c) fun c' => ?_
      · have hne : c' ≠ c := by
          rintro rfl
          exact hfree t' hc'
        show (s.acquire req t c).conns c' = s.conns c'
        rw [acquire_conn_of_ne hne]
      · show (s.conns c').served <+: ((s.acquire req t c).conns c').served
        rw [acquire_served]
  case passed =>
    intro c' t' ht'
    change t' ∈ ((s.acquire req t c).conns c').users.dropLast at ht'
    by_cases hne : c' = c
    · subst hne
      rw [acquire_conn_self] at ht'
      change t' ∈ ((s.conns c').users ++ [t]).dropLast at ht'
      rw [List.dropLast_concat] at ht'
      exact hcomplete t' (hrested t' ht')
    · rw [acquire_conn_of_ne hne] at ht'
      exact hcomplete t' (h.passed c' t' ht')
  case rested =>
    intro e he t' ht'
    change t' ∈ ((s.acquire req t c).conns e.stream).users at ht'
    rw [acquire_conn_of_ne (hpool e he)] at ht'
    exact hcomplete t' (h.rested e he t' ht')

theorem Inv.take (h : s.Inv codec req) {t : Nat} (hphase : s.phase t = .locking) :
    (s.take req t).Inv codec req := by
  have hopen : (s.phase t).complete = false := by rw [hphase]; rfl
  have hsub : (s.pool.filter (·.isAlive s.now)).Sublist s.pool := List.filter_sublist
  unfold State.take
  simp only
  split
  · rename_i e hlast
    obtain ⟨pool, hpool⟩ : ∃ pool, s.pool.filter (·.isAlive s.now) = pool ++ [e] :=
      List.getLast?_eq_some_iff.mp hlast
    rw [hpool] at hsub
    rw [hpool, List.dropLast_concat]
    have hmem : e ∈ s.pool := hsub.subset (List.mem_append_right _ (List.mem_singleton_self e))
    have hrest : pool.Sublist s.pool := (List.sublist_append_left pool [e]).trans hsub
    have hout : e.stream ∉ pool.map (·.stream) := by
      have honce := h.once.sublist (hsub.map _)
      rw [List.map_append, List.nodup_append] at honce
      intro hin
      exact honce.2.2 _ hin _ (List.mem_singleton_self _) rfl
    have hshrink := h.shrink hrest
    refine hshrink.acquire hopen hout ?_ (h.quiet e hmem) (h.rested e hmem) (Nat.le_refl _)
      (h.pooled e hmem)
    intro t' hc
    exact h.free t' e.stream hc (List.mem_map_of_mem hmem)
  · refine (h.shrink hsub).setPhase hopen ?_ trivial
    intro c hc
    cases hc

theorem Inv.connect (h : s.Inv codec req) {t : Nat} (hphase : s.phase t = .connecting) :
    (s.connect req t).Inv codec req := by
  have hnew : s.conns s.fresh = .new := h.known _ (Nat.le_refl _)
  refine h.acquire (by rw [hphase]; rfl) ?_ ?_ ?_ ?_ (Nat.le_succ _) (Nat.lt_succ_self _)
  · intro hin
    obtain ⟨e, he, heq⟩ := List.mem_map.mp hin
    exact absurd (heq ▸ h.pooled e he) (Nat.lt_irrefl _)
  · intro t' hc
    exact absurd (h.owned t' s.fresh hc) (Nat.lt_irrefl _)
  · rw [hnew]
    exact ⟨rfl, rfl, rfl⟩
  · intro t' ht'
    rw [hnew] at ht'
    cases ht'

theorem Inv.write (h : s.Inv codec req) {t : Nat} {c : ConnId} {rest : List UInt8}
    (hphase : s.phase t = .writing c rest) (n : Nat) : (s.write t c rest n).Inv codec req := by
  have hs := h.stands t
  rw [hphase, Stands] at hs
  have hnext := hs.write n
  unfold State.write
  refine h.move_conn (by rw [hphase]; rfl) ?_ rfl rfl ?_
  · intro c' hc'
    split at hc'
    · exact (Option.some.inj hc').symm
    · exact (Option.some.inj hc').symm
  · split
    · rename_i hempty
      rw [List.isEmpty_iff.mp hempty] at hnext
      rw [Stands, setConn_self]
      exact hnext
    · rw [Stands, setConn_self]
      exact hnext

theorem Inv.read (h : s.Inv codec req) {t : Nat} {c : ConnId} {got : List UInt8}
    (hphase : s.phase t = .reading c got) (n : Nat) : (s.read t c got n).Inv codec req := by
  have hs := h.stands t
  rw [hphase, Stands] at hs
  obtain ⟨hmore, hend⟩ := hs.read n rfl
  unfold State.read
  refine h.move_conn (by rw [hphase]; rfl) ?_ rfl rfl ?_
  · intro c' hc'
    split at hc'
    · exact (Option.some.inj hc').symm
    · exact (Option.some.inj hc').symm
  · split
    · rename_i hzero
      obtain ⟨reply, hlen, hreply, hanswered⟩ := hend hzero
      rw [Stands, setConn_self, hreply]
      exact ⟨hanswered, hlen⟩
    · rename_i hzero
      rw [Stands, setConn_self]
      exact hmore hzero

/-- What a query that has read its reply ends with. -/
theorem Stands.returns {t : Nat} {c : ConnId} {reply : List UInt8} {us : List Nat}
    {log : List (List UInt8 × List UInt8)} (husers : (s.conns c).users = us ++ [t])
    (hserved : (s.conns c).served = log ++ [((req t).1, reply)])
    (hlength : log.length = us.length) :
    s.Stands codec req t (.ended (match codec.fromVec reply with
      | some m => .returned m
      | none => .undecodable)) := by
  cases hm : codec.fromVec reply with
  | some m =>
    refine ⟨c, us.length, reply, ?_, ?_, hm⟩
    · rw [husers, List.getElem?_concat_length]
    · rw [hserved, ← hlength, List.getElem?_concat_length]
  | none => trivial

theorem Inv.giveBack (h : s.Inv codec req) {t : Nat} {c : ConnId} {reply : List UInt8}
    (hphase : s.phase t = .givingBack c reply) (idleTimeout : Nat) :
    (s.giveBack codec idleTimeout t c reply).Inv codec req := by
  have hs := h.stands t
  rw [hphase, Stands] at hs
  obtain ⟨⟨us, log, reply', husers, hserved, hlog, hto, hlen', hframe⟩, hlen⟩ := hs
  obtain ⟨rfl, hfrom⟩ := frame_prefix hlen hlen' hframe
  have hown : (s.phase t).conn? = some c := by rw [hphase]; rfl
  have hlength : log.length = us.length := by
    have := congrArg List.length hlog
    simpa using this
  have hp := @Stands.returns codec req s t c reply us log husers hserved hlength
  unfold State.giveBack
  simp only
  generalize ho : (match codec.fromVec reply with
    | some m => Outcome.returned m
    | none => Outcome.undecodable) = outcome at hp
  have hcomplete : outcome.complete = true := by
    rw [← ho]
    split <;> rfl
  have hended : (s.setPhase t (.ended outcome)).Inv codec req := by
    refine h.setPhase (by rw [hphase]; rfl) ?_ hp
    intro c' hc'
    cases hc'
  split
  · rename_i hroom
    refine hended.push hroom (h.free t c hown) ?_ (h.owned t c hown) ?_ ?_
    · intro t' hc'
      change (Function.update s.phase t _ t').conn? = some c at hc'
      by_cases ht : t' = t
      · subst ht
        rw [Function.update_self] at hc'
        cases hc'
      · rw [Function.update_of_ne ht] at hc'
        exact ht (h.apart t' t c hc' hown)
    · refine ⟨hto, hfrom, ?_⟩
      show (s.conns c).served.map _ = (s.conns c).users.map _
      rw [husers, hserved, List.map_append, List.map_append, hlog]
      rfl
    · intro t' ht'
      change t' ∈ (s.conns c).users at ht'
      rw [husers] at ht'
      rcases List.mem_append.mp ht' with ht' | ht'
      · apply hended.passed c t'
        show t' ∈ (s.conns c).users.dropLast
        rw [husers, List.dropLast_concat]
        exact ht'
      · cases List.mem_singleton.mp ht'
        show (Function.update s.phase t _ t).complete = true
        rw [Function.update_self]
        exact hcomplete
  · exact hended

theorem serve_conn (s : State) (c : ConnId) (reply : Query) (c' : ConnId) :
    ((s.serve c reply).conns c' = (s.conns c').serve reply ∧ c' = c) ∨
      (s.serve c reply).conns c' = s.conns c' := by
  by_cases hc : c' = c
  · subst hc
    exact Or.inl ⟨s.setConn_self c' _, rfl⟩
  · exact Or.inr (s.setConn_of_ne hc _)

theorem serve_users (s : State) (c : ConnId) (reply : Query) (c' : ConnId) :
    ((s.serve c reply).conns c').users = (s.conns c').users := by
  rcases s.serve_conn c reply c' with ⟨hc, -⟩ | hc
  · rw [hc, Connection.serve_users]
  · rw [hc]

/-- Where nothing was asked, nothing is served. -/
theorem serve_idle {c c' : ConnId} (reply : Query) (hto : (s.conns c').toServer = []) :
    (s.serve c reply).conns c' = s.conns c' := by
  rcases s.serve_conn c reply c' with ⟨hc, -⟩ | hc
  · rw [hc, Connection.serve_idle hto]
  · exact hc

/-- What the phase of a query stands on is still there once the server has served one. -/
theorem Stands.serve {t : Nat} {p : Phase} (hs : s.Stands codec req t p) (c : ConnId)
    (reply : Query) : (s.serve c reply).Stands codec req t p := by
  have hexchange : ∀ c' rest got, (s.conns c').Exchange req t rest got →
      ((s.serve c reply).conns c').Exchange req t rest got := by
    intro c' rest got hex
    rcases s.serve_conn c reply c' with ⟨hc, -⟩ | hc
    · rw [hc]
      exact hex.serve reply
    · rw [hc]
      exact hex
  cases p with
  | writing c' rest => exact hexchange c' rest [] hs
  | flushing c' => exact hexchange c' [] [] hs
  | reading c' got => exact hexchange c' [] got hs
  | givingBack c' reply' =>
    obtain ⟨hanswered, hlen⟩ := hs
    rw [Stands, serve_idle reply hanswered.toServer]
    exact ⟨hanswered, hlen⟩
  | ended o =>
    refine hs.frame ?_ ?_ ?_
    · intro c' hc'
      cases hc'
    · intro c'
      rw [serve_users]
    · intro c'
      rcases s.serve_conn c reply c' with ⟨hc, -⟩ | hc
      · rw [hc]
        exact (s.conns c').serve_extends reply
      · rw [hc]
  | idle => trivial
  | locking => trivial
  | connecting => trivial

theorem Inv.serve (h : s.Inv codec req) (c : ConnId) (reply : Query) :
    (s.serve c reply).Inv codec req where
  small := h.small
  once := h.once
  free := h.free
  apart := h.apart
  known := by
    intro c' hc'
    have hnew := h.known c' hc'
    exact (serve_idle reply (by rw [hnew]; rfl)).trans hnew
  pooled := h.pooled
  owned := h.owned
  quiet := by
    intro e he
    have hquiet := h.quiet e he
    rw [serve_idle reply hquiet.1]
    exact hquiet
  stands := fun t => (h.stands t).serve c reply
  passed := by
    intro c' t ht
    rw [serve_users] at ht
    exact h.passed c' t ht
  rested := by
    intro e he t ht
    rw [serve_users] at ht
    exact h.rested e he t ht

/-- A query ends without its reply: its connection, if it has one, is lost. -/
theorem Inv.lose (h : s.Inv codec req) {t : Nat} {o : Outcome}
    (hopen : (s.phase t).complete = false) (ho : o = .failed ∨ o = .cancelled) :
    (s.setPhase t (.ended o)).Inv codec req := by
  refine h.setPhase hopen ?_ ?_
  · intro c hc
    cases hc
  · rcases ho with rfl | rfl
    · trivial
    · trivial

/-- **One step.** -/
theorem Inv.step (h : s.Inv codec req) (idleTimeout : Nat) (e : Event) :
    (s.step codec req idleTimeout e).Inv codec req := by
  generalize hstep : s.step codec req idleTimeout e = s'
  rcases step_cases hstep with rfl | hturn
  · exact h
  cases hturn with
  | start hphase =>
    refine h.setPhase (by rw [hphase]; rfl) ?_ trivial
    intro c hc
    cases hc
  | take hphase => exact h.take hphase
  | connect hphase => exact h.connect hphase
  | write hphase => exact h.write hphase _
  | @flush t c hphase =>
    have hs := h.stands t
    rw [hphase] at hs
    refine h.setPhase (by rw [hphase]; rfl) ?_ hs
    intro c' hc'
    rw [hphase]
    exact hc'
  | read hphase => exact h.read hphase _
  | giveBack hphase => exact h.giveBack hphase idleTimeout
  | fail hfallible => exact h.lose (Phase.open_of_fallible hfallible) (Or.inl rfl)
  | cancel hunderWay => exact h.lose (Phase.open_of_underWay hunderWay) (Or.inr rfl)
  | serve c reply => exact h.serve c reply
  | tick d =>
    refine { h with stands := fun t => ?_ }
    exact (h.stands t).frame (fun _ _ => rfl) (fun _ => List.prefix_refl _) fun _ =>
      List.prefix_refl _

end State

/-- **Every run keeps the promise**: replies reach their own queries, at most four connections wait,
nothing is under way on them, and one whose reply was not read to its end is never used again. -/
theorem pool_pairs (es : List Event) :
    let s := run (State.step codec req idleTimeout) .init es
    (s.Pooled codec req fun o => o.complete = false) ∧
      ∀ e ∈ s.pool, (s.conns e.stream).Quiet req := by
  have hstep : ∀ (s : State) e, s.Inv codec req → (s.step codec req idleTimeout e).Inv codec req :=
    fun _ e hs => hs.step idleTimeout e
  have hinv := invariant_run hstep (State.inv_init codec req) es
  exact ⟨hinv.promise, hinv.quiet⟩

end

def exampleRequest : Query :=
  ⟨[0, 0, 1, 0, 0, 1, 0, 0, 0, 0, 0, 0] ++ exampleQuestion.wire, by decide⟩

/-- The first query gets a reply of no bytes, which is no message; the second gets the same
connection. -/
def undecodableReply : List Event :=
  [.start 0, .take 0, .connect 0, .write 0 35, .flush 0, .serve 0 ⟨[], by decide⟩, .read 0 2,
    .giveBack 0, .start 1, .take 1]

theorem undecodable_reused :
    ¬ (run (State.step (Codec.ofTable [] []) (fun _ => exampleRequest) 1) .init
      undecodableReply).Pooled (Codec.ofTable [] []) (fun _ => exampleRequest)
      fun o => ∀ m, o ≠ .returned m := by
  intro h
  have hlast := h.lastOf 0 [] 0 [1] .undecodable rfl rfl (fun m hm => by cases hm)
  cases hlast

end TitanDns.Dot
