import TitanDns.Plugins.DotPool

/-!
# Connections that the server closes

The machine of `DotPool` with a server that closes connections while they wait in the pool, and
that otherwise accepts every new connection and answers every query with a message.

* `Wire`, `wireStep` — the machine, and which connections are closed; `Possible` — what such a
  server and the network can do: only a closed connection fails, and it is never answered on.
* `Sound` — the invariant; `Healthy`, `Stale` — a query with an open connection, or none yet, and
  one with a closed connection.
* `ReturnsOk` — the query never fails, and can always still return.
* `Usable` — the connection that the query will take is not closed.

Principal results: `returnsOk_iff_usable` — **a query returns `Ok` exactly when the last connection
of the pool that counts as alive is not closed**: there is no second try; `stale_never_returns` —
**with a closed connection it never does.**
-/

namespace TitanDns.Dot

open Run Framing

/-- The machine, and the connections that the server has closed. -/
structure Wire where
  dot : State
  closed : ConnId → Bool

def Wire.init : Wire := ⟨.init, fun _ => false⟩

inductive WireEvent where
  | dot (e : Event)
  /-- The server closes a connection. -/
  | close (c : ConnId)

/-- The query that an event moves. -/
def Event.query? : Event → Option Nat
  | .start t => some t
  | .take t => some t
  | .connect t => some t
  | .write t _ => some t
  | .flush t => some t
  | .read t _ => some t
  | .giveBack t => some t
  | .fail t => some t
  | .cancel t => some t
  | .serve _ _ => none
  | .tick _ => none

section
variable (codec : Codec) (req : Nat → Query) (idleTimeout : Nat)

def wireStep (w : Wire) : WireEvent → Wire
  | .dot e => { w with dot := w.dot.step codec req idleTimeout e }
  | .close c => { w with closed := Function.update w.closed c true }

/-- What can happen with a server that accepts new connections and answers the queries on the
connections it has not closed. -/
def Possible (w : Wire) : WireEvent → Prop
  | .close c => c ∈ w.dot.pool.map (·.stream)
  | .dot (.fail t) => ∃ c, (w.dot.phase t).conn? = some c ∧ w.closed c = true
  | .dot (.serve c reply) => w.closed c = false ∧ (codec.fromVec reply.1).isSome = true
  | .dot _ => True

/-- What is possible from `w` on. -/
abbrev PossibleRun (w : Wire) (es : List WireEvent) : Prop :=
  Meets (wireStep codec req idleTimeout) (Possible codec) w es

/-- The query never fails, and as long as it runs it can return a message. -/
structure ReturnsOk (w : Wire) (t : Nat) : Prop where
  never_fails : ∀ es, PossibleRun codec req idleTimeout w es →
    ∀ o, (run (wireStep codec req idleTimeout) w es).dot.phase t = .ended o →
      o = .cancelled ∨ ∃ m, o = .returned m
  can_return : ∀ es, PossibleRun codec req idleTimeout w es →
    (∀ o, (run (wireStep codec req idleTimeout) w es).dot.phase t ≠ .ended o) →
      ∃ more m, PossibleRun codec req idleTimeout w (es ++ more) ∧
        (run (wireStep codec req idleTimeout) w (es ++ more)).dot.phase t = .ended (.returned m)

/-- The connection that step 2 takes out of the pool, if any, is not closed. -/
def Usable (w : Wire) : Prop :=
  ∀ e, (w.dot.pool.filter (·.isAlive w.dot.now)).getLast? = some e → w.closed e.stream = false

end

/-! ## What a step leaves alone -/

namespace State

variable {codec : Codec} {req : Nat → Query} {idleTimeout : Nat} {s : State}

theorem setPhase_of_ne {t t' : Nat} (h : t' ≠ t) (p : Phase) :
    (s.setPhase t p).phase t' = s.phase t' := Function.update_of_ne h ..

@[simp] theorem setPhase_self (t : Nat) (p : Phase) : (s.setPhase t p).phase t = p :=
  Function.update_self ..

theorem take_phase_of_ne {t t' : Nat} (h : t' ≠ t) :
    (s.take req t).phase t' = s.phase t' := by
  unfold take
  simp only
  split
  · exact setPhase_of_ne h _
  · exact setPhase_of_ne h _

/-- An event moves its own query only. -/
theorem step_phase_of_ne {e : Event} {t : Nat} (h : e.query? ≠ some t) :
    (s.step codec req idleTimeout e).phase t = s.phase t := by
  generalize hstep : s.step codec req idleTimeout e = s'
  have hne : ∀ t', e.query? = some t' → t ≠ t' := by
    rintro t' he rfl
    exact h he
  rcases step_cases hstep with rfl | hturn
  · rfl
  cases hturn with
  | take => exact take_phase_of_ne (hne _ rfl)
  | serve c reply => rfl
  | tick d => rfl
  | _ => exact setPhase_of_ne (hne _ rfl) _

/-- A connection changes without being served anything. -/
theorem setConn_served {c : ConnId} {conn : Connection} (h : conn.served = (s.conns c).served)
    (c' : ConnId) : ((s.setConn c conn).conns c').served = (s.conns c').served := by
  by_cases hc : c' = c
  · subst hc
    rw [setConn_self]
    exact h
  · rw [setConn_of_ne s hc]

theorem take_served (t : Nat) (c : ConnId) :
    ((s.take req t).conns c).served = (s.conns c).served := by
  unfold take
  simp only
  split
  · rename_i e _
    exact @acquire_served req s t e.stream c
  · rfl

/-- Nothing is served but by the server. -/
theorem step_served (e : Event) (c : ConnId) :
    ((s.step codec req idleTimeout e).conns c).served = (s.conns c).served ∨
      ∃ reply, e = .serve c reply := by
  generalize hstep : s.step codec req idleTimeout e = s'
  rcases step_cases hstep with rfl | hturn
  · exact Or.inl rfl
  cases hturn with
  | take => exact Or.inl (take_served _ c)
  | connect => exact Or.inl (@acquire_served req s _ s.fresh c)
  | @write t n c' rest =>
    left
    exact @setConn_served s c'
      { s.conns c' with toServer := (s.conns c').toServer ++ rest.take n } rfl c
  | @read t n c' got =>
    left
    exact @setConn_served s c'
      { s.conns c' with fromServer := (s.conns c').fromServer.drop (min n (missing got)) } rfl c
  | serve c' reply =>
    by_cases hc : c' = c
    · subst hc
      exact Or.inr ⟨reply, rfl⟩
    · left
      show ((s.setConn c' _).conns c).served = _
      rw [setConn_of_ne s (Ne.symm hc)]
  | _ => exact Or.inl rfl

/-- Nobody else changes the connection that a query owns. -/
theorem step_conn (h : s.Inv codec req) {t : Nat} {c : ConnId}
    (hown : (s.phase t).conn? = some c) {e : Event} (hquery : e.query? ≠ some t)
    (hserve : ∀ reply, e ≠ .serve c reply) :
    (s.step codec req idleTimeout e).conns c = s.conns c := by
  generalize hstep : s.step codec req idleTimeout e = s'
  have hother : ∀ t' c', e.query? = some t' → (s.phase t').conn? = some c' → c ≠ c' := by
    rintro t' c' ht' hc' rfl
    have ht : t = t' := h.apart t t' c hown hc'
    exact hquery (ht ▸ ht')
  rcases step_cases hstep with rfl | hturn
  · rfl
  cases hturn with
  | take =>
    unfold take
    simp only
    split
    · rename_i entry hlast
      have hmem : entry ∈ s.pool := List.mem_of_mem_filter (List.mem_of_getLast? hlast)
      have hne : c ≠ entry.stream := by
        rintro rfl
        exact h.free t _ hown (List.mem_map_of_mem hmem)
      exact s.setConn_of_ne hne _
    · rfl
  | connect => exact s.setConn_of_ne (Nat.ne_of_lt (h.owned t c hown)) _
  | write hphase => exact s.setConn_of_ne (hother _ _ rfl (by rw [hphase]; rfl)) _
  | read hphase => exact s.setConn_of_ne (hother _ _ rfl (by rw [hphase]; rfl)) _
  | serve c' reply =>
    have hne : c ≠ c' := by
      rintro rfl
      exact hserve reply rfl
    exact s.setConn_of_ne hne _
  | _ => rfl

theorem step_fresh (e : Event) : s.fresh ≤ (s.step codec req idleTimeout e).fresh := by
  generalize hstep : s.step codec req idleTimeout e = s'
  rcases step_cases hstep with rfl | hturn
  · exact Nat.le_refl _
  cases hturn with
  | connect => exact Nat.le_succ s.fresh
  | take =>
    unfold take
    simp only
    split
    · exact Nat.le_refl _
    · exact Nat.le_refl _
  | _ => exact Nat.le_refl _

end State

/-! ## The invariant -/

/-- The invariant of the machine; every reply that was served is a message; and no connection is
closed before there is one. -/
structure Sound (codec : Codec) (req : Nat → Query) (w : Wire) : Prop where
  inv : w.dot.Inv codec req
  decodes : ∀ c, ∀ p ∈ (w.dot.conns c).served, (codec.fromVec p.2).isSome = true
  known : ∀ c, w.dot.fresh ≤ c → w.closed c = false

variable {codec : Codec} {req : Nat → Query} {idleTimeout : Nat} {w : Wire}

theorem sound_init : Sound codec req .init where
  inv := State.inv_init codec req
  decodes := by
    intro c p hp
    cases hp
  known := fun _ _ => rfl

/-- What a server adds to the record of a connection is its reply. -/
theorem Connection.mem_serve {conn : Connection} {reply : Query} {p : List UInt8 × List UInt8}
    (h : p ∈ (conn.serve reply).served) : p ∈ conn.served ∨ p.2 = reply.1 := by
  unfold Connection.serve at h
  split at h
  · rcases List.mem_append.mp h with hold | hnew
    · exact Or.inl hold
    · rw [List.mem_singleton.mp hnew]
      exact Or.inr rfl
  · exact Or.inl h

theorem Sound.step (h : Sound codec req w) {e : WireEvent} (he : Possible codec w e) :
    Sound codec req (wireStep codec req idleTimeout w e) := by
  cases e with
  | dot e =>
    refine ⟨h.inv.step idleTimeout e, fun c p hp => ?_, fun c hc => ?_⟩
    · rcases @State.step_served codec req idleTimeout w.dot e c with hsame | ⟨reply, rfl⟩
      · apply h.decodes c p
        rw [← hsame]
        exact hp
      · change p ∈ ((w.dot.setConn c _).conns c).served at hp
        rw [State.setConn_self] at hp
        rcases Connection.mem_serve hp with hold | hreply
        · exact h.decodes c p hold
        · rw [hreply]
          exact he.2
    · exact h.known c (Nat.le_trans (State.step_fresh e) hc)
  | close c =>
    refine ⟨h.inv, h.decodes, fun c' hc' => ?_⟩
    obtain ⟨entry, hentry, hstream⟩ := List.mem_map.mp he
    have hne : c' ≠ c := by
      rintro rfl
      exact absurd (hstream ▸ h.inv.pooled entry hentry) (Nat.not_lt_of_le hc')
    show Function.update w.closed c true c' = false
    rw [Function.update_of_ne hne]
    exact h.known c' hc'

theorem sound_run {es : List WireEvent} {w : Wire} (h : Sound codec req w)
    (hes : PossibleRun codec req idleTimeout w es) :
    Sound codec req (run (wireStep codec req idleTimeout) w es) :=
  invariant (fun _ _ hw he => hw.step he) h hes

/-! ## A query on an open connection -/

/-- The query is to get a new connection, or has one that is open, or has returned. -/
def Phase.Healthy (closed : ConnId → Bool) : Phase → Prop
  | .connecting => True
  | .writing c _ => closed c = false
  | .flushing c => closed c = false
  | .reading c _ => closed c = false
  | .givingBack c _ => closed c = false
  | .ended (.returned _) => True
  | .ended .cancelled => True
  | _ => False

def Healthy (w : Wire) (t : Nat) : Prop := (w.dot.phase t).Healthy w.closed

/-- Only the query's own connection matters. -/
theorem Phase.Healthy.of_same {closed closed' : ConnId → Bool} {p : Phase} (h : p.Healthy closed)
    (hsame : ∀ c, p.conn? = some c → closed' c = closed c) : p.Healthy closed' := by
  cases p with
  | writing c rest => exact (hsame c rfl).trans h
  | flushing c => exact (hsame c rfl).trans h
  | reading c got => exact (hsame c rfl).trans h
  | givingBack c reply => exact (hsame c rfl).trans h
  | ended o => cases o <;> exact h
  | _ => exact h

/-- The reply that is given back was served, so it is a message. -/
theorem Sound.giveBack_returns (h : Sound codec req w) {t : Nat} {c : ConnId} {reply : List UInt8}
    (hphase : w.dot.phase t = .givingBack c reply) :
    ∃ m, (w.dot.giveBack codec idleTimeout t c reply).phase t = .ended (.returned m) := by
  have hs := h.inv.stands t
  rw [hphase, State.Stands] at hs
  obtain ⟨⟨us, log, reply', -, hserved, -, -, hlen', hframe⟩, hlen⟩ := hs
  obtain ⟨rfl, -⟩ := frame_prefix hlen hlen' hframe
  have hmem : ((req t).1, reply) ∈ (w.dot.conns c).served := by
    rw [hserved]
    exact List.mem_append_right _ (List.mem_singleton_self _)
  obtain ⟨m, hm⟩ := Option.isSome_iff_exists.mp (h.decodes c _ hmem)
  refine ⟨m, ?_⟩
  show (w.dot.setPhase t _).phase t = _
  rw [State.setPhase_self]
  have hm' : codec.fromVec reply = some m := hm
  simp only [hm']

theorem Phase.Healthy.opened {closed : ConnId → Bool} {p : Phase} (h : p.Healthy closed)
    {c : ConnId} (hown : p.conn? = some c) : closed c = false := by
  cases p with
  | writing c' rest =>
    cases hown
    exact h
  | flushing c' =>
    cases hown
    exact h
  | reading c' got =>
    cases hown
    exact h
  | givingBack c' reply =>
    cases hown
    exact h
  | _ => cases hown

/-- A step of the query itself. -/
theorem Healthy.own_step (hw : Sound codec req w) {t : Nat} (h : Healthy w t) {e : Event}
    (hquery : e.query? = some t) (he : Possible codec w (.dot e)) :
    Healthy (wireStep codec req idleTimeout w (.dot e)) t := by
  have hopen : ∀ c, (w.dot.phase t).conn? = some c → w.closed c = false := fun _ => h.opened
  show ((w.dot.step codec req idleTimeout e).phase t).Healthy w.closed
  generalize hstep : w.dot.step codec req idleTimeout e = s'
  rcases State.step_cases hstep with rfl | hturn
  · exact h
  cases hturn with
  | start hphase =>
    cases hquery
    rw [Healthy, hphase] at h
    exact h.elim
  | take hphase =>
    cases hquery
    rw [Healthy, hphase] at h
    exact h.elim
  | connect =>
    cases hquery
    show ((w.dot.setPhase t _).phase t).Healthy w.closed
    rw [State.setPhase_self]
    exact hw.known w.dot.fresh (Nat.le_refl _)
  | @write _ n c rest hphase =>
    cases hquery
    have hc := hopen c (by rw [hphase]; rfl)
    show ((State.setPhase _ t _).phase t).Healthy w.closed
    rw [State.setPhase_self]
    split
    · exact hc
    · exact hc
  | @flush _ c hphase =>
    cases hquery
    rw [State.setPhase_self]
    exact hopen c (by rw [hphase]; rfl)
  | @read _ n c got hphase =>
    cases hquery
    have hc := hopen c (by rw [hphase]; rfl)
    show ((State.setPhase _ t _).phase t).Healthy w.closed
    rw [State.setPhase_self]
    split
    · exact hc
    · exact hc
  | @giveBack _ c reply hphase =>
    cases hquery
    obtain ⟨m, hm⟩ := @Sound.giveBack_returns codec req idleTimeout w hw t c reply hphase
    rw [hm]
    trivial
  | fail =>
    -- only a closed connection fails
    cases hquery
    obtain ⟨c, hc, hclosed⟩ := he
    rw [hopen c hc] at hclosed
    cases hclosed
  | cancel =>
    cases hquery
    rw [State.setPhase_self]
    trivial
  | serve c reply => cases hquery
  | tick d => cases hquery

/-- **A healthy query stays healthy.** -/
theorem Healthy.step (hw : Sound codec req w) {t : Nat} (h : Healthy w t) {e : WireEvent}
    (he : Possible codec w e) : Healthy (wireStep codec req idleTimeout w e) t := by
  cases e with
  | dot e =>
    by_cases hquery : e.query? = some t
    · exact h.own_step hw hquery he
    · show ((w.dot.step codec req idleTimeout e).phase t).Healthy w.closed
      rw [State.step_phase_of_ne hquery]
      exact h
  | close c =>
    refine Phase.Healthy.of_same h fun c' hc' => ?_
    have hne : c' ≠ c := by
      rintro rfl
      exact hw.inv.free t c' hc' he
    exact Function.update_of_ne hne _ _

theorem healthy_run {es : List WireEvent} {w : Wire} (hw : Sound codec req w) {t : Nat}
    (h : Healthy w t) (hes : PossibleRun codec req idleTimeout w es) :
    Sound codec req (run (wireStep codec req idleTimeout) w es) ∧
      Healthy (run (wireStep codec req idleTimeout) w es) t := by
  have hstep : ∀ w e, Sound codec req w ∧ Healthy w t → Possible codec w e →
      Sound codec req (wireStep codec req idleTimeout w e) ∧
        Healthy (wireStep codec req idleTimeout w e) t :=
    fun _ _ hw he => ⟨hw.1.step he, hw.2.step hw.1 he⟩
  exact invariant hstep ⟨hw, h⟩ hes

/-! ## It can return -/

/-- Something possible ends the query with a message. -/
def CanReturn (codec : Codec) (req : Nat → Query) (idleTimeout : Nat) (w : Wire) (t : Nat) : Prop :=
  ∃ es m, PossibleRun codec req idleTimeout w es ∧
    (run (wireStep codec req idleTimeout) w es).dot.phase t = .ended (.returned m)

theorem canReturn_step {t : Nat} {e : WireEvent} (he : Possible codec w e)
    (h : CanReturn codec req idleTimeout (wireStep codec req idleTimeout w e) t) :
    CanReturn codec req idleTimeout w t := by
  obtain ⟨es, m, hes, hm⟩ := h
  exact ⟨e :: es, m, ⟨he, hes⟩, hm⟩

theorem canReturn_givingBack (hw : Sound codec req w) {t : Nat} {c : ConnId} {reply : List UInt8}
    (hphase : w.dot.phase t = .givingBack c reply) : CanReturn codec req idleTimeout w t := by
  obtain ⟨m, hm⟩ := @Sound.giveBack_returns codec req idleTimeout w hw t c reply hphase
  refine ⟨[.dot (.giveBack t)], m, ⟨trivial, trivial⟩, ?_⟩
  show (w.dot.step codec req idleTimeout (.giveBack t)).phase t = _
  rw [State.step, hphase]
  exact hm

/-- The next byte of a reply that is not read to its end. -/
theorem Connection.Answered.next {conn : Connection} {t : Nat} {got : List UInt8}
    (h : conn.Answered req t got) (hmore : missing got ≠ 0) :
    ∃ b tail, conn.fromServer = b :: tail ∧
      Connection.Answered req { conn with fromServer := tail } t (got ++ [b]) := by
  obtain ⟨us, log, reply, husers, hserved, hlog, hto, hlen, hframe⟩ := h
  cases hfrom : conn.fromServer with
  | nil =>
    rw [hfrom] at hframe
    exact absurd ((missing_eq_zero hlen hframe).mpr rfl) hmore
  | cons b tail =>
    refine ⟨b, tail, rfl, us, log, reply, husers, hserved, hlog, hto, hlen, ?_⟩
    rw [← hframe, hfrom, List.append_assoc]
    rfl

/-- A read of one byte. -/
theorem read_one {s : State} {t : Nat} {c : ConnId} {got : List UInt8} {b : UInt8}
    {tail : List UInt8} (hfrom : (s.conns c).fromServer = b :: tail) (hmore : missing got ≠ 0) :
    (s.read t c got 1).conns c = { s.conns c with fromServer := tail } ∧
      (s.read t c got 1).phase t = if missing (got ++ [b]) = 0 then
        .givingBack c ((got ++ [b]).drop 2) else .reading c (got ++ [b]) := by
  have hone : min 1 (missing got) = 1 := by omega
  unfold State.read
  simp only [hone, hfrom]
  exact ⟨s.setConn_self c _, State.setPhase_self t _⟩

/-- Once answered, the query reads its reply byte by byte. -/
theorem canReturn_answered {t : Nat} {c : ConnId} {w : Wire} {got : List UInt8}
    (hw : Sound codec req w) (hphase : w.dot.phase t = .reading c got)
    (hanswered : (w.dot.conns c).Answered req t got) : CanReturn codec req idleTimeout w t := by
  generalize hn : (w.dot.conns c).fromServer.length = n
  induction n using Nat.strong_induction_on generalizing w got with
  | _ n ih =>
    have hsound : Sound codec req (wireStep codec req idleTimeout w (.dot (.read t 1))) :=
      hw.step (show Possible codec w (.dot (.read t 1)) from trivial)
    have hread : w.dot.step codec req idleTimeout (.read t 1) = w.dot.read t c got 1 := by
      rw [State.step, hphase]
    apply canReturn_step (show Possible codec w (.dot (.read t 1)) from trivial)
    by_cases hmore : missing got = 0
    · apply canReturn_givingBack hsound
      show (w.dot.step codec req idleTimeout (.read t 1)).phase t = .givingBack c (got.drop 2)
      rw [hread]
      unfold State.read
      simp [hmore]
    · obtain ⟨b, tail, hfrom, hnext⟩ := hanswered.next hmore
      obtain ⟨hconn, hphase'⟩ := @read_one w.dot t c got b tail hfrom hmore
      rw [← hread] at hconn hphase'
      by_cases hend : missing (got ++ [b]) = 0
      · rw [if_pos hend] at hphase'
        exact canReturn_givingBack hsound hphase'
      · rw [if_neg hend] at hphase'
        have hlt : tail.length < n := by
          rw [← hn, hfrom]
          exact Nat.lt_succ_self _
        apply ih tail.length hlt hsound hphase'
        · rw [← hconn] at hnext
          exact hnext
        · show ((w.dot.step codec req idleTimeout (.read t 1)).conns c).fromServer.length = _
          rw [hconn]

variable {answer : Query}

theorem canReturn_reading (hw : Sound codec req w) {t : Nat} {c : ConnId} {got : List UInt8}
    (hanswer : (codec.fromVec answer.1).isSome = true) (hopen : w.closed c = false)
    (hphase : w.dot.phase t = .reading c got) : CanReturn codec req idleTimeout w t := by
  have hs := hw.inv.stands t
  rw [hphase, State.Stands] at hs
  rcases hs with ⟨rfl, hasking⟩ | ⟨-, hanswered⟩
  · have hserve : Possible codec w (.dot (.serve c answer)) := ⟨hopen, hanswer⟩
    have hphase' : (wireStep codec req idleTimeout w (.dot (.serve c answer))).dot.phase t =
        .reading c [] := hphase
    apply canReturn_step hserve
    apply canReturn_answered (hw.step hserve) hphase'
    show ((w.dot.setConn c _).conns c).Answered req t []
    rw [State.setConn_self]
    exact hasking.serve answer
  · exact canReturn_answered hw hphase hanswered

theorem canReturn_flushing (hw : Sound codec req w) {t : Nat} {c : ConnId}
    (hanswer : (codec.fromVec answer.1).isSome = true) (hopen : w.closed c = false)
    (hphase : w.dot.phase t = .flushing c) : CanReturn codec req idleTimeout w t := by
  have hflush : Possible codec w (.dot (.flush t)) := trivial
  have hphase' : (wireStep codec req idleTimeout w (.dot (.flush t))).dot.phase t =
      .reading c [] := by
    show (w.dot.step codec req idleTimeout (.flush t)).phase t = _
    rw [State.step, hphase]
    exact State.setPhase_self t _
  apply canReturn_step hflush
  exact canReturn_reading (hw.step hflush) hanswer hopen hphase'

theorem canReturn_writing (hw : Sound codec req w) {t : Nat} {c : ConnId} {rest : List UInt8}
    (hanswer : (codec.fromVec answer.1).isSome = true) (hopen : w.closed c = false)
    (hphase : w.dot.phase t = .writing c rest) : CanReturn codec req idleTimeout w t := by
  have hwrite : Possible codec w (.dot (.write t rest.length)) := trivial
  have hphase' : (wireStep codec req idleTimeout w (.dot (.write t rest.length))).dot.phase t =
      .flushing c := by
    show (w.dot.step codec req idleTimeout (.write t rest.length)).phase t = _
    rw [State.step, hphase]
    simp [State.write]
  apply canReturn_step hwrite
  exact canReturn_flushing (hw.step hwrite) hanswer hopen hphase'

theorem canReturn_connecting (hw : Sound codec req w) {t : Nat}
    (hanswer : (codec.fromVec answer.1).isSome = true)
    (hphase : w.dot.phase t = .connecting) : CanReturn codec req idleTimeout w t := by
  have hconnect : Possible codec w (.dot (.connect t)) := trivial
  have hphase' : (wireStep codec req idleTimeout w (.dot (.connect t))).dot.phase t =
      .writing w.dot.fresh (frame (req t).1) := by
    show (w.dot.step codec req idleTimeout (.connect t)).phase t = _
    rw [State.step, hphase]
    exact State.setPhase_self t _
  apply canReturn_step hconnect
  exact canReturn_writing (hw.step hconnect) hanswer (hw.known w.dot.fresh (Nat.le_refl _)) hphase'

/-- **A healthy query can return, until it has ended.** -/
theorem Healthy.canReturn (hw : Sound codec req w) {t : Nat} (h : Healthy w t)
    (hanswer : (codec.fromVec answer.1).isSome = true) (hrunning : ∀ o, w.dot.phase t ≠ .ended o) :
    CanReturn codec req idleTimeout w t := by
  unfold Healthy at h
  cases hphase : w.dot.phase t with
  | idle =>
    rw [hphase] at h
    exact h.elim
  | locking =>
    rw [hphase] at h
    exact h.elim
  | connecting => exact canReturn_connecting hw hanswer hphase
  | writing c rest =>
    rw [hphase] at h
    exact canReturn_writing hw hanswer h hphase
  | flushing c =>
    rw [hphase] at h
    exact canReturn_flushing hw hanswer h hphase
  | reading c got =>
    rw [hphase] at h
    exact canReturn_reading hw hanswer h hphase
  | givingBack c reply => exact canReturn_givingBack hw hphase
  | ended o => exact absurd hphase (hrunning o)

/-! ## A query on a closed connection -/

/-- The connection is closed, and nothing is left to read. -/
def Dead (w : Wire) (c : ConnId) : Prop :=
  w.closed c = true ∧ (w.dot.conns c).fromServer = []

/-- The query has a dead connection and has read nothing, or has ended without a message. -/
def Phase.Stale (dead : ConnId → Prop) : Phase → Prop
  | .writing c _ => dead c
  | .flushing c => dead c
  | .reading c got => got = [] ∧ dead c
  | .ended .failed => True
  | .ended .cancelled => True
  | _ => False

def Stale (w : Wire) (t : Nat) : Prop := (w.dot.phase t).Stale (Dead w)

theorem Phase.Stale.of_same {dead dead' : ConnId → Prop} {p : Phase} (h : p.Stale dead)
    (hsame : ∀ c, p.conn? = some c → dead c → dead' c) : p.Stale dead' := by
  cases p with
  | writing c rest => exact hsame c rfl h
  | flushing c => exact hsame c rfl h
  | reading c got => exact ⟨h.1, hsame c rfl h.2⟩
  | ended o => cases o <;> exact h
  | _ => exact h

theorem Phase.Stale.dead {dead : ConnId → Prop} {p : Phase} (h : p.Stale dead) {c : ConnId}
    (hown : p.conn? = some c) : dead c := by
  cases p with
  | writing c' rest =>
    cases hown
    exact h
  | flushing c' =>
    cases hown
    exact h
  | reading c' got =>
    cases hown
    exact h.2
  | givingBack c' reply => exact h.elim
  | _ => cases hown

/-- A step of the query itself: without a byte to read it does not come to the end of a reply. -/
theorem Stale.own_step {t : Nat} (h : Stale w t) {e : Event} (hquery : e.query? = some t) :
    Stale (wireStep codec req idleTimeout w (.dot e)) t := by
  show Stale ⟨w.dot.step codec req idleTimeout e, w.closed⟩ t
  generalize hstep : w.dot.step codec req idleTimeout e = s'
  rcases State.step_cases hstep with rfl | hturn
  · exact h
  unfold Stale at h
  cases hturn with
  | start hphase =>
    cases hquery
    rw [hphase] at h
    exact h.elim
  | take hphase =>
    cases hquery
    rw [hphase] at h
    exact h.elim
  | connect hphase =>
    cases hquery
    rw [hphase] at h
    exact h.elim
  | giveBack hphase =>
    cases hquery
    rw [hphase] at h
    exact h.elim
  | @write _ n c rest hphase =>
    cases hquery
    rw [hphase] at h
    have hdead : Dead ⟨w.dot.write t c rest n, w.closed⟩ c := by
      refine ⟨h.1, ?_⟩
      show ((w.dot.setConn c _).conns c).fromServer = []
      rw [State.setConn_self]
      exact h.2
    show ((State.setPhase _ t _).phase t).Stale _
    rw [State.setPhase_self]
    split
    · exact hdead
    · exact hdead
  | flush hphase =>
    cases hquery
    rw [hphase] at h
    show ((State.setPhase _ t _).phase t).Stale _
    rw [State.setPhase_self]
    exact ⟨rfl, h⟩
  | @read _ n c got hphase =>
    cases hquery
    rw [hphase] at h
    obtain ⟨rfl, hclosed, hfrom⟩ := h
    have hdead : Dead ⟨w.dot.read t c [] n, w.closed⟩ c := by
      refine ⟨hclosed, ?_⟩
      show ((w.dot.setConn c _).conns c).fromServer = []
      rw [State.setConn_self]
      show (w.dot.conns c).fromServer.drop _ = []
      rw [hfrom, List.drop_nil]
    have hphase' : (w.dot.read t c [] n).phase t = .reading c [] := by
      unfold State.read
      simp [hfrom, missing]
    show ((w.dot.read t c [] n).phase t).Stale _
    rw [hphase']
    exact ⟨rfl, hdead⟩
  | fail =>
    cases hquery
    show ((State.setPhase _ t _).phase t).Stale _
    rw [State.setPhase_self]
    trivial
  | cancel =>
    cases hquery
    show ((State.setPhase _ t _).phase t).Stale _
    rw [State.setPhase_self]
    trivial
  | serve c reply => cases hquery
  | tick d => cases hquery

/-- **A stale query stays stale.** -/
theorem Stale.step (hw : Sound codec req w) {t : Nat} (h : Stale w t) {e : WireEvent}
    (he : Possible codec w e) : Stale (wireStep codec req idleTimeout w e) t := by
  cases e with
  | dot e =>
    by_cases hquery : e.query? = some t
    · exact h.own_step hquery
    · show ((w.dot.step codec req idleTimeout e).phase t).Stale _
      rw [State.step_phase_of_ne hquery]
      refine Phase.Stale.of_same h fun c hown hdead => ⟨hdead.1, ?_⟩
      show ((w.dot.step codec req idleTimeout e).conns c).fromServer = []
      rw [State.step_conn hw.inv hown hquery]
      · exact hdead.2
      · -- the server does not answer where it has closed
        rintro reply rfl
        have hopen : w.closed c = false := he.1
        rw [hdead.1] at hopen
        cases hopen
  | close c =>
    refine Phase.Stale.of_same h fun c' _ hdead => ⟨?_, hdead.2⟩
    show Function.update w.closed c true c' = true
    by_cases hc : c' = c
    · rw [hc, Function.update_self]
    · rw [Function.update_of_ne hc]
      exact hdead.1

theorem stale_run {es : List WireEvent} {w : Wire} (hw : Sound codec req w) {t : Nat}
    (h : Stale w t) (hes : PossibleRun codec req idleTimeout w es) :
    Stale (run (wireStep codec req idleTimeout) w es) t := by
  have hstep : ∀ w e, Sound codec req w ∧ Stale w t → Possible codec w e →
      Sound codec req (wireStep codec req idleTimeout w e) ∧
        Stale (wireStep codec req idleTimeout w e) t :=
    fun _ _ hw he => ⟨hw.1.step he, hw.2.step hw.1 he⟩
  exact (invariant hstep ⟨hw, h⟩ hes).2

/-! ## Which of the two it is -/

/-- Step 2 with an empty pool. -/
theorem take_phase_none {s : State} (t : Nat)
    (h : (s.pool.filter (·.isAlive s.now)).getLast? = none) :
    (s.take req t).phase t = .connecting := by
  unfold State.take
  simp only [h]
  exact State.setPhase_self t _

/-- Step 2 with a connection. -/
theorem take_some {s : State} (t : Nat) {e : DotConnection}
    (h : (s.pool.filter (·.isAlive s.now)).getLast? = some e) :
    (s.take req t).phase t = .writing e.stream (frame (req t).1) ∧
      ((s.take req t).conns e.stream).fromServer = (s.conns e.stream).fromServer := by
  unfold State.take
  simp only [h]
  refine ⟨State.setPhase_self t _, ?_⟩
  show ((s.setConn e.stream _).conns e.stream).fromServer = _
  rw [State.setConn_self]

theorem step_take {t : Nat} (hphase : w.dot.phase t = .locking) :
    wireStep codec req idleTimeout w (.dot (.take t)) = ⟨w.dot.take req t, w.closed⟩ := by
  rw [wireStep, State.step, hphase]

/-- What is in the pool, and is taken out, is owed nothing. -/
theorem Sound.taken_quiet (hw : Sound codec req w) {e : DotConnection}
    (h : (w.dot.pool.filter (·.isAlive w.dot.now)).getLast? = some e) :
    (w.dot.conns e.stream).fromServer = [] :=
  (hw.inv.quiet e (List.mem_of_mem_filter (List.mem_of_getLast? h))).2.1

theorem healthy_of_usable {t : Nat} (hphase : w.dot.phase t = .locking) (h : Usable w) :
    Healthy (wireStep codec req idleTimeout w (.dot (.take t))) t := by
  rw [step_take hphase]
  show ((w.dot.take req t).phase t).Healthy w.closed
  cases hlast : (w.dot.pool.filter (·.isAlive w.dot.now)).getLast? with
  | none =>
    rw [take_phase_none t hlast]
    trivial
  | some e =>
    rw [(take_some t hlast).1]
    exact h e hlast

theorem stale_of_not_usable (hw : Sound codec req w) {t : Nat}
    (hphase : w.dot.phase t = .locking) (h : ¬ Usable w) :
    Stale (wireStep codec req idleTimeout w (.dot (.take t))) t ∧
      ∃ c rest, (wireStep codec req idleTimeout w (.dot (.take t))).dot.phase t =
        .writing c rest ∧ w.closed c = true := by
  obtain ⟨e, he⟩ := not_forall.mp h
  obtain ⟨hlast, hclosed⟩ := Classical.not_imp.mp he
  have hclosed' : w.closed e.stream = true := by simpa using hclosed
  obtain ⟨hwriting, hfrom⟩ := @take_some req w.dot t e hlast
  rw [step_take hphase]
  refine ⟨?_, e.stream, frame (req t).1, hwriting, hclosed'⟩
  show ((w.dot.take req t).phase t).Stale _
  rw [hwriting]
  exact ⟨hclosed', hfrom.trans (hw.taken_quiet hlast)⟩

/-- **With a closed connection a query never returns a message.** -/
theorem stale_never_returns {es : List WireEvent} {t : Nat}
    (hes : PossibleRun codec req idleTimeout .init es)
    (hphase : (run (wireStep codec req idleTimeout) .init es).dot.phase t = .locking)
    (h : ¬ Usable (run (wireStep codec req idleTimeout) .init es)) {more : List WireEvent}
    (hmore : PossibleRun codec req idleTimeout
      (wireStep codec req idleTimeout (run (wireStep codec req idleTimeout) .init es)
        (.dot (.take t))) more) (m : Message) :
    (run (wireStep codec req idleTimeout) (wireStep codec req idleTimeout
      (run (wireStep codec req idleTimeout) .init es) (.dot (.take t))) more).dot.phase t ≠
        .ended (.returned m) := by
  intro hended
  have hw : Sound codec req (run (wireStep codec req idleTimeout) .init es) :=
    sound_run sound_init hes
  have hw' : Sound codec req (wireStep codec req idleTimeout
      (run (wireStep codec req idleTimeout) .init es) (.dot (.take t))) :=
    hw.step (show Possible codec _ (.dot (.take t)) from trivial)
  have hstale := stale_run hw' (stale_of_not_usable hw hphase h).1 hmore
  rw [Stale, hended] at hstale
  exact hstale

/-- **A query returns `Ok` exactly when the connection it takes is not closed**: the last of the
pool that counts as alive, if there is one.  The server answers with messages. -/
theorem returnsOk_iff_usable {answer : Query} (hanswer : (codec.fromVec answer.1).isSome = true)
    {es : List WireEvent} (hes : PossibleRun codec req idleTimeout .init es) {t : Nat}
    (hphase : (run (wireStep codec req idleTimeout) .init es).dot.phase t = .locking) :
    ReturnsOk codec req idleTimeout (wireStep codec req idleTimeout
        (run (wireStep codec req idleTimeout) .init es) (.dot (.take t))) t ↔
      Usable (run (wireStep codec req idleTimeout) .init es) := by
  have hw : Sound codec req (run (wireStep codec req idleTimeout) .init es) :=
    sound_run sound_init hes
  generalize run (wireStep codec req idleTimeout) .init es = w at *
  have hw' : Sound codec req (wireStep codec req idleTimeout w (.dot (.take t))) :=
    hw.step (show Possible codec w (.dot (.take t)) from trivial)
  constructor
  · intro hok
    by_contra h
    obtain ⟨-, c, rest, hwriting, hclosed⟩ :=
      @stale_of_not_usable codec req idleTimeout w hw t hphase h
    have hfail : PossibleRun codec req idleTimeout
        (wireStep codec req idleTimeout w (.dot (.take t))) [.dot (.fail t)] := by
      refine ⟨⟨c, by rw [hwriting]; rfl, ?_⟩, trivial⟩
      rw [step_take hphase]
      exact hclosed
    have hfailed : (run (wireStep codec req idleTimeout)
        (wireStep codec req idleTimeout w (.dot (.take t))) [.dot (.fail t)]).dot.phase t =
          .ended .failed := by
      show (State.step codec req idleTimeout _ (.fail t)).phase t = _
      rw [State.step, hwriting]
      exact State.setPhase_self t _
    rcases hok.never_fails _ hfail .failed hfailed with hcancelled | ⟨m, hreturned⟩
    · cases hcancelled
    · cases hreturned
  · intro h
    have hhealthy := @healthy_of_usable codec req idleTimeout w t hphase h
    constructor
    · intro more hmore o ho
      have hend := (healthy_run hw' hhealthy hmore).2
      rw [Healthy, ho] at hend
      cases o with
      | returned m => exact Or.inr ⟨m, rfl⟩
      | cancelled => exact Or.inl rfl
      | undecodable => exact hend.elim
      | failed => exact hend.elim
    · intro more hmore hrunning
      obtain ⟨hsound, hend⟩ := healthy_run hw' hhealthy hmore
      obtain ⟨rest, m, hrest, hm⟩ := hend.canReturn hsound hanswer hrunning
      refine ⟨rest, m, hmore.append hrest, ?_⟩
      rw [run_append]
      exact hm

/-- A message of a header, and what stands for it. -/
def headerOnly : Query := ⟨[0, 0, 128, 0, 0, 0, 0, 0, 0, 0, 0, 0], by decide⟩

/-- A codec that reads this message only. -/
def headerCodec : Codec := Codec.ofTable [({ id := 0, messageType := .response }, headerOnly.1)] []

/-- The first query uses a new connection and gives it back; the second is about to take one. -/
def idleConnection : List WireEvent :=
  [.dot (.start 0), .dot (.take 0), .dot (.connect 0), .dot (.write 0 35), .dot (.flush 0),
    .dot (.serve 0 headerOnly), .dot (.read 0 2), .dot (.read 0 12), .dot (.giveBack 0),
    .dot (.start 1)]

/-- The connection is used again. -/
theorem returnsOk_iff_usable_idle :
    ReturnsOk headerCodec (fun _ => exampleRequest) 10
      (wireStep headerCodec (fun _ => exampleRequest) 10
        (run (wireStep headerCodec (fun _ => exampleRequest) 10) .init idleConnection)
        (.dot (.take 1))) 1 := by
  have hserve : (headerCodec.fromVec headerOnly.1).isSome = true := by decide +kernel
  have hpossible : PossibleRun headerCodec (fun _ => exampleRequest) 10 .init idleConnection :=
    ⟨trivial, trivial, trivial, trivial, trivial, ⟨rfl, hserve⟩, trivial, trivial, trivial, trivial,
      trivial⟩
  apply (@returnsOk_iff_usable headerCodec (fun _ => exampleRequest) 10 headerOnly hserve _
    hpossible 1 rfl).mpr
  intro e he
  cases he
  rfl

/-- The server closes the connection before it is used again. -/
theorem closed_connection_fails :
    PossibleRun headerCodec (fun _ => exampleRequest) 10 .init (idleConnection ++ [.close 0]) ∧
      ¬ ReturnsOk headerCodec (fun _ => exampleRequest) 10
        (wireStep headerCodec (fun _ => exampleRequest) 10
          (run (wireStep headerCodec (fun _ => exampleRequest) 10) .init
            (idleConnection ++ [.close 0])) (.dot (.take 1))) 1 := by
  have hserve : (headerCodec.fromVec headerOnly.1).isSome = true := by decide +kernel
  refine ⟨⟨trivial, trivial, trivial, trivial, trivial, ⟨rfl, hserve⟩, trivial, trivial, trivial,
    trivial, List.mem_singleton_self _, trivial⟩, fun hok => ?_⟩
  have hend := hok.never_fails [.dot (.write 1 35), .dot (.flush 1), .dot (.fail 1)]
    ⟨trivial, trivial, ⟨0, rfl, rfl⟩, trivial⟩ .failed rfl
  rcases hend with hcancelled | ⟨m, hreturned⟩
  · cases hcancelled
  · cases hreturned

end TitanDns.Dot
