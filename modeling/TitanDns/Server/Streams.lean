import TitanDns.Lib.Framing
import TitanDns.Lib.Run
import TitanDns.Server.Process

/-!
# The stream listeners

`run_tcp`, `run_dot` and `run_doq`: a query behind its length in two octets, the answer likewise.
A DoT connection goes on after an answer; a TCP connection and a QUIC stream carry one query.

* `Listener`, `runTcp`, `runDot`, `runDoq` — how the listeners differ.
* `Connection`, `step` — the task of one connection, read by read and write by write; chunks arrive
  cut up anyhow, and at every await the task may time out, fail or panic.
* `Sound` — the invariant: what was received is the requests in order, then the part of the next
  one that was read, then what waits.

Principal results: `requests_exact` — **however the bytes arrive, the requests are the complete
messages of the stream, in order, none twice and none left over when the task waits for more**;
`answers_read_back` — **the client reads back exactly the answers, each to the request at its
place, exactly if every one fits its length.**
-/

namespace TitanDns.Streams

open Run Framing

/-- A listener, as its connections see it. -/
structure Listener where
  /-- The task loops back for the next query. -/
  persistent : Bool
  /-- The milliseconds around each `read_exact`. -/
  readTimeout : Option Nat

/-- `run_tcp`, up to its accept loop. -/
def runTcp (tcpReadTimeoutMs : Option Nat) : Except String Listener :=
  match tcpReadTimeoutMs with
  | some 0 => .error "tcp_read_timeout_ms must be > 0"
  | some v => .ok ⟨false, some v⟩
  | none => .ok ⟨false, none⟩

/-- `run_dot`, up to its accept loop. -/
def runDot (tcpReadTimeoutMs : Option Nat) : Except String Listener :=
  match tcpReadTimeoutMs with
  | some 0 => .error "tcp_read_timeout_ms must be > 0"
  | some v => .ok ⟨true, some v⟩
  | none => .ok ⟨true, some 5000⟩

/-- A stream of `run_doq`. -/
def runDoq : Listener := ⟨false, none⟩

/-- Where the task of a connection stands. -/
inductive Phase where
  /-- `read_exact(&mut len_buf)`. -/
  | length (got : List UInt8)
  /-- `read_exact(&mut buf)`, with `buf` of `len` bytes. -/
  | body (len : Nat) (got : List UInt8)
  | processing
  /-- The two `write_all`. -/
  | writing (rest : List UInt8)
  | closed

structure Connection where
  phase : Phase
  /-- Received, and not read. -/
  inbox : List UInt8
  /-- What was given to `process_request`. -/
  requests : List (List UInt8)
  /-- What `process_request` returned. -/
  returned : List Processed
  sent : List UInt8

def Connection.new : Connection := ⟨.length [], [], [], [], []⟩

inductive Event where
  | deliver (chunk : List UInt8)
  /-- The stream hands over up to `n` bytes. -/
  | read (n : Nat)
  /-- `process_request` returns, or panics. -/
  | processed (p : Option Processed)
  /-- The stream takes up to `n` bytes. -/
  | write (n : Nat)
  | timeout
  /-- The client has finished. -/
  | eof
  /-- The read or the write under way fails. -/
  | fail

/-- `read_exact` goes on with a read of up to `n` bytes: what it has then, and what waits. -/
def readExact (want : Nat) (got inbox : List UInt8) (n : Nat) : List UInt8 × List UInt8 :=
  let k := min n (want - got.length)
  (got ++ inbox.take k, inbox.drop k)

/-- After an answer, or none. -/
def Listener.next (l : Listener) : Phase := if l.persistent then .length [] else .closed

def Connection.close (s : Connection) : Connection := { s with phase := .closed }

/-- The length is there; `u16::from_be_bytes`. -/
def Connection.gotLength (s : Connection) (got : List UInt8) : Connection :=
  let len := leNat got.reverse
  if 65535 < len then s.close else { s with phase := .body len [] }

/-- `process_request` returned: the length of the answer as a `u16`, and the answer. -/
def Connection.answer (l : Listener) (s : Connection) (p : Processed) : Connection :=
  match p.bytes with
  | some resp => { s with phase := .writing (frame resp), returned := s.returned ++ [p] }
  | none => { s with phase := l.next, returned := s.returned ++ [p] }

def Connection.read (s : Connection) (n : Nat) : Connection :=
  match s.phase with
  | .length got =>
    let (got, inbox) := readExact 2 got s.inbox n
    if got.length < 2 then { s with phase := .length got, inbox := inbox }
    else { s with inbox := inbox }.gotLength got
  | .body len got =>
    let (got, inbox) := readExact len got s.inbox n
    if got.length < len then { s with phase := .body len got, inbox := inbox }
    else { s with phase := .processing, inbox := inbox, requests := s.requests ++ [got] }
  | _ => s

def Connection.write (l : Listener) (s : Connection) (n : Nat) : Connection :=
  match s.phase with
  | .writing rest =>
    { s with
      phase := if rest.drop n = [] then l.next else .writing (rest.drop n)
      sent := s.sent ++ rest.take n }
  | _ => s

/-- The task is in a `read_exact` that still wants bytes. -/
def Phase.Wants : Phase → Prop
  | .length _ => True
  | .body len got => got.length < len
  | _ => False

instance : DecidablePred Phase.Wants := fun p =>
  match p with
  | .length _ => .isTrue trivial
  | .body len got => inferInstanceAs (Decidable (got.length < len))
  | .processing | .writing _ | .closed => .isFalse id

/-- The task waits for bytes that are not there. -/
def Connection.Waits (s : Connection) : Prop := s.phase.Wants ∧ s.inbox = []

instance (s : Connection) : Decidable s.Waits := inferInstanceAs (Decidable (_ ∧ _))

/-- The task is in one of its reads. -/
def Phase.reading : Phase → Bool
  | .length _ | .body _ _ => true
  | _ => false

def step (l : Listener) (s : Connection) : Event → Connection
  | .deliver chunk => { s with inbox := s.inbox ++ chunk }
  | .read n => s.read n
  | .processed p =>
    match s.phase, p with
    | .processing, some p => s.answer l p
    | .processing, none => s.close
    | _, _ => s
  | .write n => s.write l n
  | .timeout => if l.readTimeout.isSome && s.phase.reading then s.close else s
  | .eof => if s.Waits then s.close else s
  | .fail =>
    match s.phase with
    | .length _ | .body _ _ | .writing _ => s.close
    | _ => s

/-- The connection after the events `es`. -/
def after (l : Listener) (es : List Event) : Connection := run (step l) .new es

/-- The bytes an event brings. -/
def Event.chunk : Event → List UInt8
  | .deliver chunk => chunk
  | _ => []

/-- All that was received. -/
def delivered (es : List Event) : List UInt8 := es.flatMap Event.chunk

/-- The requests a listener takes from the messages of a connection. -/
def Listener.takes (l : Listener) (ms : List (List UInt8)) : List (List UInt8) :=
  if l.persistent then ms else ms.take 1

/-- The answers that were to be written. -/
def Connection.answers (s : Connection) : List (List UInt8) := s.returned.filterMap Processed.bytes

/-! ## The invariant -/

/-- What was read of the next message. -/
def Phase.part : Phase → List UInt8
  | .length got => got
  | .body len got => (leBytes 2 len).reverse ++ got
  | _ => []

/-- What is left to write of the last answer. -/
def Phase.unsent : Phase → List UInt8
  | .writing rest => rest
  | _ => []

def Phase.isClosed : Phase → Bool
  | .closed => true
  | _ => false

/-- Requests given to `process_request` that it has not returned from. -/
def Phase.pending : Phase → Nat
  | .processing => 1
  | _ => 0

/-- A buffer holds no more than was asked for. -/
def Phase.Bounded : Phase → Prop
  | .length got => got.length < 2
  | .body len got => len < 65536 ∧ (got.length < len ∨ got = [])
  | _ => True

structure Sound (l : Listener) (s : Connection) (received : List UInt8) : Prop where
  short : ∀ m ∈ s.requests, m.length < 65536
  bounded : s.phase.Bounded
  consumed : s.phase.isClosed = false →
    received = s.requests.flatMap frame ++ (s.phase.part ++ s.inbox)
  received : s.requests.flatMap frame <+: received
  one : l.persistent = false → s.requests.length ≤ 1 ∧ (s.phase.reading = true → s.requests = [])
  paired : s.phase.isClosed = false → s.requests.length = s.returned.length + s.phase.pending
  returned : s.returned.length ≤ s.requests.length ∧ s.requests.length ≤ s.returned.length + 1
  written : s.phase.isClosed = false → s.answers.flatMap frame = s.sent ++ s.phase.unsent
  sent : s.sent <+: s.answers.flatMap frame

variable {l : Listener} {s : Connection} {received : List UInt8}

theorem sound_new (l : Listener) : Sound l .new [] where
  short := by simp [Connection.new]
  bounded := by simp [Connection.new, Phase.Bounded]
  consumed _ := by simp [Connection.new, Phase.part]
  received := by simp [Connection.new]
  one _ := by simp [Connection.new]
  paired _ := by simp [Connection.new, Phase.pending]
  returned := by simp [Connection.new]
  written _ := by simp [Connection.new, Connection.answers, Phase.unsent]
  sent := by simp [Connection.new]

/-- A task that ends keeps what it did. -/
theorem Sound.close (h : Sound l s received) : Sound l s.close received where
  short := h.short
  bounded := trivial
  consumed hopen := by simp [Connection.close, Phase.isClosed] at hopen
  received := h.received
  one hl := ⟨(h.one hl).1, by simp [Connection.close, Phase.reading]⟩
  paired hopen := by simp [Connection.close, Phase.isClosed] at hopen
  returned := h.returned
  written hopen := by simp [Connection.close, Phase.isClosed] at hopen
  sent := h.sent

theorem Sound.deliver (h : Sound l s received) (chunk : List UInt8) :
    Sound l { s with inbox := s.inbox ++ chunk } (received ++ chunk) where
  short := h.short
  bounded := h.bounded
  consumed hopen := by
    have hold := h.consumed hopen
    simp [hold]
  received := h.received.trans (List.prefix_append _ _)
  one := h.one
  paired := h.paired
  returned := h.returned
  written := h.written
  sent := h.sent

/-- Reading on: the requests and the answers are untouched, and every byte read is kept. -/
theorem Sound.moved {p : Phase} {inbox : List UInt8} (h : Sound l s received)
    (hreading : s.phase.reading = true) (hp : p.reading = true) (hbounded : p.Bounded)
    (hbytes : p.part ++ inbox = s.phase.part ++ s.inbox) :
    Sound l { s with phase := p, inbox := inbox } received := by
  have hopen : s.phase.isClosed = false := by
    cases hphase : s.phase <;> simp_all [Phase.reading, Phase.isClosed]
  have hunsent : s.phase.unsent = [] := by
    cases hphase : s.phase <;> simp_all [Phase.reading, Phase.unsent]
  have hnone : s.phase.pending = 0 := by
    cases hphase : s.phase <;> simp_all [Phase.reading, Phase.pending]
  have hunsent' : p.unsent = [] := by cases p <;> simp_all [Phase.reading, Phase.unsent]
  have hnone' : p.pending = 0 := by cases p <;> simp_all [Phase.reading, Phase.pending]
  refine ⟨h.short, hbounded, fun _ => ?_, h.received, fun hl => ?_, fun _ => ?_, h.returned,
    fun _ => ?_, h.sent⟩
  · rw [h.consumed hopen, hbytes]
  · exact ⟨(h.one hl).1, fun _ => (h.one hl).2 hreading⟩
  · rw [h.paired hopen, hnone, hnone']
  · have hwritten := h.written hopen
    rw [hunsent] at hwritten
    rw [hunsent']
    exact hwritten

/-! ## Every step keeps it -/

/-- No byte is lost between the buffer and what waits. -/
theorem readExact_append (want : Nat) (got inbox : List UInt8) (n : Nat) :
    (readExact want got inbox n).1 ++ (readExact want got inbox n).2 = got ++ inbox := by
  simp [readExact]

theorem readExact_length {want : Nat} {got : List UInt8} (h : got.length ≤ want)
    (inbox : List UInt8) (n : Nat) : (readExact want got inbox n).1.length ≤ want := by
  simp [readExact]; omega

/-- The two octets of a length are those of its number. -/
theorem lengthOctets {got : List UInt8} (h : got.length = 2) :
    (leBytes 2 (leNat got.reverse)).reverse = got ∧ leNat got.reverse < 65536 := by
  have hrev : got.reverse.length = 2 := by simpa using h
  have hback := leBytes_leNat got.reverse
  have hlt := leNat_lt got.reverse
  rw [hrev] at hback hlt
  exact ⟨by rw [hback, List.reverse_reverse], hlt⟩

theorem Sound.readLength {got : List UInt8} (h : Sound l s received)
    (hphase : s.phase = .length got) (n : Nat) : Sound l (s.read n) received := by
  have hbounded := h.bounded
  rw [hphase] at hbounded
  simp only [Phase.Bounded] at hbounded
  have hbytes := readExact_append 2 got s.inbox n
  have hle := readExact_length (Nat.le_of_lt hbounded) s.inbox n
  have hreading : s.phase.reading = true := by rw [hphase]; rfl
  simp only [Connection.read, hphase]
  split
  · rename_i hlt
    exact h.moved hreading rfl hlt (by simpa [Phase.part, hphase] using hbytes)
  · rename_i hlt
    have htwo : (readExact 2 got s.inbox n).1.length = 2 := by omega
    obtain ⟨hback, hsmall⟩ := lengthOctets htwo
    -- the guard on the length never fires: two octets are no more than 65535
    simp only [Connection.gotLength]
    rw [if_neg (by omega)]
    refine h.moved hreading rfl ⟨hsmall, .inr rfl⟩ ?_
    simpa [Phase.part, hphase, hback] using hbytes

theorem Sound.readBody {len : Nat} {got : List UInt8} (h : Sound l s received)
    (hphase : s.phase = .body len got) (n : Nat) : Sound l (s.read n) received := by
  have hbounded := h.bounded
  rw [hphase] at hbounded
  obtain ⟨hlen, hgot⟩ := hbounded
  have hbytes := readExact_append len got s.inbox n
  have hshort : got.length ≤ len := by
    rcases hgot with hlt | hnil
    · omega
    · simp [hnil]
  have hle := readExact_length hshort s.inbox n
  have hreading : s.phase.reading = true := by rw [hphase]; rfl
  have hopen : s.phase.isClosed = false := by rw [hphase]; rfl
  have hconsumed := h.consumed hopen
  have hpaired := h.paired hopen
  have hwritten := h.written hopen
  simp only [hphase, Phase.part, Phase.pending, Phase.unsent] at hconsumed hpaired hwritten
  simp only [Connection.read, hphase]
  generalize hread : readExact len got s.inbox n = r at hbytes hle ⊢
  split
  · rename_i hlt
    refine h.moved hreading rfl ⟨hlen, .inl hlt⟩ ?_
    simp only [Phase.part, hphase, List.append_assoc, hbytes]
  · rename_i hlt
    have hall : r.1.length = len := by omega
    have hframe : frame r.1 = (leBytes 2 len).reverse ++ r.1 := by rw [frame, hall]
    have heq : received = (s.requests ++ [r.1]).flatMap frame ++ r.2 := by
      rw [hconsumed]
      simp [hframe, hbytes]
    refine ⟨?_, trivial, fun _ => ?_, ?_, fun hl => ?_, fun _ => ?_, ?_, fun _ => ?_, h.sent⟩
    · intro m hm
      rcases List.mem_append.mp hm with hm | hm
      · exact h.short m hm
      · rw [List.mem_singleton.mp hm]
        omega
    · simpa [Phase.part] using heq
    · exact ⟨r.2, heq.symm⟩
    · have hnone := (h.one hl).2 hreading
      simp [hnone, Phase.reading]
    · simp [hpaired, Phase.pending]
    · simp; omega
    · simpa [Connection.answers, Phase.unsent] using hwritten

theorem Sound.read (h : Sound l s received) (n : Nat) : Sound l (s.read n) received := by
  cases hphase : s.phase with
  | length got => exact h.readLength hphase n
  | body len got => exact h.readBody hphase n
  | processing => simpa [Connection.read, hphase] using h
  | writing rest => simpa [Connection.read, hphase] using h
  | closed => simpa [Connection.read, hphase] using h

/-- The answer is written, or there was none. -/
theorem Sound.next (h : Sound l s received) (hopen : s.phase.isClosed = false)
    (hpart : s.phase.part = []) (hsettled : s.phase.pending = 0) (hunsent : s.phase.unsent = []) :
    Sound l { s with phase := l.next } received := by
  cases hl : l.persistent with
  | false =>
    have hnext : l.next = .closed := by simp [Listener.next, hl]
    rw [hnext]
    exact h.close
  | true =>
    have hnext : l.next = .length [] := by simp [Listener.next, hl]
    have hconsumed := h.consumed hopen
    have hpaired := h.paired hopen
    have hwritten := h.written hopen
    rw [hpart, List.nil_append] at hconsumed
    rw [hsettled] at hpaired
    rw [hunsent] at hwritten
    rw [hnext]
    refine ⟨h.short, by simp [Phase.Bounded], fun _ => ?_, h.received, fun hl' => ?_, fun _ => ?_,
      h.returned, fun _ => ?_, h.sent⟩
    · simpa [Phase.part] using hconsumed
    · rw [hl] at hl'
      cases hl'
    · exact hpaired
    · exact hwritten

/-- `process_request` returned, and what is to be written is the frame of its answer. -/
theorem Sound.returns (h : Sound l s received) (hphase : s.phase = .processing) (p : Processed) :
    Sound l
      { s with
        phase := .writing ((p.bytes.map frame).getD [])
        returned := s.returned ++ [p] } received := by
  have hopen : s.phase.isClosed = false := by rw [hphase]; rfl
  have hconsumed := h.consumed hopen
  have hpaired := h.paired hopen
  have hwritten := h.written hopen
  simp only [hphase, Phase.part, Phase.pending, Phase.unsent] at hconsumed hpaired hwritten
  have hmore : (s.returned ++ [p]).filterMap Processed.bytes =
      s.answers ++ p.bytes.toList := by
    cases hp : p.bytes <;> simp [Connection.answers, hp]
  have hframes : ((s.returned ++ [p]).filterMap Processed.bytes).flatMap frame =
      s.sent ++ (p.bytes.map frame).getD [] := by
    rw [hmore, List.flatMap_append, hwritten]
    cases hp : p.bytes <;> simp
  refine ⟨h.short, trivial, fun _ => hconsumed, h.received, fun hl => ?_, fun _ => ?_, ?_,
    fun _ => hframes, ⟨_, hframes.symm⟩⟩
  · exact ⟨(h.one hl).1, by simp [Phase.reading]⟩
  · simp [hpaired, Phase.pending]
  · simp [hpaired]

theorem Sound.answer (h : Sound l s received) (hphase : s.phase = .processing) (p : Processed) :
    Sound l (s.answer l p) received := by
  have hreturns := h.returns hphase p
  cases hp : p.bytes with
  | some resp => simpa [Connection.answer, hp] using hreturns
  | none =>
    simp only [hp] at hreturns
    simpa [Connection.answer, hp] using hreturns.next rfl rfl rfl rfl

theorem Sound.write (h : Sound l s received) (n : Nat) : Sound l (s.write l n) received := by
  cases hphase : s.phase with
  | writing rest =>
    have hopen : s.phase.isClosed = false := by rw [hphase]; rfl
    have hconsumed := h.consumed hopen
    have hpaired := h.paired hopen
    have hwritten := h.written hopen
    simp only [hphase, Phase.part, Phase.pending, Phase.unsent] at hconsumed hpaired hwritten
    have hsplit : s.answers.flatMap frame = s.sent ++ rest.take n ++ rest.drop n := by
      rw [hwritten, List.append_assoc, List.take_append_drop]
    have hon : Sound l { s with phase := .writing (rest.drop n), sent := s.sent ++ rest.take n }
        received := by
      refine ⟨h.short, trivial, fun _ => hconsumed, h.received, fun hl => ?_, fun _ => hpaired,
        h.returned, fun _ => hsplit, ⟨_, hsplit.symm⟩⟩
      exact ⟨(h.one hl).1, by simp [Phase.reading]⟩
    simp only [Connection.write, hphase]
    split
    · rename_i hnil
      simpa using hon.next rfl rfl rfl (by simpa [Phase.unsent] using hnil)
    · exact hon
  | _ => simpa [Connection.write, hphase] using h

theorem Sound.step (h : Sound l s received) (e : Event) :
    Sound l (step l s e) (received ++ e.chunk) := by
  cases e with
  | deliver chunk => exact h.deliver chunk
  | read n => simpa [Streams.step, Event.chunk] using h.read n
  | write n => simpa [Streams.step, Event.chunk] using h.write n
  | processed p =>
    simp only [Streams.step, Event.chunk, List.append_nil]
    split
    · rename_i hphase
      exact h.answer hphase _
    · exact h.close
    · exact h
  | timeout =>
    simp only [Streams.step, Event.chunk, List.append_nil]
    split
    · exact h.close
    · exact h
  | eof =>
    simp only [Streams.step, Event.chunk, List.append_nil]
    split
    · exact h.close
    · exact h
  | fail =>
    simp only [Streams.step, Event.chunk, List.append_nil]
    split
    · exact h.close
    · exact h.close
    · exact h.close
    · exact h

theorem sound_run (l : Listener) (es : List Event) :
    Sound l (after l es) (delivered es) := by
  have hstep : ∀ (s : Connection) (bs : List UInt8) (e : Event), Sound l s bs →
      Sound l (step l s e) (bs ++ e.chunk) := fun s bs e h => h.step e
  have hfold : ∀ bs : List UInt8,
      run (fun (bs : List UInt8) (e : Event) => bs ++ e.chunk) bs es = bs ++ delivered es := by
    induction es with
    | nil => simp [delivered]
    | cons e es ih => intro bs; simp [ih, delivered]
  have hrun := simulation hstep (sound_new l) es
  rw [hfold, List.nil_append] at hrun
  exact hrun

/-! ## What is asked and what is answered -/

/-- The part of a message that a waiting task has read is no message. -/
theorem part_incomplete (hbounded : s.phase.Bounded) (hwants : s.phase.Wants) :
    takeFrame s.phase.part = none := by
  cases hphase : s.phase with
  | length got =>
    rw [hphase] at hbounded
    simp only [Phase.Bounded] at hbounded
    have hmissing : missing got ≠ 0 := by
      unfold missing
      split <;> omega
    have hnone : takeFrame got = none := by simp [takeFrame, hmissing]
    exact hnone
  | body len got =>
    rw [hphase] at hbounded hwants
    have hlt : got.length < len := hwants
    have hrest : (leBytes 2 len).reverse ++ got ++ List.replicate (len - got.length) 0 =
        frame (got ++ List.replicate (len - got.length) 0) := by
      have hall : (got ++ List.replicate (len - got.length) (0 : UInt8)).length = len := by
        simp; omega
      rw [frame, hall, List.append_assoc]
    refine takeFrame_partial ?_ hrest ?_
    · have hlen := hbounded.1
      simp; omega
    · simp; omega
  | processing => rw [hphase] at hwants; cases hwants
  | writing rest => rw [hphase] at hwants; cases hwants
  | closed => rw [hphase] at hwants; cases hwants

theorem Phase.Wants.reading {p : Phase} (h : p.Wants) : p.reading = true := by
  cases p <;> simp_all [Phase.Wants, Phase.reading]

theorem Phase.open_of_reading {p : Phase} (h : p.reading = true) :
    p.isClosed = false ∧ p.pending = 0 ∧ p.unsent = [] := by
  cases p <;> simp_all [Phase.reading, Phase.isClosed, Phase.pending, Phase.unsent]

/-- What was taken is what comes first. -/
theorem Sound.taken (h : Sound l s received) :
    ∃ rest, (messages received).1 = s.requests ++ rest := by
  obtain ⟨rest, hrest⟩ := h.received
  exact ⟨(messages rest).1, by rw [← hrest, messages_frames h.short]⟩

/-- Answers that fit their length are read back. -/
theorem Sound.readBack (h : Sound l s received) (hshort : ∀ a ∈ s.answers, a.length < 65536) :
    (messages s.sent).1 <+: s.answers := by
  have hall := messages_flatMap_iff.mpr hshort
  have hprefix := messages_prefix h.sent
  rw [hall] at hprefix
  exact hprefix

/-- **However the bytes arrive, the requests are the complete messages of the stream, in order**;
a task that waits for more has given every one of them to `process_request`. -/
theorem requests_exact (l : Listener) (es : List Event) :
    (after l es).requests <+: l.takes (messages (delivered es)).1 ∧
      ((after l es).Waits →
        (after l es).requests = l.takes (messages (delivered es)).1) := by
  have h := sound_run l es
  generalize after l es = s at h ⊢
  generalize delivered es = received at h ⊢
  obtain ⟨rest, hmessages⟩ := h.taken
  refine ⟨?_, fun hwaits => ?_⟩
  · rw [hmessages, Listener.takes]
    split
    · exact List.prefix_append _ _
    · rename_i hl
      have hone := (h.one (by simpa using hl)).1
      rw [List.take_append, List.take_of_length_le hone]
      exact List.prefix_append _ _
  · have hreading := hwaits.1.reading
    have hconsumed := h.consumed (Phase.open_of_reading hreading).1
    rw [hwaits.2, List.append_nil] at hconsumed
    have hexact : (messages received).1 = s.requests := by
      rw [hconsumed, messages_frames h.short, messages_none (part_incomplete h.bounded hwaits.1)]
      simp
    rw [hexact, Listener.takes]
    split
    · rfl
    · rename_i hl
      rw [List.take_of_length_le (h.one (by simpa using hl)).1]

/-- Two queries over DoT, cut up; the second is not there as a whole. -/
example :
    (after ⟨true, some 5000⟩ [.deliver [0], .read 9, .deliver [1, 7, 0, 2, 8], .read 9, .read 9,
      .processed (some .silent), .read 9, .read 9]).requests = [[7]] := by decide

/-- **The client reads back the answers, in the order of the requests**: no message it reads is
another as long as every answer fits its length, and between two queries it has read exactly the
answers if and only if every one does. -/
theorem answers_read_back (l : Listener) (es : List Event) :
    (after l es).returned.length ≤ (after l es).requests.length ∧
      (after l es).requests.length ≤ (after l es).returned.length + 1 ∧
      ((∀ a ∈ (after l es).answers, a.length < 65536) →
        (messages (after l es).sent).1 <+: (after l es).answers) ∧
      ((after l es).phase.reading = true →
        (after l es).returned.length = (after l es).requests.length ∧
          (messages (after l es).sent = ((after l es).answers, []) ↔
            ∀ a ∈ (after l es).answers, a.length < 65536)) := by
  have h := sound_run l es
  generalize after l es = s at h ⊢
  refine ⟨h.returned.1, h.returned.2, h.readBack, fun hreading => ?_⟩
  obtain ⟨hopen, hsettled, hunsent⟩ := Phase.open_of_reading hreading
  have hpaired := h.paired hopen
  have hwritten := h.written hopen
  rw [hsettled] at hpaired
  rw [hunsent, List.append_nil] at hwritten
  refine ⟨hpaired.symm, ?_⟩
  rw [← hwritten]
  exact messages_flatMap_iff

end TitanDns.Streams
