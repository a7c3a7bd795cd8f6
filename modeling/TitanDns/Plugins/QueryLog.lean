import TitanDns.Lib.Channel
import TitanDns.Lib.Run
import Mathlib.Data.List.Induction
import Mathlib.Data.List.Infix

/-!
# The query log file

The plugin hands its entries to a task that writes them to a file, each on a line of its own.  An
entry for which the channel has no room is dropped.

* `BufWriter` — the file, and what is on the way to it; any write may move some of it on, and one
  that fails may lose some.
* `LogTask`, `step` — entries, steps of the task and ticks in any order.
* `LogInv` — what holds whatever fails.
* `Timely` — what holds while nothing fails: **what is written are the lines of the entries
  received**, and all but the last few are in the file.

Principal results: `log_exact` — the file only ever holds what it held before and then bytes of the
lines accepted, in order; `log_written` — without failures these are the first lines, at most
thirty-one of the entries received are missing, none after a tick, and at the end none of those
accepted is.
-/

namespace TitanDns.QueryLog

open Run

abbrev Bytes := List UInt8

/-- Each entry on a line. -/
def lines (entries : List Bytes) : Bytes := entries.flatMap (· ++ [10])

@[simp] theorem lines_append (entries entries' : List Bytes) :
    lines (entries ++ entries') = lines entries ++ lines entries' := List.flatMap_append

@[simp] theorem lines_singleton (entry : Bytes) : lines [entry] = entry ++ [10] := by
  simp [lines]

theorem lines_mono {entries entries' : List Bytes} (h : entries <+: entries') :
    lines entries <+: lines entries' := by
  obtain ⟨rest, rfl⟩ := h
  rw [lines_append]
  exact List.prefix_append _ _

/-! ## The writer -/

/-- `BufWriter` and `File`: what is in the file, and what is on the way. -/
structure BufWriter where
  file : Bytes
  buffer : Bytes

/-- A write that failed after so many bytes were taken.  The file reports a failure late, and what
it had on the way is lost. -/
structure Failure where
  taken : Nat
  lost : Nat

/-- What becomes of a write or a flush; so many bytes go on to the file in any case. -/
structure Outcome where
  moved : Nat
  failure : Option Failure

namespace BufWriter

/-- What has been written and not lost. -/
def text (w : BufWriter) : Bytes := w.file ++ w.buffer

/-- Some of what is on the way arrives. -/
def move (w : BufWriter) (n : Nat) : BufWriter := ⟨w.file ++ w.buffer.take n, w.buffer.drop n⟩

def lose (w : BufWriter) (n : Nat) : BufWriter := { w with buffer := w.buffer.drop n }

def put (w : BufWriter) (bytes : Bytes) : BufWriter := { w with buffer := w.buffer ++ bytes }

/-- `write_all`, and whether it succeeds. -/
def writeAll (w : BufWriter) (bytes : Bytes) (o : Outcome) : BufWriter × Bool :=
  match o.failure with
  | none => ((w.put bytes).move o.moved, true)
  | some f => (((w.put (bytes.take f.taken)).move o.moved).lose f.lost, false)

/-- The entry and the end of its line. -/
def writeLine (w : BufWriter) (entry : Bytes) (write newline : Outcome) : BufWriter × Bool :=
  match w.writeAll entry write with
  | (w, false) => (w, false)
  | (w, true) => w.writeAll [10] newline

/-- `flush` -/
def flush (w : BufWriter) (o : Outcome) : BufWriter :=
  match o.failure with
  | none => w.move w.buffer.length
  | some f => (w.move o.moved).lose f.lost

@[simp] theorem text_move (w : BufWriter) (n : Nat) : (w.move n).text = w.text := by
  simp [move, text]

theorem file_move (w : BufWriter) (n : Nat) : w.file <+: (w.move n).file := List.prefix_append _ _

theorem file_writeAll (w : BufWriter) (bytes : Bytes) (o : Outcome) :
    w.file <+: (w.writeAll bytes o).1.file := by
  unfold writeAll
  split
  · exact (w.put bytes).file_move o.moved
  · rename_i f _
    exact (w.put (bytes.take f.taken)).file_move o.moved

theorem file_writeLine (w : BufWriter) (entry : Bytes) (write newline : Outcome) :
    w.file <+: (w.writeLine entry write newline).1.file := by
  have hfile := w.file_writeAll entry write
  unfold writeLine
  split
  · rename_i w' hw'
    rwa [hw'] at hfile
  · rename_i w' hw'
    rw [hw'] at hfile
    exact hfile.trans (w'.file_writeAll [10] newline)

theorem file_flush (w : BufWriter) (o : Outcome) : w.file <+: (w.flush o).file := by
  unfold flush
  split
  · exact w.file_move w.buffer.length
  · exact w.file_move o.moved

/-! ### Without a failure -/

theorem writeAll_ok (w : BufWriter) (bytes : Bytes) {o : Outcome} (h : o.failure = none) :
    w.writeAll bytes o = ((w.put bytes).move o.moved, true) := by
  simp [writeAll, h]

theorem writeLine_ok (w : BufWriter) (entry : Bytes) {write newline : Outcome}
    (hwrite : write.failure = none) (hnewline : newline.failure = none) :
    (w.writeLine entry write newline).2 = true ∧
      (w.writeLine entry write newline).1.text = w.text ++ lines [entry] := by
  unfold writeLine
  rw [w.writeAll_ok entry hwrite]
  simp only
  rw [writeAll_ok _ _ hnewline]
  refine ⟨rfl, ?_⟩
  rw [text_move]
  calc (((w.put entry).move write.moved).put [10]).text
      = ((w.put entry).move write.moved).text ++ [10] := by simp [put, text]
    _ = (w.put entry).text ++ [10] := by rw [text_move]
    _ = w.text ++ lines [entry] := by simp [put, text]

theorem flush_ok (w : BufWriter) {o : Outcome} (h : o.failure = none) :
    (w.flush o).file = w.text ∧ (w.flush o).text = w.text := by
  simp [flush, h, move, text]

/-! ### Whatever fails -/

/-- Nothing but bytes of `bytes` has been written to the file, in their order. -/
def Holds (old bytes : Bytes) (w : BufWriter) : Prop :=
  ∃ rest, w.file = old ++ rest ∧ (rest ++ w.buffer).Sublist bytes

namespace Holds

variable {old bytes : Bytes} {w : BufWriter}

theorem move (h : Holds old bytes w) (n : Nat) : Holds old bytes (w.move n) := by
  obtain ⟨rest, hfile, hsub⟩ := h
  refine ⟨rest ++ w.buffer.take n, ?_, ?_⟩
  · simp [BufWriter.move, hfile]
  · simpa [BufWriter.move] using hsub

theorem lose (h : Holds old bytes w) (n : Nat) : Holds old bytes (w.lose n) := by
  obtain ⟨rest, hfile, hsub⟩ := h
  have hdrop : (w.buffer.drop n).Sublist w.buffer := List.drop_sublist _ _
  exact ⟨rest, hfile, (hdrop.append_left rest).trans hsub⟩

theorem put (h : Holds old bytes w) {bytes' more : Bytes} (hmore : bytes'.Sublist more) :
    Holds old (bytes ++ more) (w.put bytes') := by
  obtain ⟨rest, hfile, hsub⟩ := h
  refine ⟨rest, hfile, ?_⟩
  simp only [BufWriter.put]
  rw [← List.append_assoc]
  exact hsub.append hmore

theorem writeAll (h : Holds old bytes w) (more : Bytes) (o : Outcome) :
    Holds old (bytes ++ more) (w.writeAll more o).1 := by
  unfold BufWriter.writeAll
  split
  · exact (h.put (.refl more)).move _
  · exact ((h.put (List.take_sublist _ _)).move _).lose _

theorem writeLine (h : Holds old bytes w) (entry : Bytes) (write newline : Outcome) :
    Holds old (bytes ++ lines [entry]) (w.writeLine entry write newline).1 := by
  have hentry := h.writeAll entry write
  rw [lines_singleton]
  unfold BufWriter.writeLine
  split
  · rename_i w' hw'
    rw [hw'] at hentry
    obtain ⟨rest, hfile, hsub⟩ := hentry
    refine ⟨rest, hfile, hsub.trans ?_⟩
    exact (List.sublist_append_left entry [10]).append_left bytes
  · rename_i w' hw'
    rw [hw'] at hentry
    rw [← List.append_assoc]
    exact hentry.writeAll [10] newline

theorem flush (h : Holds old bytes w) (o : Outcome) : Holds old bytes (w.flush o) := by
  unfold BufWriter.flush
  split
  · exact h.move _
  · exact (h.move _).lose _

end Holds

end BufWriter

/-! ## The task -/

def LOG_QUEUE : Nat := 1024

def FLUSH_EVERY : Nat := 32

structure LogTask where
  channel : Channel Bytes
  writer : BufWriter
  pending : Nat
  dirty : Bool
  /-- History: the entries accepted, and those that the task received. -/
  accepted : List Bytes
  received : List Bytes

/-- What the environment brings; the outcomes are those of the writes and of the flush. -/
inductive LogEvent where
  | entry (entry : Bytes)
  | receive (write newline flush : Outcome)
  | tick (flush : Outcome)
  /-- The plugin is dropped. -/
  | close

namespace LogTask

/-- `QueryLogPlugin::new`: the file is opened for appending, or the task ends at once. -/
def new (old : Bytes) (opened : Bool) : LogTask :=
  ⟨{ Channel.new LOG_QUEUE with receiver := opened }, ⟨old, []⟩, 0, false, [], []⟩

/-- `log_entry` -/
def logEntry (s : LogTask) (entry : Bytes) : LogTask :=
  match s.channel.trySend entry with
  | .sent c => { s with channel := c, accepted := s.accepted ++ [entry] }
  | _ => s

/-- The end of the task. -/
def finish (s : LogTask) (o : Outcome) : LogTask :=
  { s with writer := s.writer.flush o, channel := { s.channel with receiver := false } }

def flushed (s : LogTask) (o : Outcome) : LogTask :=
  { s with writer := s.writer.flush o, pending := 0, dirty := false }

/-- An entry comes out of the channel. -/
def write (s : LogTask) (entry : Bytes) (write newline flush : Outcome) : LogTask :=
  let (w, ok) := s.writer.writeLine entry write newline
  if ok then
    let s := { s with writer := w, pending := s.pending + 1, dirty := true }
    if FLUSH_EVERY ≤ s.pending then s.flushed flush else s
  else { s with writer := w }.finish flush

def receive (s : LogTask) (write newline flush : Outcome) : LogTask :=
  if s.channel.receiver then
    match s.channel.recv with
    | .message entry c =>
      { s with channel := c, received := s.received ++ [entry] }.write entry write newline flush
    | .empty => s
    | .closed => s.finish flush
  else s

def tick (s : LogTask) (flush : Outcome) : LogTask :=
  if s.channel.receiver && s.dirty then s.flushed flush else s

def step (s : LogTask) : LogEvent → LogTask
  | .entry entry => s.logEntry entry
  | .receive write newline flush => s.receive write newline flush
  | .tick flush => s.tick flush
  | .close => { s with channel := { s.channel with senders := false } }

end LogTask

/-- The task after the events `es`, taken in order. -/
def logged (old : Bytes) (opened : Bool) (es : List LogEvent) : LogTask :=
  run LogTask.step (.new old opened) es

/-! ## Whatever fails -/

structure LogInv (old : Bytes) (s : LogTask) : Prop where
  holds : s.writer.Holds old (lines s.received)
  received : s.received <+: s.accepted
  waiting : s.channel.buffer.length ≤ LOG_QUEUE
  capacity : s.channel.capacity = LOG_QUEUE
  /-- While the task runs. -/
  accepted : s.channel.receiver = true → s.accepted = s.received ++ s.channel.buffer

namespace LogInv

variable {old : Bytes} {s : LogTask}

theorem new (old : Bytes) (opened : Bool) : LogInv old (.new old opened) where
  holds := ⟨[], by simp [LogTask.new, lines]⟩
  received := by simp [LogTask.new]
  waiting := by simp [LogTask.new, Channel.new]
  capacity := rfl
  accepted _ := rfl

theorem finish (h : LogInv old s) (o : Outcome) : LogInv old (s.finish o) where
  holds := h.holds.flush o
  received := h.received
  waiting := h.waiting
  capacity := h.capacity
  accepted hrun := by simp [LogTask.finish] at hrun

theorem flushed (h : LogInv old s) (o : Outcome) : LogInv old (s.flushed o) where
  holds := h.holds.flush o
  received := h.received
  waiting := h.waiting
  capacity := h.capacity
  accepted := h.accepted

theorem logEntry (h : LogInv old s) (entry : Bytes) : LogInv old (s.logEntry entry) := by
  unfold LogTask.logEntry
  cases hsend : s.channel.trySend entry with
  | sent c =>
    have hc := Channel.trySend_sent hsend
    have hroom := (Channel.trySend_room hsend).1
    subst hc
    rw [h.capacity] at hroom
    refine ⟨h.holds, h.received.trans (List.prefix_append _ _), ?_, h.capacity, fun hrun => ?_⟩
    · simp only [List.length_append, List.length_singleton]
      omega
    · simp [h.accepted hrun]
  | _ => exact h

/-- **An entry comes out of the channel.** -/
theorem message (h : LogInv old s) (hrun : s.channel.receiver = true) {entry : Bytes}
    {c : Channel Bytes} (hrecv : s.channel.recv = .message entry c)
    (write newline flush : Outcome) :
    LogInv old (({ s with channel := c, received := s.received ++ [entry] } : LogTask).write entry
      write newline flush) := by
  obtain ⟨hfront, hc⟩ := Channel.recv_message hrecv
  have hwaiting := h.waiting
  rw [hfront, List.length_cons] at hwaiting
  have hrest : s.accepted = s.received ++ [entry] ++ c.buffer := by simp [h.accepted hrun, hfront]
  have hline := h.holds.writeLine entry write newline
  rw [← lines_append] at hline
  -- the entry has been taken out, and something of its line is written
  have hnext (pending : Nat) (dirty : Bool) : LogInv old ({ s with
      channel := c
      received := s.received ++ [entry]
      writer := (s.writer.writeLine entry write newline).1
      pending := pending
      dirty := dirty } : LogTask) := by
    refine ⟨hline, ?_, by simp only; omega, ?_, fun _ => hrest⟩
    · rw [hrest]
      exact List.prefix_append _ _
    · rw [hc]
      exact h.capacity
  unfold LogTask.write
  simp only
  split
  · split
    · exact (hnext (s.pending + 1) true).flushed flush
    · exact hnext (s.pending + 1) true
  · exact (hnext s.pending s.dirty).finish flush

theorem receive (h : LogInv old s) (write newline flush : Outcome) :
    LogInv old (s.receive write newline flush) := by
  unfold LogTask.receive
  split
  · rename_i hrun
    cases hrecv : s.channel.recv with
    | message entry c => exact h.message hrun hrecv write newline flush
    | empty => exact h
    | closed => exact h.finish flush
  · exact h

theorem step (h : LogInv old s) (e : LogEvent) : LogInv old (s.step e) := by
  cases e with
  | entry entry => exact h.logEntry entry
  | receive write newline flush => exact h.receive write newline flush
  | tick flush =>
    simp only [LogTask.step, LogTask.tick]
    split
    · exact h.flushed flush
    · exact h
  | close => exact ⟨h.holds, h.received, h.waiting, h.capacity, h.accepted⟩

end LogInv

theorem log_inv (old : Bytes) (opened : Bool) (es : List LogEvent) :
    LogInv old (logged old opened es) := by
  have hstep : ∀ (s : LogTask) (e : LogEvent), LogInv old s → LogInv old (s.step e) :=
    fun s e h => h.step e
  have hrun := invariant_run hstep (LogInv.new old opened) es
  exact hrun

/-- The entries of a run. -/
def entriesOf (es : List LogEvent) : List Bytes :=
  es.filterMap fun
    | .entry entry => some entry
    | _ => none

/-- Accepting is all that a run does to the accepted entries. -/
theorem accepted_step (s : LogTask) (e : LogEvent) :
    (s.step e).accepted = s.accepted ∨
      ∃ entry, e = .entry entry ∧ (s.step e).accepted = s.accepted ++ [entry] := by
  cases e with
  | entry entry =>
    simp only [LogTask.step, LogTask.logEntry]
    split
    · exact .inr ⟨entry, rfl, rfl⟩
    · exact .inl rfl
  | receive write newline flush =>
    refine .inl ?_
    simp only [LogTask.step, LogTask.receive]
    split
    · split
      · unfold LogTask.write
        simp only
        split
        · split <;> rfl
        · rfl
      · rfl
      · rfl
    · rfl
  | tick flush =>
    refine .inl ?_
    simp only [LogTask.step, LogTask.tick]
    split <;> rfl
  | close => exact .inl rfl

theorem logged_append (old : Bytes) (opened : Bool) (es : List LogEvent) (e : LogEvent) :
    logged old opened (es ++ [e]) = (logged old opened es).step e := run_append _ _ _

theorem accepted_sublist (old : Bytes) (opened : Bool) (es : List LogEvent) :
    (logged old opened es).accepted.Sublist (entriesOf es) := by
  induction es using List.reverseRecOn with
  | nil => exact .refl _
  | append_singleton es e ih =>
    rw [logged_append, entriesOf, List.filterMap_append]
    rcases accepted_step (logged old opened es) e with hsame | ⟨entry, rfl, hmore⟩
    · rw [hsame]
      exact ih.trans (List.sublist_append_left _ _)
    · rw [hmore]
      exact ih.append_right _

/-- **Whatever fails, the file holds what it held before and then bytes of the lines of the entries
accepted**, in order and none twice; what the channel has not got room for is dropped, and all that
was accepted is received in the same order. -/
theorem log_exact (old : Bytes) (opened : Bool) (es : List LogEvent) :
    (∃ rest, (logged old opened es).writer.file = old ++ rest ∧
        rest.Sublist (lines (logged old opened es).accepted)) ∧
      (logged old opened es).accepted.Sublist (entriesOf es) ∧
      (logged old opened es).received <+: (logged old opened es).accepted ∧
      (logged old opened es).channel.buffer.length ≤ LOG_QUEUE ∧
      ((logged old opened es).channel.receiver = true →
        (logged old opened es).accepted =
          (logged old opened es).received ++ (logged old opened es).channel.buffer) := by
  have h := log_inv old opened es
  refine ⟨?_, accepted_sublist old opened es, h.received, h.waiting, h.accepted⟩
  obtain ⟨rest, hfile, hsub⟩ := h.holds
  refine ⟨rest, hfile, ?_⟩
  have hrest : rest.Sublist (rest ++ (logged old opened es).writer.buffer) :=
    List.sublist_append_left _ _
  exact hrest.trans (hsub.trans (lines_mono h.received).sublist)

/-! ## While nothing fails -/

def LogEvent.Succeeds : LogEvent → Prop
  | .receive write newline flush =>
    write.failure = none ∧ newline.failure = none ∧ flush.failure = none
  | .tick flush => flush.failure = none
  | _ => True

/-- All lines but those of the pending entries are in the file. -/
structure Timely (old : Bytes) (s : LogTask) : Prop where
  text : s.writer.text = old ++ lines s.received
  pending : s.pending < FLUSH_EVERY
  clean : s.dirty = false → s.pending = 0
  written : old ++ lines (s.received.take (s.received.length - s.pending)) <+: s.writer.file
  /-- At the end. -/
  ended : s.channel.receiver = false →
    s.writer.file = old ++ lines s.received ∧ s.accepted = s.received

namespace Timely

variable {old : Bytes} {s : LogTask}

theorem new (old : Bytes) : Timely old (.new old true) where
  text := by simp [LogTask.new, BufWriter.text, lines]
  pending := by simp [LogTask.new, FLUSH_EVERY]
  clean _ := rfl
  written := by simp [LogTask.new, lines]
  ended hrun := by simp [LogTask.new] at hrun

/-- A flush that succeeds. -/
theorem flushed (htext : s.writer.text = old ++ lines s.received)
    (hrun : s.channel.receiver = true) {o : Outcome} (ho : o.failure = none) :
    Timely old (s.flushed o) ∧ (s.flushed o).writer.file = old ++ lines s.received := by
  obtain ⟨hfile, hkept⟩ := s.writer.flush_ok ho
  rw [htext] at hfile hkept
  refine ⟨⟨hkept, by simp [LogTask.flushed, FLUSH_EVERY], fun _ => rfl, ?_, fun hended => ?_⟩,
    hfile⟩
  · have hall : s.received.take (s.received.length - 0) = s.received := by simp
    simp only [LogTask.flushed, hfile, hall]
    exact List.prefix_refl _
  · simp [LogTask.flushed, hrun] at hended

theorem logEntry (h : Timely old s) (entry : Bytes) : Timely old (s.logEntry entry) := by
  unfold LogTask.logEntry
  cases hsend : s.channel.trySend entry with
  | sent c =>
    have hc := Channel.trySend_sent hsend
    have hrun := (Channel.trySend_room hsend).2
    subst hc
    exact ⟨h.text, h.pending, h.clean, h.written, fun hended => by simp [hrun] at hended⟩
  | _ => exact h

theorem message (h : Timely old s) (hrun : s.channel.receiver = true) {entry : Bytes}
    {c : Channel Bytes} (hrecv : s.channel.recv = .message entry c)
    {write newline flush : Outcome} (hwrite : write.failure = none)
    (hnewline : newline.failure = none) (hflush : flush.failure = none) :
    Timely old (({ s with channel := c, received := s.received ++ [entry] } : LogTask).write entry
      write newline flush) := by
  have hc : c.receiver = true := by
    rw [(Channel.recv_message hrecv).2]
    exact hrun
  obtain ⟨hok, hline⟩ := s.writer.writeLine_ok entry hwrite hnewline
  have hfile := s.writer.file_writeLine entry write newline
  rw [h.text, List.append_assoc, ← lines_append] at hline
  unfold LogTask.write
  simp only [hok, if_true]
  split
  · exact (flushed hline hc hflush).1
  · rename_i hfew
    refine ⟨hline, by simp only at hfew ⊢; omega, by simp, ?_, fun hended => by simp [hc] at hended⟩
    have hlength : (s.received ++ [entry]).length - (s.pending + 1) =
        s.received.length - s.pending := by
      simp only [List.length_append, List.length_singleton]
      omega
    simp only [hlength]
    rw [List.take_append_of_le_length (Nat.sub_le _ _)]
    exact h.written.trans hfile

theorem receive (h : Timely old s) (hinv : LogInv old s) {write newline flush : Outcome}
    (hwrite : write.failure = none) (hnewline : newline.failure = none)
    (hflush : flush.failure = none) : Timely old (s.receive write newline flush) := by
  unfold LogTask.receive
  split
  · rename_i hrun
    cases hrecv : s.channel.recv with
    | message entry c => exact h.message hrun hrecv hwrite hnewline hflush
    | empty => exact h
    | closed =>
      have hempty : s.channel.buffer = [] := by
        unfold Channel.recv at hrecv
        split at hrecv
        · cases hrecv
        · assumption
      obtain ⟨hfile, hkept⟩ := s.writer.flush_ok hflush
      rw [h.text] at hfile hkept
      refine ⟨hkept, h.pending, h.clean, h.written.trans (s.writer.file_flush flush), fun _ =>
        ⟨hfile, ?_⟩⟩
      simpa [LogTask.finish, hempty] using hinv.accepted hrun
  · exact h

theorem tick (h : Timely old s) {flush : Outcome} (hflush : flush.failure = none) :
    Timely old (s.tick flush) := by
  unfold LogTask.tick
  split
  · rename_i hboth
    have hrun : s.channel.receiver = true := by simp_all
    exact (flushed h.text hrun hflush).1
  · exact h

/-- **After a tick all lines are in the file.** -/
theorem file_tick (h : Timely old s) {flush : Outcome} (hflush : flush.failure = none) :
    (s.tick flush).writer.file = old ++ lines s.received := by
  unfold LogTask.tick
  split
  · rename_i hboth
    have hrun : s.channel.receiver = true := by simp_all
    exact (flushed h.text hrun hflush).2
  · rename_i hneither
    cases hrun : s.channel.receiver with
    | false => exact (h.ended hrun).1
    | true =>
      have hpending := h.clean (by simpa [hrun] using hneither)
      have hwritten := h.written
      rw [hpending, Nat.sub_zero, List.take_length] at hwritten
      have hwhole : s.writer.file <+: s.writer.text := List.prefix_append _ _
      rw [h.text] at hwhole
      exact hwhole.eq_of_length_le hwritten.length_le

theorem step (h : Timely old s) (hinv : LogInv old s) {e : LogEvent} (he : e.Succeeds) :
    Timely old (s.step e) := by
  cases e with
  | entry entry => exact h.logEntry entry
  | receive write newline flush => exact h.receive hinv he.1 he.2.1 he.2.2
  | tick flush => exact h.tick he
  | close => exact ⟨h.text, h.pending, h.clean, h.written, h.ended⟩

end Timely

theorem timely (old : Bytes) {es : List LogEvent} (hok : ∀ e ∈ es, e.Succeeds) :
    Timely old (logged old true es) := by
  induction es using List.reverseRecOn with
  | nil => exact Timely.new old
  | append_singleton es e ih =>
    rw [logged_append]
    exact (ih fun e he => hok e (by simp [he])).step (log_inv old true es) (hok e (by simp))

/-- **While nothing fails** the file holds whole lines but for one at its end, all but the last
thirty-one of the entries received are in it, all of them after a tick, and at the end all that were
accepted are, and nothing else. -/
theorem log_written (old : Bytes) (es : List LogEvent) (hok : ∀ e ∈ es, e.Succeeds) :
    ((logged old true es).writer.file <+: old ++ lines (logged old true es).received) ∧
      (old ++ lines
          ((logged old true es).received.take ((logged old true es).received.length - 31)) <+:
        (logged old true es).writer.file) ∧
      (∀ flush : Outcome, flush.failure = none →
        (logged old true (es ++ [.tick flush])).writer.file =
          old ++ lines (logged old true es).received) ∧
      ((logged old true es).channel.receiver = false →
        (logged old true es).writer.file = old ++ lines (logged old true es).accepted) := by
  have h := timely old hok
  refine ⟨?_, ?_, fun flush hflush => ?_, fun hended => ?_⟩
  · rw [← h.text]
    exact List.prefix_append _ _
  · have hpending := h.pending
    have hfew : (logged old true es).pending ≤ 31 := Nat.le_of_lt_succ hpending
    refine List.IsPrefix.trans ?_ h.written
    refine (List.prefix_append_right_inj old).mpr (lines_mono ?_)
    exact List.take_prefix_take_left (by omega)
  · rw [logged_append]
    exact h.file_tick hflush
  · obtain ⟨hfile, haccepted⟩ := h.ended hended
    rw [hfile, haccepted]

/-- Two entries, one of them received. -/
theorem log_written_two :
    (logged [] true ([.entry [113], .entry [114], .receive ⟨0, none⟩ ⟨0, none⟩ ⟨0, none⟩] ++
      [.tick ⟨0, none⟩])).writer.file = [113, 10] :=
  (log_written [] _ (by simp [LogEvent.Succeeds])).2.2.1 ⟨0, none⟩ rfl

end TitanDns.QueryLog
