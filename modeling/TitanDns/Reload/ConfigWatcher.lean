import TitanDns.Lib.Channel
import TitanDns.Lib.Run

/-!
# From a file event to a reload

The four stages of `ConfigWatcher::watch` and `main` with the channels between them, each of
capacity one: the notify callback, the thread that picks the events of the config file, the reload
handler, the main loop.

* `FsEvent.matched` — the filter of the matching thread: the event concerns the config file.
* `Watch.step` — one step of one stage; the environment chooses the order.
* `Reloads` — after every event that concerns the config file a reload attempt is started.
* `Unstarted` — **until the handler panics no reload attempt is started**: the channel to the main
  loop is only ever written by the call that panics.

Principal result: `watch_iff` — **the pipeline meets its contract only in runs without any event of
the config file.**  One that gets through makes the handler panic, since `blocking_send` is called
inside a task; one that finds the first channel full is dropped.
-/

namespace TitanDns

open Run

/-- A path, split at its last component. -/
structure FsPath where
  parent : List String
  fileName : Option String
  deriving DecidableEq, Repr

/-- `notify::EventKind`. -/
inductive EventKind where
  | any
  | access
  | create
  | modify
  | remove
  | other
  deriving DecidableEq, Repr

structure FsEvent where
  kind : EventKind
  paths : List FsPath
  deriving DecidableEq, Repr

/-- The same file name. -/
def FsPath.sameFile (config path : FsPath) : Bool :=
  match config.fileName, path.fileName with
  | some cfg, some name => cfg == name
  | _, _ => false

/-- The filter of the matching thread. -/
def FsEvent.matched (config : FsPath) (e : FsEvent) : Bool :=
  (e.kind == .modify || e.kind == .create || e.kind == .remove) &&
    e.paths.any fun path => path == config || config.sameFile path

/-- The loop of `watch` that calls `on_reload`. -/
inductive Handler where
  | waiting
  /-- The delay before the call. -/
  | sleeping
  | panicked
  deriving DecidableEq, Repr

structure Watch where
  /-- `event_tx` to `event_rx` -/
  events : Channel FsEvent
  /-- The matching thread waits to send. -/
  matching : Bool
  /-- `tx` to `rx` -/
  ticks : Channel Unit
  handler : Handler
  /-- `reload_tx` to `reload_rx` -/
  reloads : Channel Unit
  /-- The main loop handles a reload. -/
  busy : Bool
  /-- Reload attempts started. -/
  attempts : Nat

namespace Watch

def start : Watch := ⟨.new 1, false, .new 1, .waiting, .new 1, false, 0⟩

inductive Event where
  /-- The notify callback. -/
  | notify (e : FsEvent)
  | matchRecv
  | matchSend
  | handlerRecv
  /-- The delay is over and `on_reload` is called. -/
  | handlerWake
  | mainRecv
  | mainDone
  deriving DecidableEq, Repr

/-- `event_tx.try_send`; what does not fit is dropped. -/
def notify (w : Watch) (e : FsEvent) : Watch :=
  match w.events.trySend e with
  | .sent events => { w with events := events }
  | _ => w

/-- The matching thread takes an event. -/
def matchRecv (config : FsPath) (w : Watch) : Watch :=
  if w.matching then w
  else
    match w.events.recv with
    | .message e events => { w with events := events, matching := e.matched config }
    | _ => w

/-- `tx.send(()).await`: it waits for room, and gives up when the receiver is gone. -/
def matchSend (w : Watch) : Watch :=
  if w.matching then
    match w.ticks.trySend () with
    | .sent ticks => { w with ticks := ticks, matching := false }
    | .closed => { w with matching := false }
    | _ => w
  else w

/-- `rx.recv().await` -/
def handlerRecv (w : Watch) : Watch :=
  match w.handler with
  | .waiting =>
    match w.ticks.recv with
    | .message _ ticks => { w with ticks := ticks, handler := .sleeping }
    | _ => w
  | _ => w

/-- `on_reload()`, called by a task; a panic drops what the task owns: `rx` and `reload_tx`. -/
def handlerWake (w : Watch) : Watch :=
  match w.handler with
  | .sleeping =>
    match w.reloads.blockingSend () true with
    | .sent reloads => { w with reloads := reloads, handler := .waiting }
    | .full => w
    | .closed => { w with handler := .waiting }
    | .panicked =>
      { w with
        handler := .panicked
        ticks := { w.ticks with receiver := false }
        reloads := { w.reloads with senders := false } }
  | _ => w

/-- `reload_rx.recv()`; the branch is taken at the end of the channel too. -/
def mainRecv (w : Watch) : Watch :=
  if w.busy then w
  else
    match w.reloads.recv with
    | .message _ reloads =>
      { w with reloads := reloads, busy := true, attempts := w.attempts + 1 }
    | .closed => { w with busy := true, attempts := w.attempts + 1 }
    | .empty => w

def step (config : FsPath) (w : Watch) : Event → Watch
  | .notify e => w.notify e
  | .matchRecv => w.matchRecv config
  | .matchSend => w.matchSend
  | .handlerRecv => w.handlerRecv
  | .handlerWake => w.handlerWake
  | .mainRecv => w.mainRecv
  | .mainDone => { w with busy := false }

/-- Every channel is empty and no stage has anything at hand. -/
structure Drained (w : Watch) : Prop where
  events : w.events.buffer = []
  matching : w.matching = false
  ticks : w.ticks.buffer = []
  handler : w.handler ≠ .sleeping
  reloads : w.reloads.buffer = []
  main : w.busy = false

/-- After each event that concerns the config file a reload attempt was started. -/
def Reloads (config : FsPath) (w : Watch) (es : List Event) : Prop :=
  ∀ before e after, es = before ++ .notify e :: after → e.matched config = true →
    (run (step config) w (before ++ [.notify e])).attempts < (run (step config) w es).attempts

/-! ## Without a panic -/

/-- The handler has not panicked, and nothing has reached the main loop. -/
structure Unstarted (w : Watch) : Prop where
  reloads : w.reloads.Silent
  attempts : w.attempts = 0

/-- The handler has panicked or the main loop has heard nothing. -/
def Inert (w : Watch) : Prop := w.handler = .panicked ∨ w.Unstarted

theorem Inert.congr {v w : Watch} (h : v.Inert) (hhandler : w.handler = v.handler)
    (hreloads : w.reloads = v.reloads) (hattempts : w.attempts = v.attempts) : w.Inert := by
  rcases h with h | h
  · exact Or.inl (hhandler.trans h)
  · exact Or.inr ⟨hreloads ▸ h.reloads, hattempts.trans h.attempts⟩

theorem notify_parts (w : Watch) (e : FsEvent) :
    ∃ events, w.notify e = { w with events := events } := by
  unfold notify
  split
  · exact ⟨_, rfl⟩
  · exact ⟨_, rfl⟩

theorem matchRecv_parts (config : FsPath) (w : Watch) :
    ∃ events matching, w.matchRecv config = { w with events := events, matching := matching } := by
  unfold matchRecv
  split
  · exact ⟨_, _, rfl⟩
  split
  · exact ⟨_, _, rfl⟩
  · exact ⟨_, _, rfl⟩

theorem matchSend_parts (w : Watch) :
    ∃ ticks matching, w.matchSend = { w with ticks := ticks, matching := matching } := by
  unfold matchSend
  split
  · split
    · exact ⟨_, _, rfl⟩
    · exact ⟨_, _, rfl⟩
    · exact ⟨_, _, rfl⟩
  · exact ⟨_, _, rfl⟩

/-- The handler that wakes panics. -/
theorem handlerWake_eq (w : Watch) :
    w.handlerWake = w ∨ w.handlerWake.handler = .panicked := by
  unfold handlerWake
  split
  · exact Or.inr rfl
  · exact Or.inl rfl

theorem inert_step (config : FsPath) (w : Watch) (e : Event) (h : w.Inert) :
    (step config w e).Inert := by
  cases e with
  | notify e =>
    obtain ⟨events, heq⟩ := notify_parts w e
    exact h.congr (by rw [step, heq]) (by rw [step, heq]) (by rw [step, heq])
  | matchRecv =>
    obtain ⟨events, matching, heq⟩ := matchRecv_parts config w
    exact h.congr (by rw [step, heq]) (by rw [step, heq]) (by rw [step, heq])
  | matchSend =>
    obtain ⟨ticks, matching, heq⟩ := matchSend_parts w
    exact h.congr (by rw [step, heq]) (by rw [step, heq]) (by rw [step, heq])
  | handlerRecv =>
    rw [step, handlerRecv]
    split
    · rename_i hwaiting
      split
      · rcases h with h | h
        · rw [hwaiting] at h
          cases h
        · exact Or.inr ⟨h.reloads, h.attempts⟩
      · exact h
    · exact h
  | handlerWake =>
    rw [step]
    rcases handlerWake_eq w with heq | hpanicked
    · rw [heq]
      exact h
    · exact Or.inl hpanicked
  | mainRecv =>
    rw [step, mainRecv]
    split
    · exact h
    rcases h with h | h
    · split
      · exact Or.inl h
      · exact Or.inl h
      · exact Or.inl h
    · rw [h.reloads.recv]
      exact Or.inr h
  | mainDone => exact h.congr rfl rfl rfl

/-- **Until the handler panics no reload attempt is started.** -/
theorem inert_run (config : FsPath) (es : List Event) : (run (step config) start es).Inert := by
  have hstart : start.Inert := Or.inr ⟨Channel.silent_new 1, rfl⟩
  exact invariant_run (inert_step config) hstart es

/-! ## Without an event of the config file -/

/-- The event does not concern the config file. -/
def Unrelated (config : FsPath) : Event → Prop
  | .notify e => e.matched config = false
  | _ => True

/-- Nothing that concerns the config file has come in. -/
structure Untouched (config : FsPath) (w : Watch) : Prop where
  events : ∀ e ∈ w.events.buffer, e.matched config = false
  matching : w.matching = false
  ticks : w.ticks.buffer = []
  handler : w.handler = .waiting

theorem untouched_step (config : FsPath) (w : Watch) (e : Event) (h : w.Untouched config)
    (hunrelated : Unrelated config e) : (step config w e).Untouched config := by
  cases e with
  | notify e =>
    rw [step, notify]
    split
    · rename_i events hsent
      rw [Channel.trySend_sent hsent]
      refine { h with events := fun e' he' => ?_ }
      rcases List.mem_append.mp he' with hold | hnew
      · exact h.events e' hold
      · rw [List.mem_singleton.mp hnew]
        exact hunrelated
    · exact h
  | matchRecv =>
    rw [step, matchRecv]
    split
    · exact h
    split
    · rename_i e events hmessage
      have hbuffer := (Channel.recv_message hmessage).1
      refine { h with events := fun e' he' => ?_, matching := ?_ }
      · exact h.events e' (hbuffer ▸ List.mem_cons_of_mem _ he')
      · exact h.events e (hbuffer ▸ List.mem_cons_self)
    · exact h
  | matchSend =>
    rw [step, matchSend, h.matching]
    exact h
  | handlerRecv =>
    have hempty : ∀ x ticks, w.ticks.recv ≠ .message x ticks := by
      intro x ticks hmessage
      have hbuffer := (Channel.recv_message hmessage).1
      rw [h.ticks] at hbuffer
      cases hbuffer
    rw [step, handlerRecv]
    split
    · split
      · rename_i hmessage
        exact absurd hmessage (hempty _ _)
      · exact h
    · exact h
  | handlerWake =>
    rw [step, handlerWake, h.handler]
    exact h
  | mainRecv =>
    rw [step, mainRecv]
    split
    · exact h
    split
    · exact { h with }
    · exact { h with }
    · exact h
  | mainDone => exact { h with }

theorem untouched_run {config : FsPath} {es : List Event} (h : ∀ e ∈ es, Unrelated config e) :
    (run (step config) start es).Untouched config := by
  have hstart : start.Untouched config :=
    ⟨fun _ he => absurd he List.not_mem_nil, rfl, rfl, rfl⟩
  have hmeets : Meets (step config) (fun _ e => Unrelated config e) start es := by
    apply meets_of_cuts
    intro before e rest hcut
    exact h e (hcut ▸ List.mem_append_right _ List.mem_cons_self)
  exact invariant (fun w e hw he => untouched_step config w e hw he) hstart hmeets

/-! ## The contract -/

/-- No stage panics, and once drained no change is lost. -/
def Contract (config : FsPath) (w : Watch) (es : List Event) : Prop :=
  (run (step config) w es).handler ≠ .panicked ∧
    ((run (step config) w es).Drained → Reloads config w es)

/-- No event of the run concerns the config file. -/
def NoChange (config : FsPath) (es : List Event) : Prop :=
  ∀ e, .notify e ∈ es → e.matched config = false

/-- Without a change the handler is never woken. -/
theorem contract_of_noChange {config : FsPath} {es : List Event} (h : NoChange config es) :
    Contract config start es := by
  have hunrelated : ∀ e ∈ es, Unrelated config e := by
    intro e he
    cases e with
    | notify e => exact h e he
    | matchRecv | matchSend | handlerRecv | handlerWake | mainRecv | mainDone => trivial
  have huntouched := untouched_run hunrelated
  refine ⟨fun hpanicked => ?_, fun _ before e after hcut hmatched => ?_⟩
  · rw [huntouched.handler] at hpanicked
    cases hpanicked
  · have hfalse := h e (hcut ▸ List.mem_append_right _ List.mem_cons_self)
    rw [hmatched] at hfalse
    cases hfalse

/-- A change is lost, or the handler panics. -/
theorem noChange_of_contract {config : FsPath} {es : List Event}
    (hdrained : (run (step config) start es).Drained) (h : Contract config start es) :
    NoChange config es := by
  obtain ⟨halive, hreloads⟩ := h
  intro e he
  cases hmatched : e.matched config with
  | false => rfl
  | true =>
    obtain ⟨before, after, hcut⟩ := List.append_of_mem he
    have hattempt := hreloads hdrained before e after hcut hmatched
    rcases inert_run config es with hpanicked | hunstarted
    · exact absurd hpanicked halive
    · rw [hunstarted.attempts] at hattempt
      exact absurd hattempt (Nat.not_lt_zero _)

/-- **When the pipeline meets its contract**: in the runs without an event of the config file, and,
once drained, in no others. -/
theorem watch_iff (config : FsPath) (es : List Event) :
    (NoChange config es → Contract config start es) ∧
      ((run (step config) start es).Drained →
        (Contract config start es ↔ NoChange config es)) :=
  ⟨contract_of_noChange, fun hdrained => ⟨noChange_of_contract hdrained, contract_of_noChange⟩⟩

def exampleConfig : FsPath := ⟨["etc", "titandns"], some "config.yaml"⟩

def configModified : FsEvent := ⟨.modify, [exampleConfig]⟩

/-- Another file of the directory. -/
def otherModified : FsEvent := ⟨.modify, [⟨["etc", "titandns"], some "cache.bin"⟩]⟩

/-- A change that gets through. -/
def panicRun : List Event :=
  [.notify configModified, .matchRecv, .matchSend, .handlerRecv, .handlerWake]

/-- A change that finds the first channel full. -/
def dropRun : List Event := [.notify otherModified, .notify configModified, .matchRecv]

instance (w : Watch) : Decidable w.Drained :=
  decidable_of_iff (w.events.buffer = [] ∧ w.matching = false ∧ w.ticks.buffer = [] ∧
      w.handler ≠ .sleeping ∧ w.reloads.buffer = [] ∧ w.busy = false)
    ⟨fun ⟨h₁, h₂, h₃, h₄, h₅, h₆⟩ => ⟨h₁, h₂, h₃, h₄, h₅, h₆⟩,
      fun ⟨h₁, h₂, h₃, h₄, h₅, h₆⟩ => ⟨h₁, h₂, h₃, h₄, h₅, h₆⟩⟩

/-- A single change of the config file panics the handler; a change right after that of another
file is lost. -/
theorem watch_panics_and_drops :
    ((run (step exampleConfig) start panicRun).Drained ∧
      (run (step exampleConfig) start panicRun).handler = .panicked ∧
      ¬ Contract exampleConfig start panicRun) ∧
    ((run (step exampleConfig) start dropRun).Drained ∧
      (run (step exampleConfig) start dropRun).handler = .waiting ∧
      ¬ Contract exampleConfig start dropRun) := by
  refine ⟨⟨by decide, by decide, fun h => ?_⟩, ⟨by decide, by decide, fun h => ?_⟩⟩
  · exact h.1 (by decide)
  · have hattempt := h.2 (by decide) [.notify otherModified] configModified [.matchRecv] rfl
      (by decide)
    exact absurd hattempt (by decide)

/-- Changes of another file. -/
theorem watch_iff_other :
    Contract exampleConfig start [.notify otherModified, .matchRecv] := by
  have hother : NoChange exampleConfig [.notify otherModified, .matchRecv] := by
    intro e he
    obtain rfl : e = otherModified := by simpa using he
    decide
  exact ((watch_iff exampleConfig [.notify otherModified, .matchRecv]).2 (by decide)).mpr hother

end Watch

end TitanDns
