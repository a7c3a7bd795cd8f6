import TitanDns.Lib.Broadcast
import TitanDns.Lib.Run
import Mathlib.Logic.Function.Basic

/-!
# The listeners after reloads

The main loop and the UDP workers of `main.rs`.  A loaded configuration is broadcast to the workers
and built by the main loop; every worker builds it for itself.  What a build gives may depend on the
iteration order of the maps in the configuration.

* `Worker`, `Listeners.step` — one step of the main loop or of one worker.
* `Current` — entry points built from the last successfully loaded configuration.
* `Quiet` — nothing is pending.
* `workerFollows_step` — **a worker keeps what `Broadcast.Follows` says**, through lag and rebuilds.

Principal result: `listeners_converge` — **when nothing is pending, the main manager and every
running worker are current**, after any number of reloads in any order of steps.
-/

namespace TitanDns

open Run

/-- What a UDP worker does. -/
inductive WorkerPhase (Config : Type) where
  /-- Its thread has not built the first entry points yet. -/
  | starting
  | listening
  | building (config : Config)
  /-- Its server task is done, or its entry did not resolve. -/
  | stopped
  deriving DecidableEq

structure Worker (Config EntryPoints : Type) where
  phase : WorkerPhase Config
  /-- The position of `rx`. -/
  next : Nat
  /-- The entry points of its `HotReloadManager`, once there is one. -/
  manager : Option EntryPoints

/-- The main loop, its `HotReloadManager` and the workers. -/
structure Listeners (Config EntryPoints W : Type) where
  updates : Broadcast Config
  /-- The last configuration that loaded. -/
  loaded : Config
  /-- The main loop builds `loaded`. -/
  rebuilding : Bool
  manager : EntryPoints
  workers : W → Worker Config EntryPoints

namespace Listeners

variable {Config Order EntryPoints W : Type} [DecidableEq W]
  (build : Config → Order → EntryPoints) (resolves : W → EntryPoints → Bool) (initial : Config)

inductive Event (Config Order W : Type) where
  /-- The main loop loads a new configuration and broadcasts it. -/
  | load (config : Config)
  /-- The main loop's build is done and its manager updated. -/
  | rebuilt (order : Order)
  /-- A worker's thread builds the first entry points. -/
  | started (i : W) (order : Order)
  /-- A worker's loop takes what `rx.recv()` gives. -/
  | recv (i : W)
  /-- A worker's build is done and its manager updated. -/
  | workerRebuilt (i : W) (order : Order)
  /-- A worker's server task ends. -/
  | finished (i : W)

/-- The thread of a worker up to its loop. -/
def Worker.started (i : W) (order : Order) (w : Worker Config EntryPoints) :
    Worker Config EntryPoints :=
  match w.phase with
  | .starting =>
    let entryPoints := build initial order
    { w with
      manager := some entryPoints
      phase := if resolves i entryPoints then .listening else .stopped }
  | _ => w

/-- The loop of a worker: `Lagged` is ignored. -/
def Worker.recv (updates : Broadcast Config) (w : Worker Config EntryPoints) :
    Worker Config EntryPoints :=
  match w.phase with
  | .listening =>
    match updates.recv w.next with
    | .message config next => { w with next := next, phase := .building config }
    | .lagged next => { w with next := next }
    | .empty => w
  | _ => w

def Worker.rebuilt (order : Order) (w : Worker Config EntryPoints) : Worker Config EntryPoints :=
  match w.phase with
  | .building config => { w with manager := some (build config order), phase := .listening }
  | _ => w

def Worker.finished (w : Worker Config EntryPoints) : Worker Config EntryPoints :=
  match w.phase with
  | .listening => { w with phase := .stopped }
  | _ => w

/-- A step of one worker. -/
def onWorker (s : Listeners Config EntryPoints W) (i : W)
    (f : Worker Config EntryPoints → Worker Config EntryPoints) :
    Listeners Config EntryPoints W :=
  { s with workers := Function.update s.workers i (f (s.workers i)) }

def step (s : Listeners Config EntryPoints W) :
    Event Config Order W → Listeners Config EntryPoints W
  | .load config =>
    if s.rebuilding then s
    else { s with updates := s.updates.send config, loaded := config, rebuilding := true }
  | .rebuilt order =>
    if s.rebuilding then { s with manager := build s.loaded order, rebuilding := false } else s
  | .started i order => s.onWorker i (Worker.started build resolves initial i order)
  | .recv i => s.onWorker i (Worker.recv s.updates)
  | .workerRebuilt i order => s.onWorker i (Worker.rebuilt build order)
  | .finished i => s.onWorker i Worker.finished

/-- The program started on `initial`: the workers have subscribed and their threads are spawned. -/
def start (order : Order) : Listeners Config EntryPoints W :=
  ⟨.new 16, initial, false, build initial order, fun _ => ⟨.starting, 0, none⟩⟩

/-- Built from the last configuration that loaded. -/
def Current (s : Listeners Config EntryPoints W) (entryPoints : EntryPoints) : Prop :=
  ∃ order, entryPoints = build s.loaded order

/-- The worker has nothing left to do or to receive. -/
def WorkerQuiet (s : Listeners Config EntryPoints W) (w : Worker Config EntryPoints) : Prop :=
  w.phase = .stopped ∨ (w.phase = .listening ∧ w.next = s.updates.sent.length)

/-- Nothing is pending. -/
structure Quiet (s : Listeners Config EntryPoints W) : Prop where
  main : s.rebuilding = false
  workers : ∀ i, s.WorkerQuiet (s.workers i)

/-! ## The invariant -/

/-- What a worker serves, or is about to build, follows the broadcast. -/
def WorkerFollows (updates : Broadcast Config) (w : Worker Config EntryPoints) : Prop :=
  match w.phase with
  | .starting => updates.Follows initial w.next initial
  | .listening =>
    ∃ config order, w.manager = some (build config order) ∧
      updates.Follows initial w.next config
  | .building config => updates.Follows initial w.next config
  | .stopped => True

structure Sound (s : Listeners Config EntryPoints W) : Prop where
  capacity : 0 < s.updates.capacity
  loaded : s.loaded = s.updates.last initial
  manager : s.rebuilding = false → Current build s s.manager
  workers : ∀ i, WorkerFollows build initial s.updates (s.workers i)

section
variable {build : Config → Order → EntryPoints} {resolves : W → EntryPoints → Bool}
  {initial : Config} {updates : Broadcast Config} {w : Worker Config EntryPoints}

theorem workerFollows_send (h : WorkerFollows build initial updates w) (config : Config) :
    WorkerFollows build initial (updates.send config) w := by
  unfold WorkerFollows at h ⊢
  split
  · rename_i hphase
    rw [hphase] at h
    exact h.send config
  · rename_i hphase
    rw [hphase] at h
    obtain ⟨served, order, hmanager, hfollows⟩ := h
    exact ⟨served, order, hmanager, hfollows.send config⟩
  · rename_i hphase
    rw [hphase] at h
    exact h.send config
  · trivial

omit [DecidableEq W] in
theorem workerFollows_started (h : WorkerFollows build initial updates w) (i : W)
    (order : Order) :
    WorkerFollows build initial updates (Worker.started build resolves initial i order w) := by
  unfold Worker.started
  split
  · rename_i hphase
    unfold WorkerFollows at h
    rw [hphase] at h
    simp only
    split
    · exact ⟨initial, order, rfl, h⟩
    · trivial
  · exact h

theorem workerFollows_recv (hcapacity : 0 < updates.capacity)
    (h : WorkerFollows build initial updates w) :
    WorkerFollows build initial updates (Worker.recv updates w) := by
  unfold Worker.recv
  split
  · rename_i hphase
    split
    · rename_i config next hrecv
      exact Broadcast.Follows.message hrecv
    · -- a lagging worker keeps what it serves and is not at the end
      rename_i next hrecv
      unfold WorkerFollows at h ⊢
      rw [hphase] at h
      simp only [hphase]
      obtain ⟨served, order, hmanager, _⟩ := h
      exact ⟨served, order, hmanager, Broadcast.Follows.lagged hcapacity hrecv⟩
    · exact h
  · exact h

theorem workerFollows_rebuilt (h : WorkerFollows build initial updates w) (order : Order) :
    WorkerFollows build initial updates (Worker.rebuilt build order w) := by
  unfold Worker.rebuilt
  split
  · rename_i config hphase
    unfold WorkerFollows at h
    rw [hphase] at h
    exact ⟨config, order, rfl, h⟩
  · exact h

theorem workerFollows_finished (h : WorkerFollows build initial updates w) :
    WorkerFollows build initial updates (Worker.finished w) := by
  unfold Worker.finished
  split
  · trivial
  · exact h

variable {s : Listeners Config EntryPoints W}

/-- One worker's step keeps the invariant if it keeps what the worker follows. -/
theorem sound_onWorker (h : s.Sound build initial) (i : W)
    {f : Worker Config EntryPoints → Worker Config EntryPoints}
    (hf : WorkerFollows build initial s.updates (f (s.workers i))) :
    (s.onWorker i f).Sound build initial := by
  refine ⟨h.capacity, h.loaded, h.manager, fun j => ?_⟩
  by_cases hj : j = i
  · subst hj
    simpa [onWorker] using hf
  · simpa [onWorker, hj] using h.workers j

theorem sound_step (h : s.Sound build initial) (e : Event Config Order W) :
    (step build resolves initial s e).Sound build initial := by
  cases e with
  | load config =>
    rw [step]
    split
    · exact h
    · exact ⟨h.capacity, (Broadcast.last_send _ _ _).symm, fun hidle => (by cases hidle),
        fun i => workerFollows_send (h.workers i) config⟩
  | rebuilt order =>
    rw [step]
    split
    · exact ⟨h.capacity, h.loaded, fun _ => ⟨order, rfl⟩, h.workers⟩
    · exact h
  | started i order => exact sound_onWorker h i (workerFollows_started (h.workers i) i order)
  | recv i => exact sound_onWorker h i (workerFollows_recv h.capacity (h.workers i))
  | workerRebuilt i order => exact sound_onWorker h i (workerFollows_rebuilt (h.workers i) order)
  | finished i => exact sound_onWorker h i (workerFollows_finished (h.workers i))

omit [DecidableEq W] in
theorem sound_start (order : Order) :
    (start build initial order : Listeners Config EntryPoints W).Sound build initial :=
  ⟨Nat.zero_lt_succ 15, rfl, fun _ => ⟨order, rfl⟩, fun _ => Broadcast.follows_new 16 initial⟩

end

/-- **The listeners converge**: when nothing is pending, the main manager and every running worker
serve entry points built from the last configuration that loaded. -/
theorem listeners_converge (order : Order) (es : List (Event Config Order W))
    (hquiet : (run (step build resolves initial) (start build initial order) es).Quiet) :
    let s := run (step build resolves initial) (start build initial order) es
    Current build s s.manager ∧
      ∀ i, (s.workers i).phase ≠ .stopped →
        ∃ entryPoints, (s.workers i).manager = some entryPoints ∧ Current build s entryPoints := by
  intro s
  have hstep : ∀ (s : Listeners Config EntryPoints W) e, s.Sound build initial →
      (step build resolves initial s e).Sound build initial := fun s e h => sound_step h e
  have hsound : s.Sound build initial := invariant_run hstep (sound_start order) es
  refine ⟨hsound.manager hquiet.main, fun i hrunning => ?_⟩
  rcases hquiet.workers i with hstopped | ⟨hlistening, hend⟩
  · exact absurd hstopped hrunning
  · have hfollows := hsound.workers i
    unfold WorkerFollows at hfollows
    rw [hlistening] at hfollows
    obtain ⟨config, served, hmanager, hfollows⟩ := hfollows
    refine ⟨_, hmanager, served, ?_⟩
    rw [hfollows.current hend, hsound.loaded]

/-- Entry points by the number of their configuration. -/
def numbered : Nat → Unit → Nat := fun config _ => config

def resolvesAlways : Unit → Nat → Bool := fun _ _ => true

/-- Twenty reloads before the one worker takes anything, then what is retained. -/
def lagRun : List (Event Nat Unit Unit) :=
  .started () () :: (List.range 20).flatMap (fun config => [.load config, .rebuilt ()]) ++
    .recv () :: (List.replicate 16 [.recv (), .workerRebuilt () ()]).flatten

theorem listeners_converge_lagged :
    let s := run (step numbered resolvesAlways 100) (start numbered 100 ()) lagRun
    s.loaded = 19 ∧ Current numbered s s.manager ∧
      ∀ i, (s.workers i).phase ≠ .stopped →
        ∃ entryPoints, (s.workers i).manager = some entryPoints ∧ Current numbered s entryPoints :=
  ⟨by decide +kernel, listeners_converge numbered resolvesAlways 100 () lagRun
    ⟨by decide +kernel, fun () => Or.inr ⟨by decide +kernel, by decide +kernel⟩⟩⟩

end Listeners

end TitanDns
