import TitanDns.Plugins.SmartRefresh

/-!
# The life of the background scan

The clones of a `SmartRefreshManager` share its parts.  A refresh under way and the background task
each own a clone, and dropping any clone runs `Drop`, which stops the shared `TaskManager`.

* `TaskManager` — `start`, `stop` and the token.
* `RefreshClones` — the shared parts and who owns the clones; the clones are alike, so they are
  counted.
* `release`, `startBackgroundTask`, `step` — the end of a clone, the start of the scan, and runs.
* `OutlivesRefreshes` — what is said of a state.
* `NoneDropped` — the condition: before a stop no clone is dropped while another lives.

Principal results: `outlivesRefreshes_iff` — **the token is cancelled only by a stop or with the
last clone exactly in the runs that meet the condition**; `cancelled_after_refresh` — the first
refresh that completes cancels it for the rest of the run.
-/

namespace TitanDns

open Run

/-! ## The task manager -/

/-- `TaskManager`: `started`, and whether the token `shutdown` is cancelled. -/
structure TaskManager where
  started : Bool
  cancelled : Bool
  deriving DecidableEq

namespace TaskManager

def new : TaskManager := ⟨false, false⟩

/-- `start`, where `runtime` says that it is called in a runtime; whether the task is spawned. -/
def start (t : TaskManager) (runtime : Bool) : Bool × TaskManager :=
  if t.started then (false, t)
  else if !runtime then (false, { t with started := false })
  else (true, { t with started := true })

/-- `stop` -/
def stop (t : TaskManager) : TaskManager := { t with cancelled := true }

/-- `Drop::drop` -/
def drop (t : TaskManager) : TaskManager := { t with cancelled := true }

end TaskManager

/-! ## The clones -/

/-- What the clones share, and who owns them. -/
structure RefreshClones where
  manager : SmartRefreshManager
  taskMgr : TaskManager
  /-- The clones that the program holds. -/
  handles : Nat
  /-- The refreshes that have completed; each of the others owns a clone. -/
  completed : Nat
  /-- The background task runs, and owns a clone. -/
  scanning : Bool
  /-- `stop_background_task` was called. -/
  stopped : Bool

inductive CloneEvent where
  | clone
  | drop
  | trigger (key : RefreshKey) (now : Nat)
  /-- The task of a refresh ends. -/
  | refreshed
  /-- `start_background_task`, in a runtime or not. -/
  | start (runtime : Bool)
  /-- `stop_background_task` -/
  | stop
  /-- A scan of the background task. -/
  | scan (now : Nat) (visits : List Visit)
  /-- The background task ends. -/
  | ended

namespace RefreshClones

/-- `SmartRefreshManager::new` -/
def new : RefreshClones := ⟨.new, .new, 1, 0, false, false⟩

/-- The refreshes under way. -/
def inFlight (s : RefreshClones) : Nat := s.manager.issued.length - s.completed

/-- The clones that live. -/
def clones (s : RefreshClones) : Nat := s.handles + s.inFlight + s.scanning.toNat

/-- `Drop::drop` of a clone that is no longer counted; with the last one the task manager is dropped
as well. -/
def release (s : RefreshClones) : RefreshClones :=
  { s with taskMgr := if s.clones = 0 then s.taskMgr.stop.drop else s.taskMgr.stop }

/-- `start_background_task`: a clone is made for the task, and dropped if that is not spawned. -/
def startBackgroundTask (s : RefreshClones) (runtime : Bool) : RefreshClones :=
  let (spawned, taskMgr) := s.taskMgr.start runtime
  if spawned then { s with taskMgr := taskMgr, scanning := true }
  else release { s with taskMgr := taskMgr }

variable (codec : Codec)

/-- The program acts on a clone it holds, the background task scans while it runs. -/
def step (s : RefreshClones) : CloneEvent → RefreshClones
  | .clone => if s.handles = 0 then s else { s with handles := s.handles + 1 }
  | .drop => if s.handles = 0 then s else release { s with handles := s.handles - 1 }
  | .trigger key now =>
    if s.handles = 0 then s else { s with manager := s.manager.triggerRefresh key now }
  | .refreshed => if s.inFlight = 0 then s else release { s with completed := s.completed + 1 }
  | .start runtime => if s.handles = 0 then s else s.startBackgroundTask runtime
  | .stop => if s.handles = 0 then s else { s with taskMgr := s.taskMgr.stop, stopped := true }
  | .scan now visits =>
    if s.scanning then { s with manager := (s.manager.scanAndRefresh codec now visits).1 } else s
  | .ended => if s.scanning then release { s with scanning := false } else s

/-- If the token is cancelled, a stop was called or no clone is left. -/
def OutlivesRefreshes (s : RefreshClones) : Prop :=
  s.taskMgr.cancelled = true → s.stopped = true ∨ s.clones = 0

/-- Before a stop no clone is dropped while another lives: not by the program, not with a refresh
that completes, not with a start that fails, and not with the background task. -/
def NoneDropped (s : RefreshClones) : CloneEvent → Prop
  | .drop => s.handles ≠ 0 → s.stopped = true ∨ s.clones = 1
  | .refreshed => s.inFlight ≠ 0 → s.stopped = true ∨ s.clones = 1
  | .start runtime =>
    s.handles ≠ 0 → s.taskMgr.started = true ∨ runtime = false → s.stopped = true
  | .ended => s.scanning = true → s.stopped = true ∨ s.clones = 1
  | _ => True

variable {s : RefreshClones}

/-! ## One step -/

@[simp] theorem release_clones : s.release.clones = s.clones := rfl

@[simp] theorem release_stopped : s.release.stopped = s.stopped := rfl

/-- **Dropping any clone cancels the token.** -/
@[simp] theorem release_cancelled : s.release.taskMgr.cancelled = true := by
  unfold release
  split <;> rfl

theorem release_iff : s.release.OutlivesRefreshes ↔ s.stopped = true ∨ s.clones = 0 := by
  unfold OutlivesRefreshes
  rw [release_cancelled, release_stopped, release_clones]
  exact ⟨fun h => h rfl, fun h _ => h⟩

/-- What leaves the token alone while a clone lives. -/
theorem outlives_of_alive {s' : RefreshClones} (h : s.OutlivesRefreshes) (halive : s.clones ≠ 0)
    (hcancelled : s'.taskMgr.cancelled = s.taskMgr.cancelled) (hstopped : s'.stopped = s.stopped) :
    s'.OutlivesRefreshes := by
  intro hc
  rw [hcancelled] at hc
  rcases h hc with hstop | hnone
  · exact Or.inl (hstopped.trans hstop)
  · exact absurd hnone halive

theorem clones_ne_zero (h : s.handles ≠ 0) : s.clones ≠ 0 := by
  unfold clones
  omega

theorem start_iff (h : s.OutlivesRefreshes) (hheld : s.handles ≠ 0) (runtime : Bool) :
    (s.startBackgroundTask runtime).OutlivesRefreshes ↔
      (s.taskMgr.started = true ∨ runtime = false → s.stopped = true) := by
  have halive := clones_ne_zero hheld
  unfold startBackgroundTask TaskManager.start
  cases hstarted : s.taskMgr.started with
  | true =>
    simp only [if_true, Bool.false_eq_true, if_false, release_iff, true_or, true_imp_iff]
    exact or_iff_left halive
  | false =>
    cases runtime with
    | false =>
      simp only [Bool.false_eq_true, if_false, Bool.not_false, if_true, release_iff, or_true,
        true_imp_iff]
      exact or_iff_left halive
    | true =>
      simp only [Bool.false_eq_true, if_false, Bool.not_true, if_true, Bool.true_eq_false, or_false,
        false_imp_iff, iff_true]
      exact outlives_of_alive h halive rfl rfl

theorem guarded {p : Prop} [Decidable p] {s' : RefreshClones} (h : s.OutlivesRefreshes)
    (hs' : ¬ p → s'.OutlivesRefreshes) : (if p then s else s').OutlivesRefreshes := by
  split
  · exact h
  · exact hs' ‹_›

/-- What cannot happen keeps the property. -/
theorem guarded_iff {p q : Prop} [Decidable p] {s' : RefreshClones} (h : s.OutlivesRefreshes)
    (hs' : ¬ p → (s'.OutlivesRefreshes ↔ q)) :
    (if p then s else s').OutlivesRefreshes ↔ (¬ p → q) := by
  by_cases hp : p
  · rw [if_pos hp]
    exact iff_of_true h fun hnot => absurd hp hnot
  · rw [if_neg hp, forall_prop_of_true hp]
    exact hs' hp

theorem running_iff {q : Prop} {s' : RefreshClones} (h : s.OutlivesRefreshes)
    (hs' : s.scanning = true → (s'.OutlivesRefreshes ↔ q)) :
    (if s.scanning then s' else s).OutlivesRefreshes ↔ (s.scanning = true → q) := by
  cases hscanning : s.scanning with
  | false => exact iff_of_true h fun hrun => by cases hrun
  | true =>
    rw [forall_prop_of_true rfl]
    exact hs' hscanning

/-- Dropping one clone keeps the property after a stop, and where it is the last. -/
theorem drop_iff {s' : RefreshClones} (hclones : s'.clones + 1 = s.clones)
    (hstopped : s'.stopped = s.stopped) :
    s'.release.OutlivesRefreshes ↔ s.stopped = true ∨ s.clones = 1 := by
  rw [release_iff, hstopped]
  exact or_congr_right (by omega)

/-- **A step keeps the property exactly when it drops no clone too early.** -/
theorem step_iff (h : s.OutlivesRefreshes) (e : CloneEvent) :
    (s.step codec e).OutlivesRefreshes ↔ s.NoneDropped e := by
  cases e with
  | clone =>
    refine iff_of_true (guarded h fun hheld => ?_) trivial
    exact outlives_of_alive h (clones_ne_zero hheld) rfl rfl
  | trigger key now =>
    refine iff_of_true (guarded h fun hheld => ?_) trivial
    exact outlives_of_alive h (clones_ne_zero hheld) rfl rfl
  | stop => exact iff_of_true (guarded h fun _ _ => Or.inl rfl) trivial
  | scan now visits =>
    refine iff_of_true ?_ trivial
    cases hscanning : s.scanning with
    | false => rwa [step, hscanning]
    | true =>
      rw [step, if_pos hscanning]
      refine outlives_of_alive h ?_ rfl rfl
      rw [clones, hscanning, Bool.toNat_true]
      omega
  | drop =>
    refine guarded_iff h fun hheld => drop_iff ?_ rfl
    unfold clones inFlight
    dsimp only
    omega
  | refreshed =>
    refine guarded_iff h fun hbusy => drop_iff ?_ rfl
    unfold inFlight at hbusy
    unfold clones inFlight
    dsimp only
    omega
  | start runtime => exact guarded_iff h fun hheld => start_iff h hheld runtime
  | ended =>
    refine running_iff h fun hscanning => drop_iff ?_ rfl
    rw [clones, clones, hscanning, Bool.toNat_true, Bool.toNat_false]
    rfl

/-! ## Runs -/

theorem new_outlives : new.OutlivesRefreshes := by
  intro h
  cases h

/-- **The token is cancelled only by a stop or with the last clone**, throughout the runs in which
no clone is dropped before a stop while another lives, and in no others. -/
theorem outlivesRefreshes_iff (es : List CloneEvent) :
    Always (step codec) OutlivesRefreshes new es ↔ Meets (step codec) NoneDropped new es := by
  have hstep : ∀ (s : RefreshClones) e, s.OutlivesRefreshes →
      ((s.step codec e).OutlivesRefreshes ↔ s.NoneDropped e) := fun _ e h => step_iff codec h e
  exact always_iff hstep new_outlives es

/-- A name is refreshed, and the refresh completes: the plugin is still held, and the token is
cancelled. -/
theorem first_refresh_cancels :
    ¬ ∀ (codec : Codec) (es : List CloneEvent), Always (step codec) OutlivesRefreshes new es := by
  intro h
  have hlast : (run (step (.ofTable [] [])) new
      [.start true, .trigger ⟨"b.org.", TYPE_A, CLASS_IN⟩ 100, .refreshed]).OutlivesRefreshes :=
    (h (.ofTable [] []) _).last
  rcases hlast (by decide) with hstopped | hnone
  · exact absurd hstopped (by decide)
  · exact absurd hnone (by decide)

/-! ## After the first refresh -/

/-- A cancelled token stays cancelled. -/
theorem step_cancelled (h : s.taskMgr.cancelled = true) (e : CloneEvent) :
    (s.step codec e).taskMgr.cancelled = true := by
  have hspawn : ∀ runtime, (s.taskMgr.start runtime).2.cancelled = true := by
    intro runtime
    unfold TaskManager.start
    split
    · exact h
    · split <;> exact h
  cases e with
  | clone | trigger =>
    rw [step]
    split <;> exact h
  | drop | refreshed =>
    rw [step]
    split
    · exact h
    · exact release_cancelled
  | start runtime =>
    rw [step]
    split
    · exact h
    · unfold startBackgroundTask
      dsimp only
      split
      · exact hspawn runtime
      · exact release_cancelled
  | stop =>
    rw [step]
    split
    · exact h
    · rfl
  | scan =>
    rw [step]
    split <;> exact h
  | ended =>
    rw [step]
    split
    · exact release_cancelled
    · exact h

/-- **After the first refresh that completes** the token is cancelled, whoever holds a clone. -/
theorem cancelled_after_refresh (before after : List CloneEvent)
    (h : (run (step codec) new before).inFlight ≠ 0) :
    (run (step codec) new (before ++ .refreshed :: after)).taskMgr.cancelled = true := by
  have hstep : ∀ (s : RefreshClones) e, s.taskMgr.cancelled = true →
      (s.step codec e).taskMgr.cancelled = true := fun _ e hs => step_cancelled codec hs e
  have hcompleted :
      ((run (step codec) new before).step codec .refreshed).taskMgr.cancelled = true := by
    rw [step, if_neg h]
    exact release_cancelled
  rw [run_append, run_cons]
  exact invariant_run hstep hcompleted after

end RefreshClones

end TitanDns
