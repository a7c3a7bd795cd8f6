import TitanDns.Lib.Run
import Mathlib.Algebra.GroupWithZero.Nat
import Mathlib.Data.List.Infix

/-!
# `UpstreamMetrics`

What the autopilot keeps about one upstream, as far as availability and degradation depend on it.
Times are nanoseconds on the monotonic clock, latencies milliseconds.

* `recordProbe` — a success with its latency, or a failure, of a query or of a probe.
* `isAvailable` — the circuit breaker: an unhealthy upstream is tried again after a cooldown.
* `isDegrading` — the filter of the smart strategy: two failures in a row, or the ten newest
  latencies half as much again above the moving average.
-/

namespace TitanDns

/-- `str::contains`. -/
def containsText (text pattern : String) : Bool := decide (pattern.toList <:+: text.toList)

/-- `str::starts_with`. -/
def startsWithText (text pattern : String) : Bool := pattern.toList.isPrefixOf text.toList

namespace Autopilot

def SECOND : Nat := 1000000000

def HISTORY_SIZE : Nat := 100

def FAILURE_THRESHOLD : Nat := 3

def FAILURE_THRESHOLD_LOOPBACK : Nat := 8

def RECOVERY_COOLDOWN : Nat := 30 * SECOND

def RECOVERY_COOLDOWN_LOOPBACK : Nat := 5 * SECOND

def isLoopbackLabel (label : String) : Bool :=
  containsText label "127.0.0.1" || containsText label "[::1]" || containsText label "localhost"

def failureThresholdForLabel (label : String) : Nat :=
  if isLoopbackLabel label then FAILURE_THRESHOLD_LOOPBACK else FAILURE_THRESHOLD

def recoveryCooldownForLabel (label : String) : Nat :=
  if isLoopbackLabel label then RECOVERY_COOLDOWN_LOOPBACK else RECOVERY_COOLDOWN

structure UpstreamMetrics where
  label : String
  healthy : Bool
  /-- Oldest first. -/
  rttHistory : List Nat
  avgRttMs : Nat
  consecutiveFailures : Nat
  lastProbe : Nat
  lastUnhealthy : Option Nat
  deriving DecidableEq

namespace UpstreamMetrics

/-- `UpstreamMetrics::new` at `now`. -/
def new (label : String) (now : Nat) : UpstreamMetrics := ⟨label, true, [], 50, 0, now, none⟩

/-- The history with one more latency. -/
def pushRtt (history : List Nat) (latency : Nat) : List Nat :=
  (if HISTORY_SIZE ≤ history.length then history.drop 1 else history) ++ [latency]

/-- `(old_avg * 7 + latency * 3) / 10`. -/
def nextAvg (avg latency : Nat) : Nat := (avg * 7 + latency * 3) / 10

/-- `record_probe`, the branch of a success. -/
def recordOk (m : UpstreamMetrics) (now latency : Nat) : UpstreamMetrics :=
  { m with
    consecutiveFailures := 0
    healthy := true
    rttHistory := pushRtt m.rttHistory latency
    avgRttMs := nextAvg m.avgRttMs latency
    lastProbe := now }

/-- `record_probe`, the branch of a failure: `last_unhealthy` is written by the failure that
changes `healthy`. -/
def recordFail (m : UpstreamMetrics) (now : Nat) : UpstreamMetrics :=
  if failureThresholdForLabel m.label ≤ m.consecutiveFailures + 1 then
    { m with
      consecutiveFailures := m.consecutiveFailures + 1
      healthy := false
      lastUnhealthy := if m.healthy then some now else m.lastUnhealthy
      lastProbe := now }
  else
    { m with
      consecutiveFailures := m.consecutiveFailures + 1
      lastProbe := now }

/-- `record_probe`; a failure has no latency. -/
def recordProbe (m : UpstreamMetrics) (now : Nat) : Option Nat → UpstreamMetrics
  | some latency => m.recordOk now latency
  | none => m.recordFail now

/-- `is_available`. -/
def isAvailable (m : UpstreamMetrics) (now : Nat) : Bool :=
  m.healthy ||
    match m.lastUnhealthy with
    | some unhealthyTime => decide (recoveryCooldownForLabel m.label < now - unhealthyTime)
    | none => false

/-- The ten newest latencies are on average more than half as much again above the moving average:
`recent_avg > overall_avg * 1.5`, without the division. -/
def trendingUp (history : List Nat) (avg : Nat) : Bool :=
  decide (10 ≤ history.length ∧ avg * 15 < (history.reverse.take 10).sum)

/-- `is_upstream_degrading` of a registered upstream. -/
def isDegrading (m : UpstreamMetrics) : Bool :=
  decide (2 ≤ m.consecutiveFailures) || trendingUp m.rttHistory m.avgRttMs

@[simp] theorem recordOk_label (m : UpstreamMetrics) (now latency : Nat) :
    (m.recordOk now latency).label = m.label := rfl

@[simp] theorem recordFail_label (m : UpstreamMetrics) (now : Nat) :
    (m.recordFail now).label = m.label := by
  unfold recordFail
  split <;> rfl

@[simp] theorem recordProbe_label (m : UpstreamMetrics) (now : Nat) (latency : Option Nat) :
    (m.recordProbe now latency).label = m.label := by
  cases latency with
  | some latency => exact recordOk_label m now latency
  | none => exact recordFail_label m now

/-- What a failure leaves of an unhealthy upstream, when the breaker opened included. -/
theorem recordFail_unhealthy {m : UpstreamMetrics} (h : m.healthy = false) (now : Nat) :
    (m.recordFail now).healthy = false ∧ (m.recordFail now).lastUnhealthy = m.lastUnhealthy := by
  unfold recordFail
  split
  · exact ⟨rfl, by simp [h]⟩
  · exact ⟨h, rfl⟩

/-- The failure that opens the breaker. -/
theorem recordFail_trips {m : UpstreamMetrics} (h : m.healthy = true)
    (hthr : failureThresholdForLabel m.label ≤ m.consecutiveFailures + 1) (now : Nat) :
    (m.recordFail now).healthy = false ∧ (m.recordFail now).lastUnhealthy = some now := by
  unfold recordFail
  rw [if_pos hthr]
  exact ⟨rfl, by simp [h]⟩

theorem isAvailable_unhealthy {m : UpstreamMetrics} (h : m.healthy = false) {opened : Nat}
    (hopened : m.lastUnhealthy = some opened) (now : Nat) :
    m.isAvailable now = decide (recoveryCooldownForLabel m.label < now - opened) := by
  unfold isAvailable
  rw [h, hopened]
  rfl

end UpstreamMetrics

end Autopilot

end TitanDns
