import TitanDns.Autopilot.Ranking
import TitanDns.Lib.TimeWindow
import Mathlib.Algebra.Order.Floor.Semiring
import Mathlib.Data.Rat.Floor
import Mathlib.Tactic.Linarith
import Mathlib.Tactic.NormNum

/-!
# The score of an upstream

`record_probe` with everything the score is computed from, and `update_score` in exact arithmetic.
The natural logarithm is a parameter.

* `ScoredMetrics` — the probes of the last fifteen minutes, the jitter, the counters and the score;
  `recordProbe` — one probe.
* `recent_probes` — **after a run whose clock does not go back, the history holds the probes of the
  last fifteen minutes**, so `getPacketLossRate` is the share of them that failed.
* `rttScore`, `jitterScore`, `successScore`, `pktlossScore` — the components; `finalScore`.
* `pktlossScore_eq` — **the component of the packet loss is 1000 at every loss**: the loss is cut
  off at a tenth before it is scaled by 10000, and 1000 is cut off after.

Principal result: `lossLowers_iff` — **two upstreams are scored by their loss exactly when it is the
same and below a tenth.**
-/

namespace TitanDns.Autopilot

open Run

/-! ## What is kept -/

def HISTORY_DURATION_SECS : Nat := 15 * 60

/-- `ProbeResult` -/
structure ProbeResult where
  timestamp : Nat
  latencyMs : Option Nat
  deriving DecidableEq

/-- `WeightConfig` -/
structure WeightConfig where
  latencyWeight : ℚ
  jitterWeight : ℚ
  successWeight : ℚ
  pktlossWeight : ℚ

/-- `WeightConfig::default` -/
def WeightConfig.default : WeightConfig := ⟨35 / 100, 15 / 100, 40 / 100, 10 / 100⟩

/-- `WeightConfig::is_valid` -/
def WeightConfig.isValid (w : WeightConfig) : Bool :=
  decide (|w.latencyWeight + w.jitterWeight + w.successWeight + w.pktlossWeight - 1| < 1 / 100)

/-- The weights an upstream starts with pass the check of `set_weights`. -/
theorem default_isValid : WeightConfig.default.isValid = true := by
  unfold WeightConfig.isValid WeightConfig.default
  norm_num

/-- `UpstreamMetrics` with what the score depends on. -/
structure ScoredMetrics extends UpstreamMetrics where
  /-- Oldest first. -/
  probeHistory : List ProbeResult
  jitterMs : Nat
  successCount : Nat
  failureCount : Nat
  score : Nat

/-- `elapsed().as_secs() > HISTORY_DURATION_SECS` -/
def outdated (now timestamp : Nat) : Bool :=
  decide (HISTORY_DURATION_SECS < (now - timestamp) / SECOND)

/-! ## The components -/

/-- Full marks up to 5 ms, then down with the logarithm, 50 from 200 ms on. -/
def rttScore (ln : ℚ → ℚ) (rtt : Nat) : ℚ :=
  if rtt ≤ 5 then 1000
  else if 200 ≤ rtt then 50
  else min (max (1000 - ln (rtt / 5) * 200) 50) 1000

def jitterScore (jitter : Nat) : ℚ := max ((100 - min (jitter : ℚ) 100) * 10) 0

def successScore (successRate : ℚ) : ℚ := successRate * 1000

def pktlossScore (packetLoss : ℚ) : ℚ :=
  min (max ((1 - min packetLoss (1 / 10)) * 10000) 0) 1000

/-- `as u64` -/
def toU64 (x : ℚ) : Nat := min ⌊x⌋₊ (2 ^ 64 - 1)

namespace ScoredMetrics

/-- `UpstreamMetrics::new` at `now`. -/
def new (label : String) (now : Nat) : ScoredMetrics :=
  { UpstreamMetrics.new label now with
    probeHistory := []
    jitterMs := 0
    successCount := 0
    failureCount := 0
    score := 1000 }

/-- `get_packet_loss_rate` -/
def getPacketLossRate (m : ScoredMetrics) : ℚ :=
  if m.probeHistory.isEmpty then 0
  else (m.probeHistory.filter (·.latencyMs.isNone)).length / m.probeHistory.length

/-- `get_success_rate` -/
def getSuccessRate (m : ScoredMetrics) : ℚ :=
  if m.successCount + m.failureCount = 0 then 1
  else m.successCount / (m.successCount + m.failureCount : Nat)

/-- The weighted sum. -/
def composite (ln : ℚ → ℚ) (w : WeightConfig) (m : ScoredMetrics) : ℚ :=
  rttScore ln m.avgRttMs * w.latencyWeight + jitterScore m.jitterMs * w.jitterWeight +
    successScore m.getSuccessRate * w.successWeight +
    pktlossScore m.getPacketLossRate * w.pktlossWeight

/-- The sum, with the penalty of an unhealthy upstream. -/
def finalScore (ln : ℚ → ℚ) (w : WeightConfig) (m : ScoredMetrics) : ℚ :=
  if m.healthy then m.composite ln w else m.composite ln w * (1 / 10)

/-- `update_score` -/
def updateScore (ln : ℚ → ℚ) (w : WeightConfig) (m : ScoredMetrics) : ScoredMetrics :=
  { m with score := toU64 (m.finalScore ln w) }

/-- The jitter after a success, against the average that counts it. -/
def nextJitter (jitter avg latency : Nat) : Nat :=
  (jitter * 7 + (if avg < latency then latency - avg else avg - latency) * 3) / 10

/-- `record_probe`, with the weights it finds. -/
def recordProbe (ln : ℚ → ℚ) (weights : NetworkScope → WeightConfig) (m : ScoredMetrics)
    (p : ProbeResult) : ScoredMetrics :=
  let metrics := m.toUpstreamMetrics.recordProbe p.timestamp p.latencyMs
  let history := TimeWindow.push ProbeResult.timestamp outdated m.probeHistory p
  updateScore ln (weights (scopeForLabel m.label)) <| match p.latencyMs with
    | some latency =>
      { metrics with
        probeHistory := history
        jitterMs := nextJitter m.jitterMs metrics.avgRttMs latency
        successCount := m.successCount + 1
        failureCount := m.failureCount
        score := m.score }
    | none =>
      { metrics with
        probeHistory := history
        jitterMs := m.jitterMs
        successCount := m.successCount
        failureCount := m.failureCount + 1
        score := m.score }

end ScoredMetrics

/-! ## Runs -/

/-- A probe, and the weights in force. -/
structure Observation where
  weights : NetworkScope → WeightConfig
  probe : ProbeResult

/-- One observation. -/
def observe (ln : ℚ → ℚ) (m : ScoredMetrics) (o : Observation) : ScoredMetrics :=
  m.recordProbe ln o.weights o.probe

/-- The upstream after a history of probes. -/
def observed (ln : ℚ → ℚ) (label : String) (start : Nat) (history : List Observation) :
    ScoredMetrics :=
  run (observe ln) (.new label start) history

/-- Of what the circuit breaker keeps, the score changes nothing. -/
theorem recordProbe_metrics (ln : ℚ → ℚ) (weights : NetworkScope → WeightConfig)
    (m : ScoredMetrics) (p : ProbeResult) :
    (m.recordProbe ln weights p).toUpstreamMetrics =
      m.toUpstreamMetrics.recordProbe p.timestamp p.latencyMs := by
  unfold ScoredMetrics.recordProbe
  cases p.latencyMs <;> rfl

theorem recordProbe_probeHistory (ln : ℚ → ℚ) (weights : NetworkScope → WeightConfig)
    (m : ScoredMetrics) (p : ProbeResult) :
    (m.recordProbe ln weights p).probeHistory =
      TimeWindow.push ProbeResult.timestamp outdated m.probeHistory p := by
  unfold ScoredMetrics.recordProbe
  cases p.latencyMs <;> rfl

/-- A probe outdated at a time is outdated later, and so is one that is older. -/
theorem outdated_ageing : TimeWindow.Ageing outdated where
  later h hle := by
    rw [outdated, decide_eq_true_eq] at h ⊢
    exact Nat.lt_of_lt_of_le h (Nat.div_le_div_right (Nat.sub_le_sub_right hle _))
  older h hle := by
    rw [outdated, decide_eq_true_eq] at h ⊢
    exact Nat.lt_of_lt_of_le h (Nat.div_le_div_right (Nat.sub_le_sub_left hle _))
  fresh now := by
    rw [outdated, Nat.sub_self]
    rfl

/-- The history moves by the probes alone. -/
theorem observed_probeHistory (ln : ℚ → ℚ) (label : String) (start : Nat)
    (history : List Observation) :
    (observed ln label start history).probeHistory =
      run (TimeWindow.push ProbeResult.timestamp outdated) [] (history.map (·.probe)) := by
  have hmove : ∀ m : ScoredMetrics, (run (observe ln) m history).probeHistory =
      run (TimeWindow.push ProbeResult.timestamp outdated) m.probeHistory
        (history.map (·.probe)) := by
    induction history with
    | nil => exact fun _ => rfl
    | cons o history ih =>
      intro m
      rw [run_cons, ih, List.map_cons, run_cons]
      exact congrArg (run _ · _) (recordProbe_probeHistory ln o.weights m o.probe)
  exact hmove _

/-- **After any run whose clock does not go back, the history holds the probes of the last fifteen
minutes.** -/
theorem recent_probes (ln : ℚ → ℚ) (label : String) (start : Nat) {history : List Observation}
    {last : Observation}
    (h : (history ++ [last]).Pairwise fun o o' => o.probe.timestamp ≤ o'.probe.timestamp) :
    (observed ln label start (history ++ [last])).probeHistory =
      ((history ++ [last]).map (·.probe)).filter fun p =>
        !outdated last.probe.timestamp p.timestamp := by
  have hdates : (history.map (·.probe) ++ [last.probe]).Pairwise
      fun p p' => p.timestamp ≤ p'.timestamp := by
    have hmap := h.map Observation.probe (S := fun p p' => p.timestamp ≤ p'.timestamp)
      fun _ _ hle => hle
    rwa [List.map_append] at hmap
  rw [observed_probeHistory, List.map_append]
  exact TimeWindow.run_push outdated_ageing hdates

/-! ## The packet loss -/

/-- **The component of the packet loss is 1000 at every loss.** -/
theorem pktlossScore_eq (loss : ℚ) : pktlossScore loss = 1000 := by
  have hcut : min loss (1 / 10) ≤ 1 / 10 := min_le_right _ _
  have hscaled : 1000 ≤ (1 - min loss (1 / 10)) * 10000 := by linarith
  unfold pktlossScore
  exact min_eq_right (le_max_of_le_left hscaled)

/-- The component is 1000 at no loss and 0 from a tenth on. -/
structure LossScored (m : ScoredMetrics) : Prop where
  full : m.getPacketLossRate = 0 → pktlossScore m.getPacketLossRate = 1000
  none : 1 / 10 ≤ m.getPacketLossRate → pktlossScore m.getPacketLossRate = 0

/-- The upstreams agree in everything else that the score is computed from. -/
structure AgreeElsewhere (a b : ScoredMetrics) : Prop where
  avgRttMs : a.avgRttMs = b.avgRttMs
  jitterMs : a.jitterMs = b.jitterMs
  successRate : a.getSuccessRate = b.getSuccessRate
  healthy : a.healthy = b.healthy

/-- The upstream with the higher loss has the lower component and, all else the same, the lower
score. -/
structure RanksBelow (ln : ℚ → ℚ) (w : WeightConfig) (a b : ScoredMetrics) : Prop where
  component : a.getPacketLossRate < b.getPacketLossRate → b.getPacketLossRate ≤ 1 / 10 →
    pktlossScore b.getPacketLossRate < pktlossScore a.getPacketLossRate
  score : AgreeElsewhere a b → a.getPacketLossRate < b.getPacketLossRate →
    b.getPacketLossRate < 1 / 10 → b.finalScore ln w < a.finalScore ln w

/-- The loss lowers the score of these two upstreams as it should. -/
structure LossLowers (ln : ℚ → ℚ) (w : WeightConfig) (a b : ScoredMetrics) : Prop where
  left : LossScored a
  right : LossScored b
  below : RanksBelow ln w a b
  above : RanksBelow ln w b a

/-- **Two upstreams that agree in everything but the loss have the same score.** -/
theorem score_ignores_loss (ln : ℚ → ℚ) (w : WeightConfig) {a b : ScoredMetrics}
    (h : AgreeElsewhere a b) :
    a.finalScore ln w = b.finalScore ln w ∧
      (a.updateScore ln w).score = (b.updateScore ln w).score := by
  have hsame : a.finalScore ln w = b.finalScore ln w := by
    unfold ScoredMetrics.finalScore ScoredMetrics.composite
    rw [h.avgRttMs, h.jitterMs, h.successRate, h.healthy, pktlossScore_eq, pktlossScore_eq]
  exact ⟨hsame, congrArg toU64 hsame⟩

theorem lossScored_iff (m : ScoredMetrics) : LossScored m ↔ m.getPacketLossRate < 1 / 10 := by
  constructor
  · intro h
    by_contra hnot
    have hzero := h.none (not_lt.mp hnot)
    rw [pktlossScore_eq] at hzero
    norm_num at hzero
  · exact fun h => ⟨fun _ => pktlossScore_eq _, fun hle => absurd h (not_lt.mpr hle)⟩

/-- Below a tenth the upstreams are ranked right exactly when the second has no more loss. -/
theorem ranksBelow_iff (ln : ℚ → ℚ) (w : WeightConfig) {a b : ScoredMetrics}
    (hb : b.getPacketLossRate < 1 / 10) :
    RanksBelow ln w a b ↔ b.getPacketLossRate ≤ a.getPacketLossRate := by
  constructor
  · intro h
    by_contra hnot
    have hlower := h.component (not_le.mp hnot) hb.le
    rw [pktlossScore_eq, pktlossScore_eq] at hlower
    exact lt_irrefl _ hlower
  · exact fun h => ⟨fun hlt => absurd hlt (not_lt.mpr h), fun _ hlt => absurd hlt (not_lt.mpr h)⟩

/-- **Two upstreams are scored by their loss exactly when it is the same and below a tenth.** -/
theorem lossLowers_iff (ln : ℚ → ℚ) (w : WeightConfig) (label label' : String) (start start' : Nat)
    (history history' : List Observation) :
    LossLowers ln w (observed ln label start history) (observed ln label' start' history') ↔
      (observed ln label start history).getPacketLossRate =
          (observed ln label' start' history').getPacketLossRate ∧
        (observed ln label start history).getPacketLossRate < 1 / 10 := by
  constructor
  · rintro ⟨hleft, hright, hbelow, habove⟩
    rw [lossScored_iff] at hleft hright
    have hle := (ranksBelow_iff ln w hright).mp hbelow
    have hge := (ranksBelow_iff ln w hleft).mp habove
    exact ⟨le_antisymm hge hle, hleft⟩
  · rintro ⟨hsame, hleft⟩
    have hright := hleft
    rw [hsame] at hright
    exact ⟨(lossScored_iff _).mpr hleft, (lossScored_iff _).mpr hright,
      (ranksBelow_iff ln w hright).mpr hsame.ge, (ranksBelow_iff ln w hleft).mpr hsame.le⟩

/-! ## Two upstreams -/

/-- What the score depends on besides the window, and what that depends on. -/
structure SameCounters (a b : ScoredMetrics) : Prop where
  label : a.label = b.label
  healthy : a.healthy = b.healthy
  consecutiveFailures : a.consecutiveFailures = b.consecutiveFailures
  avgRttMs : a.avgRttMs = b.avgRttMs
  jitterMs : a.jitterMs = b.jitterMs
  successCount : a.successCount = b.successCount
  failureCount : a.failureCount = b.failureCount

theorem SameCounters.agree {a b : ScoredMetrics} (h : SameCounters a b) : AgreeElsewhere a b where
  avgRttMs := h.avgRttMs
  jitterMs := h.jitterMs
  successRate := by
    unfold ScoredMetrics.getSuccessRate
    rw [h.successCount, h.failureCount]
  healthy := h.healthy

/-- What a failure changes, whenever it happens. -/
theorem recordFail_counters {m m' : UpstreamMetrics} (hlabel : m.label = m'.label)
    (hhealthy : m.healthy = m'.healthy) (hfailures : m.consecutiveFailures = m'.consecutiveFailures)
    (havg : m.avgRttMs = m'.avgRttMs) (now now' : Nat) :
    (m.recordFail now).healthy = (m'.recordFail now').healthy ∧
      (m.recordFail now).consecutiveFailures = (m'.recordFail now').consecutiveFailures ∧
      (m.recordFail now).avgRttMs = (m'.recordFail now').avgRttMs := by
  unfold UpstreamMetrics.recordFail
  rw [← hlabel, ← hfailures]
  split
  · exact ⟨rfl, rfl, havg⟩
  · exact ⟨hhealthy, rfl, havg⟩

/-- Probes with the same result keep the counters the same, at whatever times. -/
theorem SameCounters.observe {ln : ℚ → ℚ} {a b : ScoredMetrics} (h : SameCounters a b)
    {o o' : Observation} (hresult : o.probe.latencyMs = o'.probe.latencyMs) :
    SameCounters (observe ln a o) (observe ln b o') := by
  unfold Autopilot.observe ScoredMetrics.recordProbe
  rw [← hresult]
  cases o.probe.latencyMs with
  | some latency =>
    constructor
    · exact h.label
    · rfl
    · rfl
    · show UpstreamMetrics.nextAvg a.avgRttMs latency = UpstreamMetrics.nextAvg b.avgRttMs latency
      rw [h.avgRttMs]
    · unfold ScoredMetrics.updateScore
      show ScoredMetrics.nextJitter _ (UpstreamMetrics.nextAvg a.avgRttMs latency) latency =
        ScoredMetrics.nextJitter _ (UpstreamMetrics.nextAvg b.avgRttMs latency) latency
      rw [h.avgRttMs, h.jitterMs]
    · exact congrArg (· + 1) h.successCount
    · exact h.failureCount
  | none =>
    obtain ⟨hhealthy, hfailures, havg⟩ := recordFail_counters h.label h.healthy
      h.consecutiveFailures h.avgRttMs o.probe.timestamp o'.probe.timestamp
    constructor
    · show (a.toUpstreamMetrics.recordFail _).label = (b.toUpstreamMetrics.recordFail _).label
      rw [UpstreamMetrics.recordFail_label, UpstreamMetrics.recordFail_label]
      exact h.label
    · exact hhealthy
    · exact hfailures
    · exact havg
    · exact h.jitterMs
    · exact h.successCount
    · exact congrArg (· + 1) h.failureCount

/-- **Everything but the window depends on the results of the probes alone.** -/
theorem agree_of_results (ln : ℚ → ℚ) (label : String) (start start' : Nat)
    {history history' : List Observation}
    (h : history.map (·.probe.latencyMs) = history'.map (·.probe.latencyMs)) :
    AgreeElsewhere (observed ln label start history) (observed ln label start' history') := by
  have hrun : ∀ {a b : ScoredMetrics}, SameCounters a b →
      SameCounters (run (observe ln) a history) (run (observe ln) b history') := by
    induction history generalizing history' with
    | nil =>
      intro a b hab
      rw [List.map_nil, eq_comm, List.map_eq_nil_iff] at h
      subst h
      exact hab
    | cons o history ih =>
      intro a b hab
      cases history' with
      | nil => cases h
      | cons o' history' =>
        obtain ⟨hfirst, hrest⟩ := List.cons.inj h
        exact ih hrest (hab.observe hfirst)
  have hnew : SameCounters (.new label start) (.new label start') :=
    ⟨rfl, rfl, rfl, rfl, rfl, rfl, rfl⟩
  exact (hrun hnew).agree

/-- A failure, and nineteen successes of 20 ms at second 2000. -/
def exampleHistory (failed : Nat) : List Observation :=
  ⟨fun _ => .default, failed * SECOND, none⟩ ::
    List.replicate 19 ⟨fun _ => .default, 2000 * SECOND, some 20⟩

/-- **A failure that is out of the window, and one that is in it**: no loss and a loss of a
twentieth, all else the same, and the same score. -/
theorem loss_not_lowering :
    ¬ ∃ ln w, LossLowers ln w (observed ln "udp://192.0.2.1:53" 0 (exampleHistory 1000))
      (observed ln "udp://192.0.2.1:53" 0 (exampleHistory 1900)) := by
  rintro ⟨ln, w, h⟩
  have hout : (observed ln "udp://192.0.2.1:53" 0 (exampleHistory 1000)).probeHistory =
      List.replicate 19 ⟨2000 * SECOND, some 20⟩ := by
    rw [observed_probeHistory]
    decide
  have hin : (observed ln "udp://192.0.2.1:53" 0 (exampleHistory 1900)).probeHistory =
      ⟨1900 * SECOND, none⟩ :: List.replicate 19 ⟨2000 * SECOND, some 20⟩ := by
    rw [observed_probeHistory]
    decide
  have hnone :
      (observed ln "udp://192.0.2.1:53" 0 (exampleHistory 1000)).getPacketLossRate = 0 := by
    unfold ScoredMetrics.getPacketLossRate
    rw [hout]
    norm_num
  have htwentieth :
      (observed ln "udp://192.0.2.1:53" 0 (exampleHistory 1900)).getPacketLossRate = 1 / 20 := by
    unfold ScoredMetrics.getPacketLossRate
    rw [hin]
    norm_num
  have hlower := h.below.score (agree_of_results ln _ 0 0 rfl)
  rw [hnone, htwentieth] at hlower
  have hsame := (score_ignores_loss ln w (agree_of_results ln "udp://192.0.2.1:53" 0 0
    (show (exampleHistory 1000).map (·.probe.latencyMs) =
      (exampleHistory 1900).map (·.probe.latencyMs) from rfl))).1
  exact absurd (hlower (by norm_num) (by norm_num)) (by rw [hsame]; exact lt_irrefl _)

end TitanDns.Autopilot
