import TitanDns.Autopilot.Score
import TitanDns.Lib.Run
import TitanDns.Plugins.SmartStrategy

/-!
# Network condition and the tuning of the weights

Every five minutes the weights of each scope are set to a profile for the congestion of its network
and the hour; scores are computed with whatever weights are in force.

* `NetworkCondition.calculate` — averages over the upstreams of a scope, and the congestion level.
* `buildDynamicWeights` — the profile, in exact arithmetic; `buildDynamicWeights_balanced`: **its
  weights are not negative and add up to one.**
* `Tuning`, `step` — registrations, probes, tunings of any scope, and custom weights, in any order.

Principal results: `scores_bounded` — **over every run, a score is at most 1000 times what the
custom weights add up to, and a tenth of that for an unhealthy upstream**; `tuning_settles` — a
tuning never fails, comes within a fiftieth of the profile, and done again changes nothing;
`worse_asks_more` — **a worse network is asked in the same order, and no fewer upstreams of it.**
-/

namespace TitanDns.Autopilot

open Run

/-! ## The condition of a network -/

structure NetworkCondition where
  avgJitterMs : ℚ
  avgLossRate : ℚ
  congestionLevel : Nat

/-- The upstreams of a scope. -/
def scopedMetrics (scope : NetworkScope) (all : List ScoredMetrics) : List ScoredMetrics :=
  match scope with
  | .global => all
  | scope => all.filter (scopeForLabel ·.label == scope)

/-- The level of an average jitter and an average loss. -/
def assessCongestion (jitter loss : ℚ) : Nat :=
  if jitter < 5 ∧ loss < 1 / 100 then 0
  else if jitter < 10 ∧ loss < 2 / 100 then 2
  else if jitter < 15 ∧ loss < 5 / 100 then 4
  else if jitter < 25 ∧ loss < 8 / 100 then 6
  else if jitter < 35 ∧ loss < 12 / 100 then 8
  else 10

/-- `NetworkCondition::calculate` -/
def NetworkCondition.calculate (scope : NetworkScope) (all : List ScoredMetrics) :
    NetworkCondition :=
  let upstreams := scopedMetrics scope all
  if upstreams.isEmpty then ⟨0, 0, 0⟩
  else
    let avgJitter := (upstreams.map fun m => (m.jitterMs : ℚ)).sum / upstreams.length
    let avgLoss := (upstreams.map ScoredMetrics.getPacketLossRate).sum / upstreams.length
    ⟨avgJitter, avgLoss, assessCongestion avgJitter avgLoss⟩

/-! ## The profile -/

namespace WeightConfig

def sum (w : WeightConfig) : ℚ :=
  w.latencyWeight + w.jitterWeight + w.successWeight + w.pktlossWeight

/-- `normalize_weights` -/
def normalize (w : WeightConfig) : WeightConfig :=
  if |w.sum| < 1 / 1000000 then .default
  else ⟨w.latencyWeight / w.sum, w.jitterWeight / w.sum, w.successWeight / w.sum,
    w.pktlossWeight / w.sum⟩

/-- `max_weight_diff` -/
def maxDiff (a b : WeightConfig) : ℚ :=
  max (max (max |a.latencyWeight - b.latencyWeight| |a.jitterWeight - b.jitterWeight|)
    |a.successWeight - b.successWeight|) |a.pktlossWeight - b.pktlossWeight|

/-- No weight is negative, and they add up to no more than `bound`. -/
structure Within (bound : ℚ) (w : WeightConfig) : Prop where
  latency : 0 ≤ w.latencyWeight
  jitter : 0 ≤ w.jitterWeight
  success : 0 ≤ w.successWeight
  pktloss : 0 ≤ w.pktlossWeight
  sum : w.sum ≤ bound

end WeightConfig

/-- The profile of a congestion level. -/
def baseWeights (level : Nat) : WeightConfig :=
  if 7 ≤ level then ⟨25 / 100, 15 / 100, 45 / 100, 15 / 100⟩
  else if level ≤ 2 then ⟨45 / 100, 15 / 100, 30 / 100, 10 / 100⟩
  else if level ≤ 4 then ⟨40 / 100, 15 / 100, 35 / 100, 10 / 100⟩
  else ⟨30 / 100, 15 / 100, 40 / 100, 15 / 100⟩

/-- The adjustment for the hour: success at peak hours, latency at night. -/
def adjustForHour (hour : Nat) (w : WeightConfig) : WeightConfig :=
  if (19 ≤ hour ∧ hour ≤ 23) ∨ (12 ≤ hour ∧ hour ≤ 13) then
    { w with
      successWeight := w.successWeight + 3 / 100
      pktlossWeight := w.pktlossWeight + 2 / 100
      latencyWeight := w.latencyWeight - 3 / 100
      jitterWeight := w.jitterWeight - 2 / 100 }
  else if hour ≤ 6 then
    { w with
      latencyWeight := w.latencyWeight + 3 / 100
      successWeight := w.successWeight - 2 / 100
      pktlossWeight := w.pktlossWeight - 1 / 100 }
  else w

def buildDynamicWeights (network : NetworkCondition) (hour : Nat) : WeightConfig :=
  (adjustForHour hour (baseWeights network.congestionLevel)).normalize

/-! ## The system -/

structure Tuning where
  upstreams : List ScoredMetrics
  /-- The weight managers. -/
  weights : NetworkScope → WeightConfig

def Tuning.init : Tuning := ⟨[], fun _ => .default⟩

/-- `set_weights_for_scope` -/
def Tuning.setWeights (s : Tuning) (scope : NetworkScope) (config : WeightConfig) :
    Except String Tuning :=
  if config.isValid then .ok { s with weights := Function.update s.weights scope config }
  else .error "权重总和必须接近 1.0"

/-- The profile that a tuning of the scope aims at. -/
def Tuning.target (s : Tuning) (scope : NetworkScope) (hour : Nat) : WeightConfig :=
  buildDynamicWeights (.calculate scope s.upstreams) hour

/-- A scope of its own without an upstream is left alone. -/
def Tuning.skips (s : Tuning) (scope : NetworkScope) : Bool :=
  scope != .global && (scopedMetrics scope s.upstreams).isEmpty

/-- `auto_tune_weights_for_scope`: and whether the weights were set. -/
def Tuning.autoTune (s : Tuning) (scope : NetworkScope) (hour : Nat) : Tuning × Bool :=
  if s.skips scope then (s, false)
  else if (s.weights scope).maxDiff (s.target scope hour) < 2 / 100 then (s, false)
  else
    match s.setWeights scope (s.target scope hour) with
    | .ok s' => (s', true)
    | .error _ => (s, false)

inductive TuningEvent where
  | register (label : String) (now : Nat)
  | probe (label : String) (p : ProbeResult)
  /-- One scope of `auto_tune_weights`, at the hour it finds. -/
  | tune (scope : NetworkScope) (hour : Nat)
  /-- A caller of `set_weights_for_scope`. -/
  | custom (scope : NetworkScope) (config : WeightConfig)

/-- `get_or_register` -/
def Tuning.register (s : Tuning) (label : String) (now : Nat) : Tuning :=
  if s.upstreams.any (·.label == label) then s
  else { s with upstreams := s.upstreams ++ [.new label now] }

/-- `record_probe` of the upstream with the label. -/
def Tuning.probe (ln : ℚ → ℚ) (s : Tuning) (label : String) (p : ProbeResult) : Tuning :=
  { s with upstreams := s.upstreams.map fun m =>
      if m.label == label then m.recordProbe ln s.weights p else m }

def Tuning.custom (s : Tuning) (scope : NetworkScope) (config : WeightConfig) : Tuning :=
  match s.setWeights scope config with
  | .ok s' => s'
  | .error _ => s

def Tuning.step (ln : ℚ → ℚ) (s : Tuning) : TuningEvent → Tuning
  | .register label now => s.register label now
  | .probe label p => s.probe ln label p
  | .tune scope hour => (s.autoTune scope hour).1
  | .custom scope config => s.custom scope config

/-- The state after the events `es`, taken in order from the start. -/
def tuningAfter (ln : ℚ → ℚ) (es : List TuningEvent) : Tuning := run (Tuning.step ln) .init es

/-! ## The profile is balanced -/

theorem baseWeights_sum (level : Nat) : (baseWeights level).sum = 1 := by
  unfold baseWeights
  split_ifs <;> norm_num [WeightConfig.sum]

theorem adjustForHour_sum (hour : Nat) (w : WeightConfig) : (adjustForHour hour w).sum = w.sum := by
  unfold adjustForHour
  split_ifs <;> simp only [WeightConfig.sum] <;> ring

/-- Weights that add up to one are not changed. -/
theorem WeightConfig.normalize_of_sum {w : WeightConfig} (h : w.sum = 1) : w.normalize = w := by
  unfold WeightConfig.normalize
  rw [h, if_neg (by norm_num)]
  simp

theorem adjusted_within (level hour : Nat) : (adjustForHour hour (baseWeights level)).Within 1 := by
  have hsum := adjustForHour_sum hour (baseWeights level)
  rw [baseWeights_sum] at hsum
  refine ⟨?_, ?_, ?_, ?_, hsum.le⟩ <;> unfold adjustForHour baseWeights <;> split_ifs <;> norm_num

/-- **The weights of a profile are not negative and add up to one.** -/
theorem buildDynamicWeights_balanced (network : NetworkCondition) (hour : Nat) :
    (buildDynamicWeights network hour).Within 1 ∧ (buildDynamicWeights network hour).sum = 1 := by
  have hsum := adjustForHour_sum hour (baseWeights network.congestionLevel)
  rw [baseWeights_sum] at hsum
  unfold buildDynamicWeights
  rw [WeightConfig.normalize_of_sum hsum]
  exact ⟨adjusted_within _ _, hsum⟩

theorem buildDynamicWeights_isValid (network : NetworkCondition) (hour : Nat) :
    (buildDynamicWeights network hour).isValid = true := by
  have hsum := (buildDynamicWeights_balanced network hour).2
  unfold WeightConfig.isValid
  unfold WeightConfig.sum at hsum
  rw [hsum]
  norm_num

/-! ## A tuning settles -/

theorem WeightConfig.maxDiff_self (w : WeightConfig) : w.maxDiff w = 0 := by
  simp [WeightConfig.maxDiff]

/-- What a tuning does where it is not skipped. -/
theorem Tuning.autoTune_cases (s : Tuning) (scope : NetworkScope) (hour : Nat) :
    ((s.autoTune scope hour) = (s, false) ∧
        (s.skips scope = true ∨ (s.weights scope).maxDiff (s.target scope hour) < 2 / 100)) ∨
      (s.autoTune scope hour) =
          ({ s with weights := Function.update s.weights scope (s.target scope hour) }, true) ∧
        s.skips scope = false ∧ ¬ (s.weights scope).maxDiff (s.target scope hour) < 2 / 100 := by
  have hvalid := buildDynamicWeights_isValid (.calculate scope s.upstreams) hour
  unfold Tuning.autoTune
  by_cases hskip : s.skips scope = true
  · exact .inl ⟨by simp [hskip], .inl hskip⟩
  · by_cases hclose : (s.weights scope).maxDiff (s.target scope hour) < 2 / 100
    · exact .inl ⟨by simp [hskip, hclose], .inr hclose⟩
    · right
      refine ⟨?_, by simpa using hskip, hclose⟩
      have hset : s.setWeights scope (s.target scope hour) =
          .ok { s with weights := Function.update s.weights scope (s.target scope hour) } := by
        unfold Tuning.setWeights Tuning.target
        rw [if_pos hvalid]
      rw [if_neg hskip, if_neg hclose, hset]

/-- **A tuning comes within a fiftieth of the profile, touches no other scope, and says whether it
changed anything; done again it changes nothing.** -/
theorem tuning_settles (ln : ℚ → ℚ) (es : List TuningEvent) (scope : NetworkScope) (hour : Nat) :
    ((tuningAfter ln es).skips scope = false →
        (((tuningAfter ln es).autoTune scope hour).1.weights scope).maxDiff
          ((tuningAfter ln es).target scope hour) < 2 / 100) ∧
      (∀ other ≠ scope, ((tuningAfter ln es).autoTune scope hour).1.weights other =
        (tuningAfter ln es).weights other) ∧
      (((tuningAfter ln es).autoTune scope hour).2 = true ↔
        ((tuningAfter ln es).autoTune scope hour).1.weights scope ≠
          (tuningAfter ln es).weights scope) ∧
      (((tuningAfter ln es).autoTune scope hour).1.autoTune scope hour) =
        (((tuningAfter ln es).autoTune scope hour).1, false) := by
  generalize tuningAfter ln es = s
  rcases s.autoTune_cases scope hour with ⟨heq, hwhy⟩ | ⟨heq, hskip, hfar⟩
  · rw [heq]
    refine ⟨fun hskip => ?_, fun other _ => rfl, by simp, heq⟩
    rcases hwhy with hwhy | hclose
    · rw [hwhy] at hskip
      cases hskip
    · exact hclose
  · rw [heq]
    have hnew : (Function.update s.weights scope (s.target scope hour)) scope =
        s.target scope hour := Function.update_self ..
    refine ⟨fun _ => ?_, fun other hne => ?_, ?_, ?_⟩
    · simp only [hnew, WeightConfig.maxDiff_self]
      norm_num
    · exact Function.update_of_ne hne _ _
    · simp only [hnew, true_iff]
      intro hsame
      rw [← hsame, WeightConfig.maxDiff_self] at hfar
      norm_num at hfar
    · -- the profile is that of the same upstreams
      have hcases := Tuning.autoTune_cases
        { s with weights := Function.update s.weights scope (s.target scope hour) } scope hour
      rcases hcases with ⟨hagain, -⟩ | ⟨-, -, hfar'⟩
      · exact hagain
      · refine absurd ?_ hfar'
        have htarget : Tuning.target
            { s with weights := Function.update s.weights scope (s.target scope hour) } scope hour =
              s.target scope hour := rfl
        simp only [hnew, htarget, WeightConfig.maxDiff_self]
        norm_num

/-! ## Scores -/

section
variable {ln : ℚ → ℚ} {w : WeightConfig} {bound : ℚ}

theorem rttScore_range (ln : ℚ → ℚ) (rtt : Nat) : 0 ≤ rttScore ln rtt ∧ rttScore ln rtt ≤ 1000 := by
  unfold rttScore
  split_ifs
  · norm_num
  · norm_num
  · refine ⟨le_min (le_max_of_le_right (by norm_num)) (by norm_num), min_le_right _ _⟩

theorem jitterScore_range (jitter : Nat) : 0 ≤ jitterScore jitter ∧ jitterScore jitter ≤ 1000 := by
  have hcut : 0 ≤ min (jitter : ℚ) 100 := le_min (Nat.cast_nonneg _) (by norm_num)
  unfold jitterScore
  exact ⟨le_max_right _ _, max_le (by linarith) (by norm_num)⟩

theorem getSuccessRate_range (m : ScoredMetrics) :
    0 ≤ m.getSuccessRate ∧ m.getSuccessRate ≤ 1 := by
  unfold ScoredMetrics.getSuccessRate
  split
  · norm_num
  · have hle : (m.successCount : ℚ) ≤ ((m.successCount + m.failureCount : Nat) : ℚ) := by
      exact_mod_cast Nat.le_add_right _ _
    exact ⟨by positivity, div_le_one_of_le₀ hle (by positivity)⟩

/-- Each component is at most 1000, so the sum is at most 1000 times the weights. -/
theorem composite_range (ln : ℚ → ℚ) (m : ScoredMetrics) (hw : w.Within bound) :
    0 ≤ m.composite ln w ∧ m.composite ln w ≤ 1000 * bound := by
  obtain ⟨hrtt0, hrtt⟩ := rttScore_range ln m.avgRttMs
  obtain ⟨hjit0, hjit⟩ := jitterScore_range m.jitterMs
  obtain ⟨hrate0, hrate⟩ := getSuccessRate_range m
  have hsucc0 : 0 ≤ successScore m.getSuccessRate := by unfold successScore; linarith
  have hsucc : successScore m.getSuccessRate ≤ 1000 := by unfold successScore; linarith
  have hlatency := mul_le_mul_of_nonneg_right hrtt hw.latency
  have hjitter := mul_le_mul_of_nonneg_right hjit hw.jitter
  have hsuccess := mul_le_mul_of_nonneg_right hsucc hw.success
  have hsum := hw.sum
  unfold WeightConfig.sum at hsum
  unfold ScoredMetrics.composite
  rw [pktlossScore_eq]
  have h1 := mul_nonneg hrtt0 hw.latency
  have h2 := mul_nonneg hjit0 hw.jitter
  have h3 := mul_nonneg hsucc0 hw.success
  have h4 := hw.pktloss
  constructor <;> linarith

theorem toU64_le {x : ℚ} (h : 0 ≤ x) : (toU64 x : ℚ) ≤ x := by
  have hfloor : ((⌊x⌋₊ : Nat) : ℚ) ≤ x := Nat.floor_le h
  have hcut : toU64 x ≤ ⌊x⌋₊ := min_le_left _ _
  exact le_trans (by exact_mod_cast hcut) hfloor

/-- The score is bounded by the weights, a tenth of that for an unhealthy upstream. -/
structure Bounded (bound : ℚ) (m : ScoredMetrics) : Prop where
  score : (m.score : ℚ) ≤ 1000 * bound
  unhealthy : m.healthy = false → (m.score : ℚ) ≤ 100 * bound

theorem bounded_updateScore (hw : w.Within bound) (m : ScoredMetrics) :
    Bounded bound (m.updateScore ln w) := by
  obtain ⟨hpos, hle⟩ := composite_range ln m hw
  have hhealthy : (m.updateScore ln w).healthy = m.healthy := rfl
  have hscore : (m.updateScore ln w).score = toU64 (m.finalScore ln w) := rfl
  cases hm : m.healthy with
  | true =>
    have hfinal : m.finalScore ln w = m.composite ln w := by simp [ScoredMetrics.finalScore, hm]
    rw [hfinal] at hscore
    refine ⟨?_, fun hsick => ?_⟩
    · rw [hscore]
      exact (toU64_le hpos).trans hle
    · rw [hhealthy, hm] at hsick
      cases hsick
  | false =>
    have hfinal : m.finalScore ln w = m.composite ln w * (1 / 10) := by
      simp [ScoredMetrics.finalScore, hm]
    rw [hfinal] at hscore
    have hcut := toU64_le (x := m.composite ln w * (1 / 10)) (by linarith)
    rw [← hscore] at hcut
    exact ⟨by linarith, fun _ => by linarith⟩

theorem bounded_recordProbe {weights : NetworkScope → WeightConfig}
    (hw : ∀ scope, (weights scope).Within bound) (m : ScoredMetrics) (p : ProbeResult) :
    Bounded bound (m.recordProbe ln weights p) := by
  unfold ScoredMetrics.recordProbe
  exact bounded_updateScore (hw _) _

end

/-- The weights in force are within a bound, and so are the scores. -/
structure Tuning.Bounded (bound : ℚ) (s : Tuning) : Prop where
  weights : ∀ scope, (s.weights scope).Within bound
  scores : ∀ m ∈ s.upstreams, Autopilot.Bounded bound m

theorem default_within {bound : ℚ} (hbound : 1 ≤ bound) : WeightConfig.default.Within bound := by
  refine ⟨?_, ?_, ?_, ?_, ?_⟩ <;> norm_num [WeightConfig.default, WeightConfig.sum]
  exact hbound

theorem WeightConfig.Within.mono {bound bound' : ℚ} {w : WeightConfig} (h : w.Within bound)
    (hle : bound ≤ bound') : w.Within bound' :=
  ⟨h.latency, h.jitter, h.success, h.pktloss, h.sum.trans hle⟩

/-- Weights that are accepted are set, others change nothing. -/
theorem Tuning.custom_cases (s : Tuning) (scope : NetworkScope) (config : WeightConfig) :
    s.custom scope config = s ∨ config.isValid = true ∧
      s.custom scope config = { s with weights := Function.update s.weights scope config } := by
  unfold Tuning.custom Tuning.setWeights
  by_cases hvalid : config.isValid = true
  · exact .inr ⟨hvalid, by rw [if_pos hvalid]⟩
  · exact .inl (by rw [if_neg hvalid])

theorem Tuning.register_cases (s : Tuning) (label : String) (now : Nat) :
    s.register label now = s ∨
      s.register label now = { s with upstreams := s.upstreams ++ [.new label now] } := by
  unfold Tuning.register
  by_cases hknown : s.upstreams.any (·.label == label) = true
  · exact .inl (if_pos hknown)
  · exact .inr (if_neg hknown)

/-- What an event does to the weights: nothing, or it sets those of one scope, to a profile or to
what a caller gives. -/
theorem Tuning.step_weights (ln : ℚ → ℚ) (s : Tuning) (e : TuningEvent) :
    (s.step ln e).weights = s.weights ∨
      ∃ scope w, (s.step ln e).weights = Function.update s.weights scope w ∧ w.isValid = true ∧
        ((∃ network hour, w = buildDynamicWeights network hour) ∨ e = .custom scope w) := by
  cases e with
  | register label now =>
    have hstep : s.step ln (.register label now) = s.register label now := rfl
    rcases s.register_cases label now with heq | heq
    · exact .inl (by rw [hstep, heq])
    · exact .inl (by rw [hstep, heq])
  | probe label p => exact .inl rfl
  | tune scope hour =>
    rcases s.autoTune_cases scope hour with ⟨heq, -⟩ | ⟨heq, -⟩
    · exact .inl (congrArg (·.1.weights) heq)
    · exact .inr ⟨scope, s.target scope hour, congrArg (·.1.weights) heq,
        buildDynamicWeights_isValid _ _, .inl ⟨_, _, rfl⟩⟩
  | custom scope config =>
    rcases s.custom_cases scope config with heq | ⟨hvalid, heq⟩
    · exact .inl (congrArg Tuning.weights heq)
    · exact .inr ⟨scope, config, congrArg Tuning.weights heq, hvalid, .inr rfl⟩

/-- What an event does to the upstreams: each is one there was, a new one, or one that was probed
with the weights in force. -/
theorem Tuning.step_upstreams (ln : ℚ → ℚ) (s : Tuning) (e : TuningEvent) {m : ScoredMetrics}
    (hm : m ∈ (s.step ln e).upstreams) :
    m ∈ s.upstreams ∨ (∃ label now, m = .new label now) ∨
      ∃ m' ∈ s.upstreams, ∃ p, m = m'.recordProbe ln s.weights p := by
  cases e with
  | register label now =>
    have hstep : s.step ln (.register label now) = s.register label now := rfl
    rcases s.register_cases label now with heq | heq
    · rw [hstep, heq] at hm
      exact .inl hm
    · rw [hstep, heq] at hm
      rcases List.mem_append.mp hm with hm | hm
      · exact .inl hm
      · exact .inr (.inl ⟨label, now, List.mem_singleton.mp hm⟩)
  | probe label p =>
    obtain ⟨m', hm', rfl⟩ := List.mem_map.mp hm
    split
    · exact .inr (.inr ⟨m', hm', p, rfl⟩)
    · exact .inl hm'
  | tune scope hour =>
    rcases s.autoTune_cases scope hour with ⟨heq, -⟩ | ⟨heq, -⟩
    · exact .inl (congrArg (·.1.upstreams) heq ▸ hm)
    · exact .inl (congrArg (·.1.upstreams) heq ▸ hm)
  | custom scope config =>
    rcases s.custom_cases scope config with heq | ⟨-, heq⟩
    · exact .inl (congrArg Tuning.upstreams heq ▸ hm)
    · exact .inl (congrArg Tuning.upstreams heq ▸ hm)

theorem bounded_new {bound : ℚ} (hbound : 1 ≤ bound) (label : String) (now : Nat) :
    Bounded bound (.new label now) := by
  have hscore : (ScoredMetrics.new label now).score = 1000 := rfl
  have hhealthy : (ScoredMetrics.new label now).healthy = true := rfl
  refine ⟨?_, fun hsick => ?_⟩
  · rw [hscore]
    push_cast
    linarith
  · rw [hhealthy] at hsick
    exact absurd hsick (by simp)

/-- A custom configuration that is accepted stays within the bound. -/
def TuningEvent.Allowed (bound : ℚ) : TuningEvent → Prop
  | .custom _ config => config.isValid = true → config.Within bound
  | _ => True

theorem Tuning.Bounded.step {ln : ℚ → ℚ} {bound : ℚ} (hbound : 1 ≤ bound) {s : Tuning}
    (h : s.Bounded bound) {e : TuningEvent} (he : e.Allowed bound) :
    (s.step ln e).Bounded bound where
  weights other := by
    rcases s.step_weights ln e with heq | ⟨scope, w, heq, hvalid, hwhence⟩
    · rw [heq]
      exact h.weights other
    · rw [heq, Function.update_apply]
      split
      · rcases hwhence with ⟨network, hour, rfl⟩ | rfl
        · exact (buildDynamicWeights_balanced network hour).1.mono hbound
        · exact he hvalid
      · exact h.weights other
  scores m hm := by
    rcases s.step_upstreams ln e hm with hold | ⟨label, now, rfl⟩ | ⟨m', hm', p, rfl⟩
    · exact h.scores m hold
    · exact bounded_new hbound label now
    · exact bounded_recordProbe h.weights m' p

theorem bounded_init {bound : ℚ} (hbound : 1 ≤ bound) : Tuning.init.Bounded bound where
  weights _ := default_within hbound
  scores m hm := by simp [Tuning.init] at hm

theorem valid_init (scope : NetworkScope) : (Tuning.init.weights scope).isValid = true :=
  default_isValid

theorem valid_step (ln : ℚ → ℚ) (s : Tuning) (e : TuningEvent)
    (h : ∀ scope, (s.weights scope).isValid = true) (other : NetworkScope) :
    ((s.step ln e).weights other).isValid = true := by
  rcases s.step_weights ln e with heq | ⟨scope, w, heq, hvalid, -⟩
  · rw [heq]
    exact h other
  · rw [heq, Function.update_apply]
    split
    · exact hvalid
    · exact h other

/-- **Over every run, a score is at most 1000 times what the weights add up to, and a tenth of that
for an unhealthy upstream**: 1000 where the weights are tuned only, and `bound` times as much where
the custom weights that are accepted are not negative and add up to no more than that.  The weights
in force always pass the check of `set_weights`. -/
theorem scores_bounded (ln : ℚ → ℚ) (es : List TuningEvent) :
    (∀ scope, ((tuningAfter ln es).weights scope).isValid = true) ∧
      ∀ bound ≥ 1, (∀ e ∈ es, e.Allowed bound) →
        ∀ m ∈ (tuningAfter ln es).upstreams,
          (m.score : ℚ) ≤ 1000 * bound ∧ (m.healthy = false → (m.score : ℚ) ≤ 100 * bound) := by
  constructor
  · have hstep : ∀ (s : Tuning) (e : TuningEvent), (∀ scope, (s.weights scope).isValid = true) →
        ∀ scope, ((s.step ln e).weights scope).isValid = true := valid_step ln
    have hrun := invariant_run hstep valid_init es
    exact hrun
  · intro bound hbound hes m hm
    have hstep : ∀ (s : Tuning) (e : TuningEvent), s.Bounded bound → e.Allowed bound →
        (s.step ln e).Bounded bound := fun s e h he => h.step hbound he
    have hrun := invariant hstep (bounded_init hbound) (meets_of_forall hes)
    have hlast := hrun.scores m hm
    exact ⟨hlast.score, hlast.unhealthy⟩

/-! ## The upstreams asked -/

/-- The level is that of the averages, no upstreams included. -/
theorem calculate_congestionLevel (scope : NetworkScope) (all : List ScoredMetrics) :
    (NetworkCondition.calculate scope all).congestionLevel =
      assessCongestion (NetworkCondition.calculate scope all).avgJitterMs
        (NetworkCondition.calculate scope all).avgLossRate := by
  unfold NetworkCondition.calculate
  by_cases hempty : (scopedMetrics scope all).isEmpty = true
  · simp only [hempty, if_true]
    norm_num [assessCongestion]
  · simp only [hempty]
    rfl

/-- More jitter and more loss do not lower the level. -/
theorem assessCongestion_mono {jitter jitter' loss loss' : ℚ} (hj : jitter ≤ jitter')
    (hl : loss ≤ loss') : assessCongestion jitter loss ≤ assessCongestion jitter' loss' := by
  have hstay : ∀ a b : ℚ, jitter' < a ∧ loss' < b → jitter < a ∧ loss < b :=
    fun a b h => ⟨lt_of_le_of_lt hj h.1, lt_of_le_of_lt hl h.2⟩
  have h5 := hstay 5 (1 / 100)
  have h10 := hstay 10 (2 / 100)
  have h15 := hstay 15 (5 / 100)
  have h25 := hstay 25 (8 / 100)
  have h35 := hstay 35 (12 / 100)
  -- a level that the worse network still has, the better one has
  unfold assessCongestion
  split_ifs <;> first
    | omega
    | exact absurd (h5 ‹_›) ‹_›
    | exact absurd (h10 ‹_›) ‹_›
    | exact absurd (h15 ‹_›) ‹_›
    | exact absurd (h25 ‹_›) ‹_›
    | exact absurd (h35 ‹_›) ‹_›

/-- Of the upstreams there are, no fewer are asked at a higher level. -/
theorem concurrency_mono (f : ForwardPlugin) (env : ForwardEnv) {level level' : Nat}
    (h : level ≤ level') :
    min (f.concurrency { env with congestionLevel := level }) f.upstreams.length ≤
      min (f.concurrency { env with congestionLevel := level' }) f.upstreams.length := by
  unfold ForwardPlugin.concurrency
  dsimp only
  split_ifs <;> omega

theorem finalConcurrency_mono (f : ForwardPlugin) (env : ForwardEnv) (hasDomain : Bool)
    {level level' : Nat} (h : level ≤ level') :
    min (f.finalConcurrency { env with congestionLevel := level } hasDomain) f.upstreams.length ≤
      min (f.finalConcurrency { env with congestionLevel := level' } hasDomain)
        f.upstreams.length := by
  have hmono := concurrency_mono f env h
  unfold ForwardPlugin.finalConcurrency
  dsimp only
  split_ifs <;> omega

/-- The upstreams found for a list of labels have the labels of a part of it. -/
theorem labels_sublist (f : ForwardPlugin) (labels : List String) :
    ((labels.filterMap f.upstreamByLabel).map (·.label)).Sublist labels := by
  induction labels with
  | nil => exact List.Sublist.refl _
  | cons label labels ih =>
    cases hfound : f.upstreamByLabel label with
    | none =>
      rw [List.filterMap_cons_none hfound]
      exact ih.cons _
    | some u =>
      have hlabel : u.label = label := (ForwardPlugin.upstreamByLabel_some hfound).2
      rw [List.filterMap_cons_some hfound, List.map_cons, hlabel]
      exact ih.cons_cons _

/-- Each upstream is found once. -/
theorem found_length_le (f : ForwardPlugin) {labels : List String} (h : labels.Nodup)
    (keep : Upstream → Bool) :
    ((labels.filterMap f.upstreamByLabel).filter keep).length ≤ f.upstreams.length := by
  have hnodup : (labels.filterMap f.upstreamByLabel).Nodup :=
    List.Nodup.of_map _ (h.sublist (labels_sublist f labels))
  have hsub : labels.filterMap f.upstreamByLabel ⊆ f.upstreams := by
    intro u hu
    obtain ⟨label, -, hfound⟩ := List.mem_filterMap.mp hu
    exact (ForwardPlugin.upstreamByLabel_some hfound).1
  have hle := (List.subperm_of_subset hnodup hsub).length_le
  exact (List.length_filter_le _ _).trans hle

/-- The upstreams that pass the checks, best first, before they are cut off. -/
def candidates (f : ForwardPlugin) (env : ForwardEnv) : List Upstream :=
  (env.ranked.filterMap f.upstreamByLabel).filter fun u =>
    ForwardPlugin.proxyAllows env u && !env.degrading u.label

theorem take_prefix_of_min {α : Type} {l : List α} {n m total : Nat} (hlen : l.length ≤ total)
    (h : min n total ≤ min m total) : l.take n <+: l.take m := by
  have hcut : l.take n = l.take (min n total) := by
    rw [List.take_eq_take_iff]
    omega
  rw [hcut]
  exact List.take_prefix_take_left (by omega)

/-- **A worse network is asked in the same order, and no fewer upstreams of it**, when both its
average jitter and its average loss are no lower. -/
theorem worse_asks_more (f : ForwardPlugin) (env : ForwardEnv) (hasDomain : Bool)
    (scope : NetworkScope) (all all' : List ScoredMetrics) (hranked : env.ranked.Nodup)
    (hjitter : (NetworkCondition.calculate scope all).avgJitterMs ≤
      (NetworkCondition.calculate scope all').avgJitterMs)
    (hloss : (NetworkCondition.calculate scope all).avgLossRate ≤
      (NetworkCondition.calculate scope all').avgLossRate) :
    f.available { env with
        congestionLevel := (NetworkCondition.calculate scope all).congestionLevel } hasDomain <+:
      f.available { env with
        congestionLevel := (NetworkCondition.calculate scope all').congestionLevel } hasDomain := by
  have hlevel : (NetworkCondition.calculate scope all).congestionLevel ≤
      (NetworkCondition.calculate scope all').congestionLevel := by
    rw [calculate_congestionLevel, calculate_congestionLevel]
    exact assessCongestion_mono hjitter hloss
  generalize (NetworkCondition.calculate scope all).congestionLevel = level at hlevel ⊢
  generalize (NetworkCondition.calculate scope all').congestionLevel = level' at hlevel ⊢
  have hmono := finalConcurrency_mono f env hasDomain hlevel
  have hlen : (candidates f env).length ≤ f.upstreams.length := found_length_le f hranked _
  have heq : ∀ level, f.available { env with congestionLevel := level } hasDomain =
      (candidates f env).take
        (f.finalConcurrency { env with congestionLevel := level } hasDomain) := fun _ => rfl
  rw [heq, heq]
  exact take_prefix_of_min hlen hmono

/-- Two upstreams, with the jitter of each. -/
def jitters (first second : Nat) : List ScoredMetrics :=
  [{ ScoredMetrics.new "udp://192.0.2.1:53" 0 with jitterMs := first },
    { ScoredMetrics.new "udp://192.0.2.2:53" 0 with jitterMs := second }]

theorem jitters_calculate (first second : Nat) :
    (NetworkCondition.calculate .global (jitters first second)).avgJitterMs =
        ((first : ℚ) + second) / 2 ∧
      (NetworkCondition.calculate .global (jitters first second)).avgLossRate = 0 := by
  constructor
  · norm_num [NetworkCondition.calculate, scopedMetrics, jitters]
  · norm_num [NetworkCondition.calculate, scopedMetrics, jitters, ScoredMetrics.getPacketLossRate,
      ScoredMetrics.new]

open ForwardPlugin in
/-- Two calm upstreams, of which one is asked, against two with much jitter, which are both
asked. -/
theorem worse_asks_more_jitter :
    (available twoUpstreams { firstFails with
        congestionLevel :=
          (NetworkCondition.calculate .global (jitters 2 4)).congestionLevel } true).length = 1 ∧
      (available twoUpstreams { firstFails with
        congestionLevel :=
          (NetworkCondition.calculate .global (jitters 30 60)).congestionLevel } true).length = 2 ∧
      available twoUpstreams { firstFails with
          congestionLevel :=
            (NetworkCondition.calculate .global (jitters 2 4)).congestionLevel } true <+:
        available twoUpstreams { firstFails with
          congestionLevel :=
            (NetworkCondition.calculate .global (jitters 30 60)).congestionLevel } true := by
  obtain ⟨hcalm, hcalm'⟩ := jitters_calculate 2 4
  obtain ⟨hmuch, hmuch'⟩ := jitters_calculate 30 60
  refine ⟨?_, ?_, ?_⟩
  · have hlevel : (NetworkCondition.calculate .global (jitters 2 4)).congestionLevel = 0 := by
      rw [calculate_congestionLevel, hcalm, hcalm']
      norm_num [assessCongestion]
    rw [hlevel]
    decide +kernel
  · have hlevel : (NetworkCondition.calculate .global (jitters 30 60)).congestionLevel = 10 := by
      rw [calculate_congestionLevel, hmuch, hmuch']
      norm_num [assessCongestion]
    rw [hlevel]
    decide +kernel
  · refine worse_asks_more twoUpstreams firstFails true .global (jitters 2 4) (jitters 30 60)
      (by decide) ?_ ?_
    · rw [hcalm, hmuch]
      norm_num
    · rw [hcalm', hmuch']

end TitanDns.Autopilot
