import TitanDns.Autopilot.Metrics

/-!
# The circuit breaker over a history

The outcomes recorded for one upstream, each with the time since the one before.

* `Opened` — the two events that open the breaker: the failure that reaches the threshold, and the
  failure of an attempt made after the cooldown.
* `Reopens` — after either, the upstream is unavailable for a full cooldown, unless a success
  closes the breaker; `StaysOpen` — it is so whatever is recorded.

Principal result: `reopens_iff` — **the first holds exactly when no failure is recorded of an
unhealthy upstream whose cooldown has passed**, which would not renew `last_unhealthy`, **the second
when no success comes before that either.**
-/

namespace TitanDns.Autopilot

open Run UpstreamMetrics

/-- An outcome, the given time after the one before; a failure has no latency. -/
structure Recorded where
  after : Nat
  latency : Option Nat
  deriving DecidableEq

/-- The statistics of an upstream, and the time of the newest outcome. -/
structure Clocked where
  now : Nat
  metrics : UpstreamMetrics

def Clocked.step (s : Clocked) (e : Recorded) : Clocked :=
  ⟨s.now + e.after, s.metrics.recordProbe (s.now + e.after) e.latency⟩

def Clocked.init (label : String) : Clocked := ⟨0, .new label 0⟩

/-- A failure recorded at `now` opens the breaker: it trips it, or it is that of an attempt made
when the cooldown had passed. -/
def Opened (m : UpstreamMetrics) (now : Nat) : Prop :=
  (m.healthy = true ∧ failureThresholdForLabel m.label ≤ m.consecutiveFailures + 1) ∨
    (m.healthy = false ∧ m.isAvailable now = true)

/-- Whenever a failure opens the breaker, and until a success closes it, the upstream is
unavailable for a full cooldown counted from that failure. -/
def Reopens (label : String) (es : List Recorded) : Prop :=
  ∀ before d failures rest, es = before ++ ⟨d, none⟩ :: (failures ++ rest) →
    Opened (run Clocked.step (.init label) before).metrics
      ((run Clocked.step (.init label) before).now + d) →
    (∀ e ∈ failures, e.latency = none) →
    ∀ t, (run Clocked.step (.init label) (before ++ ⟨d, none⟩ :: failures)).now ≤ t →
      t ≤ (run Clocked.step (.init label) before).now + d + recoveryCooldownForLabel label →
      (run Clocked.step (.init label) (before ++ ⟨d, none⟩ :: failures)).metrics.isAvailable t =
        false

/-- Whenever a failure opens the breaker, and whatever is recorded then, the upstream is unavailable
for a full cooldown counted from that failure. -/
def StaysOpen (label : String) (es : List Recorded) : Prop :=
  ∀ before d later rest, es = before ++ ⟨d, none⟩ :: (later ++ rest) →
    Opened (run Clocked.step (.init label) before).metrics
      ((run Clocked.step (.init label) before).now + d) →
    ∀ t, (run Clocked.step (.init label) (before ++ ⟨d, none⟩ :: later)).now ≤ t →
      t ≤ (run Clocked.step (.init label) before).now + d + recoveryCooldownForLabel label →
      (run Clocked.step (.init label) (before ++ ⟨d, none⟩ :: later)).metrics.isAvailable t = false

/-- No failure of an unhealthy upstream once its cooldown has passed. -/
def RetrySucceeds (s : Clocked) (e : Recorded) : Prop :=
  e.latency = none → s.metrics.healthy = false → s.metrics.isAvailable (s.now + e.after) = false

/-- No success of an unhealthy upstream until its cooldown has passed. -/
def NoEarlySuccess (s : Clocked) (e : Recorded) : Prop :=
  e.latency.isSome = true → s.metrics.healthy = false →
    s.metrics.isAvailable (s.now + e.after) = true

theorem run_label (s : Clocked) (es : List Recorded) :
    (run Clocked.step s es).metrics.label = s.metrics.label := by
  induction es generalizing s with
  | nil => rfl
  | cons e es ih =>
    rw [run_cons, ih]
    exact recordProbe_label _ _ _

/-- Failures leave an open breaker as it is. -/
theorem run_failures {s : Clocked} {opened : Nat} (h : s.metrics.healthy = false)
    (hopened : s.metrics.lastUnhealthy = some opened) {es : List Recorded}
    (hes : ∀ e ∈ es, e.latency = none) :
    (run Clocked.step s es).metrics.healthy = false ∧
      (run Clocked.step s es).metrics.lastUnhealthy = some opened := by
  induction es generalizing s with
  | nil => exact ⟨h, hopened⟩
  | cons e es ih =>
    obtain ⟨after, latency⟩ := e
    obtain rfl : latency = none := hes _ List.mem_cons_self
    have hstep := recordFail_unhealthy h (s.now + after)
    rw [run_cons]
    exact ih hstep.1 (hstep.2.trans hopened) fun e he => hes e (List.mem_cons_of_mem _ he)

theorem reopens_iff_retrySucceeds (label : String) (es : List Recorded) :
    Reopens label es ↔ Meets Clocked.step RetrySucceeds (.init label) es := by
  constructor
  · intro h
    apply meets_of_cuts
    rintro before ⟨d, latency⟩ rest heq rfl hhealthy
    show _ = false
    by_contra hlate
    have hlate : (run Clocked.step (.init label) before).metrics.isAvailable
        ((run Clocked.step (.init label) before).now + d) = true := by simpa using hlate
    have hfail := recordFail_unhealthy hhealthy ((run Clocked.step (.init label) before).now + d)
    have hnow := h before d [] rest heq (Or.inr ⟨hhealthy, hlate⟩) (fun e he => (by cases he))
      ((run Clocked.step (.init label) before).now + d)
      (by rw [run_append]; exact Nat.le_refl _) (by omega)
    -- the failure leaves the time the breaker opened, so the upstream is still available
    rw [run_append] at hnow
    have hsame : ((run Clocked.step (.init label) before).metrics.recordFail
        ((run Clocked.step (.init label) before).now + d)).isAvailable
          ((run Clocked.step (.init label) before).now + d) = true := by
      unfold isAvailable at hlate ⊢
      rw [hfail.1, hfail.2, recordFail_label]
      rw [hhealthy] at hlate
      exact hlate
    have hfalse : ((run Clocked.step (.init label) before).metrics.recordFail
        ((run Clocked.step (.init label) before).now + d)).isAvailable
          ((run Clocked.step (.init label) before).now + d) = false := hnow
    rw [hsame] at hfalse
    cases hfalse
  · intro hmeets before d failures rest heq hopened hfailures t hnow ht
    rw [heq] at hmeets
    have hok := hmeets.at_cut
    have hlabel : (run Clocked.step (.init label) before).metrics.label = label := run_label _ _
    rw [run_append] at hnow ⊢
    rcases hopened with ⟨hhealthy, hthr⟩ | ⟨hhealthy, hlate⟩
    · have htrip := recordFail_trips hhealthy hthr ((run Clocked.step (.init label) before).now + d)
      have hrun := @run_failures (Clocked.step (run Clocked.step (.init label) before) ⟨d, none⟩) _
        htrip.1 htrip.2 failures hfailures
      rw [run_cons, isAvailable_unhealthy hrun.1 hrun.2, run_label]
      have hlabel' : (Clocked.step (run Clocked.step (.init label) before)
          ⟨d, none⟩).metrics.label = label := (recordProbe_label _ _ _).trans hlabel
      rw [hlabel', decide_eq_false_iff_not]
      omega
    · rw [hok rfl hhealthy] at hlate
      cases hlate

/-! ## Whatever is recorded -/

theorem run_now_le (s : Clocked) (es : List Recorded) : s.now ≤ (run Clocked.step s es).now := by
  induction es generalizing s with
  | nil => exact Nat.le_refl _
  | cons e es ih => exact Nat.le_trans (Nat.le_add_right _ _) (ih (s.step e))

/-- An unhealthy upstream was tripped by a failure, at the time it keeps. -/
theorem opened_at {label : String} {es : List Recorded}
    (h : (run Clocked.step (.init label) es).metrics.healthy = false) :
    ∃ before d later, es = before ++ ⟨d, none⟩ :: later ∧
      Opened (run Clocked.step (.init label) before).metrics
        ((run Clocked.step (.init label) before).now + d) ∧
      (run Clocked.step (.init label) es).metrics.lastUnhealthy =
        some ((run Clocked.step (.init label) before).now + d) := by
  induction es using List.reverseRecOn with
  | nil => cases h
  | append_singleton es e ih =>
    obtain ⟨d, latency⟩ := e
    rw [run_append] at h ⊢
    generalize hs : run Clocked.step (.init label) es = s at h ih ⊢
    cases latency with
    | some latency => cases h
    | none =>
      have h : (s.metrics.recordFail (s.now + d)).healthy = false := h
      cases hhealthy : s.metrics.healthy with
      | false =>
        obtain ⟨before, d', later, heq, hopened, hlast⟩ := ih hhealthy
        refine ⟨before, d', later ++ [⟨d, none⟩], ?_, hopened, ?_⟩
        · rw [heq, List.append_assoc]
          rfl
        · exact (recordFail_unhealthy hhealthy _).2.trans hlast
      | true =>
        by_cases hthr : failureThresholdForLabel s.metrics.label ≤
            s.metrics.consecutiveFailures + 1
        · refine ⟨es, d, [], rfl, ?_, ?_⟩
          · rw [hs]
            exact Or.inl ⟨hhealthy, hthr⟩
          · rw [hs]
            exact (recordFail_trips hhealthy hthr _).2
        · unfold recordFail at h
          rw [if_neg hthr] at h
          rw [show s.metrics.healthy = false from h] at hhealthy
          cases hhealthy

/-- With no success before the cooldown has passed, an open breaker is left as it is until then. -/
theorem run_open {s : Clocked} {opened : Nat} (h : s.metrics.healthy = false)
    (hopened : s.metrics.lastUnhealthy = some opened) {es : List Recorded}
    (hes : Meets Clocked.step NoEarlySuccess s es)
    (hend : (run Clocked.step s es).now ≤ opened + recoveryCooldownForLabel s.metrics.label) :
    (run Clocked.step s es).metrics.healthy = false ∧
      (run Clocked.step s es).metrics.lastUnhealthy = some opened := by
  induction es generalizing s with
  | nil => exact ⟨h, hopened⟩
  | cons e es ih =>
    obtain ⟨after, latency⟩ := e
    cases latency with
    | none =>
      have hstep := recordFail_unhealthy h (s.now + after)
      have hlabel : (s.step ⟨after, none⟩).metrics.label = s.metrics.label :=
        recordProbe_label _ _ _
      exact ih hstep.1 (hstep.2.trans hopened) hes.2 (by rw [hlabel]; exact hend)
    | some latency =>
      have hlate := hes.1 rfl h
      have hnow : s.now + after ≤ opened + recoveryCooldownForLabel s.metrics.label :=
        Nat.le_trans (run_now_le (s.step ⟨after, some latency⟩) es) hend
      rw [isAvailable_unhealthy h hopened, decide_eq_true_eq] at hlate
      simp only at hlate
      omega

theorem staysOpen_iff (label : String) (es : List Recorded) :
    StaysOpen label es ↔
      Meets Clocked.step (fun s e => RetrySucceeds s e ∧ NoEarlySuccess s e) (.init label) es := by
  constructor
  · intro h
    have hretry := (reopens_iff_retrySucceeds label es).mp
      fun before d failures rest heq hopened _ => h before d failures rest heq hopened
    apply meets_of_cuts
    rintro before ⟨after, latency⟩ rest rfl
    refine ⟨hretry.at_cut, fun hsome hhealthy => ?_⟩
    by_contra hearly
    obtain ⟨latency, rfl⟩ := Option.isSome_iff_exists.mp hsome
    obtain ⟨start, d, later, rfl, hopened, hlast⟩ := opened_at hhealthy
    -- the success that comes too early makes the upstream available
    have hshut := h start d (later ++ [⟨after, some latency⟩]) rest (by simp) hopened
    rw [← List.cons_append, ← List.append_assoc, run_append] at hshut
    rw [isAvailable_unhealthy hhealthy hlast, run_label, decide_eq_true_eq] at hearly
    have hclosed := hshut _ (Nat.le_refl _) (by
      show (run Clocked.step (.init label) (start ++ ⟨d, none⟩ :: later)).now + after ≤ _
      have hlabel : (Clocked.init label).metrics.label = label := rfl
      rw [hlabel] at hearly
      simp only at hearly
      omega)
    cases hclosed
  · intro hmeets before d later rest heq hopened t hnow ht
    rw [heq] at hmeets
    have hretry := hmeets.at_cut.1
    have hlater : Meets Clocked.step NoEarlySuccess
        ((run Clocked.step (.init label) before).step ⟨d, none⟩) later :=
      hmeets.of_append_right.2.of_append_left.mono fun _ _ hok => hok.2
    have hlabel : (run Clocked.step (.init label) before).metrics.label = label := run_label _ _
    rw [run_append] at hnow ⊢
    rcases hopened with ⟨hhealthy, hthr⟩ | ⟨hhealthy, hlate⟩
    · have htrip := recordFail_trips hhealthy hthr ((run Clocked.step (.init label) before).now + d)
      have hlabel' : ((run Clocked.step (.init label) before).step ⟨d, none⟩).metrics.label =
          label := (recordProbe_label _ _ _).trans hlabel
      have hrun := run_open htrip.1 htrip.2 hlater (by
        rw [hlabel']
        exact Nat.le_trans hnow ht)
      rw [run_cons, isAvailable_unhealthy hrun.1 hrun.2, run_label, hlabel',
        decide_eq_false_iff_not]
      omega
    · rw [hretry rfl hhealthy] at hlate
      cases hlate

/-- **The breaker re-opens exactly when no failure is recorded of an unhealthy upstream whose
cooldown has passed**; if a success is not to close it either, exactly when none is recorded before
that. -/
theorem reopens_iff (label : String) (es : List Recorded) :
    (Reopens label es ↔ Meets Clocked.step RetrySucceeds (.init label) es) ∧
    (StaysOpen label es ↔
      Meets Clocked.step (fun s e => RetrySucceeds s e ∧ NoEarlySuccess s e) (.init label) es) :=
  ⟨reopens_iff_retrySucceeds label es, staysOpen_iff label es⟩

/-- Three failures, and one more when the cooldown has passed: available at once. -/
theorem retry_failed_still_available : ¬ ∀ label es, Reopens label es := by
  intro h
  have hopen := h "udp://192.0.2.1:53"
    [⟨1, none⟩, ⟨1, none⟩, ⟨1, none⟩, ⟨31 * SECOND, none⟩]
    [⟨1, none⟩, ⟨1, none⟩, ⟨1, none⟩] (31 * SECOND) [] [] rfl
    (Or.inr ⟨by decide +kernel, by decide +kernel⟩) (fun e he => (by cases he))
    (3 + 31 * SECOND) (by decide +kernel) (by decide +kernel)
  revert hopen
  decide +kernel

end TitanDns.Autopilot
