import TitanDns.Autopilot.QpsTracker
import Mathlib.Tactic.NormNum

/-!
# The average query rate against the clock

* `RateCorrect` — the average over `n` seconds is the number of queries of `n` seconds that end
  within the last one, by `n`; and after `n` idle seconds it is 0.
* `SecondsKept` — the newest `n` buckets hold the queries of such `n` seconds.
* `secondsKept_of_exact` — so it is where the buckets have lasted a second each.
* `getAvgQps_eq_zero_iff`, `idle_rate_iff` — **however long the silence, the average is 0 only where
  all that was ever recorded is one burst.**

Principal result: `rateCorrect_iff` — **at given instants the average is correct, however many
queries come at each, exactly when the buckets keep the seconds.**
-/

namespace TitanDns.Autopilot

open Run Multiplicity

/-- The query comes within the `n` seconds before `e`. -/
def inWindow (e n a : Nat) : Bool := decide (e ≤ a + n * SECOND ∧ a < e)

/-- What the average over `n` seconds should be at `now`, up to the partial current second. -/
structure RateCorrect (start : Nat) (arrivals : List Nat) (now n : Nat) : Prop where
  window : ∃ e, e ≤ now ∧ now < e + SECOND ∧
    (tracked start arrivals).getAvgQps n = arrivals.countP (inWindow e n) / n
  idle : (∀ a ∈ arrivals, a + n * SECOND < now) → (tracked start arrivals).getAvgQps n = 0

/-- The buckets that are read hold the queries of `n` seconds that end within the last one; there
are `n` of them, unless they hold nothing; and after `n` idle seconds they hold nothing. -/
structure SecondsKept (start : Nat) (instants : List Nat) (now n : Nat) : Prop where
  window : ∃ e, e ≤ now ∧ now < e + SECOND ∧
    ∀ a ∈ instants, (edges start instants).counts n a = inWindow e n a
  divisor : (edges start instants).divisor n = n ∨
    ∀ a ∈ instants, (edges start instants).counts n a = false
  idle : (∀ a ∈ instants, a + n * SECOND < now) →
    ∀ a ∈ instants, (edges start instants).counts n a = false

/-- Queries in order, at these instants and no others, any number at each. -/
def ArriveAt (instants arrivals : List Nat) : Prop :=
  arrivals.Pairwise (· ≤ ·) ∧ ∀ a, a ∈ arrivals ↔ a ∈ instants

/-! ## The load does not move the edges -/

/-- A second query at the same instant finds the edges where they are. -/
theorem Edges.step_step (ed : Edges) (now : Nat) : (ed.step now).step now = ed.step now := by
  by_cases h : ed.last + SECOND ≤ now
  · rw [Edges.step_of_le h]
    apply Edges.step_of_lt
    exact Nat.not_le.mpr (Nat.lt_add_of_pos_right second_pos)
  · rw [Edges.step_of_lt h, Edges.step_of_lt h]

theorem run_replicate (ed : Edges) (now k : Nat) :
    run Edges.step ed (List.replicate (k + 1) now) = ed.step now := by
  induction k generalizing ed with
  | zero => rw [List.replicate_one, run_cons, run_nil]
  | succ k ih => rw [List.replicate_succ, run_cons, ih, Edges.step_step]

/-- **The edges depend on the instants alone.** -/
theorem edges_loaded (start : Nat) (load : Nat → Nat) (instants : List Nat) :
    edges start (loaded load instants) = edges start instants := by
  have hrun : ∀ ed : Edges, run Edges.step ed (loaded load instants) =
      run Edges.step ed instants := by
    induction instants with
    | nil => exact fun _ => rfl
    | cons a instants ih =>
      intro ed
      rw [loaded_cons, run_append, run_replicate, ih, run_cons]
  exact hrun _

/-- Two rates are the same when the counts are in proportion. -/
theorem rate_eq_iff {n d : Nat} (hn : 0 < n) (hd : 0 < d) (c w : Nat) :
    (c : ℚ) / d = w / n ↔ n * c = d * w := by
  rw [div_eq_div_iff (Nat.cast_ne_zero.mpr hd.ne') (Nat.cast_ne_zero.mpr hn.ne'), mul_comm (c : ℚ),
    mul_comm (w : ℚ)]
  norm_cast

theorem divisor_pos (ed : Edges) (n : Nat) : 0 < ed.divisor n := Nat.le_max_left _ _

section

variable {start now n : Nat} {instants : List Nat}

/-- The average under a load. -/
theorem getAvgQps_loaded (hsorted : instants.Pairwise (· < ·))
    (hstart : ∀ a ∈ instants, start ≤ a) (load : Nat → Nat) (n : Nat) :
    (tracked start (loaded load instants)).getAvgQps n =
      (loaded load instants).countP ((edges start instants).counts n) /
        (edges start instants).divisor n := by
  rw [getAvgQps_eq (loaded_sorted hsorted) fun a ha => hstart a (mem_loaded.mp ha),
    edges_loaded]

/-- **At given instants the average is correct, however many queries come at each, exactly when the
buckets keep the seconds.** -/
theorem rateCorrect_iff (hsorted : instants.Pairwise (· < ·))
    (hstart : ∀ a ∈ instants, start ≤ a) (hn : 0 < n) :
    (∀ arrivals, ArriveAt instants arrivals → RateCorrect start arrivals now n) ↔
      SecondsKept start instants now n := by
  have hd := divisor_pos (edges start instants) n
  have hdq : ((edges start instants).divisor n : ℚ) ≠ 0 := Nat.cast_ne_zero.mpr hd.ne'
  constructor
  · intro h
    -- a load that tells the instants apart
    obtain ⟨⟨e, hle, hlt, havg⟩, hidle⟩ :=
      h (loaded (powers (n + (edges start instants).divisor n + 1)) instants)
        ⟨loaded_sorted hsorted, fun _ => mem_loaded⟩
    rw [getAvgQps_loaded hsorted hstart] at havg hidle
    have hagree := counts_agree hn hd hsorted ((rate_eq_iff hn hd _ _).mp havg)
    refine ⟨⟨e, hle, hlt, fun a ha => (hagree a ha).1⟩, ?_, ?_⟩
    · by_cases hsome : ∃ a ∈ instants, (edges start instants).counts n a = true
      · obtain ⟨a, ha, hcounted⟩ := hsome
        exact Or.inl ((hagree a ha).2 hcounted).symm
      · right
        intro a ha
        cases hcounted : (edges start instants).counts n a with
        | true => exact absurd ⟨a, ha, hcounted⟩ hsome
        | false => rfl
    · intro hsilent a ha
      have hzero := hidle fun b hb => hsilent b (mem_loaded.mp hb)
      rw [div_eq_zero_iff, or_iff_left hdq, Nat.cast_eq_zero, List.countP_eq_zero] at hzero
      exact Bool.eq_false_iff.mpr (hzero a (mem_loaded.mpr ha))
  · rintro ⟨⟨e, hle, hlt, hsame⟩, hdivisor, hidle⟩ arrivals ⟨horder, hmem⟩
    obtain ⟨load, rfl⟩ := exists_load hsorted horder hmem
    have hcount : (loaded load instants).countP ((edges start instants).counts n) =
        (loaded load instants).countP (inWindow e n) := countP_loaded_congr hsame
    have hnone : (∀ a ∈ instants, (edges start instants).counts n a = false) →
        (loaded load instants).countP ((edges start instants).counts n) = 0 := by
      intro hnone
      rw [List.countP_eq_zero]
      exact fun a ha => Bool.eq_false_iff.mp (hnone a (mem_loaded.mp ha))
    refine ⟨⟨e, hle, hlt, ?_⟩, ?_⟩
    · rw [getAvgQps_loaded hsorted hstart]
      rcases hdivisor with heq | hempty
      · rw [heq, hcount]
      · rw [← hcount, hnone hempty, Nat.cast_zero, zero_div, zero_div]
    · intro hsilent
      rw [getAvgQps_loaded hsorted hstart,
        hnone (hidle fun a ha => hsilent a (mem_loaded.mpr ha)), Nat.cast_zero, zero_div]

/-- **Where the newest buckets have lasted a second each, and the open one less, the seconds are
kept.** -/
theorem secondsKept_of_exact (hsorted : instants.Pairwise (· < ·))
    (hstart : ∀ a ∈ instants, start ≤ a) (hn : 0 < n)
    (htaken : (edges start instants).taken n = n)
    (hexact : beginning ((edges start instants).starts.take n) (edges start instants).last +
      n * SECOND = (edges start instants).last)
    (hle : (edges start instants).last ≤ now) (hlt : now < (edges start instants).last + SECOND) :
    SecondsKept start instants now n := by
  have hedges := edgesOf (hsorted.imp Nat.le_of_lt) hstart
  have hcounts : ∀ a, (edges start instants).counts n a =
      inWindow (edges start instants).last n a := by
    intro a
    unfold Edges.counts inWindow
    rw [htaken, if_neg hn.ne']
    exact decide_eq_decide.mpr (by omega)
  refine ⟨⟨_, hle, hlt, fun a _ => hcounts a⟩, Or.inl ?_, ?_⟩
  · rw [Edges.divisor, htaken]
    exact Nat.max_eq_right hn
  · intro hsilent
    -- the query that closed the newest bucket is not silent
    rcases hedges.last_mem with ⟨-, hempty⟩ | ⟨hmem, -⟩
    · rw [Edges.taken, hempty, List.length_nil] at htaken
      omega
    · have hold := hsilent _ hmem
      have hone : SECOND ≤ n * SECOND := Nat.le_mul_of_pos_left _ hn
      omega

end

/-- Queries at the start and a second later are counted right. -/
theorem rateCorrect_seconds : RateCorrect 0 [0, 0, SECOND] SECOND 1 :=
  (rateCorrect_iff (by decide) (by decide) (by decide)).mpr
    (@secondsKept_of_exact 0 SECOND 1 [0, SECOND] (by decide) (by decide) (by decide) (by decide)
      (by decide) (by decide) (by decide)) _ ⟨by decide, by simp⟩

/-! ## Silence -/

/-- Nothing was recorded, or everything within a second that began a second or more after the
tracker was made. -/
def OneBurst (start : Nat) (arrivals : List Nat) : Prop :=
  arrivals = [] ∨ ∃ first ∈ arrivals, start + SECOND ≤ first ∧
    ∀ a ∈ arrivals, first ≤ a ∧ a < first + SECOND

/-- The starts of the buckets come before the last edge. -/
theorem Spaced.add_le {starts : List Nat} {last : Nat} (h : Spaced starts last) :
    ∀ s ∈ starts, s + SECOND ≤ last := by
  induction starts generalizing last with
  | nil =>
    intro s hs
    cases hs
  | cons b older ih =>
    intro s hs
    rcases List.mem_cons.mp hs with rfl | hs
    · exact h.1
    · exact (ih h.2 s hs).trans ((Nat.le_add_right _ _).trans h.1)

/-- With no closed bucket everything recorded is counted. -/
theorem EdgesOf.open_counts {start last n : Nat} {arrivals : List Nat}
    (h : EdgesOf start arrivals ⟨[], last⟩) :
    (∀ a ∈ arrivals, ¬ Edges.counts ⟨[], last⟩ n a = true) ↔ OneBurst start arrivals := by
  have hlast : last = start := by
    rcases h.last_mem with hmem | hmem
    · exact hmem.1
    · exact absurd rfl hmem.2
  have hopen : ∀ a ∈ arrivals, last ≤ a ∧ a < last + SECOND := by
    intro a ha
    obtain ⟨s, hs, hin⟩ := h.covered a ha
    rw [List.mem_singleton.mp hs] at hin
    exact hin
  have htaken : Edges.taken ⟨[], last⟩ n = 0 := Nat.zero_min n
  have hcounts : ∀ a ∈ arrivals, Edges.counts ⟨[], last⟩ n a = true := by
    intro a ha
    rw [Edges.counts, htaken, if_pos rfl]
    exact decide_eq_true (hopen a ha).1
  constructor
  · intro hnone
    refine Or.inl (List.eq_nil_iff_forall_not_mem.mpr fun a ha => ?_)
    exact hnone a ha (hcounts a ha)
  · rintro (rfl | ⟨first, hfirst, hlate, -⟩)
    · intro a ha
      cases ha
    · have := (hopen first hfirst).2
      omega

/-- With a closed bucket, what the newest one holds is counted, and nothing of the open one. -/
theorem counts_closed (s last : Nat) (older : List Nat) {n : Nat}
    (hspaced : Spaced (s :: older) last) (hn : 0 < n) :
    ∃ first ≤ s, ∀ a, Edges.counts ⟨s :: older, last⟩ n a =
      decide (first ≤ a ∧ a < last) := by
  have htaken : 0 < Edges.taken ⟨s :: older, last⟩ n := by
    unfold Edges.taken
    rw [List.length_cons]
    omega
  obtain ⟨k, hk⟩ := Nat.exists_eq_add_of_lt htaken
  rw [Nat.zero_add] at hk
  have htake : Spaced ((s :: older).take (k + 1)) last := hspaced.take _
  refine ⟨beginning ((s :: older).take (k + 1)) last, beginning_le htake.2, fun a => ?_⟩
  rw [Edges.counts, hk, if_neg (Nat.succ_ne_zero k)]

/-- With a closed bucket nothing is counted when everything opened the last one. -/
theorem EdgesOf.closed_counts {start s last n : Nat} {older arrivals : List Nat}
    (h : EdgesOf start arrivals ⟨s :: older, last⟩) (hstart : ∀ a ∈ arrivals, start ≤ a)
    (hn : 0 < n) : (∀ a ∈ arrivals, ¬ Edges.counts ⟨s :: older, last⟩ n a = true) ↔
      OneBurst start arrivals := by
  have hlast : last ∈ arrivals := by
    rcases h.last_mem with hmem | hmem
    · exact absurd hmem.2 (List.cons_ne_nil _ _)
    · exact hmem.1
  have hsecond : s + SECOND ≤ last := h.spaced.1
  obtain ⟨begun, hbegun, hcounts⟩ := counts_closed s last older h.spaced hn
  simp only [hcounts, decide_eq_true_eq]
  constructor
  · intro hnone
    have hout : ∀ a ∈ arrivals, ¬ (s ≤ a ∧ a < last) := fun a ha hin =>
      hnone a ha ⟨hbegun.trans hin.1, hin.2⟩
    -- the newest bucket is empty, so it is the first
    have hs : s = start := by
      rcases h.starts_mem s List.mem_cons_self with hmem | hmem
      · have := second_pos
        exact absurd ⟨Nat.le_refl s, by omega⟩ (hout s hmem)
      · exact hmem
    refine Or.inr ⟨last, hlast, hs ▸ hsecond, fun a ha => ⟨?_, h.recent a ha⟩⟩
    have hnot := hout a ha
    have := hstart a ha
    omega
  · rintro (hempty | ⟨first, hfirst, hlate, hburst⟩)
    · rw [hempty] at hlast
      cases hlast
    · -- the burst opened the last bucket
      have hbefore : ∀ x ∈ s :: older, x = start := by
        intro x hx
        rcases h.starts_mem x hx with hmem | hmem
        · have hgap : x + SECOND ≤ last := h.spaced.add_le x hx
          have hlow := (hburst x hmem).1
          have hhigh := (hburst last hlast).2
          omega
        · exact hmem
      have hfirstlast : last ≤ first := by
        obtain ⟨x, hx, hlow, hhigh⟩ := h.covered first hfirst
        rcases List.mem_cons.mp hx with rfl | hx
        · exact hlow
        · have hx := hbefore x hx
          omega
      intro a ha
      have := (hburst a ha).1
      omega

/-- **The average is 0 exactly when all that was recorded is one burst**, however long ago. -/
theorem getAvgQps_eq_zero_iff {start n : Nat} {arrivals : List Nat}
    (hsorted : arrivals.Pairwise (· ≤ ·)) (hstart : ∀ a ∈ arrivals, start ≤ a) (hn : 0 < n) :
    (tracked start arrivals).getAvgQps n = 0 ↔ OneBurst start arrivals := by
  have hedges := edgesOf hsorted hstart
  have hdq : ((edges start arrivals).divisor n : ℚ) ≠ 0 :=
    Nat.cast_ne_zero.mpr (divisor_pos _ n).ne'
  rw [getAvgQps_eq hsorted hstart, div_eq_zero_iff, or_iff_left hdq, Nat.cast_eq_zero,
    List.countP_eq_zero]
  generalize edges start arrivals = ed at hedges
  obtain ⟨starts, last⟩ := ed
  cases starts with
  | nil => exact hedges.open_counts
  | cons s older => exact hedges.closed_counts hstart hn

/-- **After `n` idle seconds, however many, the average is correct exactly when all that was
recorded is one burst.** -/
theorem idle_rate_iff {start now n : Nat} {arrivals : List Nat}
    (hsorted : arrivals.Pairwise (· ≤ ·)) (hstart : ∀ a ∈ arrivals, start ≤ a) (hn : 0 < n)
    (hidle : ∀ a ∈ arrivals, a + n * SECOND < now) :
    RateCorrect start arrivals now n ↔ OneBurst start arrivals := by
  rw [← getAvgQps_eq_zero_iff hsorted hstart hn]
  constructor
  · exact fun h => h.idle hidle
  · intro hzero
    refine ⟨⟨now, Nat.le_refl _, Nat.lt_add_of_pos_right second_pos, ?_⟩, fun _ => hzero⟩
    have hnone : arrivals.countP (inWindow now n) = 0 := by
      rw [List.countP_eq_zero]
      intro a ha
      have := hidle a ha
      simp only [inWindow, decide_eq_true_eq]
      omega
    rw [hzero, hnone, Nat.cast_zero, zero_div]

/-- A correct average suppresses no background task after 30 idle seconds. -/
theorem RateCorrect.skips_iff {start now : Nat} {arrivals : List Nat}
    (h : RateCorrect start arrivals now 30) (hidle : ∀ a ∈ arrivals, a + 30 * SECOND < now) :
    shouldSkipBackgroundTask (tracked start arrivals) = true ↔
      BACKGROUND_QPS_LIMIT < (tracked start arrivals).getCurrentQps := by
  have hlimit : ¬ BACKGROUND_AVG_QPS_30S_LIMIT < 0 := by
    rw [BACKGROUND_AVG_QPS_30S_LIMIT]
    norm_num
  unfold shouldSkipBackgroundTask
  rw [h.idle hidle, Bool.or_eq_true, decide_eq_true_eq, decide_eq_true_eq, or_iff_left hlimit]

/-- Queries in the first second, and one at the end of it. -/
def burst : List Nat := loaded (fun a => if a = 0 then 500 else 0) [0, SECOND]

/-- **501 queries in one second, one in the next, then an hour of silence**: the average over 30
seconds is still 501, and background tasks are still skipped. -/
theorem silence_not_noticed :
    (tracked 0 burst).getAvgQps 30 = 501 ∧ (tracked 0 burst).getCurrentQps = 1 ∧
      shouldSkipBackgroundTask (tracked 0 burst) = true ∧
      ¬ RateCorrect 0 burst (3600 * SECOND) 30 := by
  have hsorted : burst.Pairwise (· ≤ ·) := loaded_sorted (by decide)
  have hedges : edges 0 burst = ⟨[0], SECOND⟩ := by
    have hstay : Edges.step ⟨[], 0⟩ 0 = ⟨[], 0⟩ := Edges.step_of_lt (by decide)
    have hroll : Edges.step ⟨[], 0⟩ SECOND = ⟨[0], SECOND⟩ := Edges.step_of_le (by decide)
    rw [burst, edges_loaded, edges, run_cons, run_cons, run_nil, hstay, hroll]
  have htracker := tracked_eq hsorted fun a _ => Nat.zero_le a
  rw [hedges] at htracker
  have havg : (tracked 0 burst).getAvgQps 30 = 501 := by
    have hcount : burst.countP (Edges.counts ⟨[0], SECOND⟩ 30) = 501 := by
      rw [burst, countP_loaded]
      decide
    have hdivisor : Edges.divisor ⟨[0], SECOND⟩ 30 = 1 := by decide
    rw [getAvgQps_eq hsorted (fun a _ => Nat.zero_le a), hedges, hcount, hdivisor]
    norm_num
  have hcurrent : (tracked 0 burst).getCurrentQps = 1 := by
    have hopen : countFrom SECOND burst = 1 := by
      rw [countFrom, burst, countP_loaded]
      decide
    rw [htracker, Edges.tracker_getCurrentQps, hopen]
  refine ⟨havg, hcurrent, ?_, fun h => ?_⟩
  · unfold shouldSkipBackgroundTask
    rw [havg, Bool.or_eq_true]
    right
    rw [decide_eq_true_eq, BACKGROUND_AVG_QPS_30S_LIMIT]
    norm_num
  · have hidle : ∀ a ∈ burst, a + 30 * SECOND < 3600 * SECOND := by
      intro a ha
      have hle : a ≤ SECOND := by
        rcases List.mem_cons.mp (mem_loaded.mp ha) with rfl | ha
        · exact Nat.zero_le _
        · exact (List.mem_singleton.mp ha).le
      have := second_pos
      omega
    have hzero := h.idle hidle
    rw [havg] at hzero
    norm_num at hzero

end TitanDns.Autopilot
