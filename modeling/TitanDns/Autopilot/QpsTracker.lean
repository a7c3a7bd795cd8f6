import TitanDns.Autopilot.Metrics
import TitanDns.Lib.Multiplicity
import TitanDns.Lib.Run
import Mathlib.Algebra.Order.Field.Basic
import Mathlib.Data.List.Induction
import Mathlib.Data.Rat.Cast.Order
import Mathlib.Tactic.FieldSimp

/-!
# `QpsTracker`

Queries per second, in buckets that only a query closes.  Times are nanoseconds on the monotonic
clock.

* `recordQuery`, `getAvgQps`, `shouldSkipBackgroundTask` — the tracker.
* `Edges` — where the buckets begin, whatever they hold; `tracked_eq` — **the tracker holds, for its
  newest sixty buckets, the number of queries between their edges.**
* `getAvgQps_eq` — **the average is the number of queries in the newest buckets by their number**,
  wherever these lie in time.
-/

namespace TitanDns.Autopilot

open Run Multiplicity

/-! ## The tracker -/

structure QpsTracker where
  /-- Where a bucket began and what it counted, oldest first. -/
  secondCounts : List (Nat × Nat)
  currentCount : Nat
  lastSecond : Nat
  deriving DecidableEq

namespace QpsTracker

def new (now : Nat) : QpsTracker := ⟨[], 0, now⟩

/-- The buckets with one more: the oldest are evicted while there are sixty. -/
def pushSecond (counts : List (Nat × Nat)) (second : Nat × Nat) : List (Nat × Nat) :=
  counts.drop (counts.length - 59) ++ [second]

/-- `record_query` -/
def recordQuery (t : QpsTracker) (now : Nat) : QpsTracker :=
  let t := if 1 ≤ (now - t.lastSecond) / SECOND then
      { secondCounts := pushSecond t.secondCounts (t.lastSecond, t.currentCount)
        currentCount := 0
        lastSecond := now }
    else t
  { t with currentCount := t.currentCount + 1 }

def getCurrentQps (t : QpsTracker) : Nat := t.currentCount

/-- `get_avg_qps` -/
def getAvgQps (t : QpsTracker) (seconds : Nat) : ℚ :=
  let n := min t.secondCounts.length seconds
  if n = 0 then t.getCurrentQps
  else ((t.secondCounts.reverse.take n).map Prod.snd).sum / n

end QpsTracker

def BACKGROUND_QPS_LIMIT : Nat := 800

def BACKGROUND_AVG_QPS_30S_LIMIT : ℚ := 500

/-- `should_skip_background_task` -/
def shouldSkipBackgroundTask (t : QpsTracker) : Bool :=
  decide (BACKGROUND_QPS_LIMIT < t.getCurrentQps) ||
    decide (BACKGROUND_AVG_QPS_30S_LIMIT < t.getAvgQps 30)

/-- The tracker made at `start`, after these queries. -/
def tracked (start : Nat) (arrivals : List Nat) : QpsTracker :=
  run QpsTracker.recordQuery (.new start) arrivals

/-! ## Edges -/

/-- Where the closed buckets began, newest first, and where the open one began. -/
structure Edges where
  starts : List Nat
  last : Nat

/-- A query a second or more after the last edge is the next one. -/
def Edges.step (ed : Edges) (now : Nat) : Edges :=
  if ed.last + SECOND ≤ now then ⟨ed.last :: ed.starts, now⟩ else ed

/-- The edges after these queries. -/
def edges (start : Nat) (arrivals : List Nat) : Edges := run Edges.step ⟨[], start⟩ arrivals

/-- The number of queries from one time to before another. -/
def countIn (lo hi : Nat) (arrivals : List Nat) : Nat :=
  arrivals.countP fun a => decide (lo ≤ a ∧ a < hi)

/-- The number of queries from a time on. -/
def countFrom (lo : Nat) (arrivals : List Nat) : Nat := arrivals.countP fun a => decide (lo ≤ a)

/-- The buckets between the edges, newest first. -/
def bucketsOf (arrivals : List Nat) : List Nat → Nat → List (Nat × Nat)
  | [], _ => []
  | s :: older, last => (s, countIn s last arrivals) :: bucketsOf arrivals older s

/-- Each bucket lasts a second at least. -/
def Spaced : List Nat → Nat → Prop
  | [], _ => True
  | s :: older, last => s + SECOND ≤ last ∧ Spaced older s

/-- Where the oldest of these buckets began. -/
def beginning : List Nat → Nat → Nat
  | [], last => last
  | s :: older, _ => beginning older s

theorem second_pos : 0 < SECOND := by decide

theorem rolls_iff {last now : Nat} : 1 ≤ (now - last) / SECOND ↔ last + SECOND ≤ now := by
  rw [Nat.le_div_iff_mul_le second_pos, Nat.one_mul]
  have := second_pos
  omega

/-- A query that closes the bucket. -/
theorem QpsTracker.recordQuery_of_le {t : QpsTracker} {now : Nat}
    (h : t.lastSecond + SECOND ≤ now) :
    t.recordQuery now =
      ⟨pushSecond t.secondCounts (t.lastSecond, t.currentCount), 0 + 1, now⟩ := by
  unfold recordQuery
  rw [if_pos (rolls_iff.mpr h)]

/-- A query of the open bucket. -/
theorem QpsTracker.recordQuery_of_lt {t : QpsTracker} {now : Nat}
    (h : ¬ t.lastSecond + SECOND ≤ now) :
    t.recordQuery now = { t with currentCount := t.currentCount + 1 } := by
  unfold recordQuery
  rw [if_neg fun hroll => h (rolls_iff.mp hroll)]

theorem Edges.step_of_le {ed : Edges} {now : Nat} (h : ed.last + SECOND ≤ now) :
    ed.step now = ⟨ed.last :: ed.starts, now⟩ := if_pos h

theorem Edges.step_of_lt {ed : Edges} {now : Nat} (h : ¬ ed.last + SECOND ≤ now) :
    ed.step now = ed := if_neg h

theorem edges_concat (start : Nat) (arrivals : List Nat) (now : Nat) :
    edges start (arrivals ++ [now]) = (edges start arrivals).step now := by
  rw [edges, run_append, run_cons, run_nil, edges]

/-- What holds of the edges of queries that are in order. -/
structure EdgesOf (start : Nat) (arrivals : List Nat) (ed : Edges) : Prop where
  spaced : Spaced ed.starts ed.last
  recent : ∀ a ∈ arrivals, a < ed.last + SECOND
  covered : ∀ a ∈ arrivals, ∃ s ∈ ed.last :: ed.starts, s ≤ a ∧ a < s + SECOND
  last_mem : ed.last = start ∧ ed.starts = [] ∨ ed.last ∈ arrivals ∧ ed.starts ≠ []
  starts_mem : ∀ s ∈ ed.starts, s ∈ arrivals ∨ s = start

/-- The last edge is no later than a query that follows. -/
theorem EdgesOf.last_le {start : Nat} {arrivals : List Nat} {ed : Edges}
    (h : EdgesOf start arrivals ed) {now : Nat} (hstart : start ≤ now)
    (hnow : ∀ a ∈ arrivals, a ≤ now) : ed.last ≤ now := by
  rcases h.last_mem with ⟨hlast, -⟩ | ⟨hmem, -⟩
  · rw [hlast]
    exact hstart
  · exact hnow _ hmem

section

variable {start now : Nat} {arrivals : List Nat} {ed : Edges}

/-- A query that closes the open bucket. -/
theorem EdgesOf.close (h : EdgesOf start arrivals ed) (hnow : ∀ a ∈ arrivals, a ≤ now)
    (hroll : ed.last + SECOND ≤ now) :
    EdgesOf start (arrivals ++ [now]) ⟨ed.last :: ed.starts, now⟩ where
  spaced := ⟨hroll, h.spaced⟩
  recent a ha := by
    have hle : a ≤ now := by
      rcases List.mem_append.mp ha with ha | ha
      · exact hnow a ha
      · exact (List.mem_singleton.mp ha).le
    exact Nat.lt_of_le_of_lt hle (Nat.lt_add_of_pos_right second_pos)
  covered a ha := by
    rcases List.mem_append.mp ha with ha | ha
    · obtain ⟨s, hs, hin⟩ := h.covered a ha
      exact ⟨s, List.mem_cons_of_mem _ hs, hin⟩
    · rw [List.mem_singleton.mp ha]
      exact ⟨now, List.mem_cons_self, Nat.le_refl _, Nat.lt_add_of_pos_right second_pos⟩
  last_mem :=
    Or.inr ⟨List.mem_append_right _ (List.mem_singleton.mpr rfl), List.cons_ne_nil _ _⟩
  starts_mem s hs := by
    rcases List.mem_cons.mp hs with rfl | hs
    · rcases h.last_mem with hlast | hlast
      · exact Or.inr hlast.1
      · exact Or.inl (List.mem_append_left _ hlast.1)
    · exact (h.starts_mem s hs).imp (List.mem_append_left _) id

/-- A query of the open bucket. -/
theorem EdgesOf.stay (h : EdgesOf start arrivals ed) (hlast : ed.last ≤ now)
    (hroll : ¬ ed.last + SECOND ≤ now) : EdgesOf start (arrivals ++ [now]) ed where
  spaced := h.spaced
  recent a ha := by
    rcases List.mem_append.mp ha with ha | ha
    · exact h.recent a ha
    · rw [List.mem_singleton.mp ha]
      exact Nat.not_le.mp hroll
  covered a ha := by
    rcases List.mem_append.mp ha with ha | ha
    · exact h.covered a ha
    · rw [List.mem_singleton.mp ha]
      exact ⟨_, List.mem_cons_self, hlast, Nat.not_le.mp hroll⟩
  last_mem := h.last_mem.imp id fun hmem => ⟨List.mem_append_left _ hmem.1, hmem.2⟩
  starts_mem s hs := (h.starts_mem s hs).imp (List.mem_append_left _) id

end

theorem edgesOf {start : Nat} {arrivals : List Nat} (hsorted : arrivals.Pairwise (· ≤ ·))
    (hstart : ∀ a ∈ arrivals, start ≤ a) : EdgesOf start arrivals (edges start arrivals) := by
  induction arrivals using List.reverseRecOn with
  | nil =>
    refine ⟨trivial, ?_, ?_, Or.inl ⟨rfl, rfl⟩, ?_⟩
    · intro a ha
      cases ha
    · intro a ha
      cases ha
    · intro s hs
      cases hs
  | append_singleton arrivals now ih =>
    obtain ⟨hbefore, -, hlast⟩ := List.pairwise_append.mp hsorted
    have h := ih hbefore fun a ha => hstart a (List.mem_append_left _ ha)
    have hnow : ∀ a ∈ arrivals, a ≤ now := fun a ha => hlast a ha now (List.mem_singleton.mpr rfl)
    have hfrom := hstart now (List.mem_append_right _ (List.mem_singleton.mpr rfl))
    rw [edges_concat]
    by_cases hroll : (edges start arrivals).last + SECOND ≤ now
    · rw [Edges.step_of_le hroll]
      exact h.close hnow hroll
    · rw [Edges.step_of_lt hroll]
      exact h.stay (h.last_le hfrom hnow) hroll

/-- The buckets begin no later than the last edge. -/
theorem beginning_le {starts : List Nat} {last : Nat} (h : Spaced starts last) :
    beginning starts last ≤ last := by
  induction starts generalizing last with
  | nil => exact Nat.le_refl _
  | cons s older ih => exact (ih h.2).trans ((Nat.le_add_right _ _).trans h.1)

theorem Spaced.take {starts : List Nat} {last : Nat} (h : Spaced starts last) (n : Nat) :
    Spaced (starts.take n) last := by
  induction starts generalizing last n with
  | nil =>
    rw [List.take_nil]
    trivial
  | cons s older ih =>
    cases n with
    | zero => trivial
    | succ n => exact ⟨h.1, ih h.2 n⟩

theorem bucketsOf_take (arrivals starts : List Nat) (last n : Nat) :
    (bucketsOf arrivals starts last).take n = bucketsOf arrivals (starts.take n) last := by
  induction starts generalizing last n with
  | nil => simp [bucketsOf]
  | cons s older ih =>
    cases n with
    | zero => rfl
    | succ n => rw [bucketsOf, List.take_succ_cons, List.take_succ_cons, bucketsOf, ih]

theorem bucketsOf_length (arrivals starts : List Nat) (last : Nat) :
    (bucketsOf arrivals starts last).length = starts.length := by
  induction starts generalizing last with
  | nil => rfl
  | cons s older ih => rw [bucketsOf, List.length_cons, ih, List.length_cons]

/-- Neighbouring times count together. -/
theorem countIn_add {lo mid hi : Nat} (hlo : lo ≤ mid) (hhi : mid ≤ hi) (arrivals : List Nat) :
    countIn lo mid arrivals + countIn mid hi arrivals = countIn lo hi arrivals := by
  unfold countIn
  induction arrivals with
  | nil => rfl
  | cons a arrivals ih =>
    simp only [List.countP_cons, decide_eq_true_eq]
    split_ifs <;> omega

/-- **The buckets hold the queries between their edges.** -/
theorem sum_bucketsOf {starts : List Nat} {last : Nat} (h : Spaced starts last)
    (arrivals : List Nat) :
    ((bucketsOf arrivals starts last).map Prod.snd).sum =
      countIn (beginning starts last) last arrivals := by
  induction starts generalizing last with
  | nil =>
    have hnone : countIn last last arrivals = 0 := by
      rw [countIn, List.countP_eq_zero]
      intro a _
      simp only [decide_eq_true_eq]
      omega
    exact hnone.symm
  | cons s older ih =>
    have hs : s ≤ last := (Nat.le_add_right _ _).trans h.1
    rw [bucketsOf, List.map_cons, List.sum_cons, ih h.2, Nat.add_comm, beginning]
    exact countIn_add (beginning_le h.2) hs arrivals

/-- A query after the buckets are closed is in none of them. -/
theorem bucketsOf_concat {starts : List Nat} {last now : Nat} (h : Spaced starts last)
    (hnow : last ≤ now) (arrivals : List Nat) :
    bucketsOf (arrivals ++ [now]) starts last = bucketsOf arrivals starts last := by
  induction starts generalizing last with
  | nil => rfl
  | cons s older ih =>
    have hs : s ≤ last := (Nat.le_add_right _ _).trans h.1
    have hcount : countIn s last (arrivals ++ [now]) = countIn s last arrivals := by
      unfold countIn
      rw [List.countP_append, List.countP_singleton, if_neg (by simp; omega), Nat.add_zero]
    rw [bucketsOf, bucketsOf, ih h.2 (hs.trans hnow), hcount]

/-- The tracker that the edges and the queries make. -/
def Edges.tracker (ed : Edges) (arrivals : List Nat) : QpsTracker where
  secondCounts := ((bucketsOf arrivals ed.starts ed.last).take 60).reverse
  currentCount := countFrom ed.last arrivals
  lastSecond := ed.last

theorem Edges.tracker_getCurrentQps (ed : Edges) (arrivals : List Nat) :
    (ed.tracker arrivals).getCurrentQps = countFrom ed.last arrivals := rfl

theorem countFrom_concat {lo now : Nat} (h : lo ≤ now) (arrivals : List Nat) :
    countFrom lo (arrivals ++ [now]) = countFrom lo arrivals + 1 := by
  unfold countFrom
  rw [List.countP_append, List.countP_singleton, if_pos (decide_eq_true h)]

/-- Evicting before the push keeps the newest fifty-nine. -/
theorem pushSecond_reverse (l : List (Nat × Nat)) (second : Nat × Nat) :
    QpsTracker.pushSecond (l.take 60).reverse second = ((second :: l).take 60).reverse := by
  have hkept : (l.take 60).reverse.drop ((l.take 60).reverse.length - 59) =
      (l.take 59).reverse := by
    rw [List.drop_reverse, List.length_reverse, List.take_take, List.length_take]
    congr 1
    rw [List.take_eq_take_iff]
    omega
  rw [QpsTracker.pushSecond, hkept, List.take_succ_cons, List.reverse_cons]

/-- **One query.** -/
theorem recordQuery_tracker {start : Nat} {arrivals : List Nat} {ed : Edges}
    (h : EdgesOf start arrivals ed) {now : Nat} (hnow : ed.last ≤ now) :
    (ed.tracker arrivals).recordQuery now = (ed.step now).tracker (arrivals ++ [now]) := by
  by_cases hroll : ed.last + SECOND ≤ now
  · have hbefore : ∀ a ∈ arrivals, a < now := fun a ha =>
      Nat.lt_of_lt_of_le (h.recent a ha) hroll
    have hclosed : countIn ed.last now (arrivals ++ [now]) = countFrom ed.last arrivals := by
      unfold countIn countFrom
      rw [List.countP_append, List.countP_singleton, if_neg (by simp), Nat.add_zero]
      refine List.countP_congr fun a ha => ?_
      have := hbefore a ha
      simp only [decide_eq_true_eq]
      omega
    have hopen : countFrom now arrivals = 0 := by
      rw [countFrom, List.countP_eq_zero]
      intro a ha
      simpa using hbefore a ha
    rw [QpsTracker.recordQuery_of_le hroll, Edges.step_of_le hroll]
    unfold Edges.tracker
    rw [bucketsOf, hclosed, bucketsOf_concat h.spaced hnow, countFrom_concat (Nat.le_refl _), hopen,
      pushSecond_reverse]
  · rw [QpsTracker.recordQuery_of_lt hroll, Edges.step_of_lt hroll]
    unfold Edges.tracker
    rw [bucketsOf_concat h.spaced hnow, countFrom_concat hnow]

/-- **The tracker holds the number of queries between the edges of its newest sixty buckets.** -/
theorem tracked_eq {start : Nat} {arrivals : List Nat} (hsorted : arrivals.Pairwise (· ≤ ·))
    (hstart : ∀ a ∈ arrivals, start ≤ a) :
    tracked start arrivals = (edges start arrivals).tracker arrivals := by
  induction arrivals using List.reverseRecOn with
  | nil => rfl
  | append_singleton arrivals now ih =>
    obtain ⟨hbefore, -, hlast⟩ := List.pairwise_append.mp hsorted
    have hstart' : ∀ a ∈ arrivals, start ≤ a := fun a ha => hstart a (List.mem_append_left _ ha)
    have hedges := edgesOf hbefore hstart'
    have hnow := hedges.last_le (hstart now (List.mem_append_right _ (List.mem_singleton.mpr rfl)))
      fun a ha => hlast a ha now (List.mem_singleton.mpr rfl)
    rw [edges_concat, ← recordQuery_tracker hedges hnow, ← ih hbefore hstart', tracked, run_append,
      run_cons, run_nil, tracked]

/-! ## The average -/

/-- How many buckets an average over this many seconds reads. -/
def Edges.taken (ed : Edges) (seconds : Nat) : Nat := min (min 60 ed.starts.length) seconds

/-- The query is in one of the buckets that are read; without a closed bucket, in the open one. -/
def Edges.counts (ed : Edges) (seconds a : Nat) : Bool :=
  if ed.taken seconds = 0 then decide (ed.last ≤ a)
  else decide (beginning (ed.starts.take (ed.taken seconds)) ed.last ≤ a ∧ a < ed.last)

/-- What the average divides by. -/
def Edges.divisor (ed : Edges) (seconds : Nat) : Nat := max 1 (ed.taken seconds)

/-- **The average is the number of queries in the newest buckets by their number.** -/
theorem getAvgQps_eq {start : Nat} {arrivals : List Nat} (hsorted : arrivals.Pairwise (· ≤ ·))
    (hstart : ∀ a ∈ arrivals, start ≤ a) (seconds : Nat) :
    (tracked start arrivals).getAvgQps seconds =
      arrivals.countP ((edges start arrivals).counts seconds) /
        (edges start arrivals).divisor seconds := by
  have hspaced := (edgesOf hsorted hstart).spaced
  rw [tracked_eq hsorted hstart]
  generalize edges start arrivals = ed at hspaced ⊢
  have htaken : min (ed.tracker arrivals).secondCounts.length seconds = ed.taken seconds := by
    unfold Edges.tracker Edges.taken
    rw [List.length_reverse, List.length_take, bucketsOf_length]
  unfold QpsTracker.getAvgQps Edges.divisor
  rw [htaken]
  by_cases hnone : ed.taken seconds = 0
  · have hopen : ed.counts seconds = fun a => decide (ed.last ≤ a) := by
      funext a
      exact if_pos hnone
    rw [if_pos hnone, hopen, hnone]
    show ((countFrom ed.last arrivals : ℕ) : ℚ) = countFrom ed.last arrivals / ((1 : ℕ) : ℚ)
    rw [Nat.cast_one, div_one]
  · have hclosed : ed.counts seconds = fun a => decide
        (beginning (ed.starts.take (ed.taken seconds)) ed.last ≤ a ∧ a < ed.last) := by
      funext a
      exact if_neg hnone
    have hread : (ed.tracker arrivals).secondCounts.reverse.take (ed.taken seconds) =
        bucketsOf arrivals (ed.starts.take (ed.taken seconds)) ed.last := by
      unfold Edges.tracker
      rw [List.reverse_reverse, List.take_take, ← bucketsOf_take]
      congr 1
      unfold Edges.taken
      omega
    rw [if_neg hnone, hread, sum_bucketsOf (hspaced.take _), hclosed, Nat.max_eq_right (by omega)]
    rfl

end TitanDns.Autopilot
