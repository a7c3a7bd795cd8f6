import TitanDns.Lib.Run
import TitanDns.Lib.Tally
import Mathlib.Data.Nat.Bitwise

/-!
# The counters of `core/metrics.rs`

Each thread counts into cells of its own and adds them to the Prometheus counters now and then:
when 256 increments are pending, or at every 64th call once a second has passed.

* `Counter`, `Cell` — the counters that are exported, and the cells of a thread; a counter for a
  protocol nobody knows has no cell, and is counted directly.
* `shouldSample`, `LocalAgg` — the functions of the source.
* `step` — threads take turns cell by cell; they begin and end at any time.
* `Accounted` — the invariant: **what was sampled is exported, pending in one thread, or went with a
  thread that ended.**

Principal results: `exported_lags` — **a counter never runs ahead, and is behind by at most 256 for
each thread, and 255 for each that ended**; `flushed_in_time` — **no thread counts 64 times in a row
past the interval without a flush.**
-/

namespace TitanDns.Aggregation

open Run Tally

/-- The counters Prometheus sees: `QUERY_TOTAL` by its label, `CACHE_HITS`, `CACHE_MISSES`. -/
inductive Counter where
  | queryTotal (protocol : String)
  | cacheHits
  | cacheMisses
  deriving DecidableEq

/-- The cells of a `LocalAgg`. -/
inductive Cell where
  | queryUdp
  | queryTcp
  | queryDot
  | queryDoh
  | queryDoq
  | cacheHit
  | cacheMiss
  deriving DecidableEq

/-- The counter that a cell is flushed to. -/
def Cell.counter : Cell → Counter
  | .queryUdp => .queryTotal "udp"
  | .queryTcp => .queryTotal "tcp"
  | .queryDot => .queryTotal "dot"
  | .queryDoh => .queryTotal "doh"
  | .queryDoq => .queryTotal "doq"
  | .cacheHit => .cacheHits
  | .cacheMiss => .cacheMisses

/-- The cells in the order of `flush`. -/
def Cell.all : List Cell :=
  [.queryUdp, .queryTcp, .queryDot, .queryDoh, .queryDoq, .cacheHit, .cacheMiss]

/-- The cell that counts for a counter; nothing for an unknown protocol. -/
def Counter.cell? : Counter → Option Cell
  | .queryTotal protocol =>
    match protocol with
    | "udp" => some .queryUdp
    | "tcp" => some .queryTcp
    | "dot" => some .queryDot
    | "doh" => some .queryDoh
    | "doq" => some .queryDoq
    | _ => none
  | .cacheHits => some .cacheHit
  | .cacheMisses => some .cacheMiss

theorem Cell.mem_all (ℓ : Cell) : ℓ ∈ Cell.all := by cases ℓ <;> simp [Cell.all]

theorem Counter.cell?_eq_some {κ : Counter} {ℓ : Cell} : κ.cell? = some ℓ ↔ ℓ.counter = κ := by
  constructor
  · intro h
    cases κ with
    | queryTotal protocol =>
      simp only [Counter.cell?] at h
      split at h <;> cases h <;> rfl
    | cacheHits => cases h; rfl
    | cacheMisses => cases h; rfl
  · rintro rfl
    cases ℓ <;> rfl

/-! ## Sampling -/

def sampleBpsMax : Nat := 10000

/-- `next_u32`: the number, and the generator after it. -/
def nextU32 (rng : Nat) : Nat × Nat :=
  let x := (rng * 6364136223846793005 + 1) % 2 ^ 64
  (x / 2 ^ 32, x)

def shouldSample (bps rng : Nat) : Bool × Nat :=
  if sampleBpsMax ≤ bps then (true, rng)
  else if bps = 0 then (false, rng)
  else (decide ((nextU32 rng).1 % sampleBpsMax < bps), (nextU32 rng).2)

/-! ## The cells of a thread -/

def localFlushEvery : Nat := 256
def localFlushIntervalMs : Nat := 1000
def localTimeCheckMask : Nat := 0x3F

structure LocalAgg where
  lastFlushMs : Nat
  tick : Nat
  cell : Cell → Nat

def LocalAgg.new (now : Nat) : LocalAgg := ⟨now, 0, fun _ => 0⟩

def LocalAgg.pending (agg : LocalAgg) : Nat :=
  agg.cell .queryUdp + agg.cell .queryTcp + agg.cell .queryDot + agg.cell .queryDoh +
    agg.cell .queryDoq + agg.cell .cacheHit + agg.cell .cacheMiss

/-- A cell is set. -/
def LocalAgg.set (agg : LocalAgg) (ℓ : Cell) (n : Nat) : LocalAgg :=
  { agg with cell := Function.update agg.cell ℓ n }

/-- A second has passed since the last flush. -/
def LocalAgg.overdue (agg : LocalAgg) (now : Nat) : Bool :=
  decide (localFlushIntervalMs ≤ now - agg.lastFlushMs)

/-- `maybe_flush`, up to the call of `flush`: whether it is called. -/
def LocalAgg.maybeFlush (agg : LocalAgg) (now : Nat) : LocalAgg × Bool :=
  if localFlushEvery ≤ agg.pending then (agg, true)
  else
    let t := (agg.tick + 1) % 2 ^ 32
    ({ agg with tick := t }, decide (t &&& localTimeCheckMask = 0) && agg.overdue now)

/-! ## Threads -/

structure Thread where
  rng : Nat
  agg : LocalAgg
  /-- The cells that a `flush` under way has before it, and its `now`. -/
  flushing : Option (List Cell × Nat)
  /-- History: how often in a row since the last flush it counted past the interval. -/
  overdueCalls : Nat

structure State (C : Type*) where
  /-- The threads that have begun and not ended. -/
  thread : C → Option Thread
  exported : Counter → Nat
  /-- History: the calls for a counter, and those that were sampled. -/
  called : Counter → Nat
  sampled : Counter → Nat
  /-- History: what was pending in threads that ended, and how many ended. -/
  lost : Counter → Nat
  ended : Nat

def State.init (C : Type*) : State C where
  thread _ := none
  exported _ := 0
  called _ := 0
  sampled _ := 0
  lost _ := 0
  ended := 0

inductive Event (C : Type*) where
  /-- The first use of the thread's `FAST_RNG` and `LOCAL_AGG`. -/
  | begin (c : C) (seed now : Nat)
  /-- `inc_query`, `inc_cache_hit` or `inc_cache_miss`. -/
  | inc (c : C) (κ : Counter) (now : Nat)
  /-- A `flush` under way goes on with its next cell. -/
  | flush (c : C)
  | finish (c : C)

/-- One more in one counter. -/
def bump (f : Counter → Nat) (κ : Counter) (n : Nat) : Counter → Nat :=
  Function.update f κ (f κ + n)

/-- The cell is counted up, and `maybe_flush` is called. -/
def Thread.count (t : Thread) (ℓ : Cell) (now : Nat) : Thread :=
  let r := (t.agg.set ℓ (t.agg.cell ℓ + 1)).maybeFlush now
  { t with
    agg := r.1
    flushing := if r.2 then some (Cell.all, now) else none
    overdueCalls := if r.2 then 0 else if t.agg.overdue now then t.overdueCalls + 1 else 0 }

/-- What a cell is worth to a counter. -/
def LocalAgg.held (agg : LocalAgg) (κ : Counter) : Nat :=
  match κ.cell? with
  | some ℓ => agg.cell ℓ
  | none => 0

/-- What a thread has pending for a counter. -/
def held (κ : Counter) : Option Thread → Nat
  | some t => t.agg.held κ
  | none => 0

@[simp] theorem held_some (κ : Counter) (t : Thread) : held κ (some t) = t.agg.held κ := rfl
@[simp] theorem held_none (κ : Counter) : held κ none = 0 := rfl

variable {C : Type*} [DecidableEq C]

def State.setThread (s : State C) (c : C) (t : Option Thread) : State C :=
  { s with thread := Function.update s.thread c t }

/-- The wrapper around the increment: the call is sampled or not. -/
def State.inc (bps : Nat) (s : State C) (c : C) (t : Thread) (κ : Counter) (now : Nat) : State C :=
  let r := shouldSample bps t.rng
  let t := { t with rng := r.2 }
  let s := { s with called := bump s.called κ 1 }
  if r.1 then
    let s := { s with sampled := bump s.sampled κ 1 }
    match κ.cell? with
    | some ℓ => s.setThread c (some (t.count ℓ now))
    -- an unknown protocol goes to Prometheus at once
    | none => { s with exported := bump s.exported κ 1 }.setThread c (some t)
  else s.setThread c (some t)

/-- The next cell of a `flush`; at the end its time is noted. -/
def State.flush (s : State C) (c : C) (t : Thread) : State C :=
  match t.flushing with
  | some (ℓ :: left, now) =>
    if 0 < t.agg.cell ℓ then
      { s with exported := bump s.exported ℓ.counter (t.agg.cell ℓ) }.setThread c
        (some { t with agg := t.agg.set ℓ 0, flushing := some (left, now) })
    else s.setThread c (some { t with flushing := some (left, now) })
  | some ([], now) =>
    s.setThread c (some { t with agg := { t.agg with lastFlushMs := now }, flushing := none })
  | none => s

def step (bps : Nat) (s : State C) : Event C → State C
  | .begin c seed now =>
    match s.thread c with
    | none => s.setThread c (some ⟨seed, .new now, none, 0⟩)
    | some _ => s
  | .inc c κ now =>
    match s.thread c with
    | some t => if t.flushing = none then s.inc bps c t κ now else s
    | none => s
  | .flush c =>
    match s.thread c with
    | some t => s.flush c t
    | none => s
  | .finish c =>
    match s.thread c with
    | some t =>
      if t.flushing = none then
        { s with
          lost := fun κ => s.lost κ + t.agg.held κ
          ended := s.ended + 1 }.setThread c none
      else s
    | none => s

/-- The state after the events `es`, taken in order from the start. -/
def after (bps : Nat) (es : List (Event C)) : State C := run (step bps) (.init C) es

/-! ## One thread -/

/-- What is left of the increments of a thread, and how far it may be from a flush. -/
structure Thread.Ok (t : Thread) : Prop where
  pending : t.agg.pending ≤ if t.flushing = none then 255 else 256
  /-- A cell that the flush has passed is empty. -/
  passed : ∀ left now, t.flushing = some (left, now) → ∀ ℓ ∉ left, t.agg.cell ℓ = 0
  tick : t.agg.tick < 2 ^ 32
  inTime : t.overdueCalls ≤ t.agg.tick % 64

theorem LocalAgg.pending_set (agg : LocalAgg) (ℓ : Cell) (n : Nat) :
    (agg.set ℓ n).pending + agg.cell ℓ = agg.pending + n := by
  cases ℓ <;> simp [LocalAgg.set, LocalAgg.pending] <;> omega

theorem LocalAgg.cell_le_pending (agg : LocalAgg) (ℓ : Cell) : agg.cell ℓ ≤ agg.pending := by
  cases ℓ <;> simp only [LocalAgg.pending] <;> omega

theorem LocalAgg.held_le_pending (agg : LocalAgg) (κ : Counter) : agg.held κ ≤ agg.pending := by
  unfold LocalAgg.held
  split
  · exact agg.cell_le_pending _
  · omega

/-- Setting a cell moves its own counter only. -/
theorem LocalAgg.held_set (agg : LocalAgg) (ℓ : Cell) (n : Nat) (κ : Counter) :
    (agg.set ℓ n).held κ = if ℓ.counter = κ then n else agg.held κ := by
  unfold LocalAgg.held LocalAgg.set
  cases hcell : κ.cell? with
  | none =>
    have hne : ℓ.counter ≠ κ := fun heq => by simp [Counter.cell?_eq_some.mpr heq] at hcell
    simp [hne]
  | some ℓ' =>
    have hκ : ℓ'.counter = κ := Counter.cell?_eq_some.mp hcell
    by_cases hℓ : ℓ' = ℓ
    · subst hℓ
      simp [hκ]
    · have hne : ℓ.counter ≠ κ := fun heq => by
        have hsome := Counter.cell?_eq_some.mpr heq
        rw [hcell] at hsome
        exact hℓ (Option.some.inj hsome)
      simp [hne, hℓ]

/-- `maybe_flush` reads the cells, and moves the tick only. -/
theorem LocalAgg.maybeFlush_cell (agg : LocalAgg) (now : Nat) :
    (agg.maybeFlush now).1.cell = agg.cell := by
  unfold LocalAgg.maybeFlush
  split <;> rfl

theorem LocalAgg.maybeFlush_pending (agg : LocalAgg) (now : Nat) :
    (agg.maybeFlush now).1.pending = agg.pending := by
  simp [LocalAgg.pending, LocalAgg.maybeFlush_cell]

/-- No flush: fewer than 256 are pending, and the tick went on; past the interval it is not one of
the ticks that look at the clock. -/
theorem LocalAgg.maybeFlush_false {agg : LocalAgg} {now : Nat}
    (h : (agg.maybeFlush now).2 = false) :
    agg.pending < 256 ∧ (agg.maybeFlush now).1.tick = (agg.tick + 1) % 2 ^ 32 ∧
      (agg.overdue now = true → (agg.maybeFlush now).1.tick % 64 ≠ 0) := by
  unfold LocalAgg.maybeFlush at h ⊢
  split at h
  · cases h
  · rename_i hsmall
    rw [if_neg hsmall]
    have hmask : (agg.tick + 1) % 2 ^ 32 &&& localTimeCheckMask = (agg.tick + 1) % 2 ^ 32 % 64 :=
      Nat.and_two_pow_sub_one_eq_mod _ 6
    simp only [hmask] at h
    refine ⟨by simpa [localFlushEvery] using hsmall, rfl, fun hoverdue hzero => ?_⟩
    simp only [hoverdue, Bool.and_true, decide_eq_false_iff_not] at h
    exact h hzero

theorem Thread.Ok.new (seed now : Nat) : Thread.Ok ⟨seed, .new now, none, 0⟩ where
  pending := by simp [LocalAgg.new, LocalAgg.pending]
  passed left now h := by cases h
  tick := by simp [LocalAgg.new]
  inTime := by simp

theorem Thread.Ok.count {t : Thread} (h : t.Ok) (hidle : t.flushing = none) (ℓ : Cell) (now : Nat) :
    (t.count ℓ now).Ok := by
  have hset := t.agg.pending_set ℓ (t.agg.cell ℓ + 1)
  have hold := h.pending
  rw [if_pos hidle] at hold
  have hpending := (t.agg.set ℓ (t.agg.cell ℓ + 1)).maybeFlush_pending now
  have htick : (t.agg.set ℓ (t.agg.cell ℓ + 1)).tick = t.agg.tick := rfl
  have hoverdue : (t.agg.set ℓ (t.agg.cell ℓ + 1)).overdue now = t.agg.overdue now := rfl
  cases hflush : ((t.agg.set ℓ (t.agg.cell ℓ + 1)).maybeFlush now).2 with
  | true =>
    refine ⟨?_, ?_, ?_, ?_⟩
    · simp [Thread.count, hflush, hpending]; omega
    · intro left now' heq ℓ' hℓ'
      simp only [Thread.count, hflush, if_true, Option.some.injEq, Prod.mk.injEq] at heq
      rw [← heq.1] at hℓ'
      exact absurd ℓ'.mem_all hℓ'
    · simp only [Thread.count, LocalAgg.maybeFlush]
      have hlt := h.tick
      split
      · exact hlt
      · simp only [htick]; omega
    · simp [Thread.count, hflush]
  | false =>
    obtain ⟨hsmall, hnext, hclock⟩ := LocalAgg.maybeFlush_false hflush
    rw [htick] at hnext
    have hin := h.inTime
    refine ⟨?_, ?_, ?_, ?_⟩
    · simp [Thread.count, hflush, hpending]; omega
    · intro left now' heq
      simp [Thread.count, hflush] at heq
    · simp only [Thread.count, hnext]; omega
    · simp only [Thread.count, hflush, hnext]
      rw [hoverdue, hnext] at hclock
      split
      · cases ‹false = true›
      · split
        · rename_i hlate
          have hne := hclock hlate
          omega
        · omega

/-- The next cell of a flush. -/
theorem Thread.Ok.flushCell {t : Thread} (h : t.Ok) {ℓ : Cell} {left : List Cell} {now : Nat}
    (hflush : t.flushing = some (ℓ :: left, now)) {agg : LocalAgg} (htick : agg.tick = t.agg.tick)
    (hempty : agg.cell ℓ = 0) (hrest : ∀ ℓ' ≠ ℓ, agg.cell ℓ' = t.agg.cell ℓ')
    (hpending : agg.pending ≤ t.agg.pending) :
    Thread.Ok { t with agg := agg, flushing := some (left, now) } := by
  have hold := h.pending
  rw [if_neg (by simp [hflush])] at hold
  refine ⟨?_, ?_, ?_, ?_⟩
  · simp; omega
  · intro left' now' heq ℓ' hℓ'
    simp only [Option.some.injEq, Prod.mk.injEq] at heq
    obtain ⟨rfl, -⟩ := heq
    by_cases heq : ℓ' = ℓ
    · rw [heq]
      exact hempty
    · have hnot : ℓ' ∉ ℓ :: left := by simp [heq, hℓ']
      exact (hrest ℓ' heq).trans (h.passed _ _ hflush ℓ' hnot)
  · have hlt := h.tick
    simp only [htick]
    exact hlt
  · have hin := h.inTime
    simp only [htick]
    exact hin

/-- The end of a flush: nothing is pending. -/
theorem Thread.Ok.flushed {t : Thread} (h : t.Ok) {now : Nat}
    (hflush : t.flushing = some ([], now)) :
    Thread.Ok { t with agg := { t.agg with lastFlushMs := now }, flushing := none } := by
  have hzero : ∀ ℓ, t.agg.cell ℓ = 0 := fun ℓ => h.passed _ _ hflush ℓ (by simp)
  refine ⟨?_, ?_, h.tick, h.inTime⟩
  · simp [LocalAgg.pending, hzero]
  · intro left now' heq
    cases heq

theorem Thread.Ok.resample {t : Thread} (h : t.Ok) (rng : Nat) : Thread.Ok { t with rng := rng } :=
  ⟨h.pending, h.passed, h.tick, h.inTime⟩

theorem Thread.Ok.pending_le {t : Thread} (h : t.Ok) : t.agg.pending ≤ 256 := by
  have hpending := h.pending
  split at hpending <;> omega

/-! ## All threads -/

variable [Fintype C] {bps : Nat} {s : State C}

/-- **What was sampled is exported, pending in one thread, or went with a thread that ended.** -/
structure Accounted (bps : Nat) (s : State C) : Prop where
  threads : ∀ c t, s.thread c = some t → t.Ok
  balance : ∀ κ, s.exported κ + s.lost κ + tally (held κ) s.thread = s.sampled κ
  lost : ∀ κ, s.lost κ ≤ 255 * s.ended
  direct : ∀ κ, κ.cell? = none → s.lost κ = 0
  sampled : ∀ κ, s.sampled κ ≤ s.called κ
  always : sampleBpsMax ≤ bps → ∀ κ, s.sampled κ = s.called κ

omit [DecidableEq C] in
theorem accounted_init (bps : Nat) : Accounted bps (State.init C) where
  threads c t h := by cases h
  balance κ := by
    have hzero : tally (held κ) (State.init C).thread = 0 := tally_eq_zero fun c => rfl
    simp [State.init] at hzero ⊢
    exact hzero
  lost κ := by simp [State.init]
  direct κ _ := rfl
  sampled κ := by simp [State.init]
  always _ κ := rfl

/-- One thread moves, and the counters move by the difference of what it has pending. -/
theorem Accounted.move {s' : State C} (h : Accounted bps s) {c : C} {t : Option Thread}
    (hthread : s'.thread = Function.update s.thread c t) (hok : ∀ t', t = some t' → t'.Ok)
    (hbalance : ∀ κ, s'.exported κ + s'.lost κ + held κ t + s.sampled κ =
      s.exported κ + s.lost κ + held κ (s.thread c) + s'.sampled κ)
    (hlost : ∀ κ, s'.lost κ ≤ 255 * s'.ended) (hdirect : ∀ κ, κ.cell? = none → s'.lost κ = 0)
    (hsampled : ∀ κ, s'.sampled κ ≤ s'.called κ)
    (halways : sampleBpsMax ≤ bps → ∀ κ, s'.sampled κ = s'.called κ) : Accounted bps s' where
  threads c' t' ht' := by
    rw [hthread, Function.update_apply] at ht'
    split at ht'
    · exact hok t' ht'
    · exact h.threads c' t' ht'
  balance κ := by
    have hupdate := tally_update (held κ) s.thread c t
    have hmoved := hbalance κ
    have hold := h.balance κ
    rw [← hthread] at hupdate
    omega
  lost := hlost
  direct := hdirect
  sampled := hsampled
  always := halways

/-- The same where the call counts stay. -/
theorem Accounted.moveQuietly {s' : State C} (h : Accounted bps s) {c : C} {t : Option Thread}
    (hthread : s'.thread = Function.update s.thread c t) (hok : ∀ t', t = some t' → t'.Ok)
    (hsampled : s'.sampled = s.sampled) (hcalled : s'.called = s.called)
    (hbalance : ∀ κ, s'.exported κ + s'.lost κ + held κ t =
      s.exported κ + s.lost κ + held κ (s.thread c))
    (hlost : ∀ κ, s'.lost κ ≤ 255 * s'.ended) (hdirect : ∀ κ, κ.cell? = none → s'.lost κ = 0) :
    Accounted bps s' := by
  refine h.move hthread hok (fun κ => ?_) hlost hdirect ?_ ?_
  · rw [hsampled, hbalance κ]
  · rw [hsampled, hcalled]
    exact h.sampled
  · rw [hsampled, hcalled]
    exact h.always

theorem shouldSample_always (hbps : sampleBpsMax ≤ bps) (rng : Nat) :
    (shouldSample bps rng).1 = true := by simp [shouldSample, hbps]

theorem bump_apply (f : Counter → Nat) (κ κ' : Counter) (n : Nat) :
    bump f κ n κ' = f κ' + if κ = κ' then n else 0 := by
  unfold bump
  rw [Function.update_apply]
  split
  · rename_i heq
    simp [heq]
  · rename_i hne
    simp [Ne.symm hne]

theorem Thread.count_held (t : Thread) {ℓ : Cell} {κ : Counter} (hcell : κ.cell? = some ℓ)
    (now : Nat) (κ' : Counter) :
    (t.count ℓ now).agg.held κ' = t.agg.held κ' + if κ = κ' then 1 else 0 := by
  have hκ := Counter.cell?_eq_some.mp hcell
  have hcells : (t.count ℓ now).agg.held κ' = (t.agg.set ℓ (t.agg.cell ℓ + 1)).held κ' := by
    simp [Thread.count, LocalAgg.held, LocalAgg.maybeFlush_cell]
  rw [hcells, LocalAgg.held_set, hκ]
  split
  · rename_i heq
    simp [LocalAgg.held, ← heq, hcell]
  · rfl

theorem Accounted.inc (h : Accounted bps s) {c : C} {t : Thread} (ht : s.thread c = some t)
    (hidle : t.flushing = none) (κ : Counter) (now : Nat) :
    Accounted bps (s.inc bps c t κ now) := by
  have hok := h.threads c t ht
  have hheld : ∀ κ', held κ' (s.thread c) = t.agg.held κ' := fun κ' => by simp [ht]
  unfold State.inc
  cases hsample : (shouldSample bps t.rng).1 with
  | false =>
    have hless : ¬ sampleBpsMax ≤ bps := fun hbps => by
      rw [shouldSample_always hbps] at hsample
      cases hsample
    simp only [hsample, Bool.false_eq_true, if_false]
    refine h.move (c := c) rfl (fun t' heq => ?_) (fun κ' => ?_) h.lost h.direct (fun κ' => ?_)
      fun hbps => absurd hbps hless
    · cases heq
      exact hok.resample _
    · simp [State.setThread, hheld]
    · have hle := h.sampled κ'
      simp only [State.setThread, bump_apply]
      omega
  | true =>
    have hle : ∀ κ', bump s.sampled κ 1 κ' ≤ bump s.called κ 1 κ' := fun κ' => by
      have hold := h.sampled κ'
      simp only [bump_apply]
      omega
    have hall : sampleBpsMax ≤ bps → ∀ κ', bump s.sampled κ 1 κ' = bump s.called κ 1 κ' :=
      fun hbps κ' => by simp [bump_apply, h.always hbps κ']
    cases hcell : κ.cell? with
    | some ℓ =>
      simp only [hsample, if_true]
      refine h.move (c := c) rfl (fun t' heq => ?_) (fun κ' => ?_) h.lost h.direct hle hall
      · cases heq
        exact (hok.resample (shouldSample bps t.rng).2).count hidle ℓ now
      · have hcount :
            ({ t with rng := (shouldSample bps t.rng).2 }.count ℓ now).agg.held κ' =
              t.agg.held κ' + if κ = κ' then 1 else 0 := Thread.count_held _ hcell now κ'
        simp only [State.setThread, hheld, held_some, hcount, bump_apply]
        omega
    | none =>
      simp only [hsample, if_true]
      refine h.move (c := c) rfl (fun t' heq => ?_) (fun κ' => ?_) h.lost h.direct hle hall
      · cases heq
        exact hok.resample _
      · simp only [State.setThread, hheld, held_some, bump_apply]
        omega

theorem Accounted.flush (h : Accounted bps s) {c : C} {t : Thread} (ht : s.thread c = some t) :
    Accounted bps (s.flush c t) := by
  have hok := h.threads c t ht
  have hheld : ∀ κ, held κ (s.thread c) = t.agg.held κ := fun κ => by simp [ht]
  unfold State.flush
  split
  · rename_i ℓ left now hflush
    split
    · refine h.moveQuietly (c := c) rfl (fun t' heq => ?_) rfl rfl (fun κ => ?_) h.lost h.direct
      · cases heq
        have hset := t.agg.pending_set ℓ 0
        refine hok.flushCell hflush rfl (by simp [LocalAgg.set]) (fun ℓ' hne => ?_) (by omega)
        simp [LocalAgg.set, hne]
      · simp only [State.setThread, hheld, held_some, bump_apply, LocalAgg.held_set]
        split
        · rename_i heq
          have hcell := Counter.cell?_eq_some.mpr heq
          simp only [LocalAgg.held, hcell]
          omega
        · omega
    · rename_i hzero
      refine h.moveQuietly (c := c) rfl (fun t' heq => ?_) rfl rfl (fun κ => ?_) h.lost h.direct
      · cases heq
        exact hok.flushCell hflush rfl (by omega) (fun _ _ => rfl) (Nat.le_refl _)
      · simp [State.setThread, hheld]
  · rename_i now hflush
    refine h.moveQuietly (c := c) rfl (fun t' heq => ?_) rfl rfl (fun κ => ?_) h.lost h.direct
    · cases heq
      exact hok.flushed hflush
    · simp [State.setThread, hheld, LocalAgg.held]
  · exact h

/-- A thread that ends takes what it has pending with it. -/
theorem Accounted.finish (h : Accounted bps s) {c : C} {t : Thread} (ht : s.thread c = some t)
    (hidle : t.flushing = none) :
    Accounted bps ({ s with
      lost := fun κ => s.lost κ + t.agg.held κ
      ended := s.ended + 1 }.setThread c none) := by
  have hpending := (h.threads c t ht).pending
  rw [if_pos hidle] at hpending
  refine h.moveQuietly (c := c) rfl (fun t' heq => by cases heq) rfl rfl (fun κ => ?_) (fun κ => ?_)
    fun κ hcell => ?_
  · simp only [State.setThread, ht, held_some, held_none]
    omega
  · have hlost := h.lost κ
    have hle := t.agg.held_le_pending κ
    simp only [State.setThread]
    omega
  · have hlost := h.direct κ hcell
    simp [State.setThread, LocalAgg.held, hcell, hlost]

theorem Accounted.step (h : Accounted bps s) (e : Event C) : Accounted bps (step bps s e) := by
  cases e with
  | begin c seed now =>
    simp only [Aggregation.step]
    split
    · rename_i hnone
      refine h.moveQuietly (c := c) rfl (fun t' heq => ?_) rfl rfl (fun κ => ?_) h.lost h.direct
      · cases heq
        exact .new seed now
      · have hempty : (LocalAgg.new now).held κ = 0 := by
          unfold LocalAgg.held LocalAgg.new
          split <;> rfl
        simp [State.setThread, hnone, hempty]
    · exact h
  | inc c κ now =>
    simp only [Aggregation.step]
    split
    · rename_i t ht
      split
      · rename_i hidle
        exact h.inc ht hidle κ now
      · exact h
    · exact h
  | flush c =>
    simp only [Aggregation.step]
    split
    · rename_i t ht
      exact h.flush ht
    · exact h
  | finish c =>
    simp only [Aggregation.step]
    split
    · rename_i t ht
      split
      · rename_i hidle
        exact h.finish ht hidle
      · exact h
    · exact h

theorem accounted_run (bps : Nat) (es : List (Event C)) : Accounted bps (after bps es) := by
  have hstep : ∀ (s : State C) (e : Event C), Accounted bps s → Accounted bps (step bps s e) :=
    fun s e h => h.step e
  exact invariant_run hstep (accounted_init bps) es

/-- **A counter never runs ahead of the calls, and is behind by at most 256 for each thread and 255
for each that ended**; with every call sampled, of the calls themselves.  A counter without a cell
is never behind. -/
theorem exported_lags (bps : Nat) (es : List (Event C)) (κ : Counter) :
    (after bps es).exported κ ≤ (after bps es).sampled κ ∧
      (after bps es).sampled κ ≤ (after bps es).exported κ +
        256 * Fintype.card C + 255 * (after bps es).ended ∧
      (κ.cell? = none → (after bps es).exported κ = (after bps es).sampled κ) ∧
      (after bps es).sampled κ ≤ (after bps es).called κ ∧
      (sampleBpsMax ≤ bps → (after bps es).sampled κ = (after bps es).called κ) := by
  have h := accounted_run bps es
  generalize after bps es = s at h ⊢
  have hbalance := h.balance κ
  have hlost := h.lost κ
  refine ⟨by omega, ?_, fun hcell => ?_, h.sampled κ, fun hbps => h.always hbps κ⟩
  · have hheld : tally (held κ) s.thread ≤ Fintype.card C * 256 := by
      refine Finset.sum_le_card_nsmul _ _ _ fun c _ => ?_
      cases ht : s.thread c with
      | none => simp
      | some t =>
        have hpending := (h.threads c t ht).pending_le
        have hle := t.agg.held_le_pending κ
        simp only [held_some]
        omega
    omega
  · have hzero : tally (held κ) s.thread = 0 := tally_eq_zero fun c => by
      cases s.thread c <;> simp [LocalAgg.held, hcell]
    have hdirect := h.direct κ hcell
    omega

/-- **No thread counts 64 times in a row past the interval without a flush, and none has 256
increments pending between two calls.** -/
theorem flushed_in_time (bps : Nat) (es : List (Event C)) :
    ¬ ∃ c t, (after bps es).thread c = some t ∧
      (64 ≤ t.overdueCalls ∨ t.flushing = none ∧ 256 ≤ t.agg.pending) := by
  rintro ⟨c, t, ht, hlate⟩
  have hok := (accounted_run bps es).threads c t ht
  have hin := hok.inTime
  have hpending := hok.pending
  rcases hlate with hlate | ⟨hidle, hmany⟩
  · omega
  · rw [if_pos hidle] at hpending
    omega

end TitanDns.Aggregation
