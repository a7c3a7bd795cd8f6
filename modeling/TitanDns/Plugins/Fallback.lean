import TitanDns.Lib.Loop
import TitanDns.Lib.Select

/-!
# The loops of `FallbackPlugin::handle_fallback`

A branch of the plugin is run on a clone of the context under a timeout (`runBranch`): it succeeds
when the plugin returns `Ok` and left a response.  The loops only see when a branch arrives and
with what, so they are generic in the context; the random starts of `select!` are inputs.

* `standbyLoop` — the loop with `always_standby`: both branches from the start, the secondary's
  context kept in `secondary_cached` until it may be used.
* `thresholdFallback` — without it: the secondary starts after the threshold or the primary.

Principal results: `standby_good_iff` — **with `always_standby` the loop ends as documented, for
every order of arrival, exactly when the secondary succeeds or the primary succeeds first**: a
failed secondary is forgotten by `take()` and its finished future is polled again.
-/

namespace TitanDns

open Select Loop

variable {C : Type}

/-- How a call of `Plugin::handle` ends: it returns a result and leaves the context, or panics. -/
inductive Handled (C : Type) where
  | returned (ctx : C) (res : Except String Unit)
  | panicked

def Handled.context? : Handled C → Option C
  | .returned ctx _ => some ctx
  | .panicked => none

/-- A call with the time it takes, in milliseconds. -/
structure Call (C : Type) where
  duration : Nat
  handled : Handled C

/-- When a branch arrives, and its context if it succeeded; or it panics then. -/
structure Arrival (C : Type) where
  readyAt : Nat
  result : Option C
  panics : Bool

/-- `DEFAULT_PARALLEL_TIMEOUT`, in milliseconds. -/
def DEFAULT_PARALLEL_TIMEOUT : Nat := 5000

/-- The closure `run`: success is `Ok` within the timeout and a response in the context. -/
def runBranch (hasResponse : C → Bool) (call : Call C) : Arrival C :=
  if call.duration ≤ DEFAULT_PARALLEL_TIMEOUT then
    match call.handled with
    | .returned ctx (.ok ()) => ⟨call.duration, if hasResponse ctx then some ctx else none, false⟩
    | .returned _ (.error _) => ⟨call.duration, none, false⟩
    | .panicked => ⟨call.duration, none, true⟩
  else ⟨DEFAULT_PARALLEL_TIMEOUT, none, false⟩

inductive Side where
  | primary
  | secondary
  deriving DecidableEq, Repr

/-- How a loop ends, and when. -/
inductive LoopEnd (C : Type) where
  /-- `apply_ctx(success_ctx, ctx); return Ok(())` -/
  | ok (side : Side) (ctx : C) (t : Nat)
  /-- `Both upstreams failed` -/
  | err (t : Nat)
  /-- A finished future was polled, or a branch panicked. -/
  | panicked (t : Nat)
  /-- Every branch of a `select!` was disabled. -/
  | disabled (t : Nat)
  | outOfFuel
  deriving DecidableEq

/-! ## `always_standby` -/

/-- State of the loop; the last two say which futures are finished. -/
structure Standby (C : Type) where
  now : Nat
  primaryDone : Bool
  secondaryCached : Option (Option C)
  allowSecondary : Bool
  primarySpent : Bool
  secondarySpent : Bool

def Standby.init : Standby C := ⟨0, false, none, false, false, false⟩

section
variable (p s : Arrival C) (threshold : Nat)

/-- The branches in source order; a fired timer may be polled again. -/
def Standby.branches (st : Standby C) : List Branch :=
  [⟨!st.primaryDone, p.readyAt, st.primarySpent⟩,
   ⟨st.secondaryCached.isNone, s.readyAt, st.secondarySpent⟩,
   ⟨!st.allowSecondary, threshold, false⟩]

/-- After a branch: the loop condition. -/
def Standby.next (st : Standby C) : Standby C ⊕ LoopEnd C :=
  if st.primaryDone && st.secondaryCached.isSome && st.allowSecondary then .inr (.err st.now)
  else .inl st

/-- `if let Some(Some(success_ctx)) = secondary_cached.take() { … }`. -/
def Standby.takeSecondary (st : Standby C) : Standby C ⊕ LoopEnd C :=
  match st.secondaryCached with
  | some (some ctx) => .inr (.ok .secondary ctx st.now)
  | _ => { st with secondaryCached := none }.next

def Standby.onPrimary (st : Standby C) (t : Nat) : Standby C ⊕ LoopEnd C :=
  let st := { st with now := t, primaryDone := true, primarySpent := true }
  if p.panics then .inr (.panicked t) else
  match p.result with
  | some ctx => .inr (.ok .primary ctx t)
  | none => { st with allowSecondary := true }.takeSecondary

def Standby.onSecondary (st : Standby C) (t : Nat) : Standby C ⊕ LoopEnd C :=
  let st := { st with now := t, secondaryCached := some s.result, secondarySpent := true }
  if s.panics then .inr (.panicked t) else
  if st.allowSecondary then st.takeSecondary else st.next

def Standby.onDelay (st : Standby C) (t : Nat) : Standby C ⊕ LoopEnd C :=
  { st with now := t, allowSecondary := true }.takeSecondary

/-- One iteration. -/
def standbyStep (st : Standby C) (start again : Nat) : Standby C ⊕ LoopEnd C :=
  match select (st.branches p s threshold) st.now start again with
  | .fired 0 t => st.onPrimary p t
  | .fired 1 t => st.onSecondary s t
  | .fired _ t => st.onDelay t
  | .panicked t => .inr (.panicked t)
  | .disabled => .inr (.disabled st.now)
  | .idle => .inr .outOfFuel

/-- The loop, with the random starts of each iteration. -/
def standbyLoop (starts : Nat → Nat × Nat) : Nat → Standby C → LoopEnd C :=
  loop (fun n st => standbyStep p s threshold st (starts n).1 (starts n).2) .outOfFuel

/-- Three futures finish at most once each, so four iterations decide. -/
def standbyFallback (starts : Nat → Nat × Nat) : LoopEnd C :=
  standbyLoop p s threshold starts 4 Standby.init

end

/-! ## Correctness with `always_standby` -/

section
variable {p s : Arrival C} {threshold : Nat}

/-- What the loop may return: a context of a branch that arrived with it, the secondary's only
after the primary failed or the threshold elapsed, and an error only when both failed. -/
def AsDocumented (p s : Arrival C) (threshold : Nat) : LoopEnd C → Prop
  | .ok .primary ctx t => p.result = some ctx ∧ p.readyAt ≤ t
  | .ok .secondary ctx t =>
    s.result = some ctx ∧ s.readyAt ≤ t ∧ (p.result = none ∧ p.readyAt ≤ t ∨ threshold ≤ t)
  | .err _ => p.result = none ∧ s.result = none
  | .panicked _ => False
  | .disabled _ => False
  | .outOfFuel => False

/-- Neither branch panics on its own. -/
def Quiet (p s : Arrival C) : Prop := p.panics = false ∧ s.panics = false

/-- The secondary succeeds, or the primary succeeds before the secondary fails or before the
threshold. -/
def StandbySafe (p s : Arrival C) (threshold : Nat) : Prop :=
  s.result.isSome = true ∨ p.result.isSome = true ∧ (p.readyAt < s.readyAt ∨ p.readyAt < threshold)

/-- Invariant of the loop: what is cached is the secondary's result and may not be used yet, and
the time has not passed a primary that is still awaited. -/
structure StandbyInv (p s : Arrival C) (threshold : Nat) (st : Standby C) : Prop where
  primarySpent : st.primarySpent = st.primaryDone
  secondarySpent : st.secondarySpent = st.secondaryCached.isSome
  cached : ∀ r, st.secondaryCached = some r →
    r = s.result ∧ s.readyAt ≤ st.now ∧ st.allowSecondary = false
  allowed : st.allowSecondary = true → st.primaryDone = true ∨ threshold ≤ st.now
  done : st.primaryDone = true → p.result = none ∧ p.readyAt ≤ st.now ∧ st.allowSecondary = true
  awaited : st.primaryDone = false → st.now ≤ p.readyAt

theorem StandbyInv.init : StandbyInv p s threshold Standby.init :=
  ⟨rfl, rfl, fun _ h => (by cases h), fun h => (by cases h), fun h => (by cases h),
    fun _ => Nat.zero_le _⟩

/-- No branch that is polled is used up. -/
theorem StandbyInv.unspent {st : Standby C} (hinv : StandbyInv p s threshold st) :
    ∀ b ∈ st.branches p s threshold, b.enabled = true → b.spent = false := by
  intro b hb hen
  simp only [Standby.branches, List.mem_cons, List.not_mem_nil, or_false] at hb
  rcases hb with rfl | rfl | rfl
  · simpa [hinv.primarySpent] using hen
  · simpa [hinv.secondarySpent] using hen
  · rfl

/-- Futures and timer still to come. -/
def Standby.remaining (st : Standby C) : Nat :=
  (if st.primaryDone then 0 else 1) + (if st.secondarySpent then 0 else 1) +
    (if st.allowSecondary then 0 else 1)

/-- What a step owes: a documented end, or the invariant with less to come. -/
abbrev StandbyStepOk (p s : Arrival C) (threshold : Nat) (st : Standby C) :
    Standby C ⊕ LoopEnd C → Prop :=
  Owes (StandbyInv p s threshold) Standby.remaining (AsDocumented p s threshold) st

/-- With nothing cached the loop goes on. -/
theorem Standby.next_of_none {st : Standby C} (h : st.secondaryCached = none) :
    st.next = .inl st := by
  unfold Standby.next
  simp [h]

/-- As long as the secondary may not be used, the loop goes on. -/
theorem Standby.next_of_not_allowed {st : Standby C} (h : st.allowSecondary = false) :
    st.next = .inl st := by
  unfold Standby.next
  simp [h]

theorem Standby.init_remaining : (Standby.init : Standby C).remaining = 3 := rfl

/-- The primary is awaited until the secondary may be used. -/
theorem StandbyInv.awaits {st : Standby C} (hinv : StandbyInv p s threshold st)
    (ha : st.allowSecondary = false) : st.primaryDone = false := by
  cases hd : st.primaryDone with
  | false => rfl
  | true =>
    rw [(hinv.done hd).2.2] at ha
    cases ha

theorem onPrimary_ok {st : Standby C} {t : Nat} (hq : Quiet p s)
    (hsafe : StandbySafe p s threshold) (hinv : StandbyInv p s threshold st) (hnow : st.now ≤ t)
    (hdone : st.primaryDone = false)
    (hready : p.readyAt ≤ t) : StandbyStepOk p s threshold st (st.onPrimary p t) := by
  unfold Standby.onPrimary
  simp only [hq.1, Bool.false_eq_true, if_false]
  cases hp : p.result with
  | some ctx => exact ⟨hp, hready⟩
  | none =>
    have hs : s.result.isSome := by
      rcases hsafe with hs | ⟨hp', -⟩
      · exact hs
      · rw [hp] at hp'
        cases hp'
    unfold Standby.takeSecondary
    cases hc : st.secondaryCached with
    | some r =>
      obtain ⟨rfl, hsr, -⟩ := hinv.cached r hc
      obtain ⟨ctx, hctx⟩ := Option.isSome_iff_exists.mp hs
      simp only [hctx]
      exact ⟨hctx, Nat.le_trans hsr hnow, Or.inl ⟨hp, hready⟩⟩
    | none =>
      simp only
      rw [Standby.next_of_none rfl]
      have hspent : st.secondarySpent = false := by rw [hinv.secondarySpent, hc]; rfl
      refine ⟨⟨rfl, hspent, fun r h => (by cases h), fun _ => Or.inl rfl,
        fun _ => ⟨hp, hready, rfl⟩, fun h => (by cases h)⟩, ?_⟩
      cases ha : st.allowSecondary <;> simp [Standby.remaining, hdone, hspent, ha]

theorem onSecondary_ok {st : Standby C} {t : Nat} (hq : s.panics = false)
    (hsafe : StandbySafe p s threshold) (hinv : StandbyInv p s threshold st) (hnow : st.now ≤ t)
    (hcached : st.secondaryCached = none)
    (hready : s.readyAt ≤ t) (hearly : st.primaryDone = false → t ≤ p.readyAt) :
    StandbyStepOk p s threshold st (st.onSecondary s t) := by
  have hspent : st.secondarySpent = false := by rw [hinv.secondarySpent, hcached]; rfl
  unfold Standby.onSecondary
  simp only [hq, Bool.false_eq_true, if_false]
  cases ha : st.allowSecondary with
  | true =>
    unfold Standby.takeSecondary
    cases hs : s.result with
    | some ctx =>
      refine ⟨hs, hready, ?_⟩
      rcases hinv.allowed ha with hdone | hthr
      · obtain ⟨hp, hpr, -⟩ := hinv.done hdone
        exact Or.inl ⟨hp, Nat.le_trans hpr hnow⟩
      · exact Or.inr (Nat.le_trans hthr hnow)
    | none =>
      -- the secondary failed after it was allowed: then the primary was to win
      exfalso
      rcases hsafe with hs' | ⟨hp, hwin⟩
      · rw [hs] at hs'
        cases hs'
      · have hdone : st.primaryDone = false := by
          cases hd : st.primaryDone with
          | false => rfl
          | true =>
            rw [(hinv.done hd).1] at hp
            cases hp
        have hpt := hearly hdone
        rcases hinv.allowed ha with hd | hthr
        · rw [hdone] at hd
          cases hd
        · have := hinv.awaited hdone
          omega
  | false =>
    have hdone := hinv.awaits ha
    simp only [Bool.false_eq_true, if_false]
    rw [Standby.next_of_not_allowed rfl]
    refine ⟨⟨hinv.primarySpent, rfl, fun r h => ?_, fun h => (by cases h), fun h => ?_,
      fun _ => hearly hdone⟩, ?_⟩
    · cases h
      exact ⟨rfl, hready, rfl⟩
    · rw [hdone] at h
      cases h
    · simp [Standby.remaining, hspent, hdone, ha]

theorem onDelay_ok {st : Standby C} {t : Nat} (hsafe : StandbySafe p s threshold)
    (hinv : StandbyInv p s threshold st) (hnow : st.now ≤ t) (ha : st.allowSecondary = false)
    (hready : threshold ≤ t) (hearly : st.primaryDone = false → t ≤ p.readyAt) :
    StandbyStepOk p s threshold st (st.onDelay t) := by
  have hdone := hinv.awaits ha
  unfold Standby.onDelay Standby.takeSecondary
  cases hc : st.secondaryCached with
  | none =>
    have hspent : st.secondarySpent = false := by rw [hinv.secondarySpent, hc]; rfl
    simp only
    rw [Standby.next_of_none rfl]
    refine ⟨⟨hinv.primarySpent, hspent, fun r h => (by cases h), fun _ => Or.inr hready,
      fun h => ?_, fun _ => hearly hdone⟩, ?_⟩
    · rw [hdone] at h
      cases h
    · simp [Standby.remaining, hspent, hdone, ha]
  | some r =>
    obtain ⟨rfl, hsr, -⟩ := hinv.cached r hc
    cases hs : s.result with
    | some ctx => exact ⟨hs, Nat.le_trans hsr hnow, Or.inr hready⟩
    | none =>
      -- the secondary failed before the threshold: then the primary was to win
      exfalso
      rcases hsafe with hs' | ⟨-, hwin⟩
      · rw [hs] at hs'
        cases hs'
      · have hpt := hearly hdone
        omega

/-- **One iteration.** -/
theorem standbyStep_ok (hq : Quiet p s) (hsafe : StandbySafe p s threshold) {st : Standby C}
    (hinv : StandbyInv p s threshold st) (start again : Nat) :
    StandbyStepOk p s threshold st (standbyStep p s threshold st start again) := by
  have henabled : ∃ b ∈ st.branches p s threshold, b.enabled = true := by
    cases hd : st.primaryDone with
    | false => exact ⟨_, List.mem_cons_self, by simp [hd]⟩
    | true =>
      -- a finished primary leaves the secondary awaited
      refine ⟨_, List.mem_cons_of_mem _ List.mem_cons_self, ?_⟩
      cases hc : st.secondaryCached with
      | none => rfl
      | some r =>
        have := (hinv.cached r hc).2.2
        rw [(hinv.done hd).2.2] at this
        cases this
  obtain ⟨i, t, b, hsel, hnow, hbi, hen, hready, hmin⟩ :=
    select_fires hinv.unspent henabled st.now start again
  have hearly : st.primaryDone = false → t ≤ p.readyAt := by
    intro hd
    have hle := hmin ⟨!st.primaryDone, p.readyAt, st.primarySpent⟩ List.mem_cons_self
      (by simp [hd])
    have := hinv.awaited hd
    simp only at hle
    omega
  unfold standbyStep
  rw [hsel]
  rcases triple_cases hbi with ⟨rfl, rfl⟩ | ⟨rfl, rfl⟩ | ⟨rfl, rfl⟩
  · exact onPrimary_ok hq hsafe hinv hnow (by simpa using hen) hready
  · exact onSecondary_ok hq.2 hsafe hinv hnow (by simpa using hen) hready hearly
  · exact onDelay_ok hsafe hinv hnow (by simpa using hen) hready hearly

/-- **The loop ends as documented**, given more iterations than there is still to come. -/
theorem standbyLoop_ok (hq : Quiet p s) (hsafe : StandbySafe p s threshold)
    (starts : Nat → Nat × Nat) {n : Nat} {st : Standby C} (hinv : StandbyInv p s threshold st)
    (hn : st.remaining < n) : AsDocumented p s threshold (standbyLoop p s threshold starts n st) :=
  loop_good (fun n _ hinv => standbyStep_ok hq hsafe hinv (starts n).1 (starts n).2) hinv hn

/-! ## Where it does not -/

/-- What may be used is not cached. -/
def Standby.Consumed (st : Standby C) : Prop :=
  st.allowSecondary = true → st.secondaryCached = none

/-- Whatever is taken out, the loop condition then asks for a cached result in vain. -/
theorem takeSecondary_ne_err (st : Standby C) (t : Nat) : st.takeSecondary ≠ .inr (.err t) := by
  unfold Standby.takeSecondary
  split
  · simp
  · rw [Standby.next_of_none rfl]
    simp

theorem standbyStep_ne_err (st : Standby C) (start again t : Nat) :
    standbyStep p s threshold st start again ≠ .inr (.err t) := by
  unfold standbyStep
  split
  · unfold Standby.onPrimary
    simp only
    split
    · simp
    · cases p.result with
      | some ctx => simp
      | none => exact takeSecondary_ne_err _ _
  · unfold Standby.onSecondary
    simp only
    split
    · simp
    · cases ha : st.allowSecondary with
      | true => exact takeSecondary_ne_err _ _
      | false =>
        simp only [Bool.false_eq_true, if_false]
        rw [Standby.next_of_not_allowed rfl]
        simp
  · exact takeSecondary_ne_err _ _
  · simp
  · simp
  · simp

/-- **The error is never returned.** -/
theorem standbyLoop_ne_err (starts : Nat → Nat × Nat) (n : Nat) (st : Standby C) (t : Nat) :
    standbyLoop p s threshold starts n st ≠ .err t := by
  refine @loop_avoids _ _ _ _ (fun _ => True) (· ≠ LoopEnd.err t) (fun h => (by cases h))
    (fun n st st' _ _ => trivial) (fun n st e _ hinr => ?_) _ _ trivial
  rintro rfl
  exact standbyStep_ne_err st _ _ t hinr

/-- On the way to the panic: the primary is awaited, the secondary failed or will fail, and its
failure is cached only as long as it may not be used. -/
structure Doomed (p s : Arrival C) (threshold : Nat) (st : Standby C) : Prop where
  primaryDone : st.primaryDone = false
  awaited : st.now ≤ p.readyAt
  cached : st.secondaryCached = none ∨ st.secondaryCached = some none
  consumed : st.Consumed

/-- The failure of the secondary is cached, or used up. -/
theorem Doomed.onSecondary (hpanics : s.panics = false) (hs : s.result = none) {st : Standby C}
    (hd : Doomed p s threshold st) (hspent : st.secondarySpent = false) {t : Nat}
    (hearly : t ≤ p.readyAt) :
    ∃ st', st.onSecondary s t = .inl st' ∧ Doomed p s threshold st' ∧
      st'.remaining < st.remaining := by
  have hprim : st.primaryDone = false := hd.primaryDone
  unfold Standby.onSecondary
  simp only [hpanics, Bool.false_eq_true, if_false]
  cases ha : st.allowSecondary with
  | true =>
    simp only [Standby.takeSecondary, hs, if_true]
    rw [Standby.next_of_none rfl]
    refine ⟨_, rfl, ⟨hprim, hearly, Or.inl rfl, fun _ => rfl⟩, ?_⟩
    simp [Standby.remaining, hprim, hspent, ha]
  | false =>
    simp only [hs, Bool.false_eq_true, if_false]
    rw [Standby.next_of_not_allowed rfl]
    refine ⟨_, rfl, ⟨hprim, hearly, Or.inr rfl, fun h => (by cases h)⟩, ?_⟩
    simp [Standby.remaining, hprim, hspent, ha]

/-- The threshold passes, and a cached failure is used up. -/
theorem Doomed.onDelay {st : Standby C} (hd : Doomed p s threshold st)
    (ha : st.allowSecondary = false) {t : Nat} (hearly : t ≤ p.readyAt) :
    ∃ st', st.onDelay t = .inl st' ∧ Doomed p s threshold st' ∧
      st'.remaining < st.remaining := by
  have hprim : st.primaryDone = false := hd.primaryDone
  unfold Standby.onDelay Standby.takeSecondary
  rcases hd.cached with hc | hc
  · simp only [hc]
    rw [Standby.next_of_none rfl]
    refine ⟨_, rfl, ⟨hprim, hearly, Or.inl rfl, fun _ => rfl⟩, ?_⟩
    simp [Standby.remaining, hprim, ha]
  · simp only [hc]
    rw [Standby.next_of_none rfl]
    refine ⟨_, rfl, ⟨hprim, hearly, Or.inl rfl, fun _ => rfl⟩, ?_⟩
    simp [Standby.remaining, hprim, ha]

/-- **Polled from the secondary on, the loop panics**: the secondary's failure and the threshold
both come before the primary. -/
theorem standbyStep_doomed (hq : Quiet p s) (hs : s.result = none) (hthr : threshold ≤ p.readyAt)
    (hsp : s.readyAt ≤ p.readyAt) {st : Standby C} (hd : Doomed p s threshold st) :
    (∃ t, standbyStep p s threshold st 1 1 = .inr (.panicked t)) ∨
      ∃ st', standbyStep p s threshold st 1 1 = .inl st' ∧ Doomed p s threshold st' ∧
        st'.remaining < st.remaining := by
  have hprim : st.primaryDone = false := hd.primaryDone
  unfold standbyStep
  cases hsel : select (st.branches p s threshold) st.now 1 1 with
  | panicked t => exact Or.inl ⟨t, rfl⟩
  | idle => exact absurd hsel select_ne_idle
  | disabled =>
    have := select_disabled hsel ⟨!st.primaryDone, p.readyAt, st.primarySpent⟩ List.mem_cons_self
    simp [hprim] at this
  | fired i t =>
    obtain ⟨hnow, ⟨b, hbi, hen, hspent, hready⟩, hmin⟩ := select_fired hsel
    have hpoll : poll t (st.branches p s threshold) [1, 2, 0] = .fired i := by
      rcases select_fired_poll hsel with h | h
      · exact h
      · exact h
    have hearly : t ≤ p.readyAt := by
      have hle := hmin ⟨!st.primaryDone, p.readyAt, st.primarySpent⟩ List.mem_cons_self
        (by simp [hprim])
      have := hd.awaited
      simp only at hle
      omega
    rcases triple_cases hbi with ⟨rfl, rfl⟩ | ⟨rfl, rfl⟩ | ⟨rfl, rfl⟩
    · -- the secondary and the timer are polled first
      exfalso
      obtain ⟨hpoll, h1⟩ := poll_fired_tail hpoll (by decide)
      obtain ⟨-, h2⟩ := poll_fired_tail hpoll (by decide)
      cases ha : st.allowSecondary with
      | true =>
        have := h1 _ rfl (by simp [hd.consumed ha])
        simp only at this hready
        omega
      | false =>
        have := h2 _ rfl (by simp [ha])
        simp only at this hready
        omega
    · exact Or.inr (hd.onSecondary hq.2 hs hspent hearly)
    · exact Or.inr (hd.onDelay (by simpa using hen) hearly)

theorem standbyLoop_doomed (hq : Quiet p s) (hs : s.result = none) (hthr : threshold ≤ p.readyAt)
    (hsp : s.readyAt ≤ p.readyAt) {n : Nat} {st : Standby C} (hd : Doomed p s threshold st)
    (hn : st.remaining < n) :
    ∃ t, standbyLoop p s threshold (fun _ => (1, 1)) n st = .panicked t := by
  refine @loop_good _ _ _ _ (Doomed p s threshold) Standby.remaining
    (fun e => ∃ t, e = LoopEnd.panicked t) (fun n st hd => ?_) _ _ hd hn
  rcases standbyStep_doomed hq hs hthr hsp hd with ⟨t, h⟩ | ⟨st', h, hd', hlt⟩
  · rw [h]
    exact ⟨t, rfl⟩
  · rw [h]
    exact ⟨hd', hlt⟩

/-- **Exactly when the loop ends as documented**, whatever the random starts. -/
theorem standby_good_iff (hq : Quiet p s) :
    (∀ starts, AsDocumented p s threshold (standbyFallback p s threshold starts)) ↔
      StandbySafe p s threshold := by
  constructor
  · intro hall
    by_cases hs : s.result.isSome = true
    · exact Or.inl hs
    have hs : s.result = none := by simpa using hs
    cases hp : p.result with
    | none =>
      -- both fail, and the error is never returned
      exfalso
      have hdoc := hall fun _ => (0, 0)
      have hne : ∀ t, standbyFallback p s threshold (fun _ => (0, 0)) ≠ .err t :=
        standbyLoop_ne_err _ _ _
      cases hend : standbyFallback p s threshold (fun _ => (0, 0)) with
      | ok side ctx t =>
        rw [hend] at hdoc
        cases side with
        | primary =>
          rw [hdoc.1] at hp
          cases hp
        | secondary =>
          rw [hdoc.1] at hs
          cases hs
      | err t => exact hne t hend
      | panicked t =>
        rw [hend] at hdoc
        exact hdoc
      | disabled t =>
        rw [hend] at hdoc
        exact hdoc
      | outOfFuel =>
        rw [hend] at hdoc
        exact hdoc
    | some ctx =>
      refine Or.inr ⟨by rw [hp]; rfl, ?_⟩
      by_contra hlate
      have hdoc := hall fun _ => (1, 1)
      obtain ⟨t, hpanic⟩ := standbyLoop_doomed hq hs (by omega) (by omega)
        (show Doomed p s threshold Standby.init from
          ⟨rfl, Nat.zero_le _, Or.inl rfl, fun h => (by cases h)⟩)
        (show Standby.init.remaining < 4 by rw [Standby.init_remaining]; omega)
      rw [standbyFallback, hpanic] at hdoc
      exact hdoc
  · intro hsafe starts
    exact standbyLoop_ok hq hsafe starts StandbyInv.init (by rw [Standby.init_remaining]; omega)

end

/-! ## Threshold -/

/-- State of the loop once the secondary is started. -/
structure Started (C : Type) where
  now : Nat
  primaryDone : Bool
  secondaryDone : Bool

/-- Branches not done. -/
def Started.remaining (st : Started C) : Nat :=
  (if st.primaryDone then 0 else 1) + (if st.secondaryDone then 0 else 1)

section
variable (p s : Arrival C)

def startedStep (st : Started C) (start again : Nat) : Started C ⊕ LoopEnd C :=
  match select [⟨!st.primaryDone, p.readyAt, st.primaryDone⟩,
      ⟨!st.secondaryDone, s.readyAt, st.secondaryDone⟩] st.now start again with
  | .fired 0 t =>
    if p.panics then .inr (.panicked t) else
    match p.result with
    | some ctx => .inr (.ok .primary ctx t)
    | none =>
      if st.secondaryDone then .inr (.err t) else .inl { st with now := t, primaryDone := true }
  | .fired _ t =>
    if s.panics then .inr (.panicked t) else
    match s.result with
    | some ctx => .inr (.ok .secondary ctx t)
    | none =>
      if st.primaryDone then .inr (.err t) else .inl { st with now := t, secondaryDone := true }
  | .panicked t => .inr (.panicked t)
  | .disabled => .inr (.disabled st.now)
  | .idle => .inr .outOfFuel

def startedLoop (starts : Nat → Nat × Nat) : Nat → Started C → LoopEnd C :=
  loop (fun n st => startedStep p s st (starts n).1 (starts n).2) .outOfFuel

end

/-- `!always_standby`: `s` arrives `s.readyAt` after it is started. -/
def thresholdFallback (p s : Arrival C) (threshold : Nat) (starts : Nat → Nat × Nat) : LoopEnd C :=
  match select [⟨true, p.readyAt, false⟩, ⟨true, threshold, false⟩] 0 (starts 0).1 (starts 0).2 with
  | .fired 0 t =>
    if p.panics then .panicked t else
    match p.result with
    | some ctx => .ok .primary ctx t
    | none =>
      if s.panics then .panicked (t + s.readyAt) else
      match s.result with
      | some ctx => .ok .secondary ctx (t + s.readyAt)
      | none => .err (t + s.readyAt)
  | .fired _ t =>
    startedLoop p { s with readyAt := t + s.readyAt } (fun n => starts (n + 1)) 3 ⟨t, false, false⟩
  | .panicked t => .panicked t
  | .disabled => .disabled 0
  | .idle => .outOfFuel

/-- `handle_fallback` up to `apply_ctx`: both branches under `run`, then the loop. -/
def fallbackLoop (hasResponse : C → Bool) (threshold : Nat) (alwaysStandby : Bool)
    (primary secondary : Call C) (starts : Nat → Nat × Nat) : LoopEnd C :=
  let p := runBranch hasResponse primary
  let s := runBranch hasResponse secondary
  if alwaysStandby then standbyFallback p s threshold starts
  else thresholdFallback p s threshold starts

theorem runBranch_quiet (hasResponse : C → Bool) (duration : Nat) (ctx : C)
    (res : Except String Unit) :
    (runBranch hasResponse ⟨duration, .returned ctx res⟩).panics = false := by
  unfold runBranch
  simp only
  split
  · rcases res with _ | _ <;> rfl
  · rfl

/-- **`always_standby` ends as documented, for every order of arrival, exactly when** the
secondary succeeds, or the primary succeeds before the secondary fails or before the threshold. -/
theorem fallback_standby_iff (hasResponse : C → Bool) (threshold dp ds : Nat) (cp cs : C)
    (rp rs : Except String Unit) :
    (∀ starts, AsDocumented (runBranch hasResponse ⟨dp, .returned cp rp⟩)
      (runBranch hasResponse ⟨ds, .returned cs rs⟩) threshold
      (fallbackLoop hasResponse threshold true ⟨dp, .returned cp rp⟩ ⟨ds, .returned cs rs⟩
        starts)) ↔
    StandbySafe (runBranch hasResponse ⟨dp, .returned cp rp⟩)
      (runBranch hasResponse ⟨ds, .returned cs rs⟩) threshold :=
  standby_good_iff ⟨runBranch_quiet _ _ _ _, runBranch_quiet _ _ _ _⟩

/-- Both branches fail within the threshold: a finished future is polled, no error returned. -/
theorem fallback_standby_panics :
    fallbackLoop (fun _ : Unit => true) 500 true ⟨100, .returned () (.error "refused")⟩
      ⟨50, .returned () (.error "refused")⟩ (fun _ => (0, 0)) = .panicked 100 := by
  decide

end TitanDns
