import TitanDns.Plugins.Executed
import TitanDns.Plugins.Failover

/-!
# When a fallback returns a response

A branch of a fallback may itself be a fallback that panics, and a panic of a branch is one of the
whole.  So a response depends on what each branch arrives with and on which arrives first.

* `PrimaryFirst` — the counterpart of `SecondaryFirst`.
* `Answering` — the arrivals with which a loop returns a response.
* `answering_iff` — **a fallback returns a response, for every order of polling, exactly with
  these.**
-/

namespace TitanDns

open Select Loop

section
variable {C : Type} {p s : Arrival C} {threshold : Nat}

/-- The primary's response is used before the secondary arrives. -/
def PrimaryFirst (alwaysStandby : Bool) (p s : Arrival C) (threshold : Nat) : Prop :=
  if alwaysStandby then p.readyAt < s.readyAt else p.readyAt < threshold + s.readyAt

/-- The arrivals with which a loop returns a response: some branch succeeds, with `always_standby`
in the order that is safe, and before a branch that panics. -/
structure Answering (alwaysStandby : Bool) (p s : Arrival C) (threshold : Nat) : Prop where
  succeeds : if alwaysStandby then StandbySafe p s threshold
    else p.result.isSome = true ∨ s.result.isSome = true
  primary : p.panics = true →
    s.result.isSome = true ∧ SecondaryFirst alwaysStandby p s threshold
  secondary : s.panics = true →
    p.result.isSome = true ∧ PrimaryFirst alwaysStandby p s threshold

/-- A branch that panics brings no context. -/
def Arrival.Sound (a : Arrival C) : Prop := a.panics = true → a.result = none

theorem runBranch_sound (hasResponse : C → Bool) (call : Call C) :
    (runBranch hasResponse call).Sound := by
  unfold runBranch
  split
  · split
    · intro h
      cases h
    · intro h
      cases h
    · exact fun _ => rfl
  · intro h
    cases h

theorem Arrival.Sound.quiet {a : Arrival C} (h : a.Sound) (hsome : a.result.isSome = true) :
    a.panics = false := by
  cases hp : a.panics with
  | false => rfl
  | true =>
    rw [h hp] at hsome
    cases hsome

/-- A loop that ends with a response. -/
def Answered (e : LoopEnd C) : Prop := ∃ side ctx t, e = .ok side ctx t

/-- A response is that of a branch that succeeds. -/
theorem FromBranch.succeeds {e : LoopEnd C} (h : FromBranch p s e) (he : Answered e) :
    p.result.isSome = true ∨ s.result.isSome = true := by
  obtain ⟨side, ctx, t, rfl⟩ := he
  cases side with
  | primary =>
    have hp : p.result = some ctx := h
    exact Or.inl (by rw [hp]; rfl)
  | secondary =>
    have hs : s.result = some ctx := h
    exact Or.inr (by rw [hs]; rfl)

theorem not_answered_panicked {e : LoopEnd C} (h : ∃ t, e = .panicked t) : ¬ Answered e := by
  obtain ⟨t, rfl⟩ := h
  rintro ⟨side, ctx, t', h⟩
  cases h

/-- **What a response whatever the order asks of a branch that panics**: that the other one
succeeds, and comes first, if some order of polling lets it panic otherwise. -/
theorem answered_panics {alwaysStandby : Bool} {ends : (Nat → Nat × Nat) → LoopEnd C}
    (hp : p.Sound) (hs : s.Sound) (hsource : ∀ starts, FromBranch p s (ends starts))
    (hall : ∀ starts, Answered (ends starts))
    (hprimary : p.panics = true → s.result.isSome = true →
      ¬ SecondaryFirst alwaysStandby p s threshold → ∃ starts t, ends starts = .panicked t)
    (hsecondary : s.panics = true → p.result.isSome = true →
      ¬ PrimaryFirst alwaysStandby p s threshold → ∃ starts t, ends starts = .panicked t) :
    (p.panics = true → s.result.isSome = true ∧ SecondaryFirst alwaysStandby p s threshold) ∧
      (s.panics = true →
        p.result.isSome = true ∧ PrimaryFirst alwaysStandby p s threshold) := by
  have hsome := (hsource fun _ => (0, 0)).succeeds (hall _)
  constructor
  · intro hpanics
    have hother : s.result.isSome = true := by
      rcases hsome with h | h
      · rw [hp hpanics] at h
        cases h
      · exact h
    refine ⟨hother, ?_⟩
    by_contra hlate
    obtain ⟨starts, hend⟩ := hprimary hpanics hother hlate
    exact not_answered_panicked hend (hall starts)
  · intro hpanics
    have hother : p.result.isSome = true := by
      rcases hsome with h | h
      · exact h
      · rw [hs hpanics] at h
        cases h
    refine ⟨hother, ?_⟩
    by_contra hlate
    obtain ⟨starts, hend⟩ := hsecondary hpanics hother hlate
    exact not_answered_panicked hend (hall starts)

/-! ## `always_standby` -/

/-- Before the secondary arrives: nothing is cached and the primary is awaited. -/
structure Untouched (p : Arrival C) (s : Arrival C) (st : Standby C) : Prop where
  primaryDone : st.primaryDone = false
  primarySpent : st.primarySpent = false
  cached : st.secondaryCached = none
  secondarySpent : st.secondarySpent = false
  primary : st.now ≤ p.readyAt
  secondary : st.now ≤ s.readyAt

theorem Untouched.init : Untouched p s Standby.init :=
  ⟨rfl, rfl, rfl, rfl, Nat.zero_le _, Nat.zero_le _⟩

/-- One iteration before the secondary arrives: a branch arrives, or the timer fires. -/
theorem standbyStep_untouched {st : Standby C} (hu : Untouched p s st) (start again : Nat) :
    ∃ i t, select (st.branches p s threshold) st.now start again = .fired i t ∧
      t ≤ p.readyAt ∧ t ≤ s.readyAt ∧
      (i = 0 ∧ p.readyAt ≤ t ∧ standbyStep p s threshold st start again = st.onPrimary p t ∨
        i = 1 ∧ s.readyAt ≤ t ∧ standbyStep p s threshold st start again = st.onSecondary s t ∨
        i = 2 ∧ ∃ st', standbyStep p s threshold st start again = .inl st' ∧ Untouched p s st' ∧
          st'.remaining < st.remaining) := by
  have hunspent : ∀ b ∈ st.branches p s threshold, b.enabled = true → b.spent = false := by
    intro b hb _
    simp only [Standby.branches, List.mem_cons, List.not_mem_nil, or_false] at hb
    rcases hb with rfl | rfl | rfl
    · exact hu.primarySpent
    · exact hu.secondarySpent
    · rfl
  obtain ⟨i, t, b, hsel, hnow, hbi, hen, hready, hmin⟩ :=
    select_fires hunspent ⟨_, List.mem_cons_self, by simp [hu.primaryDone]⟩ st.now start again
  have hp : t ≤ p.readyAt := by
    have hle := hmin ⟨!st.primaryDone, p.readyAt, st.primarySpent⟩ List.mem_cons_self
      (by simp [hu.primaryDone])
    have := hu.primary
    simp only at hle
    omega
  have hs : t ≤ s.readyAt := by
    have hle := hmin ⟨st.secondaryCached.isNone, s.readyAt, st.secondarySpent⟩
      (by simp [Standby.branches]) (by simp [hu.cached])
    have := hu.secondary
    simp only at hle
    omega
  refine ⟨i, t, hsel, hp, hs, ?_⟩
  unfold standbyStep
  rw [hsel]
  rcases triple_cases hbi with ⟨rfl, rfl⟩ | ⟨rfl, rfl⟩ | ⟨rfl, rfl⟩
  · exact Or.inl ⟨rfl, hready, rfl⟩
  · exact Or.inr (Or.inl ⟨rfl, hready, rfl⟩)
  · have hallow : st.allowSecondary = false := by simpa using hen
    have hgo : st.onDelay t = .inl { st with
        now := t, allowSecondary := true, secondaryCached := none } := by
      unfold Standby.onDelay Standby.takeSecondary
      simp only [hu.cached]
      exact Standby.next_of_none rfl
    refine Or.inr (Or.inr ⟨rfl, _, hgo,
      ⟨hu.primaryDone, hu.primarySpent, rfl, hu.secondarySpent, hp, hs⟩, ?_⟩)
    simp [Standby.remaining, hu.primaryDone, hu.secondarySpent, hallow]

/-- A primary that succeeds before the secondary arrives is returned. -/
theorem standby_primary_answers (hp : p.panics = false) (hsome : p.result.isSome = true)
    (hfirst : p.readyAt < s.readyAt) (starts : Nat → Nat × Nat) :
    Answered (standbyFallback p s threshold starts) := by
  obtain ⟨cp, hcp⟩ := Option.isSome_iff_exists.mp hsome
  refine @loop_good _ _ _ _ (Untouched p s) Standby.remaining Answered (fun n st hu => ?_) _ _
    Untouched.init (show Standby.init.remaining < 4 by rw [Standby.init_remaining]; omega)
  obtain ⟨i, t, -, htp, -, ⟨-, -, hstep⟩ | ⟨-, hready, -⟩ | ⟨-, st', hstep, hu', hlt⟩⟩ :=
    @standbyStep_untouched _ p s threshold _ hu (starts n).1 (starts n).2
  · rw [hstep]
    unfold Standby.onPrimary
    simp only [hp, hcp, Bool.false_eq_true, if_false]
    exact ⟨_, _, _, rfl⟩
  · omega
  · rw [hstep]
    exact ⟨hu', hlt⟩

/-- Polled first, a secondary that panics no later than the primary arrives does so. -/
theorem standby_secondary_panics (hs : s.panics = true) (hfirst : s.readyAt ≤ p.readyAt) :
    ∃ t, standbyFallback p s threshold (fun _ => (1, 1)) = .panicked t := by
  refine @loop_good _ _ _ _ (Untouched p s) Standby.remaining
    (fun e => ∃ t, e = LoopEnd.panicked t) (fun n st hu => ?_) _ _ Untouched.init
    (show Standby.init.remaining < 4 by rw [Standby.init_remaining]; omega)
  obtain ⟨i, t, hsel, -, hts, ⟨rfl, hready, -⟩ | ⟨-, -, hstep⟩ | ⟨-, st', hstep, hu', hlt⟩⟩ :=
    @standbyStep_untouched _ p s threshold _ hu 1 1
  · -- the secondary is polled before the primary
    exfalso
    have hlate := select_fired_first hsel rfl (by simp [hu.cached]) (by decide)
    simp only at hlate
    omega
  · rw [hstep]
    unfold Standby.onSecondary
    simp only [hs, if_true]
    exact ⟨t, rfl⟩
  · rw [hstep]
    exact ⟨hu', hlt⟩

/-- Polled first, a primary that panics no later than the secondary may be used does so. -/
theorem standby_primary_panics (hp : p.panics = true) (hs : s.Sound)
    (hsome : s.result.isSome = true) (hfirst : p.readyAt ≤ max s.readyAt threshold) :
    ∃ t, standbyFallback p s threshold (fun _ => (0, 0)) = .panicked t := by
  obtain ⟨cs, hcs⟩ := Option.isSome_iff_exists.mp hsome
  refine @loop_good _ _ _ _ (Ahead p s threshold) Standby.remaining
    (fun e => ∃ t, e = LoopEnd.panicked t) (fun n st ha => ?_) _ _ Ahead.init
    (show Standby.init.remaining < 4 by rw [Standby.init_remaining]; omega)
  obtain ⟨i, t, hsel, -, ⟨-, -, hstep⟩ | ⟨hi, ⟨-, hsr, hthr⟩ | ⟨st', hstep, ha', hlt⟩⟩⟩ :=
    standbyStep_ahead (hs.quiet hsome) hcs ha 0 0
  · rw [hstep]
    unfold Standby.onPrimary
    simp only [hp, if_true]
    exact ⟨t, rfl⟩
  · exfalso
    have hlate := select_fired_first hsel rfl (by simp [ha.primaryDone]) hi
    simp only at hlate
    omega
  · rw [hstep]
    exact ⟨ha', hlt⟩

/-- The safe order, when no branch panics. -/
theorem standby_quiet (hq : Quiet p s) (hsafe : StandbySafe p s threshold)
    (starts : Nat → Nat × Nat) : Answered (standbyFallback p s threshold starts) := by
  have hdoc := (standby_good_iff hq).mpr hsafe starts
  have herr : ∀ t, standbyFallback p s threshold starts ≠ .err t :=
    standbyLoop_ne_err starts 4 Standby.init
  cases hend : standbyFallback p s threshold starts with
  | ok side ctx t => exact ⟨side, ctx, t, rfl⟩
  | err t => exact absurd hend (herr t)
  | panicked t =>
    rw [hend] at hdoc
    exact hdoc.elim
  | disabled t =>
    rw [hend] at hdoc
    exact hdoc.elim
  | outOfFuel =>
    rw [hend] at hdoc
    exact hdoc.elim

theorem standby_answers (hs : s.Sound) (h : Answering true p s threshold)
    (starts : Nat → Nat × Nat) : Answered (standbyFallback p s threshold starts) := by
  cases hpanics : p.panics with
  | true =>
    obtain ⟨hsome, hfirst⟩ := h.primary hpanics
    obtain ⟨cs, hcs⟩ := Option.isSome_iff_exists.mp hsome
    obtain ⟨t, hend⟩ := @standby_secondary _ p s threshold cs (hs.quiet hsome) hcs
      (by simpa [SecondaryFirst] using hfirst) starts
    exact ⟨_, _, _, hend⟩
  | false =>
    cases hspanics : s.panics with
    | true =>
      obtain ⟨hsome, hfirst⟩ := h.secondary hspanics
      exact standby_primary_answers hpanics hsome (by simpa [PrimaryFirst] using hfirst) starts
    | false => exact standby_quiet ⟨hpanics, hspanics⟩ (by simpa using h.succeeds) starts

/-- A response whatever the order asks for the safe order. -/
theorem standby_safe (hall : ∀ starts, Answered (standbyFallback p s threshold starts))
    (hq : Quiet p s) : StandbySafe p s threshold := by
  rcases (standbyFallback_source fun _ => (0, 0)).succeeds (hall _) with hp | hs
  · by_cases hs : s.result.isSome = true
    · exact Or.inl hs
    refine Or.inr ⟨hp, ?_⟩
    by_contra hlate
    have hs : s.result = none := by simpa using hs
    have hpanics := @standbyLoop_doomed _ p s threshold hq hs (by omega) (by omega) 4 Standby.init
      ⟨rfl, Nat.zero_le _, Or.inl rfl, fun h => (by cases h)⟩
      (by rw [Standby.init_remaining]; omega)
    exact not_answered_panicked hpanics (hall fun _ => (1, 1))
  · exact Or.inl hs

theorem standby_answering (hp : p.Sound) (hs : s.Sound)
    (hall : ∀ starts, Answered (standbyFallback p s threshold starts)) :
    Answering true p s threshold := by
  obtain ⟨hprimary, hsecondary⟩ := @answered_panics _ _ _ threshold true _ hp hs
    standbyFallback_source hall
    (fun hpanics hother hlate =>
      ⟨_, standby_primary_panics hpanics hs hother (Nat.le_of_not_lt hlate)⟩)
    (fun hpanics _ hlate => ⟨_, standby_secondary_panics hpanics (Nat.le_of_not_lt hlate)⟩)
  refine ⟨?_, hprimary, hsecondary⟩
  simp only [if_true]
  cases hpp : p.panics with
  | true => exact Or.inl (hprimary hpp).1
  | false =>
    cases hsp : s.panics with
    | true =>
      obtain ⟨hp', hfirst⟩ := hsecondary hsp
      simp only [PrimaryFirst, if_true] at hfirst
      exact Or.inr ⟨hp', Or.inl hfirst⟩
    | false => exact standby_safe hall ⟨hpp, hsp⟩

/-! ## Threshold -/

/-- Invariant of the loop with both started: a branch that is done failed, one that is not is
awaited. -/
structure Running (p s : Arrival C) (st : Started C) : Prop where
  primaryDone : st.primaryDone = true → p.result = none ∧ p.panics = false
  secondaryDone : st.secondaryDone = true → s.result = none ∧ s.panics = false
  primary : st.primaryDone = false → st.now ≤ p.readyAt
  secondary : st.secondaryDone = false → st.now ≤ s.readyAt
  awaited : st.primaryDone = false ∨ st.secondaryDone = false

/-- One iteration: a branch that is not done arrives, no later than the other. -/
theorem startedStep_running {st : Started C} (hr : Running p s st) (start again : Nat) :
    ∃ i t, select [⟨!st.primaryDone, p.readyAt, st.primaryDone⟩,
          ⟨!st.secondaryDone, s.readyAt, st.secondaryDone⟩] st.now start again = .fired i t ∧
      (st.primaryDone = false → t ≤ p.readyAt) ∧ (st.secondaryDone = false → t ≤ s.readyAt) ∧
      (i = 0 ∧ st.primaryDone = false ∧ p.readyAt ≤ t ∨
        i = 1 ∧ st.secondaryDone = false ∧ s.readyAt ≤ t) := by
  have henabled : ∃ b ∈ [(⟨!st.primaryDone, p.readyAt, st.primaryDone⟩ : Branch),
      ⟨!st.secondaryDone, s.readyAt, st.secondaryDone⟩], b.enabled = true := by
    rcases hr.awaited with h | h
    · exact ⟨_, List.mem_cons_self, by simp [h]⟩
    · exact ⟨_, List.mem_cons_of_mem _ List.mem_cons_self, by simp [h]⟩
  obtain ⟨i, t, b, hsel, -, hbi, hen, hready, hmin⟩ :=
    select_fires (started_unspent st p.readyAt s.readyAt) henabled st.now start again
  refine ⟨i, t, hsel, ?_, ?_, ?_⟩
  · intro hd
    have hle := hmin ⟨!st.primaryDone, p.readyAt, st.primaryDone⟩ List.mem_cons_self (by simp [hd])
    have := hr.primary hd
    simp only at hle
    omega
  · intro hd
    have hle := hmin ⟨!st.secondaryDone, s.readyAt, st.secondaryDone⟩ (by simp) (by simp [hd])
    have := hr.secondary hd
    simp only at hle
    omega
  · rcases pair_cases hbi with ⟨rfl, rfl⟩ | ⟨rfl, rfl⟩
    · exact Or.inl ⟨rfl, by simpa using hen, hready⟩
    · exact Or.inr ⟨rfl, by simpa using hen, hready⟩

/-- What an iteration does once the primary arrives, and once the secondary does. -/
theorem startedStep_primary {st : Started C} {start again t : Nat}
    (h : select [⟨!st.primaryDone, p.readyAt, st.primaryDone⟩,
      ⟨!st.secondaryDone, s.readyAt, st.secondaryDone⟩] st.now start again = .fired 0 t) :
    startedStep p s st start again =
      if p.panics then .inr (.panicked t) else
      match p.result with
      | some ctx => .inr (.ok .primary ctx t)
      | none =>
        if st.secondaryDone then .inr (.err t)
        else .inl { st with now := t, primaryDone := true } := by
  unfold startedStep
  rw [h]
  rfl

theorem startedStep_secondary {st : Started C} {start again t : Nat}
    (h : select [⟨!st.primaryDone, p.readyAt, st.primaryDone⟩,
      ⟨!st.secondaryDone, s.readyAt, st.secondaryDone⟩] st.now start again = .fired 1 t) :
    startedStep p s st start again =
      if s.panics then .inr (.panicked t) else
      match s.result with
      | some ctx => .inr (.ok .secondary ctx t)
      | none =>
        if st.primaryDone then .inr (.err t)
        else .inl { st with now := t, secondaryDone := true } := by
  unfold startedStep
  rw [h]
  rfl

/-- A branch that is done had no response. -/
theorem Running.secondary_open {st : Started C} (hr : Running p s st)
    (hsome : s.result.isSome = true) : st.secondaryDone = false := by
  cases hsd : st.secondaryDone with
  | true =>
    rw [(hr.secondaryDone hsd).1] at hsome
    cases hsome
  | false => rfl

theorem Running.primary_open {st : Started C} (hr : Running p s st)
    (hsome : p.result.isSome = true) : st.primaryDone = false := by
  cases hpd : st.primaryDone with
  | true =>
    rw [(hr.primaryDone hpd).1] at hsome
    cases hsome
  | false => rfl

/-- **Started together, the branches bring a response** when one succeeds, and does so before the
other panics. -/
theorem startedLoop_answers (hsome : p.result.isSome = true ∨ s.result.isSome = true)
    (hp : p.panics = true → s.result.isSome = true ∧ s.readyAt < p.readyAt)
    (hs : s.panics = true → p.result.isSome = true ∧ p.readyAt < s.readyAt)
    (starts : Nat → Nat × Nat) {t : Nat} (htp : t ≤ p.readyAt) (hts : t ≤ s.readyAt) :
    Answered (startedLoop p s starts 3 ⟨t, false, false⟩) := by
  refine @loop_good _ _ _ _ (Running p s) Started.remaining Answered (fun n st hr => ?_) _ _
    ⟨fun h => (by cases h), fun h => (by cases h), fun _ => htp, fun _ => hts, Or.inl rfl⟩
    (by simp [Started.remaining])
  obtain ⟨i, t', hsel, hlep, hles, ⟨rfl, hd, hready⟩ | ⟨rfl, hd, hready⟩⟩ :=
    startedStep_running hr (starts n).1 (starts n).2
  · rw [startedStep_primary hsel]
    cases hpp : p.panics with
    | true =>
      -- the secondary was to come first
      exfalso
      obtain ⟨hs', hlt⟩ := hp hpp
      have := hles (hr.secondary_open hs')
      omega
    | false =>
      simp only [Bool.false_eq_true, if_false]
      cases hpr : p.result with
      | some ctx => exact ⟨_, _, _, rfl⟩
      | none =>
        rw [hpr] at hsome
        have hsd := hr.secondary_open (hsome.resolve_left (by simp))
        simp only [hsd, Bool.false_eq_true, if_false]
        refine ⟨⟨fun _ => ⟨hpr, hpp⟩, fun h => (by cases h), fun h => (by cases h),
          fun _ => hles hsd, Or.inr rfl⟩, ?_⟩
        simp [Started.remaining, hd, hsd]
  · rw [startedStep_secondary hsel]
    cases hsp : s.panics with
    | true =>
      exfalso
      obtain ⟨hp', hlt⟩ := hs hsp
      have := hlep (hr.primary_open hp')
      omega
    | false =>
      simp only [Bool.false_eq_true, if_false]
      cases hsr : s.result with
      | some ctx => exact ⟨_, _, _, rfl⟩
      | none =>
        rw [hsr] at hsome
        have hpd := hr.primary_open (hsome.resolve_right (by simp))
        simp only [hpd, Bool.false_eq_true, if_false]
        refine ⟨⟨fun h => (by cases h), fun _ => ⟨hsr, hsp⟩, fun _ => hlep hpd,
          fun h => (by cases h), Or.inl rfl⟩, ?_⟩
        simp [Started.remaining, hd, hpd]

theorem threshold_answers (h : Answering false p s threshold) (starts : Nat → Nat × Nat) :
    Answered (thresholdFallback p s threshold starts) := by
  have hsome : p.result.isSome = true ∨ s.result.isSome = true := by simpa using h.succeeds
  have hp : p.panics = true →
      s.result.isSome = true ∧ threshold + s.readyAt < p.readyAt := by
    simpa [SecondaryFirst] using h.primary
  have hs : s.panics = true →
      p.result.isSome = true ∧ p.readyAt < threshold + s.readyAt := by
    simpa [PrimaryFirst] using h.secondary
  obtain ⟨i, t, hsel, htp, htt, ⟨rfl, hready⟩ | ⟨rfl, hready⟩⟩ :=
    @threshold_waits _ p threshold starts
  · unfold thresholdFallback
    rw [hsel]
    simp only
    cases hpp : p.panics with
    | true =>
      have := (hp hpp).2
      omega
    | false =>
      simp only [Bool.false_eq_true, if_false]
      cases hpr : p.result with
      | some ctx => exact ⟨_, _, _, rfl⟩
      | none =>
        have hs' : s.result.isSome = true := by
          rcases hsome with h | h
          · rw [hpr] at h
            cases h
          · exact h
        obtain ⟨cs, hcs⟩ := Option.isSome_iff_exists.mp hs'
        cases hsp : s.panics with
        | true =>
          rw [hpr] at hs
          cases (hs hsp).1
        | false =>
          simp only [Bool.false_eq_true, if_false, hcs]
          exact ⟨_, _, _, rfl⟩
  · obtain rfl : t = threshold := Nat.le_antisymm htt hready
    unfold thresholdFallback
    rw [hsel]
    exact @startedLoop_answers _ p { s with readyAt := t + s.readyAt } hsome hp hs
      (fun n => starts (n + 1)) t htp (Nat.le_add_right _ _)

/-- Polled first, a primary that panics no later than the secondary arrives does so. -/
theorem threshold_primary_panics (hp : p.panics = true)
    (hfirst : p.readyAt ≤ threshold + s.readyAt) :
    ∃ t, thresholdFallback p s threshold (fun _ => (0, 0)) = .panicked t := by
  obtain ⟨i, t, hsel, htp, htt, ⟨rfl, hready⟩ | ⟨rfl, hready⟩⟩ :=
    @threshold_waits _ p threshold fun _ => (0, 0)
  · unfold thresholdFallback
    rw [hsel]
    simp only [hp, if_true]
    exact ⟨t, rfl⟩
  · obtain rfl : t = threshold := Nat.le_antisymm htt hready
    unfold thresholdFallback
    rw [hsel]
    simp only [startedLoop, loop]
    obtain ⟨i, t₁, hsel₁, -, hles, ⟨rfl, -, hready₁⟩ | ⟨rfl, -, hready₁⟩⟩ :=
      @startedStep_running _ p { s with readyAt := t + s.readyAt } ⟨t, false, false⟩
        ⟨fun h => (by cases h), fun h => (by cases h), fun _ => htp,
          fun _ => Nat.le_add_right _ _, Or.inl rfl⟩ 0 0
    · rw [startedStep_primary hsel₁]
      simp only [hp, if_true]
      exact ⟨t₁, rfl⟩
    · exfalso
      have hlate := select_fired_first hsel₁ rfl rfl (by decide)
      simp only at hlate hready₁
      omega

/-- Polled first, a secondary that panics no later than the primary arrives does so. -/
theorem threshold_secondary_panics (hs : s.panics = true)
    (hfirst : threshold + s.readyAt ≤ p.readyAt) :
    ∃ t, thresholdFallback p s threshold (fun _ => (1, 1)) = .panicked t := by
  obtain ⟨i, t, hsel, htp, htt, ⟨rfl, hready⟩ | ⟨rfl, hready⟩⟩ :=
    @threshold_waits _ p threshold fun _ => (1, 1)
  · -- the timer is polled before the primary
    exfalso
    have hlate := select_fired_first hsel rfl rfl (by decide)
    simp only at hlate
    omega
  · obtain rfl : t = threshold := Nat.le_antisymm htt hready
    unfold thresholdFallback
    rw [hsel]
    simp only [startedLoop, loop]
    obtain ⟨i, t₁, hsel₁, -, hles, ⟨rfl, -, hready₁⟩ | ⟨rfl, -, hready₁⟩⟩ :=
      @startedStep_running _ p { s with readyAt := t + s.readyAt } ⟨t, false, false⟩
        ⟨fun h => (by cases h), fun h => (by cases h), fun _ => htp,
          fun _ => Nat.le_add_right _ _, Or.inl rfl⟩ 1 1
    · exfalso
      have hlate := select_fired_first hsel₁ rfl rfl (by decide)
      simp only at hlate hready₁
      omega
    · rw [startedStep_secondary hsel₁]
      simp only [hs, if_true]
      exact ⟨t₁, rfl⟩

theorem threshold_answering (hp : p.Sound) (hs : s.Sound)
    (hall : ∀ starts, Answered (thresholdFallback p s threshold starts)) :
    Answering false p s threshold := by
  have hsome := (thresholdFallback_source fun _ => (0, 0)).succeeds (hall _)
  obtain ⟨hprimary, hsecondary⟩ := @answered_panics _ _ _ threshold false _ hp hs
    thresholdFallback_source hall
    (fun hpanics _ hlate => ⟨_, threshold_primary_panics hpanics (Nat.le_of_not_lt hlate)⟩)
    (fun hpanics _ hlate => ⟨_, threshold_secondary_panics hpanics (Nat.le_of_not_lt hlate)⟩)
  exact ⟨by simpa using hsome, hprimary, hsecondary⟩

/-- **Exactly when a fallback returns a response**, for every order of polling. -/
theorem answering_iff (hasResponse : C → Bool) (threshold : Nat) (alwaysStandby : Bool)
    (primary secondary : Call C) :
    (∀ starts, Answered
      (fallbackLoop hasResponse threshold alwaysStandby primary secondary starts)) ↔
    Answering alwaysStandby (runBranch hasResponse primary) (runBranch hasResponse secondary)
      threshold := by
  have hp := runBranch_sound hasResponse primary
  have hs := runBranch_sound hasResponse secondary
  cases alwaysStandby with
  | true => exact ⟨standby_answering hp hs, standby_answers hs⟩
  | false => exact ⟨threshold_answering hp hs, threshold_answers⟩

end

end TitanDns
