import TitanDns.Plugins.Pipeline

/-!
# Failover from a forward that fails

`ForwardPlugin` answers a failure of all its upstreams with a SERVFAIL of its own and returns `Ok`,
so for `FallbackPlugin` the primary has succeeded.

* `SecondaryFirst` — the secondary's response may be used before the primary arrives.
* `fallbackLoop_secondary_iff` — **a successful secondary is returned, for every order of polling,
  exactly when the primary gives nothing or the secondary comes first.**
* `Reaches` — a plugin that comes to a forward step, at once or at the end of a sequence.
* `failover_iff` — **so failover happens only on those terms.**
-/

namespace TitanDns

open Select Loop

/-! ## Which branch is returned -/

section
variable {C : Type} {p s : Arrival C} {threshold : Nat} {cp cs : C}

/-- The secondary's response may be used before the primary arrives. -/
def SecondaryFirst (alwaysStandby : Bool) (p s : Arrival C) (threshold : Nat) : Prop :=
  if alwaysStandby then max s.readyAt threshold < p.readyAt else threshold + s.readyAt < p.readyAt

instance (alwaysStandby : Bool) (p s : Arrival C) (threshold : Nat) :
    Decidable (SecondaryFirst alwaysStandby p s threshold) :=
  inferInstanceAs (Decidable (ite _ _ _))

/-- Invariant of a loop that waits for both: the secondary is not late. -/
structure Ahead (p s : Arrival C) (threshold : Nat) (st : Standby C) : Prop where
  inv : StandbyInv p s threshold st
  primaryDone : st.primaryDone = false
  now : st.now ≤ max s.readyAt threshold

theorem Ahead.init : Ahead p s threshold Standby.init := ⟨StandbyInv.init, rfl, Nat.zero_le _⟩

/-- What is cached is the secondary's context. -/
theorem StandbyInv.cached_eq {st : Standby C} (hinv : StandbyInv p s threshold st)
    (hs : s.result = some cs) :
    st.secondaryCached = none ∨ st.secondaryCached = some (some cs) ∧ s.readyAt ≤ st.now ∧
      st.allowSecondary = false := by
  cases hc : st.secondaryCached with
  | none => exact Or.inl rfl
  | some r =>
    obtain ⟨rfl, hready, ha⟩ := hinv.cached r hc
    exact Or.inr ⟨by rw [hs], hready, ha⟩

/-- What an iteration comes to while the primary is awaited: at `t` both the secondary and the
timer have arrived and the secondary is returned, or the loop goes on. -/
def Waited (p s : Arrival C) (threshold : Nat) (cs : C) (st : Standby C) (t : Nat)
    (r : Standby C ⊕ LoopEnd C) : Prop :=
  (r = .inr (.ok .secondary cs t) ∧ s.readyAt ≤ t ∧ threshold ≤ t) ∨
    ∃ st', r = .inl st' ∧ Ahead p s threshold st' ∧ st'.remaining < st.remaining

theorem onSecondary_waits {st : Standby C} {t : Nat} (hq : s.panics = false)
    (hs : s.result = some cs)
    (ha : Ahead p s threshold st) (hc : st.secondaryCached = none) (hready : s.readyAt ≤ t)
    (hnow : st.now ≤ t) (ht : t ≤ max s.readyAt threshold) (hearly : t ≤ p.readyAt) :
    Waited p s threshold cs st t (st.onSecondary s t) := by
  have hsafe : StandbySafe p s threshold := Or.inl (by rw [hs]; rfl)
  have howes := onSecondary_ok hq hsafe ha.inv hnow hc hready fun _ => hearly
  cases hallow : st.allowSecondary with
  | true =>
    have hthr : threshold ≤ st.now := by
      rcases ha.inv.allowed hallow with hd | h
      · rw [ha.primaryDone] at hd
        cases hd
      · exact h
    refine Or.inl ⟨?_, hready, Nat.le_trans hthr hnow⟩
    unfold Standby.onSecondary Standby.takeSecondary
    simp only [hq, hallow, hs, Bool.false_eq_true, if_false, if_true]
  | false =>
    have hgo : st.onSecondary s t = .inl { st with
        now := t, secondaryCached := some s.result, secondarySpent := true } := by
      unfold Standby.onSecondary
      simp only [hq, hallow, Bool.false_eq_true, if_false]
      exact Standby.next_of_not_allowed rfl
    rw [hgo] at howes
    exact Or.inr ⟨_, hgo, ⟨howes.1, ha.primaryDone, ht⟩, howes.2⟩

theorem onDelay_waits {st : Standby C} {t : Nat} (hs : s.result = some cs)
    (ha : Ahead p s threshold st) (hallow : st.allowSecondary = false) (hready : threshold ≤ t)
    (hnow : st.now ≤ t) (ht : t ≤ max s.readyAt threshold) (hearly : t ≤ p.readyAt) :
    Waited p s threshold cs st t (st.onDelay t) := by
  have hsafe : StandbySafe p s threshold := Or.inl (by rw [hs]; rfl)
  have howes := onDelay_ok hsafe ha.inv hnow hallow hready fun _ => hearly
  rcases ha.inv.cached_eq hs with hc | ⟨hc, hsr, -⟩
  · have hgo : st.onDelay t = .inl { st with
        now := t, allowSecondary := true, secondaryCached := none } := by
      unfold Standby.onDelay Standby.takeSecondary
      simp only [hc]
      exact Standby.next_of_none rfl
    rw [hgo] at howes
    exact Or.inr ⟨_, hgo, ⟨howes.1, ha.primaryDone, ht⟩, howes.2⟩
  · refine Or.inl ⟨?_, Nat.le_trans hsr hnow, hready⟩
    unfold Standby.onDelay Standby.takeSecondary
    simp only [hc]

/-- One iteration before the primary arrives: the primary fires, or the loop waits. -/
theorem standbyStep_ahead (hq : s.panics = false) (hs : s.result = some cs) {st : Standby C}
    (ha : Ahead p s threshold st) (start again : Nat) :
    ∃ i t, select (st.branches p s threshold) st.now start again = .fired i t ∧
      t ≤ max s.readyAt threshold ∧
      (i = 0 ∧ p.readyAt ≤ t ∧ standbyStep p s threshold st start again = st.onPrimary p t ∨
        i ≠ 0 ∧ Waited p s threshold cs st t (standbyStep p s threshold st start again)) := by
  have hprim := ha.primaryDone
  obtain ⟨i, t, b, hsel, hnow, hbi, hen, hready, hmin⟩ :=
    select_fires ha.inv.unspent ⟨_, List.mem_cons_self, by simp [hprim]⟩ st.now start again
  have hearly : t ≤ p.readyAt := by
    have hle := hmin ⟨!st.primaryDone, p.readyAt, st.primarySpent⟩ List.mem_cons_self
      (by simp [hprim])
    have := ha.inv.awaited hprim
    simp only at hle
    omega
  have ht : t ≤ max s.readyAt threshold := by
    have := ha.now
    rcases ha.inv.cached_eq hs with hc | ⟨-, -, hallow⟩
    · have hle := hmin ⟨st.secondaryCached.isNone, s.readyAt, st.secondarySpent⟩
        (by simp [Standby.branches]) (by simp [hc])
      simp only at hle
      omega
    · have hle := hmin ⟨!st.allowSecondary, threshold, false⟩
        (by simp [Standby.branches]) (by simp [hallow])
      simp only at hle
      omega
  refine ⟨i, t, hsel, ht, ?_⟩
  unfold standbyStep
  rw [hsel]
  rcases triple_cases hbi with ⟨rfl, rfl⟩ | ⟨rfl, rfl⟩ | ⟨rfl, rfl⟩
  · exact Or.inl ⟨rfl, hready, rfl⟩
  · have hc : st.secondaryCached = none := by simpa using hen
    exact Or.inr ⟨by decide, onSecondary_waits hq hs ha hc hready hnow ht hearly⟩
  · have hallow : st.allowSecondary = false := by simpa using hen
    exact Or.inr ⟨by decide, onDelay_waits hs ha hallow hready hnow ht hearly⟩

/-- A secondary that comes first is returned. -/
theorem standby_secondary (hq : s.panics = false) (hs : s.result = some cs)
    (hfirst : max s.readyAt threshold < p.readyAt) (starts : Nat → Nat × Nat) :
    ∃ t, standbyFallback p s threshold starts = .ok .secondary cs t := by
  refine @loop_good _ _ _ _ (Ahead p s threshold) Standby.remaining
    (fun e => ∃ t, e = LoopEnd.ok .secondary cs t) (fun n st ha => ?_) _ _ Ahead.init
    (show Standby.init.remaining < 4 by rw [Standby.init_remaining]; omega)
  obtain ⟨i, t, -, ht, ⟨-, hready, -⟩ | ⟨-, ⟨hstep, -⟩ | ⟨st', hstep, ha', hlt⟩⟩⟩ :=
    standbyStep_ahead hq hs ha (starts n).1 (starts n).2
  · omega
  · rw [hstep]
    exact ⟨t, rfl⟩
  · rw [hstep]
    exact ⟨ha', hlt⟩

/-- Polled first, a primary that is not later than the secondary is returned. -/
theorem standby_primary (hq : Quiet p s) (hp : p.result = some cp) (hs : s.result = some cs)
    (hfirst : p.readyAt ≤ max s.readyAt threshold) :
    ∃ t, standbyFallback p s threshold (fun _ => (0, 0)) = .ok .primary cp t := by
  refine @loop_good _ _ _ _ (Ahead p s threshold) Standby.remaining
    (fun e => ∃ t, e = LoopEnd.ok .primary cp t) (fun n st ha => ?_) _ _ Ahead.init
    (show Standby.init.remaining < 4 by rw [Standby.init_remaining]; omega)
  obtain ⟨i, t, hsel, -, ⟨-, -, hstep⟩ | ⟨hi, ⟨-, hsr, hthr⟩ | ⟨st', hstep, ha', hlt⟩⟩⟩ :=
    standbyStep_ahead hq.2 hs ha 0 0
  · rw [hstep]
    unfold Standby.onPrimary
    simp only [hq.1, hp, Bool.false_eq_true, if_false]
    exact ⟨t, rfl⟩
  · -- the primary is polled before whatever fires
    exfalso
    have hlate := select_fired_first hsel rfl (by simp [ha.primaryDone]) hi
    simp only at hlate
    omega
  · rw [hstep]
    exact ⟨ha', hlt⟩

/-- A secondary without a primary is returned. -/
theorem standby_alone (hq : Quiet p s) (hp : p.result = none) (hs : s.result = some cs)
    (starts : Nat → Nat × Nat) :
    ∃ t, standbyFallback p s threshold starts = .ok .secondary cs t := by
  have hsafe : StandbySafe p s threshold := Or.inl (by rw [hs]; rfl)
  have hdoc := (standby_good_iff hq).mpr hsafe starts
  cases hend : standbyFallback p s threshold starts with
  | ok side ctx t =>
    rw [hend] at hdoc
    cases side with
    | primary =>
      rw [hdoc.1] at hp
      cases hp
    | secondary =>
      have hctx := hdoc.1
      rw [hs] at hctx
      cases hctx
      exact ⟨t, rfl⟩
  | err t =>
    rw [hend] at hdoc
    rw [hdoc.2] at hs
    cases hs
  | panicked t =>
    rw [hend] at hdoc
    exact hdoc.elim
  | disabled t =>
    rw [hend] at hdoc
    exact hdoc.elim
  | outOfFuel =>
    rw [hend] at hdoc
    exact hdoc.elim

/-- Without standby, the first wait: until the primary or the threshold. -/
theorem threshold_waits (starts : Nat → Nat × Nat) :
    ∃ i t, select [⟨true, p.readyAt, false⟩, ⟨true, threshold, false⟩] 0 (starts 0).1 (starts 0).2
        = .fired i t ∧ t ≤ p.readyAt ∧ t ≤ threshold ∧
      (i = 0 ∧ p.readyAt ≤ t ∨ i = 1 ∧ threshold ≤ t) := by
  have hunspent : ∀ b ∈ [(⟨true, p.readyAt, false⟩ : Branch), ⟨true, threshold, false⟩],
      b.enabled = true → b.spent = false := by simp
  obtain ⟨i, t, b, hsel, -, hbi, -, hready, hmin⟩ :=
    select_fires hunspent ⟨_, List.mem_cons_self, rfl⟩ 0 (starts 0).1 (starts 0).2
  have hp := hmin ⟨true, p.readyAt, false⟩ List.mem_cons_self rfl
  have hthr := hmin ⟨true, threshold, false⟩ (by simp) rfl
  simp only [Nat.zero_max] at hp hthr
  refine ⟨i, t, hsel, hp, hthr, ?_⟩
  rcases pair_cases hbi with ⟨rfl, rfl⟩ | ⟨rfl, rfl⟩
  · exact Or.inl ⟨rfl, hready⟩
  · exact Or.inr ⟨rfl, hready⟩

/-- With both started, a branch that is done is not polled again. -/
theorem started_unspent (st : Started C) (primaryAt secondaryAt : Nat) :
    ∀ b ∈ [(⟨!st.primaryDone, primaryAt, st.primaryDone⟩ : Branch),
      ⟨!st.secondaryDone, secondaryAt, st.secondaryDone⟩], b.enabled = true → b.spent = false := by
  intro b hb hen
  simp only [List.mem_cons, List.not_mem_nil, or_false] at hb
  rcases hb with rfl | rfl
  · simpa using hen
  · simpa using hen

/-- Invariant of the loop with both started: the secondary is awaited and not late, and a primary
that is done gave nothing. -/
structure Chasing (p s : Arrival C) (st : Started C) : Prop where
  secondaryDone : st.secondaryDone = false
  now : st.now ≤ s.readyAt
  failed : st.primaryDone = true → p.result = none

/-- One iteration: the primary fires while it is awaited, or the secondary does and is returned. -/
theorem startedStep_chasing (hq : Quiet p s) (hs : s.result = some cs) {st : Started C}
    (hc : Chasing p s st) (start again : Nat) :
    ∃ i t, select [⟨!st.primaryDone, p.readyAt, st.primaryDone⟩,
          ⟨!st.secondaryDone, s.readyAt, st.secondaryDone⟩] st.now start again = .fired i t ∧
      t ≤ s.readyAt ∧
      (i = 0 ∧ st.primaryDone = false ∧ p.readyAt ≤ t ∧
          startedStep p s st start again = (match p.result with
            | some ctx => .inr (.ok .primary ctx t)
            | none => .inl { st with now := t, primaryDone := true }) ∨
        i = 1 ∧ s.readyAt ≤ t ∧ startedStep p s st start again = .inr (.ok .secondary cs t)) := by
  have hdone := hc.secondaryDone
  obtain ⟨i, t, b, hsel, -, hbi, hen, hready, hmin⟩ :=
    select_fires (started_unspent st p.readyAt s.readyAt)
      ⟨⟨!st.secondaryDone, s.readyAt, st.secondaryDone⟩, by simp, by simp [hdone]⟩
      st.now start again
  have ht : t ≤ s.readyAt := by
    have hle := hmin ⟨!st.secondaryDone, s.readyAt, st.secondaryDone⟩ (by simp) (by simp [hdone])
    have := hc.now
    simp only at hle
    omega
  refine ⟨i, t, hsel, ht, ?_⟩
  unfold startedStep
  rw [hsel]
  rcases pair_cases hbi with ⟨rfl, rfl⟩ | ⟨rfl, rfl⟩
  · refine Or.inl ⟨rfl, by simpa using hen, hready, ?_⟩
    cases p.result with
    | some ctx => simp only [hq.1, Bool.false_eq_true, if_false]
    | none => simp only [hq.1, hdone, Bool.false_eq_true, if_false]
  · refine Or.inr ⟨rfl, hready, ?_⟩
    simp only [hq.2, hs, Bool.false_eq_true, if_false]

/-- Once started, a secondary that is earlier than a successful primary is returned. -/
theorem startedLoop_secondary (hq : Quiet p s) (hs : s.result = some cs)
    (hfirst : p.result = none ∨ s.readyAt < p.readyAt) (starts : Nat → Nat × Nat) {t : Nat}
    (ht : t ≤ s.readyAt) :
    ∃ t', startedLoop p s starts 3 ⟨t, false, false⟩ = .ok .secondary cs t' := by
  refine @loop_good _ _ _ _ (Chasing p s) (fun st => if st.primaryDone then 0 else 1)
    (fun e => ∃ t, e = LoopEnd.ok .secondary cs t) (fun n st hc => ?_) _ _
    ⟨rfl, ht, fun h => (by cases h)⟩ (by simp)
  obtain ⟨i, t', -, ht', ⟨-, hdone, hready, hstep⟩ | ⟨-, -, hstep⟩⟩ :=
    startedStep_chasing hq hs hc (starts n).1 (starts n).2
  · rcases hfirst with hp | hlt
    · rw [hstep, hp]
      exact ⟨⟨hc.secondaryDone, ht', fun _ => hp⟩, by simp [hdone]⟩
    · omega
  · rw [hstep]
    exact ⟨t', rfl⟩

/-- Under the threshold strategy, where a successful primary is ready in time, some order of polling
returns it. -/
theorem threshold_primary (hq : Quiet p s) (hs : s.result = some cs) (hp : p.result = some cp)
    (hlate : ¬ threshold + s.readyAt < p.readyAt) (t' : Nat) :
    thresholdFallback p s threshold (fun _ => (0, 0)) ≠ .ok .secondary cs t' := by
  intro hsec
  obtain ⟨i, t, hsel, htp, htt, ⟨rfl, -⟩ | ⟨rfl, hthr⟩⟩ :=
    @threshold_waits _ p threshold fun _ => (0, 0)
  · unfold thresholdFallback at hsec
    rw [hsel] at hsec
    simp only [hq.1, hp, Bool.false_eq_true, if_false] at hsec
    cases hsec
  · -- polled first, the primary is ready when anything is
    unfold thresholdFallback at hsec
    rw [hsel] at hsec
    simp only [startedLoop, loop] at hsec
    have hc : Chasing p { s with readyAt := t + s.readyAt } ⟨t, false, false⟩ :=
      ⟨rfl, Nat.le_add_right _ _, fun h => (by cases h)⟩
    obtain ⟨i, t₁, hsel₁, ht₁, ⟨-, -, -, hstep⟩ | ⟨rfl, hready, -⟩⟩ :=
      startedStep_chasing (show Quiet p { s with readyAt := t + s.readyAt } from hq) hs hc 0 0
    · rw [hstep, hp] at hsec
      cases hsec
    · have hfired := select_fired_first hsel₁ rfl rfl (by decide)
      simp only at hfired ht₁ hready
      omega

/-- Otherwise every order returns the secondary. -/
theorem threshold_secondary (hq : Quiet p s) (hs : s.result = some cs)
    (hfirst : p.result = none ∨ threshold + s.readyAt < p.readyAt) (starts : Nat → Nat × Nat) :
    ∃ t, thresholdFallback p s threshold starts = .ok .secondary cs t := by
  obtain ⟨i, t, hsel, htp, htt, ⟨rfl, hready⟩ | ⟨rfl, hready⟩⟩ :=
    @threshold_waits _ p threshold starts
  · rcases hfirst with hp | hlt
    · unfold thresholdFallback
      rw [hsel]
      simp only [hq.1, hq.2, hp, hs, Bool.false_eq_true, if_false]
      exact ⟨_, rfl⟩
    · omega
  · unfold thresholdFallback
    rw [hsel]
    refine @startedLoop_secondary _ p { s with readyAt := t + s.readyAt } cs hq hs ?_ _ _
      (Nat.le_add_right _ _)
    rcases hfirst with hp | hlt
    · exact Or.inl hp
    · exact Or.inr (by simp only; omega)

/-- **A successful secondary is returned, for every order of polling, exactly when** the primary
gives nothing or the secondary comes first. -/
theorem fallback_secondary_iff (alwaysStandby : Bool) (hq : Quiet p s) (hs : s.result = some cs) :
    (∀ starts, ∃ t, (if alwaysStandby then standbyFallback p s threshold starts
      else thresholdFallback p s threshold starts) = .ok .secondary cs t) ↔
      p.result = none ∨ SecondaryFirst alwaysStandby p s threshold := by
  cases alwaysStandby with
  | true =>
    simp only [if_true, SecondaryFirst]
    constructor
    · intro hall
      cases hp : p.result with
      | none => exact Or.inl rfl
      | some cp =>
        refine Or.inr ?_
        by_contra hlate
        obtain ⟨t, hprim⟩ := standby_primary hq hp hs (Nat.le_of_not_lt hlate)
        obtain ⟨t', hsec⟩ := hall fun _ => (0, 0)
        rw [hprim] at hsec
        cases hsec
    · rintro (hp | hfirst) starts
      · exact standby_alone hq hp hs starts
      · exact standby_secondary hq.2 hs hfirst starts
  | false =>
    simp only [Bool.false_eq_true, if_false, SecondaryFirst]
    constructor
    · intro hall
      cases hp : p.result with
      | none => exact Or.inl rfl
      | some cp =>
        refine Or.inr ?_
        by_contra hlate
        obtain ⟨t', hsec⟩ := hall fun _ => (0, 0)
        exact threshold_primary hq hs hp hlate t' hsec
    · exact fun hfirst starts => threshold_secondary hq hs hfirst starts

end

/-! ## A primary that ends in a forward -/

section
variable {codec : Codec} {w : World} {f : ForwardPlugin}

/-- `plugin`, called under `path`, comes to the forward plugin `f` under `pathF` with `ctxF` after
`before` milliseconds: it is `f`, or a sequence whose last step is `f`. -/
inductive Reaches (codec : Codec) (w : World) (f : ForwardPlugin) :
    AnyPlugin → List Nat → Context → List Nat → Context → Nat → Prop where
  | direct (path : List Nat) (ctx : Context) : Reaches codec w f (.forward f) path ctx path ctx 0
  | sequence {registry : String → Option MatcherPlugin} {before : List Step}
      {conditions : List MatchCondition} {path : List Nat} {ctx ctxF : Context} {d : Nat}
      (passed : handleSteps codec w registry before path 0 ctx = .ok d ctxF)
      (goOn : ctxF.abort = false)
      (holds : checkMatch codec registry ctxF conditions = true) :
      Reaches codec w f (.sequence registry (before ++ [.mk conditions (.forward f)])) path ctx
        (before.length :: path) ctxF d

/-- Such a plugin ends as its forward does. -/
theorem Reaches.handle_eq {plugin : AnyPlugin} {path pathF : List Nat} {ctx ctxF : Context}
    {d : Nat} (h : Reaches codec w f plugin path ctx pathF ctxF d) :
    handle codec w plugin path ctx =
      .of (d + (w pathF).duration) (f.handle codec (w pathF).forward ctxF) := by
  cases h with
  | direct =>
    rw [handle, Nat.zero_add]
  | @sequence registry before conditions _ _ _ _ passed goOn holds =>
    rw [handle, handleSteps_append _ passed goOn, Nat.zero_add]
    have hforward : handle codec w (.forward f) (before.length :: path) ctxF =
        .of (w (before.length :: path)).duration
          (f.handle codec (w (before.length :: path)).forward ctxF) := by
      rw [handle]
    rcases handleSteps_cases codec w registry conditions (.forward f) path before.length ctxF with
      hskip | ⟨hmatch, hstop | ⟨ctx', hcall, hgo⟩⟩
    · rw [holds] at hskip
      cases hskip
    · rw [handleSteps_stop [] hmatch hstop, hforward]
      rfl
    · rw [handleSteps_go [] hmatch hcall hgo, hforward]
      rw [hforward] at hcall
      unfold Call.of at hcall ⊢
      simp only at hcall
      rw [hcall, handleSteps]
      rfl

/-- **A forward whose exchanges all fail gives `FallbackPlugin` nothing** only without a question
or after the timeout. -/
theorem forward_result_none_iff {env : ForwardEnv} (hfail : ForwardPlugin.AllFail f env)
    (d : Nat) (ctx : Context) :
    (runBranch Context.hasResponse (.of d (f.handle codec env ctx))).result = none ↔
      (ctx.request.query = none ∧ env.clientBlocked = false) ∨ DEFAULT_PARALLEL_TIMEOUT < d := by
  unfold runBranch Call.of
  simp only
  by_cases hd : d ≤ DEFAULT_PARALLEL_TIMEOUT
  · rw [if_pos hd]
    have hin : ¬ DEFAULT_PARALLEL_TIMEOUT < d := Nat.not_lt.mpr hd
    cases hblocked : env.clientBlocked with
    | true =>
      have hhandle : f.handle codec env ctx =
          (ctx.setResponse (ForwardPlugin.refused ctx.request) true, .ok ()) := by
        rw [ForwardPlugin.handle, if_pos hblocked]
      rw [hhandle]
      simp [Context.setResponse_hasResponse, hin]
    | false =>
      cases hquery : ctx.request.query with
      | none =>
        have hhandle : f.handle codec env ctx = (ctx, .error "No query") := by
          rw [ForwardPlugin.handle, if_neg (by rw [hblocked]; decide), hquery]
        rw [hhandle]
        simp
      | some q =>
        rw [ForwardPlugin.handle_fails hfail hblocked (by rw [hquery]; rfl)]
        simp [Context.setResponse_hasResponse, hin]
  · rw [if_neg hd]
    simp [Nat.lt_of_not_le hd]

/-! ## Failover -/

/-- The response of a context as a message. -/
def servedMessage (codec : Codec) (ctx : Context) : Option Message :=
  match ctx.rawResponse with
  | some raw => codec.fromVec raw.raw
  | none => ctx.response

/-- A response with records, or at least not a SERVFAIL. -/
def Usable (codec : Codec) (ctx : Context) : Prop :=
  ∃ m, servedMessage codec ctx = some m ∧ (m.answers ≠ [] ∨ m.responseCode ≠ .servFail)

/-- What a fallback owes when its primary failed: a usable response of the secondary is the one
left in the context. -/
def FailsOver (codec : Codec) (threshold : Nat) (alwaysStandby : Bool)
    (primary secondary : Call Context) (starts : Nat → Nat × Nat) (ctx : Context) : Prop :=
  ∀ cs, (runBranch Context.hasResponse secondary).result = some cs → Usable codec cs →
    ∃ t, fallbackLoop Context.hasResponse threshold alwaysStandby primary secondary starts =
        .ok .secondary cs t ∧
      handleFallback threshold alwaysStandby primary secondary starts ctx =
        ⟨t, .returned (applyCtx cs ctx) (.ok ())⟩

/-- A branch that gives a context has not panicked. -/
theorem runBranch_some {C : Type} {hasResponse : C → Bool} {call : Call C} {ctx : C}
    (h : (runBranch hasResponse call).result = some ctx) :
    (runBranch hasResponse call).panics = false := by
  unfold runBranch at h ⊢
  split
  · rename_i hin
    rw [if_pos hin] at h
    split
    · rfl
    · rfl
    · rename_i hcall
      rw [hcall] at h
      cases h
  · rfl

theorem runBranch_of_quiet (d : Nat) (out : Context × Except String Unit) :
    (runBranch Context.hasResponse (.of d out)).panics = false := runBranch_quiet _ _ _ _

/-- **When failover from a failed forward happens**, for every order of polling: the secondary has
nothing usable, or the forward got no question to answer or timed out, or the secondary comes
first. -/
theorem failover_iff (codec : Codec) (w : World) (f : ForwardPlugin) (primary secondary : AnyPlugin)
    (threshold : Nat) (alwaysStandby : Bool) (path pathF : List Nat) (ctx ctxF : Context) (d : Nat)
    (hreach : Reaches codec w f primary (0 :: path) ctx pathF ctxF d)
    (hfail : ForwardPlugin.AllFail f (w pathF).forward) :
    (∀ starts, FailsOver codec threshold alwaysStandby (handle codec w primary (0 :: path) ctx)
        (handle codec w secondary (1 :: path) ctx) starts ctx) ↔
      (∀ cs, (runBranch Context.hasResponse (handle codec w secondary (1 :: path) ctx)).result =
        some cs → ¬ Usable codec cs) ∨
      (ctxF.request.query = none ∧ (w pathF).forward.clientBlocked = false) ∨
      DEFAULT_PARALLEL_TIMEOUT < d + (w pathF).duration ∨
      SecondaryFirst alwaysStandby
        (runBranch Context.hasResponse (handle codec w primary (0 :: path) ctx))
        (runBranch Context.hasResponse (handle codec w secondary (1 :: path) ctx)) threshold := by
  rw [hreach.handle_eq]
  have hp := @runBranch_of_quiet (d + (w pathF).duration) (f.handle codec (w pathF).forward ctxF)
  have hnone := @forward_result_none_iff codec f _ hfail (d + (w pathF).duration) ctxF
  generalize Call.of (d + (w pathF).duration) (f.handle codec (w pathF).forward ctxF) = cp at *
  generalize handle codec w secondary (1 :: path) ctx = cs at *
  by_cases hus : ∃ c, (runBranch Context.hasResponse cs).result = some c ∧ Usable codec c
  · obtain ⟨c, hc, husable⟩ := hus
    have hiff := @fallback_secondary_iff _ _ _ threshold _ alwaysStandby ⟨hp, runBranch_some hc⟩ hc
    rw [hnone] at hiff
    constructor
    · intro hall
      have hwins := hiff.mp fun starts => by
        obtain ⟨t, hloop, -⟩ := hall starts c hc husable
        exact ⟨t, hloop⟩
      rcases hwins with (h | h) | h
      · exact Or.inr (Or.inl h)
      · exact Or.inr (Or.inr (Or.inl h))
      · exact Or.inr (Or.inr (Or.inr h))
    · intro hcond starts c' hc' _
      have hcc : c' = c := Option.some.inj (hc'.symm.trans hc)
      subst hcc
      have hwins := hiff.mpr <| by
        rcases hcond with h | h | h | h
        · exact absurd husable (h c' hc)
        · exact Or.inl (Or.inl h)
        · exact Or.inl (Or.inr h)
        · exact Or.inr h
      obtain ⟨t, hloop⟩ := hwins starts
      refine ⟨t, hloop, ?_⟩
      rw [handleFallback, fallbackLoop]
      rw [hloop]
  · push Not at hus
    constructor
    · exact fun _ => Or.inl hus
    · exact fun _ starts c hc husable => absurd husable (hus c hc)

end

/-! ## An outage -/

/-- The primary fails after `dp` milliseconds, the secondary answers after `ds`. -/
def outage (dp ds : Nat) : World
  | 0 :: _ => .uniform dp .timedOut
  | _ => .uniform ds (.ok exampleAnswer)

theorem outage_allFail (dp ds : Nat) (path : List Nat) :
    ForwardPlugin.AllFail singleForward (outage dp ds (0 :: path)).forward :=
  ⟨fun _ _ _ h => (by cases h), fun _ _ _ h => (by cases h)⟩

/-- A call of the example forward in an outage. -/
def outageCall (dp ds : Nat) (side : Nat) : Call Context :=
  handle exampleCodec (outage dp ds) (.forward singleForward) [side]
    (.new exampleRequest (.v4 ⟨10, 0, 0, 2⟩))

theorem failover_iff_slow :
    SecondaryFirst false (runBranch Context.hasResponse (outageCall 2000 50 0))
        (runBranch Context.hasResponse (outageCall 2000 50 1)) 400 ∧
      ∀ starts, FailsOver exampleCodec 400 false (outageCall 2000 50 0) (outageCall 2000 50 1)
        starts
        (.new exampleRequest (.v4 ⟨10, 0, 0, 2⟩)) := by
  have hfirst : SecondaryFirst false (runBranch Context.hasResponse (outageCall 2000 50 0))
      (runBranch Context.hasResponse (outageCall 2000 50 1)) 400 := by decide
  exact ⟨hfirst, (failover_iff exampleCodec (outage 2000 50) singleForward (.forward singleForward)
    (.forward singleForward) 400 false [] [0] _ _ 0 (.direct _ _) (outage_allFail 2000 50 [])).mpr
    (Or.inr (Or.inr (Or.inr hfirst)))⟩

/-- **The primary's own SERVFAIL is returned** although the secondary has an address. -/
theorem failover_fails :
    ForwardPlugin.AllFail singleForward (outage 100 50 [0]).forward ∧
    ((handle exampleCodec (outage 100 50)
        (.fallback (.forward singleForward) (.forward singleForward) 400 false) []
        (.new exampleRequest (.v4 ⟨10, 0, 0, 2⟩))).handled.context?.bind (·.response)) =
      some (ForwardPlugin.servFail exampleRequest) ∧
    (outageCall 100 50 1).handled.context?.bind (·.response) = some exampleAnswer :=
  ⟨outage_allFail 100 50 [], by decide, by decide⟩

end TitanDns
