import TitanDns.Plugins.Executed

/-!
# What a fallback lets through

The two branches of `handle_fallback` run at the same time, each on its clone of the context, and
one clone is merged back.  The loops look at a clone only through whether there is one, so they
commute with every function of the contexts; what the branch that is not used wrote is then shown
to make no difference by writing something else there.

* `settle` — the loops; `settle_ends` — they end, for every order of arrival.
* `standbyFallback_map`, `thresholdFallback_map` — **the loops commute with a function of the
  contexts.**
* `settle_other` — **the end of the loops does not depend on the context of the other branch.**
* `Alike` — calls that take the same time and succeed both or not at all.
* `Merged` — the fields a branch may change come from its context, the others stay.

Principal result: `fallback_isolated` — **a fallback that fails leaves the context as it was; one
that succeeds merges one successful branch, whatever the other wrote.**
-/

namespace TitanDns

open Select Loop

/-! ## The loops end -/

section
variable {C : Type} {p s : Arrival C} {threshold : Nat}

theorem takeSecondary_ends (st : Standby C) :
    st.takeSecondary ≠ .inr .outOfFuel ∧
      ∀ st', st.takeSecondary = .inl st' → st' = { st with secondaryCached := none } := by
  unfold Standby.takeSecondary
  split
  · exact ⟨by simp, by simp⟩
  · rw [Standby.next_of_none rfl]
    exact ⟨by simp, fun st' h => (Sum.inl.inj h).symm⟩

/-- An iteration ends the loop or has one arrival less to wait for. -/
theorem standbyStep_ends (st : Standby C) (start again : Nat) :
    Owes (fun _ => True) Standby.remaining (fun e => e ≠ .outOfFuel) st
      (standbyStep p s threshold st start again) := by
  have howes : ∀ st₁ : Standby C, st₁.remaining < st.remaining →
      Owes (fun _ => True) Standby.remaining (fun e => e ≠ .outOfFuel) st st₁.takeSecondary := by
    intro st₁ hlt
    obtain ⟨hfuel, htaken⟩ := takeSecondary_ends st₁
    cases h : st₁.takeSecondary with
    | inl st' =>
      rw [htaken st' h]
      exact ⟨trivial, hlt⟩
    | inr e =>
      rintro rfl
      exact hfuel h
  unfold standbyStep
  cases hsel : select (st.branches p s threshold) st.now start again with
  | panicked t => simp [Owes]
  | disabled => simp [Owes]
  | idle => exact absurd hsel select_ne_idle
  | fired i t =>
    obtain ⟨-, ⟨b, hbi, hen, hspent, -⟩, -⟩ := select_fired hsel
    rcases triple_cases hbi with ⟨rfl, rfl⟩ | ⟨rfl, rfl⟩ | ⟨rfl, rfl⟩
    · have hdone : st.primaryDone = false := by simpa using hen
      show Owes _ _ _ st (st.onPrimary p t)
      unfold Standby.onPrimary
      simp only
      split
      · simp [Owes]
      · cases hp : p.result with
        | some ctx => simp [Owes]
        | none =>
          apply howes
          simp only [Standby.remaining, hdone, if_true, Bool.false_eq_true, if_false]
          split <;> omega
    · have hspent' : st.secondarySpent = false := hspent
      show Owes _ _ _ st (st.onSecondary s t)
      unfold Standby.onSecondary
      simp only
      split
      · simp [Owes]
      · split
        · apply howes
          simp [Standby.remaining, hspent']
        · rename_i hallow
          rw [Standby.next_of_not_allowed (by simpa using hallow)]
          exact ⟨trivial, by simp [Standby.remaining, hspent']⟩
    · have hallow : st.allowSecondary = false := by simpa using hen
      show Owes _ _ _ st (st.onDelay t)
      unfold Standby.onDelay
      apply howes
      simp [Standby.remaining, hallow]

theorem standbyFallback_ends (starts : Nat → Nat × Nat) :
    standbyFallback p s threshold starts ≠ .outOfFuel := by
  have hlt : (Standby.init : Standby C).remaining < 4 := by
    rw [Standby.init_remaining]
    omega
  exact loop_good (fun n st _ => standbyStep_ends st (starts n).1 (starts n).2) trivial hlt

theorem startedStep_ends (st : Started C) (start again : Nat) :
    Owes (fun _ => True) Started.remaining (fun e => e ≠ .outOfFuel) st
      (startedStep p s st start again) := by
  unfold startedStep
  cases hsel : select [⟨!st.primaryDone, p.readyAt, st.primaryDone⟩,
      ⟨!st.secondaryDone, s.readyAt, st.secondaryDone⟩] st.now start again with
  | panicked t => simp [Owes]
  | disabled => simp [Owes]
  | idle => exact absurd hsel select_ne_idle
  | fired i t =>
    obtain ⟨-, ⟨b, hbi, hen, -, -⟩, -⟩ := select_fired hsel
    rcases pair_cases hbi with ⟨rfl, rfl⟩ | ⟨rfl, rfl⟩
    · have hdone : st.primaryDone = false := by simpa using hen
      simp only
      split
      · simp [Owes]
      · cases hp : p.result with
        | some ctx => simp [Owes]
        | none =>
          cases hs : st.secondaryDone <;> simp [Owes, Started.remaining, hdone, hs]
    · have hdone : st.secondaryDone = false := by simpa using hen
      simp only
      split
      · simp [Owes]
      · cases hs : s.result with
        | some ctx => simp [Owes]
        | none =>
          cases hp : st.primaryDone <;> simp [Owes, Started.remaining, hdone, hp]

theorem startedLoop_ends (starts : Nat → Nat × Nat) (t : Nat) :
    startedLoop p s starts 3 ⟨t, false, false⟩ ≠ .outOfFuel := by
  have hlt : (⟨t, false, false⟩ : Started C).remaining < 3 := by simp [Started.remaining]
  exact loop_good (fun n st _ => startedStep_ends st (starts n).1 (starts n).2) trivial hlt

theorem thresholdFallback_ends (starts : Nat → Nat × Nat) :
    thresholdFallback p s threshold starts ≠ .outOfFuel := by
  unfold thresholdFallback
  cases hsel : select [⟨true, p.readyAt, false⟩, ⟨true, threshold, false⟩] 0 (starts 0).1
      (starts 0).2 with
  | panicked t => simp
  | disabled => simp
  | idle => exact absurd hsel select_ne_idle
  | fired i t =>
    match i with
    | 0 =>
      simp only
      split
      · simp
      · cases p.result with
        | some ctx => simp
        | none =>
          simp only
          split
          · simp
          · cases s.result <;> simp
    | i + 1 => exact startedLoop_ends _ _

end

/-! ## The loops look at no context -/

section
variable {C D : Type}

def Arrival.map (f : C → D) (a : Arrival C) : Arrival D := ⟨a.readyAt, a.result.map f, a.panics⟩

def LoopEnd.map (f : C → D) : LoopEnd C → LoopEnd D
  | .ok side ctx t => .ok side (f ctx) t
  | .err t => .err t
  | .panicked t => .panicked t
  | .disabled t => .disabled t
  | .outOfFuel => .outOfFuel

def Standby.map (f : C → D) (st : Standby C) : Standby D :=
  ⟨st.now, st.primaryDone, st.secondaryCached.map (Option.map f), st.allowSecondary,
    st.primarySpent, st.secondarySpent⟩

def Started.map (_ : C → D) (st : Started C) : Started D :=
  ⟨st.now, st.primaryDone, st.secondaryDone⟩

variable {f : C → D} {p s : Arrival C} {threshold : Nat}

theorem branches_map (st : Standby C) :
    (st.map f).branches (p.map f) (s.map f) threshold = st.branches p s threshold := by
  simp [Standby.branches, Standby.map, Arrival.map]

theorem next_map (st : Standby C) :
    (st.map f).next = Sum.map (Standby.map f) (LoopEnd.map f) st.next := by
  unfold Standby.next Standby.map
  simp only [Option.isSome_map]
  split <;> rfl

theorem takeSecondary_map (st : Standby C) :
    (st.map f).takeSecondary = Sum.map (Standby.map f) (LoopEnd.map f) st.takeSecondary := by
  unfold Standby.takeSecondary
  rcases hc : st.secondaryCached with _ | _ | ctx
  · simp only [Standby.map, hc, Option.map_none]
    exact next_map { st with secondaryCached := none }
  · simp only [Standby.map, hc, Option.map_some, Option.map_none]
    exact next_map { st with secondaryCached := none }
  · simp only [Standby.map, hc, Option.map_some]
    rfl

theorem onPrimary_map (st : Standby C) (t : Nat) :
    (st.map f).onPrimary (p.map f) t =
      Sum.map (Standby.map f) (LoopEnd.map f) (st.onPrimary p t) := by
  unfold Standby.onPrimary
  by_cases hpanics : p.panics = true
  · simp [Arrival.map, hpanics, LoopEnd.map]
  · simp only [Arrival.map, hpanics, Bool.false_eq_true, if_false]
    cases p.result with
    | some ctx => rfl
    | none => exact takeSecondary_map ⟨t, true, st.secondaryCached, true, true, st.secondarySpent⟩

theorem onSecondary_map (st : Standby C) (t : Nat) :
    (st.map f).onSecondary (s.map f) t =
      Sum.map (Standby.map f) (LoopEnd.map f) (st.onSecondary s t) := by
  have hallow : (st.map f).allowSecondary = st.allowSecondary := rfl
  unfold Standby.onSecondary
  by_cases hpanics : s.panics = true
  · simp [Arrival.map, hpanics, LoopEnd.map]
  · simp only [Arrival.map, hpanics, hallow, Bool.false_eq_true, if_false]
    by_cases ha : st.allowSecondary = true
    · simp only [ha, if_true]
      exact takeSecondary_map ⟨t, st.primaryDone, some s.result, true, st.primarySpent, true⟩
    · simp only [ha, Bool.false_eq_true, if_false]
      exact next_map ⟨t, st.primaryDone, some s.result, false, st.primarySpent, true⟩

theorem onDelay_map (st : Standby C) (t : Nat) :
    (st.map f).onDelay t = Sum.map (Standby.map f) (LoopEnd.map f) (st.onDelay t) :=
  takeSecondary_map ⟨t, st.primaryDone, st.secondaryCached, true, st.primarySpent,
    st.secondarySpent⟩

theorem standbyStep_map (st : Standby C) (start again : Nat) :
    standbyStep (p.map f) (s.map f) threshold (st.map f) start again =
      Sum.map (Standby.map f) (LoopEnd.map f) (standbyStep p s threshold st start again) := by
  have hnow : (st.map f).now = st.now := rfl
  unfold standbyStep
  rw [branches_map, hnow]
  cases select (st.branches p s threshold) st.now start again with
  | fired i t =>
    match i with
    | 0 => exact onPrimary_map st t
    | 1 => exact onSecondary_map st t
    | i + 2 => exact onDelay_map st t
  | panicked t => rfl
  | disabled => rfl
  | idle => rfl

/-- **The loop with `always_standby` commutes with a function of the contexts.** -/
theorem standbyFallback_map (starts : Nat → Nat × Nat) :
    standbyFallback (p.map f) (s.map f) threshold starts =
      (standbyFallback p s threshold starts).map f := by
  exact @loop_map _ _ (fun n st => standbyStep p s threshold st (starts n).1 (starts n).2)
    .outOfFuel _ _
    (fun n st => standbyStep (p.map f) (s.map f) threshold st (starts n).1 (starts n).2)
    (Standby.map f) (LoopEnd.map f)
    (fun n st => standbyStep_map st (starts n).1 (starts n).2) 4 Standby.init

theorem startedStep_map (st : Started C) (start again : Nat) :
    startedStep (p.map f) (s.map f) (st.map f) start again =
      Sum.map (Started.map f) (LoopEnd.map f) (startedStep p s st start again) := by
  unfold startedStep
  simp only [Arrival.map, Started.map]
  cases select [⟨!st.primaryDone, p.readyAt, st.primaryDone⟩,
      ⟨!st.secondaryDone, s.readyAt, st.secondaryDone⟩] st.now start again with
  | fired i t =>
    match i with
    | 0 =>
      by_cases hpanics : p.panics = true
      · simp [hpanics, LoopEnd.map]
      · simp only [hpanics, Bool.false_eq_true, if_false]
        cases p.result with
        | some ctx => rfl
        | none =>
          by_cases hs : st.secondaryDone = true <;> simp [LoopEnd.map, Started.map, hs]
    | i + 1 =>
      by_cases hpanics : s.panics = true
      · simp [hpanics, LoopEnd.map]
      · simp only [hpanics, Bool.false_eq_true, if_false]
        cases s.result with
        | some ctx => rfl
        | none =>
          by_cases hp : st.primaryDone = true <;> simp [LoopEnd.map, Started.map, hp]
  | panicked t => rfl
  | disabled => rfl
  | idle => rfl

theorem startedLoop_map (starts : Nat → Nat × Nat) (n : Nat) (st : Started C) :
    startedLoop (p.map f) (s.map f) starts n (st.map f) =
      (startedLoop p s starts n st).map f := by
  exact @loop_map _ _ (fun n st => startedStep p s st (starts n).1 (starts n).2) .outOfFuel _ _
    (fun n st => startedStep (p.map f) (s.map f) st (starts n).1 (starts n).2)
    (Started.map f) (LoopEnd.map f)
    (fun n st => startedStep_map st (starts n).1 (starts n).2) n st

/-- **So does `handle_fallback` with the threshold.** -/
theorem thresholdFallback_map (starts : Nat → Nat × Nat) :
    thresholdFallback (p.map f) (s.map f) threshold starts =
      (thresholdFallback p s threshold starts).map f := by
  unfold thresholdFallback
  have hready : (p.map f).readyAt = p.readyAt := rfl
  rw [hready]
  cases select [⟨true, p.readyAt, false⟩, ⟨true, threshold, false⟩] 0 (starts 0).1
      (starts 0).2 with
  | fired i t =>
    match i with
    | 0 =>
      by_cases hpanics : p.panics = true
      · simp [Arrival.map, hpanics, LoopEnd.map]
      · simp only [Arrival.map, hpanics, Bool.false_eq_true, if_false]
        cases p.result with
        | some ctx => rfl
        | none =>
          by_cases hlate : s.panics = true
          · simp [hlate, LoopEnd.map]
          · simp only [Option.map_none, hlate, Bool.false_eq_true, if_false]
            cases s.result <;> rfl
    | i + 1 =>
      exact @startedLoop_map _ _ f p { s with readyAt := t + s.readyAt }
        (fun n => starts (n + 1)) 3 ⟨t, false, false⟩
  | panicked t => rfl
  | disabled => rfl
  | idle => rfl

end

/-! ## The branch that is not used -/

section
variable {C D : Type} {threshold : Nat} {alwaysStandby : Bool}

/-- The loops, on what the branches arrive with. -/
def settle (threshold : Nat) (alwaysStandby : Bool) (arrivals : Side → Arrival C)
    (starts : Nat → Nat × Nat) : LoopEnd C :=
  if alwaysStandby then
    standbyFallback (arrivals .primary) (arrivals .secondary) threshold starts
  else thresholdFallback (arrivals .primary) (arrivals .secondary) threshold starts

theorem settle_map (f : C → D) (arrivals : Side → Arrival C) (starts : Nat → Nat × Nat) :
    settle threshold alwaysStandby (fun side => (arrivals side).map f) starts =
      (settle threshold alwaysStandby arrivals starts).map f := by
  unfold settle
  cases alwaysStandby with
  | true => exact standbyFallback_map starts
  | false => exact thresholdFallback_map starts

/-- **The loops end.** -/
theorem settle_ends (arrivals : Side → Arrival C) (starts : Nat → Nat × Nat) :
    settle threshold alwaysStandby arrivals starts ≠ .outOfFuel := by
  unfold settle
  cases alwaysStandby with
  | true => exact standbyFallback_ends starts
  | false => exact thresholdFallback_ends starts

theorem settle_source {arrivals : Side → Arrival C} {starts : Nat → Nat × Nat} {side : Side}
    {ctx : C} {t : Nat} (h : settle threshold alwaysStandby arrivals starts = .ok side ctx t) :
    (arrivals side).result = some ctx := by
  have hsource : FromBranch (arrivals .primary) (arrivals .secondary)
      (settle threshold alwaysStandby arrivals starts) := by
    unfold settle
    cases alwaysStandby with
    | true => exact standbyFallback_source starts
    | false => exact thresholdFallback_source starts
  rw [h] at hsource
  cases side with
  | primary => exact hsource
  | secondary => exact hsource

/-- An arrival without its context. -/
def Arrival.bare (a : Arrival C) : Arrival Unit := a.map fun _ => ()

/-- An arrival is what is left of it, with its context put back. -/
theorem bare_map (a : Arrival C) (side : Side) {v : Side → C}
    (hv : ∀ ctx, a.result = some ctx → v side = ctx) :
    (a.bare.map fun _ => side).map v = a := by
  obtain ⟨readyAt, result, panics⟩ := a
  cases result with
  | none => rfl
  | some ctx => simp [Arrival.bare, Arrival.map, hv ctx rfl]

/-- **The end of the loops does not depend on the context of the other branch.**  Run on the names
of the branches in place of their contexts, the loops end with the name of the branch they use. -/
theorem settle_other {arrivals arrivals' : Side → Arrival C} {starts : Nat → Nat × Nat}
    {side : Side} {ctx : C} {t : Nat}
    (h : settle threshold alwaysStandby arrivals starts = .ok side ctx t)
    (hside : arrivals' side = arrivals side)
    (hbare : ∀ i, (arrivals' i).bare = (arrivals i).bare) :
    settle threshold alwaysStandby arrivals' starts = .ok side ctx t := by
  have hback : ∀ as : Side → Arrival C, (∀ i, (as i).bare = (arrivals i).bare) →
      (settle threshold alwaysStandby (fun i => (arrivals i).bare.map fun _ => i) starts).map
        (fun i => (as i).result.getD ctx) = settle threshold alwaysStandby as starts := by
    intro as has
    rw [← settle_map]
    congr 1
    funext i
    rw [← has i]
    exact bare_map (as i) i fun c hc => by simp [hc]
  have hnames := hback arrivals fun _ => rfl
  rw [h] at hnames
  rw [← hback arrivals' hbare]
  cases hrun : settle threshold alwaysStandby (fun i => (arrivals i).bare.map fun _ => i)
      starts with
  | ok side' name t' =>
    rw [hrun] at hnames
    obtain ⟨rfl, hctx, rfl⟩ := LoopEnd.ok.inj hnames
    have hname : name = side' := by
      have hsource := settle_source hrun
      obtain ⟨-, -, hname⟩ := Option.map_eq_some_iff.mp hsource
      exact hname.symm
    subst hname
    have hctx' : (arrivals name).result.getD ctx = ctx := hctx
    simp only [LoopEnd.map, hside, hctx']
  | err t' =>
    rw [hrun] at hnames
    cases hnames
  | panicked t' =>
    rw [hrun] at hnames
    cases hnames
  | disabled t' =>
    rw [hrun] at hnames
    cases hnames
  | outOfFuel =>
    rw [hrun] at hnames
    cases hnames

end

/-! ## Isolation -/

/-- The call takes effect as a branch: `Ok` in time, and a response. -/
structure Succeeds (call : Call Context) (success : Context) : Prop where
  returned : call.handled = .returned success (.ok ())
  inTime : call.duration ≤ DEFAULT_PARALLEL_TIMEOUT
  response : success.hasResponse = true

theorem runBranch_succeeds {call : Call Context} {success : Context}
    (h : (runBranch Context.hasResponse call).result = some success) : Succeeds call success := by
  unfold runBranch at h
  split at h
  · rename_i hintime
    split at h
    · rename_i ctx' hcall
      simp only at h
      split at h
      · rename_i hresponse
        cases h
        exact ⟨hcall, hintime, hresponse⟩
      · cases h
    · cases h
    · cases h
  · cases h

/-- Two calls end at the same time, and both succeed, both fail or both panic. -/
def Alike (call call' : Call Context) : Prop :=
  (runBranch Context.hasResponse call).bare = (runBranch Context.hasResponse call').bare

/-- The context `ctx` after a branch that ended with `success` was merged. -/
structure Merged (success ctx ctx' : Context) : Prop where
  response : ctx'.response = success.response
  rawResponse : ctx'.rawResponse = success.rawResponse
  tags : ctx'.tags = success.tags
  abort : ctx'.abort = success.abort
  minTtl : ctx'.minTtl = success.minTtl
  postProcessHooks : ctx'.postProcessHooks = success.postProcessHooks
  clientIp : ctx'.clientIp = ctx.clientIp
  request : ctx'.request = ctx.request
  rawRequest : ctx'.rawRequest = ctx.rawRequest

/-- What is asked of a run that returned `res` and left `ctx'`: nothing changed, or one branch was
merged and would have been with anything else in the context of the other. -/
def Isolated (run : (Side → Call Context) → Call Context) (calls : Side → Call Context)
    (ctx ctx' : Context) : Except String Unit → Prop
  | .error _ => ctx' = ctx
  | .ok () => ∃ side success, Succeeds (calls side) success ∧ Merged success ctx ctx' ∧
      ∀ calls', calls' side = calls side → (∀ i, Alike (calls' i) (calls i)) →
        run calls' = run calls

/-- `handle_fallback` as a function of the calls of its branches. -/
def fallbackOf (threshold : Nat) (alwaysStandby : Bool) (starts : Nat → Nat × Nat) (ctx : Context)
    (calls : Side → Call Context) : Call Context :=
  handleFallback threshold alwaysStandby (calls .primary) (calls .secondary) starts ctx

section
variable {threshold : Nat} {alwaysStandby : Bool} {starts : Nat → Nat × Nat} {ctx ctx' : Context}
  {calls : Side → Call Context}

/-- `handle_fallback` is the loops, then `apply_ctx`. -/
theorem fallbackOf_eq :
    fallbackOf threshold alwaysStandby starts ctx calls =
      match settle threshold alwaysStandby
        (fun i => runBranch Context.hasResponse (calls i)) starts with
      | .ok _ success t => ⟨t, .returned (applyCtx success ctx) (.ok ())⟩
      | .err t => ⟨t, .returned ctx (.error "Both upstreams failed")⟩
      | .panicked t => ⟨t, .panicked⟩
      | .disabled t => ⟨t, .panicked⟩
      | .outOfFuel => ⟨0, .panicked⟩ := rfl

/-- **Context isolation**: for every order in which the branches and the timer arrive, in both
modes. -/
theorem fallback_isolated {res : Except String Unit}
    (h : (fallbackOf threshold alwaysStandby starts ctx calls).handled = .returned ctx' res) :
    Isolated (fallbackOf threshold alwaysStandby starts ctx) calls ctx ctx' res := by
  rw [fallbackOf_eq] at h
  cases hsettle : settle threshold alwaysStandby
      (fun i => runBranch Context.hasResponse (calls i)) starts with
  | ok side success t =>
    rw [hsettle] at h
    cases h
    refine ⟨side, success, runBranch_succeeds (settle_source hsettle),
      ⟨rfl, rfl, rfl, rfl, rfl, rfl, rfl, rfl, rfl⟩, fun calls' hside halike => ?_⟩
    have hother : settle threshold alwaysStandby
        (fun i => runBranch Context.hasResponse (calls' i)) starts = .ok side success t :=
      settle_other hsettle (congrArg (runBranch Context.hasResponse) hside) halike
    rw [fallbackOf_eq, fallbackOf_eq, hother, hsettle]
  | err t =>
    rw [hsettle] at h
    cases h
    rfl
  | panicked t =>
    rw [hsettle] at h
    cases h
  | disabled t =>
    rw [hsettle] at h
    cases h
  | outOfFuel =>
    rw [hsettle] at h
    cases h

end

/-- A primary that fails after it has tagged its context, and a secondary with a response and a
hook. -/
def racingCalls : Side → Call Context
  | .primary => ⟨100, .returned { Context.new exampleRequest (.v4 ⟨127, 0, 0, 1⟩) with
      tags := ["cn"] } (.error "refused")⟩
  | .secondary => ⟨50, .returned { Context.new exampleRequest (.v4 ⟨127, 0, 0, 1⟩) with
      response := some exampleAnswer, postProcessHooks := ["cache"] } (.ok ())⟩

/-- The secondary's response and hook arrive without the primary's tag. -/
theorem fallback_isolated_secondary :
    Isolated (fallbackOf 500 true (fun _ => (0, 0))
        (Context.new exampleRequest (.v4 ⟨127, 0, 0, 1⟩))) racingCalls
      (Context.new exampleRequest (.v4 ⟨127, 0, 0, 1⟩))
      { Context.new exampleRequest (.v4 ⟨127, 0, 0, 1⟩) with
        response := some exampleAnswer, postProcessHooks := ["cache"] } (.ok ()) :=
  fallback_isolated rfl

end TitanDns
