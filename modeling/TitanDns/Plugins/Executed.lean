import TitanDns.Plugins.Pipeline

/-!
# The calls a pipeline makes

* `AnyPlugin.composite` — the plugins that only call others; `leaf_returned` — what the call of
  another one leaves.
* `Every ok` — every call of the run to a plugin that is not composite meets `ok`: those of the
  steps a sequence comes to, those of both branches of a fallback.
* `fallbackLoop_source` — the context a fallback returns is the one its branch ended with.
* `handle_invariant` — **the invariant rule of the pipeline**: what every such call keeps, and
  `apply_ctx` keeps, the whole pipeline keeps.
-/

namespace TitanDns

open Loop

/-- A plugin that only calls others. -/
def AnyPlugin.composite : AnyPlugin → Bool
  | .sequence _ _ => true
  | .fallback _ _ _ _ => true
  | _ => false

/-- The context that the call of such another plugin leaves, whether or not it is an error. -/
def StepEnv.leaves (env : StepEnv) (codec : Codec) (ctx : Context) : AnyPlugin → Context
  | .cache p => p.handleWith codec env.now env.found ctx
  | .forward p => (p.handle codec env.forward ctx).1
  | .smartForward _ _ => (SmartForwardPlugin.handle codec env.smartForward ctx).1
  | .reject p => p.handle ctx
  | .hosts p => p.handle codec ctx
  | .geoSite p => p.handle codec ctx
  | .geoIp p => p.handle ctx
  | .matcher p => p.handle codec ctx
  | .ecs p => p.handle ctx
  | .dns64 p => p.handle ctx
  | .adBlock p => p.handle codec ctx
  | .ipv6Filter p => p.handle ctx
  | .dga p => p.handle codec env.entropyAbove ctx
  | .ipMatcher p => p.handle ctx
  | .smartResolve => SmartResolvePlugin.handle env.smartResolve ctx
  | .aliApi => (AliApiPlugin.handle env.aliApi ctx).1
  | .rateLimit => RateLimitPlugin.handle env.shouldLimit ctx
  | .ttl p => p.handle ctx
  | .log | .fakeIp | .dnssec | .sequence _ _ | .fallback _ _ _ _ => ctx

theorem leaf_returned {codec : Codec} {w : World} {plugin : AnyPlugin} {path : List Nat}
    {ctx ctx' : Context} {res : Except String Unit} (hleaf : plugin.composite = false)
    (h : (handle codec w plugin path ctx).handled = .returned ctx' res) :
    ctx' = (w path).leaves codec ctx plugin := by
  cases plugin with
  | sequence => cases hleaf
  | fallback => cases hleaf
  | _ =>
    rw [handle] at h
    cases h
    rfl

/-- Such a plugin returns. -/
theorem leaf_handled (codec : Codec) (w : World) {plugin : AnyPlugin}
    (hleaf : plugin.composite = false) (path : List Nat) (ctx : Context) :
    ∃ res, (handle codec w plugin path ctx).handled =
      .returned ((w path).leaves codec ctx plugin) res := by
  cases plugin with
  | sequence => cases hleaf
  | fallback => cases hleaf
  | _ =>
    rw [handle]
    exact ⟨_, rfl⟩

section
variable (codec : Codec) (w : World) (ok : AnyPlugin → List Nat → Context → Prop)

mutual

/-- Every call that `plugin` makes, itself included, meets `ok`. -/
def Every : AnyPlugin → List Nat → Context → Prop
  | .sequence registry steps, path, ctx => EverySteps registry steps path 0 ctx
  | .fallback primary secondary _ _, path, ctx =>
    Every primary (0 :: path) ctx ∧ Every secondary (1 :: path) ctx
  | .cache p, path, ctx => ok (.cache p) path ctx
  | .forward p, path, ctx => ok (.forward p) path ctx
  | .smartForward g m, path, ctx => ok (.smartForward g m) path ctx
  | .reject p, path, ctx => ok (.reject p) path ctx
  | .log, path, ctx => ok .log path ctx
  | .hosts p, path, ctx => ok (.hosts p) path ctx
  | .geoSite p, path, ctx => ok (.geoSite p) path ctx
  | .geoIp p, path, ctx => ok (.geoIp p) path ctx
  | .matcher p, path, ctx => ok (.matcher p) path ctx
  | .ecs p, path, ctx => ok (.ecs p) path ctx
  | .fakeIp, path, ctx => ok .fakeIp path ctx
  | .dns64 p, path, ctx => ok (.dns64 p) path ctx
  | .dnssec, path, ctx => ok .dnssec path ctx
  | .adBlock p, path, ctx => ok (.adBlock p) path ctx
  | .ipv6Filter p, path, ctx => ok (.ipv6Filter p) path ctx
  | .dga p, path, ctx => ok (.dga p) path ctx
  | .ipMatcher p, path, ctx => ok (.ipMatcher p) path ctx
  | .smartResolve, path, ctx => ok .smartResolve path ctx
  | .aliApi, path, ctx => ok .aliApi path ctx
  | .rateLimit, path, ctx => ok .rateLimit path ctx
  | .ttl p, path, ctx => ok (.ttl p) path ctx

/-- Every call of the loop of a sequence, from step `i` on. -/
def EverySteps (registry : String → Option MatcherPlugin) :
    List Step → List Nat → Nat → Context → Prop
  | [], _, _, _ => True
  | .mk conditions plugin :: rest, path, i, ctx =>
    if checkMatch codec registry ctx conditions then
      Every plugin (i :: path) ctx ∧
        ∀ ctx', (handle codec w plugin (i :: path) ctx).handled = .returned ctx' (.ok ()) →
          ctx'.abort = false → EverySteps registry rest path (i + 1) ctx'
    else EverySteps registry rest path (i + 1) ctx

end

end

/-! ## The context a fallback returns -/

section
variable {C : Type} {p s : Arrival C} {threshold : Nat}

/-- A successful end carries what its branch arrived with. -/
def FromBranch (p s : Arrival C) : LoopEnd C → Prop
  | .ok .primary ctx _ => p.result = some ctx
  | .ok .secondary ctx _ => s.result = some ctx
  | _ => True

/-- What is cached is what the secondary arrived with. -/
def OwnCached (s : Arrival C) (st : Standby C) : Prop :=
  ∀ r, st.secondaryCached = some r → r = s.result

/-- What an iteration ends with, or goes on with, belongs to the branches. -/
def FromBranches (p s : Arrival C) : Standby C ⊕ LoopEnd C → Prop
  | .inl st => OwnCached s st
  | .inr e => FromBranch p s e

theorem next_source {st : Standby C} (h : OwnCached s st) : FromBranches p s st.next := by
  unfold Standby.next
  split
  · trivial
  · exact h

theorem takeSecondary_source {st : Standby C} (h : OwnCached s st) :
    FromBranches p s st.takeSecondary := by
  unfold Standby.takeSecondary
  split
  · rename_i ctx hc
    exact (h _ hc).symm
  · exact next_source fun r hr => (by cases hr)

theorem standbyStep_source {st : Standby C} (h : OwnCached s st) (start again : Nat) :
    FromBranches p s (standbyStep p s threshold st start again) := by
  unfold standbyStep
  split
  · unfold Standby.onPrimary
    simp only
    split
    · trivial
    · cases hp : p.result with
      | some ctx => exact hp
      | none => exact takeSecondary_source h
  · unfold Standby.onSecondary
    simp only
    have hown : ∀ r, some s.result = some r → r = s.result := fun r hr => (Option.some.inj hr).symm
    split
    · trivial
    · split
      · exact takeSecondary_source hown
      · exact next_source hown
  · exact takeSecondary_source h
  · trivial
  · trivial
  · trivial

theorem startedStep_source (st : Started C) (start again : Nat) {e : LoopEnd C}
    (h : startedStep p s st start again = .inr e) : FromBranch p s e := by
  unfold startedStep at h
  split at h
  · split at h
    · cases h
      trivial
    · cases hp : p.result with
      | some ctx =>
        rw [hp] at h
        cases h
        exact hp
      | none =>
        rw [hp] at h
        simp only at h
        split at h
        · cases h
          trivial
        · cases h
  · split at h
    · cases h
      trivial
    · cases hs : s.result with
      | some ctx =>
        rw [hs] at h
        cases h
        exact hs
      | none =>
        rw [hs] at h
        simp only at h
        split at h
        · cases h
          trivial
        · cases h
  · cases h
    trivial
  · cases h
    trivial
  · cases h
    trivial

theorem standbyFallback_source (starts : Nat → Nat × Nat) :
    FromBranch p s (standbyFallback p s threshold starts) := by
  refine @loop_avoids _ _ _ _ (OwnCached s) (FromBranch p s)
    (show FromBranch p s .outOfFuel from trivial) (fun n st st' hst hinl => ?_)
    (fun n st e hst hinr => ?_) _ _ (fun r hr => (by cases hr))
  · have := @standbyStep_source _ p s threshold st hst (starts n).1 (starts n).2
    rw [hinl] at this
    exact this
  · have := @standbyStep_source _ p s threshold st hst (starts n).1 (starts n).2
    rw [hinr] at this
    exact this

theorem startedLoop_source (starts : Nat → Nat × Nat) (n : Nat) (st : Started C) :
    FromBranch p s (startedLoop p s starts n st) :=
  @loop_avoids _ _ _ _ (fun _ => True) (FromBranch p s)
    (show FromBranch p s .outOfFuel from trivial) (fun _ _ _ _ _ => trivial)
    (fun _ st _ _ hinr => startedStep_source st _ _ hinr) _ _ trivial

theorem thresholdFallback_source (starts : Nat → Nat × Nat) :
    FromBranch p s (thresholdFallback p s threshold starts) := by
  unfold thresholdFallback
  split
  · split
    · trivial
    · cases hp : p.result with
      | some ctx => exact hp
      | none =>
        simp only
        split
        · trivial
        · cases hs : s.result with
          | some ctx => exact hs
          | none => trivial
  · rename_i t _ _
    have := @startedLoop_source _ p { s with readyAt := t + s.readyAt }
      (fun n => starts (n + 1)) 3 ⟨t, false, false⟩
    generalize startedLoop p { s with readyAt := t + s.readyAt } (fun n => starts (n + 1)) 3
      ⟨t, false, false⟩ = e at *
    exact this
  · trivial
  · trivial
  · trivial

/-- A branch arrives with a context only if it returned it with `Ok`. -/
theorem runBranch_returned {hasResponse : C → Bool} {call : Call C} {ctx : C}
    (h : (runBranch hasResponse call).result = some ctx) :
    call.handled = .returned ctx (.ok ()) := by
  unfold runBranch at h
  split at h
  · split at h
    · rename_i ctx' hcall
      simp only at h
      split at h
      · cases h
        exact hcall
      · cases h
    · cases h
    · cases h
  · cases h

/-- A fallback that succeeds does so with the context of the branch it names. -/
theorem fallbackLoop_branch (hasResponse : C → Bool) (threshold : Nat) (alwaysStandby : Bool)
    (primary secondary : Call C) (starts : Nat → Nat × Nat) :
    FromBranch (runBranch hasResponse primary) (runBranch hasResponse secondary)
      (fallbackLoop hasResponse threshold alwaysStandby primary secondary starts) := by
  unfold fallbackLoop
  simp only
  split
  · exact standbyFallback_source starts
  · exact thresholdFallback_source starts

/-- **A fallback returns the context one of its branches returned.** -/
theorem fallbackLoop_source {hasResponse : C → Bool} {alwaysStandby : Bool}
    {primary secondary : Call C} {starts : Nat → Nat × Nat} {side : Side} {ctx : C} {t : Nat}
    (h : fallbackLoop hasResponse threshold alwaysStandby primary secondary starts =
      .ok side ctx t) :
    primary.handled = .returned ctx (.ok ()) ∨ secondary.handled = .returned ctx (.ok ()) := by
  have hsource := fallbackLoop_branch hasResponse threshold alwaysStandby primary secondary starts
  rw [h] at hsource
  cases side with
  | primary => exact Or.inl (runBranch_returned hsource)
  | secondary => exact Or.inr (runBranch_returned hsource)

end

/-- What a fallback leaves: its context as it was, or with what a branch returned applied. -/
theorem handleFallback_returned {threshold : Nat} {alwaysStandby : Bool}
    {primary secondary : Call Context} {starts : Nat → Nat × Nat} {ctx ctx' : Context}
    {res : Except String Unit}
    (h : (handleFallback threshold alwaysStandby primary secondary starts ctx).handled =
      .returned ctx' res) :
    ctx' = ctx ∨ ∃ success, ctx' = applyCtx success ctx ∧
      (primary.handled = .returned success (.ok ()) ∨
        secondary.handled = .returned success (.ok ())) := by
  unfold handleFallback at h
  split at h
  · rename_i side success t hloop
    cases h
    exact Or.inr ⟨success, rfl, fallbackLoop_source hloop⟩
  · cases h
    exact Or.inl rfl
  · cases h
  · cases h
  · cases h

/-! ## The invariant rule -/

section
variable {codec : Codec} {w : World} {ok : AnyPlugin → List Nat → Context → Prop}
  {Inv : Context → Prop}

mutual

/-- What every call meets, the calls of a run meet. -/
theorem every_of_forall (hall : ∀ plugin path ctx, ok plugin path ctx) (plugin : AnyPlugin)
    (path : List Nat) (ctx : Context) : Every codec w ok plugin path ctx := by
  match plugin with
  | .sequence registry steps =>
    rw [Every]
    exact everySteps_of_forall hall registry steps path 0 ctx
  | .fallback primary secondary threshold alwaysStandby =>
    rw [Every]
    exact ⟨every_of_forall hall primary _ ctx, every_of_forall hall secondary _ ctx⟩
  | .cache _ | .forward _ | .smartForward .. | .reject _ | .log | .hosts _ | .geoSite _ | .geoIp _
  | .matcher _ | .ecs _ | .fakeIp | .dns64 _ | .dnssec | .adBlock _ | .ipv6Filter _ | .dga _
  | .ipMatcher _ | .smartResolve | .aliApi | .rateLimit | .ttl _ =>
    rw [Every]
    exact hall _ path ctx

theorem everySteps_of_forall (hall : ∀ plugin path ctx, ok plugin path ctx)
    (registry : String → Option MatcherPlugin) (steps : List Step) (path : List Nat) (i : Nat)
    (ctx : Context) : EverySteps codec w ok registry steps path i ctx := by
  match steps with
  | [] =>
    rw [EverySteps]
    trivial
  | .mk conditions plugin :: rest =>
    rw [EverySteps]
    split
    · exact ⟨every_of_forall hall plugin _ ctx, fun ctx' _ _ =>
        everySteps_of_forall hall registry rest path (i + 1) ctx'⟩
    · exact everySteps_of_forall hall registry rest path (i + 1) ctx

end

mutual

/-- **The invariant rule of the pipeline.** -/
theorem handle_invariant
    (hcall : ∀ plugin path ctx ctx' res, plugin.composite = false → ok plugin path ctx → Inv ctx →
      (handle codec w plugin path ctx).handled = .returned ctx' res → Inv ctx')
    (happly : ∀ success ctx, Inv success → Inv ctx → Inv (applyCtx success ctx))
    (plugin : AnyPlugin) (path : List Nat) (ctx ctx' : Context) (res : Except String Unit)
    (hok : Every codec w ok plugin path ctx) (hctx : Inv ctx)
    (h : (handle codec w plugin path ctx).handled = .returned ctx' res) : Inv ctx' := by
  match plugin with
  | .sequence registry steps =>
    rw [handle] at h
    rw [Every] at hok
    exact handleSteps_invariant hcall happly registry steps path 0 ctx ctx' res hok hctx h
  | .fallback primary secondary threshold alwaysStandby =>
    rw [handle] at h
    rw [Every] at hok
    rcases handleFallback_returned h with rfl | ⟨success, rfl, hp | hs⟩
    · exact hctx
    · exact happly success ctx
        (handle_invariant hcall happly primary _ ctx success _ hok.1 hctx hp) hctx
    · exact happly success ctx
        (handle_invariant hcall happly secondary _ ctx success _ hok.2 hctx hs) hctx
  | .cache _ | .forward _ | .smartForward .. | .reject _ | .log | .hosts _ | .geoSite _ | .geoIp _
  | .matcher _ | .ecs _ | .fakeIp | .dns64 _ | .dnssec | .adBlock _ | .ipv6Filter _ | .dga _
  | .ipMatcher _ | .smartResolve | .aliApi | .rateLimit | .ttl _ =>
    rw [Every] at hok
    exact hcall _ path ctx ctx' res rfl hok hctx h

theorem handleSteps_invariant
    (hcall : ∀ plugin path ctx ctx' res, plugin.composite = false → ok plugin path ctx → Inv ctx →
      (handle codec w plugin path ctx).handled = .returned ctx' res → Inv ctx')
    (happly : ∀ success ctx, Inv success → Inv ctx → Inv (applyCtx success ctx))
    (registry : String → Option MatcherPlugin) (steps : List Step) (path : List Nat) (i : Nat)
    (ctx ctx' : Context) (res : Except String Unit)
    (hok : EverySteps codec w ok registry steps path i ctx) (hctx : Inv ctx)
    (h : (handleSteps codec w registry steps path i ctx).handled = .returned ctx' res) :
    Inv ctx' := by
  match steps with
  | [] =>
    rw [handleSteps] at h
    cases h
    exact hctx
  | .mk conditions plugin :: rest =>
    rw [EverySteps] at hok
    rcases handleSteps_cases codec w registry conditions plugin path i ctx with
      hskip | ⟨hmatch, hstop | ⟨ctx₁, hcall₁, hgo⟩⟩
    · rw [handleSteps_skip rest hskip] at h
      rw [if_neg (by rw [hskip]; decide)] at hok
      exact handleSteps_invariant hcall happly registry rest path (i + 1) ctx ctx' res hok hctx h
    · rw [handleSteps_stop rest hmatch hstop] at h
      rw [if_pos hmatch] at hok
      exact handle_invariant hcall happly plugin (i :: path) ctx ctx' res hok.1 hctx h
    · rw [handleSteps_go rest hmatch hcall₁ hgo] at h
      rw [if_pos hmatch] at hok
      have hctx₁ := handle_invariant hcall happly plugin (i :: path) ctx ctx₁ _ hok.1 hctx hcall₁
      exact handleSteps_invariant hcall happly registry rest path (i + 1) ctx₁ ctx' res
        (hok.2 ctx₁ hcall₁ hgo) hctx₁ h

end

end

end TitanDns
