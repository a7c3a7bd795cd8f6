import TitanDns.Plugins.Blocking
import TitanDns.Server.Dropped

/-!
# The TTL step at egress

A sequence with a `TtlPlugin` step behind its responders, as the entry of the server.

* `Allows` — the TTLs that the plugin lets through; `newTtl_allowed` — **what it writes is one of
  them.**
* `leavesAlone` — the plugins that neither answer nor rewrite a response; `handleSteps_alone` —
  **steps of such plugins are passed, and leave the response.**
* `Clamped` — every answer in the bytes that are sent has a TTL that the step allows.
* `ttl_clamped_iff` — **exactly the runs are clamped that come to the step without `abort` and meet
  its conditions, or that need no clamp**; every plugin that answers sets `abort`:
  `upstream_ttl_sent`.
-/

namespace TitanDns

/-! ## The plugin -/

namespace TtlPlugin

/-- The TTL is the fixed one, or within the bounds. -/
def Allows (t : TtlPlugin) (ttl : UInt32) : Prop :=
  match t.fixed with
  | some fixed => ttl = fixed
  | none => (∀ lo, t.min = some lo → lo ≤ ttl) ∧ ∀ hi, t.max = some hi → ttl ≤ hi

/-- Without a fixed TTL the bounds are not crossed. -/
def Sensible (t : TtlPlugin) : Prop :=
  t.fixed = none → ∀ lo hi, t.min = some lo → t.max = some hi → lo ≤ hi

/-- **What the plugin writes, it allows.** -/
theorem newTtl_allowed {t : TtlPlugin} (h : t.Sensible) (ttl : UInt32) :
    t.Allows (t.newTtl ttl) := by
  unfold Allows newTtl
  cases hfixed : t.fixed with
  | some fixed => rfl
  | none =>
    have hbounds := h hfixed
    cases hmin : t.min with
    | none =>
      cases hmax : t.max with
      | none => exact ⟨by simp, by simp⟩
      | some hi =>
        refine ⟨by simp, ?_⟩
        simp only [Option.some.injEq, forall_eq']
        split
        · exact UInt32.le_refl _
        · rename_i hle
          exact UInt32.not_lt.mp hle
    | some lo =>
      cases hmax : t.max with
      | none =>
        refine ⟨?_, by simp⟩
        simp only [Option.some.injEq, forall_eq']
        split
        · exact UInt32.le_refl _
        · rename_i hle
          exact UInt32.not_lt.mp hle
      | some hi =>
        have hlo : lo ≤ hi := hbounds lo hi hmin hmax
        simp only [Option.some.injEq, forall_eq']
        split
        · split
          · exact ⟨hlo, UInt32.le_refl _⟩
          · rename_i hle
            exact ⟨UInt32.le_refl _, UInt32.not_lt.mp hle⟩
        · rename_i hge
          split
          · exact ⟨hlo, UInt32.le_refl _⟩
          · rename_i hle
            exact ⟨UInt32.not_lt.mp hge, UInt32.not_lt.mp hle⟩

/-- Every answer of the response has been through the plugin. -/
theorem handle_answers (t : TtlPlugin) {ctx : Context} {m : Message}
    (h : (t.handle ctx).response = some m) :
    ∀ r ∈ m.answers, ∃ ttl, r.ttl = t.newTtl ttl := by
  obtain ⟨resp, -, rfl⟩ := Option.map_eq_some_iff.mp h
  intro r hr
  obtain ⟨r', -, rfl⟩ := List.mem_map.mp hr
  exact ⟨r'.ttl, rfl⟩

end TtlPlugin

/-! ## Steps behind the responders -/

mutual

/-- The plugin, and all it contains, neither answers nor rewrites a response. -/
def AnyPlugin.leavesAlone : AnyPlugin → Bool
  | .sequence _ steps => stepsLeaveAlone steps
  | .log => true
  | .geoSite _ => true
  | .geoIp _ => true
  | .matcher _ => true
  | .ecs _ => true
  | .fakeIp => true
  | .dnssec => true
  | .ipMatcher _ => true
  | _ => false

def stepsLeaveAlone : List Step → Bool
  | [] => true
  | .mk _ plugin :: rest => plugin.leavesAlone && stepsLeaveAlone rest

end

section
variable {codec : Codec} {w : World}

/-- A call that returns `Ok` and leaves the response and the stop flag. -/
def Passes (ctx : Context) (call : Call Context) : Prop :=
  ∃ d ctx', call = .ok d ctx' ∧ ctx.Kept ctx'

theorem Context.Kept.trans {a b c : Context} (h : a.Kept b) (h' : b.Kept c) : a.Kept c :=
  ⟨h'.response.trans h.response, h'.rawResponse.trans h.rawResponse, h'.abort.trans h.abort⟩

mutual

theorem handle_alone (plugin : AnyPlugin) (path : List Nat) (ctx : Context)
    (h : plugin.leavesAlone = true) : Passes ctx (handle codec w plugin path ctx) := by
  match plugin with
  | .sequence registry steps =>
    rw [handle]
    rw [AnyPlugin.leavesAlone] at h
    exact handleSteps_alone registry steps path 0 ctx h
  | .log => exact ⟨_, _, by rw [handle], Context.Kept.refl ctx⟩
  | .geoSite g => exact ⟨_, g.handle codec ctx, by rw [handle], markName_kept codec _ _ ctx⟩
  | .geoIp g => exact ⟨_, _, by rw [handle], geoIp_kept g ctx⟩
  | .matcher m => exact ⟨_, m.handle codec ctx, by rw [handle], markName_kept codec _ _ ctx⟩
  | .ecs e => exact ⟨_, _, by rw [handle], ecs_kept e ctx⟩
  | .fakeIp => exact ⟨_, _, by rw [handle], Context.Kept.refl ctx⟩
  | .dnssec => exact ⟨_, _, by rw [handle], Context.Kept.refl ctx⟩
  | .ipMatcher m => exact ⟨_, _, by rw [handle], ipMatcher_kept m ctx⟩
  | .cache _ | .forward _ | .smartForward .. | .reject _ | .hosts _ | .fallback .. | .dns64 _
  | .adBlock _ | .ipv6Filter _ | .dga _ | .smartResolve | .aliApi | .rateLimit | .ttl _ =>
    simp [AnyPlugin.leavesAlone] at h

/-- **Steps that leave the response alone are passed.** -/
theorem handleSteps_alone (registry : String → Option MatcherPlugin) (steps : List Step)
    (path : List Nat) (i : Nat) (ctx : Context) (h : stepsLeaveAlone steps = true) :
    Passes ctx (handleSteps codec w registry steps path i ctx) := by
  match steps with
  | [] =>
    rw [handleSteps]
    exact ⟨0, ctx, rfl, Context.Kept.refl ctx⟩
  | .mk conditions plugin :: rest =>
    rw [stepsLeaveAlone, Bool.and_eq_true_iff] at h
    have hone := handle_alone plugin (i :: path) ctx h.1
    obtain ⟨d, ctx₁, hcall, hkept⟩ := hone
    rcases handleSteps_cases codec w registry conditions plugin path i ctx with
      hskip | ⟨hmatch, hstop | ⟨ctx₂, hcall₂, hgo⟩⟩
    · rw [handleSteps_skip rest hskip]
      exact handleSteps_alone registry rest path (i + 1) ctx h.2
    · rw [handleSteps_stop rest hmatch hstop]
      exact ⟨d, ctx₁, hcall, hkept⟩
    · rw [hcall] at hcall₂
      cases hcall₂
      obtain ⟨d', ctx', hrest, hkept'⟩ := handleSteps_alone registry rest path (i + 1) ctx₁ h.2
      rw [handleSteps_go rest hmatch (by rw [hcall]; rfl) hgo, hrest]
      exact ⟨_, ctx', rfl, hkept.trans hkept'⟩

end

end

/-! ## What is sent -/

section
variable (codec : Codec) (t : TtlPlugin)

/-- Every answer in the bytes has a TTL that the plugin allows. -/
def BytesWithin (bytes : List UInt8) : Prop :=
  ∀ m, codec.fromVec bytes = some m → ∀ r ∈ m.answers, t.Allows r.ttl

/-- What is sent, if anything, is within the bounds. -/
def Clamped (sent : Option Processed) : Prop :=
  ∀ p bytes, sent = some p → p.bytes = some bytes → BytesWithin codec t bytes

/-- So is the response of the context. -/
def ResponseWithin (ctx : Context) : Prop :=
  ∀ bytes, ctx.responseBytes codec = some bytes → BytesWithin codec t bytes

end

section
variable {codec : Codec} {w : World} {caches : CacheRegistry} {env : Nat → HookEnv}
  {registry : String → Option MatcherPlugin} {t : TtlPlugin}

theorem Context.Kept.responseBytes {a b : Context} (h : a.Kept b) :
    b.responseBytes codec = a.responseBytes codec := by
  unfold Context.responseBytes
  rw [h.response, h.rawResponse]

/-- What the sequence ends with is what is sent. -/
theorem clamped_of_returned {entry : AnyPlugin} {data : List UInt8} {clientIp : IpAddr}
    {ctx ctx' : Context} (h : Ends codec w entry data clientIp ctx ctx') :
    Clamped codec t (processRequestBytes codec w caches env (some entry) data clientIp) ↔
      ResponseWithin codec t ctx' := by
  rw [h.processed]
  constructor
  · intro hsent bytes hbytes
    exact hsent _ bytes rfl (by rw [respond_bytes (hooksOf_caches caches ctx'), hbytes])
  · intro hresponse p bytes hp hbytes
    cases hp
    rw [respond_bytes (hooksOf_caches caches ctx')] at hbytes
    exact hresponse bytes hbytes

/-- **The plugin clamps a response that is held as a message.** -/
theorem TtlPlugin.handle_within (hcodec : codec.KeepsTtls) (ht : t.Sensible) {ctx : Context}
    (hraw : ctx.rawResponse = none) : ResponseWithin codec t (t.handle ctx) := by
  intro bytes hbytes m hm r hr
  unfold Context.responseBytes at hbytes
  have hraw' : (t.handle ctx).rawResponse = none := hraw
  rw [hraw'] at hbytes
  simp only at hbytes
  split at hbytes
  · rename_i resp hresp
    obtain ⟨r', hr', httl⟩ := hcodec resp bytes bytes m hbytes rfl hm r hr
    obtain ⟨ttl, hnew⟩ := t.handle_answers hresp r' hr'
    rw [httl, hnew]
    exact TtlPlugin.newTtl_allowed ht ttl
  · cases hbytes

/-- Nothing before the step has set `abort`, and its conditions hold. -/
def StepRuns (codec : Codec) (registry : String → Option MatcherPlugin)
    (conditions : List MatchCondition) (ctx : Context) : Prop :=
  ctx.abort = false ∧ checkMatch codec registry ctx conditions = true

/-- **What the step makes of the run before it**, which has returned `Ok`. -/
theorem sequence_within (hcodec : codec.KeepsTtls) (ht : t.Sensible) {before after : List Step}
    {conditions : List MatchCondition} (hafter : stepsLeaveAlone after = true) {ctx ctx₁ : Context}
    (hgo : ctx.abort = false) (hsettled : Settled ctx₁)
    (hbefore : (handleSteps codec w registry before [] 0 ctx).handled = .returned ctx₁ (.ok ())) :
    ∃ ctx', (handle codec w (.sequence registry (before ++ .mk conditions (.ttl t) :: after)) []
        ctx).handled = .returned ctx' (.ok ()) ∧
      (ResponseWithin codec t ctx' ↔
        StepRuns codec registry conditions ctx₁ ∨ ResponseWithin codec t ctx₁) := by
  have hsame : ∀ a b : Context, a.Kept b →
      (ResponseWithin codec t b ↔ ResponseWithin codec t a) := by
    intro a b hkept
    unfold ResponseWithin
    rw [hkept.responseBytes]
  rw [handle]
  cases habort : ctx₁.abort with
  | true =>
    -- a step before has answered
    refine ⟨ctx₁, ?_, ?_⟩
    · rw [handleSteps_append_stop _ hgo, hbefore]
      intro ctx' h
      rw [hbefore] at h
      cases h
      exact habort
    · constructor
      · exact Or.inr
      · rintro (⟨h, -⟩ | h)
        · rw [habort] at h
          cases h
        · exact h
  | false =>
    have hraw : ctx₁.rawResponse = none := by
      cases hr : ctx₁.rawResponse with
      | none => rfl
      | some raw =>
        have := hsettled (by rw [hr]; rfl)
        rw [habort] at this
        cases this
    have hcall : handleSteps codec w registry before [] 0 ctx =
        .ok (handleSteps codec w registry before [] 0 ctx).duration ctx₁ := by
      rw [Call.ok, ← hbefore]
    rw [handleSteps_append _ hcall habort]
    cases hmatch : checkMatch codec registry ctx₁ conditions with
    | true =>
      obtain ⟨d, ctx', hrest, hkept⟩ := @handleSteps_alone codec w registry after []
        (0 + before.length + 1) (t.handle ctx₁) hafter
      have hstep : (handle codec w (.ttl t) [0 + before.length] ctx₁).handled =
          .returned (t.handle ctx₁) (.ok ()) := by
        rw [handle]
        rfl
      rw [handleSteps_go after hmatch hstep habort, hrest]
      refine ⟨ctx', rfl, ?_⟩
      rw [hsame _ _ hkept]
      exact ⟨fun _ => Or.inl ⟨habort, hmatch⟩, fun _ => t.handle_within hcodec ht hraw⟩
    | false =>
      obtain ⟨d, ctx', hrest, hkept⟩ := @handleSteps_alone codec w registry after []
        (0 + before.length + 1) ctx₁ hafter
      rw [handleSteps_skip after hmatch, hrest]
      refine ⟨ctx', rfl, ?_⟩
      rw [hsame _ _ hkept]
      constructor
      · exact Or.inr
      · rintro (⟨-, h⟩ | h)
        · rw [hmatch] at h
          cases h
        · exact h

end

/-- **The clamp at egress**: what is sent is within the bounds exactly when the run comes to the
step without `abort` and meets its conditions, or was within them before. -/
theorem ttl_clamped_iff (codec : Codec) (w : World) (caches : CacheRegistry) (env : Nat → HookEnv)
    (registry : String → Option MatcherPlugin) (t : TtlPlugin) (before after : List Step)
    (conditions : List MatchCondition) (data : List UInt8) (clientIp : IpAddr)
    (hcodec : codec.KeepsTtls) (ht : t.Sensible) (hafter : stepsLeaveAlone after = true) :
    Clamped codec t (processRequestBytes codec w caches env
        (some (.sequence registry (before ++ .mk conditions (.ttl t) :: after))) data clientIp) ↔
      ∀ ctx ctx₁, Context.fromBytes codec data clientIp = some ctx →
        (handleSteps codec w registry before [] 0 ctx).handled = .returned ctx₁ (.ok ()) →
        StepRuns codec registry conditions ctx₁ ∨ ResponseWithin codec t ctx₁ := by
  cases hparsed : Context.fromBytes codec data clientIp with
  | none =>
    refine ⟨fun _ ctx _ h => (by cases h), fun _ p bytes hp hbytes => ?_⟩
    rw [processRequestBytes, hparsed] at hp
    cases hp
    cases hbytes
  | some ctx =>
    obtain ⟨request, zc, -, hctx⟩ := fromBytes_some hparsed
    have hgo : ctx.abort = false := by rw [hctx]; rfl
    have hfresh : Settled ctx := by
      intro h
      rw [hctx] at h
      cases h
    by_cases hreturned : ∃ ctx₁,
        (handleSteps codec w registry before [] 0 ctx).handled = .returned ctx₁ (.ok ())
    · obtain ⟨ctx₁, hbefore⟩ := hreturned
      have hsequence : (handle codec w (.sequence registry before) [] ctx).handled =
          .returned ctx₁ (.ok ()) := by
        rw [handle]
        exact hbefore
      obtain ⟨ctx', hends, hwithin⟩ := sequence_within hcodec ht hafter hgo
        (handle_settled hfresh hsequence) hbefore
      rw [clamped_of_returned ⟨hparsed, hends⟩, hwithin]
      constructor
      · intro h ctx₂ ctx₃ h₂ h₃
        cases h₂
        rw [hbefore] at h₃
        cases h₃
        exact h
      · exact fun h => h ctx ctx₁ rfl hbefore
    · -- the run is over before the step, and nothing is sent
      have hnone : ∀ ctx₁, (handleSteps codec w registry before [] 0 ctx).handled ≠
          .returned ctx₁ (.ok ()) := fun ctx₁ h => hreturned ⟨ctx₁, h⟩
      refine ⟨fun _ ctx₂ ctx₁ h₂ h₁ => ?_, fun _ p bytes hp hbytes => ?_⟩
      · cases h₂
        exact absurd h₁ (hnone ctx₁)
      · obtain ⟨ctx', -, hends⟩ := ends_of_bytes hparsed hp (by rw [hbytes]; rfl)
        rw [handle, handleSteps_append_stop _ hgo fun ctx₁ h => absurd h (hnone ctx₁)] at hends
        exact absurd hends (hnone ctx')

/-! ## An upstream's TTL -/

/-- A forward with the step behind it. -/
def clampedForward (max : UInt32) : AnyPlugin :=
  .sequence (fun _ => none)
    ([.mk [] (.forward singleForward)] ++ [.mk [] (.ttl ⟨none, none, some max⟩)])

theorem forward_call : (handleSteps (chainCodec ⟨192, 0, 2, 1⟩) (chainWorld ⟨192, 0, 2, 1⟩)
    (fun _ => none) [.mk [] (.forward singleForward)] [] 0 startContext).handled =
      .returned (startContext.setResponse (answerWith ⟨192, 0, 2, 1⟩) true) (.ok ()) := rfl

/-- An upstream's TTL of 300 under a bound of 600 needs no clamp. -/
theorem ttl_clamped_iff_within :
    Clamped (chainCodec ⟨192, 0, 2, 1⟩) ⟨none, none, some 600⟩
      (processRequestBytes (chainCodec ⟨192, 0, 2, 1⟩) (chainWorld ⟨192, 0, 2, 1⟩) exampleCaches
        quietHooks (some (clampedForward 600)) chainData (.v4 ⟨10, 0, 0, 2⟩)) := by
  refine (ttl_clamped_iff _ _ _ _ _ ⟨none, none, some 600⟩ _ _ _ _ _ ?_ ?_ rfl).mpr ?_
  · apply Codec.ofTable_keepsTtls
    decide
  · intro _ lo hi hlo
    cases hlo
  · intro ctx ctx₁ hparsed hbefore
    rw [(chain_ends ⟨192, 0, 2, 1⟩).parsed] at hparsed
    cases hparsed
    rw [forward_call] at hbefore
    cases hbefore
    right
    intro bytes hbytes m hm r hr
    cases hbytes
    cases hm
    cases List.mem_singleton.mp hr
    refine ⟨fun lo hlo => (by cases hlo), fun hi hhi => ?_⟩
    cases hhi
    decide

/-- Under a bound of 60 it is sent as it is: the forward ends the sequence. -/
theorem upstream_ttl_sent :
    ¬ Clamped (chainCodec ⟨192, 0, 2, 1⟩) ⟨none, none, some 60⟩
      (processRequestBytes (chainCodec ⟨192, 0, 2, 1⟩) (chainWorld ⟨192, 0, 2, 1⟩) exampleCaches
        quietHooks (some (clampedForward 60)) chainData (.v4 ⟨10, 0, 0, 2⟩)) := by
  intro h
  have hwithin := h _ _ rfl rfl (answerWith ⟨192, 0, 2, 1⟩) rfl _ List.mem_cons_self
  exact absurd (hwithin.2 60 rfl) (by decide)

end TitanDns
