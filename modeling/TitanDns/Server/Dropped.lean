import TitanDns.Plugins.Answering
import TitanDns.Server.Process

/-!
# Queries that are dropped

A sequence whose last step has no conditions and forwards the query.  A forward turns every failure
into a SERVFAIL, a fallback does not: its error is the error of the sequence, and the server answers
an error with silence.

* `AnyPlugin.forwards` — the plugins that decide: a forward, a smart forward, a fallback.
* `World.polled` — the same answers of the world under other random starts of `select!`.
* `Settles` — the earlier steps return `Ok`, and a fallback that is come to gets a response from its
  branches.
* `fallback_forwards_iff` — when the branches are forwards.
* `answered_iff` — **a query is answered, for every order of polling, exactly when the run
  settles.**
* `outage_dropped` — both forwards of a fallback exceed its timeout.
-/

namespace TitanDns

/-- The plugins that decide. -/
def AnyPlugin.forwards : AnyPlugin → Bool
  | .forward _ => true
  | .smartForward _ _ => true
  | .fallback _ _ _ _ => true
  | _ => false

/-- The same world, polled otherwise. -/
def World.polled (w : World) (starts : List Nat → Nat → Nat × Nat) : World :=
  fun path => { w path with starts := starts path }

/-- A response that is a message has an encoding. -/
def Sendable (codec : Codec) (ctx : Context) : Prop :=
  ∀ m, ctx.rawResponse = none → ctx.response = some m → (codec.toVec m).isSome = true

/-- A query with one question, in a packet of at most 4096 bytes. -/
structure WellFormed (codec : Codec) (data : List UInt8) (clientIp : IpAddr) (ctx : Context) :
    Prop where
  parsed : Context.fromBytes codec data clientIp = some ctx
  question : ctx.request.queries.length = 1
  size : data.length ≤ 4096

section
variable (codec : Codec) (w : World)

/-- A fallback gets a response from its branches; the others need none. -/
def Responds (plugin : AnyPlugin) (path : List Nat) (ctx : Context) : Prop :=
  match plugin with
  | .fallback primary secondary threshold alwaysStandby =>
    Answering alwaysStandby
      (runBranch Context.hasResponse (handle codec w primary (0 :: path) ctx))
      (runBranch Context.hasResponse (handle codec w secondary (1 :: path) ctx)) threshold
  | _ => True

/-- The earlier steps return `Ok`; then the response they stop with can be encoded, or the last
step responds, with something that can. -/
def Settles (registry : String → Option MatcherPlugin) (before : List Step) (last : AnyPlugin)
    (ctx : Context) : Prop :=
  ∃ ctx₁, (handleSteps codec w registry before [] 0 ctx).handled = .returned ctx₁ (.ok ()) ∧
    if ctx₁.abort then Sendable codec ctx₁
    else Responds codec w last [before.length] ctx₁ ∧
      ∀ ctx₂, (handle codec w last [before.length] ctx₁).handled = .returned ctx₂ (.ok ()) →
        Sendable codec ctx₂

/-- The bytes of a response are returned. -/
def Sent (caches : CacheRegistry) (env : Nat → HookEnv) (entry : AnyPlugin) (data : List UInt8)
    (clientIp : IpAddr) : Prop :=
  ∃ p bytes, processRequestBytes codec w caches env (some entry) data clientIp = some p ∧
    p.bytes = some bytes

end

/-! ## What the server makes of a context -/

section
variable {codec : Codec} {w : World} {caches : CacheRegistry} {env : Nat → HookEnv}
  {entry : AnyPlugin} {data : List UInt8} {clientIp : IpAddr} {ctx ctx' : Context}

theorem responseBytes_isSome_iff :
    (ctx.responseBytes codec).isSome = true ↔ ctx.hasResponse = true ∧ Sendable codec ctx := by
  unfold Context.responseBytes Context.hasResponse Sendable
  cases hraw : ctx.rawResponse with
  | some raw => simp
  | none =>
    cases hresp : ctx.response with
    | some m => simp
    | none => simp

/-- The hooks of a run do not change what is sent. -/
theorem respond_bytes {hooks : List AnyPlugin} (hcaches : ∀ hook ∈ hooks, ∃ c, hook = .cache c) :
    (respond codec env hooks ctx).bytes = ctx.responseBytes codec := by
  unfold respond
  split
  · simp only [runHooks_caches hcaches]
  · rfl

/-- **Bytes are sent exactly for a chain that returns `Ok` with a response that can be encoded.** -/
theorem sent_iff (hparsed : Context.fromBytes codec data clientIp = some ctx) :
    Sent codec w caches env entry data clientIp ↔
      ∃ ctx', (handle codec w entry [] ctx).handled = .returned ctx' (.ok ()) ∧
        ctx'.hasResponse = true ∧ Sendable codec ctx' := by
  constructor
  · rintro ⟨p, bytes, hp, hbytes⟩
    obtain ⟨ctx', hend⟩ := ends_of_bytes hparsed hp (by rw [hbytes]; rfl)
    rw [hend.processed] at hp
    cases hp
    rw [respond_bytes (hooksOf_caches caches ctx')] at hbytes
    exact ⟨ctx', hend.returned, responseBytes_isSome_iff.mp (by rw [hbytes]; rfl)⟩
  · rintro ⟨ctx', hcall, hresp⟩
    obtain ⟨bytes, hbytes⟩ := Option.isSome_iff_exists.mp
      ((@responseBytes_isSome_iff codec ctx').mpr hresp)
    have hend : Ends codec w entry data clientIp ctx ctx' := ⟨hparsed, hcall⟩
    exact ⟨_, bytes, hend.processed, (respond_bytes (hooksOf_caches caches ctx')).trans hbytes⟩

end

/-! ## The last step -/

section
variable {codec : Codec} {w : World} {path : List Nat} {ctx ctx' : Context}

/-- A branch that succeeds has a response. -/
theorem runBranch_hasResponse {hasResponse : Context → Bool} {call : Call Context}
    (h : (runBranch hasResponse call).result = some ctx) : hasResponse ctx = true := by
  unfold runBranch at h
  split at h
  · split at h
    · simp only at h
      split at h
      · rename_i hhas
        cases h
        exact hhas
      · cases h
    · cases h
    · cases h
  · cases h

theorem forward_responds (f : ForwardPlugin) (env : ForwardEnv)
    (hquery : ctx.request.query.isSome = true) :
    ∃ msg, f.handle codec env ctx = (ctx.setResponse msg true, .ok ()) := by
  obtain ⟨q, hq⟩ := Option.isSome_iff_exists.mp hquery
  unfold ForwardPlugin.handle
  split
  · exact ⟨_, rfl⟩
  · rw [hq]
    simp only
    split
    · exact ⟨_, rfl⟩
    · exact ⟨_, rfl⟩

theorem smartForward_responds (outcome : SmartForwarded) (hquery : ctx.request.query.isSome = true)
    (hraw : ctx.rawRequest.isSome = true) :
    ∃ msg, SmartForwardPlugin.handle codec outcome ctx = (ctx.setResponse msg true, .ok ()) := by
  obtain ⟨q, hq⟩ := Option.isSome_iff_exists.mp hquery
  obtain ⟨raw, hr⟩ := Option.isSome_iff_exists.mp hraw
  unfold SmartForwardPlugin.handle
  rw [hq, hr]
  exact ⟨_, rfl⟩

/-- A forward as a branch of a fallback: it succeeds within the timeout and never panics. -/
theorem forward_branch (f : ForwardPlugin) (hquery : ctx.request.query.isSome = true) :
    (runBranch Context.hasResponse (handle codec w (.forward f) path ctx)).panics = false ∧
      (runBranch Context.hasResponse (handle codec w (.forward f) path ctx)).readyAt =
        min (w path).duration DEFAULT_PARALLEL_TIMEOUT ∧
      ((runBranch Context.hasResponse (handle codec w (.forward f) path ctx)).result.isSome = true ↔
        (w path).duration ≤ DEFAULT_PARALLEL_TIMEOUT) := by
  obtain ⟨msg, hmsg⟩ := @forward_responds codec ctx f (w path).forward hquery
  rw [handle, Call.of, hmsg, runBranch]
  by_cases hin : (w path).duration ≤ DEFAULT_PARALLEL_TIMEOUT
  · simp only [if_pos hin, Context.setResponse_hasResponse, if_true]
    exact ⟨trivial, (Nat.min_eq_left hin).symm, fun _ => hin, fun _ => rfl⟩
  · simp only [if_neg hin]
    exact ⟨trivial, (Nat.min_eq_right (Nat.le_of_not_le hin)).symm, fun h => (by cases h),
      fun h => absurd h hin⟩

/-- **A fallback over two forwards** gets a response when one of them is done within five seconds,
with `always_standby` the primary only if it is not done at the very last moment. -/
theorem fallback_forwards_iff (f g : ForwardPlugin) (threshold : Nat) (alwaysStandby : Bool)
    (hquery : ctx.request.query.isSome = true) :
    Responds codec w (.fallback (.forward f) (.forward g) threshold alwaysStandby) path ctx ↔
      (w (1 :: path)).duration ≤ DEFAULT_PARALLEL_TIMEOUT ∨
        (w (0 :: path)).duration ≤ DEFAULT_PARALLEL_TIMEOUT ∧
          (alwaysStandby = true → (w (0 :: path)).duration < DEFAULT_PARALLEL_TIMEOUT ∨
            (w (0 :: path)).duration < threshold) := by
  obtain ⟨hpq, hpt, hps⟩ := @forward_branch codec w (0 :: path) ctx f hquery
  obtain ⟨hsq, hst, hss⟩ := @forward_branch codec w (1 :: path) ctx g hquery
  unfold Responds
  constructor
  · intro h
    have hsucceeds := h.succeeds
    cases alwaysStandby with
    | true =>
      simp only [if_true, StandbySafe, hps, hss, hpt, hst] at hsucceeds
      omega
    | false =>
      simp only [Bool.false_eq_true, if_false, hps, hss] at hsucceeds
      rcases hsucceeds with hp | hs
      · exact Or.inr ⟨hp, fun hstandby => (by cases hstandby)⟩
      · exact Or.inl hs
  · intro h
    refine ⟨?_, fun hpanics => ?_, fun hpanics => ?_⟩
    · cases alwaysStandby with
      | true =>
        simp only [if_true, StandbySafe, hps, hss, hpt, hst]
        simp only [forall_true_left] at h
        omega
      | false =>
        simp only [Bool.false_eq_true, if_false, hps, hss]
        rcases h with hs | ⟨hp, -⟩
        · exact Or.inr hs
        · exact Or.inl hp
    · rw [hpq] at hpanics
      cases hpanics
    · rw [hsq] at hpanics
      cases hpanics

/-- How a fallback ends. -/
theorem fallback_returns_iff {primary secondary : AnyPlugin} {threshold : Nat}
    {alwaysStandby : Bool} :
    (∃ ctx', (handle codec w (.fallback primary secondary threshold alwaysStandby) path
        ctx).handled = .returned ctx' (.ok ())) ↔
      Answered (fallbackLoop Context.hasResponse threshold alwaysStandby
        (handle codec w primary (0 :: path) ctx) (handle codec w secondary (1 :: path) ctx)
        (w path).starts) := by
  rw [handle, handleFallback]
  constructor
  · rintro ⟨ctx', h⟩
    split at h
    · rename_i side success t hend
      exact ⟨side, success, t, hend⟩
    · cases h
    · cases h
    · cases h
    · cases h
  · rintro ⟨side, success, t, hend⟩
    rw [hend]
    exact ⟨_, rfl⟩

/-- **A deciding step that returns `Ok` has a response.** -/
theorem forwards_hasResponse {last : AnyPlugin} (hlast : last.forwards = true)
    (hquery : ctx.request.query.isSome = true) (hraw : ctx.rawRequest.isSome = true)
    (h : (handle codec w last path ctx).handled = .returned ctx' (.ok ())) :
    ctx'.hasResponse = true := by
  cases last with
  | forward f =>
    obtain ⟨msg, hmsg⟩ := @forward_responds codec ctx f (w path).forward hquery
    rw [handle, Call.of, hmsg] at h
    cases h
    rfl
  | smartForward =>
    obtain ⟨msg, hmsg⟩ := @smartForward_responds codec ctx (w path).smartForward hquery hraw
    rw [handle, Call.of, hmsg] at h
    cases h
    rfl
  | fallback primary secondary threshold alwaysStandby =>
    rw [handle, handleFallback] at h
    have hbranch := fallbackLoop_branch Context.hasResponse threshold alwaysStandby
      (handle codec w primary (0 :: path) ctx) (handle codec w secondary (1 :: path) ctx)
      (w path).starts
    split at h
    · rename_i side success t hend
      cases h
      rw [hend] at hbranch
      show success.hasResponse = true
      cases side with
      | primary => exact runBranch_hasResponse hbranch
      | secondary => exact runBranch_hasResponse hbranch
    · cases h
    · cases h
    · cases h
    · cases h
  | _ => cases hlast

/-- **A deciding step that responds returns `Ok`**, however it is polled. -/
theorem forwards_returns {last : AnyPlugin} (hlast : last.forwards = true)
    (hquery : ctx.request.query.isSome = true) (hraw : ctx.rawRequest.isSome = true)
    (h : Responds codec w last path ctx) :
    ∃ ctx', (handle codec w last path ctx).handled = .returned ctx' (.ok ()) := by
  cases last with
  | forward f =>
    obtain ⟨msg, hmsg⟩ := @forward_responds codec ctx f (w path).forward hquery
    rw [handle, Call.of, hmsg]
    exact ⟨_, rfl⟩
  | smartForward =>
    obtain ⟨msg, hmsg⟩ := @smartForward_responds codec ctx (w path).smartForward hquery hraw
    rw [handle, Call.of, hmsg]
    exact ⟨_, rfl⟩
  | fallback primary secondary threshold alwaysStandby =>
    exact fallback_returns_iff.mpr ((answering_iff _ _ _ _ _).mpr h _)
  | _ => cases hlast

end

/-! ## The sequence -/

section
variable {codec : Codec} {w : World} {registry : String → Option MatcherPlugin} {path : List Nat}
  {ctx ctx₁ : Context}

/-- A last step without conditions decides. -/
theorem handleSteps_last (last : AnyPlugin) (i : Nat) :
    (handleSteps codec w registry [.mk [] last] path i ctx).handled =
      (handle codec w last (i :: path) ctx).handled := by
  rcases handleSteps_cases codec w registry [] last path i ctx with
    hskip | ⟨hmatch, hstop | ⟨ctx', hcall, hgo⟩⟩
  · cases hskip
  · rw [handleSteps_stop [] hmatch hstop]
  · rw [handleSteps_go [] hmatch hcall hgo, hcall, handleSteps]
    rfl

/-- **Steps that are passed leave the sequence to the last one.** -/
theorem sequence_passed {before : List Step} (last : AnyPlugin)
    (h : (handleSteps codec w registry before path 0 ctx).handled = .returned ctx₁ (.ok ()))
    (hgo : ctx₁.abort = false) :
    (handle codec w (.sequence registry (before ++ [.mk [] last])) path ctx).handled =
      (handle codec w last (before.length :: path) ctx₁).handled := by
  have hbefore : handleSteps codec w registry before path 0 ctx =
      .ok (handleSteps codec w registry before path 0 ctx).duration ctx₁ := by
    rw [Call.ok, ← h]
  rw [handle, handleSteps_append _ hbefore hgo]
  simp only [Nat.zero_add, handleSteps_last]

/-- Steps that are not passed are the sequence. -/
theorem sequence_stopped {before : List Step} (last : AnyPlugin) (hgo : ctx.abort = false)
    (hstop : ∀ ctx', (handleSteps codec w registry before path 0 ctx).handled =
      .returned ctx' (.ok ()) → ctx'.abort = true) :
    (handle codec w (.sequence registry (before ++ [.mk [] last])) path ctx).handled =
      (handleSteps codec w registry before path 0 ctx).handled := by
  rw [handle, handleSteps_append_stop _ hgo hstop]

end

/-! ## Polled otherwise -/

section
variable {codec : Codec} {w : World}

/-- The random starts of one fallback replaced. -/
def startsAt (starts : List Nat → Nat → Nat × Nat) (path : List Nat) (own : Nat → Nat × Nat) :
    List Nat → Nat → Nat × Nat := fun q => if q = path then own else starts q

theorem polled_startsAt_of_ne {starts : List Nat → Nat → Nat × Nat} {path q : List Nat}
    {own : Nat → Nat × Nat} (h : q ≠ path) :
    w.polled (startsAt starts path own) q = w.polled starts q := by
  unfold World.polled startsAt
  rw [if_neg h]

/-- The branches of a fallback do not see how it is polled. -/
theorem branch_polled {starts : List Nat → Nat → Nat × Nat} {path : List Nat}
    {own : Nat → Nat × Nat} (plugin : AnyPlugin) (k : Nat) (ctx : Context) :
    handle codec (w.polled (startsAt starts path own)) plugin (k :: path) ctx =
      handle codec (w.polled starts) plugin (k :: path) ctx := by
  refine handle_congr plugin (k :: path) ctx fun q hq => polled_startsAt_of_ne ?_
  rintro rfl
  have := hq.length_le
  rw [List.length_cons] at this
  omega

/-- Nor do the steps before it. -/
theorem before_polled {starts : List Nat → Nat → Nat × Nat} {own : Nat → Nat × Nat}
    (registry : String → Option MatcherPlugin) (before : List Step) (ctx : Context) :
    handleSteps codec (w.polled (startsAt starts [before.length] own)) registry before [] 0 ctx =
      handleSteps codec (w.polled starts) registry before [] 0 ctx := by
  refine handleSteps_congr registry before [] 0 ctx fun j _ hj q hq => polled_startsAt_of_ne ?_
  rintro rfl
  cases hq.eq_of_length rfl
  omega

end

/-! ## Every query -/

section
variable {codec : Codec} {w : World} {registry : String → Option MatcherPlugin}
  {before : List Step} {last : AnyPlugin} {data : List UInt8} {clientIp : IpAddr}
  {ctx ctx₁ : Context}

/-- A well-formed query has a question and a packet, and nothing has stopped yet. -/
theorem WellFormed.asked (h : WellFormed codec data clientIp ctx) :
    ctx.request.query.isSome = true ∧ ctx.rawRequest.isSome = true ∧ ctx.abort = false := by
  obtain ⟨request, zc, -, rfl⟩ := fromBytes_some h.parsed
  refine ⟨?_, rfl, rfl⟩
  have hlength : request.queries.length = 1 := h.question
  show request.queries.head?.isSome = true
  cases hq : request.queries with
  | nil =>
    rw [hq] at hlength
    cases hlength
  | cons q rest => rfl

/-- So it has when the earlier steps have returned. -/
theorem WellFormed.passed (h : WellFormed codec data clientIp ctx)
    (hcall : (handleSteps codec w registry before [] 0 ctx).handled = .returned ctx₁ (.ok ())) :
    ctx₁.request.query.isSome = true ∧ ctx₁.rawRequest.isSome = true ∧
      (ctx₁.abort = true → ctx₁.hasResponse = true) := by
  obtain ⟨hquery, hraw, hgo⟩ := h.asked
  have hflow := handleSteps_flow registry before [] 0 ctx ctx₁ _ hcall
  refine ⟨?_, ?_, hflow.abortAnswered fun habort => ?_⟩
  · unfold Message.query at hquery ⊢
    rw [hflow.carries.queries]
    exact hquery
  · rw [hflow.carries.rawRequest]
    exact hraw
  · rw [hgo] at habort
    cases habort

/-- **A run that settles returns `Ok` with a response that can be encoded.** -/
theorem settles_returns (hlast : last.forwards = true) (hq : WellFormed codec data clientIp ctx)
    (h : Settles codec w registry before last ctx) :
    ∃ ctx', (handle codec w (.sequence registry (before ++ [.mk [] last])) [] ctx).handled =
        .returned ctx' (.ok ()) ∧ ctx'.hasResponse = true ∧ Sendable codec ctx' := by
  obtain ⟨ctx₁, hcall, hrest⟩ := h
  obtain ⟨hquery, hraw, habort⟩ := hq.passed hcall
  cases hgo : ctx₁.abort with
  | true =>
    rw [if_pos hgo] at hrest
    rw [sequence_stopped last hq.asked.2.2, hcall]
    · exact ⟨ctx₁, rfl, habort hgo, hrest⟩
    · intro ctx' hcall'
      rw [hcall] at hcall'
      cases hcall'
      exact hgo
  | false =>
    rw [if_neg (by rw [hgo]; decide)] at hrest
    obtain ⟨hresponds, hsendable⟩ := hrest
    obtain ⟨ctx₂, hcall₂⟩ := forwards_returns hlast hquery hraw hresponds
    rw [sequence_passed last hcall hgo]
    exact ⟨ctx₂, hcall₂, forwards_hasResponse hlast hquery hraw hcall₂, hsendable ctx₂ hcall₂⟩

/-- **A run that is answered however its last step is polled settles.** -/
theorem returns_settles (starts : List Nat → Nat → Nat × Nat)
    (hq : WellFormed codec data clientIp ctx)
    (hall : ∀ own, ∃ ctx',
      (handle codec (w.polled (startsAt starts [before.length] own))
          (.sequence registry (before ++ [.mk [] last])) [] ctx).handled =
        .returned ctx' (.ok ()) ∧ ctx'.hasResponse = true ∧ Sendable codec ctx') :
    Settles codec (w.polled starts) registry before last ctx := by
  have hsame : w.polled (startsAt starts [before.length] (starts [before.length])) =
      w.polled starts := by
    funext q
    by_cases hpath : q = [before.length]
    · rw [hpath]
      unfold World.polled startsAt
      rw [if_pos rfl]
    · exact polled_startsAt_of_ne hpath
  obtain ⟨ctx', hreturned, -, hsendable⟩ := hall (starts [before.length])
  rw [hsame] at hreturned
  by_cases hpass : ∃ ctx₁, (handleSteps codec (w.polled starts) registry before [] 0 ctx).handled =
      .returned ctx₁ (.ok ()) ∧ ctx₁.abort = false
  · obtain ⟨ctx₁, hcall, hgo⟩ := hpass
    rw [sequence_passed last hcall hgo] at hreturned
    refine ⟨ctx₁, hcall, ?_⟩
    rw [if_neg (by rw [hgo]; decide)]
    refine ⟨?_, ?_⟩
    · cases last with
      | fallback primary secondary threshold alwaysStandby =>
        -- the branches are the same under every poll of their own fallback
        refine (answering_iff _ _ _ _ _).mp fun own => ?_
        obtain ⟨ctx₂, hcall₂, -⟩ := hall own
        have hcall' : (handleSteps codec (w.polled (startsAt starts [before.length] own)) registry
            before [] 0 ctx).handled = .returned ctx₁ (.ok ()) := by rw [before_polled, hcall]
        rw [sequence_passed _ hcall' hgo] at hcall₂
        have hanswered := fallback_returns_iff.mp ⟨ctx₂, hcall₂⟩
        rw [branch_polled, branch_polled] at hanswered
        have hown : (w.polled (startsAt starts [before.length] own) [before.length]).starts =
            own := if_pos rfl
        rwa [hown] at hanswered
      | _ => trivial
    · intro ctx₂ hcall₂
      rw [hreturned] at hcall₂
      cases hcall₂
      exact hsendable
  · have hstop : ∀ ctx₁, (handleSteps codec (w.polled starts) registry before [] 0 ctx).handled =
        .returned ctx₁ (.ok ()) → ctx₁.abort = true := by
      intro ctx₁ hcall
      by_contra hgo
      exact hpass ⟨ctx₁, hcall, by simpa using hgo⟩
    rw [sequence_stopped last hq.asked.2.2 hstop] at hreturned
    refine ⟨ctx', hreturned, ?_⟩
    rw [if_pos (hstop ctx' hreturned)]
    exact hsendable

/-- **Exactly when no query is dropped**: a query to a sequence that ends in a forward, a smart
forward or a fallback is answered, for every order of polling, when the earlier steps return `Ok`,
a fallback that is come to gets a response from its branches and the response can be encoded. -/
theorem answered_iff (codec : Codec) (w : World) (caches : CacheRegistry) (env : Nat → HookEnv)
    (registry : String → Option MatcherPlugin) (before : List Step) (last : AnyPlugin)
    (data : List UInt8) (clientIp : IpAddr) (ctx : Context) (hlast : last.forwards = true)
    (hq : WellFormed codec data clientIp ctx) :
    (∀ starts, Sent codec (w.polled starts) caches env
      (.sequence registry (before ++ [.mk [] last])) data clientIp) ↔
    ∀ starts, Settles codec (w.polled starts) registry before last ctx := by
  constructor
  · intro hsent starts
    exact returns_settles starts hq fun own => (sent_iff hq.parsed).mp (hsent _)
  · intro hsettles starts
    exact (sent_iff hq.parsed).mpr (settles_returns hlast hq (hsettles starts))

end

theorem example_wellFormed (ip : Ipv4Addr) :
    WellFormed (chainCodec ip) chainData (.v4 ⟨10, 0, 0, 2⟩) startContext :=
  ⟨rfl, rfl, by decide⟩

/-- A cache that misses and a forward that is answered. -/
theorem answered_iff_chain :
    WellFormed (chainCodec ⟨192, 0, 2, 1⟩) chainData (.v4 ⟨10, 0, 0, 2⟩) startContext ∧
    ∀ starts, Sent (chainCodec ⟨192, 0, 2, 1⟩) ((chainWorld ⟨192, 0, 2, 1⟩).polled starts)
      exampleCaches quietHooks exampleChain chainData (.v4 ⟨10, 0, 0, 2⟩) := by
  have hwell := example_wellFormed ⟨192, 0, 2, 1⟩
  refine ⟨hwell, (answered_iff _ _ exampleCaches quietHooks (fun _ => none)
    [.mk [] (.cache CacheSystem.exampleCache)] (.forward singleForward) chainData
    (.v4 ⟨10, 0, 0, 2⟩) startContext rfl hwell).mpr ?_⟩
  intro starts
  refine ⟨missedContext, rfl, ?_⟩
  rw [if_neg (by decide)]
  refine ⟨trivial, fun ctx₂ hcall m _ hresp => ?_⟩
  cases hcall
  cases hresp
  rfl

/-! ## An outage -/

/-- Two upstreams, asked in order. -/
def outageForward : ForwardPlugin :=
  ⟨"forward", [⟨1, "udp://192.0.2.1:53", false⟩, ⟨2, "udp://192.0.2.2:53", false⟩], none⟩

/-- Nobody answers: a forward is done after six seconds. -/
def silentWorld : World := fun _ => .uniform 6000 .timedOut

def outageChain (alwaysStandby : Bool) : AnyPlugin :=
  .sequence (fun _ => none)
    [.mk [] (.fallback (.forward outageForward) (.forward outageForward) 500 alwaysStandby)]

/-- **The query is dropped** when both forwards take longer than five seconds: the fallback returns
an error, and with `always_standby` it panics. -/
theorem outage_dropped :
    processRequestBytes (chainCodec ⟨192, 0, 2, 1⟩) silentWorld exampleCaches quietHooks
        (some (outageChain false)) chainData (.v4 ⟨10, 0, 0, 2⟩) = some .silent ∧
    processRequestBytes (chainCodec ⟨192, 0, 2, 1⟩) silentWorld exampleCaches quietHooks
        (some (outageChain true)) chainData (.v4 ⟨10, 0, 0, 2⟩) = none ∧
    ¬ ∀ starts, Sent (chainCodec ⟨192, 0, 2, 1⟩) (silentWorld.polled starts) exampleCaches
      quietHooks (outageChain false) chainData (.v4 ⟨10, 0, 0, 2⟩) := by
  have hsilent : processRequestBytes (chainCodec ⟨192, 0, 2, 1⟩) silentWorld exampleCaches
      quietHooks (some (outageChain false)) chainData (.v4 ⟨10, 0, 0, 2⟩) = some .silent := rfl
  refine ⟨hsilent, rfl, ?_⟩
  intro hall
  obtain ⟨p, bytes, hp, hbytes⟩ := hall fun _ _ => (0, 0)
  have hsame : silentWorld.polled (fun _ _ => (0, 0)) = silentWorld := rfl
  rw [hsame, hsilent] at hp
  cases hp
  cases hbytes

end TitanDns
