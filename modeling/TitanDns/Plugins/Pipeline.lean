import TitanDns.Plugins.Blockers
import TitanDns.Plugins.Cache
import TitanDns.Plugins.Fallback
import TitanDns.Plugins.Forward
import TitanDns.Plugins.Responders

/-!
# The plugin pipeline

`AnyPlugin` with the plugins that contain plugins, `Sequence` and `FallbackPlugin`, and `handle` of
all of them.  What the clock, the network and the plugins' own state answer to a call is looked up
in a `World` under the path of the call: the index of the step in its sequence, `0` or `1` for the
branches of a fallback.

* `checkMatch` — the conditions of a step.
* `handleFallback` — `handle_fallback` on the calls of its two branches.
* `handle`, `handleSteps` — the plugins, and the loop of a sequence over its steps.

Principal result: `handleSteps_append` — **steps passed without `abort` are followed by the rest**,
with the times added.
-/

namespace TitanDns

/-! ## Plugins -/

inductive MatchCondition where
  | byQname (qname : List String)
  | byQtype (qtype : List UInt16)
  | byClientIp (clientIp : List String)
  | byTag (hasTag : String) (invert : Bool)
  | byMatcherPlugin (matchPlugin : String)
  deriving DecidableEq

mutual

inductive AnyPlugin where
  | cache (p : CachePlugin)
  | forward (p : ForwardPlugin)
  /-- With the plugins it was built with. -/
  | smartForward (geoip : GeoIpPlugin) (ipMatcher : Option IpMatcherPlugin)
  | sequence (matchersRegistry : String → Option MatcherPlugin) (steps : List Step)
  | reject (p : RejectPlugin)
  | log
  | hosts (p : HostsPlugin)
  | geoSite (p : GeoSitePlugin)
  | geoIp (p : GeoIpPlugin)
  | matcher (p : MatcherPlugin)
  | fallback (primary secondary : AnyPlugin) (threshold : Nat) (alwaysStandby : Bool)
  | ecs (p : EcsPlugin)
  | fakeIp
  | dns64 (p : Dns64Plugin)
  | dnssec
  | adBlock (p : AdBlockPlugin)
  | ipv6Filter (p : Ipv6FilterPlugin)
  | dga (p : DGAPlugin)
  | ipMatcher (p : IpMatcherPlugin)
  | smartResolve
  | aliApi
  | rateLimit
  | ttl (p : TtlPlugin)

/-- A step of a sequence. -/
inductive Step where
  | mk (conditions : List MatchCondition) (plugin : AnyPlugin)

end

/-- What the world answers to one call. -/
structure StepEnv where
  /-- How long a plugin without branches or steps takes, apart from a sleep of its own. -/
  duration : Nat
  now : Nat
  /-- What the cache holds under the key of the request. -/
  found : Option CachedEntry
  forward : ForwardEnv
  smartForward : SmartForwarded
  smartResolve : SmartResolveEnv
  aliApi : Except String AliDNSResponse
  /-- The entropy of a label is above the threshold. -/
  entropyAbove : List Char → Bool
  /-- `should_limit` -/
  shouldLimit : Bool
  /-- The random starts of `select!`. -/
  starts : Nat → Nat × Nat

/-- The environment of every call, by its path, innermost index first. -/
abbrev World := List Nat → StepEnv

/-! ## Conditions -/

def MatchCondition.holds (codec : Codec) (registry : String → Option MatcherPlugin)
    (ctx : Context) : MatchCondition → Bool
  | .byQname patterns => patterns.any fun p => p.toList.isSuffixOf (ctx.qname codec).toList
  | .byQtype types => types.contains ((ctx.request.query.map (·.qtype)).getD 0)
  | .byTag tag invert => if invert then !ctx.hasTag tag else ctx.hasTag tag
  | .byMatcherPlugin name =>
    match registry name with
    | some m => m.matchesDomain (ctx.qname codec)
    | none => false
  | .byClientIp _ => false

/-- `check_match`. -/
def checkMatch (codec : Codec) (registry : String → Option MatcherPlugin) (ctx : Context)
    (conditions : List MatchCondition) : Bool := conditions.all (·.holds codec registry ctx)

/-! ## Fallback -/

/-- `apply_ctx`. -/
def applyCtx (success ctx : Context) : Context :=
  { ctx with
    response := success.response
    rawResponse := success.rawResponse
    tags := success.tags
    abort := success.abort
    minTtl := success.minTtl
    postProcessHooks := success.postProcessHooks }

/-- `handle_fallback` on the calls of its branches, each made on a clone of `ctx`. -/
def handleFallback (threshold : Nat) (alwaysStandby : Bool) (primary secondary : Call Context)
    (starts : Nat → Nat × Nat) (ctx : Context) : Call Context :=
  match fallbackLoop Context.hasResponse threshold alwaysStandby primary secondary starts with
  | .ok _ success t => ⟨t, .returned (applyCtx success ctx) (.ok ())⟩
  | .err t => ⟨t, .returned ctx (.error "Both upstreams failed")⟩
  | .panicked t => ⟨t, .panicked⟩
  | .disabled t => ⟨t, .panicked⟩
  | .outOfFuel => ⟨0, .panicked⟩

/-! ## Handling a request -/

section
variable (codec : Codec) (w : World)

/-- A plugin that returns `Ok`. -/
def Call.ok (duration : Nat) (ctx : Context) : Call Context := ⟨duration, .returned ctx (.ok ())⟩

/-- A plugin that may return an error. -/
def Call.of (duration : Nat) (out : Context × Except String Unit) : Call Context :=
  ⟨duration, .returned out.1 out.2⟩

mutual

/-- `AnyPlugin::handle`. -/
def handle : AnyPlugin → List Nat → Context → Call Context
  | .cache p, path, ctx =>
    .ok (w path).duration (p.handleWith codec (w path).now (w path).found ctx)
  | .forward p, path, ctx => .of (w path).duration (p.handle codec (w path).forward ctx)
  | .smartForward _ _, path, ctx =>
    .of (w path).duration (SmartForwardPlugin.handle codec (w path).smartForward ctx)
  | .sequence registry steps, path, ctx => handleSteps registry steps path 0 ctx
  | .reject p, path, ctx => .ok (w path).duration (p.handle ctx)
  | .log, path, ctx => .ok (w path).duration ctx
  | .hosts p, path, ctx => .ok (w path).duration (p.handle codec ctx)
  | .geoSite p, path, ctx => .ok (w path).duration (p.handle codec ctx)
  | .geoIp p, path, ctx => .ok (w path).duration (p.handle ctx)
  | .matcher p, path, ctx => .ok (w path).duration (p.handle codec ctx)
  | .fallback primary secondary threshold alwaysStandby, path, ctx =>
    handleFallback threshold alwaysStandby (handle primary (0 :: path) ctx)
      (handle secondary (1 :: path) ctx) (w path).starts ctx
  | .ecs p, path, ctx => .ok (w path).duration (p.handle ctx)
  | .fakeIp, path, ctx => .ok (w path).duration ctx
  | .dns64 p, path, ctx => .ok (w path).duration (p.handle ctx)
  | .dnssec, path, ctx => .ok (w path).duration ctx
  | .adBlock p, path, ctx => .ok (w path).duration (p.handle codec ctx)
  | .ipv6Filter p, path, ctx => .ok ((w path).duration + p.delay ctx) (p.handle ctx)
  | .dga p, path, ctx => .ok (w path).duration (p.handle codec (w path).entropyAbove ctx)
  | .ipMatcher p, path, ctx => .ok (w path).duration (p.handle ctx)
  | .smartResolve, path, ctx =>
    .ok (w path).duration (SmartResolvePlugin.handle (w path).smartResolve ctx)
  | .aliApi, path, ctx => .of (w path).duration (AliApiPlugin.handle (w path).aliApi ctx)
  | .rateLimit, path, ctx =>
    .ok (w path).duration (RateLimitPlugin.handle (w path).shouldLimit ctx)
  | .ttl p, path, ctx => .ok (w path).duration (p.handle ctx)

/-- The loop of `Sequence::handle` from step `i` on: an error is returned at once, `abort` ends the
loop. -/
def handleSteps (registry : String → Option MatcherPlugin) :
    List Step → List Nat → Nat → Context → Call Context
  | [], _, _, ctx => .ok 0 ctx
  | .mk conditions plugin :: rest, path, i, ctx =>
    if checkMatch codec registry ctx conditions then
      let call := handle plugin (i :: path) ctx
      match call.handled with
      | .returned ctx' (.ok ()) =>
        if ctx'.abort then call
        else
          let last := handleSteps registry rest path (i + 1) ctx'
          ⟨call.duration + last.duration, last.handled⟩
      | .returned _ (.error _) => call
      | .panicked => call
    else handleSteps registry rest path (i + 1) ctx

end

variable {codec : Codec} {w : World} {registry : String → Option MatcherPlugin}

section
variable {conditions : List MatchCondition} {plugin : AnyPlugin} {path : List Nat} {i : Nat}
  {ctx : Context}

/-- A step whose conditions do not hold is skipped. -/
theorem handleSteps_skip (rest : List Step) (h : checkMatch codec registry ctx conditions = false) :
    handleSteps codec w registry (.mk conditions plugin :: rest) path i ctx =
      handleSteps codec w registry rest path (i + 1) ctx := by
  rw [handleSteps, if_neg (by rw [h]; decide)]

/-- A step that does not return `Ok`, or aborts, is the last one. -/
theorem handleSteps_stop (rest : List Step) (h : checkMatch codec registry ctx conditions = true)
    (hstop : ∀ ctx', (handle codec w plugin (i :: path) ctx).handled = .returned ctx' (.ok ()) →
      ctx'.abort = true) :
    handleSteps codec w registry (.mk conditions plugin :: rest) path i ctx =
      handle codec w plugin (i :: path) ctx := by
  rw [handleSteps, if_pos h]
  simp only
  split
  · rename_i ctx' hcall
    rw [if_pos (hstop ctx' hcall)]
  · rfl
  · rfl

/-- A step that returns `Ok` without aborting is followed by the others. -/
theorem handleSteps_go (rest : List Step) {ctx' : Context}
    (h : checkMatch codec registry ctx conditions = true)
    (hcall : (handle codec w plugin (i :: path) ctx).handled = .returned ctx' (.ok ()))
    (hgo : ctx'.abort = false) :
    handleSteps codec w registry (.mk conditions plugin :: rest) path i ctx =
      ⟨(handle codec w plugin (i :: path) ctx).duration +
          (handleSteps codec w registry rest path (i + 1) ctx').duration,
        (handleSteps codec w registry rest path (i + 1) ctx').handled⟩ := by
  rw [handleSteps, if_pos h]
  simp only [hcall, hgo, Bool.false_eq_true, if_false]

/-- What the next step can come to. -/
theorem handleSteps_cases (codec : Codec) (w : World) (registry : String → Option MatcherPlugin)
    (conditions : List MatchCondition) (plugin : AnyPlugin) (path : List Nat) (i : Nat)
    (ctx : Context) :
    checkMatch codec registry ctx conditions = false ∨
      checkMatch codec registry ctx conditions = true ∧
        ((∀ ctx', (handle codec w plugin (i :: path) ctx).handled = .returned ctx' (.ok ()) →
            ctx'.abort = true) ∨
          ∃ ctx', (handle codec w plugin (i :: path) ctx).handled = .returned ctx' (.ok ()) ∧
            ctx'.abort = false) := by
  cases hmatch : checkMatch codec registry ctx conditions with
  | false => exact Or.inl rfl
  | true =>
    refine Or.inr ⟨rfl, ?_⟩
    by_cases hstop : ∀ ctx', (handle codec w plugin (i :: path) ctx).handled =
        .returned ctx' (.ok ()) → ctx'.abort = true
    · exact Or.inl hstop
    · push Not at hstop
      obtain ⟨ctx', hcall, habort⟩ := hstop
      exact Or.inr ⟨ctx', hcall, by simpa using habort⟩

end

/-- Steps that are passed without `abort` are followed by the others. -/
theorem handleSteps_append {before : List Step} (rest : List Step) {path : List Nat} {i d : Nat}
    {ctx ctx' : Context} (h : handleSteps codec w registry before path i ctx = .ok d ctx')
    (hgo : ctx'.abort = false) :
    handleSteps codec w registry (before ++ rest) path i ctx =
      ⟨d + (handleSteps codec w registry rest path (i + before.length) ctx').duration,
        (handleSteps codec w registry rest path (i + before.length) ctx').handled⟩ := by
  induction before generalizing i d ctx with
  | nil =>
    rw [handleSteps] at h
    cases h
    simp
  | cons step before ih =>
    obtain ⟨conditions, plugin⟩ := step
    have hlen : i + (Step.mk conditions plugin :: before).length = i + 1 + before.length := by
      rw [List.length_cons]
      omega
    rw [List.cons_append, hlen]
    rcases handleSteps_cases codec w registry conditions plugin path i ctx with
      hskip | ⟨hmatch, hstop | ⟨ctx₁, hcall, hgo₁⟩⟩
    · rw [handleSteps_skip before hskip] at h
      rw [handleSteps_skip _ hskip]
      exact ih h
    · -- a step that stops leaves `abort` set
      rw [handleSteps_stop before hmatch hstop] at h
      have habort := hstop ctx' (by rw [h]; rfl)
      rw [hgo] at habort
      cases habort
    · rw [handleSteps_go before hmatch hcall hgo₁] at h
      obtain ⟨hd, hlast⟩ := Call.mk.inj h
      have hbefore : handleSteps codec w registry before path (i + 1) ctx₁ =
          .ok (handleSteps codec w registry before path (i + 1) ctx₁).duration ctx' := by
        rw [Call.ok, ← hlast]
      rw [handleSteps_go _ hmatch hcall hgo₁, ih hbefore, ← hd]
      simp only [Nat.add_assoc]

/-- Steps that do not return `Ok`, or abort, are the last ones. -/
theorem handleSteps_append_stop {before : List Step} (rest : List Step) {path : List Nat} {i : Nat}
    {ctx : Context} (hgo : ctx.abort = false)
    (hstop : ∀ ctx', (handleSteps codec w registry before path i ctx).handled =
      .returned ctx' (.ok ()) → ctx'.abort = true) :
    handleSteps codec w registry (before ++ rest) path i ctx =
      handleSteps codec w registry before path i ctx := by
  induction before generalizing i ctx with
  | nil =>
    have habort := hstop ctx (by rw [handleSteps]; rfl)
    rw [hgo] at habort
    cases habort
  | cons step before ih =>
    obtain ⟨conditions, plugin⟩ := step
    rw [List.cons_append]
    rcases handleSteps_cases codec w registry conditions plugin path i ctx with
      hskip | ⟨hmatch, hlast | ⟨ctx₁, hcall, hgo₁⟩⟩
    · rw [handleSteps_skip before hskip] at hstop ⊢
      rw [handleSteps_skip _ hskip]
      exact ih hgo hstop
    · rw [handleSteps_stop before hmatch hlast, handleSteps_stop _ hmatch hlast]
    · rw [handleSteps_go before hmatch hcall hgo₁] at hstop ⊢
      rw [handleSteps_go _ hmatch hcall hgo₁, ih hgo₁ hstop]

end

/-! ## A small world -/

/-- Every exchange of a call ends alike, and nothing else happens to it. -/
def ForwardEnv.uniform (e : Exchange) : ForwardEnv where
  clientBlocked := false
  proxyStatus := none
  exchange := fun _ => e
  arrivalRank := fun _ => 0
  dga := false
  ecs := none
  bestUpstream := none
  fastExchange := fun _ => e
  congestionLevel := 0
  timeRace := false
  difficultyBoost := 0
  ranked := []
  degrading := fun _ => false

/-- A call of a forward in an otherwise idle world. -/
def StepEnv.uniform (duration : Nat) (e : Exchange) : StepEnv where
  duration := duration
  now := 0
  found := none
  forward := .uniform e
  smartForward := .fakeIpFailed
  smartResolve := ⟨none, id, none⟩
  aliApi := .error "unreachable"
  entropyAbove := fun _ => false
  shouldLimit := false
  starts := fun _ => (0, 0)

/-- One upstream, asked in order. -/
def singleForward : ForwardPlugin := ⟨"forward", [⟨1, "upstream", false⟩], none⟩

def exampleRequest : Message := { id := 7, recursionDesired := true, queries := [exampleQuestion] }

/-- An address for `www.example.com`. -/
def exampleAnswer : Message where
  id := 7
  messageType := .response
  queries := [exampleQuestion]
  answers := [.fromRdata exampleQuestion.name 300 (.a ⟨192, 0, 2, 1⟩)]

/-- A codec for the query: its header and its question. -/
def exampleCodec : Codec where
  toVec m := some (be16 m.id ++ [1, 0, 0, 1, 0, 0, 0, 0, 0, 0] ++ m.queries.flatMap Question.wire)
  fromVec _ := none
  display _ := "www.example.com."
  fromAscii _ := some exampleQuestion.name

end TitanDns
