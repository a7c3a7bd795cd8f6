import TitanDns.Plugins.Effects

/-!
# The calls of a run and what comes of them

* `collect` — the calls of a run to plugins that are not composite, in order; `calls` follows every
  branch of a fallback, `kept` only the one whose context it returns.
* `handle_congr` — a call depends on the world at its own path and below.
* `Flow` — the way to the context returned, with its kept calls; `handle_flow` — **every run that
  returns has one.**
* `Flow.hooks`, `Flow.final` — **the hooks of a run are those its kept calls register, its response
  is that of the last one**; `Flow.last` — a kept call that aborts is the last one.
-/

namespace TitanDns

/-- A call to a plugin that is not composite. -/
structure CallSite where
  plugin : AnyPlugin
  path : List Nat
  ctx : Context

/-- The branch whose context a fallback returns. -/
def keptSide : LoopEnd Context → Side → Bool
  | .ok side _ _, side' => side == side'
  | _, _ => false

section
variable (codec : Codec) (w : World)

/-- The context a call leaves. -/
def CallSite.after (c : CallSite) : Context :=
  ((handle codec w c.plugin c.path c.ctx).handled.context?).getD c.ctx

section
variable (follow : LoopEnd Context → Side → Bool)

mutual

/-- The calls of a run, with those of the branches that `follow` picks. -/
def collect : AnyPlugin → List Nat → Context → List CallSite
  | .sequence registry steps, path, ctx => collectSteps registry steps path 0 ctx
  | .fallback primary secondary threshold alwaysStandby, path, ctx =>
    let e := fallbackLoop Context.hasResponse threshold alwaysStandby
      (handle codec w primary (0 :: path) ctx) (handle codec w secondary (1 :: path) ctx)
      (w path).starts
    (if follow e .primary then collect primary (0 :: path) ctx else []) ++
      if follow e .secondary then collect secondary (1 :: path) ctx else []
  | plugin, path, ctx => [⟨plugin, path, ctx⟩]

/-- The calls of the loop of a sequence, from step `i` on. -/
def collectSteps (registry : String → Option MatcherPlugin) :
    List Step → List Nat → Nat → Context → List CallSite
  | [], _, _, _ => []
  | .mk conditions plugin :: rest, path, i, ctx =>
    if checkMatch codec registry ctx conditions then
      collect plugin (i :: path) ctx ++
        match (handle codec w plugin (i :: path) ctx).handled with
        | .returned ctx' (.ok ()) =>
          if ctx'.abort then [] else collectSteps registry rest path (i + 1) ctx'
        | .returned _ (.error _) => []
        | .panicked => []
    else collectSteps registry rest path (i + 1) ctx

end

end

/-- The calls on the way to the context returned. -/
def kept (plugin : AnyPlugin) (path : List Nat) (ctx : Context) : List CallSite :=
  collect codec w keptSide plugin path ctx

/-- The calls of a run whose branches all run to their end. -/
def calls (plugin : AnyPlugin) (path : List Nat) (ctx : Context) : List CallSite :=
  collect codec w (fun _ _ => true) plugin path ctx

end

section
variable {codec : Codec} {w : World} {follow : LoopEnd Context → Side → Bool}
  {registry : String → Option MatcherPlugin} {conditions : List MatchCondition}
  {plugin : AnyPlugin} {path : List Nat} {i : Nat} {ctx : Context}

theorem collect_leaf (h : plugin.composite = false) :
    collect codec w follow plugin path ctx = [⟨plugin, path, ctx⟩] := by
  cases plugin <;> first | rfl | cases h

theorem collectSteps_skip (rest : List Step)
    (h : checkMatch codec registry ctx conditions = false) :
    collectSteps codec w follow registry (.mk conditions plugin :: rest) path i ctx =
      collectSteps codec w follow registry rest path (i + 1) ctx := by
  rw [collectSteps, if_neg (by rw [h]; decide)]

theorem collectSteps_stop (rest : List Step)
    (h : checkMatch codec registry ctx conditions = true)
    (hstop : ∀ ctx', (handle codec w plugin (i :: path) ctx).handled = .returned ctx' (.ok ()) →
      ctx'.abort = true) :
    collectSteps codec w follow registry (.mk conditions plugin :: rest) path i ctx =
      collect codec w follow plugin (i :: path) ctx := by
  rw [collectSteps, if_pos h]
  split
  · rename_i ctx' hcall
    rw [if_pos (hstop ctx' hcall), List.append_nil]
  · rw [List.append_nil]
  · rw [List.append_nil]

theorem collectSteps_go (rest : List Step) {ctx' : Context}
    (h : checkMatch codec registry ctx conditions = true)
    (hcall : (handle codec w plugin (i :: path) ctx).handled = .returned ctx' (.ok ()))
    (hgo : ctx'.abort = false) :
    collectSteps codec w follow registry (.mk conditions plugin :: rest) path i ctx =
      collect codec w follow plugin (i :: path) ctx ++
        collectSteps codec w follow registry rest path (i + 1) ctx' := by
  rw [collectSteps, if_pos h]
  simp only [hcall, hgo, Bool.false_eq_true, if_false]

end

/-! ## Where the world is looked at -/

section
variable {codec : Codec} {w w' : World}

mutual

/-- **A call depends on the world at its own path and below.** -/
theorem handle_congr (plugin : AnyPlugin) (path : List Nat) (ctx : Context)
    (h : ∀ q, path <:+ q → w q = w' q) :
    handle codec w plugin path ctx = handle codec w' plugin path ctx := by
  match plugin with
  | .sequence registry steps =>
    rw [handle, handle]
    exact handleSteps_congr registry steps path 0 ctx fun j _ _ q hq =>
      h q ((List.suffix_cons j path).trans hq)
  | .fallback primary secondary threshold alwaysStandby =>
    rw [handle, handle, h path List.suffix_rfl,
      handle_congr primary (0 :: path) ctx fun q hq => h q ((List.suffix_cons 0 path).trans hq),
      handle_congr secondary (1 :: path) ctx fun q hq => h q ((List.suffix_cons 1 path).trans hq)]
  | .cache _ | .forward _ | .smartForward .. | .reject _ | .log | .hosts _ | .geoSite _ | .geoIp _
  | .matcher _ | .ecs _ | .fakeIp | .dns64 _ | .dnssec | .adBlock _ | .ipv6Filter _ | .dga _
  | .ipMatcher _ | .smartResolve | .aliApi | .rateLimit | .ttl _ =>
    rw [handle, handle, h path List.suffix_rfl]

theorem handleSteps_congr (registry : String → Option MatcherPlugin) (steps : List Step)
    (path : List Nat) (i : Nat) (ctx : Context)
    (h : ∀ j, i ≤ j → j < i + steps.length → ∀ q, (j :: path) <:+ q → w q = w' q) :
    handleSteps codec w registry steps path i ctx =
      handleSteps codec w' registry steps path i ctx := by
  match steps with
  | [] => rw [handleSteps, handleSteps]
  | .mk conditions plugin :: rest =>
    have hlen : (Step.mk conditions plugin :: rest).length = rest.length + 1 := rfl
    have hcall := handle_congr plugin (i :: path) ctx (h i (Nat.le_refl i) (by omega))
    have hrest : ∀ ctx', handleSteps codec w registry rest path (i + 1) ctx' =
        handleSteps codec w' registry rest path (i + 1) ctx' := fun ctx' =>
      handleSteps_congr registry rest path (i + 1) ctx' fun j hij hj =>
        h j (by omega) (by omega)
    rw [handleSteps, handleSteps]
    simp only [hcall, hrest]

end

end

/-! ## The way to the context returned -/

/-- A plugin, or the loop of a sequence from step `i` on. -/
inductive Fragment where
  | plugin (p : AnyPlugin)
  | steps (registry : String → Option MatcherPlugin) (rest : List Step) (i : Nat)

/-- From `ctx` the fragment returns the last context, by way of the calls listed. -/
inductive Flow (codec : Codec) (w : World) :
    Fragment → List Nat → Context → List CallSite → Context → Prop where
  | leaf {plugin : AnyPlugin} {path : List Nat} {ctx ctx' : Context} {res : Except String Unit}
      (leaf : plugin.composite = false)
      (call : (handle codec w plugin path ctx).handled = .returned ctx' res) :
      Flow codec w (.plugin plugin) path ctx [⟨plugin, path, ctx⟩] ctx'
  | sequence {registry : String → Option MatcherPlugin} {steps : List Step} {path : List Nat}
      {ctx ctx' : Context} {cs : List CallSite}
      (inner : Flow codec w (.steps registry steps 0) path ctx cs ctx') :
      Flow codec w (.plugin (.sequence registry steps)) path ctx cs ctx'
  | primary {primary secondary : AnyPlugin} {threshold : Nat} {alwaysStandby : Bool}
      {path : List Nat} {ctx success : Context} {cs : List CallSite}
      (inner : Flow codec w (.plugin primary) (0 :: path) ctx cs success) :
      Flow codec w (.plugin (.fallback primary secondary threshold alwaysStandby)) path ctx cs
        (applyCtx success ctx)
  | secondary {primary secondary : AnyPlugin} {threshold : Nat} {alwaysStandby : Bool}
      {path : List Nat} {ctx success : Context} {cs : List CallSite}
      (inner : Flow codec w (.plugin secondary) (1 :: path) ctx cs success) :
      Flow codec w (.plugin (.fallback primary secondary threshold alwaysStandby)) path ctx cs
        (applyCtx success ctx)
  | failed {primary secondary : AnyPlugin} {threshold : Nat} {alwaysStandby : Bool}
      {path : List Nat} {ctx : Context} :
      Flow codec w (.plugin (.fallback primary secondary threshold alwaysStandby)) path ctx [] ctx
  | done {registry : String → Option MatcherPlugin} {path : List Nat} {i : Nat} {ctx : Context} :
      Flow codec w (.steps registry [] i) path ctx [] ctx
  | skipped {registry : String → Option MatcherPlugin} {conditions : List MatchCondition}
      {plugin : AnyPlugin} {rest : List Step} {path : List Nat} {i : Nat} {ctx ctx' : Context}
      {cs : List CallSite} (later : Flow codec w (.steps registry rest (i + 1)) path ctx cs ctx') :
      Flow codec w (.steps registry (.mk conditions plugin :: rest) i) path ctx cs ctx'
  | stopped {registry : String → Option MatcherPlugin} {conditions : List MatchCondition}
      {plugin : AnyPlugin} {rest : List Step} {path : List Nat} {i : Nat} {ctx ctx' : Context}
      {cs : List CallSite} (inner : Flow codec w (.plugin plugin) (i :: path) ctx cs ctx') :
      Flow codec w (.steps registry (.mk conditions plugin :: rest) i) path ctx cs ctx'
  | passed {registry : String → Option MatcherPlugin} {conditions : List MatchCondition}
      {plugin : AnyPlugin} {rest : List Step} {path : List Nat} {i : Nat}
      {ctx ctx₁ ctx' : Context} {cs cs' : List CallSite}
      (inner : Flow codec w (.plugin plugin) (i :: path) ctx cs ctx₁) (goOn : ctx₁.abort = false)
      (later : Flow codec w (.steps registry rest (i + 1)) path ctx₁ cs' ctx') :
      Flow codec w (.steps registry (.mk conditions plugin :: rest) i) path ctx (cs ++ cs') ctx'

section
variable {codec : Codec} {w : World}

mutual

/-- **Every run that returns has a way through its kept calls.** -/
theorem handle_flow (plugin : AnyPlugin) (path : List Nat) (ctx ctx' : Context)
    (res : Except String Unit)
    (h : (handle codec w plugin path ctx).handled = .returned ctx' res) :
    Flow codec w (.plugin plugin) path ctx (kept codec w plugin path ctx) ctx' := by
  match plugin with
  | .sequence registry steps =>
    rw [handle] at h
    rw [kept, collect]
    exact .sequence (handleSteps_flow registry steps path 0 ctx ctx' res h)
  | .fallback primary secondary threshold alwaysStandby =>
    rw [handle, handleFallback] at h
    rw [kept, collect]
    have hbranch := fallbackLoop_branch Context.hasResponse threshold alwaysStandby
      (handle codec w primary (0 :: path) ctx) (handle codec w secondary (1 :: path) ctx)
      (w path).starts
    cases hend : fallbackLoop Context.hasResponse threshold alwaysStandby
        (handle codec w primary (0 :: path) ctx) (handle codec w secondary (1 :: path) ctx)
        (w path).starts with
    | ok side success t =>
      rw [hend] at h hbranch
      cases h
      cases side with
      | primary =>
        have := handle_flow primary (0 :: path) ctx success _ (runBranch_returned hbranch)
        simpa [keptSide, kept] using Flow.primary this
      | secondary =>
        have := handle_flow secondary (1 :: path) ctx success _ (runBranch_returned hbranch)
        simpa [keptSide, kept] using Flow.secondary this
    | err t =>
      rw [hend] at h
      cases h
      simpa [keptSide] using Flow.failed
    | panicked t =>
      rw [hend] at h
      cases h
    | disabled t =>
      rw [hend] at h
      cases h
    | outOfFuel =>
      rw [hend] at h
      cases h
  | .cache _ | .forward _ | .smartForward .. | .reject _ | .log | .hosts _ | .geoSite _ | .geoIp _
  | .matcher _ | .ecs _ | .fakeIp | .dns64 _ | .dnssec | .adBlock _ | .ipv6Filter _ | .dga _
  | .ipMatcher _ | .smartResolve | .aliApi | .rateLimit | .ttl _ =>
    rw [kept, collect_leaf rfl]
    exact .leaf rfl h

theorem handleSteps_flow (registry : String → Option MatcherPlugin) (steps : List Step)
    (path : List Nat) (i : Nat) (ctx ctx' : Context) (res : Except String Unit)
    (h : (handleSteps codec w registry steps path i ctx).handled = .returned ctx' res) :
    Flow codec w (.steps registry steps i) path ctx
      (collectSteps codec w keptSide registry steps path i ctx) ctx' := by
  match steps with
  | [] =>
    rw [handleSteps] at h
    cases h
    rw [collectSteps]
    exact .done
  | .mk conditions plugin :: rest =>
    rcases handleSteps_cases codec w registry conditions plugin path i ctx with
      hskip | ⟨hmatch, hstop | ⟨ctx₁, hcall, hgo⟩⟩
    · rw [handleSteps_skip rest hskip] at h
      rw [collectSteps_skip rest hskip]
      exact .skipped (handleSteps_flow registry rest path (i + 1) ctx ctx' res h)
    · rw [handleSteps_stop rest hmatch hstop] at h
      rw [collectSteps_stop rest hmatch hstop]
      exact .stopped (handle_flow plugin (i :: path) ctx ctx' res h)
    · rw [handleSteps_go rest hmatch hcall hgo] at h
      rw [collectSteps_go rest hmatch hcall hgo]
      exact .passed (handle_flow plugin (i :: path) ctx ctx₁ _ hcall) hgo
        (handleSteps_flow registry rest path (i + 1) ctx₁ ctx' res h)

end

/-! ## What the calls come to -/

/-- The question and the packet are handed on. -/
structure Context.Carries (a b : Context) : Prop where
  queries : b.request.queries = a.request.queries
  rawRequest : b.rawRequest = a.rawRequest

theorem Effect.carries {ctx ctx' : Context} (h : Effect ctx ctx') : ctx.Carries ctx' := by
  cases h <;> exact ⟨rfl, rfl⟩

/-- Without a registration the hooks stay. -/
theorem Effect.hooks {ctx ctx' : Context} (h : Effect ctx ctx') :
    ctx'.postProcessHooks = ctx.postProcessHooks := by
  cases h <;> rfl

theorem leaf_carries {plugin : AnyPlugin} {path : List Nat} {ctx ctx' : Context}
    {res : Except String Unit} (hleaf : plugin.composite = false)
    (h : (handle codec w plugin path ctx).handled = .returned ctx' res) : ctx.Carries ctx' := by
  rcases leaf_effect hleaf h with ⟨-, heffect⟩ | ⟨name, -, rfl⟩
  · exact heffect.carries
  · exact ⟨rfl, rfl⟩

variable {fragment : Fragment} {path : List Nat} {ctx ctx' : Context} {cs : List CallSite}

theorem Flow.carries (h : Flow codec w fragment path ctx cs ctx') : ctx.Carries ctx' := by
  induction h with
  | leaf leaf call => exact leaf_carries leaf call
  | sequence _ ih => exact ih
  | primary _ _ => exact ⟨rfl, rfl⟩
  | secondary _ _ => exact ⟨rfl, rfl⟩
  | failed => exact ⟨rfl, rfl⟩
  | done => exact ⟨rfl, rfl⟩
  | skipped _ ih => exact ih
  | stopped _ ih => exact ih
  | passed _ _ _ ih ih' =>
    exact ⟨ih'.queries.trans ih.queries, ih'.rawRequest.trans ih.rawRequest⟩

/-- Every kept call is made with the question of the run. -/
theorem Flow.asked (h : Flow codec w fragment path ctx cs ctx') :
    ∀ c ∈ cs, ctx.Carries c.ctx := by
  induction h with
  | leaf leaf call =>
    intro c hc
    rw [List.mem_singleton.mp hc]
    exact ⟨rfl, rfl⟩
  | sequence _ ih => exact ih
  | primary _ ih => exact ih
  | secondary _ ih => exact ih
  | failed => exact fun c hc => (by cases hc)
  | done => exact fun c hc => (by cases hc)
  | skipped _ ih => exact ih
  | stopped _ ih => exact ih
  | passed inner _ _ ih ih' =>
    intro c hc
    rcases List.mem_append.mp hc with hc | hc
    · exact ih c hc
    · have hinner := inner.carries
      have hlater := ih' c hc
      exact ⟨hlater.queries.trans hinner.queries, hlater.rawRequest.trans hinner.rawRequest⟩

/-- The hooks a call registers. -/
def CallSite.registered (codec : Codec) (w : World) (c : CallSite) : List String :=
  TitanDns.registered codec w c.plugin c.path c.ctx

/-- **The hooks of a run are those its kept calls register**, in their order. -/
theorem Flow.hooks (h : Flow codec w fragment path ctx cs ctx') :
    ctx'.postProcessHooks = ctx.postProcessHooks ++ cs.flatMap (·.registered codec w) := by
  induction h with
  | leaf leaf call =>
    simp only [List.flatMap_cons, List.flatMap_nil, List.append_nil, CallSite.registered]
    rcases leaf_effect leaf call with ⟨hnone, heffect⟩ | ⟨name, hname, rfl⟩
    · rw [hnone, List.append_nil]
      exact heffect.hooks
    · rw [hname]
  | sequence _ ih => exact ih
  | primary _ ih => exact ih
  | secondary _ ih => exact ih
  | failed => simp
  | done => simp
  | skipped _ ih => exact ih
  | stopped _ ih => exact ih
  | passed _ _ _ ih ih' => rw [ih', ih, List.flatMap_append, List.append_assoc]

/-- Response and stop flag are the same. -/
structure Context.SameAnswer (a b : Context) : Prop where
  response : b.response = a.response
  rawResponse : b.rawResponse = a.rawResponse
  abort : b.abort = a.abort

/-- The context after the last call, `ctx` if there is none. -/
def lastAfter (codec : Codec) (w : World) (ctx : Context) (cs : List CallSite) : Context :=
  (cs.getLast?.map (·.after codec w)).getD ctx

theorem Context.SameAnswer.trans {a b c : Context} (h : a.SameAnswer b) (h' : b.SameAnswer c) :
    a.SameAnswer c :=
  ⟨h'.response.trans h.response, h'.rawResponse.trans h.rawResponse, h'.abort.trans h.abort⟩

theorem lastAfter_append (ctx : Context) (cs cs' : List CallSite) :
    lastAfter codec w ctx (cs ++ cs') = lastAfter codec w (lastAfter codec w ctx cs) cs' := by
  unfold lastAfter
  rw [List.getLast?_append]
  cases cs'.getLast? with
  | some c => rfl
  | none => rfl

theorem lastAfter_congr {a b : Context} (h : a.SameAnswer b) (cs : List CallSite) :
    (lastAfter codec w a cs).SameAnswer (lastAfter codec w b cs) := by
  unfold lastAfter
  cases cs.getLast? with
  | some c => exact ⟨rfl, rfl, rfl⟩
  | none => exact h

theorem after_of_returned {plugin : AnyPlugin} {res : Except String Unit}
    (h : (handle codec w plugin path ctx).handled = .returned ctx' res) :
    (⟨plugin, path, ctx⟩ : CallSite).after codec w = ctx' := by
  unfold CallSite.after
  rw [h]
  rfl

/-- **The response of a run is that of its last kept call.** -/
theorem Flow.final (h : Flow codec w fragment path ctx cs ctx') :
    (lastAfter codec w ctx cs).SameAnswer ctx' := by
  induction h with
  | leaf leaf call =>
    have hafter := after_of_returned call
    simp only [lastAfter, List.getLast?_singleton, Option.map_some, Option.getD_some, hafter]
    exact ⟨rfl, rfl, rfl⟩
  | sequence _ ih => exact ih
  | primary _ ih => exact ⟨ih.response, ih.rawResponse, ih.abort⟩
  | secondary _ ih => exact ⟨ih.response, ih.rawResponse, ih.abort⟩
  | failed => exact ⟨rfl, rfl, rfl⟩
  | done => exact ⟨rfl, rfl, rfl⟩
  | skipped _ ih => exact ih
  | stopped _ ih => exact ih
  | passed _ _ _ ih ih' =>
    rw [lastAfter_append]
    exact (lastAfter_congr ih _).trans ih'

/-- **A kept call that aborts is the last one.** -/
theorem Flow.last (h : Flow codec w fragment path ctx cs ctx') :
    ∀ c ∈ cs, (c.after codec w).abort = true → cs.getLast? = some c := by
  induction h with
  | leaf _ _ =>
    intro c hc _
    rw [List.mem_singleton.mp hc]
    rfl
  | sequence _ ih => exact ih
  | primary _ ih => exact ih
  | secondary _ ih => exact ih
  | failed => exact fun c hc => (by cases hc)
  | done => exact fun c hc => (by cases hc)
  | skipped _ ih => exact ih
  | stopped _ ih => exact ih
  | @passed _ _ _ _ _ _ ctx ctx₁ _ cs cs' inner goOn _ ih ih' =>
    intro c hc habort
    rw [List.getLast?_append]
    rcases List.mem_append.mp hc with hc | hc
    · -- then the step would have stopped the loop
      have hfinal := inner.final.abort
      simp only [lastAfter, ih c hc habort, Option.map_some, Option.getD_some] at hfinal
      rw [goOn, habort] at hfinal
      cases hfinal
    · rw [ih' c hc habort]
      rfl

/-- Stopped means answered. -/
def AbortAnswered (ctx : Context) : Prop := ctx.abort = true → ctx.hasResponse = true

theorem Effect.abortAnswered {ctx ctx' : Context} (h : Effect ctx ctx')
    (hctx : AbortAnswered ctx) : AbortAnswered ctx' := by
  cases h with
  | same => exact hctx
  | answered msg => exact fun _ => rfl
  | answeredRaw raw => exact fun _ => rfl
  | responded msg => exact fun _ => rfl
  | tagged tags => exact hctx
  | asked edns => exact hctx

/-- **A run that is stopped has a response.** -/
theorem Flow.abortAnswered (h : Flow codec w fragment path ctx cs ctx')
    (hctx : AbortAnswered ctx) : AbortAnswered ctx' := by
  induction h with
  | leaf leaf call =>
    rcases leaf_effect leaf call with ⟨-, heffect⟩ | ⟨name, -, rfl⟩
    · exact heffect.abortAnswered hctx
    · exact hctx
  | sequence _ ih => exact ih hctx
  | primary _ ih => exact ih hctx
  | secondary _ ih => exact ih hctx
  | failed => exact hctx
  | done => exact hctx
  | skipped _ ih => exact ih hctx
  | stopped _ ih => exact ih hctx
  | passed _ _ _ ih ih' => exact ih' (ih hctx)

end

section
variable {codec : Codec} {w : World}

mutual

/-- The kept calls are calls of the run. -/
theorem collect_subset {follow : LoopEnd Context → Side → Bool} (plugin : AnyPlugin)
    (path : List Nat) (ctx : Context) :
    collect codec w follow plugin path ctx ⊆ calls codec w plugin path ctx := by
  match plugin with
  | .sequence registry steps =>
    rw [calls, collect, collect]
    exact collectSteps_subset registry steps path 0 ctx
  | .fallback primary secondary threshold alwaysStandby =>
    have hp := @collect_subset follow primary (0 :: path) ctx
    have hs := @collect_subset follow secondary (1 :: path) ctx
    rw [calls, collect, collect]
    simp only [if_true]
    intro c hc
    rcases List.mem_append.mp hc with hc | hc
    · split at hc
      · exact List.mem_append_left _ (hp hc)
      · cases hc
    · split at hc
      · exact List.mem_append_right _ (hs hc)
      · cases hc
  | .cache _ | .forward _ | .smartForward .. | .reject _ | .log | .hosts _ | .geoSite _ | .geoIp _
  | .matcher _ | .ecs _ | .fakeIp | .dns64 _ | .dnssec | .adBlock _ | .ipv6Filter _ | .dga _
  | .ipMatcher _ | .smartResolve | .aliApi | .rateLimit | .ttl _ =>
    rw [calls, collect_leaf rfl, collect_leaf rfl]
    exact List.Subset.refl _

theorem collectSteps_subset {follow : LoopEnd Context → Side → Bool}
    (registry : String → Option MatcherPlugin) (steps : List Step) (path : List Nat) (i : Nat)
    (ctx : Context) :
    collectSteps codec w follow registry steps path i ctx ⊆
      collectSteps codec w (fun _ _ => true) registry steps path i ctx := by
  match steps with
  | [] =>
    rw [collectSteps]
    exact List.nil_subset _
  | .mk conditions plugin :: rest =>
    rcases handleSteps_cases codec w registry conditions plugin path i ctx with
      hskip | ⟨hmatch, hstop | ⟨ctx₁, hcall, hgo⟩⟩
    · rw [collectSteps_skip rest hskip, collectSteps_skip rest hskip]
      exact collectSteps_subset registry rest path (i + 1) ctx
    · rw [collectSteps_stop rest hmatch hstop, collectSteps_stop rest hmatch hstop]
      exact collect_subset plugin (i :: path) ctx
    · rw [collectSteps_go rest hmatch hcall hgo, collectSteps_go rest hmatch hcall hgo]
      exact List.append_subset.mpr
        ⟨List.subset_append_of_subset_left _ (collect_subset plugin (i :: path) ctx),
          List.subset_append_of_subset_right _
            (collectSteps_subset registry rest path (i + 1) ctx₁)⟩

end

/-- What is kept was called. -/
theorem kept_subset (plugin : AnyPlugin) (path : List Nat) (ctx : Context) :
    kept codec w plugin path ctx ⊆ calls codec w plugin path ctx := collect_subset plugin path ctx

end

end TitanDns
