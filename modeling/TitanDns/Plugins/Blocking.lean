import TitanDns.Plugins.Calls

/-!
# What follows a blocking step

`AdBlockPlugin` and `Ipv6FilterPlugin` put the block response into the context but, unlike the
other plugins that refuse a query, do not set `abort`; the steps that follow see the query.

* `LeavesResponse` — a call that does not answer: what it finds, without answers, it leaves there.
* `BlocksWith`, `BlockedIn` — a call that decides to block, and a run that makes one, in whatever
  sequence or branch.
* `Chained` — the kept calls of a run, each made with the response the one before it left;
  `Flow.chained` — **those of every run are.**
* `Prevails` — the last of them that answers is the block itself, or answers the same.
* `blocking_final_iff` — **exactly then the block response is the one left**, however long and
  however nested the sequence is.
* `blocking_overwritten` — a forward that follows resolves the blocked name.
-/

namespace TitanDns

/-! ## Effects of a call on the stop flag -/

/-- A response held as bytes comes with `abort`. -/
def Settled (ctx : Context) : Prop := ctx.rawResponse.isSome = true → ctx.abort = true

/-- A call stops the sequence, or leaves the bytes and the flag alone. -/
def Stops (ctx ctx' : Context) : Prop :=
  ctx'.abort = true ∨ ctx'.rawResponse = ctx.rawResponse ∧ ctx'.abort = ctx.abort

theorem Stops.settled {ctx ctx' : Context} (h : Stops ctx ctx') (hctx : Settled ctx) :
    Settled ctx' := by
  intro hraw
  rcases h with habort | ⟨hr, ha⟩
  · exact habort
  · rw [hr] at hraw
    rw [ha]
    exact hctx hraw

theorem Effect.stops {ctx ctx' : Context} (h : Effect ctx ctx') : Stops ctx ctx' := by
  cases h with
  | same => exact Or.inr ⟨rfl, rfl⟩
  | answered msg => exact Or.inl rfl
  | answeredRaw raw => exact Or.inl rfl
  | responded msg => exact Or.inr ⟨rfl, rfl⟩
  | tagged tags => exact Or.inr ⟨rfl, rfl⟩
  | asked edns => exact Or.inr ⟨rfl, rfl⟩

section
variable {codec : Codec}

/-- **No plugin leaves bytes without `abort`.** -/
theorem call_stops {w : World} {plugin : AnyPlugin} {path : List Nat} {ctx ctx' : Context}
    {res : Except String Unit} (hleaf : plugin.composite = false)
    (h : (handle codec w plugin path ctx).handled = .returned ctx' res) : Stops ctx ctx' := by
  rcases leaf_effect hleaf h with ⟨-, heffect⟩ | ⟨name, -, rfl⟩
  · exact heffect.stops
  · exact Or.inr ⟨rfl, rfl⟩

theorem leaves_stops {w : World} {plugin : AnyPlugin} {path : List Nat} {ctx : Context}
    (hleaf : plugin.composite = false) : Stops ctx ((w path).leaves codec ctx plugin) := by
  obtain ⟨res, h⟩ := leaf_handled codec w hleaf path ctx
  exact call_stops hleaf h

/-- **Nor does the pipeline.** -/
theorem handle_settled {w : World} {plugin : AnyPlugin} {path : List Nat} {ctx ctx' : Context}
    {res : Except String Unit} (hctx : Settled ctx)
    (h : (handle codec w plugin path ctx).handled = .returned ctx' res) : Settled ctx' := by
  have hevery : Every codec w (fun _ _ _ => True) plugin path ctx :=
    every_of_forall (fun _ _ _ => trivial) plugin path ctx
  exact handle_invariant (fun _ _ _ _ _ hleaf _ hs hcall => (call_stops hleaf hcall).settled hs)
    (fun _ _ hs _ => hs) plugin path ctx ctx' res hevery hctx h

end

/-! ## Calls that leave a block response -/

section
variable {codec : Codec} {w : World} {m : Message}

/-- A call that leaves a response without answers where it is: the cache has nothing to serve, and
no responder answers. -/
def LeavesResponse (codec : Codec) (w : World) : AnyPlugin → List Nat → Context → Prop
  | .cache p, path, _ =>
    ∀ entry, (w path).found = some entry → p.lookupDecision (w path).now entry ≠ .serve
  | .forward _, path, ctx => ctx.request.query = none ∧ (w path).forward.clientBlocked = false
  | .smartForward _ _, _, ctx =>
    ctx.request.query = none ∨ ctx.rawRequest = none ∧ codec.toVec ctx.request = none
  | .reject _, _, ctx => ctx.request.query = none
  | .hosts p, _, ctx => p.createResponse codec ctx = none
  | .dga p, path, ctx =>
    DGAPlugin.byteLength (DGAPlugin.mainPart (ctx.qname codec).toLower) < p.minLen ∨
      (w path).entropyAbove (DGAPlugin.mainPart (ctx.qname codec).toLower) = false ∨
      p.dryRun = true
  | .smartResolve, path, ctx =>
    (w path).smartResolve.forwarded = none ∧
      (SmartResolvePlugin.probed ctx.request = false ∨ (w path).smartResolve.gathered = none ∨
        (w path).smartResolve.gathered = some [])
  | .aliApi, path, ctx => ctx.request.query = none ∨ ∃ e, (w path).aliApi = .error e
  | .rateLimit, path, _ => (w path).shouldLimit = false
  | _, _, _ => True

/-- The response of the context is `m`, as a message. -/
structure Holds (m : Message) (ctx : Context) : Prop where
  response : ctx.response = some m
  rawResponse : ctx.rawResponse = none

theorem Holds.kept {ctx ctx' : Context} (h : Holds m ctx) (hkept : ctx.Kept ctx') : Holds m ctx' :=
  ⟨hkept.response.trans h.response, hkept.rawResponse.trans h.rawResponse⟩

theorem Holds.isSome {ctx : Context} (h : Holds m ctx) : ctx.response.isSome = true := by
  rw [h.response]
  rfl

theorem cache_leaves {p : CachePlugin} {path : List Nat} {ctx : Context}
    (h : LeavesResponse codec w (.cache p) path ctx) :
    ctx.Kept (p.handleWith codec (w path).now (w path).found ctx) := by
  unfold CachePlugin.handleWith
  split
  · exact Context.Kept.refl ctx
  · split
    · exact ⟨rfl, rfl, rfl⟩
    · rename_i entry hfound
      split
      · rename_i hserve
        exact absurd hserve (h entry hfound)
      · exact ⟨rfl, rfl, rfl⟩
      · exact ⟨rfl, rfl, rfl⟩

theorem forward_leaves {p : ForwardPlugin} {path : List Nat} {ctx : Context}
    (h : LeavesResponse codec w (.forward p) path ctx) :
    ctx.Kept (p.handle codec (w path).forward ctx).1 := by
  unfold ForwardPlugin.handle
  rw [if_neg (by rw [h.2]; decide), h.1]
  exact Context.Kept.refl ctx

theorem smartForward_leaves {geoip : GeoIpPlugin} {ipMatcher : Option IpMatcherPlugin}
    {path : List Nat} {ctx : Context}
    (h : LeavesResponse codec w (.smartForward geoip ipMatcher) path ctx) :
    ctx.Kept (SmartForwardPlugin.handle codec (w path).smartForward ctx).1 := by
  unfold SmartForwardPlugin.handle
  rcases h with hquery | ⟨hraw, hvec⟩
  · rw [hquery]
    exact Context.Kept.refl ctx
  · rw [hraw, hvec]
    split
    · exact Context.Kept.refl ctx
    · exact Context.Kept.refl ctx

theorem dga_leaves {p : DGAPlugin} {path : List Nat} {ctx : Context}
    (h : LeavesResponse codec w (.dga p) path ctx) :
    ctx.Kept (p.handle codec (w path).entropyAbove ctx) := by
  unfold DGAPlugin.handle
  simp only
  split
  · exact Context.Kept.refl ctx
  · rename_i hlen
    split
    · rename_i habove
      split
      · exact Context.Kept.refl ctx
      · rename_i hdry
        rcases h with h | h | h
        · exact absurd h hlen
        · rw [h] at habove
          cases habove
        · exact absurd h hdry
    · exact Context.Kept.refl ctx

theorem smartResolve_leaves {path : List Nat} {ctx : Context}
    (h : LeavesResponse codec w .smartResolve path ctx) :
    ctx.Kept (SmartResolvePlugin.handle (w path).smartResolve ctx) := by
  have hforward : SmartResolvePlugin.fallbackForward (w path).smartResolve ctx = ctx := by
    rw [SmartResolvePlugin.fallbackForward, h.1]
  unfold SmartResolvePlugin.handle
  rw [hforward]
  split
  · rename_i hprobed
    rcases h.2 with h | h | h
    · rw [h] at hprobed
      cases hprobed
    · rw [h]
      exact Context.Kept.refl ctx
    · rw [h]
      exact Context.Kept.refl ctx
  · exact Context.Kept.refl ctx

theorem aliApi_leaves {path : List Nat} {ctx : Context}
    (h : LeavesResponse codec w .aliApi path ctx) :
    ctx.Kept (AliApiPlugin.handle (w path).aliApi ctx).1 := by
  unfold AliApiPlugin.handle
  rcases h with hquery | ⟨e, he⟩
  · rw [hquery]
    exact Context.Kept.refl ctx
  · rw [he]
    split
    · exact Context.Kept.refl ctx
    · exact Context.Kept.refl ctx

/-- **Such a call keeps the response.** -/
theorem call_leaves (hm : m.answers = []) {plugin : AnyPlugin} {path : List Nat} {ctx : Context}
    (hleaf : plugin.composite = false) (hok : LeavesResponse codec w plugin path ctx)
    (hctx : Holds m ctx) : Holds m ((w path).leaves codec ctx plugin) := by
  cases plugin with
  | sequence => cases hleaf
  | fallback => cases hleaf
  | cache p => exact hctx.kept (cache_leaves hok)
  | forward p => exact hctx.kept (forward_leaves hok)
  | smartForward => exact hctx.kept (smartForward_leaves hok)
  | reject p =>
    show Holds m (p.handle ctx)
    rw [RejectPlugin.handle, show ctx.request.query = none from hok]
    exact hctx
  | log => exact hctx
  | hosts p =>
    show Holds m (p.handle codec ctx)
    rw [HostsPlugin.handle, show p.createResponse codec ctx = none from hok]
    exact hctx
  | geoSite p => exact hctx.kept (markName_kept codec _ _ ctx)
  | geoIp p => exact hctx.kept (geoIp_kept p ctx)
  | matcher p => exact hctx.kept (markName_kept codec _ _ ctx)
  | ecs p => exact hctx.kept (ecs_kept p ctx)
  | fakeIp => exact hctx
  | dns64 p =>
    show Holds m (p.handle ctx)
    rw [dns64_noAnswers hctx.response hm]
    exact hctx
  | dnssec => exact hctx
  | adBlock p =>
    show Holds m (p.handle codec ctx)
    rw [adBlock_answered hctx.isSome]
    exact hctx
  | ipv6Filter p =>
    show Holds m (p.handle ctx)
    rw [ipv6Filter_answered hctx.isSome]
    exact hctx
  | dga p => exact hctx.kept (dga_leaves hok)
  | ipMatcher p => exact hctx.kept (ipMatcher_kept p ctx)
  | smartResolve => exact hctx.kept (smartResolve_leaves hok)
  | aliApi => exact hctx.kept (aliApi_leaves hok)
  | rateLimit =>
    show Holds m (RateLimitPlugin.handle (w path).shouldLimit ctx)
    rw [RateLimitPlugin.handle, if_neg (by rw [hok]; decide)]
    exact hctx
  | ttl p => exact hctx.kept (ttl_noAnswers hctx.response hm)

/-! ## Calls that block -/

/-- The call decides to block with `m`. -/
inductive BlocksWith (codec : Codec) (m : Message) : CallSite → Prop where
  | adBlock {b : AdBlockPlugin} {path : List Nat} {ctx : Context} {query : Question}
      (blocks : b.Blocks codec ctx query) (response : m = AdBlockPlugin.blocked ctx.request query) :
      BlocksWith codec m ⟨.adBlock b, path, ctx⟩
  | ipv6Filter {f : Ipv6FilterPlugin} {path : List Nat} {ctx : Context} {query : Question}
      (suppresses : f.Suppresses ctx query)
      (response : m = Ipv6FilterPlugin.suppressed ctx.request query) :
      BlocksWith codec m ⟨.ipv6Filter f, path, ctx⟩

/-- In the run a call decides to block with `m`, be it in a branch whose context is dropped. -/
def BlockedIn (codec : Codec) (w : World) (plugin : AnyPlugin) (path : List Nat) (ctx : Context)
    (m : Message) : Prop := ∃ c ∈ calls codec w plugin path ctx, BlocksWith codec m c

theorem BlocksWith.noAnswers {c : CallSite} (h : BlocksWith codec m c) : m.answers = [] := by
  cases h with
  | adBlock _ response => rw [response]; rfl
  | ipv6Filter _ response => rw [response]; rfl

/-- The context that a call leaves, read off its plugin. -/
theorem CallSite.after_leaf {c : CallSite} (hleaf : c.plugin.composite = false) :
    c.after codec w = (w c.path).leaves codec c.ctx c.plugin := by
  obtain ⟨res, h⟩ := leaf_handled codec w hleaf c.path c.ctx
  exact after_of_returned h

/-- A block puts its response into a context that holds no bytes. -/
theorem BlocksWith.after {c : CallSite} (h : BlocksWith codec m c)
    (hraw : c.ctx.rawResponse = none) : Holds m (c.after codec w) := by
  cases h with
  | @adBlock b path ctx query blocks response =>
    rw [CallSite.after_leaf rfl]
    show Holds m (b.handle codec ctx)
    rw [adBlock_ok blocks, response]
    exact ⟨rfl, hraw⟩
  | @ipv6Filter f path ctx query suppresses response =>
    rw [CallSite.after_leaf rfl]
    show Holds m (f.handle ctx)
    rw [ipv6Filter_ok suppresses, response]
    exact ⟨rfl, hraw⟩

theorem Holds.unkept {ctx ctx' : Context} (h : Holds m ctx') (hkept : ctx.Kept ctx') :
    Holds m ctx :=
  ⟨hkept.response.symm.trans h.response, hkept.rawResponse.symm.trans h.rawResponse⟩

/-- What `DNS64` synthesizes has answers. -/
theorem dns64_held (hm : m.answers = []) {d : Dns64Plugin} {ctx : Context}
    (h : Holds m (d.handle ctx)) : Holds m ctx := by
  unfold Dns64Plugin.handle at h
  split at h
  · split at h
    · exact h
    · rename_i response _
      split at h
      · exact h
      · split at h
        · exact h
        · rename_i hrecords
          obtain rfl := Option.some.inj h.response
          exact absurd (by simpa [Dns64Plugin.synthesized] using hm) hrecords
  · exact h

theorem ttl_held (hm : m.answers = []) {t : TtlPlugin} {ctx : Context}
    (h : Holds m (t.handle ctx)) : Holds m ctx := by
  refine ⟨?_, h.rawResponse⟩
  have hresponse := h.response
  unfold TtlPlugin.handle at hresponse
  cases hr : ctx.response with
  | none =>
    rw [hr] at hresponse
    cases hresponse
  | some resp =>
    rw [hr] at hresponse
    obtain rfl := Option.some.inj hresponse
    have hnone : resp.answers = [] := List.map_eq_nil_iff.mp hm
    cases resp
    simp only at hnone
    subst hnone
    rfl

theorem adBlock_held {b : AdBlockPlugin} {path : List Nat} {ctx : Context}
    (h : Holds m (b.handle codec ctx)) :
    Holds m ctx ∨ BlocksWith codec m ⟨.adBlock b, path, ctx⟩ := by
  unfold AdBlockPlugin.handle at h
  split at h
  · exact Or.inl h
  · rename_i hanswered
    split at h
    · exact Or.inl h
    · rename_i query hquery
      split at h
      · rename_i hlisted
        have hnone : ctx.response = none := by simpa using hanswered
        exact Or.inr (.adBlock ⟨hnone, hquery, hlisted⟩ (Option.some.inj h.response).symm)
      · exact Or.inl h

theorem ipv6Filter_held {f : Ipv6FilterPlugin} {path : List Nat} {ctx : Context}
    (h : Holds m (f.handle ctx)) :
    Holds m ctx ∨ BlocksWith codec m ⟨.ipv6Filter f, path, ctx⟩ := by
  unfold Ipv6FilterPlugin.handle at h
  split at h
  · exact Or.inl h
  · rename_i hactive
    split at h
    · exact Or.inl h
    · rename_i query hquery
      split at h
      · rename_i hmode
        split at h
        · rename_i htype
          have hnone : ctx.response = none := by
            rw [Bool.or_eq_true, not_or] at hactive
            simpa using hactive.1
          exact Or.inr (.ipv6Filter ⟨hnone, hmode, hquery, htype⟩ (Option.some.inj h.response).symm)
        · exact Or.inl h
      · exact Or.inl h
      · exact Or.inl h
      · exact Or.inl h

/-- **A response found behind a call that does not answer was there before, or the call
blocked.** -/
theorem call_held (hm : m.answers = []) {c : CallSite} (hleaf : c.plugin.composite = false)
    (hok : LeavesResponse codec w c.plugin c.path c.ctx) (h : Holds m (c.after codec w)) :
    Holds m c.ctx ∨ BlocksWith codec m c := by
  rw [CallSite.after_leaf hleaf] at h
  obtain ⟨plugin, path, ctx⟩ := c
  cases plugin with
  | sequence => cases hleaf
  | fallback => cases hleaf
  | cache p => exact Or.inl (h.unkept (cache_leaves hok))
  | forward p => exact Or.inl (h.unkept (forward_leaves hok))
  | smartForward => exact Or.inl (h.unkept (smartForward_leaves hok))
  | reject p =>
    have hquery : ctx.request.query = none := hok
    simp only [StepEnv.leaves, RejectPlugin.handle, hquery] at h
    exact Or.inl h
  | log => exact Or.inl h
  | hosts p =>
    have hnone : p.createResponse codec ctx = none := hok
    simp only [StepEnv.leaves, HostsPlugin.handle, hnone] at h
    exact Or.inl h
  | geoSite p => exact Or.inl (h.unkept (markName_kept codec _ _ ctx))
  | geoIp p => exact Or.inl (h.unkept (geoIp_kept p ctx))
  | matcher p => exact Or.inl (h.unkept (markName_kept codec _ _ ctx))
  | ecs p => exact Or.inl (h.unkept (ecs_kept p ctx))
  | fakeIp => exact Or.inl h
  | dns64 p => exact Or.inl (dns64_held hm h)
  | dnssec => exact Or.inl h
  | adBlock p => exact adBlock_held h
  | ipv6Filter p => exact ipv6Filter_held h
  | dga p => exact Or.inl (h.unkept (dga_leaves hok))
  | ipMatcher p => exact Or.inl (h.unkept (ipMatcher_kept p ctx))
  | smartResolve => exact Or.inl (h.unkept (smartResolve_leaves hok))
  | aliApi => exact Or.inl (h.unkept (aliApi_leaves hok))
  | rateLimit =>
    have hlimit : (w path).shouldLimit = false := hok
    simp only [StepEnv.leaves, RateLimitPlugin.handle, hlimit, Bool.false_eq_true, if_false] at h
    exact Or.inl h
  | ttl p => exact Or.inl (ttl_held hm h)

/-! ## The kept calls, one after another -/

/-- Each call is made with the response and the stop flag that the one before it left, `ctx` at
first, and the flag is not set. -/
def Chained (codec : Codec) (w : World) : Context → List CallSite → Prop
  | _, [] => True
  | ctx, c :: cs =>
    c.plugin.composite = false ∧ ctx.SameAnswer c.ctx ∧ c.ctx.abort = false ∧
      Chained codec w (c.after codec w) cs

theorem Chained.congr {a b : Context} (h : a.SameAnswer b) {cs : List CallSite}
    (hcs : Chained codec w b cs) : Chained codec w a cs := by
  cases cs with
  | nil => trivial
  | cons c cs => exact ⟨hcs.1, h.trans hcs.2.1, hcs.2.2⟩

theorem lastAfter_cons (ctx : Context) (c : CallSite) (cs : List CallSite) :
    lastAfter codec w ctx (c :: cs) = lastAfter codec w (c.after codec w) cs :=
  lastAfter_append ctx [c] cs

theorem Chained.append {ctx : Context} {cs cs' : List CallSite} (h : Chained codec w ctx cs)
    (h' : Chained codec w (lastAfter codec w ctx cs) cs') : Chained codec w ctx (cs ++ cs') := by
  induction cs generalizing ctx with
  | nil => exact h'
  | cons c cs ih =>
    rw [lastAfter_cons] at h'
    exact ⟨h.1, h.2.1, h.2.2.1, ih h.2.2.2 h'⟩

theorem Chained.drop {ctx : Context} (before : List CallSite) {cs : List CallSite}
    (h : Chained codec w ctx (before ++ cs)) :
    Chained codec w (lastAfter codec w ctx before) cs := by
  induction before generalizing ctx with
  | nil => exact h
  | cons c before ih =>
    rw [lastAfter_cons]
    exact ih h.2.2.2

/-- **The kept calls of a run are chained.** -/
theorem Flow.chained {fragment : Fragment} {path : List Nat} {ctx ctx' : Context}
    {cs : List CallSite} (h : Flow codec w fragment path ctx cs ctx') (hgo : ctx.abort = false) :
    Chained codec w ctx cs := by
  induction h with
  | leaf leaf call => exact ⟨leaf, ⟨rfl, rfl, rfl⟩, hgo, trivial⟩
  | sequence _ ih => exact ih hgo
  | primary _ ih => exact ih hgo
  | secondary _ ih => exact ih hgo
  | failed => trivial
  | done => trivial
  | skipped _ ih => exact ih hgo
  | stopped _ ih => exact ih hgo
  | passed inner goOn _ ih ih' => exact (ih hgo).append ((ih' goOn).congr inner.final)

/-! ## The response left -/

/-- The call puts `m` into the context: it blocks with it, or it answers, and so. -/
def Puts (codec : Codec) (w : World) (m : Message) (c : CallSite) : Prop :=
  BlocksWith codec m c ∨
    ¬ LeavesResponse codec w c.plugin c.path c.ctx ∧ Holds m (c.after codec w)

/-- Of the calls, one puts `m` into the context, and no later one answers. -/
def Prevails (codec : Codec) (w : World) (m : Message) (cs : List CallSite) : Prop :=
  ∃ before c after, cs = before ++ c :: after ∧ Puts codec w m c ∧
    ∀ d ∈ after, LeavesResponse codec w d.plugin d.path d.ctx

theorem Prevails.cons {c : CallSite} {cs : List CallSite} (h : Prevails codec w m cs) :
    Prevails codec w m (c :: cs) := by
  obtain ⟨before, d, after, rfl, hputs, hleft⟩ := h
  exact ⟨c :: before, d, after, rfl, hputs, hleft⟩

theorem Holds.congr {a b : Context} (h : a.SameAnswer b) (hb : Holds m b) : Holds m a :=
  ⟨h.response.symm.trans hb.response, h.rawResponse.symm.trans hb.rawResponse⟩

theorem Holds.congr' {a b : Context} (h : a.SameAnswer b) (ha : Holds m a) : Holds m b :=
  ⟨h.response.trans ha.response, h.rawResponse.trans ha.rawResponse⟩

/-- **Calls that do not answer leave the response.** -/
theorem Chained.left (hm : m.answers = []) {ctx : Context} {cs : List CallSite}
    (hcs : Chained codec w ctx cs)
    (hleft : ∀ c ∈ cs, LeavesResponse codec w c.plugin c.path c.ctx) (h : Holds m ctx) :
    Holds m (lastAfter codec w ctx cs) := by
  induction cs generalizing ctx with
  | nil => exact h
  | cons c cs ih =>
    obtain ⟨hleaf, hsame, -, hrest⟩ := hcs
    have hafter : Holds m (c.after codec w) := by
      rw [CallSite.after_leaf hleaf]
      exact call_leaves hm hleaf (hleft c List.mem_cons_self) (h.congr' hsame)
    rw [lastAfter_cons]
    exact ih hrest (fun d hd => hleft d (List.mem_cons_of_mem _ hd)) hafter

/-- **The response at the end was there at the start, or a call has put it there.** -/
theorem Chained.held (hm : m.answers = []) {ctx : Context} {cs : List CallSite}
    (hcs : Chained codec w ctx cs) (h : Holds m (lastAfter codec w ctx cs)) :
    (Holds m ctx ∧ ∀ c ∈ cs, LeavesResponse codec w c.plugin c.path c.ctx) ∨
      Prevails codec w m cs := by
  induction cs generalizing ctx with
  | nil => exact Or.inl ⟨h, fun c hc => (by cases hc)⟩
  | cons c cs ih =>
    obtain ⟨hleaf, hsame, -, hrest⟩ := hcs
    rw [lastAfter_cons] at h
    rcases ih hrest h with ⟨hafter, hleft⟩ | hprevails
    · by_cases hok : LeavesResponse codec w c.plugin c.path c.ctx
      · rcases call_held hm hleaf hok hafter with hctx | hblocks
        · exact Or.inl ⟨hctx.congr hsame, List.forall_mem_cons.mpr ⟨hok, hleft⟩⟩
        · exact Or.inr ⟨[], c, cs, rfl, Or.inl hblocks, hleft⟩
      · exact Or.inr ⟨[], c, cs, rfl, Or.inr ⟨hok, hafter⟩, hleft⟩
    · exact Or.inr hprevails.cons

/-- No call of the chain finds bytes: they would have come with `abort`. -/
theorem Chained.noBytes {ctx : Context} {cs : List CallSite} (hcs : Chained codec w ctx cs)
    (hctx : Settled ctx) : ∀ c ∈ cs, c.ctx.rawResponse = none := by
  induction cs generalizing ctx with
  | nil => exact fun c hc => (by cases hc)
  | cons c cs ih =>
    obtain ⟨hleaf, hsame, hgo, hrest⟩ := hcs
    have hsettled : Settled c.ctx := by
      intro h
      rw [hsame.rawResponse] at h
      rw [hsame.abort]
      exact hctx h
    have hafter : Settled (c.after codec w) := by
      rw [CallSite.after_leaf hleaf]
      exact (leaves_stops hleaf).settled hsettled
    refine List.forall_mem_cons.mpr ⟨?_, ih hrest hafter⟩
    cases hr : c.ctx.rawResponse with
    | none => rfl
    | some raw =>
      have := hsettled (by rw [hr]; rfl)
      rw [hgo] at this
      cases this

/-- What prevails is the response at the end. -/
theorem Prevails.holds (hm : m.answers = []) {ctx : Context} {cs : List CallSite}
    (h : Prevails codec w m cs) (hcs : Chained codec w ctx cs) (hctx : Settled ctx) :
    Holds m (lastAfter codec w ctx cs) := by
  obtain ⟨before, c, after, rfl, hputs, hleft⟩ := h
  have hraw := hcs.noBytes hctx c (List.mem_append_right _ List.mem_cons_self)
  have hafter : Holds m (c.after codec w) := by
    rcases hputs with hblocks | ⟨-, hheld⟩
    · exact hblocks.after hraw
    · exact hheld
  rw [lastAfter_append, lastAfter_cons]
  exact (hcs.drop before).2.2.2.left hm hleft hafter

/-- **Exactly when blocking is final.**  In a run that makes a call that blocks, the block response
is the one left if and only if, on the way to the context returned, it is the last one put there. -/
theorem blocking_final_iff (codec : Codec) (w : World) (registry : String → Option MatcherPlugin)
    (steps : List Step) (path : List Nat) (ctx ctx' : Context) (m : Message)
    (res : Except String Unit) (hfresh : ctx.hasResponse = false) (hgo : ctx.abort = false)
    (hblock : BlockedIn codec w (.sequence registry steps) path ctx m)
    (h : (handle codec w (.sequence registry steps) path ctx).handled = .returned ctx' res) :
    (ctx'.response = some m ∧ ctx'.rawResponse = none) ↔
      Prevails codec w m (kept codec w (.sequence registry steps) path ctx) := by
  obtain ⟨c, -, hblocks⟩ := hblock
  have hm := hblocks.noAnswers
  have hflow := handle_flow _ _ _ _ _ h
  have hchain := hflow.chained hgo
  obtain ⟨hresponse, hraw⟩ := Bool.or_eq_false_iff.mp hfresh
  constructor
  · rintro ⟨hr, hb⟩
    rcases hchain.held hm (Holds.congr hflow.final ⟨hr, hb⟩) with ⟨hctx, -⟩ | hprevails
    · -- nothing is there at the start
      rw [hctx.isSome] at hresponse
      cases hresponse
    · exact hprevails
  · intro hprevails
    have hsettled : Settled ctx := fun hsome => by
      rw [hraw] at hsome
      cases hsome
    have hheld := (hprevails.holds hm hchain hsettled).congr' hflow.final
    exact ⟨hheld.response, hheld.rawResponse⟩

end

/-! ## A blocked name -/

/-- A list with `www.example.com`. -/
def exampleList : AdBlockPlugin := ⟨⟨["www.example.com"], []⟩, ⟨[], []⟩⟩

/-- The query for `www.example.com` from a client. -/
def exampleContext : Context := .new exampleRequest (.v4 ⟨10, 0, 0, 2⟩)

theorem exampleList_blocks : exampleList.Blocks exampleCodec exampleContext exampleQuestion :=
  ⟨rfl, rfl, by decide +kernel⟩

/-- The context once it is blocked. -/
def exampleBlocked : Context :=
  { exampleContext with response := some (AdBlockPlugin.blocked exampleRequest exampleQuestion) }

/-- A world in which every upstream answers. -/
def answeringWorld : World := fun _ => .uniform 50 (.ok exampleAnswer)

theorem exampleList_call (path : List Nat) :
    (handle exampleCodec answeringWorld (.adBlock exampleList) path exampleContext).handled =
      .returned exampleBlocked (.ok ()) := by
  rw [handle, adBlock_ok exampleList_blocks]
  rfl

/-- A block, then a fallback whose first branch leaves it and whose second one would answer. -/
def guardedSteps : List Step :=
  [.mk [] (.adBlock exampleList), .mk [] (.fallback .log (.forward singleForward) 100 false)]

theorem guarded_returned :
    (handle exampleCodec answeringWorld (.sequence (fun _ => none) guardedSteps) []
      exampleContext).handled = .returned exampleBlocked (.ok ()) := by
  rw [handle, guardedSteps, handleSteps_go _ rfl (exampleList_call [0]) rfl]
  rfl

theorem blocking_final_guarded :
    (exampleBlocked.response = some (AdBlockPlugin.blocked exampleRequest exampleQuestion) ∧
        exampleBlocked.rawResponse = none) ↔
      Prevails exampleCodec answeringWorld (AdBlockPlugin.blocked exampleRequest exampleQuestion)
        (kept exampleCodec answeringWorld (.sequence (fun _ => none) guardedSteps) []
          exampleContext) :=
  blocking_final_iff exampleCodec answeringWorld (fun _ => none) guardedSteps [] exampleContext
    exampleBlocked (AdBlockPlugin.blocked exampleRequest exampleQuestion) (.ok ()) rfl rfl
    ⟨⟨.adBlock exampleList, [0], exampleContext⟩, List.mem_cons_self,
      .adBlock exampleList_blocks rfl⟩ guarded_returned

/-- **A forward that follows resolves the blocked name.** -/
theorem blocking_overwritten :
    exampleList.Blocks exampleCodec exampleContext exampleQuestion ∧
    ((handle exampleCodec answeringWorld
        (.sequence (fun _ => none) [.mk [] (.adBlock exampleList), .mk [] (.forward singleForward)])
        [] exampleContext).handled.context?.bind (·.response)) = some exampleAnswer := by
  refine ⟨exampleList_blocks, ?_⟩
  rw [handle, handleSteps_go _ rfl (exampleList_call [0]) rfl]
  decide

end TitanDns
