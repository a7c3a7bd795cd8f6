import TitanDns.Server.Process

/-!
# Poisoned answers

`ForwardPlugin::on_response` looks for known poison, but a forward never registers itself, and
what it does on finding some is to change the response code.

* `CallSite.obtained` — the upstream response a forward step of the run obtained.
* `PoisonStopped` — whatever the order of the hooks, a poison address in it reaches neither the
  client nor a cache.
* `poison_stopped_iff` — **it is stopped only where nothing is sent and nothing is stored anyway.**
* `poison_served` — an answer with `93.46.8.89`.
-/

namespace TitanDns

/-- The bytes encode a message with the address. -/
def BytesCarry (codec : Codec) (bytes : List UInt8) (ip : IpAddr) : Prop :=
  ∃ m, codec.toVec m = some bytes ∧ ip ∈ m.ips

/-- What a response becomes in the context: its TTLs raised, with the ID of the request. -/
def Context.adopted (ctx : Context) (msg : Message) : Message :=
  let msg := if 0 < ctx.minTtl then
    { msg with answers := msg.answers.map (Context.raiseTtl ctx.minTtl) } else msg
  { msg with id := ctx.request.id }

section
variable (codec : Codec) (w : World)

/-- The upstream response that a call obtained, if it is one of a forward. -/
def CallSite.obtained (c : CallSite) : Option Message :=
  match c.plugin with
  | .forward f =>
    if (w c.path).forward.clientBlocked then none
    else
      match c.ctx.request.query with
      | none => none
      | some _ =>
        (f.execute codec (w c.path).forward c.ctx.request (c.ctx.rawRequest.map (·.raw))).toOption
  | _ => none

/-- The response that such a call leaves. -/
def CallSite.answer (c : CallSite) (m : Message) : Message :=
  c.ctx.adopted { m with id := c.ctx.request.id }

/-- A poison address that a forward step of the run obtained is in no bytes sent and in no entry
stored, whatever the order of the hooks. -/
def PoisonStopped (caches : CacheRegistry) (env : Nat → HookEnv) (entry : AnyPlugin)
    (ctx ctx' : Context) : Prop :=
  ∀ c ∈ kept codec w entry [] ctx, ∀ m, c.obtained codec w = some m →
    ∀ ip ∈ m.ips, isKnownPoisonIp ip = true →
      ∀ hooks, hooks.Perm (caches.hooksOf ctx') →
        (∀ bytes, (respond codec env hooks ctx').bytes = some bytes →
          ¬ BytesCarry codec bytes ip) ∧
        ∀ e ∈ (respond codec env hooks ctx').stored, ip ∉ e.write.entry.message.ips

end

section
variable {codec : Codec} {w : World}

/-- Raising TTLs and setting an ID leaves the addresses. -/
theorem adopted_ips (ctx : Context) (msg : Message) : (ctx.adopted msg).ips = msg.ips := by
  unfold Context.adopted
  split
  · have hdata : ∀ r, (Context.raiseTtl ctx.minTtl r).data = r.data := by
      intro r
      unfold Context.raiseTtl
      split
      · rfl
      · rfl
    unfold Message.ips
    simp only [recordIps_map hdata]
  · rfl

theorem CallSite.answer_ips (c : CallSite) (m : Message) : (c.answer m).ips = m.ips :=
  adopted_ips c.ctx _

/-- **A forward that obtained a response leaves it with `abort`.** -/
theorem CallSite.obtained_after {c : CallSite} {m : Message} (h : c.obtained codec w = some m) :
    (c.after codec w).response = some (c.answer m) ∧ (c.after codec w).rawResponse = none ∧
      (c.after codec w).abort = true ∧ c.ctx.request.query.isSome = true := by
  obtain ⟨plugin, path, ctx⟩ := c
  unfold CallSite.obtained at h
  cases plugin with
  | forward f =>
    simp only at h
    split at h
    · cases h
    · rename_i hclient
      cases hq : ctx.request.query with
      | none =>
        rw [hq] at h
        cases h
      | some q =>
        rw [hq] at h
        simp only at h
        cases he : f.execute codec (w path).forward ctx.request (ctx.rawRequest.map (·.raw)) with
        | error e =>
          rw [he] at h
          cases h
        | ok resp =>
          rw [he] at h
          cases h
          have hafter : (⟨.forward f, path, ctx⟩ : CallSite).after codec w =
              ctx.setResponse { m with id := ctx.request.id } true := by
            have hcall : (handle codec w (.forward f) path ctx).handled =
                .returned (ctx.setResponse { m with id := ctx.request.id } true) (.ok ()) := by
              rw [handle, Call.of, ForwardPlugin.handle, if_neg hclient, hq]
              simp only [he]
            exact after_of_returned hcall
          rw [hafter]
          exact ⟨rfl, rfl, rfl, rfl⟩
  | _ => cases h

/-- What the run ends with, when a kept forward obtained a response. -/
theorem obtained_final {entry : AnyPlugin} {ctx ctx' : Context} {cs : List CallSite}
    (hflow : Flow codec w (.plugin entry) [] ctx cs ctx') {c : CallSite} (hc : c ∈ cs)
    {m : Message} (h : c.obtained codec w = some m) :
    ctx'.response = some (c.answer m) ∧ ctx'.rawResponse = none ∧
      ctx'.request.query.isSome = true := by
  obtain ⟨hresp, hraw, habort, hquery⟩ := CallSite.obtained_after h
  have hfinal := hflow.final
  have hlast := hflow.last c hc habort
  simp only [lastAfter, hlast, Option.map_some, Option.getD_some] at hfinal
  refine ⟨hfinal.response.trans hresp, hfinal.rawResponse.trans hraw, ?_⟩
  have hsame : ctx'.request.queries = c.ctx.request.queries :=
    hflow.carries.queries.trans (hflow.asked c hc).queries.symm
  unfold Message.query at hquery ⊢
  rw [hsame]
  exact hquery

/-- A cache writes for a response to a query whenever it has an entry for it. -/
theorem onResponse_of_entry {c : CachePlugin} {clocks : Clocks} {ctx : Context} {resp : Message}
    {entry : CachedEntry} (hquery : ctx.request.query.isSome = true)
    (hresp : ctx.response = some resp) (hentry : c.entryFor codec clocks.now resp = some entry) :
    ∃ write, c.onResponse codec clocks ctx = some write ∧ write.entry = entry := by
  obtain ⟨q, hq⟩ := Option.isSome_iff_exists.mp hquery
  unfold CachePlugin.onResponse
  simp only [hq, hresp, hentry, Option.map_some]
  exact ⟨_, rfl, rfl⟩

/-- An unencodable response has no bytes, so only a missing lifetime keeps it out. -/
theorem entryFor_unencodable {c : CachePlugin} {now : Nat} {resp : Message}
    (h : codec.toVec resp = none) :
    c.entryFor codec now resp = none ↔ c.calculateTtl resp = 0 := by
  have hempty : CachePlugin.encoded codec resp = [] := by
    unfold CachePlugin.encoded
    rw [h]
    rfl
  unfold CachePlugin.entryFor
  rw [hempty]
  simp

/-- **A cache stores an unencodable response that has a lifetime in it.** -/
theorem stored_of_lifetime (env : Nat → HookEnv) {hooks : List AnyPlugin}
    (hcaches : ∀ hook ∈ hooks, ∃ c, hook = .cache c) {ctx : Context} {resp : Message}
    (hquery : ctx.request.query.isSome = true) (hresp : ctx.response = some resp)
    (hvec : codec.toVec resp = none) {c : CachePlugin} (hc : .cache c ∈ hooks)
    (hlife : c.calculateTtl resp ≠ 0) :
    ∃ e ∈ (runHooks codec env hooks ctx).2, e.write.entry.message = resp := by
  obtain ⟨i, hi⟩ := runHooks_stores codec env hcaches ctx hc
  cases hentry : c.entryFor codec (env i).clocks.now resp with
  | none => exact absurd ((entryFor_unencodable hvec).mp hentry) hlife
  | some entry =>
    obtain ⟨write, hwrite, rfl⟩ := onResponse_of_entry hquery hresp hentry
    obtain ⟨-, -, heq⟩ := CachePlugin.entryFor_some hentry
    refine ⟨_, hi _ hwrite, ?_⟩
    show write.entry.message = resp
    rw [heq]
    rfl

/-- What is stored of it has one. -/
theorem lifetime_of_stored {env : Nat → HookEnv} {hooks : List AnyPlugin}
    (hcaches : ∀ hook ∈ hooks, ∃ c, hook = .cache c) {ctx : Context} {resp : Message}
    (hresp : ctx.response = some resp) (hvec : codec.toVec resp = none) {e : Stored}
    (he : e ∈ (runHooks codec env hooks ctx).2) :
    ∃ c, .cache c ∈ hooks ∧ c.calculateTtl resp ≠ 0 := by
  obtain ⟨c, i, write, hc, hwrite, -⟩ := mem_runHooks_caches hcaches he
  obtain ⟨q, resp', entry, -, hresp', hentry, -⟩ := CachePlugin.onResponse_some hwrite
  rw [hresp] at hresp'
  cases hresp'
  refine ⟨c, hc, fun hzero => ?_⟩
  rw [(entryFor_unencodable hvec).mpr hzero] at hentry
  cases hentry

/-- With caches alone as hooks, the response is sent as it is. -/
theorem respond_caches {env : Nat → HookEnv} {hooks : List AnyPlugin}
    (hcaches : ∀ hook ∈ hooks, ∃ c, hook = .cache c) {ctx : Context} {resp : Message}
    (hresp : ctx.response = some resp) (hraw : ctx.rawResponse = none) :
    respond codec env hooks ctx =
      ⟨codec.toVec resp, hooks, (runHooks codec env hooks ctx).2⟩ := by
  have hhas : ctx.hasResponse = true := by
    unfold Context.hasResponse
    rw [hresp]
    rfl
  unfold respond
  simp only [hhas, if_true, runHooks_caches hcaches, Context.responseBytes, hraw, hresp]

/-- **Poison is stopped exactly where there is nothing to stop**: a kept forward that obtained some
has a response that cannot be encoded, without a lifetime in any cache that missed. -/
theorem poison_stopped_iff (codec : Codec) (w : World) (caches : CacheRegistry)
    (env : Nat → HookEnv) (entry : AnyPlugin) (data : List UInt8) (clientIp : IpAddr)
    (ctx ctx' : Context) (h : Ends codec w entry data clientIp ctx ctx') :
    PoisonStopped codec w caches env entry ctx ctx' ↔
      ∀ c ∈ kept codec w entry [] ctx, ∀ m, c.obtained codec w = some m →
        m.ips.any isKnownPoisonIp = true →
        codec.toVec (c.answer m) = none ∧
          ∀ c' ∈ kept codec w entry [] ctx, ∀ name ∈ c'.registered codec w,
            (caches.plugin name).calculateTtl (c.answer m) = 0 := by
  have hflow := h.flow
  have hnames : ∀ name, name ∈ ctx'.postProcessHooks ↔
      ∃ c' ∈ kept codec w entry [] ctx, name ∈ c'.registered codec w := by
    intro name
    rw [hflow.hooks, h.fresh.1, List.nil_append, List.mem_flatMap]
  constructor
  · intro hstop c hc m hm hpoison
    obtain ⟨ip, hip, hpoison⟩ := List.any_eq_true.mp hpoison
    obtain ⟨hresp, hraw, hquery⟩ := obtained_final hflow hc hm
    have hshown : ip ∈ (c.answer m).ips := by rwa [c.answer_ips]
    have hcaches := hooksOf_caches caches ctx'
    obtain ⟨hbytes, hstored⟩ := hstop c hc m hm ip hip hpoison _ (List.Perm.refl _)
    rw [respond_caches hcaches hresp hraw] at hbytes hstored
    have hvec : codec.toVec (c.answer m) = none := by
      cases hvec : codec.toVec (c.answer m) with
      | none => rfl
      | some bytes => exact absurd ⟨c.answer m, hvec, hshown⟩ (hbytes bytes hvec)
    refine ⟨hvec, fun c' hc' name hname => ?_⟩
    by_contra hlife
    have hhook : .cache (caches.plugin name) ∈ caches.hooksOf ctx' :=
      List.mem_map.mpr ⟨name, (hnames name).mpr ⟨c', hc', hname⟩, rfl⟩
    obtain ⟨e, he, hmessage⟩ := stored_of_lifetime env hcaches hquery hresp hvec hhook hlife
    apply hstored e he
    rw [hmessage]
    exact hshown
  · intro hcond c hc m hm ip hip hpoison hooks hperm
    obtain ⟨hresp, hraw, hquery⟩ := obtained_final hflow hc hm
    obtain ⟨hvec, hlife⟩ := hcond c hc m hm (List.any_eq_true.mpr ⟨ip, hip, hpoison⟩)
    have hcaches : ∀ hook ∈ hooks, ∃ c, hook = .cache c := fun hook hhook =>
      hooksOf_caches caches ctx' hook (hperm.mem_iff.mp hhook)
    rw [respond_caches hcaches hresp hraw]
    refine ⟨fun bytes hbytes => ?_, fun e he => ?_⟩
    · rw [hvec] at hbytes
      cases hbytes
    · obtain ⟨c₀, hc₀, hsome⟩ := lifetime_of_stored hcaches hresp hvec he
      obtain ⟨name, hname, heq⟩ := List.mem_map.mp (hperm.mem_iff.mp hc₀)
      cases heq
      obtain ⟨c', hc', hreg⟩ := (hnames name).mp hname
      exact absurd (hlife c' hc' name hreg) hsome

end

/-- An answer without poison passes. -/
theorem poison_stopped_iff_clean :
    PoisonStopped (chainCodec ⟨192, 0, 2, 1⟩) (chainWorld ⟨192, 0, 2, 1⟩) exampleCaches quietHooks
      exampleChain startContext (missedContext.setResponse (answerWith ⟨192, 0, 2, 1⟩) true) := by
  refine (poison_stopped_iff _ _ exampleCaches quietHooks exampleChain chainData
    (.v4 ⟨10, 0, 0, 2⟩) startContext _ (chain_ends ⟨192, 0, 2, 1⟩)).mpr ?_
  intro c hc m hm hpoison
  rw [chain_kept] at hc
  simp only [List.mem_cons, List.not_mem_nil, or_false] at hc
  rcases hc with rfl | rfl
  · cases hm
  · cases hm
    revert hpoison
    decide

def poisonIp : Ipv4Addr := ⟨93, 46, 8, 89⟩

/-- **Poison is sent and cached**: the upstream answers `93.46.8.89` to a cache and a forward. -/
theorem poison_served :
    isKnownPoisonIp (.v4 poisonIp) = true ∧
    (∃ p, processRequestBytes (chainCodec poisonIp) (chainWorld poisonIp) exampleCaches quietHooks
        (some exampleChain) chainData (.v4 ⟨10, 0, 0, 2⟩) = some p ∧
      (∃ bytes, p.bytes = some bytes ∧ BytesCarry (chainCodec poisonIp) bytes (.v4 poisonIp)) ∧
      p.stored.map (·.write.entry.message) = [answerWith poisonIp]) ∧
    ¬ PoisonStopped (chainCodec poisonIp) (chainWorld poisonIp) exampleCaches quietHooks
      exampleChain startContext (missedContext.setResponse (answerWith poisonIp) true) := by
  have hcarries : ∃ bytes, (respond (chainCodec poisonIp) quietHooks
      (exampleCaches.hooksOf (missedContext.setResponse (answerWith poisonIp) true))
      (missedContext.setResponse (answerWith poisonIp) true)).bytes = some bytes ∧
        BytesCarry (chainCodec poisonIp) bytes (.v4 poisonIp) :=
    ⟨_, rfl, answerWith poisonIp, rfl, by decide⟩
  refine ⟨by decide, ⟨_, (chain_ends poisonIp).processed, hcarries, by decide +kernel⟩, ?_⟩
  intro hstop
  obtain ⟨bytes, hbytes, hcarry⟩ := hcarries
  have hclean := hstop _ (chain_forward_kept poisonIp) (answerWith poisonIp) rfl (.v4 poisonIp)
    (by decide) (by decide) _ (List.Perm.refl _)
  exact hclean.1 bytes hbytes hcarry

end TitanDns
