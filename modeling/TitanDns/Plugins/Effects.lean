import TitanDns.Plugins.Executed

/-!
# What one call does to the context

A plugin that is not composite leaves the context in one of a few ways, and everything that holds
of every call of a pipeline is read off them.

* `Effect` — the ways: a response with `abort`, a response without, tags, the client subnet.
* `registered` — the hooks a call adds: a cache adds itself on a miss.
* `leaf_effect` — **a call registers its hook and does nothing else, or has one of the effects.**
-/

namespace TitanDns

/-- How a plugin that is not composite leaves the context. -/
inductive Effect (ctx : Context) : Context → Prop where
  | same : Effect ctx ctx
  | answered (msg : Message) : Effect ctx (ctx.setResponse msg true)
  | answeredRaw (raw : ZeroCopyDnsMessage) : Effect ctx (ctx.setRawResponse raw true)
  /-- A response put in or rewritten without `abort`. -/
  | responded (msg : Message) : Effect ctx { ctx with response := some msg }
  | tagged (tags : List String) : Effect ctx { ctx with tags := tags }
  | asked (edns : Option Edns) :
    Effect ctx { ctx with request := { ctx.request with edns := edns } }

/-! ## One plugin at a time -/

theorem addTag_effect (ctx : Context) (tag : String) : Effect ctx (ctx.addTag tag) := by
  unfold Context.addTag
  split
  · exact .same
  · exact .tagged _

theorem addMark_effect (ctx : Context) (mark : Option String) :
    Effect ctx (addMark ctx mark) := by
  cases mark with
  | none => exact .same
  | some mark => exact addTag_effect ctx mark

theorem markName_effect (codec : Codec) (matchesLower : String → Bool) (mark : Option String)
    (ctx : Context) : Effect ctx (markName codec matchesLower mark ctx) := by
  unfold markName
  split
  · exact addMark_effect ctx mark
  · exact .same

/-- The plugin is to see the response: nothing usable is found. -/
def CachePlugin.misses (codec : Codec) (c : CachePlugin) (now : Nat) (found : Option CachedEntry)
    (ctx : Context) : Bool :=
  (getKey codec ctx).isSome && match found with
    | none => true
    | some entry => c.lookupDecision now entry != .serve

section
variable {codec : Codec}

theorem answerFrom_effect (ctx : Context) (entry : CachedEntry) :
    Effect ctx (CachePlugin.answerFrom ctx entry) := by
  unfold CachePlugin.answerFrom
  split
  · exact .answeredRaw _
  · exact .answered _

/-- A miss registers the plugin and does nothing else. -/
theorem handleWith_miss {c : CachePlugin} {now : Nat} {found : Option CachedEntry} {ctx : Context}
    (h : c.misses codec now found ctx = true) :
    c.handleWith codec now found ctx =
      { ctx with postProcessHooks := ctx.postProcessHooks ++ [c.name] } := by
  unfold CachePlugin.misses at h
  unfold CachePlugin.handleWith
  obtain ⟨hkey, hfound⟩ := Bool.and_eq_true_iff.mp h
  cases hk : getKey codec ctx with
  | none =>
    rw [hk] at hkey
    cases hkey
  | some key =>
    cases found with
    | none => rfl
    | some entry =>
      simp only at hfound ⊢
      cases hd : c.lookupDecision now entry with
      | serve =>
        rw [hd] at hfound
        cases hfound
      | skip => rfl
      | drop => rfl

theorem handleWith_effect {c : CachePlugin} {now : Nat} {found : Option CachedEntry}
    {ctx : Context} (h : c.misses codec now found ctx = false) :
    Effect ctx (c.handleWith codec now found ctx) := by
  unfold CachePlugin.misses at h
  unfold CachePlugin.handleWith
  cases hk : getKey codec ctx with
  | none => exact .same
  | some key =>
    cases found with
    | none =>
      rw [hk] at h
      cases h
    | some entry =>
      rw [hk] at h
      simp only at h ⊢
      cases hd : c.lookupDecision now entry with
      | serve => exact answerFrom_effect ctx entry
      | skip =>
        rw [hd] at h
        cases h
      | drop =>
        rw [hd] at h
        cases h

theorem forward_effect (f : ForwardPlugin) (env : ForwardEnv) (ctx : Context) :
    Effect ctx (f.handle codec env ctx).1 := by
  unfold ForwardPlugin.handle
  split
  · exact .answered _
  · split
    · exact .same
    · split
      · exact .answered _
      · exact .answered _

theorem smartForward_effect (outcome : SmartForwarded) (ctx : Context) :
    Effect ctx (SmartForwardPlugin.handle codec outcome ctx).1 := by
  unfold SmartForwardPlugin.handle
  split
  · exact .same
  · split
    · exact .same
    · exact .answered _

theorem reject_effect (r : RejectPlugin) (ctx : Context) : Effect ctx (r.handle ctx) := by
  unfold RejectPlugin.handle
  split
  · exact .same
  · exact .answered _

theorem hosts_effect (h : HostsPlugin) (ctx : Context) : Effect ctx (h.handle codec ctx) := by
  unfold HostsPlugin.handle
  split
  · exact .answered _
  · exact .same

theorem geoIp_effect (g : GeoIpPlugin) (ctx : Context) : Effect ctx (g.handle ctx) := by
  unfold GeoIpPlugin.handle
  split
  · exact addTag_effect ctx _
  · exact .same

theorem ipMatcher_effect (m : IpMatcherPlugin) (ctx : Context) : Effect ctx (m.handle ctx) := by
  unfold IpMatcherPlugin.handle
  split
  · exact addMark_effect ctx _
  · exact .same

/-- The client subnet is added to the request, its question stays. -/
theorem ecs_effect (e : EcsPlugin) (ctx : Context) : Effect ctx (e.handle ctx) := by
  unfold EcsPlugin.handle
  split
  · exact .asked _
  · split
    · exact .asked _
    · exact .same

theorem dns64_effect (d : Dns64Plugin) (ctx : Context) : Effect ctx (d.handle ctx) := by
  unfold Dns64Plugin.handle
  split
  · split
    · exact .same
    · split
      · exact .same
      · split
        · exact .same
        · exact .responded _
  · exact .same

theorem adBlock_effect (b : AdBlockPlugin) (ctx : Context) :
    Effect ctx (b.handle codec ctx) := by
  unfold AdBlockPlugin.handle
  split
  · exact .same
  · split
    · exact .same
    · split
      · exact .responded _
      · exact .same

theorem ipv6Filter_effect (f : Ipv6FilterPlugin) (ctx : Context) : Effect ctx (f.handle ctx) := by
  unfold Ipv6FilterPlugin.handle
  split
  · exact .same
  · split
    · exact .same
    · split
      · split
        · exact .responded _
        · exact .same
      · exact .same
      · exact .same
      · exact .same

theorem dga_effect (d : DGAPlugin) (above : List Char → Bool) (ctx : Context) :
    Effect ctx (d.handle codec above ctx) := by
  unfold DGAPlugin.handle
  simp only
  split
  · exact .same
  · split
    · split
      · exact .same
      · exact .answered _
    · exact .same

theorem fallbackForward_effect (env : SmartResolveEnv) (ctx : Context) :
    Effect ctx (SmartResolvePlugin.fallbackForward env ctx) := by
  unfold SmartResolvePlugin.fallbackForward
  split
  · exact .answered _
  · exact .same

theorem smartResolve_effect (env : SmartResolveEnv) (ctx : Context) :
    Effect ctx (SmartResolvePlugin.handle env ctx) := by
  unfold SmartResolvePlugin.handle
  split
  · split
    · exact .answered _
    · exact fallbackForward_effect env ctx
    · exact fallbackForward_effect env ctx
  · exact fallbackForward_effect env ctx

theorem aliApi_effect (reply : Except String AliDNSResponse) (ctx : Context) :
    Effect ctx (AliApiPlugin.handle reply ctx).1 := by
  unfold AliApiPlugin.handle
  split
  · exact .same
  · split
    · exact .same
    · exact .answered _

theorem rateLimit_effect (shouldLimit : Bool) (ctx : Context) :
    Effect ctx (RateLimitPlugin.handle shouldLimit ctx) := by
  unfold RateLimitPlugin.handle
  split
  · exact .answered _
  · exact .same

/-- Only a response is rewritten. -/
theorem ttl_effect (t : TtlPlugin) (ctx : Context) : Effect ctx (t.handle ctx) := by
  unfold TtlPlugin.handle
  cases hr : ctx.response with
  | some resp => exact .responded _
  | none =>
    have hsame : { ctx with response := none } = ctx := by rw [← hr]
    rw [Option.map_none, hsame]
    exact .same

/-! ## Every plugin -/

/-- The hooks a call registers. -/
def registered (codec : Codec) (w : World) : AnyPlugin → List Nat → Context → List String
  | .cache p, path, ctx =>
    if p.misses codec (w path).now (w path).found ctx then [p.name] else []
  | _, _, _ => []

/-- **A call registers its hook and does nothing else, or has one of the effects.** -/
theorem leaf_effect {w : World} {plugin : AnyPlugin} {path : List Nat} {ctx ctx' : Context}
    {res : Except String Unit} (hleaf : plugin.composite = false)
    (h : (handle codec w plugin path ctx).handled = .returned ctx' res) :
    registered codec w plugin path ctx = [] ∧ Effect ctx ctx' ∨
      ∃ name, registered codec w plugin path ctx = [name] ∧
        ctx' = { ctx with postProcessHooks := ctx.postProcessHooks ++ [name] } := by
  obtain rfl := leaf_returned hleaf h
  cases plugin with
  | sequence => cases hleaf
  | fallback => cases hleaf
  | cache p =>
    cases hmiss : p.misses codec (w path).now (w path).found ctx with
    | true => exact Or.inr ⟨p.name, if_pos hmiss, handleWith_miss hmiss⟩
    | false => exact Or.inl ⟨if_neg (by rw [hmiss]; decide), handleWith_effect hmiss⟩
  | forward p => exact Or.inl ⟨rfl, forward_effect p _ ctx⟩
  | smartForward => exact Or.inl ⟨rfl, smartForward_effect _ ctx⟩
  | reject p => exact Or.inl ⟨rfl, reject_effect p ctx⟩
  | log => exact Or.inl ⟨rfl, .same⟩
  | hosts p => exact Or.inl ⟨rfl, hosts_effect p ctx⟩
  | geoSite p => exact Or.inl ⟨rfl, markName_effect codec _ _ ctx⟩
  | geoIp p => exact Or.inl ⟨rfl, geoIp_effect p ctx⟩
  | matcher p => exact Or.inl ⟨rfl, markName_effect codec _ _ ctx⟩
  | ecs p => exact Or.inl ⟨rfl, ecs_effect p ctx⟩
  | fakeIp => exact Or.inl ⟨rfl, .same⟩
  | dns64 p => exact Or.inl ⟨rfl, dns64_effect p ctx⟩
  | dnssec => exact Or.inl ⟨rfl, .same⟩
  | adBlock p => exact Or.inl ⟨rfl, adBlock_effect p ctx⟩
  | ipv6Filter p => exact Or.inl ⟨rfl, ipv6Filter_effect p ctx⟩
  | dga p => exact Or.inl ⟨rfl, dga_effect p _ ctx⟩
  | ipMatcher p => exact Or.inl ⟨rfl, ipMatcher_effect p ctx⟩
  | smartResolve => exact Or.inl ⟨rfl, smartResolve_effect _ ctx⟩
  | aliApi => exact Or.inl ⟨rfl, aliApi_effect _ ctx⟩
  | rateLimit => exact Or.inl ⟨rfl, rateLimit_effect _ ctx⟩
  | ttl p => exact Or.inl ⟨rfl, ttl_effect p ctx⟩

end

end TitanDns
