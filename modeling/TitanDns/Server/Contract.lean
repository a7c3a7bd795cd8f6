import TitanDns.Server.Process

/-!
# The contract of `on_response`

`Plugin::on_response` is documented as called after a response is generated and before it is sent.
The server calls it for the hooks of the context, and of the plugins that implement it only the
cache puts itself there, on a miss.

* `AnyPlugin.same` — plugins are told apart by name, as in the registry.
* `Ran` — the calls of a run: those kept, and of the branches that a fallback dropped those that
  had begun.
* `Contract` — every call of a plugin that implements `on_response` is answered by exactly one.
* `contract_iff` — **the contract holds exactly when only caches implement it in the run, and each
  that ran has missed once on the way to the response.**
* `forward_unheard` — a forward, and nothing is called.
-/

namespace TitanDns

/-- One plugin under two references: the registry has one of each name. -/
def AnyPlugin.same : AnyPlugin → AnyPlugin → Bool
  | .cache c, .cache c' => c.name == c'.name
  | .forward f, .forward f' => f.name == f'.name
  | .log, .log => true
  | .dnssec, .dnssec => true
  | _, _ => false

section
variable (codec : Codec) (w : World)

/-- The handle of the call ran: the call is kept, or it had begun when its branch was dropped. -/
def Ran (began : List Nat → Bool) (entry : AnyPlugin) (ctx : Context) (c : CallSite) : Prop :=
  c ∈ kept codec w entry [] ctx ∨ c ∈ calls codec w entry [] ctx ∧ began c.path = true

/-- Every plugin that implements `on_response` and ran gets it called exactly once before the bytes
are returned. -/
def Contract (caches : CacheRegistry) (env : Nat → HookEnv) (began : List Nat → Bool)
    (entry : AnyPlugin) (ctx ctx' : Context) : Prop :=
  ∀ c, Ran codec w began entry ctx c → c.plugin.overrides = true →
    (respond codec env (caches.hooksOf ctx') ctx').responded.countP c.plugin.same = 1

/-- How often a cache of the name missed on the way to the response. -/
def misses (entry : AnyPlugin) (ctx : Context) (name : String) : Nat :=
  ((kept codec w entry [] ctx).flatMap (·.registered codec w)).count name

end

section
variable {codec : Codec} {w : World} {caches : CacheRegistry} {env : Nat → HookEnv}

/-- Whatever ran was called. -/
theorem Ran.called {began : List Nat → Bool} {entry : AnyPlugin} {ctx : Context} {c : CallSite}
    (h : Ran codec w began entry ctx c) : c ∈ calls codec w entry [] ctx := by
  rcases h with h | h
  · exact kept_subset entry [] ctx h
  · exact h.1

/-- With a response, the hooks are what is called. -/
theorem respond_responded {hooks : List AnyPlugin} {ctx : Context} (h : ctx.hasResponse = true) :
    (respond codec env hooks ctx).responded = hooks := by
  unfold respond
  rw [if_pos h]

/-- The hooks of a run that are a given cache. -/
theorem countP_hooksOf_cache (caches : CacheRegistry) (ctx : Context) (c : CachePlugin) :
    (caches.hooksOf ctx).countP (AnyPlugin.cache c).same = ctx.postProcessHooks.count c.name := by
  unfold CacheRegistry.hooksOf List.count
  rw [List.countP_map]
  refine List.countP_congr fun name _ => ?_
  simp only [Function.comp_apply, AnyPlugin.same, caches.named, beq_iff_eq]
  exact eq_comm

/-- No other plugin is among them. -/
theorem countP_hooksOf_other (caches : CacheRegistry) (ctx : Context) {plugin : AnyPlugin}
    (h : ∀ c, plugin ≠ .cache c) : (caches.hooksOf ctx).countP plugin.same = 0 := by
  rw [List.countP_eq_zero]
  intro hook hhook
  obtain ⟨c, rfl⟩ := hooksOf_caches caches ctx hook hhook
  cases plugin with
  | cache c' => exact absurd rfl (h c')
  | _ => simp [AnyPlugin.same]

/-- **Exactly when the contract holds**: of the plugins that implement `on_response` only caches
ran, each of which missed once on the way to the response. -/
theorem contract_iff (codec : Codec) (w : World) (caches : CacheRegistry) (env : Nat → HookEnv)
    (began : List Nat → Bool) (entry : AnyPlugin) (data : List UInt8) (clientIp : IpAddr)
    (ctx ctx' : Context) (h : Ends codec w entry data clientIp ctx ctx')
    (hresp : ctx'.hasResponse = true) :
    Contract codec w caches env began entry ctx ctx' ↔
      ∀ c, Ran codec w began entry ctx c → c.plugin.overrides = true →
        ∃ p, c.plugin = .cache p ∧ misses codec w entry ctx p.name = 1 := by
  have hcount : ∀ p : CachePlugin, ((caches.hooksOf ctx').countP (AnyPlugin.cache p).same) =
      misses codec w entry ctx p.name := by
    intro p
    rw [countP_hooksOf_cache, h.flow.hooks, h.fresh.1, List.nil_append, misses]
  unfold Contract
  rw [respond_responded hresp]
  constructor
  · intro hcontract c hran hover
    have hone := hcontract c hran hover
    by_cases hcache : ∃ p, c.plugin = .cache p
    · obtain ⟨p, hp⟩ := hcache
      rw [hp, hcount] at hone
      exact ⟨p, hp, hone⟩
    · rw [countP_hooksOf_other caches ctx' fun p hp => hcache ⟨p, hp⟩] at hone
      cases hone
  · intro hcond c hran hover
    obtain ⟨p, hp, hone⟩ := hcond c hran hover
    rw [hp, hcount, hone]

end

/-- A cache before a step that refuses. -/
def refusingChain : AnyPlugin :=
  .sequence (fun _ => none)
    [.mk [] (.cache CacheSystem.exampleCache), .mk [] (.reject ⟨.refused⟩)]

/-- The contract is kept there: the cache missed once. -/
theorem contract_iff_refused :
    Contract (chainCodec ⟨192, 0, 2, 1⟩) (chainWorld ⟨192, 0, 2, 1⟩) exampleCaches quietHooks
      (fun _ => true) refusingChain startContext
      (RejectPlugin.handle ⟨.refused⟩ missedContext) := by
  have hcalls : calls (chainCodec ⟨192, 0, 2, 1⟩) (chainWorld ⟨192, 0, 2, 1⟩) refusingChain []
      startContext = [⟨.cache CacheSystem.exampleCache, [0], startContext⟩,
        ⟨.reject ⟨.refused⟩, [1], missedContext⟩] := rfl
  refine (contract_iff _ _ exampleCaches quietHooks (fun _ => true) refusingChain chainData
    (.v4 ⟨10, 0, 0, 2⟩) startContext _ ⟨rfl, rfl⟩ rfl).mpr ?_
  intro c hran hover
  have hc := hran.called
  rw [hcalls] at hc
  simp only [List.mem_cons, List.not_mem_nil, or_false] at hc
  rcases hc with rfl | rfl
  · exact ⟨_, rfl, by decide +kernel⟩
  · cases hover

/-- **A forward is not heard**: it answers behind a cache, and of the two only the cache is
called. -/
theorem forward_unheard :
    (missedContext.setResponse (answerWith ⟨192, 0, 2, 1⟩) true).hasResponse = true ∧
    (respond (chainCodec ⟨192, 0, 2, 1⟩) quietHooks
      (exampleCaches.hooksOf (missedContext.setResponse (answerWith ⟨192, 0, 2, 1⟩) true))
      (missedContext.setResponse (answerWith ⟨192, 0, 2, 1⟩) true)).responded =
        [.cache CacheSystem.exampleCache] ∧
    ¬ Contract (chainCodec ⟨192, 0, 2, 1⟩) (chainWorld ⟨192, 0, 2, 1⟩) exampleCaches quietHooks
      (fun _ => true) exampleChain startContext
      (missedContext.setResponse (answerWith ⟨192, 0, 2, 1⟩) true) := by
  refine ⟨rfl, rfl, ?_⟩
  intro hcontract
  have hone := hcontract _ (Or.inl (chain_forward_kept _)) rfl
  revert hone
  decide

end TitanDns
