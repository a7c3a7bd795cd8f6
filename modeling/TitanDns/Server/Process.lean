import TitanDns.Server.Hooks

/-!
# `process_request_bytes`

The server's way from the bytes of a query to the bytes of the response: parse, run the entry
point, run the hooks if there is a response, encode.  An error of the chain becomes silence.

* `CacheRegistry` — the cache plugins by name; a hook of a context stands for the plugin of its
  name.
* `processRequestBytes` — the function; `Ends` — a run that returns `Ok` with its context.

Principal results: `Ends.processed` — **then the response is that of the context, after its
hooks**; `hooksOf_caches` — **every hook of a run is a cache.**
-/

namespace TitanDns

/-- `Context::from_bytes`. -/
def Context.fromBytes (codec : Codec) (data : List UInt8) (clientIp : IpAddr) : Option Context :=
  match ZeroCopyDnsMessage.fromBytes data with
  | none => none
  | some zc =>
    (codec.fromVec data).map fun request =>
      { Context.new request clientIp with rawRequest := some zc }

/-- The cache plugins of the configuration, each under its own name. -/
structure CacheRegistry where
  plugin : String → CachePlugin
  named : ∀ name, (plugin name).name = name

/-- The plugins registered in a context. -/
def CacheRegistry.hooksOf (caches : CacheRegistry) (ctx : Context) : List AnyPlugin :=
  ctx.postProcessHooks.map fun name => .cache (caches.plugin name)

/-- What becomes of a query: the bytes to send, the plugins whose `on_response` was called, in
order, and what they stored. -/
structure Processed where
  bytes : Option (List UInt8)
  responded : List AnyPlugin
  stored : List Stored

/-- `Ok(None)` before any hook. -/
def Processed.silent : Processed := ⟨none, [], []⟩

/-- The end of `process_request_bytes`: the hooks, if there is a response, and the encoding. -/
def respond (codec : Codec) (env : Nat → HookEnv) (hooks : List AnyPlugin) (ctx : Context) :
    Processed :=
  if ctx.hasResponse then
    let out := runHooks codec env hooks ctx
    ⟨out.1.responseBytes codec, hooks, out.2⟩
  else ⟨ctx.responseBytes codec, [], []⟩

section
variable (codec : Codec) (w : World) (caches : CacheRegistry) (env : Nat → HookEnv)

/-- `process_request_bytes`, given `get_entry`; nothing when a plugin panics. -/
def processRequestBytes (entry : Option AnyPlugin) (data : List UInt8) (clientIp : IpAddr) :
    Option Processed :=
  match Context.fromBytes codec data clientIp with
  | none => some .silent
  | some ctx =>
    match entry with
    | none => some .silent
    | some plugin =>
      match (handle codec w plugin [] ctx).handled with
      | .returned ctx' (.ok ()) => some (respond codec env (caches.hooksOf ctx') ctx')
      | .returned _ (.error _) => some .silent
      | .panicked => none

/-- The chain returns `Ok`: from the context of the query to another. -/
structure Ends (entry : AnyPlugin) (data : List UInt8) (clientIp : IpAddr) (ctx ctx' : Context) :
    Prop where
  parsed : Context.fromBytes codec data clientIp = some ctx
  returned : (handle codec w entry [] ctx).handled = .returned ctx' (.ok ())

end

section
variable {codec : Codec} {w : World} {caches : CacheRegistry} {env : Nat → HookEnv}
  {entry : AnyPlugin} {data : List UInt8} {clientIp : IpAddr} {ctx ctx' : Context}

/-- **A chain that returns `Ok` is answered from its context.** -/
theorem Ends.processed (h : Ends codec w entry data clientIp ctx ctx') :
    processRequestBytes codec w caches env (some entry) data clientIp =
      some (respond codec env (caches.hooksOf ctx') ctx') := by
  unfold processRequestBytes
  rw [h.parsed]
  simp only [h.returned]

/-- Bytes are sent only for a chain that returns `Ok`. -/
theorem ends_of_bytes {p : Processed} (hparsed : Context.fromBytes codec data clientIp = some ctx)
    (h : processRequestBytes codec w caches env (some entry) data clientIp = some p)
    (hbytes : p.bytes.isSome = true) : ∃ ctx', Ends codec w entry data clientIp ctx ctx' := by
  unfold processRequestBytes at h
  rw [hparsed] at h
  simp only at h
  split at h
  · rename_i ctx' hcall
    exact ⟨ctx', hparsed, hcall⟩
  · cases h
    cases hbytes
  · cases h

/-- What the server starts with. -/
theorem fromBytes_some (h : Context.fromBytes codec data clientIp = some ctx) :
    ∃ request zc, codec.fromVec data = some request ∧
      ctx = { Context.new request clientIp with rawRequest := some zc } := by
  unfold Context.fromBytes at h
  split at h
  · cases h
  · rename_i zc _
    obtain ⟨request, hrequest, rfl⟩ := Option.map_eq_some_iff.mp h
    exact ⟨request, zc, hrequest, rfl⟩

/-- **Every hook of a run is a cache.** -/
theorem hooksOf_caches (caches : CacheRegistry) (ctx : Context) :
    ∀ hook ∈ caches.hooksOf ctx, ∃ c, hook = .cache c := by
  intro hook hmem
  obtain ⟨name, -, rfl⟩ := List.mem_map.mp hmem
  exact ⟨_, rfl⟩

/-- A run of the server starts without hooks and without `abort`. -/
theorem Ends.fresh (h : Ends codec w entry data clientIp ctx ctx') :
    ctx.postProcessHooks = [] ∧ ctx.abort = false := by
  obtain ⟨request, zc, -, rfl⟩ := fromBytes_some h.parsed
  exact ⟨rfl, rfl⟩

/-- The way of the run. -/
theorem Ends.flow (h : Ends codec w entry data clientIp ctx ctx') :
    Flow codec w (.plugin entry) [] ctx (kept codec w entry [] ctx) ctx' :=
  handle_flow entry [] ctx ctx' _ h.returned

end

/-! ## A cache before a forward -/

/-- A query for `www.example.com` with ID 0, and an address for it. -/
def chainRequest : Message := { exampleRequest with id := 0 }

def answerWith (ip : Ipv4Addr) : Message :=
  { exampleAnswer with id := 0, answers := [.fromRdata exampleQuestion.name 300 (.a ip)] }

/-- The query on the wire. -/
def chainData : List UInt8 := [0, 0, 1, 0, 0, 1, 0, 0, 0, 0, 0, 0] ++ exampleQuestion.wire

/-- The library on the query and its answer. -/
def chainCodec (ip : Ipv4Addr) : Codec :=
  .ofTable
    [(chainRequest, chainData),
      (answerWith ip, [0, 0, 0x80, 0, 0, 1, 0, 1, 0, 0, 0, 0] ++ exampleQuestion.wire ++
        [0xc0, 12, 0, 1, 0, 1, 0, 0, 1, 44, 0, 4, ip.a, ip.b, ip.c, ip.d])]
    [(exampleQuestion.name, "www.example.com.")]

/-- The context the query makes. -/
def startContext : Context :=
  { Context.new chainRequest (.v4 ⟨10, 0, 0, 2⟩) with rawRequest := some ⟨chainData, by decide⟩ }

def exampleCaches : CacheRegistry :=
  ⟨fun name => { CacheSystem.exampleCache with name := name }, fun _ => rfl⟩

def exampleChain : AnyPlugin :=
  .sequence (fun _ => none)
    [.mk [] (.cache CacheSystem.exampleCache), .mk [] (.forward singleForward)]

/-- Every upstream answers with the address. -/
def chainWorld (ip : Ipv4Addr) : World := fun _ => .uniform 50 (.ok (answerWith ip))

/-- The context after the cache missed. -/
def missedContext : Context := { startContext with postProcessHooks := ["cache"] }

theorem chain_ends (ip : Ipv4Addr) :
    Ends (chainCodec ip) (chainWorld ip) exampleChain chainData (.v4 ⟨10, 0, 0, 2⟩) startContext
      (missedContext.setResponse (answerWith ip) true) := ⟨rfl, rfl⟩

theorem chain_kept (ip : Ipv4Addr) :
    kept (chainCodec ip) (chainWorld ip) exampleChain [] startContext =
      [⟨.cache CacheSystem.exampleCache, [0], startContext⟩,
        ⟨.forward singleForward, [1], missedContext⟩] := rfl

theorem chain_forward_kept (ip : Ipv4Addr) :
    (⟨.forward singleForward, [1], missedContext⟩ : CallSite) ∈
      kept (chainCodec ip) (chainWorld ip) exampleChain [] startContext := by
  rw [chain_kept]
  exact List.mem_cons_of_mem _ List.mem_cons_self

/-- Hooks about whose addresses nothing is known. -/
def quietHooks : Nat → HookEnv := fun _ => ⟨⟨0, 0⟩, fun _ => none, fun _ => false, fun _ => none⟩

end TitanDns
