import TitanDns.Bpf.CacheRuns
import TitanDns.Plugins.Cache

/-!
# The cache plugin with its stores

The state machine made of one cache plugin, the reverse mapping `xdp_hash_map` it shares with
nobody here, the kernel maps and the background tasks.  Each event is one call taken as a whole;
the environment chooses the order, the clocks and what upstreams answer, and every store may lose
an entry at any time.

* `Write` — what a writer hands to the stores: a key, an entry, what the kernel is to get.
  `onResponse`, `insertResponseForDomain`, `prefetch`, `shadowRefresh` — the four writers.
  `writeOf_some` — **every write comes from one of them**; `write_entry` — what it stores.
* `syncToXdp`, `perform` — what is done with a `Write`.
* `CacheSystem.handle`, `afterLookup` — a lookup: the context it leaves, the task it starts.
* `systemStep` — one event.

Principal results: `step_cache`, `step_tasks`, `step_xdpHashMap` — **what a store holds after an
event it held before, or the event's write put it there**; `run_kernel` — **the kernel cache of a
run is the kernel cache of the calls it emits**, so that what is known about runs of the kernel
cache holds here.
-/

namespace TitanDns

open Bpf Run CachePlugin

/-! ## Writers -/

/-- What the kernel is to get of a write. -/
inductive KernelPush where
  | none
  /-- `sync_to_xdp`, with the text for the reverse mapping. -/
  | sync (u : CacheUpdate) (domain : String)
  /-- `update_cache` if XDP is enabled. -/
  | update (u : CacheUpdate)
  deriving DecidableEq

/-- The `update_cache` call it may come to. -/
def KernelPush.call : KernelPush → Option CacheUpdate
  | .none => Option.none
  | .sync u _ => some u
  | .update u => some u

/-- What a writer hands to the stores. -/
structure Write where
  key : QueryKey
  entry : CachedEntry
  push : KernelPush
  deriving DecidableEq

/-- The clocks: Unix seconds, and nanoseconds since boot. -/
structure Clocks where
  now : Nat
  nowNs : UInt64
  deriving DecidableEq

/-- What the world answers to one background task. -/
structure TaskEnv where
  clocks : Clocks
  forward : ForwardEnv
  resolver : ResolverEnv
  /-- Whether the kernel takes the insertion. -/
  accepted : Bool

namespace CachePlugin

variable (codec : Codec) (c : CachePlugin)

/-- The `update_cache` call for an entry's bytes. -/
def pushOf (clocks : Clocks) (name : Name) (qtype qclass : UInt16) (bytes : List UInt8)
    (ttl : Nat) : CacheUpdate :=
  ⟨name.wire, qtype, qclass, bytes, UInt64.ofNat ttl, clocks.nowNs⟩

/-- `on_response`. -/
def onResponse (clocks : Clocks) (ctx : Context) : Option Write :=
  match ctx.request.query, ctx.response with
  | some q, some resp =>
    (entryFor codec c clocks.now resp).map fun entry =>
      { key := buildKeyForDomain (ctx.qname codec) q.qtype q.qclass
        entry := entry
        push := .sync (pushOf clocks q.name q.qtype q.qclass (encoded codec resp) entry.ttl)
          (codec.display q.name) }
  | _, _ => none

/-- `insert_response_for_domain`. -/
def insertResponseForDomain (clocks : Clocks) (domain : String) (qtype qclass : UInt16)
    (resp : Message) : Option Write :=
  (entryFor codec c clocks.now resp).map fun entry =>
    { key := buildKeyForDomain domain qtype qclass
      entry := entry
      push :=
        match codec.fromAscii domain with
        | some name => .sync (pushOf clocks name qtype qclass (encoded codec resp) entry.ttl) domain
        | none => .none }

/-- The response a prefetch obtains: from the recursive backend, else from the forwarder. -/
def refreshed (env : TaskEnv) (request : Message) (q : Question) : Option Message :=
  let forwarded := c.prefetchForwarder.bind fun f =>
    (f.execute codec env.forward request none).toOption
  match c.prefetchRecursive with
  | some b =>
    match b.lookup codec env.resolver (codec.display q.name) q.qtype with
    | .ok msg => some msg
    | .error _ => forwarded
  | none => forwarded

/-- The background refresh a hit starts. -/
def prefetch (env : TaskEnv) (request : Message) : Option Write :=
  match request.query with
  | none => none
  | some q =>
    (refreshed codec c env request q).bind fun resp =>
      (refreshEntryFor codec c env.clocks.now resp).map fun entry =>
        { key := buildKeyForDomain (codec.display q.name) q.qtype q.qclass
          entry := entry
          push := .none }

/-- The least TTL of the answers, or five minutes. -/
def shadowTtl (resp : Message) : Nat :=
  ((resp.answers.map (·.ttl.toNat)).min?).getD 300

/-- The background refresh the kernel asks for. -/
def shadowRefresh (env : TaskEnv) (domain : String) (qtype qclass : UInt16) : Option Write :=
  match c.prefetchRecursive with
  | none => none
  | some b =>
    match b.lookup codec env.resolver domain qtype with
    | .error _ => none
    | .ok resp =>
      (codec.toVec resp).map fun bytes =>
        { key := buildKeyForDomain domain qtype qclass
          entry := .newWithBytes env.clocks.now resp (shadowTtl resp) bytes
          push :=
            match resp.query with
            | some q => .update (pushOf env.clocks q.name qtype qclass bytes (shadowTtl resp))
            | none => .none }

/-! ## What a writer hands over -/

section
variable {codec : Codec} {c : CachePlugin} {clocks : Clocks} {env : TaskEnv} {w : Write}

theorem onResponse_some {ctx : Context} (h : c.onResponse codec clocks ctx = some w) :
    ∃ q resp entry, ctx.request.query = some q ∧ ctx.response = some resp ∧
      entryFor codec c clocks.now resp = some entry ∧
      w = ⟨buildKeyForDomain (codec.display q.name) q.qtype q.qclass, entry,
        .sync (pushOf clocks q.name q.qtype q.qclass (encoded codec resp) entry.ttl)
          (codec.display q.name)⟩ := by
  unfold onResponse at h
  split at h
  · rename_i q resp hq hresp
    obtain ⟨entry, hentry, rfl⟩ := Option.map_eq_some_iff.mp h
    have hqname : ctx.qname codec = codec.display q.name := by
      unfold Context.qname
      rw [hq]
    rw [hqname]
    exact ⟨q, resp, entry, hq, hresp, hentry, rfl⟩
  · cases h

theorem insertResponseForDomain_some {domain : String} {qtype qclass : UInt16} {resp : Message}
    (h : c.insertResponseForDomain codec clocks domain qtype qclass resp = some w) :
    entryFor codec c clocks.now resp = some w.entry ∧
      w.key = buildKeyForDomain domain qtype qclass ∧
      (w.push = .none ∨ ∃ name, codec.fromAscii domain = some name ∧
        w.push = .sync (pushOf clocks name qtype qclass (encoded codec resp) w.entry.ttl)
          domain) := by
  unfold insertResponseForDomain at h
  obtain ⟨entry, hentry, rfl⟩ := Option.map_eq_some_iff.mp h
  refine ⟨hentry, rfl, ?_⟩
  cases hname : codec.fromAscii domain with
  | none => exact Or.inl rfl
  | some name => exact Or.inr ⟨name, rfl, rfl⟩

theorem prefetch_some {request : Message} (h : c.prefetch codec env request = some w) :
    ∃ q resp entry, request.query = some q ∧ refreshed codec c env request q = some resp ∧
      refreshEntryFor codec c env.clocks.now resp = some entry ∧
      w = ⟨buildKeyForDomain (codec.display q.name) q.qtype q.qclass, entry, .none⟩ := by
  unfold prefetch at h
  split at h
  · cases h
  · rename_i q hq
    obtain ⟨resp, hresp, h⟩ := Option.bind_eq_some_iff.mp h
    obtain ⟨entry, hentry, rfl⟩ := Option.map_eq_some_iff.mp h
    exact ⟨q, resp, entry, hq, hresp, hentry, rfl⟩

theorem shadowRefresh_some {domain : String} {qtype qclass : UInt16}
    (h : c.shadowRefresh codec env domain qtype qclass = some w) :
    ∃ b resp bytes, c.prefetchRecursive = some b ∧
      b.lookup codec env.resolver domain qtype = .ok resp ∧ codec.toVec resp = some bytes ∧
      w.key = buildKeyForDomain domain qtype qclass ∧
      w.entry = .newWithBytes env.clocks.now resp (shadowTtl resp) bytes ∧
      (w.push = .none ∨ ∃ q, resp.query = some q ∧
        w.push = .update (pushOf env.clocks q.name qtype qclass bytes (shadowTtl resp))) := by
  unfold CachePlugin.shadowRefresh at h
  split at h
  · cases h
  · rename_i b hb
    split at h
    · cases h
    · rename_i resp hresp
      obtain ⟨bytes, hbytes, rfl⟩ := Option.map_eq_some_iff.mp h
      refine ⟨b, resp, bytes, hb, hresp, hbytes, rfl, rfl, ?_⟩
      cases hq : resp.query with
      | none => exact Or.inl rfl
      | some q => exact Or.inr ⟨q, rfl, rfl⟩

end

end CachePlugin

/-! ## State -/

/-- A background task under way. -/
inductive Task where
  | prefetch (request : Message)
  | shadow (domain : String) (qtype qclass : UInt16)
  deriving DecidableEq

structure CacheSystem where
  cache : QueryKey → Option CachedEntry
  /-- `xdp_hash_map`: kernel keys already pushed, with the question in text. -/
  xdpHashMap : UInt64 → Option (String × UInt16 × UInt16)
  kernel : KernelMaps
  tasks : List Task

namespace CacheSystem

/-- Nothing cached, nothing under way. -/
def empty : CacheSystem := ⟨PartialMap.empty, PartialMap.empty, .empty, []⟩

variable (codec : Codec) (c : CachePlugin)

/-- Whether `sync_to_xdp` gets as far as `update_cache`. -/
def syncs (s : CacheSystem) (u : CacheUpdate) : Bool :=
  c.xdpCacheEnabled && c.xdpFilter &&
    (s.xdpHashMap (calculateXdpHash u.qnameRaw u.qtype u.qclass)).isNone

/-- `sync_to_xdp`. -/
def syncToXdp (s : CacheSystem) (u : CacheUpdate) (domain : String) (accepted : Bool) :
    CacheSystem :=
  if syncs c s u then
    match updateCache s.kernel u accepted with
    | (kernel, .error _) => { s with kernel := kernel }
    | (kernel, .ok _) =>
      { s with
        kernel := kernel
        xdpHashMap := PartialMap.put s.xdpHashMap
          (calculateXdpHash u.qnameRaw u.qtype u.qclass) (domain, u.qtype, u.qclass) }
  else s

/-- Both stores take a write. -/
def perform (s : CacheSystem) (w : Write) (accepted : Bool) : CacheSystem :=
  let s := { s with cache := PartialMap.put s.cache w.key w.entry }
  match w.push with
  | .none => s
  | .sync u domain => syncToXdp c s u domain accepted
  | .update u =>
    if c.xdpCacheEnabled then { s with kernel := (updateCache s.kernel u accepted).1 } else s

/-- `handle`: the context it leaves. -/
def handle (s : CacheSystem) (now : Nat) (ctx : Context) : Context :=
  c.handleWith codec now ((getKey codec ctx).bind s.cache) ctx

/-- A lookup at `now` finds this entry and serves it. -/
def Serves (s : CacheSystem) (now : Nat) (ctx : Context) (entry : CachedEntry) : Prop :=
  (getKey codec ctx).bind s.cache = some entry ∧ c.lookupDecision now entry = .serve

instance (s : CacheSystem) (now : Nat) (ctx : Context) (entry : CachedEntry) :
    Decidable (Serves codec c s now ctx entry) :=
  inferInstanceAs (Decidable (_ ∧ _))

/-- `handle`: what it does to the stores. -/
def afterLookup (s : CacheSystem) (now : Nat) (ctx : Context) : CacheSystem :=
  match getKey codec ctx with
  | none => s
  | some key =>
    match s.cache key with
    | none => s
    | some entry =>
      match c.lookupDecision now entry with
      | .skip => s
      | .drop => { s with cache := PartialMap.forget s.cache key }
      | .serve =>
        if c.needPrefetch now entry && (c.prefetchRecursive.isSome || c.prefetchForwarder.isSome)
        then { s with tasks := s.tasks ++ [.prefetch ctx.request] }
        else s

/-- The handler of a refresh event of the kernel, once it has passed its deduplication. -/
def pollRefresh (s : CacheSystem) (qhash : UInt64) : CacheSystem :=
  match s.xdpHashMap qhash with
  | none => s
  | some (domain, qtype, qclass) =>
    if c.xdpFilter && c.prefetchRecursive.isSome then
      { s with tasks := s.tasks ++ [.shadow domain qtype qclass] }
    else s

/-- `purge`. -/
def purge (s : CacheSystem) : CacheSystem := { s with cache := PartialMap.empty }

end CacheSystem

/-! ## Events -/

inductive SystemEvent where
  | lookup (now : Nat) (ctx : Context)
  | respond (clocks : Clocks) (ctx : Context) (accepted : Bool)
  | insert (clocks : Clocks) (domain : String) (qtype qclass : UInt16) (resp : Message)
    (accepted : Bool)
  | pollRefresh (qhash : UInt64)
  /-- A background task ends. -/
  | finish (i : Nat) (env : TaskEnv)
  | purge
  /-- The userspace cache drops an entry: capacity, time to live. -/
  | evict (key : QueryKey)
  | evictHash (qhash : UInt64)
  | evictKernel (key : UInt64)
  | packet (env : XdpEnv) (f : Frame)

namespace CacheSystem

variable (codec : Codec) (c : CachePlugin)

def taskWrite (env : TaskEnv) : Task → Option Write
  | .prefetch request => c.prefetch codec env request
  | .shadow domain qtype qclass => c.shadowRefresh codec env domain qtype qclass

/-- The write of an event, if it makes one, and whether the kernel takes the insertion. -/
def writeOf (s : CacheSystem) : SystemEvent → Option (Write × Bool)
  | .respond clocks ctx accepted => (c.onResponse codec clocks ctx).map (·, accepted)
  | .insert clocks domain qtype qclass resp accepted =>
    (c.insertResponseForDomain codec clocks domain qtype qclass resp).map (·, accepted)
  | .finish i env => s.tasks[i]?.bind fun task => (taskWrite codec c env task).map (·, env.accepted)
  | _ => none

/-- The stores once the write of the event, if any, is done. -/
def written (s : CacheSystem) (ev : SystemEvent) : CacheSystem :=
  match writeOf codec c s ev with
  | some (w, accepted) => s.perform c w accepted
  | none => s

/-- One event. -/
def systemStep (e : Endian) (s : CacheSystem) (ev : SystemEvent) : CacheSystem :=
  let s' := written codec c s ev
  match ev with
  | .lookup now ctx => afterLookup codec c s' now ctx
  | .respond .. => s'
  | .insert .. => s'
  | .pollRefresh qhash => pollRefresh c s' qhash
  | .finish i _ => { s' with tasks := s'.tasks.eraseIdx i }
  | .purge => s'.purge
  | .evict key => { s' with cache := PartialMap.forget s'.cache key }
  | .evictHash qhash => { s' with xdpHashMap := PartialMap.forget s'.xdpHashMap qhash }
  | .evictKernel key => { s' with kernel := cacheStep e s'.kernel (.evict key) }
  | .packet env f => { s' with kernel := cacheStep e s'.kernel (.packet env f) }

/-! ## What one event changes -/

section
variable {codec : Codec} {c : CachePlugin} {e : Endian} {s : CacheSystem}

theorem handle_serves {now : Nat} {ctx : Context} {entry : CachedEntry}
    (h : Serves codec c s now ctx entry) : s.handle codec c now ctx = answerFrom ctx entry := by
  obtain ⟨hfound, hserve⟩ := h
  obtain ⟨key, hkey, -⟩ := Option.bind_eq_some_iff.mp hfound
  unfold handle
  rw [hfound]
  unfold handleWith
  rw [hkey]
  simp only
  rw [hserve]

/-- **The writer of an event.** -/
theorem writeOf_some {ev : SystemEvent} {w : Write} {accepted : Bool}
    (h : writeOf codec c s ev = some (w, accepted)) :
    (∃ clocks ctx, ev = .respond clocks ctx accepted ∧
      c.onResponse codec clocks ctx = some w) ∨
    (∃ clocks domain qtype qclass resp, ev = .insert clocks domain qtype qclass resp accepted ∧
      c.insertResponseForDomain codec clocks domain qtype qclass resp = some w) ∨
    (∃ i env task, ev = .finish i env ∧ accepted = env.accepted ∧ s.tasks[i]? = some task ∧
      taskWrite codec c env task = some w) := by
  cases ev with
  | respond clocks ctx acc =>
    obtain ⟨w', hw, heq⟩ := Option.map_eq_some_iff.mp h
    cases heq
    exact Or.inl ⟨clocks, ctx, rfl, hw⟩
  | insert clocks domain qtype qclass resp acc =>
    obtain ⟨w', hw, heq⟩ := Option.map_eq_some_iff.mp h
    cases heq
    exact Or.inr (Or.inl ⟨clocks, domain, qtype, qclass, resp, rfl, hw⟩)
  | finish i env =>
    obtain ⟨task, htask, h⟩ := Option.bind_eq_some_iff.mp h
    obtain ⟨w', hw, heq⟩ := Option.map_eq_some_iff.mp h
    cases heq
    exact Or.inr (Or.inr ⟨i, env, task, rfl, rfl, htask, hw⟩)
  | lookup now ctx => cases h
  | pollRefresh qhash => cases h
  | purge => cases h
  | evict key => cases h
  | evictHash qhash => cases h
  | evictKernel key => cases h
  | packet env f => cases h

/-- **What any writer stores**: a response with its encoding, if it has one, and a lifetime. -/
theorem write_entry {ev : SystemEvent} {w : Write} {accepted : Bool}
    (h : writeOf codec c s ev = some (w, accepted)) :
    ∃ now resp ttl bytes, w.entry = .newWithBytes now resp ttl bytes ∧
      (codec.toVec resp = some bytes ∨ bytes = []) ∧
      (ttl = c.calculateTtl resp ∨ ttl = shadowTtl resp) := by
  have hentryFor : ∀ {now resp entry}, entryFor codec c now resp = some entry →
      entry = .newWithBytes now resp (c.calculateTtl resp) (encoded codec resp) ∧
      (codec.toVec resp = some (encoded codec resp) ∨ encoded codec resp = []) := by
    intro now resp entry hentry
    refine ⟨(entryFor_some hentry).2.2, ?_⟩
    unfold encoded
    cases codec.toVec resp with
    | none => exact Or.inr rfl
    | some bytes => exact Or.inl rfl
  rcases writeOf_some h with ⟨clocks, ctx, -, hw⟩ | ⟨clocks, text, qtype, qclass, resp, -, hw⟩ |
    ⟨i, env, task, -, -, -, hw⟩
  · obtain ⟨q, resp, entry, -, -, hentry, rfl⟩ := onResponse_some hw
    obtain ⟨hnew, hbytes⟩ := hentryFor hentry
    exact ⟨_, resp, _, _, hnew, hbytes, Or.inl rfl⟩
  · obtain ⟨hnew, hbytes⟩ := hentryFor (insertResponseForDomain_some hw).1
    exact ⟨_, resp, _, _, hnew, hbytes, Or.inl rfl⟩
  · cases task with
    | prefetch request =>
      obtain ⟨q, resp, entry, -, -, hentry, rfl⟩ := prefetch_some hw
      obtain ⟨-, bytes, hbytes, hnew⟩ := refreshEntryFor_some hentry
      exact ⟨_, resp, _, bytes, hnew, Or.inl hbytes, Or.inl rfl⟩
    | shadow text qtype qclass =>
      obtain ⟨b, resp, bytes, -, -, hbytes, -, hnew, -⟩ := shadowRefresh_some hw
      exact ⟨_, resp, _, bytes, hnew, Or.inl hbytes, Or.inr rfl⟩

/-- The `update_cache` call that a write comes to. -/
def callOf (c : CachePlugin) (s : CacheSystem) (w : Write) : Option CacheUpdate :=
  match w.push with
  | .none => none
  | .sync u _ => if syncs c s u then some u else none
  | .update u => if c.xdpCacheEnabled then some u else none

theorem callOf_call {w : Write} {u : CacheUpdate} (h : callOf c s w = some u) :
    w.push.call = some u := by
  unfold callOf at h
  split at h
  · cases h
  · rename_i hpush
    split at h
    · cases h
      rw [hpush]
      rfl
    · cases h
  · rename_i hpush
    split at h
    · cases h
      rw [hpush]
      rfl
    · cases h

theorem syncToXdp_cache (u : CacheUpdate) (domain : String) (accepted : Bool) :
    (syncToXdp c s u domain accepted).cache = s.cache := by
  unfold syncToXdp
  split
  · split <;> rfl
  · rfl

theorem syncToXdp_tasks (u : CacheUpdate) (domain : String) (accepted : Bool) :
    (syncToXdp c s u domain accepted).tasks = s.tasks := by
  unfold syncToXdp
  split
  · split <;> rfl
  · rfl

theorem syncToXdp_kernel (u : CacheUpdate) (domain : String) (accepted : Bool) :
    (syncToXdp c s u domain accepted).kernel =
      if syncs c s u then (updateCache s.kernel u accepted).1 else s.kernel := by
  unfold syncToXdp
  split
  · split
    · rename_i heq
      rw [heq]
    · rename_i heq
      rw [heq]
  · rfl

theorem syncToXdp_xdpHashMap {u : CacheUpdate} {domain : String} {accepted : Bool} {h : UInt64}
    {v : String × UInt16 × UInt16} (hv : (syncToXdp c s u domain accepted).xdpHashMap h = some v) :
    s.xdpHashMap h = some v ∨
      (h = calculateXdpHash u.qnameRaw u.qtype u.qclass ∧ v = (domain, u.qtype, u.qclass)) := by
  unfold syncToXdp at hv
  split at hv
  · split at hv
    · exact Or.inl hv
    · rcases PartialMap.put_some hv with hput | ⟨-, hv⟩
      · exact Or.inr hput
      · exact Or.inl hv
  · exact Or.inl hv

theorem perform_cache (w : Write) (accepted : Bool) :
    (s.perform c w accepted).cache = PartialMap.put s.cache w.key w.entry := by
  unfold perform
  simp only
  split
  · rfl
  · rw [syncToXdp_cache]
  · split <;> rfl

theorem perform_tasks (w : Write) (accepted : Bool) :
    (s.perform c w accepted).tasks = s.tasks := by
  unfold perform
  simp only
  split
  · rfl
  · rw [syncToXdp_tasks]
  · split <;> rfl

theorem perform_kernel (w : Write) (accepted : Bool) :
    (s.perform c w accepted).kernel =
      match callOf c s w with
      | some u => (updateCache s.kernel u accepted).1
      | none => s.kernel := by
  unfold perform callOf
  simp only
  split
  · rfl
  · rename_i u domain _
    rw [syncToXdp_kernel]
    have hsame : syncs c { s with cache := PartialMap.put s.cache w.key w.entry } u =
        syncs c s u := rfl
    rw [hsame]
    split <;> rfl
  · split <;> rfl

theorem perform_xdpHashMap {w : Write} {accepted : Bool} {h : UInt64}
    {v : String × UInt16 × UInt16} (hv : (s.perform c w accepted).xdpHashMap h = some v) :
    s.xdpHashMap h = some v ∨
      ∃ u domain, w.push = .sync u domain ∧
        h = calculateXdpHash u.qnameRaw u.qtype u.qclass ∧ v = (domain, u.qtype, u.qclass) := by
  unfold perform at hv
  simp only at hv
  split at hv
  · exact Or.inl hv
  · rename_i u domain hpush
    rcases syncToXdp_xdpHashMap hv with hv | hv
    · exact Or.inl hv
    · exact Or.inr ⟨u, domain, hpush, hv⟩
  · split at hv <;> exact Or.inl hv

theorem afterLookup_cache {now : Nat} {ctx : Context} {k : QueryKey} {entry : CachedEntry}
    (h : (afterLookup codec c s now ctx).cache k = some entry) : s.cache k = some entry := by
  unfold afterLookup at h
  split at h
  · exact h
  split at h
  · exact h
  split at h
  · exact h
  · exact (PartialMap.forget_some h).2
  · split at h <;> exact h

theorem afterLookup_kernel (now : Nat) (ctx : Context) :
    (afterLookup codec c s now ctx).kernel = s.kernel ∧
      (afterLookup codec c s now ctx).xdpHashMap = s.xdpHashMap := by
  unfold afterLookup
  split
  · exact ⟨rfl, rfl⟩
  split
  · exact ⟨rfl, rfl⟩
  split
  · exact ⟨rfl, rfl⟩
  · exact ⟨rfl, rfl⟩
  · split <;> exact ⟨rfl, rfl⟩

theorem afterLookup_tasks {now : Nat} {ctx : Context} {task : Task}
    (h : task ∈ (afterLookup codec c s now ctx).tasks) :
    task ∈ s.tasks ∨ task = .prefetch ctx.request := by
  unfold afterLookup at h
  split at h
  · exact Or.inl h
  split at h
  · exact Or.inl h
  split at h
  · exact Or.inl h
  · exact Or.inl h
  · split at h
    · rcases List.mem_append.mp h with h | h
      · exact Or.inl h
      · exact Or.inr (List.mem_singleton.mp h)
    · exact Or.inl h

theorem pollRefresh_stores (qhash : UInt64) :
    (pollRefresh c s qhash).cache = s.cache ∧ (pollRefresh c s qhash).kernel = s.kernel ∧
      (pollRefresh c s qhash).xdpHashMap = s.xdpHashMap := by
  unfold pollRefresh
  split
  · exact ⟨rfl, rfl, rfl⟩
  · split <;> exact ⟨rfl, rfl, rfl⟩

theorem pollRefresh_tasks {qhash : UInt64} {task : Task}
    (h : task ∈ (pollRefresh c s qhash).tasks) :
    task ∈ s.tasks ∨ ∃ domain qtype qclass, s.xdpHashMap qhash = some (domain, qtype, qclass) ∧
      task = .shadow domain qtype qclass := by
  unfold pollRefresh at h
  split at h
  · exact Or.inl h
  · rename_i domain qtype qclass hhash
    split at h
    · rcases List.mem_append.mp h with h | h
      · exact Or.inl h
      · exact Or.inr ⟨domain, qtype, qclass, hhash, List.mem_singleton.mp h⟩
    · exact Or.inl h

theorem written_cache {ev : SystemEvent} {k : QueryKey} {entry : CachedEntry}
    (h : (written codec c s ev).cache k = some entry) :
    (∃ w accepted, writeOf codec c s ev = some (w, accepted) ∧ w.key = k ∧ w.entry = entry) ∨
      s.cache k = some entry := by
  unfold written at h
  split at h
  · rename_i w accepted hw
    rw [perform_cache] at h
    rcases PartialMap.put_some h with ⟨hk, hentry⟩ | ⟨-, h⟩
    · exact Or.inl ⟨w, accepted, hw, hk.symm, hentry.symm⟩
    · exact Or.inr h
  · exact Or.inr h

/-- **Userspace holds what the event wrote or what it held.** -/
theorem step_cache {ev : SystemEvent} {k : QueryKey} {entry : CachedEntry}
    (h : (systemStep codec c e s ev).cache k = some entry) :
    (∃ w accepted, writeOf codec c s ev = some (w, accepted) ∧ w.key = k ∧ w.entry = entry) ∨
      s.cache k = some entry := by
  cases ev with
  | lookup now ctx => exact Or.inr (afterLookup_cache h)
  | respond clocks ctx accepted => exact written_cache h
  | insert clocks domain qtype qclass resp accepted => exact written_cache h
  | pollRefresh qhash =>
    have hcache : (systemStep codec c e s (.pollRefresh qhash)).cache = s.cache :=
      (pollRefresh_stores qhash).1
    rw [hcache] at h
    exact Or.inr h
  | finish i env => exact written_cache h
  | purge => cases h
  | evict key => exact Or.inr (PartialMap.forget_some h).2
  | evictHash qhash => exact Or.inr h
  | evictKernel key => exact Or.inr h
  | packet env f => exact Or.inr h

theorem written_tasks (ev : SystemEvent) : (written codec c s ev).tasks = s.tasks := by
  unfold written
  split
  · rw [perform_tasks]
  · rfl

/-- **Where a task under way comes from.** -/
theorem step_tasks {ev : SystemEvent} {task : Task}
    (h : task ∈ (systemStep codec c e s ev).tasks) :
    task ∈ s.tasks ∨ (∃ now ctx, ev = .lookup now ctx ∧ task = .prefetch ctx.request) ∨
      ∃ qhash domain qtype qclass, s.xdpHashMap qhash = some (domain, qtype, qclass) ∧
        task = .shadow domain qtype qclass := by
  cases ev with
  | lookup now ctx =>
    rcases afterLookup_tasks h with h | h
    · exact Or.inl h
    · exact Or.inr (Or.inl ⟨now, ctx, rfl, h⟩)
  | pollRefresh qhash =>
    rcases pollRefresh_tasks h with h | ⟨domain, qtype, qclass, hhash, h⟩
    · exact Or.inl h
    · exact Or.inr (Or.inr ⟨qhash, domain, qtype, qclass, hhash, h⟩)
  | respond clocks ctx accepted => exact Or.inl (written_tasks _ ▸ h)
  | insert clocks domain qtype qclass resp accepted => exact Or.inl (written_tasks _ ▸ h)
  | finish i env => exact Or.inl (written_tasks _ ▸ List.mem_of_mem_eraseIdx h)
  | purge => exact Or.inl h
  | evict key => exact Or.inl h
  | evictHash qhash => exact Or.inl h
  | evictKernel key => exact Or.inl h
  | packet env f => exact Or.inl h

theorem written_xdpHashMap {ev : SystemEvent} {h : UInt64} {v : String × UInt16 × UInt16}
    (hv : (written codec c s ev).xdpHashMap h = some v) :
    s.xdpHashMap h = some v ∨ ∃ w accepted u domain, writeOf codec c s ev = some (w, accepted) ∧
      w.push = .sync u domain ∧ h = calculateXdpHash u.qnameRaw u.qtype u.qclass ∧
      v = (domain, u.qtype, u.qclass) := by
  unfold written at hv
  split at hv
  · rename_i w accepted hw
    rcases perform_xdpHashMap hv with hv | ⟨u, domain, hpush, hv⟩
    · exact Or.inl hv
    · exact Or.inr ⟨w, accepted, u, domain, hw, hpush, hv⟩
  · exact Or.inl hv

/-- **Where a text of the reverse mapping comes from.** -/
theorem step_xdpHashMap {ev : SystemEvent} {h : UInt64} {v : String × UInt16 × UInt16}
    (hv : (systemStep codec c e s ev).xdpHashMap h = some v) :
    s.xdpHashMap h = some v ∨ ∃ w accepted u domain, writeOf codec c s ev = some (w, accepted) ∧
      w.push = .sync u domain ∧ h = calculateXdpHash u.qnameRaw u.qtype u.qclass ∧
      v = (domain, u.qtype, u.qclass) := by
  cases ev with
  | lookup now ctx =>
    have hmap : (systemStep codec c e s (.lookup now ctx)).xdpHashMap = s.xdpHashMap :=
      (afterLookup_kernel now ctx).2
    rw [hmap] at hv
    exact Or.inl hv
  | pollRefresh qhash =>
    have hmap : (systemStep codec c e s (.pollRefresh qhash)).xdpHashMap = s.xdpHashMap :=
      (pollRefresh_stores qhash).2.2
    rw [hmap] at hv
    exact Or.inl hv
  | respond clocks ctx accepted => exact written_xdpHashMap hv
  | insert clocks domain qtype qclass resp accepted => exact written_xdpHashMap hv
  | finish i env => exact written_xdpHashMap hv
  | purge => exact Or.inl hv
  | evict key => exact Or.inl hv
  | evictHash qhash => exact Or.inl (PartialMap.forget_some hv).2
  | evictKernel key => exact Or.inl hv
  | packet env f => exact Or.inl hv

/-! ## The kernel cache -/

/-- What an event is to the kernel cache. -/
def kernelEvents (codec : Codec) (c : CachePlugin) (s : CacheSystem) (ev : SystemEvent) :
    List CacheEvent :=
  match ev with
  | .evictKernel key => [.evict key]
  | .packet env f => [.packet env f]
  | ev =>
    match writeOf codec c s ev with
    | some (w, accepted) => ((callOf c s w).map (CacheEvent.update · accepted)).toList
    | none => []

theorem perform_kernelEvents (w : Write) (accepted : Bool) :
    (s.perform c w accepted).kernel = run (cacheStep e) s.kernel
      ((callOf c s w).map (CacheEvent.update · accepted)).toList := by
  rw [perform_kernel]
  cases callOf c s w with
  | none => rfl
  | some u => rfl

theorem step_kernel (ev : SystemEvent) :
    (systemStep codec c e s ev).kernel =
      run (cacheStep e) s.kernel (kernelEvents codec c s ev) := by
  cases ev with
  | lookup now ctx => exact (afterLookup_kernel now ctx).1
  | pollRefresh qhash => exact (pollRefresh_stores qhash).2.1
  | respond clocks ctx accepted =>
    simp only [systemStep, written, kernelEvents]
    split
    · exact perform_kernelEvents _ _
    · rfl
  | insert clocks domain qtype qclass resp accepted =>
    simp only [systemStep, written, kernelEvents]
    split
    · exact perform_kernelEvents _ _
    · rfl
  | finish i env =>
    simp only [systemStep, written, kernelEvents]
    split
    · exact perform_kernelEvents _ _
    · rfl
  | purge => rfl
  | evict key => rfl
  | evictHash qhash => rfl
  | evictKernel key => rfl
  | packet env f => rfl

/-- **The kernel cache of a run is that of the calls, evictions and packets it emits.** -/
theorem run_kernel (s : CacheSystem) (es : List SystemEvent) :
    (run (systemStep codec c e) s es).kernel =
      run (cacheStep e) s.kernel (trace (systemStep codec c e) (kernelEvents codec c) s es) :=
  run_trace (fun s ev => @step_kernel codec c e s ev) s es

end

/-! ## Example data -/

/-- A cache that pushes to the kernel, refreshes nothing and serves nothing stale. -/
def exampleCache : CachePlugin where
  name := "cache"
  minTtl := 0
  maxTtl := 86400
  ttl_range := by decide
  fakeipProtection := false
  prefetchForwarder := none
  prefetchRecursive := none
  prefetchThreshold := 10
  serveStaleTtl := 0
  xdpFilter := true
  xdpCacheEnabled := true

/-- A NOERROR response to `q` with the given answers. -/
def responseTo (q : Question) (answers : List Record) : Message where
  messageType := .response
  recursionDesired := true
  recursionAvailable := true
  queries := [q]
  answers := answers

/-- The answer `192.0.2.1`, for five minutes. -/
def addressAnswer : Message :=
  responseTo exampleQuestion [.fromRdata exampleQuestion.name 300 (.a ⟨192, 0, 2, 1⟩)]

/-- The answer `192.0.2.2`, for five minutes. -/
def otherAnswer : Message :=
  responseTo exampleQuestion [.fromRdata exampleQuestion.name 300 (.a ⟨192, 0, 2, 2⟩)]

/-- `www.example.com`, type TXT. -/
def textQuestion : Question := { exampleQuestion with qtype := 16 }

/-- Four strings of two hundred letters. -/
def textData : List UInt8 := (List.replicate 4 (200 :: List.replicate 200 120)).flatten

def textAnswer : Message :=
  responseTo textQuestion [.fromRdata exampleQuestion.name 300 (.other 16 textData)]

/-- A response to `q` with one answer, whose name is a pointer to the question. -/
def responseBytes (q : Question) (rdata : List UInt8) : List UInt8 :=
  [0, 0, 0x81, 0x80, 0, 1, 0, 1, 0, 0, 0, 0] ++ q.wire ++
    [0xC0, 0x0C] ++ be16 q.qtype ++ [0, 1, 0, 0, 1, 44] ++ be16 (UInt16.ofNat rdata.length) ++ rdata

/-- The library on these messages. -/
def tableCodec : Codec :=
  .ofTable
    [(addressAnswer, responseBytes exampleQuestion [192, 0, 2, 1]),
      (otherAnswer, responseBytes exampleQuestion [192, 0, 2, 2]),
      (textAnswer, responseBytes textQuestion textData)]
    [(exampleQuestion.name, "www.example.com.")]

/-- The context in which a response to a query for `q` reaches the hook. -/
def answeredContext (q : Question) (resp : Message) : Context :=
  { Context.new { queries := [q] } (.v4 ⟨10, 0, 0, 2⟩) with response := some resp }

end CacheSystem

end TitanDns
