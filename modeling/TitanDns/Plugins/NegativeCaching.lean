import TitanDns.Plugins.CacheSystem
import TitanDns.Plugins.Pipeline

/-!
# How long a failure is cached

* `negativeTtl` — the negative TTL of a response: of its SOA record, the lesser of TTL and minimum.
* `NotPinned` — what an entry must be so that no failure is pinned by it: no SERVFAIL, and without
  answers it lives no longer than the negative TTL, or `min_ttl`.
* `HarmlessEvent` — the responses that reach the writers are such that this holds of what is
  stored: a condition on the responses and on the configuration.
* `failures_not_pinned_iff` — **a run stores nothing but such entries exactly when its events are
  harmless**, and then no client is served a failure that is older.
* `failure_stored` — but **a chain whose upstreams all fail stores its SERVFAIL for `max_ttl`**;
  `failure_pinned` is such a run.
-/

namespace TitanDns

open Bpf Run CacheSystem CachePlugin

/-- The lesser of TTL and minimum of the first SOA record, zero without one. -/
def negativeTtl (resp : Message) : Nat :=
  (resp.nameServers.findSome? fun r =>
    match r.data with
    | .soa _ _ _ _ _ _ minimum => some (min r.ttl.toNat minimum.toNat)
    | _ => none).getD 0

/-- The entry pins no failure. -/
structure NotPinned (c : CachePlugin) (entry : CachedEntry) : Prop where
  code : entry.message.responseCode ≠ .servFail
  noAnswers : entry.message.answers = [] → entry.ttl ≤ max (negativeTtl entry.message) c.minTtl

/-- Whatever the event stores pins no failure. -/
def StoresNotPinned (codec : Codec) (c : CachePlugin) (s : CacheSystem) (ev : SystemEvent) : Prop :=
  ∀ w accepted, writeOf codec c s ev = some (w, accepted) → NotPinned c w.entry

/-! ## Harmless responses -/

/-- The response has no lifetime: nothing raises it, and the maximum or a TTL is zero. -/
def NoLifetime (c : CachePlugin) (resp : Message) : Prop :=
  c.minTtl = 0 ∧ (c.maxTtl = 0 ∨ ∃ ans ∈ resp.answers, ans.ttl.toNat = 0)

/-- A response that is stored unless `refused`, and without answers for `longest`. -/
structure Harmless (c : CachePlugin) (resp : Message) (refused : Prop) (longest : Nat) : Prop where
  servFail : resp.responseCode = .servFail → refused
  noAnswers : resp.answers = [] → refused ∨ longest ≤ max (negativeTtl resp) c.minTtl

/-- For the hook and the smart refresher, which refuse what is too large. -/
def HarmlessInsert (codec : Codec) (c : CachePlugin) (resp : Message) : Prop :=
  Harmless c resp (MAX_CACHE_ENTRY_SIZE < (encoded codec resp).length ∨ NoLifetime c resp) c.maxTtl

/-- For the prefetch, which refuses what has no encoding. -/
def HarmlessRefresh (codec : Codec) (c : CachePlugin) (resp : Message) : Prop :=
  Harmless c resp (NoLifetime c resp ∨ codec.toVec resp = none) c.maxTtl

/-- For the shadow refresh, which gives a response without answers five minutes. -/
def HarmlessShadow (codec : Codec) (c : CachePlugin) (resp : Message) : Prop :=
  Harmless c resp (codec.toVec resp = none) 300

/-- The responses a background task obtains are harmless. -/
def HarmlessTask (codec : Codec) (c : CachePlugin) (env : TaskEnv) : Task → Prop
  | .prefetch request => ∀ q resp, request.query = some q →
      refreshed codec c env request q = some resp → HarmlessRefresh codec c resp
  | .shadow domain qtype _ => ∀ b resp, c.prefetchRecursive = some b →
      b.lookup codec env.resolver domain qtype = .ok resp → HarmlessShadow codec c resp

/-- The responses that reach a writer are harmless. -/
def HarmlessEvent (codec : Codec) (c : CachePlugin) (s : CacheSystem) : SystemEvent → Prop
  | .respond _ ctx _ => ∀ q resp, ctx.request.query = some q → ctx.response = some resp →
      HarmlessInsert codec c resp
  | .insert _ _ _ _ resp _ => HarmlessInsert codec c resp
  | .finish i env => ∀ task, s.tasks[i]? = some task → HarmlessTask codec c env task
  | _ => True

section
variable {codec : Codec} {c : CachePlugin} {e : Endian} {s : CacheSystem}

theorem noLifetime_iff (resp : Message) : NoLifetime c resp ↔ c.calculateTtl resp = 0 :=
  (c.calculateTtl_eq_zero resp).symm

/-- An entry for the response with its lifetime, which may be refused. -/
theorem harmless_iff {resp : Message} {refused : Prop} {longest : Nat} {found : Option CachedEntry}
    (hrefused : refused ↔ found = none)
    (hstored : ∀ entry, found = some entry →
      entry.message = resp ∧ (resp.answers = [] → entry.ttl = longest)) :
    Harmless c resp refused longest ↔ ∀ entry, found = some entry → NotPinned c entry := by
  constructor
  · intro h entry hentry
    obtain ⟨hmsg, hlong⟩ := hstored entry hentry
    have hnot : ¬ refused := by
      rw [hrefused, hentry]
      exact Option.some_ne_none entry
    refine ⟨?_, ?_⟩
    · rw [hmsg]
      exact fun hcode => hnot (h.servFail hcode)
    · rw [hmsg]
      intro hempty
      rw [hlong hempty]
      exact (h.noAnswers hempty).resolve_left hnot
  · intro h
    by_cases hr : refused
    · exact ⟨fun _ => hr, fun _ => Or.inl hr⟩
    · obtain ⟨entry, hentry⟩ := Option.ne_none_iff_exists'.mp fun hnone => hr (hrefused.mpr hnone)
      obtain ⟨hmsg, hlong⟩ := hstored entry hentry
      have hgood := h entry hentry
      refine ⟨?_, ?_⟩
      · intro hcode
        rw [← hmsg] at hcode
        exact absurd hcode hgood.code
      · intro hempty
        apply Or.inr
        have hbound := hgood.noAnswers
        rw [hmsg] at hbound
        rw [← hlong hempty]
        exact hbound hempty

theorem harmlessInsert_iff (now : Nat) (resp : Message) :
    HarmlessInsert codec c resp ↔
      ∀ entry, entryFor codec c now resp = some entry → NotPinned c entry := by
  apply harmless_iff
  · rw [noLifetime_iff]
    unfold entryFor
    split
    · rename_i hlarge
      exact iff_of_true (Or.inl hlarge) rfl
    · rename_i hsmall
      split
      · rename_i hzero
        exact iff_of_true (Or.inr hzero) rfl
      · rename_i hpos
        exact iff_of_false (not_or.mpr ⟨hsmall, hpos⟩) (Option.some_ne_none _)
  · intro entry hentry
    obtain ⟨-, -, rfl⟩ := entryFor_some hentry
    exact ⟨rfl, calculateTtl_nil⟩

theorem harmlessRefresh_iff (now : Nat) (resp : Message) :
    HarmlessRefresh codec c resp ↔
      ∀ entry, refreshEntryFor codec c now resp = some entry → NotPinned c entry := by
  apply harmless_iff
  · rw [noLifetime_iff]
    unfold refreshEntryFor
    split
    · rename_i hzero
      exact iff_of_true (Or.inl hzero) rfl
    · rename_i hpos
      rw [Option.map_eq_none_iff]
      exact or_iff_right hpos
  · intro entry hentry
    obtain ⟨-, bytes, -, rfl⟩ := refreshEntryFor_some hentry
    exact ⟨rfl, calculateTtl_nil⟩

theorem harmlessShadow_iff (now : Nat) (resp : Message) :
    HarmlessShadow codec c resp ↔
      ∀ entry, (codec.toVec resp).map (CachedEntry.newWithBytes now resp (shadowTtl resp)) =
        some entry → NotPinned c entry := by
  apply harmless_iff Option.map_eq_none_iff.symm
  intro entry hentry
  obtain ⟨bytes, -, rfl⟩ := Option.map_eq_some_iff.mp hentry
  refine ⟨rfl, ?_⟩
  intro hempty
  show shadowTtl resp = 300
  rw [shadowTtl, hempty]
  rfl

/-- The writes of a step are those of its writer. -/
theorem storesNotPinned_iff {ev : SystemEvent} {write : Option Write} {accepted : Bool}
    (h : writeOf codec c s ev = write.map (·, accepted)) :
    StoresNotPinned codec c s ev ↔ ∀ w, write = some w → NotPinned c w.entry := by
  unfold StoresNotPinned
  rw [h]
  constructor
  · intro hall w hw
    exact hall w accepted (by rw [hw]; rfl)
  · intro hall w accepted' hw
    obtain ⟨w', hw', heq⟩ := Option.map_eq_some_iff.mp hw
    cases heq
    exact hall w hw'

theorem onResponse_notPinned (clocks : Clocks) (ctx : Context) :
    (∀ w, c.onResponse codec clocks ctx = some w → NotPinned c w.entry) ↔
      ∀ q resp, ctx.request.query = some q → ctx.response = some resp →
        HarmlessInsert codec c resp := by
  constructor
  · intro h q resp hq hresp
    rw [harmlessInsert_iff clocks.now]
    intro entry hentry
    unfold onResponse at h
    simp only [hq, hresp] at h
    exact h _ (Option.map_eq_some_iff.mpr ⟨entry, hentry, rfl⟩)
  · intro h w hw
    obtain ⟨q, resp, entry, hq, hresp, hentry, rfl⟩ := onResponse_some hw
    exact (harmlessInsert_iff clocks.now resp).mp (h q resp hq hresp) entry hentry

theorem insertResponseForDomain_notPinned (clocks : Clocks) (domain : String)
    (qtype qclass : UInt16) (resp : Message) :
    (∀ w, c.insertResponseForDomain codec clocks domain qtype qclass resp = some w →
      NotPinned c w.entry) ↔ HarmlessInsert codec c resp := by
  rw [harmlessInsert_iff clocks.now]
  constructor
  · intro h entry hentry
    unfold insertResponseForDomain at h
    exact h _ (Option.map_eq_some_iff.mpr ⟨entry, hentry, rfl⟩)
  · intro h w hw
    obtain ⟨hentry, -, -⟩ := insertResponseForDomain_some hw
    exact h w.entry hentry

theorem prefetch_notPinned (env : TaskEnv) (request : Message) :
    (∀ w, c.prefetch codec env request = some w → NotPinned c w.entry) ↔
      HarmlessTask codec c env (.prefetch request) := by
  constructor
  · intro h q resp hq hresp
    rw [harmlessRefresh_iff env.clocks.now]
    intro entry hentry
    unfold prefetch at h
    simp only [hq, hresp, Option.bind_some] at h
    exact h _ (Option.map_eq_some_iff.mpr ⟨entry, hentry, rfl⟩)
  · intro h w hw
    obtain ⟨q, resp, entry, hq, hresp, hentry, rfl⟩ := prefetch_some hw
    exact (harmlessRefresh_iff env.clocks.now resp).mp (h q resp hq hresp) entry hentry

theorem shadowRefresh_notPinned (env : TaskEnv) (domain : String) (qtype qclass : UInt16) :
    (∀ w, c.shadowRefresh codec env domain qtype qclass = some w → NotPinned c w.entry) ↔
      HarmlessTask codec c env (.shadow domain qtype qclass) := by
  constructor
  · intro h b resp hb hresp
    rw [harmlessShadow_iff env.clocks.now]
    intro entry hentry
    obtain ⟨bytes, hbytes, rfl⟩ := Option.map_eq_some_iff.mp hentry
    unfold CachePlugin.shadowRefresh at h
    simp only [hb, hresp] at h
    exact h _ (Option.map_eq_some_iff.mpr ⟨bytes, hbytes, rfl⟩)
  · intro h w hw
    obtain ⟨b, resp, bytes, hb, hresp, hbytes, -, hentry, -⟩ := shadowRefresh_some hw
    rw [hentry]
    refine (harmlessShadow_iff env.clocks.now resp).mp (h b resp hb hresp) _ ?_
    rw [hbytes]
    rfl

theorem finish_notPinned (i : Nat) (env : TaskEnv) :
    StoresNotPinned codec c s (.finish i env) ↔ HarmlessEvent codec c s (.finish i env) := by
  have hwrite : writeOf codec c s (.finish i env) =
      (s.tasks[i]?.bind (taskWrite codec c env)).map (·, env.accepted) := by
    show s.tasks[i]?.bind _ = _
    cases s.tasks[i]? <;> rfl
  rw [storesNotPinned_iff hwrite]
  unfold HarmlessEvent
  cases htask : s.tasks[i]? with
  | none =>
    refine iff_of_true ?_ ?_
    · intro w hw
      cases hw
    · intro task htask'
      rw [htask] at htask'
      cases htask'
  | some task =>
    rw [Option.bind_some]
    have hone : (∀ w, taskWrite codec c env task = some w → NotPinned c w.entry) ↔
        HarmlessTask codec c env task := by
      cases task with
      | prefetch request => exact prefetch_notPinned env request
      | shadow domain qtype qclass => exact shadowRefresh_notPinned env domain qtype qclass
    rw [hone]
    constructor
    · intro h task' htask'
      rw [htask] at htask'
      cases htask'
      exact h
    · exact fun h => h task htask

/-- **One event**: what it stores pins no failure exactly when it is harmless. -/
theorem step_notPinned_iff (ev : SystemEvent) :
    StoresNotPinned codec c s ev ↔ HarmlessEvent codec c s ev := by
  have hnone : ∀ {ev : SystemEvent}, writeOf codec c s ev = none →
      StoresNotPinned codec c s ev := by
    intro ev h w accepted hw
    rw [h] at hw
    cases hw
  cases ev with
  | respond clocks ctx accepted =>
    rw [storesNotPinned_iff rfl]
    exact onResponse_notPinned clocks ctx
  | insert clocks domain qtype qclass resp accepted =>
    rw [storesNotPinned_iff rfl]
    exact insertResponseForDomain_notPinned clocks domain qtype qclass resp
  | finish i env => exact finish_notPinned i env
  | lookup now ctx => exact iff_of_true (hnone rfl) trivial
  | pollRefresh qhash => exact iff_of_true (hnone rfl) trivial
  | purge => exact iff_of_true (hnone rfl) trivial
  | evict key => exact iff_of_true (hnone rfl) trivial
  | evictHash qhash => exact iff_of_true (hnone rfl) trivial
  | evictKernel key => exact iff_of_true (hnone rfl) trivial
  | packet env f => exact iff_of_true (hnone rfl) trivial

/-- What a harmless event keeps. -/
theorem step_notPinned {ev : SystemEvent} (hs : ∀ k entry, s.cache k = some entry →
    NotPinned c entry) (hev : HarmlessEvent codec c s ev) :
    ∀ k entry, (systemStep codec c e s ev).cache k = some entry → NotPinned c entry := by
  intro k entry hentry
  rcases step_cache hentry with ⟨w, accepted, hw, -, rfl⟩ | hentry
  · exact (step_notPinned_iff ev).mpr hev w accepted hw
  · exact hs k entry hentry

/-! ## What is served -/

/-- Nothing is served after its lifetime. -/
def NothingStale (c : CachePlugin) : Prop := c.fakeipProtection = true ∨ c.serveStaleTtl = 0

theorem serve_age {now : Nat} {entry : CachedEntry} (hstale : NothingStale c)
    (h : c.lookupDecision now entry = .serve) : now - entry.timestamp < entry.ttl := by
  have hwithin := serve_within h
  have hwindow : c.staleWindow = 0 := by
    unfold staleWindow
    split
    · rfl
    · rename_i hfake
      exact hstale.resolve_left hfake
  omega

/-- **No failure is pinned exactly when every event is harmless**: then no lookup is served a
SERVFAIL, nor, unless stale entries are served, a response without answers once its negative TTL,
or `min_ttl`, is over. -/
theorem failures_not_pinned_iff (es : List SystemEvent) :
    (Meets (systemStep codec c e) (StoresNotPinned codec c) .empty es ↔
      Meets (systemStep codec c e) (HarmlessEvent codec c) .empty es) ∧
    (Meets (systemStep codec c e) (HarmlessEvent codec c) .empty es → NothingStale c →
      ∀ now ctx entry, Serves codec c (run (systemStep codec c e) .empty es) now ctx entry →
        entry.message.responseCode ≠ .servFail ∧
        (entry.message.answers = [] →
          now - entry.timestamp < max (negativeTtl entry.message) c.minTtl)) := by
  refine ⟨Meets.congr fun s ev => step_notPinned_iff ev, ?_⟩
  intro hes hstale now ctx entry hserves
  obtain ⟨hfound, hserve⟩ := hserves
  obtain ⟨key, -, hentry⟩ := Option.bind_eq_some_iff.mp hfound
  have hgood : NotPinned c entry := by
    refine invariant (fun s ev hs hev => step_notPinned hs hev) ?_ hes key entry hentry
    intro k entry hnone
    cases hnone
  refine ⟨hgood.code, ?_⟩
  intro hempty
  have hage := serve_age hstale hserve
  have hbound := hgood.noAnswers hempty
  omega

/-! ## When every upstream fails -/

/-- The chain `cache → forward`: the context that reaches the hook. -/
def chainContext (codec : Codec) (c : CachePlugin) (f : ForwardPlugin) (env : ForwardEnv)
    (s : CacheSystem) (now : Nat) (ctx : Context) : Context :=
  (f.handle codec env (s.handle codec c now ctx)).1

/-- **A failure of every upstream is stored for `max_ttl`.** -/
theorem failure_stored {f : ForwardPlugin} {env : ForwardEnv} {ctx : Context} {q : Question}
    (hfail : f.AllFail env) (hclient : env.clientBlocked = false)
    (hq : ctx.request.query = some q) {now : Nat} (hmiss : (getKey codec ctx).bind s.cache = none)
    (hmax : 0 < c.maxTtl)
    (hsize : (encoded codec (ForwardPlugin.servFail ctx.request)).length ≤ MAX_CACHE_ENTRY_SIZE)
    (clocks : Clocks) :
    ∃ w, c.onResponse codec clocks (chainContext codec c f env s now ctx) = some w ∧
      w.entry.message.responseCode = .servFail ∧ w.entry.ttl = c.maxTtl := by
  have hmissed : s.handle codec c now ctx =
      { ctx with postProcessHooks := ctx.postProcessHooks ++ [c.name] } := by
    unfold CacheSystem.handle
    rw [hmiss]
    unfold handleWith getKey
    rw [hq]
    rfl
  have hchain : chainContext codec c f env s now ctx =
      (s.handle codec c now ctx).setResponse (ForwardPlugin.servFail ctx.request) true := by
    unfold chainContext
    rw [ForwardPlugin.handle_fails hfail hclient (by rw [hmissed, hq]; rfl), hmissed]
  have hresp : (chainContext codec c f env s now ctx).response =
      some (ForwardPlugin.servFail ctx.request) := by
    rw [hchain, hmissed]
    exact Context.setResponse_noAnswers rfl true
  have hreq : (chainContext codec c f env s now ctx).request.query = some q := by
    rw [hchain, hmissed]
    exact hq
  have httl : c.calculateTtl (ForwardPlugin.servFail ctx.request) = c.maxTtl := calculateTtl_nil rfl
  have hentry : entryFor codec c clocks.now (ForwardPlugin.servFail ctx.request) =
      some (.newWithBytes clocks.now (ForwardPlugin.servFail ctx.request) c.maxTtl
        (encoded codec (ForwardPlugin.servFail ctx.request))) := by
    unfold entryFor
    rw [if_neg (Nat.not_lt.mpr hsize), httl, if_neg (by omega)]
  unfold onResponse
  simp only [hreq, hresp, hentry, Option.map_some]
  exact ⟨_, rfl, rfl, rfl⟩

end

/-- The library on a query and the SERVFAIL for it. -/
def failureCodec : Codec :=
  .ofTable
    [({ exampleRequest with id := 0 },
        [0, 0, 1, 0, 0, 1, 0, 0, 0, 0, 0, 0] ++ exampleQuestion.wire),
      ({ ForwardPlugin.servFail exampleRequest with id := 0 },
        [0, 0, 0x80, 2, 0, 1, 0, 0, 0, 0, 0, 0] ++ exampleQuestion.wire)]
    [(exampleQuestion.name, "www.example.com.")]

/-- The client's query. -/
def exampleLookup : Context := .new exampleRequest (.v4 ⟨10, 0, 0, 2⟩)

/-- A query at time 0 while no upstream answers. -/
def failureRun : List SystemEvent :=
  [.lookup 0 exampleLookup,
    .respond ⟨0, 0⟩ (chainContext failureCodec exampleCache singleForward (.uniform .failed)
      .empty 0 exampleLookup) true]

/-- What is stored for it. -/
def failureEntry : CachedEntry :=
  .newWithBytes 0 (ForwardPlugin.servFail exampleRequest) 86400
    ([0, 7, 0x80, 2, 0, 1, 0, 0, 0, 0, 0, 0] ++ exampleQuestion.wire)

/-- **A day of SERVFAIL**: one failure at time 0 is served until second 86400. -/
theorem failure_pinned :
    failureEntry.message.responseCode = .servFail ∧ failureEntry.message.answers = [] ∧
    negativeTtl failureEntry.message = 0 ∧ exampleCache.minTtl = 0 ∧ NothingStale exampleCache ∧
    ¬ Meets (systemStep failureCodec exampleCache .little)
      (StoresNotPinned failureCodec exampleCache) .empty failureRun ∧
    Serves failureCodec exampleCache
      (run (systemStep failureCodec exampleCache .little) .empty failureRun) 86399 exampleLookup
      failureEntry := by
  refine ⟨rfl, rfl, rfl, rfl, Or.inr rfl, ?_, by decide +kernel⟩
  rintro ⟨-, hstores, -⟩
  have hwrite : (writeOf failureCodec exampleCache
      (systemStep failureCodec exampleCache .little .empty (.lookup 0 exampleLookup))
      (.respond ⟨0, 0⟩ (chainContext failureCodec exampleCache singleForward (.uniform .failed)
        .empty 0 exampleLookup) true)).map (·.1.entry) = some failureEntry := by
    decide +kernel
  obtain ⟨⟨w, accepted⟩, hw, hentry⟩ := Option.map_eq_some_iff.mp hwrite
  have hcode := (hstores w accepted hw).code
  rw [hentry] at hcode
  exact hcode rfl

end TitanDns
