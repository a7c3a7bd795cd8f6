import TitanDns.Plugins.CacheQuestions

/-!
# Shadow refresh

The kernel asks for the refresh of an entry by its key; the task that answers looks the key up in
the reverse mapping, resolves the name it finds and writes both stores: userspace under that name,
the kernel under the name of the question in the response.

* `Refresher` — the two tasks that answer: that of the poller, and that of
  `trigger_shadow_refresh`, which enters the reverse mapping too.  `answer` — the stores when the
  task ends.
* `Refreshes` — both stores hold the refreshed response, and no other entry of the kernel changed.
* `Lands` — the condition: the response is encoded, and the kernel write is made, fits and goes
  under the key that asked (or there was nothing left to do).
* `MappingInv` — every text of the reverse mapping stands under a key of its name.

Principal results: `refreshes_iff` — **a task refreshes the entry that asked exactly if the
question of the response has its key**; `direct_refresh_lands` — **a name that is no alias is
refreshed, along every run**; `trusted_refresh_skips` — a response without a question never reaches
the kernel.
-/

namespace TitanDns

open Bpf Run CacheSystem CachePlugin RecursiveBackend

/-- Who answers a refresh event. -/
inductive Refresher where
  | poller
  | trigger
  deriving DecidableEq, Repr

/-- The stores after the write of `trigger_shadow_refresh`. -/
def triggerWrite (c : CachePlugin) (s : CacheSystem) (w : Write) (domain : String)
    (accepted : Bool) : CacheSystem :=
  let s := { s with cache := PartialMap.put s.cache w.key w.entry }
  match w.push with
  | .update u =>
    if c.xdpCacheEnabled && c.xdpFilter then
      match updateCache s.kernel u accepted with
      | (kernel, .error _) => { s with kernel := kernel }
      | (kernel, .ok _) =>
        { s with
          kernel := kernel
          xdpHashMap := PartialMap.put s.xdpHashMap
            (calculateXdpHash u.qnameRaw u.qtype u.qclass) (domain, u.qtype, u.qclass) }
    else s
  | _ => s

namespace Refresher

variable (codec : Codec) (c : CachePlugin) (r : Refresher)

/-- Whether the task gets as far as `update_cache`. -/
def reaches : Bool :=
  match r with
  | .poller => c.xdpCacheEnabled
  | .trigger => c.xdpCacheEnabled && c.xdpFilter

/-- The end of a task for this question. -/
def finish (s : CacheSystem) (env : TaskEnv) (domain : String) (qtype qclass : UInt16) :
    CacheSystem :=
  match c.shadowRefresh codec env domain qtype qclass with
  | none => s
  | some w =>
    match r with
    | .poller => s.perform c w env.accepted
    | .trigger => triggerWrite c s w domain env.accepted

/-- The stores when the task for the event `h` ends: it starts with what the reverse mapping of
`s₀` holds, and ends in `s`. -/
def answer (s₀ s : CacheSystem) (env : TaskEnv) (h : UInt64) : CacheSystem :=
  match s₀.xdpHashMap h with
  | none => s
  | some (domain, qtype, qclass) => r.finish codec c s env domain qtype qclass

/-- What the kernel takes of the response. -/
def call (env : TaskEnv) (resp : Message) (bytes : List UInt8) (qtype qclass : UInt16) :
    Option CacheUpdate :=
  if r.reaches c && env.accepted then
    resp.query.map fun q => pushOf env.clocks q.name qtype qclass bytes (shadowTtl resp)
  else none

/-- The poller's task, started by a refresh event, ends as an event of the system. -/
theorem answer_poller (e : Endian) {s₀ s : CacheSystem} {i : Nat} {env : TaskEnv} {h : UInt64}
    {domain : String} {qtype qclass : UInt16}
    (hmap : s₀.xdpHashMap h = some (domain, qtype, qclass))
    (htask : s.tasks[i]? = some (.shadow domain qtype qclass)) :
    systemStep codec c e s (.finish i env) =
      { poller.answer codec c s₀ s env h with tasks := s.tasks.eraseIdx i } := by
  have hwrite : writeOf codec c s (.finish i env) =
      (c.shadowRefresh codec env domain qtype qclass).map (·, env.accepted) := by
    simp only [writeOf, htask, Option.bind_some, taskWrite]
  simp only [systemStep, written, hwrite, answer, hmap, finish]
  cases c.shadowRefresh codec env domain qtype qclass with
  | none => rfl
  | some w => simp only [Option.map_some, perform_tasks]

end Refresher

/-! ## What a refresh is for -/

/-- The kernel's entry for the response. -/
def refreshedEntry (env : TaskEnv) (resp : Message) (bytes : List UInt8) : DnsCacheEntry :=
  (CacheUpdate.mk [] 0 0 bytes (UInt64.ofNat (shadowTtl resp)) env.clocks.nowNs).entry

/-- The kernel holds the response under the key, or nothing if the response does not fit. -/
def HoldsRefreshed (m : KernelMaps) (h : UInt64) (env : TaskEnv) (resp : Message)
    (bytes : List UInt8) : Prop :=
  m.dnsCache h = if bytes.length ≤ 768 then some (refreshedEntry env resp bytes) else none

/-- Both stores hold the refreshed response, and no other entry of the kernel changed. -/
structure RefreshedWith (env : TaskEnv) (s s' : CacheSystem) (h : UInt64) (domain : String)
    (qtype qclass : UInt16) (resp : Message) (bytes : List UInt8) : Prop where
  kernel : HoldsRefreshed s'.kernel h env resp bytes
  user : ∃ entry, s'.cache (buildKeyForDomain domain qtype qclass) = some entry ∧
    entry.message = resp ∧ entry.rawBytes = some bytes
  others : ∀ k, k ≠ h → s'.kernel.dnsCache k = s.kernel.dnsCache k

def Refreshes (codec : Codec) (env : TaskEnv) (s s' : CacheSystem) (h : UInt64) (domain : String)
    (qtype qclass : UInt16) (resp : Message) : Prop :=
  ∃ bytes, codec.toVec resp = some bytes ∧ RefreshedWith env s s' h domain qtype qclass resp bytes

/-- The condition: what the kernel takes fits and goes under `h`; or nothing goes there, what is
due is there already, and what goes elsewhere changes nothing. -/
def Lands (codec : Codec) (c : CachePlugin) (r : Refresher) (s : CacheSystem) (env : TaskEnv)
    (h : UInt64) (qtype qclass : UInt16) (resp : Message) : Prop :=
  ∃ bytes, codec.toVec resp = some bytes ∧
    match r.call c env resp bytes qtype qclass with
    | some u =>
      (u.key = h ∧ bytes.length ≤ 768) ∨
        (u.key ≠ h ∧ HoldsRefreshed s.kernel h env resp bytes ∧
          s.kernel.dnsCache u.key = some u.entry)
    | none => HoldsRefreshed s.kernel h env resp bytes

section
variable {codec : Codec} {c : CachePlugin} {r : Refresher} {s₀ s : CacheSystem} {env : TaskEnv}
  {h : UInt64} {domain : String} {qtype qclass : UInt16} {b : RecursiveBackend} {resp : Message}
  {bytes : List UInt8}

/-- Without an encoding the task stores nothing. -/
theorem shadowRefresh_encoded (hb : c.prefetchRecursive = some b)
    (hresp : b.lookup codec env.resolver domain qtype = .ok resp)
    (hbytes : codec.toVec resp = some bytes) :
    c.shadowRefresh codec env domain qtype qclass = some
      { key := buildKeyForDomain domain qtype qclass
        entry := .newWithBytes env.clocks.now resp (shadowTtl resp) bytes
        push :=
          match resp.query with
          | some q => .update (pushOf env.clocks q.name qtype qclass bytes (shadowTtl resp))
          | none => .none } := by
  unfold CachePlugin.shadowRefresh
  cases hq : resp.query with
  | none => simp only [hb, hresp, hbytes, hq, Option.map_some]
  | some q => simp only [hb, hresp, hbytes, hq, Option.map_some]

theorem finish_cache (hb : c.prefetchRecursive = some b)
    (hresp : b.lookup codec env.resolver domain qtype = .ok resp)
    (hbytes : codec.toVec resp = some bytes) :
    (r.finish codec c s env domain qtype qclass).cache =
      PartialMap.put s.cache (buildKeyForDomain domain qtype qclass)
        (.newWithBytes env.clocks.now resp (shadowTtl resp) bytes) := by
  unfold Refresher.finish
  rw [shadowRefresh_encoded hb hresp hbytes]
  cases r with
  | poller => exact perform_cache _ _
  | trigger =>
    simp only [triggerWrite]
    split
    · split
      · split <;> rfl
      · rfl
    · rfl

/-- The kernel cache when the task ends. -/
theorem finish_kernel (hb : c.prefetchRecursive = some b)
    (hresp : b.lookup codec env.resolver domain qtype = .ok resp)
    (hbytes : codec.toVec resp = some bytes) :
    (r.finish codec c s env domain qtype qclass).kernel.dnsCache =
      match r.call c env resp bytes qtype qclass with
      | some u => PartialMap.put s.kernel.dnsCache u.key u.entry
      | none => s.kernel.dnsCache := by
  unfold Refresher.finish
  rw [shadowRefresh_encoded hb hresp hbytes]
  cases hq : resp.query with
  | none =>
    have hcall : r.call c env resp bytes qtype qclass = none := by
      simp [Refresher.call, hq]
    rw [hcall]
    cases r <;> rfl
  | some q =>
    cases r with
    | poller =>
      simp only [perform, Refresher.call, Refresher.reaches, hq]
      cases c.xdpCacheEnabled <;> cases env.accepted <;> rfl
    | trigger =>
      simp only [triggerWrite, Refresher.call, Refresher.reaches, hq]
      cases c.xdpCacheEnabled <;> cases c.xdpFilter <;> cases env.accepted <;> rfl

theorem call_entry {u : CacheUpdate} (h : r.call c env resp bytes qtype qclass = some u) :
    u.entry = refreshedEntry env resp bytes := by
  unfold Refresher.call at h
  split at h
  · obtain ⟨q, -, rfl⟩ := Option.map_eq_some_iff.mp h
    rfl
  · cases h

/-- **A task refreshes the entry that asked exactly if its response lands there.** -/
theorem refreshes_iff (codec : Codec) (c : CachePlugin) (r : Refresher) (s₀ s : CacheSystem)
    (env : TaskEnv) (h : UInt64) (domain : String) (qtype qclass : UInt16) (b : RecursiveBackend)
    (resp : Message) (hmap : s₀.xdpHashMap h = some (domain, qtype, qclass))
    (hb : c.prefetchRecursive = some b)
    (hresp : b.lookup codec env.resolver domain qtype = .ok resp) :
    Refreshes codec env s (r.answer codec c s₀ s env h) h domain qtype qclass resp ↔
      Lands codec c r s env h qtype qclass resp := by
  simp only [Refresher.answer, hmap]
  refine exists_congr fun bytes => and_congr_right fun hbytes => ?_
  have hkernel := @finish_kernel codec c r s env domain qtype qclass b resp bytes hb hresp hbytes
  have huser : ∃ entry, (r.finish codec c s env domain qtype qclass).cache
      (buildKeyForDomain domain qtype qclass) = some entry ∧
      entry.message = resp ∧ entry.rawBytes = some bytes := by
    rw [finish_cache hb hresp hbytes]
    exact ⟨_, PartialMap.put_self _ _ _, rfl, rfl⟩
  cases hcall : r.call c env resp bytes qtype qclass with
  | none =>
    simp only [hcall] at hkernel
    constructor
    · intro hrefreshed
      have hheld := hrefreshed.kernel
      rwa [HoldsRefreshed, hkernel] at hheld
    · intro hheld
      refine ⟨?_, huser, fun k _ => by rw [hkernel]⟩
      rwa [HoldsRefreshed, hkernel]
  | some u =>
    simp only [hcall] at hkernel
    have hentry := call_entry hcall
    by_cases hkey : u.key = h
    · have hwritten : (r.finish codec c s env domain qtype qclass).kernel.dnsCache h =
          some (refreshedEntry env resp bytes) := by
        rw [hkernel, hkey, PartialMap.put_self, hentry]
      constructor
      · intro hrefreshed
        have hheld := hrefreshed.kernel
        rw [HoldsRefreshed, hwritten] at hheld
        refine Or.inl ⟨hkey, ?_⟩
        by_contra hlarge
        rw [if_neg hlarge] at hheld
        cases hheld
      · rintro (⟨-, hfits⟩ | ⟨hne, -⟩)
        · refine ⟨?_, huser, fun k hk => ?_⟩
          · rw [HoldsRefreshed, hwritten, if_pos hfits]
          · rw [hkernel, hkey, PartialMap.put_of_ne hk]
        · exact absurd hkey hne
    · have hsame : (r.finish codec c s env domain qtype qclass).kernel.dnsCache h =
          s.kernel.dnsCache h := by rw [hkernel, PartialMap.put_of_ne (Ne.symm hkey)]
      constructor
      · intro hrefreshed
        have hheld := hrefreshed.kernel
        have hother := hrefreshed.others u.key hkey
        rw [HoldsRefreshed, hsame] at hheld
        rw [hkernel, PartialMap.put_self] at hother
        exact Or.inr ⟨hkey, hheld, hother.symm⟩
      · rintro (⟨hkey', -⟩ | ⟨-, hheld, hother⟩)
        · exact absurd hkey' hkey
        · refine ⟨?_, huser, fun k _ => ?_⟩
          · rwa [HoldsRefreshed, hsame]
          · rw [hkernel]
            by_cases hk : k = u.key
            · rw [hk, PartialMap.put_self, hother]
            · rw [PartialMap.put_of_ne hk]

/-! ## Names that are no alias -/

/-- A response without a question never reaches the kernel. -/
theorem trusted_refresh_skips (hb : c.prefetchRecursive = some b) (hmode : b.mode = .trusted)
    (hresp : b.lookup codec env.resolver domain qtype = .ok resp)
    (hbytes : codec.toVec resp = some bytes) :
    (r.finish codec c s env domain qtype qclass).kernel.dnsCache = s.kernel.dnsCache := by
  have hqueries : resp.queries = [] := by
    unfold RecursiveBackend.lookup at hresp
    rw [hmode] at hresp
    exact lookupTrusted_queries hresp
  have hcall : r.call c env resp bytes qtype qclass = none := by
    unfold Refresher.call Message.query
    rw [hqueries]
    split <;> rfl
  rw [finish_kernel hb hresp hbytes, hcall]

/-- The text of a name, or a text that is read as the name. -/
def Names (codec : Codec) (domain : String) (name : Name) : Prop :=
  domain = codec.display name ∨ codec.fromAscii domain = some name

/-- Every text of the reverse mapping stands under a key of its name. -/
def MappingInv (codec : Codec) (s : CacheSystem) : Prop :=
  ∀ h domain qtype qclass, s.xdpHashMap h = some (domain, qtype, qclass) →
    ∃ name, h = updateCacheKey name.wire qtype qclass ∧ Names codec domain name

theorem write_names {ev : SystemEvent} {w : Write} {accepted : Bool} {u : CacheUpdate}
    (hw : writeOf codec c s ev = some (w, accepted)) (hpush : w.push = .sync u domain) :
    ∃ name, u.qnameRaw = name.wire ∧ Names codec domain name := by
  rcases writeOf_some hw with ⟨clocks, ctx, -, hw⟩ | ⟨clocks, text, qtype, qclass, resp, -, hw⟩ |
    ⟨i, env, task, -, -, -, hw⟩
  · obtain ⟨q, resp, entry, -, -, -, rfl⟩ := onResponse_some hw
    cases hpush
    exact ⟨q.name, rfl, Or.inl rfl⟩
  · obtain ⟨-, -, hnone | ⟨name, hname, hsync⟩⟩ := insertResponseForDomain_some hw
    · rw [hnone] at hpush
      cases hpush
    · rw [hsync] at hpush
      cases hpush
      exact ⟨name, rfl, Or.inr hname⟩
  · -- no background task enters the reverse mapping
    cases task with
    | prefetch request =>
      obtain ⟨q, resp, entry, -, -, -, rfl⟩ := prefetch_some hw
      cases hpush
    | shadow text qtype qclass =>
      obtain ⟨b, resp, bytes, -, -, -, -, -, hnone | ⟨q, -, hupdate⟩⟩ := shadowRefresh_some hw
      · rw [hnone] at hpush
        cases hpush
      · rw [hupdate] at hpush
        cases hpush

theorem step_mappingInv {e : Endian} (hs : MappingInv codec s) (ev : SystemEvent) :
    MappingInv codec (systemStep codec c e s ev) := by
  intro h domain qtype qclass hmap
  rcases step_xdpHashMap hmap with hold | ⟨w, accepted, u, domain', hw, hpush, rfl, heq⟩
  · exact hs h domain qtype qclass hold
  · cases heq
    obtain ⟨name, hname, hnames⟩ := write_names hw hpush
    exact ⟨name, by rw [calculateXdpHash_eq, hname], hnames⟩

theorem run_mappingInv {e : Endian} (es : List SystemEvent) :
    MappingInv codec (run (systemStep codec c e) .empty es) := by
  have hstep : ∀ s ev, MappingInv codec s → MappingInv codec (systemStep codec c e s ev) :=
    fun _ ev hs => step_mappingInv hs ev
  have hempty : MappingInv codec .empty := by
    intro h domain qtype qclass hnone
    cases hnone
  exact invariant_run hstep hempty es

/-- What the name is read as has the key of the name. -/
theorem names_key (hread : ∀ n, codec.display n = domain → codec.ReadsBack n) {name name' : Name}
    (hnames : Names codec domain name) (hname' : codec.fromAscii domain = some name')
    (qtype qclass : UInt16) :
    updateCacheKey name'.wire qtype qclass = updateCacheKey name.wire qtype qclass := by
  rcases hnames with rfl | hname
  · obtain ⟨back, hback, hsame⟩ := hread name rfl
    rw [hname'] at hback
    cases hback
    exact @updateCacheKey_same ⟨name', qtype, qclass⟩ ⟨name, qtype, qclass⟩ ⟨hsame, rfl, rfl⟩
  · rw [hname'] at hname
    cases hname
    rfl

/-- **A name that is no alias is refreshed**: the iterative mode keeps the question, whose key is
the one that asked, if the text it is mapped to is read back. -/
theorem direct_refresh_lands (hread : ∀ n, codec.display n = domain → codec.ReadsBack n)
    {e : Endian} {es : List SystemEvent}
    (hmap : (run (systemStep codec c e) .empty es).xdpHashMap h = some (domain, qtype, qclass))
    (hecho : Echoes env.resolver) (huses : b.UsesIterative codec env.resolver domain qtype)
    {name : Name} (hname : codec.fromAscii domain = some name)
    (halias : NoAlias env.resolver name qtype)
    (hresp : b.lookup codec env.resolver domain qtype = .ok resp)
    (hbytes : codec.toVec resp = some bytes) (hfits : bytes.length ≤ 768)
    (hreaches : r.reaches c = true) (haccepted : env.accepted = true) :
    Lands codec c r s env h qtype qclass resp := by
  obtain ⟨name₀, rfl, hnames⟩ := run_mappingInv es h domain qtype qclass hmap
  have hqueries := lookup_queries hecho hname halias huses hresp
  have hcall : r.call c env resp bytes qtype qclass =
      some (pushOf env.clocks name qtype qclass bytes (shadowTtl resp)) := by
    unfold Refresher.call Message.query
    rw [hqueries, hreaches, haccepted]
    rfl
  refine ⟨bytes, hbytes, ?_⟩
  rw [hcall]
  exact Or.inl ⟨names_key hread hnames hname qtype qclass, hfits⟩

end

/-! ## An alias -/

/-- `ar.com` under the given address. -/
def aliasAnswer : Message := responseTo arCom [.fromRdata arCom.name 300 (.a ⟨192, 0, 2, 7⟩)]

/-- `www.example.com` is an alias of `ar.com`. -/
def aliasReply : Message :=
  responseTo exampleQuestion [.fromRdata exampleQuestion.name 300 (.cname arCom.name)]

/-- The library on what is stored here. -/
def aliasCodec : Codec :=
  .ofTable
    [(addressAnswer, responseBytes exampleQuestion [192, 0, 2, 1]),
      (otherAnswer, responseBytes exampleQuestion [192, 0, 2, 2]),
      (aliasAnswer, responseBytes arCom [192, 0, 2, 7])]
    [(exampleQuestion.name, "www.example.com."), (arCom.name, "ar.com.")]

/-- A backend with one root server. -/
def oneRoot : RecursiveBackend := ⟨.iterative, false, [.v4 ⟨198, 41, 0, 4⟩]⟩

/-- A cache whose refreshes resolve from the root. -/
def iterativeCache : CachePlugin := { exampleCache with prefetchRecursive := some oneRoot }

/-- The root server's answer to a question for `www.example.com`, and to any other. -/
def refreshEnv (first : Message) : TaskEnv where
  clocks := ⟨355, 355000000000⟩
  forward := .uniform .failed
  resolver :=
    { id := fun _ => 0
      exchange := fun _ _ query =>
        some (if query.queries = [exampleQuestion] then first else aliasAnswer)
      trusted := fun _ _ => none
      shuffle := fun _ ips => ips }
  accepted := true

/-- The key of `www.example.com`. -/
def exampleKey : UInt64 := updateCacheKey exampleQuestion.name.wire 1 1

/-- An answer is stored; five seconds before it expires a client asks, and the event is polled. -/
def askedState : CacheSystem :=
  run (systemStep aliasCodec iterativeCache .little) .empty
    [.respond ⟨0, 0⟩ (answeredContext exampleQuestion addressAnswer) true,
      .packet ⟨355000000000, true, true⟩ (queryFrame ⟨10, 0, 0, 2⟩ 7 7 exampleQuestion),
      .pollRefresh exampleKey]

theorem askedState_asked :
    askedState.kernel.refreshRingbuf = [⟨exampleKey, 5000000000⟩] ∧
      askedState.xdpHashMap exampleKey = some ("www.example.com.", 1, 1) ∧
      askedState.tasks = [.shadow "www.example.com." 1 1] := by
  decide +kernel

/-- Another address is found and stored for `www.example.com`. -/
theorem refreshes_iff_direct :
    Refreshes aliasCodec (refreshEnv otherAnswer) askedState
      (Refresher.poller.answer aliasCodec iterativeCache askedState askedState
        (refreshEnv otherAnswer) exampleKey) exampleKey "www.example.com." 1 1 otherAnswer :=
  (refreshes_iff aliasCodec iterativeCache .poller askedState askedState (refreshEnv otherAnswer)
    exampleKey "www.example.com." 1 1 oneRoot otherAnswer askedState_asked.2.1 rfl
    (by rfl)).mpr
    ⟨responseBytes exampleQuestion [192, 0, 2, 2], by decide +kernel, Or.inl (by decide +kernel)⟩

/-- For an alias the entry of another name is created, and that of `www.example.com` expires. -/
theorem alias_not_refreshed :
    askedState.kernel.refreshRingbuf = [⟨exampleKey, 5000000000⟩] ∧
      askedState.xdpHashMap exampleKey = some ("www.example.com.", 1, 1) ∧
      oneRoot.lookup aliasCodec (refreshEnv aliasReply).resolver "www.example.com." 1 =
        .ok aliasAnswer ∧
      ¬ Refreshes aliasCodec (refreshEnv aliasReply) askedState
        (Refresher.poller.answer aliasCodec iterativeCache askedState askedState
          (refreshEnv aliasReply) exampleKey) exampleKey "www.example.com." 1 1 aliasAnswer := by
  refine ⟨askedState_asked.1, askedState_asked.2.1, by rfl, ?_⟩
  rintro ⟨bytes, -, hrefreshed⟩
  have hother := hrefreshed.others (updateCacheKey arCom.name.wire 1 1) (by decide +kernel)
  have hcreated := congrArg Option.isSome hother
  revert hcreated
  decide +kernel

end TitanDns
