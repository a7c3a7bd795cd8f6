import TitanDns.Plugins.Pipeline

/-!
# `SmartForwardPlugin`: which target is asked

`handle` of `smart_forward.rs` with every branch.  What the caches, the classifiers and the network
answer during one call is the environment `SmartForwardEnv`; the n-th exchange of the call has its
own outcome.

* `SmartForwardTarget`, `exchangeTarget` — a single upstream or a group.
* `classifyResponse` — the per-IP cache, the IP matcher, the GeoIP database.
* `isDomesticDomainLower` — the suffix check on the label ranges.
* `answerFrom`, `routeGlobal`, `remembered`, `cached`, `learned`, `probe`, `lastResort` — the
  stages; `Log` is what they do beside the response.
* `handle_refines` — **the plugin ends in one of the outcomes of `SmartForwarded`.**

Principal result: `domestic_not_faked` — **a domestic name never reaches the fake-IP target**: each
stage that may ask it checks the name first.
-/

namespace TitanDns

/-- `SmartForwardTarget`. -/
inductive SmartForwardTarget where
  | single (upstream : Upstream) (label : String)
  | group (forward : ForwardPlugin) (label : String)

namespace SmartForwardTarget

def label : SmartForwardTarget → String
  | .single _ label => label
  | .group _ label => label

/-- `matches_label`: the label of the target or of an upstream of its group. -/
def matchesLabel (t : SmartForwardTarget) (label : String) : Bool :=
  t.label == label ||
    match t with
    | .group forward _ => forward.upstreams.any (·.label == label)
    | .single _ _ => false

end SmartForwardTarget

/-- The plugin, as `new` leaves it. -/
structure SmartForward where
  localTarget : SmartForwardTarget
  fakeip : SmartForwardTarget
  localFallback : Option SmartForwardTarget
  localLabel : String
  fakeLabel : String
  localFallbackLabel : Option String
  avoidFakeipOnDomestic : Bool
  preferLocalOnMiss : Bool
  domesticSuffixLabels : List (List String)
  /-- `ip_matcher.matches` -/
  ipMatcher : Option (IpAddr → Bool)
  /-- `geoip.is_match` -/
  geoip : IpAddr → Bool

namespace SmartForward

/-! ## Domestic names -/

/-- The labels of one lowercased suffix: outer dots trimmed, empty labels left out. -/
def suffixLabels (suffix : String) : List String :=
  ((suffix.toList.splitOn '.').filter (· ≠ [])).map String.ofList

/-- `domestic_suffix_labels` of the lowercased `domestic_suffixes`. -/
def suffixTable (domesticSuffixes : List String) : List (List String) :=
  (domesticSuffixes.map suffixLabels).filter (· ≠ [])

/-- `&qname_lower[start..end]`. -/
def labelAt (name : List Char) (range : Nat × Nat) : String :=
  String.ofList ((name.drop range.1).take (range.2 - range.1))

/-- One suffix against the last ranges. -/
def suffixMatches (name : List Char) (domainLen : Nat) (ranges : List (Nat × Nat))
    (suffix : List String) : Bool :=
  if suffix.length = 0 ∨ ranges.length < suffix.length then false
  else
    ((ranges.drop (ranges.length - suffix.length)).zip suffix).all fun (range, label) =>
      range.2 ≤ domainLen && labelAt name range == label

/-- `is_domestic_domain_lower`. -/
def isDomesticDomainLower (p : SmartForward) (qnameLower : String) (ranges : List (Nat × Nat)) :
    Bool :=
  let domain := trimDots qnameLower
  if p.domesticSuffixLabels = [] then ".cn".toList.isSuffixOf domain.toList
  else if ranges = [] then false
  else p.domesticSuffixLabels.any
    (suffixMatches qnameLower.toList domain.toList.length ranges)

/-! ## Classification -/

/-- One address: what the cache knows, else the matcher, else GeoIP; and the cache afterwards. -/
def classifyIp (p : SmartForward) (cache : IpAddr → Option Bool) (ip : IpAddr) :
    Bool × (IpAddr → Option Bool) :=
  match cache ip with
  | some cached => (cached, cache)
  | none =>
    let isCn := (p.ipMatcher.map (· ip)).getD false || p.geoip ip
    (isCn, Function.update cache ip (some isCn))

/-- The addresses of a section in turn, up to the first domestic one; the result says whether there
was a domestic one, and whether there was any. -/
def classifySection (p : SmartForward) :
    List Record → (IpAddr → Option Bool) → Bool → Bool × Bool × (IpAddr → Option Bool)
  | [], cache, hasIp => (false, hasIp, cache)
  | r :: rs, cache, hasIp =>
    match r.data.ip with
    | none => classifySection p rs cache hasIp
    | some ip =>
      match classifyIp p cache ip with
      | (true, cache) => (true, true, cache)
      | (false, cache) => classifySection p rs cache true

/-- `classify_response`: `(is_cn, has_ip)`. -/
def classifyResponse (p : SmartForward) (cache : IpAddr → Option Bool) (resp : Message) :
    Bool × Bool :=
  match classifySection p resp.answers cache false with
  | (isCn, true, _) => (isCn, true)
  | (_, false, cache) =>
    let (isCn, hasIp, _) := classifySection p resp.additionals cache false
    (isCn, hasIp)

end SmartForward

/-! ## One call -/

/-- What the network answers to one exchange with a target. -/
structure TargetEnv where
  exchange : Upstream → Exchange
  forward : ForwardEnv

/-- What the world answers during one call of the plugin. -/
structure SmartForwardEnv where
  /-- `get_domain_best_upstream_for_client_lower` -/
  bestForClient : Option String
  /-- `get_domain_best_upstream_lower` -/
  bestUpstream : Option String
  /-- `get_domain_cache` -/
  domainCache : Option Bool
  /-- `learning_cache.get` -/
  learningCache : Option Bool
  ipClassCache : IpAddr → Option Bool
  /-- The exchanges of the call in turn. -/
  exchange : Nat → TargetEnv

namespace SmartForward

/-- The targets by the field they stand in. -/
inductive Role where
  | localTarget
  | fakeip
  | localFallback
  deriving DecidableEq, Repr

/-- What a call does beside its response. -/
structure Log where
  /-- The calls of `exchange_target`. -/
  exchanges : List Role := []
  /-- The verdicts given to `record_learning`. -/
  learning : List Bool := []
  /-- The labels given to `record_domain_result_for_client_lower`. -/
  results : List String := []
  deriving DecidableEq

/-- What the stages of one call share. -/
structure Call where
  codec : Codec
  plugin : SmartForward
  env : SmartForwardEnv
  request : Message
  reqBytes : List UInt8
  qnameLower : String
  qnameRanges : List (Nat × Nat)

/-- `exchange_target`; an error is only logged. -/
def exchangeTarget (codec : Codec) (env : TargetEnv) (req : Message) (reqBytes : List UInt8) :
    SmartForwardTarget → Option Message
  | .single upstream _ =>
    match env.exchange upstream with
    | .ok resp => some resp
    | _ => none
  | .group forward _ => (forward.execute codec env.forward req (some reqBytes)).toOption

namespace Call

def ask (c : Call) (target : SmartForwardTarget) (role : Role) (log : Log) : Option Message × Log :=
  (exchangeTarget c.codec (c.env.exchange log.exchanges.length) c.request c.reqBytes target,
    { log with exchanges := log.exchanges ++ [role] })

def isDomestic (c : Call) : Bool := c.plugin.isDomesticDomainLower c.qnameLower c.qnameRanges

/-- The check before every use of the fake-IP target. -/
def guarded (c : Call) : Bool := c.plugin.avoidFakeipOnDomestic && c.isDomestic

/-- Ask a target; on success record the result, and learn. -/
def answerFrom (c : Call) (target : SmartForwardTarget) (role : Role) (label : String)
    (learn : Option Bool) (log : Log) : Option Message × Log :=
  match c.ask target role log with
  | (some resp, log) =>
    (some resp, { log with
      learning := log.learning ++ learn.toList, results := log.results ++ [label] })
  | (none, log) => (none, log)

def routeLocal (c : Call) : Option Bool → Log → Option Message × Log :=
  c.answerFrom c.plugin.localTarget .localTarget c.plugin.localLabel

/-- A verdict for the fake-IP target, corrected for a domestic name. -/
def routeGlobal (c : Call) (learn : Option Bool) (log : Log) : Option Message × Log :=
  if c.guarded then c.routeLocal (some true) log
  else c.answerFrom c.plugin.fakeip .fakeip c.plugin.fakeLabel learn log

/-- Step −1: the upstream that the autopilot remembers. -/
def remembered (c : Call) (log : Log) : Option Message × Log :=
  match c.env.bestForClient <|> c.env.bestUpstream with
  | none => (none, log)
  | some label =>
    if c.plugin.localTarget.matchesLabel label then c.routeLocal (some true) log
    else if c.plugin.fakeip.matchesLabel label then c.routeGlobal (some false) log
    else (none, log)

/-- A verdict found in a cache. -/
def routed (c : Call) (verdict : Option Bool) (log : Log) : Option Message × Log :=
  match verdict with
  | none => (none, log)
  | some true => c.routeLocal none log
  | some false => c.routeGlobal none log

/-- Step 0. -/
def cached (c : Call) : Log → Option Message × Log := c.routed c.env.domainCache

/-- Step 0.5. -/
def learned (c : Call) : Log → Option Message × Log := c.routed c.env.learningCache

/-- What becomes of a probe's response: it is the answer, or it may be kept for a domestic name. -/
def judge (c : Call) (label : String) (resp : Message) (log : Log) :
    Option Message × Option Message × Log :=
  let (isCn, hasIp) := c.plugin.classifyResponse c.env.ipClassCache resp
  if isCn || hasIp && c.plugin.preferLocalOnMiss then
    (some resp, none, { log with
      learning := log.learning ++ [true], results := log.results ++ [label] })
  else if !hasIp then (none, some resp, log)
  else
    (none, if c.isDomestic then some resp else none,
      { log with learning := log.learning ++ [false] })

/-- Step 1: the local target, and its fallback when it fails. -/
def probe (c : Call) (log : Log) : Option Message × Option Message × Log :=
  match c.ask c.plugin.localTarget .localTarget log with
  | (some resp, log) => c.judge c.plugin.localLabel resp log
  | (none, log) =>
    match c.plugin.localFallback with
    | none => (none, none, log)
    | some fallback =>
      match c.ask fallback .localFallback log with
      | (some resp, log) =>
        c.judge (c.plugin.localFallbackLabel.getD fallback.label) resp log
      | (none, log) => (none, none, log)

/-- Step 3: the fake-IP target, or the kept response for a domestic name. -/
def lastResort (c : Call) (kept : Option Message) (log : Log) : SmartForwarded × Log :=
  if c.guarded then
    match kept with
    | some resp => (.answered resp, log)
    | none => (.domesticFailed, log)
  else
    match c.answerFrom c.plugin.fakeip .fakeip c.plugin.fakeLabel none log with
    | (some resp, log) => (.answered resp, log)
    | (none, log) => (.fakeIpFailed, log)

/-- The stages in turn. -/
def decide (c : Call) : SmartForwarded × Log :=
  match c.remembered {} with
  | (some resp, log) => (.answered resp, log)
  | (none, log) =>
    match c.cached log with
    | (some resp, log) => (.answered resp, log)
    | (none, log) =>
      match c.learned log with
      | (some resp, log) => (.answered resp, log)
      | (none, log) =>
        match c.probe log with
        | (some resp, _, log) => (.answered resp, log)
        | (none, kept, log) => c.lastResort kept log

end Call

/-- The call that a request makes, once it is encoded. -/
def callOf (codec : Codec) (p : SmartForward) (env : SmartForwardEnv) (ctx : Context)
    (reqBytes : List UInt8) : Call :=
  ⟨codec, p, env, ctx.request, reqBytes, ctx.qnameLower codec, ctx.qnamePartsRanges codec⟩

/-- `SmartForwardPlugin::handle`, with the log of the call. -/
def handle (codec : Codec) (p : SmartForward) (env : SmartForwardEnv) (ctx : Context) :
    Context × Except String Unit × Log :=
  match ctx.request.query with
  | none => (ctx, .ok (), {})
  | some _ =>
    match ctx.rawRequest.map (·.raw) <|> codec.toVec ctx.request with
    | none => (ctx, .error "encode", {})
    | some reqBytes =>
      let (outcome, log) := (callOf codec p env ctx reqBytes).decide
      (ctx.setResponse (SmartForwardPlugin.response ctx.request outcome) true, .ok (), log)

/-- **The plugin ends in one of the outcomes of `SmartForwarded`.** -/
theorem handle_refines (codec : Codec) (p : SmartForward) (env : SmartForwardEnv)
    (ctx : Context) :
    ∃ outcome, ((handle codec p env ctx).1, (handle codec p env ctx).2.1) =
      SmartForwardPlugin.handle codec outcome ctx := by
  unfold handle SmartForwardPlugin.handle
  cases ctx.request.query with
  | none => exact ⟨.fakeIpFailed, rfl⟩
  | some q =>
    cases ctx.rawRequest.map (·.raw) <|> codec.toVec ctx.request with
    | none => exact ⟨.fakeIpFailed, rfl⟩
    | some reqBytes => exact ⟨(callOf codec p env ctx reqBytes).decide.1, rfl⟩

/-! ## Domestic names and the fake-IP target -/

/-- The fake-IP target was not asked. -/
def Unfaked (log : Log) : Prop := Role.fakeip ∉ log.exchanges

section
variable {c : Call} {log : Log}

theorem ask_unfaked (hlog : Unfaked log) {role : Role} (hrole : role ≠ .fakeip)
    (target : SmartForwardTarget) : Unfaked (c.ask target role log).2 := by
  intro hmem
  rcases List.mem_append.mp hmem with h | h
  · exact hlog h
  · exact hrole (List.mem_singleton.mp h).symm

theorem answerFrom_exchanges (target : SmartForwardTarget) (role : Role) (label : String)
    (learn : Option Bool) :
    (c.answerFrom target role label learn log).2.exchanges =
      (c.ask target role log).2.exchanges := by
  unfold Call.answerFrom
  split <;> simp_all

theorem routeLocal_unfaked (hlog : Unfaked log) (learn : Option Bool) :
    Unfaked (c.routeLocal learn log).2 := by
  unfold Unfaked Call.routeLocal
  rw [answerFrom_exchanges]
  exact ask_unfaked hlog (by decide) _

theorem routeGlobal_unfaked (hguard : c.guarded = true) (hlog : Unfaked log)
    (learn : Option Bool) : Unfaked (c.routeGlobal learn log).2 := by
  unfold Call.routeGlobal
  rw [if_pos hguard]
  exact routeLocal_unfaked hlog _

theorem remembered_unfaked (hguard : c.guarded = true) (hlog : Unfaked log) :
    Unfaked (c.remembered log).2 := by
  unfold Call.remembered
  split
  · exact hlog
  split
  · exact routeLocal_unfaked hlog _
  split
  · exact routeGlobal_unfaked hguard hlog _
  · exact hlog

theorem routed_unfaked (hguard : c.guarded = true) (hlog : Unfaked log)
    (verdict : Option Bool) : Unfaked (c.routed verdict log).2 := by
  unfold Call.routed
  split
  · exact hlog
  · exact routeLocal_unfaked hlog _
  · exact routeGlobal_unfaked hguard hlog _

theorem judge_exchanges (label : String) (resp : Message) :
    (c.judge label resp log).2.2.exchanges = log.exchanges := by
  unfold Call.judge
  simp only
  split
  · rfl
  split
  · rfl
  · rfl

theorem probe_unfaked (hlog : Unfaked log) : Unfaked (c.probe log).2.2 := by
  have hlocal := @ask_unfaked c log hlog .localTarget (by decide) c.plugin.localTarget
  unfold Call.probe
  split
  · rename_i hask
    rw [hask] at hlocal
    unfold Unfaked
    rwa [judge_exchanges]
  rename_i log' hask
  rw [hask] at hlocal
  split
  · exact hlocal
  rename_i fallback _
  have hfallback := @ask_unfaked c log' hlocal .localFallback (by decide) fallback
  split
  · rename_i hask'
    rw [hask'] at hfallback
    unfold Unfaked
    rwa [judge_exchanges]
  · rename_i hask'
    rwa [hask'] at hfallback

theorem lastResort_unfaked (hguard : c.guarded = true) (hlog : Unfaked log)
    (kept : Option Message) : Unfaked (c.lastResort kept log).2 := by
  unfold Call.lastResort
  rw [if_pos hguard]
  split
  · exact hlog
  · exact hlog

/-- **With the guard up no stage asks the fake-IP target.** -/
theorem decide_unfaked (hguard : c.guarded = true) : Unfaked c.decide.2 := by
  have hstart : Unfaked {} := List.not_mem_nil
  have hremembered := remembered_unfaked hguard hstart
  unfold Call.decide
  split
  · rename_i h
    rwa [h] at hremembered
  rename_i log₁ h₁
  rw [h₁] at hremembered
  have hcached : Unfaked (c.cached log₁).2 := routed_unfaked hguard hremembered _
  split
  · rename_i h
    rwa [h] at hcached
  rename_i log₂ h₂
  rw [h₂] at hcached
  have hlearned : Unfaked (c.learned log₂).2 := routed_unfaked hguard hcached _
  split
  · rename_i h
    rwa [h] at hlearned
  rename_i log₃ h₃
  rw [h₃] at hlearned
  have hprobe := probe_unfaked (c := c) hlearned
  split
  · rename_i h
    rwa [h] at hprobe
  · rename_i h
    rw [h] at hprobe
    exact lastResort_unfaked hguard hprobe _

end

/-- **No domestic name reaches the fake-IP target**, whatever the caches hold and however the
exchanges end. -/
theorem domestic_not_faked (codec : Codec) (p : SmartForward) (env : SmartForwardEnv)
    (ctx : Context) (havoid : p.avoidFakeipOnDomestic = true)
    (hdomestic : p.isDomesticDomainLower (ctx.qnameLower codec) (ctx.qnamePartsRanges codec) =
      true) :
    Role.fakeip ∉ (handle codec p env ctx).2.2.exchanges := by
  have hunfaked : Unfaked (handle codec p env ctx).2.2 := by
    unfold handle
    split
    · exact List.not_mem_nil
    split
    · exact List.not_mem_nil
    · rename_i reqBytes _
      apply decide_unfaked
      simp [Call.guarded, Call.isDomestic, callOf, havoid, hdomestic]
  exact hunfaked

/-- A splitter for which `example.com` is domestic. -/
def exampleSplitter : SmartForward where
  localTarget := .single ⟨1, "udp://192.0.2.1:53", false⟩ "udp://192.0.2.1:53"
  fakeip := .single ⟨2, "udp://198.51.100.1:53", false⟩ "udp://198.51.100.1:53"
  localFallback := none
  localLabel := "udp://192.0.2.1:53"
  fakeLabel := "udp://198.51.100.1:53"
  localFallbackLabel := none
  avoidFakeipOnDomestic := true
  preferLocalOnMiss := false
  domesticSuffixLabels := suffixTable [".example.com"]
  ipMatcher := none
  geoip := fun _ => false

/-- Everything remembered says that the name is foreign; every exchange ends in `e`. -/
def foreignEnv (e : Exchange) : SmartForwardEnv where
  bestForClient := some "udp://198.51.100.1:53"
  bestUpstream := none
  domainCache := some false
  learningCache := some false
  ipClassCache := fun _ => some false
  exchange := fun _ => ⟨fun _ => e, .uniform e⟩

theorem domestic_not_faked_example :
    exampleSplitter.isDomesticDomainLower "www.example.com." [(0, 3), (4, 11), (12, 15)] = true ∧
    Role.fakeip ∉ (handle exampleCodec exampleSplitter (foreignEnv .timedOut)
      (.new exampleRequest (.v4 ⟨10, 0, 0, 2⟩))).2.2.exchanges :=
  ⟨by decide +kernel, domestic_not_faked _ _ _ _ rfl (by decide +kernel)⟩

-- The call of the witness asks the local target at each of four stages; without the switch it asks
-- the fake-IP target.
example : (handle exampleCodec exampleSplitter (foreignEnv .timedOut)
      (.new exampleRequest (.v4 ⟨10, 0, 0, 2⟩))).2.2.exchanges =
    List.replicate 4 .localTarget := by decide +kernel

example : Role.fakeip ∈ (handle exampleCodec
      { exampleSplitter with avoidFakeipOnDomestic := false } (foreignEnv .timedOut)
      (.new exampleRequest (.v4 ⟨10, 0, 0, 2⟩))).2.2.exchanges := by decide +kernel

end SmartForward

end TitanDns
