import TitanDns.Plugins.CacheSystem
import TitanDns.Plugins.Calls
import Mathlib.Algebra.Group.Nat.Defs

/-!
# `on_response`

What the plugins do with a response that is about to be sent, and the hooks of a run in their
order.

* `isKnownPoisonIp` — the addresses known to be forged.
* `filterBestIps`, `ForwardPlugin.onResponse` — the checks of the forward; `DnssecPlugin.onResponse`
  — a tag.
* `runHooks` — every hook in turn, with what the caches among them write.

Principal results: `inspect_keeps_poison` — **the check of the forward changes the response code and
leaves the address it found where it is**; `runHooks_keeps` — **so does every list of hooks.**
-/

namespace TitanDns

/-! ## Known poison -/

def KNOWN_POISON_IPS : List IpAddr :=
  [.v4 ⟨127, 0, 0, 1⟩, .v4 ⟨0, 0, 0, 0⟩, .v4 ⟨243, 185, 187, 39⟩, .v4 ⟨46, 82, 174, 68⟩,
    .v4 ⟨37, 61, 54, 158⟩, .v4 ⟨93, 46, 8, 89⟩, .v4 ⟨59, 24, 3, 173⟩, .v4 ⟨203, 98, 7, 65⟩,
    .v4 ⟨8, 7, 198, 45⟩, .v4 ⟨78, 16, 49, 15⟩, .v4 ⟨159, 106, 121, 75⟩]

/-- `is_known_poison_ip`. -/
def isKnownPoisonIp (ip : IpAddr) : Bool := KNOWN_POISON_IPS.contains ip

/-- The addresses of some records. -/
def recordIps (rs : List Record) : List IpAddr := rs.filterMap (·.data.ip)

/-- Every address in a message. -/
def Message.ips (m : Message) : List IpAddr :=
  recordIps m.answers ++ recordIps m.nameServers ++ recordIps m.additionals

/-! ## The forward -/

structure IpQuality where
  reachable : Bool
  tcpLatencyMs : Option Nat
  deriving DecidableEq

/-- What the world answers to one `on_response`. -/
structure HookEnv where
  clocks : Clocks
  /-- `get_smart_ttl` for the domain. -/
  smartTtl : UInt32 → Option UInt32
  /-- `is_ip_known_bad` -/
  knownBad : IpAddr → Bool
  /-- `get_ip_quality_fresh` -/
  quality : IpAddr → Option IpQuality

namespace ForwardPlugin

def KEEP_KNOWN_PER_FAMILY : Nat := 2

def KEEP_UNKNOWN_FALLBACK_PER_FAMILY : Nat := 1

/-- `should_limit_best_ips`. -/
def shouldLimitBestIps (ctx : Context) : Bool :=
  if ctx.hasTag "proxy" then false
  else ctx.hasTag "cn" || ctx.hasTag "direct" || ctx.hasTag "ip_cn" || ctx.hasTag "ip_cn_accurate"

/-- The reachable addresses with their latencies. -/
def knownIps (env : HookEnv) (ips : List IpAddr) : List (IpAddr × Nat) :=
  (ips.filter fun ip => !env.knownBad ip).filterMap fun ip =>
    match env.quality ip with
    | some q =>
      if q.reachable then some (ip, q.tcpLatencyMs.getD ((2 ^ 64 - 1) / 2)) else none
    | none => none

/-- The addresses nothing is known about. -/
def unknownIps (env : HookEnv) (ips : List IpAddr) : List IpAddr :=
  ips.filter fun ip => !env.knownBad ip && (env.quality ip).isNone

/-- The addresses of one family that are kept, and whether all are. -/
def keepOf (known : List (IpAddr × Nat)) (unknown : List IpAddr) : List IpAddr × Bool :=
  if known.isEmpty then ([], !unknown.isEmpty)
  else
    (((known.mergeSort fun a b => a.2 ≤ b.2).take KEEP_KNOWN_PER_FAMILY).map (·.1) ++
      unknown.take KEEP_UNKNOWN_FALLBACK_PER_FAMILY, false)

def isV4 : IpAddr → Bool
  | .v4 _ => true
  | .v6 _ => false

/-- `filter_best_ips`. -/
def filterBestIps (env : HookEnv) (limit : Bool) (resp : Message) : Message :=
  if limit then
    let ips := recordIps resp.answers
    let v4 := ips.filter isV4
    let v6 := ips.filter fun ip => !isV4 ip
    if (knownIps env v4).isEmpty && (knownIps env v6).isEmpty then resp
    else
      let keep4 := keepOf (knownIps env v4) (unknownIps env v4)
      let keep6 := keepOf (knownIps env v6) (unknownIps env v6)
      if (keep4.1 ++ keep6.1).isEmpty && !keep4.2 && !keep6.2 then resp
      else
        { resp with answers := resp.answers.filter fun r =>
            match r.data with
            | .a ip => keep4.2 || (keep4.1 ++ keep6.1).contains (.v4 ip)
            | .aaaa ip => keep6.2 || (keep4.1 ++ keep6.1).contains (.v6 ip)
            | _ => true }
  else resp

/-- The smallest TTL of the answers, `u32::MAX` without any. -/
def minTtl (answers : List Record) : UInt32 :=
  answers.foldl (fun ttl r => min ttl r.ttl) 0xffffffff

/-- The smart TTL on every address record. -/
def applySmartTtl (env : HookEnv) (resp : Message) : Message :=
  if (recordIps resp.answers).isEmpty || minTtl resp.answers == 0xffffffff then resp
  else
    match env.smartTtl (minTtl resp.answers) with
    | some ttl =>
      { resp with answers := resp.answers.map fun r =>
          if r.isAddress then { r with ttl := ttl } else r }
    | none => resp

/-- What `on_response` makes of a response: a poisoned one gets another response code and nothing
else. -/
def inspect (env : HookEnv) (limit : Bool) (resp : Message) : Message :=
  if resp.responseCode = .noError then
    if (recordIps resp.answers).any isKnownPoisonIp then { resp with responseCode := .servFail }
    else filterBestIps env limit (applySmartTtl env resp)
  else resp

/-- `ForwardPlugin::on_response`. -/
def onResponse (env : HookEnv) (ctx : Context) : Context :=
  { ctx with response := ctx.response.map (inspect env (shouldLimitBestIps ctx)) }

end ForwardPlugin

/-! ## The other plugins -/

namespace DnssecPlugin

/-- `has_dnssec_records`: RRSIG, DNSKEY and DS, in the authority section NSEC and NSEC3 too. -/
def hasDnssecRecords (m : Message) : Bool :=
  m.answers.any (fun r => [46, 48, 43].contains r.recordType) ||
    m.nameServers.any fun r => [46, 48, 43, 47, 50].contains r.recordType

/-- The tag for the status; no response is found bogus. -/
def statusTag (m : Message) : String :=
  if m.authenticData then "dnssec_secure"
  else if hasDnssecRecords m then "dnssec_indeterminate"
  else "dnssec_insecure"

/-- `DnssecPlugin::on_response`. -/
def onResponse (ctx : Context) : Context :=
  match ctx.response with
  | none => ctx
  | some resp => ctx.addTag (statusTag resp)

end DnssecPlugin

/-- A write into the cache of a plugin. -/
structure Stored where
  cache : String
  write : Write
  deriving DecidableEq

/-- `AnyPlugin::on_response`: the context it leaves and what it stores. -/
def AnyPlugin.onResponse (codec : Codec) (env : HookEnv) :
    AnyPlugin → Context → Context × Option Stored
  | .cache c, ctx => (ctx, (c.onResponse codec env.clocks ctx).map (⟨c.name, ·⟩))
  | .forward _, ctx => (ForwardPlugin.onResponse env ctx, none)
  | .dnssec, ctx => (DnssecPlugin.onResponse ctx, none)
  | _, ctx => (ctx, none)

/-- The plugins that implement `on_response`. -/
def AnyPlugin.overrides : AnyPlugin → Bool
  | .cache _ => true
  | .forward _ => true
  | .log => true
  | .dnssec => true
  | _ => false

/-- Every hook in turn, each with its own answers of the world. -/
def runHooks (codec : Codec) (env : Nat → HookEnv) :
    List AnyPlugin → Context → Context × List Stored
  | [], ctx => (ctx, [])
  | hook :: hooks, ctx =>
    let first := hook.onResponse codec (env hooks.length) ctx
    let rest := runHooks codec env hooks first.1
    (rest.1, first.2.toList ++ rest.2)

/-! ## What the hooks leave in a response -/

/-- Rewriting records that keeps their data keeps the addresses. -/
theorem recordIps_map {rs : List Record} {f : Record → Record} (hf : ∀ r, (f r).data = r.data) :
    recordIps (rs.map f) = recordIps rs := by
  unfold recordIps
  rw [List.filterMap_map]
  refine congrArg (fun g => rs.filterMap g) (funext fun r => ?_)
  rw [Function.comp_apply, hf]

namespace ForwardPlugin

theorem applySmartTtl_sections (env : HookEnv) (resp : Message) :
    (applySmartTtl env resp).nameServers = resp.nameServers ∧
      (applySmartTtl env resp).additionals = resp.additionals := by
  unfold applySmartTtl
  split
  · exact ⟨rfl, rfl⟩
  · split
    · exact ⟨rfl, rfl⟩
    · exact ⟨rfl, rfl⟩

theorem filterBestIps_sections (env : HookEnv) (limit : Bool) (resp : Message) :
    (filterBestIps env limit resp).nameServers = resp.nameServers ∧
      (filterBestIps env limit resp).additionals = resp.additionals := by
  unfold filterBestIps
  split
  · simp only
    split
    · exact ⟨rfl, rfl⟩
    · split
      · exact ⟨rfl, rfl⟩
      · exact ⟨rfl, rfl⟩
  · exact ⟨rfl, rfl⟩

/-- **A poison address stays in the response it is found in.** -/
theorem inspect_keeps_poison (env : HookEnv) (limit : Bool) {resp : Message} {ip : IpAddr}
    (hip : ip ∈ resp.ips) (hpoison : isKnownPoisonIp ip = true) :
    ip ∈ (inspect env limit resp).ips := by
  unfold inspect
  split
  · split
    · exact hip
    · -- then it is not among the answers, and only these are rewritten
      rename_i hclean
      unfold Message.ips at hip ⊢
      obtain ⟨hns, had⟩ := filterBestIps_sections env limit (applySmartTtl env resp)
      obtain ⟨hns', had'⟩ := applySmartTtl_sections env resp
      rw [hns, had, hns', had']
      rcases List.mem_append.mp hip with hip | hip
      · rcases List.mem_append.mp hip with hip | hip
        · exact absurd (List.any_eq_true.mpr ⟨ip, hip, hpoison⟩) hclean
        · exact List.mem_append_left _ (List.mem_append_right _ hip)
      · exact List.mem_append_right _ hip
  · exact hip

end ForwardPlugin

/-- The response, as a message, holds the address. -/
def Context.Shows (ctx : Context) (ip : IpAddr) : Prop :=
  ctx.rawResponse = none ∧ ∃ m, ctx.response = some m ∧ ip ∈ m.ips

theorem Context.addTag_response (ctx : Context) (tag : String) :
    (ctx.addTag tag).response = ctx.response ∧ (ctx.addTag tag).rawResponse = ctx.rawResponse :=
  ⟨(Context.addTag_kept ctx tag).response, (Context.addTag_kept ctx tag).rawResponse⟩

theorem onResponse_keeps {codec : Codec} {env : HookEnv} (hook : AnyPlugin) {ctx : Context}
    {ip : IpAddr} (hpoison : isKnownPoisonIp ip = true) (h : ctx.Shows ip) :
    (hook.onResponse codec env ctx).1.Shows ip := by
  obtain ⟨hraw, m, hm, hip⟩ := h
  cases hook with
  | forward f =>
    refine ⟨hraw, _, ?_, ForwardPlugin.inspect_keeps_poison env
      (ForwardPlugin.shouldLimitBestIps ctx) hip hpoison⟩
    show ctx.response.map _ = _
    rw [hm]
    rfl
  | dnssec =>
    show (DnssecPlugin.onResponse ctx).Shows ip
    unfold DnssecPlugin.onResponse
    rw [hm]
    obtain ⟨hr, hraw'⟩ := ctx.addTag_response (DnssecPlugin.statusTag m)
    exact ⟨hraw'.trans hraw, m, hr.trans hm, hip⟩
  | _ => exact ⟨hraw, m, hm, hip⟩

/-- **No list of hooks removes a poison address.** -/
theorem runHooks_keeps {codec : Codec} {env : Nat → HookEnv} {hooks : List AnyPlugin}
    {ctx : Context} {ip : IpAddr} (hpoison : isKnownPoisonIp ip = true) (h : ctx.Shows ip) :
    (runHooks codec env hooks ctx).1.Shows ip := by
  induction hooks generalizing ctx with
  | nil => exact h
  | cons hook hooks ih => exact ih (onResponse_keeps hook hpoison h)

/-- Caches leave the context alone. -/
theorem runHooks_caches {codec : Codec} {env : Nat → HookEnv} {hooks : List AnyPlugin}
    (hcaches : ∀ hook ∈ hooks, ∃ c, hook = .cache c) (ctx : Context) :
    (runHooks codec env hooks ctx).1 = ctx := by
  induction hooks with
  | nil => rfl
  | cons hook hooks ih =>
    obtain ⟨c, rfl⟩ := hcaches hook List.mem_cons_self
    exact ih fun h hh => hcaches h (List.mem_cons_of_mem _ hh)

/-- What a list of caches stores: what each of them does. -/
theorem mem_runHooks_caches {codec : Codec} {env : Nat → HookEnv} {hooks : List AnyPlugin}
    (hcaches : ∀ hook ∈ hooks, ∃ c, hook = .cache c) {ctx : Context} {e : Stored}
    (he : e ∈ (runHooks codec env hooks ctx).2) :
    ∃ c i write, .cache c ∈ hooks ∧ c.onResponse codec (env i).clocks ctx = some write ∧
      e = ⟨c.name, write⟩ := by
  induction hooks with
  | nil => cases he
  | cons hook hooks ih =>
    obtain ⟨c, rfl⟩ := hcaches hook List.mem_cons_self
    rcases List.mem_append.mp he with he | he
    · obtain ⟨write, hwrite, rfl⟩ := Option.map_eq_some_iff.mp (Option.mem_toList.mp he)
      exact ⟨c, hooks.length, write, List.mem_cons_self, hwrite, rfl⟩
    · obtain ⟨c', i, write, hc', hrest⟩ :=
        ih (fun h hh => hcaches h (List.mem_cons_of_mem _ hh)) he
      exact ⟨c', i, write, List.mem_cons_of_mem _ hc', hrest⟩

/-- Each of them does. -/
theorem runHooks_stores (codec : Codec) (env : Nat → HookEnv) {hooks : List AnyPlugin}
    (hcaches : ∀ hook ∈ hooks, ∃ c, hook = .cache c) (ctx : Context) {c : CachePlugin}
    (hc : .cache c ∈ hooks) :
    ∃ i, ∀ write, c.onResponse codec (env i).clocks ctx = some write →
      ⟨c.name, write⟩ ∈ (runHooks codec env hooks ctx).2 := by
  induction hooks with
  | nil => cases hc
  | cons hook hooks ih =>
    obtain ⟨c', rfl⟩ := hcaches hook List.mem_cons_self
    rcases List.mem_cons.mp hc with heq | hc
    · cases heq
      exact ⟨hooks.length, fun write hwrite => List.mem_append_left _
        (Option.mem_toList.mpr (Option.map_eq_some_iff.mpr ⟨write, hwrite, rfl⟩))⟩
    · obtain ⟨i, hi⟩ := ih (fun h hh => hcaches h (List.mem_cons_of_mem _ hh)) hc
      exact ⟨i, fun write hwrite => List.mem_append_right _ (hi write hwrite)⟩

end TitanDns
