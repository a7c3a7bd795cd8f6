import TitanDns.Core.Context

/-!
# Plugins that answer, tag or rewrite

* `HostsPlugin`, `SmartForwardPlugin`, `SmartResolvePlugin`, `AliApiPlugin` — responders; what the
  network answers to the last three is their argument.
* `GeoSitePlugin`, `MatcherPlugin`, `GeoIpPlugin`, `IpMatcherPlugin` — tags, by name or by address.
* `EcsPlugin` — the client subnet of the request.
* `Dns64Plugin`, `TtlPlugin` — rewrite the answers of a response.

Principal results: `dns64_noAnswers`, `ttl_noAnswers` — **a response without answers is not
rewritten**; the taggers leave the response alone.
-/

namespace TitanDns

/-! ## Hosts -/

structure HostsPlugin where
  hosts : String → Option (List IpAddr)

namespace HostsPlugin

/-- Lower case with the trailing dot. -/
def normalized (hostname : String) : String :=
  if hostname.toList.getLast? = some '.' then hostname.toLower else hostname.toLower ++ "."

/-- `get_ips`. -/
def getIps (h : HostsPlugin) (hostname : String) : Option (List IpAddr) :=
  h.hosts (normalized hostname)

/-- The records of the type asked for. -/
def records (query : Question) (ips : List IpAddr) : List Record :=
  ips.filterMap fun ip =>
    match ip with
    | .v4 ip => if query.qtype = TYPE_A then some (.fromRdata query.name 300 (.a ip)) else none
    | .v6 ip =>
      if query.qtype = TYPE_AAAA then some (.fromRdata query.name 300 (.aaaa ip)) else none

/-- `create_response`: nothing without a record of the type. -/
def createResponse (codec : Codec) (h : HostsPlugin) (ctx : Context) : Option Message := do
  let query ← ctx.request.query
  let ips ← h.getIps (ctx.qname codec)
  let found := records query ips
  if found.isEmpty then none
  else
    some { ctx.request with
      messageType := .response
      responseCode := .noError
      authoritative := true
      answers := ctx.request.answers ++ found }

/-- `handle`: only A and AAAA have records, so the test of the type is that of `records`. -/
def handle (codec : Codec) (h : HostsPlugin) (ctx : Context) : Context :=
  match h.createResponse codec ctx with
  | some response => ctx.setResponse response true
  | none => ctx

end HostsPlugin

/-! ## Responders that ask the network -/

/-- What `SmartForwardPlugin` ends with once the request is encoded. -/
inductive SmartForwarded where
  /-- The response of some upstream. -/
  | answered (msg : Message)
  /-- A domestic name whose local upstream failed. -/
  | domesticFailed
  /-- The last upstream failed too. -/
  | fakeIpFailed

namespace SmartForwardPlugin

def response (request : Message) : SmartForwarded → Message
  | .answered msg => { msg with id := request.id }
  | .domesticFailed =>
    { id := request.id, messageType := .response, opCode := 0, responseCode := .servFail,
      queries := request.query.toList }
  | .fakeIpFailed =>
    { id := request.id, messageType := .response, opCode := 0, responseCode := .servFail }

def handle (codec : Codec) (outcome : SmartForwarded) (ctx : Context) :
    Context × Except String Unit :=
  match ctx.request.query with
  | none => (ctx, .ok ())
  | some _ =>
    match ctx.rawRequest.map (·.raw) <|> codec.toVec ctx.request with
    | none => (ctx, .error "encode")
    | some _ => (ctx.setResponse (response ctx.request outcome) true, .ok ())

end SmartForwardPlugin

/-- What `SmartResolvePlugin` hears: the gathered records, none after a timeout, what probing and
sorting leave of records, and the first response of the upstreams asked one by one. -/
structure SmartResolveEnv where
  gathered : Option (List Record)
  sorted : List Record → List Record
  forwarded : Option Message

namespace SmartResolvePlugin

/-- `build_response`. -/
def buildResponse (request : Message) (sorted : List Record) : Message where
  id := request.id
  messageType := .response
  opCode := 0
  responseCode := .noError
  queries := request.query.toList
  answers := sorted

/-- `fallback_forward`. -/
def fallbackForward (env : SmartResolveEnv) (ctx : Context) : Context :=
  match env.forwarded with
  | some response => ctx.setResponse { response with id := ctx.request.id } true
  | none => ctx

/-- Only addresses are probed. -/
def probed (request : Message) : Bool :=
  request.query.any fun q => q.qtype == TYPE_A || q.qtype == TYPE_AAAA

/-- `handle`: an error of `handle_internal` leaves the context alone and is not returned.  Whether
there are records is asked before they are probed. -/
def handle (env : SmartResolveEnv) (ctx : Context) : Context :=
  if probed ctx.request then
    match env.gathered with
    | some (r :: rs) => ctx.setResponse (buildResponse ctx.request (env.sorted (r :: rs))) true
    | some [] => fallbackForward env ctx
    | none => fallbackForward env ctx
  else fallbackForward env ctx

end SmartResolvePlugin

/-- `AliDNSResponse`; an answer is its TTL and its data as parsed under its type. -/
structure AliDNSResponse where
  status : Int32
  tc : Bool
  ad : Bool
  cd : Bool
  answer : List (UInt32 × Option RData)

namespace AliApiPlugin

/-- The code of a status: of one without a name of its own, the low four bits. -/
def rcode (status : Int32) : ResponseCode :=
  if status = 0 then .noError
  else if status = 1 then .formErr
  else if status = 2 then .servFail
  else if status = 3 then .nxDomain
  else .ofLow status.toUInt32.toUInt8

def response (request : Message) (query : Question) (json : AliDNSResponse) : Message where
  id := request.id
  messageType := .response
  opCode := 0
  recursionDesired := true
  recursionAvailable := true
  queries := [query]
  responseCode := rcode json.status
  truncated := json.tc
  authoritative := json.ad
  checkingDisabled := json.cd
  answers :=
    if json.status = 0 then
      json.answer.filterMap fun ans => ans.2.map (.fromRdata query.name ans.1)
    else []

def handle (reply : Except String AliDNSResponse) (ctx : Context) : Context × Except String Unit :=
  match ctx.request.query with
  | none => (ctx, .error "No query")
  | some query =>
    match reply with
    | .error e => (ctx, .error e)
    | .ok json => (ctx.setResponse (response ctx.request query json) true, .ok ())

end AliApiPlugin

/-! ## Tags -/

/-- The mark, when there is one. -/
def addMark (ctx : Context) : Option String → Context
  | some mark => ctx.addTag mark
  | none => ctx

/-- Mark a query whose lower-case name is listed. -/
def markName (codec : Codec) (matchesLower : String → Bool) (mark : Option String) (ctx : Context) :
    Context :=
  if ctx.request.query.isSome && matchesLower (ctx.qname codec).toLower then addMark ctx mark
  else ctx

/-- The addresses among the answers of the response, if it is held as a message. -/
def answerIps (ctx : Context) : List IpAddr :=
  match ctx.response with
  | some resp => resp.answers.filterMap (·.data.ip)
  | none => []

/-- `GeoSitePlugin`: the domain set of its category, and the mark. -/
structure GeoSitePlugin where
  matchesLower : String → Bool
  mark : Option String

def GeoSitePlugin.handle (codec : Codec) (g : GeoSitePlugin) (ctx : Context) : Context :=
  markName codec g.matchesLower g.mark ctx

/-- `MatcherPlugin`: its rules, and the mark. -/
structure MatcherPlugin where
  name : String
  matchesLower : String → Bool
  mark : Option String

/-- `matches`: lower case, without trailing dots. -/
def MatcherPlugin.matchesDomain (m : MatcherPlugin) (domain : String) : Bool :=
  m.matchesLower (trimDots domain).toLower

def MatcherPlugin.handle (codec : Codec) (m : MatcherPlugin) (ctx : Context) : Context :=
  markName codec m.matchesLower m.mark ctx

inductive GeoIpMode where
  | client
  | response
  deriving DecidableEq, Repr

/-- `GeoIpPlugin`: `checkIp` is the lookup in the database. -/
structure GeoIpPlugin where
  checkIp : IpAddr → Bool
  mode : GeoIpMode
  tag : String
  invert : Bool

def GeoIpPlugin.matched (g : GeoIpPlugin) (ctx : Context) : Bool :=
  match g.mode with
  | .client => g.checkIp ctx.clientIp
  | .response => (answerIps ctx).any g.checkIp

def GeoIpPlugin.handle (g : GeoIpPlugin) (ctx : Context) : Context :=
  if (g.matched ctx && !g.invert) || (!g.matched ctx && g.invert) then ctx.addTag g.tag else ctx

/-- `IpMatcherPlugin`: its networks, and the mark. -/
structure IpMatcherPlugin where
  matchesIp : IpAddr → Bool
  mark : Option String

def IpMatcherPlugin.handle (m : IpMatcherPlugin) (ctx : Context) : Context :=
  if (answerIps ctx).any m.matchesIp then addMark ctx m.mark else ctx

/-! ## The client subnet -/

structure EcsPlugin where
  auto : Bool
  v4Mask : UInt8
  v6Mask : UInt8
  forceSubnet : Option IpAddr

namespace EcsPlugin

/-- `is_loopback`. -/
def isLoopback : IpAddr → Bool
  | .v4 ip => ip.a == 127
  | .v6 ip => ip.high == 0 && ip.low == 1

/-- `apply_ecs`. -/
def applyEcs (e : EcsPlugin) (ctx : Context) (ip : IpAddr) : Context :=
  let mask := match ip with
    | .v4 _ => e.v4Mask
    | .v6 _ => e.v6Mask
  let edns := ctx.request.edns.getD {}
  { ctx with
    request := { ctx.request with edns := some { edns with subnet := some ⟨ip, mask, 0⟩ } } }

def handle (e : EcsPlugin) (ctx : Context) : Context :=
  match e.forceSubnet with
  | some ip => e.applyEcs ctx ip
  | none => if e.auto && !isLoopback ctx.clientIp then e.applyEcs ctx ctx.clientIp else ctx

end EcsPlugin

/-! ## Rewriting answers -/

structure Dns64Plugin where
  ipv6Prefix : Ipv6Addr
  prefixLen : UInt8
  onlyIfNoAaaa : Bool

namespace Dns64Plugin

/-- `synthesize_ipv6`: every length but 64 is treated as 96. -/
def synthesizeIpv6 (d : Dns64Plugin) (ip : Ipv4Addr) : Ipv6Addr :=
  if d.prefixLen = 64 then ⟨d.ipv6Prefix.high, ip.toU32.toUInt64 <<< 24⟩
  else ⟨d.ipv6Prefix.high, (d.ipv6Prefix.low &&& 0xffffffff00000000) ||| ip.toU32.toUInt64⟩

/-- `get_a_records`. -/
def getARecords (msg : Message) : List (Name × UInt32 × Ipv4Addr) :=
  msg.answers.filterMap fun r =>
    match r.data with
    | .a ip => some (r.name, r.ttl, ip)
    | _ => none

def synthesized (d : Dns64Plugin) (request response : Message) : Message where
  id := request.id
  messageType := .response
  opCode := response.opCode
  responseCode := .noError
  recursionDesired := true
  recursionAvailable := true
  queries := request.query.toList
  answers := (getARecords response).map fun r =>
    .fromRdata r.1 r.2.1 (.aaaa (d.synthesizeIpv6 r.2.2))
  nameServers := response.nameServers
  additionals := response.additionals

def handle (d : Dns64Plugin) (ctx : Context) : Context :=
  if ctx.request.query.any (·.qtype == TYPE_AAAA) then
    match ctx.response with
    | none => ctx
    | some response =>
      if d.onlyIfNoAaaa && response.answers.any (·.recordType == TYPE_AAAA) then ctx
      else if (getARecords response).isEmpty then ctx
      else { ctx with response := some (d.synthesized ctx.request response) }
  else ctx

end Dns64Plugin

structure TtlPlugin where
  fixed : Option UInt32
  min : Option UInt32
  max : Option UInt32

namespace TtlPlugin

def newTtl (t : TtlPlugin) (ttl : UInt32) : UInt32 :=
  match t.fixed with
  | some fixed => fixed
  | none =>
    let ttl := match t.min with
      | some min => if ttl < min then min else ttl
      | none => ttl
    match t.max with
    | some max => if max < ttl then max else ttl
    | none => ttl

/-- `apply_ttl`. -/
def handle (t : TtlPlugin) (ctx : Context) : Context :=
  { ctx with response := ctx.response.map fun resp =>
      { resp with answers := resp.answers.map fun r => { r with ttl := t.newTtl r.ttl } } }

end TtlPlugin

/-! ## What does not touch the response -/

theorem addMark_kept (ctx : Context) (mark : Option String) : ctx.Kept (addMark ctx mark) := by
  cases mark with
  | none => exact Context.Kept.refl ctx
  | some mark => exact Context.addTag_kept ctx mark

theorem markName_kept (codec : Codec) (matchesLower : String → Bool) (mark : Option String)
    (ctx : Context) : ctx.Kept (markName codec matchesLower mark ctx) := by
  unfold markName
  split
  · exact addMark_kept ctx mark
  · exact Context.Kept.refl ctx

theorem geoIp_kept (g : GeoIpPlugin) (ctx : Context) : ctx.Kept (g.handle ctx) := by
  unfold GeoIpPlugin.handle
  split
  · exact Context.addTag_kept ctx _
  · exact Context.Kept.refl ctx

theorem ipMatcher_kept (m : IpMatcherPlugin) (ctx : Context) : ctx.Kept (m.handle ctx) := by
  unfold IpMatcherPlugin.handle
  split
  · exact addMark_kept ctx _
  · exact Context.Kept.refl ctx

theorem ecs_kept (e : EcsPlugin) (ctx : Context) : ctx.Kept (e.handle ctx) := by
  unfold EcsPlugin.handle
  split
  · exact ⟨rfl, rfl, rfl⟩
  · split
    · exact ⟨rfl, rfl, rfl⟩
    · exact Context.Kept.refl ctx

/-- Without answers there is no address to synthesize from. -/
theorem dns64_noAnswers {d : Dns64Plugin} {ctx : Context} {m : Message}
    (h : ctx.response = some m) (hm : m.answers = []) : d.handle ctx = ctx := by
  have hrecords : Dns64Plugin.getARecords m = [] := by
    unfold Dns64Plugin.getARecords
    rw [hm]
    rfl
  unfold Dns64Plugin.handle
  rw [h]
  simp only [hrecords, List.isEmpty_nil, if_true, ite_self]

theorem ttl_noAnswers {t : TtlPlugin} {ctx : Context} {m : Message} (h : ctx.response = some m)
    (hm : m.answers = []) : ctx.Kept (t.handle ctx) := by
  refine ⟨?_, rfl, rfl⟩
  unfold TtlPlugin.handle
  rw [h]
  cases m
  simp only at hm
  subst hm
  rfl

end TitanDns
