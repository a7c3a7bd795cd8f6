import TitanDns.Core.Context

/-!
# Plugins that refuse a query

* `AdBlockPlugin`, `Ipv6FilterPlugin` — put a response into the context and let the sequence go on.
* `RejectPlugin`, `DGAPlugin`, `RateLimitPlugin` — set a response and stop the sequence.

Principal results: `adBlock_ok`, `ipv6Filter_ok` — **what the first two leave when they block**;
both leave `abort` alone.
-/

namespace TitanDns

/-! ## Ad blocking -/

/-- `RuleSet`, as loaded: lower-case names. -/
structure RuleSet where
  exact : List String
  suffix : List String
  deriving DecidableEq

namespace RuleSet

/-- The loop over the suffixes that start at a label; `start` says that a label starts here. -/
def matchesSuffix (suffix : List String) : Bool → List Char → Bool
  | _, [] => false
  | start, c :: cs =>
    (start && suffix.contains (String.ofList (c :: cs))) || matchesSuffix suffix (c == '.') cs

/-- `matches`. -/
def matchesDomain (r : RuleSet) (domain : String) : Bool :=
  let lower := domain.toLower
  r.exact.contains lower || matchesSuffix r.suffix true lower.toList

end RuleSet

structure AdBlockPlugin where
  blacklist : RuleSet
  whitelist : RuleSet
  deriving DecidableEq

namespace AdBlockPlugin

/-- `should_block`; a whitelisted name is not blocked. -/
def shouldBlock (codec : Codec) (b : AdBlockPlugin) (ctx : Context) : Bool :=
  let hostname := trimDots (ctx.qname codec)
  !b.whitelist.matchesDomain hostname && b.blacklist.matchesDomain hostname

/-- The NXDOMAIN response to a question. -/
def blocked (request : Message) (query : Question) : Message where
  id := request.id
  opCode := 0
  messageType := .response
  responseCode := .nxDomain
  recursionAvailable := true
  queries := [query]

def handle (codec : Codec) (b : AdBlockPlugin) (ctx : Context) : Context :=
  if ctx.response.isSome then ctx
  else
    match ctx.request.query with
    | none => ctx
    | some query =>
      if b.shouldBlock codec ctx then { ctx with response := some (blocked ctx.request query) }
      else ctx

end AdBlockPlugin

/-! ## IPv6 -/

inductive Ipv6FilterMode where
  | preferIpv4
  | preferIpv6
  | disableIpv6
  | disabled
  deriving DecidableEq, Repr

structure Ipv6FilterPlugin where
  mode : Ipv6FilterMode
  delayAaaaMs : Nat
  deriving DecidableEq

namespace Ipv6FilterPlugin

/-- The empty NOERROR response to a question. -/
def suppressed (request : Message) (query : Question) : Message where
  id := request.id
  opCode := 0
  messageType := .response
  responseCode := .noError
  recursionAvailable := true
  queries := [query]

/-- The context after `handle`; the two preferences only wait. -/
def handle (f : Ipv6FilterPlugin) (ctx : Context) : Context :=
  if ctx.response.isSome || f.mode = .disabled then ctx
  else
    match ctx.request.query with
    | none => ctx
    | some query =>
      match f.mode with
      | .disableIpv6 =>
        if query.qtype = TYPE_AAAA then
          { ctx with response := some (suppressed ctx.request query) }
        else ctx
      | .preferIpv4 => ctx
      | .preferIpv6 => ctx
      | .disabled => ctx

/-- The milliseconds `handle` sleeps. -/
def delay (f : Ipv6FilterPlugin) (ctx : Context) : Nat :=
  if ctx.response.isSome then 0
  else
    match ctx.request.query, f.mode with
    | some query, .preferIpv4 => if query.qtype = TYPE_AAAA then f.delayAaaaMs else 0
    | some query, .preferIpv6 => if query.qtype = TYPE_A then f.delayAaaaMs else 0
    | _, _ => 0

end Ipv6FilterPlugin

/-! ## Rejection -/

inductive RejectType where
  | nxDomain
  | refused
  | servFail
  | noError
  | blackholeV4
  | blackholeV6
  /-- `CustomIp`: the address if the text parses. -/
  | customIp (ip : Option IpAddr)
  deriving DecidableEq

structure RejectPlugin where
  rcode : RejectType
  deriving DecidableEq

namespace RejectPlugin

def responseCode (r : RejectPlugin) : ResponseCode :=
  match r.rcode with
  | .nxDomain => .nxDomain
  | .refused => .refused
  | .servFail => .servFail
  | _ => .noError

/-- An address record for a question of the address's type. -/
def addressAnswer (query : Question) : IpAddr → List Record
  | .v4 ip => if query.qtype = TYPE_A then [.fromRdata query.name 300 (.a ip)] else []
  | .v6 ip => if query.qtype = TYPE_AAAA then [.fromRdata query.name 300 (.aaaa ip)] else []

def answers (r : RejectPlugin) (query : Question) : List Record :=
  match r.rcode with
  | .blackholeV4 => addressAnswer query (.v4 ⟨0, 0, 0, 0⟩)
  | .blackholeV6 => addressAnswer query (.v6 ⟨0, 0⟩)
  | .customIp (some ip) => addressAnswer query ip
  | _ => []

def handle (r : RejectPlugin) (ctx : Context) : Context :=
  match ctx.request.query with
  | none => ctx
  | some query =>
    ctx.setResponse
      { id := ctx.request.id, messageType := .response, opCode := 0, authoritative := false,
        recursionDesired := true, recursionAvailable := true, queries := [query],
        responseCode := r.responseCode, answers := r.answers query } true

end RejectPlugin

/-! ## Detection -/

structure DGAPlugin where
  minLen : Nat
  dryRun : Bool
  deriving DecidableEq

namespace DGAPlugin

/-- `len` of a `&str`: its bytes. -/
def byteLength : List Char → Nat
  | [] => 0
  | c :: cs => c.utf8Size + byteLength cs

/-- Split at dots, empty labels dropped (`qname_parts_iter`). -/
def parts (name : String) : List (List Char) :=
  (name.toList.splitOn '.').filter fun part => !part.isEmpty

/-- `get_main_part`: the first longest label, or the whole name if there is none. -/
def mainPart (lower : String) : List Char :=
  let best := (parts lower).foldl
    (fun best part => if byteLength best < byteLength part then part else best) []
  if best.isEmpty then lower.toList else best

/-- `handle`; whether the entropy of a label is above the threshold is floating point. -/
def handle (codec : Codec) (d : DGAPlugin) (aboveThreshold : List Char → Bool) (ctx : Context) :
    Context :=
  let target := mainPart (ctx.qname codec).toLower
  if byteLength target < d.minLen then ctx
  else if aboveThreshold target then
    if d.dryRun then ctx
    else
      ctx.setResponse { ctx.request with messageType := .response, responseCode := .nxDomain } true
  else ctx

end DGAPlugin

namespace RateLimitPlugin

/-- `handle`, given `should_limit`. -/
def handle (shouldLimit : Bool) (ctx : Context) : Context :=
  if shouldLimit then
    ctx.setResponse
      { id := ctx.request.id, messageType := .response, responseCode := .refused } true
  else ctx

end RateLimitPlugin

/-! ## What blocking leaves -/

/-- An AdBlock step decides that the name is blocked. -/
structure AdBlockPlugin.Blocks (codec : Codec) (b : AdBlockPlugin) (ctx : Context)
    (query : Question) : Prop where
  unanswered : ctx.response = none
  asked : ctx.request.query = some query
  listed : b.shouldBlock codec ctx = true

/-- An IPv6 filter step decides to suppress an AAAA query. -/
structure Ipv6FilterPlugin.Suppresses (f : Ipv6FilterPlugin) (ctx : Context) (query : Question) :
    Prop where
  unanswered : ctx.response = none
  mode : f.mode = .disableIpv6
  asked : ctx.request.query = some query
  qtype : query.qtype = TYPE_AAAA

theorem adBlock_ok {codec : Codec} {b : AdBlockPlugin} {ctx : Context} {query : Question}
    (h : b.Blocks codec ctx query) :
    b.handle codec ctx =
      { ctx with response := some (AdBlockPlugin.blocked ctx.request query) } := by
  unfold AdBlockPlugin.handle
  simp only [h.unanswered, h.asked, h.listed, Option.isSome_none, Bool.false_eq_true, if_false,
    if_true]

theorem ipv6Filter_ok {f : Ipv6FilterPlugin} {ctx : Context} {query : Question}
    (h : f.Suppresses ctx query) :
    f.handle ctx =
      { ctx with response := some (Ipv6FilterPlugin.suppressed ctx.request query) } := by
  unfold Ipv6FilterPlugin.handle
  simp [h.unanswered, h.mode, h.asked, h.qtype]

/-- A response that is there already is left alone. -/
theorem adBlock_answered {codec : Codec} {b : AdBlockPlugin} {ctx : Context}
    (h : ctx.response.isSome = true) : b.handle codec ctx = ctx := by
  unfold AdBlockPlugin.handle
  rw [if_pos h]

theorem ipv6Filter_answered {f : Ipv6FilterPlugin} {ctx : Context}
    (h : ctx.response.isSome = true) : f.handle ctx = ctx := by
  unfold Ipv6FilterPlugin.handle
  rw [if_pos (by simp [h])]

end TitanDns
