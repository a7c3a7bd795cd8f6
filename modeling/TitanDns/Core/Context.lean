import Mathlib.Data.List.DropRight
import TitanDns.Dns.Message

/-!
# The context that flows through the pipeline

`Context` of `core/context.rs` with the operations plugins use.  A response is held either as a
message or as raw bytes; setting one clears the other.

* `ZeroCopyDnsMessage` — raw bytes of at least a header.
* `setResponse`, `setRawResponse` — the ID of the request, the minimum TTL, the stop flag.
* `Kept` — a plugin left the response and the stop flag alone.
-/

namespace TitanDns

/-- `trim_end_matches('.')`. -/
def trimDots (s : String) : String := String.ofList (s.toList.reverse.dropWhile (· == '.')).reverse

theorem trimDots_toList (s : String) :
    (trimDots s).toList = List.rdropWhile (· == '.') s.toList := by
  rw [trimDots, String.toList_ofList]
  rfl

theorem trimDots_trimDots (s : String) : trimDots (trimDots s) = trimDots s := by
  rw [← String.toList_inj, trimDots_toList, trimDots_toList, List.rdropWhile_idempotent]

/-- `normalize_domain_lower` of `autopilot.rs`: only ASCII letters change. -/
def normalizeDomainLower (domain : String) : String := (trimDots domain).map Char.toLower

/-- `ZeroCopyDnsMessage`: bytes with a header. -/
structure ZeroCopyDnsMessage where
  raw : List UInt8
  header : 12 ≤ raw.length
  deriving DecidableEq

namespace ZeroCopyDnsMessage

/-- `ZeroCopyDnsMessage::from_bytes`. -/
def fromBytes (data : List UInt8) : Option ZeroCopyDnsMessage :=
  if h : 12 ≤ data.length then some ⟨data, h⟩ else none

/-- `with_id`: the first two bytes replaced. -/
def withId (m : ZeroCopyDnsMessage) (id : UInt16) : ZeroCopyDnsMessage where
  raw := be16 id ++ m.raw.drop 2
  header := by
    have := m.header
    rw [List.length_append, List.length_drop, be16_length]
    omega

end ZeroCopyDnsMessage

structure Context where
  clientIp : IpAddr
  request : Message
  rawRequest : Option ZeroCopyDnsMessage
  response : Option Message
  rawResponse : Option ZeroCopyDnsMessage
  tags : List String
  abort : Bool
  minTtl : UInt32
  /-- The cache plugins that want to see the response, by name. -/
  postProcessHooks : List String
  deriving DecidableEq

namespace Context

/-- `Context::new`. -/
def new (request : Message) (clientIp : IpAddr) : Context :=
  ⟨clientIp, request, none, none, none, [], false, 0, []⟩

/-- `qname_ref`. -/
def qname (codec : Codec) (ctx : Context) : String :=
  match ctx.request.query with
  | some q => codec.display q.name
  | none => "."

/-- `qname_lower_ref`. -/
def qnameLower (codec : Codec) (ctx : Context) : String := (ctx.qname codec).map Char.toLower

/-- The loop of `qname_parts_ranges` at position `i`, in the label that began at `start`. -/
def partsRanges : List Char → Nat → Nat → List (Nat × Nat)
  | [], i, start => if start < i then [(start, i)] else []
  | c :: cs, i, start =>
    if c = '.' then
      if start < i then (start, i) :: partsRanges cs (i + 1) (i + 1)
      else partsRanges cs (i + 1) (i + 1)
    else partsRanges cs (i + 1) start

/-- `qname_parts_ranges`, in characters: the labels between the dots, empty ones left out. -/
def qnamePartsRanges (codec : Codec) (ctx : Context) : List (Nat × Nat) :=
  partsRanges (ctx.qnameLower codec).toList 0 0

def hasTag (ctx : Context) (tag : String) : Bool := ctx.tags.contains tag

def addTag (ctx : Context) (tag : String) : Context :=
  if ctx.hasTag tag then ctx else { ctx with tags := ctx.tags ++ [tag] }

/-- The minimum TTL applied to one answer. -/
def raiseTtl (minTtl : UInt32) (r : Record) : Record :=
  if r.ttl < minTtl then { r with ttl := minTtl } else r

/-- `set_response`. -/
def setResponse (ctx : Context) (msg : Message) (stopSequence : Bool) : Context :=
  let msg := if 0 < ctx.minTtl then
    { msg with answers := msg.answers.map (raiseTtl ctx.minTtl) } else msg
  let msg := { msg with id := ctx.request.id }
  { ctx with
    response := some msg
    rawResponse := none
    abort := stopSequence || ctx.abort }

/-- `set_raw_response`. -/
def setRawResponse (ctx : Context) (raw : ZeroCopyDnsMessage) (stopSequence : Bool) : Context :=
  { ctx with
    rawResponse := some (raw.withId ctx.request.id)
    response := none
    abort := stopSequence || ctx.abort }

/-- `has_response`. -/
def hasResponse (ctx : Context) : Bool := ctx.response.isSome || ctx.rawResponse.isSome

/-- `response_bytes`. -/
def responseBytes (codec : Codec) (ctx : Context) : Option (List UInt8) :=
  match ctx.rawResponse with
  | some raw => some raw.raw
  | none =>
    match ctx.response with
    | some resp => codec.toVec resp
    | none => none

/-- Response and stop flag are as they were. -/
structure Kept (a b : Context) : Prop where
  response : b.response = a.response
  rawResponse : b.rawResponse = a.rawResponse
  abort : b.abort = a.abort

theorem Kept.refl (ctx : Context) : Kept ctx ctx := ⟨rfl, rfl, rfl⟩

theorem setResponse_hasResponse (ctx : Context) (msg : Message) (stop : Bool) :
    (ctx.setResponse msg stop).hasResponse = true := rfl

/-- A message without answers keeps everything but its ID. -/
theorem setResponse_noAnswers {ctx : Context} {msg : Message} (h : msg.answers = []) (stop : Bool) :
    (ctx.setResponse msg stop).response = some { msg with id := ctx.request.id } := by
  unfold setResponse
  simp only
  split
  · simp [h]
  · rfl

theorem addTag_kept (ctx : Context) (tag : String) : Kept ctx (ctx.addTag tag) := by
  unfold addTag
  split
  · exact Kept.refl ctx
  · exact ⟨rfl, rfl, rfl⟩

end Context

end TitanDns
