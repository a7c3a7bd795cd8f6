import TitanDns.Autopilot.QpsTracker
import TitanDns.Core.Checked
import TitanDns.Core.Context
import TitanDns.Lib.KeyedTable

/-!
# Domain memory

Which upstream answered a name fastest, for all clients and for those of one subnet.  Subtractions,
and the sums and products of the running average, are checked.

* `DomainMemory` — an entry: `update`, `isExpired`, `remainingTtl`.
* `Memories` — the two tables, with the capacity and the lifetime that follow the query rate.
* `store`, `cleanup` — what both tables do with a result, and when there are many entries.
* `record…Lower`, `get…Lower` — the calls.
-/

namespace TitanDns.Autopilot

/-! ## Entries -/

def MIN_DOMAIN_MEMORY : Nat := 10000

def MAX_DOMAIN_MEMORY : Nat := 100000

def DOMAIN_MEMORY_BASE_TTL : Nat := 3600

def DOMAIN_MEMORY_TTL_BOOST_MAX : Nat := 7200

def DOMAIN_MEMORY_HOT_FACTOR : Nat := 600

def DOMAIN_MEMORY_MAX_LATENCY_MS : Nat := 80

def CLIENT_MEMORY_MAX_LATENCY_MS : Nat := 120

def DOMAIN_MEMORY_CONFIDENCE : UInt32 := 2

def MAX_CLIENT_MEMORY : Nat := 5000

/-- The longest time from the boot that an instant is away: the seconds of two instants differ by an
`i64`. -/
def HORIZON : Int := 2 ^ 62 * SECOND

/-- `Instant`: nanoseconds on the monotonic clock, from the boot on; one that was dated back may lie
before it. -/
structure Instant where
  nanos : Int
  earliest : -HORIZON ≤ nanos
  latest : nanos < HORIZON

/-- `elapsed()`, in nanoseconds; zero if there is none. -/
def Instant.since (now earlier : Instant) : Nat := (now.nanos - earlier.nanos).toNat

structure DomainMemory where
  bestUpstream : String
  avgLatency : Nat
  successCount : UInt32
  lastUpdate : Instant

/-- `base_domain_ttl_secs` -/
def baseDomainTtlSecs (boost : Nat) : Nat :=
  min (min (DOMAIN_MEMORY_BASE_TTL + boost) (2 ^ 64 - 1))
    (DOMAIN_MEMORY_TTL_BOOST_MAX + DOMAIN_MEMORY_BASE_TTL)

namespace DomainMemory

/-- `DomainMemory::new` -/
def new (now : Instant) (upstream : String) (latency : Nat) : DomainMemory :=
  ⟨upstream, latency, 1, now⟩

/-- `update`. In a release build a count that overflows is zero, and the division panics. -/
def update (m : DomainMemory) (now : Instant) (upstream : String) (latency : Nat) :
    Except Fault DomainMemory :=
  if upstream = m.bestUpstream then do
    let weighted ← mulU64 m.avgLatency m.successCount.toNat
    let total ← addU64 weighted latency
    let count ← addU32 m.successCount 1
    return { m with avgLatency := total / count.toNat, successCount := count, lastUpdate := now }
  else if latency < m.avgLatency then .ok ⟨upstream, latency, 1, now⟩
  else .ok { m with lastUpdate := now }

/-- The lifetime that `is_expired` and `remaining_ttl` compute. -/
def ttlSecs (m : DomainMemory) (boost : Nat) : Except Fault Nat := do
  let room ← subU64 86400 (baseDomainTtlSecs boost)
  return baseDomainTtlSecs boost + min (m.successCount.toNat * DOMAIN_MEMORY_HOT_FACTOR) room

/-- `is_expired` -/
def isExpired (m : DomainMemory) (boost : Nat) (now : Instant) : Except Fault Bool := do
  let ttl ← m.ttlSecs boost
  return decide (ttl * SECOND < now.since m.lastUpdate)

/-- `remaining_ttl` -/
def remainingTtl (m : DomainMemory) (boost : Nat) (now : Instant) : Except Fault Int := do
  let ttl ← m.ttlSecs boost
  subI64 (asI64 ttl) (asI64 (now.since m.lastUpdate / SECOND))

/-- `is_confident` -/
def isConfident (m : DomainMemory) : Bool := DOMAIN_MEMORY_CONFIDENCE ≤ m.successCount

end DomainMemory

/-! ## Tables -/

abbrev MemoryTable := Table String DomainMemory

/-- A map iterates over its entries in some order. -/
structure MemoryOrder where
  order : List ((_ : String) × DomainMemory) → List ((_ : String) × DomainMemory)
  perm : ∀ entries, (order entries).Perm entries

/-- What a call finds around it: the time of its own, the times at which a cleanup looks at an entry
of a key to retain it and to rank it, the query rate and the order of the map. -/
structure Moment where
  now : Instant
  retained : String → Instant
  ranked : String → Instant
  avgQps : ℚ
  order : MemoryOrder

/-- An entry updated, or a new one. -/
def store (t : MemoryTable) (now : Instant) (key upstream : String) (latency : Nat) :
    Except Fault MemoryTable :=
  match t.get key with
  | some m => do
    let m ← m.update now upstream latency
    return t.put key m
  | none => .ok (t.put key (.new now upstream latency))

/-- The entries beyond the capacity with the least time left are removed. -/
def evict (t : MemoryTable) (boost : Nat) (env : Moment) (capacity : Nat) :
    Except Fault MemoryTable :=
  if capacity < t.size then do
    let excess ← subU64 t.size capacity
    let entries ← (env.order.order t.entries).mapM fun e => do
      let left ← e.2.remainingTtl boost (env.ranked e.1)
      return (e.1, left)
    let sorted := entries.mergeSort fun a b => a.2 ≤ b.2
    return t.removeAll ((sorted.take excess).map (·.1))
  else .ok t

/-- The expired entries, then those beyond the capacity. -/
def cleanup (t : MemoryTable) (boost : Nat) (env : Moment) (capacity : Nat) :
    Except Fault MemoryTable := do
  let live ← t.retainM fun key m => do
    let expired ← m.isExpired boost (env.retained key)
    return !expired
  evict live boost env capacity

/-- `DOMAIN_MEMORY` and `CLIENT_DOMAIN_MEMORY`, with `DOMAIN_MEMORY_CAPACITY` and
`DOMAIN_MEMORY_TTL_BOOST`. -/
structure Memories where
  domains : MemoryTable
  clients : MemoryTable
  capacity : Nat
  ttlBoost : Nat

/-- `q as u64`: the fraction is cut off, and what is too large is the largest number. -/
def truncU64 (q : ℚ) : Nat := min q.floor.toNat (2 ^ 64 - 1)

/-- A number as hexadecimal or decimal digits. -/
def digits (base n : Nat) : String := String.ofList (Nat.toDigits base n)

/-- `get_client_subnet` -/
def getClientSubnet : IpAddr → String
  | .v4 ip =>
    if ip.a = 10 ∨ (ip.a = 172 ∧ 16 ≤ ip.b ∧ ip.b ≤ 31) ∨ (ip.a = 192 ∧ ip.b = 168) then
      digits 10 ip.a.toNat ++ "." ++ digits 10 ip.b.toNat ++ "." ++ digits 10 ip.c.toNat
    else digits 10 ip.a.toNat ++ "." ++ digits 10 ip.b.toNat
  | .v6 ip =>
    digits 16 (ip.high >>> 48).toNat ++ ":" ++ digits 16 ((ip.high >>> 32) % 65536).toNat ++ ":" ++
      digits 16 ((ip.high >>> 16) % 65536).toNat

/-- `client_memory_key_lower` -/
def clientMemoryKeyLower (domainLower : String) (clientIp : IpAddr) : String :=
  trimDots domainLower ++ "@" ++ getClientSubnet clientIp

namespace Memories

def init : Memories := ⟨∅, ∅, MIN_DOMAIN_MEMORY, 0⟩

/-- `update_domain_memory_params`; the sum of the capacity wraps. -/
def updateDomainMemoryParams (s : Memories) (avgQps : ℚ) : Memories :=
  let cap := (MIN_DOMAIN_MEMORY + truncU64 (avgQps * 20)) % 2 ^ 64
  { s with
    capacity :=
      if MAX_DOMAIN_MEMORY < cap then MAX_DOMAIN_MEMORY
      else if cap < MIN_DOMAIN_MEMORY then MIN_DOMAIN_MEMORY
      else cap
    ttlBoost := min (truncU64 (avgQps * 2)) DOMAIN_MEMORY_TTL_BOOST_MAX }

/-- `cleanup_expired_domains` -/
def cleanupExpiredDomains (s : Memories) (env : Moment) : Except Fault Memories := do
  let domains ← cleanup s.domains s.ttlBoost env s.capacity
  return { s with domains := domains }

/-- `cleanup_client_memory` -/
def cleanupClientMemory (s : Memories) (env : Moment) : Except Fault Memories := do
  let clients ← cleanup s.clients s.ttlBoost env MAX_CLIENT_MEMORY
  return { s with clients := clients }

/-- `apply_domain_result_clean` -/
def applyDomainResultClean (s : Memories) (env : Moment) (domain upstream : String)
    (latencyMs : Nat) : Except Fault Memories := do
  let domains ← store s.domains env.now domain upstream latencyMs
  let s := { s with domains := domains }
  if domains.size % 100 = 0 then
    (s.updateDomainMemoryParams env.avgQps).cleanupExpiredDomains env
  else return s

/-- `apply_client_result_clean` -/
def applyClientResultClean (s : Memories) (env : Moment) (key domain upstream : String)
    (latencyMs : Nat) : Except Fault Memories := do
  let clients ← store s.clients env.now key upstream latencyMs
  let s := { s with clients := clients }
  let s ← if clients.size % 100 = 0 then s.cleanupClientMemory env else .ok s
  s.applyDomainResultClean env domain upstream latencyMs

/-- `record_domain_result_lower` -/
def recordDomainResultLower (s : Memories) (env : Moment) (domainLower upstream : String)
    (latencyMs : Nat) : Except Fault Memories :=
  if DOMAIN_MEMORY_MAX_LATENCY_MS < latencyMs then .ok s
  else s.applyDomainResultClean env (trimDots domainLower) upstream latencyMs

/-- `record_domain_result_for_client_lower` -/
def recordDomainResultForClientLower (s : Memories) (env : Moment) (domainLower upstream : String)
    (latencyMs : Nat) (clientIp : IpAddr) : Except Fault Memories :=
  if CLIENT_MEMORY_MAX_LATENCY_MS < latencyMs then .ok s
  else
    let domainClean := trimDots domainLower
    s.applyClientResultClean env (clientMemoryKeyLower domainClean clientIp) domainClean upstream
      latencyMs

/-- `get_domain_best_upstream_lower` -/
def getDomainBestUpstreamLower (s : Memories) (env : Moment) (domainLower : String) :
    Except Fault (Option String × Memories) :=
  match s.domains.get (trimDots domainLower) with
  | some entry => do
    let expired ← entry.isExpired s.ttlBoost env.now
    if expired then
      return (none, { s with domains := s.domains.remove (trimDots domainLower) })
    else return (if entry.isConfident then some entry.bestUpstream else none, s)
  | none => .ok (none, s)

/-- `get_domain_best_upstream_for_client_lower` -/
def getDomainBestUpstreamForClientLower (s : Memories) (env : Moment) (domainLower : String)
    (clientIp : IpAddr) : Except Fault (Option String × Memories) :=
  match s.clients.get (clientMemoryKeyLower domainLower clientIp) with
  | some entry => do
    let expired ← entry.isExpired s.ttlBoost env.now
    if !expired && entry.isConfident then return (some entry.bestUpstream, s)
    else s.getDomainBestUpstreamLower env domainLower
  | none => s.getDomainBestUpstreamLower env domainLower

end Memories

end TitanDns.Autopilot
