import TitanDns.Bpf.Filter
import TitanDns.Dns.Message
import TitanDns.Lib.IterHash

/-!
# The userspace half of the fast path

`DnsBpfFilter` of `bpf.rs`, which writes the kernel maps, and the key the cache plugin computes.

* `djb2HashBytesIncremental`, `djb2HashBytes`, `updateCacheKey`, `updateCache` — `update_cache`.
* `calculateXdpHash` — the cache plugin's own computation of the same key.
* `populateBlacklist` — configuration entries to the `blacklist` map.

Principal results: `updateCacheKey_eq` — **the two userspace keys are one function of the bytes
of the question**; `updateCacheKey_same` — **which does not see the case of the name**.
-/

namespace TitanDns.Bpf

open IterHash

/-! ## Keys -/

/-- `djb2_hash_bytes_incremental`. -/
def djb2HashBytesIncremental (hash : UInt64) (data : List UInt8) : UInt64 :=
  data.foldl (fun hash byte => (hash <<< 5) + hash + (asciiLower byte).toUInt64) hash

/-- `djb2_hash_bytes`. -/
def djb2HashBytes (data : List UInt8) : UInt64 := djb2HashBytesIncremental 5381 data

/-- The key `update_cache` stores under. -/
def updateCacheKey (qnameRaw : List UInt8) (qtype qclass : UInt16) : UInt64 :=
  let qhash := djb2HashBytes qnameRaw
  let qhash := djb2HashBytesIncremental qhash (be16 qtype)
  djb2HashBytesIncremental qhash (be16 qclass)

/-- `djb2_byte` of `calculate_xdp_hash`. -/
def djb2Byte (hash : UInt64) (byte : UInt8) : UInt64 :=
  (hash <<< 5) + hash + (asciiLower byte).toUInt64

/-- `CachePlugin::calculate_xdp_hash`. -/
def calculateXdpHash (qnameRaw : List UInt8) (qtype qclass : UInt16) : UInt64 :=
  let hash := qnameRaw.foldl djb2Byte 5381
  let hash := (be16 qtype).foldl djb2Byte hash
  (be16 qclass).foldl djb2Byte hash

/-! ## `update_cache` -/

/-- Arguments of one `update_cache` call and the kernel time it reads. -/
structure CacheUpdate where
  qnameRaw : List UInt8
  qtype : UInt16
  qclass : UInt16
  response : List UInt8
  ttlSecs : UInt64
  nowNs : UInt64
  deriving DecidableEq

/-- The key of the call. -/
def CacheUpdate.key (u : CacheUpdate) : UInt64 := updateCacheKey u.qnameRaw u.qtype u.qclass

/-- The entry the call builds: at most 768 bytes of the response in a zeroed buffer. -/
def CacheUpdate.entry (u : CacheUpdate) : DnsCacheEntry where
  len := UInt16.ofNat (min u.response.length 768)
  rcode := if 4 ≤ u.response.length then (u.response.getD 3 0 &&& 0x0F).toUInt16 else 0
  lastRefreshTs := (u.nowNs / 1000000000).toUInt32
  expireNs := u.nowNs + (u.ttlSecs + 60) * 1000000000
  response := u.response.take 768 ++ List.replicate (768 - min u.response.length 768) 0
  response_length := by
    rw [List.length_append, List.length_take, List.length_replicate, MAX_DNS_RESPONSE_LEN]
    omega

/-- `update_cache`; `accepted` is whether the kernel takes the insertion. -/
def updateCache (m : KernelMaps) (u : CacheUpdate) (accepted : Bool) :
    KernelMaps × Except Unit Unit :=
  if accepted then ({ m with dnsCache := PartialMap.put m.dnsCache u.key u.entry }, .ok ())
  else (m, .error ())

theorem CacheUpdate.entry_len (u : CacheUpdate) :
    u.entry.len.toNat = min u.response.length 768 :=
  UInt16.toNat_ofNat_of_lt' (Nat.lt_of_le_of_lt (Nat.min_le_right _ _) (by decide))

/-- What the kernel reads back is the response cut to the buffer. -/
theorem CacheUpdate.entry_response (u : CacheUpdate) :
    u.entry.response.take u.entry.len.toNat = u.response.take 768 := by
  have hlen : (u.response.take 768).length = u.entry.len.toNat := by
    rw [u.entry_len, List.length_take, Nat.min_comm]
  exact List.take_left' hlen

/-! ## The keys agree -/

/-- **One function of the bytes of the question**: the key stored under, the cache plugin's. -/
theorem updateCacheKey_eq (qnameRaw : List UInt8) (qtype qclass : UInt16) :
    updateCacheKey qnameRaw qtype qclass =
      digest djb2HashByte 5381 (qnameRaw ++ be16 qtype ++ be16 qclass) := by
  rw [digest_append, digest_append]
  rfl

theorem calculateXdpHash_eq (qnameRaw : List UInt8) (qtype qclass : UInt16) :
    calculateXdpHash qnameRaw qtype qclass = updateCacheKey qnameRaw qtype qclass := rfl

theorem djb2HashByte_fold (hash : UInt64) (b : UInt8) :
    djb2HashByte hash (asciiLower b) = djb2HashByte hash b := by
  unfold djb2HashByte
  rw [asciiLower_idem]

/-- **The key does not see the case of the name.** -/
theorem updateCacheKey_same {a b : Question} (h : a.Same b) :
    updateCacheKey a.name.wire a.qtype a.qclass = updateCacheKey b.name.wire b.qtype b.qclass := by
  obtain ⟨hname, htype, hclass⟩ := h
  have hwire := (Name.same_iff_wire _ _).mp hname
  have hdigest := congrArg (digest djb2HashByte 5381) hwire
  rw [digest_map djb2HashByte_fold, digest_map djb2HashByte_fold] at hdigest
  rw [updateCacheKey_eq, updateCacheKey_eq, List.append_assoc, List.append_assoc, digest_append,
    digest_append _ b.name.wire, hdigest, htype, hclass]

/-! ## `populate_blacklist` -/

/-- `config::BlacklistEntry`. -/
structure BlacklistEntry where
  ip : String
  action : String := "drop"
  deriving DecidableEq

/-- The value written: `"refuse"` in any case is 2, every other text is 1.  No letter outside
ASCII has a lower case among those of the word. -/
def actionCode (action : String) : UInt8 := if action.toLower = "refuse" then 2 else 1

/-- `populate_blacklist`, on a loaded filter.  `refuses map key` is the kernel's error, if it does
not take the insertion.  Entries before the first error stay written. -/
def populateBlacklist (refuses : (UInt32 → Option UInt8) → UInt32 → Option String)
    (map : UInt32 → Option UInt8) :
    List BlacklistEntry → (UInt32 → Option UInt8) × Except String Unit
  | [] => (map, .ok ())
  | entry :: entries =>
    match Ipv4Addr.parse entry.ip with
    | none => (map, .error ("Invalid IP '" ++ entry.ip ++ "': invalid IPv4 address syntax"))
    | some ip =>
      match refuses map ip.toU32 with
      | some err => (map, .error ("Failed to insert IP: " ++ err))
      | none =>
        populateBlacklist refuses (PartialMap.put map ip.toU32 (actionCode entry.action)) entries

end TitanDns.Bpf
