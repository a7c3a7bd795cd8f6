import TitanDns.Bpf.Frame
import TitanDns.Dns.Name
import TitanDns.Lib.PartialMap

/-!
# `titan_dns_filter`

The XDP program, in the order of the source:

* `firewall` — blacklist lookup by the native word of `saddr`: drop, or reflect REFUSED.
* `xdpKey` — protocol, port, QR bit, `parseDnsQnameHash` (at most 128 octets, no compression),
  then type and class; `none` wherever the program gives up and passes the packet.
* `serveFromCache` — `dns_cache` lookup, expiry, RCODE, shadow refresh, statistics, length check,
  tail adjustment, copy of the response and header rewriting (`reply`).

The maps are partial functions; what the kernel decides (the clock, room in the ring buffer,
whether the tail can be adjusted) is the environment `XdpEnv` of one invocation.

Principal results: `copyResponse_eq` — **the chunked copy transmits exactly the first `len` bytes
of the entry**; `reply_payload` — **the payload is those bytes with the transaction ID in front**;
`titanDnsFilter_cases` — **which layer decides on a packet.**
-/

namespace TitanDns.Bpf

/-! ## Maps -/

/-- `MAX_DNS_RESPONSE_LEN`. -/
def MAX_DNS_RESPONSE_LEN : Nat := 768

/-- `REFRESH_THRESHOLD_NS`. -/
def REFRESH_THRESHOLD_NS : UInt64 := 10 * 1000000000

/-- `struct dns_cache_entry`; the response buffer has its fixed size. -/
structure DnsCacheEntry where
  len : UInt16
  rcode : UInt16
  lastRefreshTs : UInt32
  expireNs : UInt64
  response : List UInt8
  response_length : response.length = MAX_DNS_RESPONSE_LEN

/-- `struct refresh_event`. -/
structure RefreshEvent where
  qhash : UInt64
  remainingNs : UInt64
  deriving DecidableEq

/-- The maps of the program. -/
structure KernelMaps where
  blacklist : UInt32 → Option UInt8
  dnsCache : UInt64 → Option DnsCacheEntry
  stats : Nat → UInt64
  refreshRingbuf : List RefreshEvent

/-- The maps as loaded, nothing written yet. -/
def KernelMaps.empty : KernelMaps := ⟨PartialMap.empty, PartialMap.empty, fun _ => 0, []⟩

/-- What the kernel decides during one invocation. -/
structure XdpEnv where
  /-- `bpf_ktime_get_ns()` -/
  now : UInt64
  /-- `bpf_ringbuf_reserve` finds room -/
  ringbufHasRoom : Bool
  /-- `bpf_xdp_adjust_tail` succeeds -/
  tailAdjustable : Bool

inductive XdpAction where
  | pass
  | drop
  | tx
  deriving DecidableEq, Repr

/-- The action returned and the frame as it stands then. -/
structure Verdict where
  action : XdpAction
  frame : Frame
  deriving DecidableEq

/-! ## Name hash -/

/-- `djb2_hash_byte`. -/
def djb2HashByte (hash : UInt64) (byte : UInt8) : UInt64 :=
  ((hash <<< 5) + hash) + (asciiLower byte).toUInt64

/-- The loop of `parse_dns_qname_hash` with `n` iterations left: the hash and what follows the
terminator, or `none` where the source returns 0. -/
def parseLoop : Nat → UInt64 → List UInt8 → Option (UInt64 × List UInt8)
  | 0, _, _ => none
  | _ + 1, _, [] => none
  | n + 1, hash, byte :: rest =>
    if byte = 0 then some (djb2HashByte hash 0, rest)
    else if byte &&& 0xC0 = 0xC0 then none
    else parseLoop n (djb2HashByte hash byte) rest

/-- `parse_dns_qname_hash`: the returned hash and `*qname_end_out` (`none` is `NULL`). -/
def parseDnsQnameHash (payload : List UInt8) : UInt64 × Option (List UInt8) :=
  match parseLoop 128 5381 (payload.drop 12) with
  | none => (0, none)
  | some (hash, qnameEnd) => (hash, some qnameEnd)

/-! ## Firewall -/

/-- `ip->saddr`, as the program reads it. -/
def saddr (e : Endian) (f : Frame) : UInt32 :=
  e.word32 (f.byte (IP + 12)) (f.byte (IP + 13)) (f.byte (IP + 14)) (f.byte (IP + 15))

/-- `ip->protocol == IPPROTO_UDP`. -/
def isUdp (f : Frame) : Bool := f.byte (IP + 9) == 17

/-- The kernel reflector: REFUSED to the sender. -/
def reflectRefused (e : Endian) (f : Frame) : Frame :=
  (setIpCsum e (swapUdp (swapIpv4 (swapEthernet f)))).patch (PAYLOAD + 2) (htons 0x8105)

/-- The firewall layer: `none` lets the packet through to the rest of the program. -/
def firewall (e : Endian) (blacklist : UInt32 → Option UInt8) (f : Frame) : Option Verdict :=
  match blacklist (saddr e f) with
  | none => none
  | some rule =>
    if rule = 1 then some ⟨.drop, f⟩
    else if rule = 2 then
      if isUdp f = true ∧ PAYLOAD ≤ f.length ∧ PAYLOAD + 12 ≤ f.length then
        some ⟨.tx, reflectRefused e f⟩
      else some ⟨.drop, f⟩
    else none

/-! ## Question key -/

/-- The key of the question in the packet, or `none` where the program passes the packet on
without a lookup. -/
def xdpKey (f : Frame) : Option UInt64 :=
  if isUdp f = false then none
  else if f.length < PAYLOAD then none
  else if f.slice (UDP + 2) 2 ≠ [0, 53] then none
  else if f.length < PAYLOAD + 12 then none
  else if f.byte (PAYLOAD + 2) &&& 0x80 ≠ 0 then none
  else
    match parseDnsQnameHash (f.drop PAYLOAD) with
    | (_, none) => none
    | (qhash, some qnameEnd) =>
      if qhash = 0 then none
      else
        match qnameEnd with
        | m0 :: m1 :: m2 :: m3 :: _ =>
          some (djb2HashByte (djb2HashByte (djb2HashByte (djb2HashByte qhash m0) m1) m2) m3)
        | _ => none

/-! ## Copy of the response -/

/-- The tail loop: at most `n` more bytes, one at a time. -/
def copyTail : Nat → Frame → Nat → List UInt8 → Nat → Frame
  | 0, f, _, _, _ => f
  | n + 1, f, payload, resp, len =>
    if len = 0 then f
    else if f.length < payload + 1 then f
    else copyTail n (f.patch payload (resp.take 1)) (payload + 1) (resp.drop 1) (len - 1)

/-- The chunk loop with `n` iterations left. -/
def copyChunks : Nat → Frame → Nat → List UInt8 → Nat → Frame
  | 0, f, _, _, _ => f
  | n + 1, f, payload, resp, len =>
    if 32 ≤ len then
      if payload + 32 ≤ f.length then
        copyChunks n (f.patch payload (resp.take 32)) (payload + 32) (resp.drop 32) (len - 32)
      else f
    else copyTail 32 f payload resp len

/-- The copy of `len` bytes of the cached response to the payload. -/
def copyResponse (f : Frame) (resp : List UInt8) (len : Nat) : Frame :=
  copyChunks 24 f PAYLOAD resp len

/-! ## Cache hit -/

/-- Low remaining lifetime: at most once every three seconds an event is sent to userspace. -/
def shadowRefresh (env : XdpEnv) (m : KernelMaps) (qhash : UInt64) (entry : DnsCacheEntry) :
    KernelMaps :=
  let remaining := entry.expireNs - env.now
  if remaining < REFRESH_THRESHOLD_NS ∧ 0 < remaining then
    let nowTs := (env.now / 1000000000).toUInt32
    if entry.lastRefreshTs + 3 < nowTs then
      let m := { m with
        dnsCache := PartialMap.put m.dnsCache qhash { entry with lastRefreshTs := nowTs } }
      if env.ringbufHasRoom then
        { m with
          refreshRingbuf := m.refreshRingbuf ++ [⟨qhash, remaining⟩]
          stats := Function.update m.stats 4 (m.stats 4 + 1) }
      else m
    else m
  else m

/-- `bpf_xdp_adjust_tail` to `newLen` bytes: cut, or grown with zeros. -/
def adjustTail (f : Frame) (newLen : Nat) : Frame :=
  f.take newLen ++ List.replicate (newLen - f.length) 0

/-- The frame sent for `len` bytes of `resp`, from the frame after tail adjustment. -/
def reply (e : Endian) (f : Frame) (origId : List UInt8) (resp : List UInt8) (len : Nat) : Frame :=
  let f := copyResponse f resp len
  let f := swapUdp (swapIpv4 (swapEthernet f))
  let f := f.patch (IP + 2) (htons (IP_LEN + UDP_LEN + len))
  let f := setIpCsum e (f.patch (IP + 10) [0, 0])
  let f := f.patch (UDP + 4) (htons (UDP_LEN + len))
  if PAYLOAD + 2 ≤ f.length then f.patch PAYLOAD origId else f

/-- The cache layer, for the key of the packet. -/
def serveFromCache (e : Endian) (env : XdpEnv) (m : KernelMaps) (f : Frame) (qhash : UInt64) :
    KernelMaps × Verdict :=
  match m.dnsCache qhash with
  | none => (m, ⟨.pass, f⟩)
  | some entry =>
    if entry.expireNs < env.now then (m, ⟨.pass, f⟩)
    else if entry.rcode ≠ 0 then (m, ⟨.pass, f⟩)
    else
      let m := shadowRefresh env m qhash entry
      let m := { m with stats := Function.update m.stats 2 (m.stats 2 + 1) }
      if entry.len = 0 ∨ MAX_DNS_RESPONSE_LEN < entry.len.toNat then (m, ⟨.pass, f⟩)
      else if env.tailAdjustable = false then (m, ⟨.pass, f⟩)
      else
        let g := adjustTail f (PAYLOAD + entry.len.toNat)
        if g.length < PAYLOAD then (m, ⟨.pass, g⟩)
        else (m, ⟨.tx, reply e g (f.slice PAYLOAD 2) entry.response entry.len.toNat⟩)

/-- `titan_dns_filter`. -/
def titanDnsFilter (e : Endian) (env : XdpEnv) (m : KernelMaps) (f : Frame) :
    KernelMaps × Verdict :=
  if f.length < ETH_LEN then (m, ⟨.pass, f⟩)
  else if f.slice 12 2 ≠ [0x08, 0x00] then (m, ⟨.pass, f⟩)
  else if f.length < ETH_LEN + IP_LEN then (m, ⟨.pass, f⟩)
  else
    match firewall e m.blacklist f with
    | some v => (m, v)
    | none =>
      match xdpKey f with
      | none => (m, ⟨.pass, f⟩)
      | some qhash => serveFromCache e env m f qhash

variable {e : Endian} {env : XdpEnv} {m : KernelMaps} {f : Frame}

/-! ## What the copy transmits -/

theorem adjustTail_length (f : Frame) (n : Nat) : (adjustTail f n).length = n := by
  simp only [adjustTail, List.length_append, List.length_take, List.length_replicate]
  omega

/-- The tail loop copies up to `n` bytes onto the room that is left for them. -/
theorem copyTail_eq {n : Nat} {pre room resp : List UInt8} {len : Nat} (hn : len ≤ n)
    (hroom : room.length = len) (hresp : len ≤ resp.length) :
    copyTail n (pre ++ room) pre.length resp len = pre ++ resp.take len := by
  induction n generalizing pre room resp len with
  | zero =>
    obtain rfl : len = 0 := by omega
    obtain rfl : room = [] := List.length_eq_zero_iff.mp hroom
    simp [copyTail]
  | succ n ih =>
    unfold copyTail
    split
    · rename_i h0
      subst h0
      obtain rfl : room = [] := List.length_eq_zero_iff.mp hroom
      simp
    · rename_i hpos
      rw [if_neg (by rw [List.length_append]; omega)]
      obtain ⟨x, room, rfl⟩ := List.exists_cons_of_length_pos (show 0 < room.length by omega)
      obtain ⟨y, resp, rfl⟩ := List.exists_cons_of_length_pos (show 0 < resp.length by omega)
      have hpatch : Frame.patch (pre ++ x :: room) pre.length [y] = (pre ++ [y]) ++ room := by
        simpa using @Frame.patch_append pre [y] [x] room rfl
      simp only [List.length_cons] at hroom hresp
      have hlen : (pre ++ [y]).length = pre.length + 1 := by simp
      simp only [List.take_succ_cons, List.take_zero, List.drop_succ_cons, List.drop_zero]
      rw [hpatch, ← hlen, ih (by omega) (by omega) (by omega)]
      obtain ⟨k, rfl⟩ : ∃ k, len = k + 1 := ⟨len - 1, by omega⟩
      simp

theorem copyChunks_eq {n : Nat} {pre room resp : List UInt8} {len : Nat} (hn : len ≤ 32 * n)
    (hroom : room.length = len) (hresp : len ≤ resp.length) :
    copyChunks n (pre ++ room) pre.length resp len = pre ++ resp.take len := by
  induction n generalizing pre room resp len with
  | zero =>
    obtain rfl : len = 0 := by omega
    obtain rfl : room = [] := List.length_eq_zero_iff.mp hroom
    simp [copyChunks]
  | succ n ih =>
    unfold copyChunks
    split
    · rename_i h32
      rw [if_pos (by rw [List.length_append]; omega)]
      have hchunk : (resp.take 32).length = 32 := by rw [List.length_take]; omega
      have hpatch : Frame.patch (pre ++ room) pre.length (resp.take 32)
          = (pre ++ resp.take 32) ++ room.drop 32 := by
        have htake : (room.take 32).length = (resp.take 32).length := by
          rw [hchunk, List.length_take]; omega
        have := @Frame.patch_append pre _ _ (room.drop 32) htake
        rwa [List.append_assoc pre, List.take_append_drop] at this
      have hlen : (pre ++ resp.take 32).length = pre.length + 32 := by
        rw [List.length_append, hchunk]
      rw [hpatch, ← hlen, ih (by omega) (by rw [List.length_drop]; omega)
        (by rw [List.length_drop]; omega), List.append_assoc]
      congr 1
      rw [← List.take_add]
      congr 1
      omega
    · exact copyTail_eq (by omega) hroom hresp

/-- **The copy is exact**: the headers, then the first `len` bytes of the cached response. -/
theorem copyResponse_eq {f : Frame} {resp : List UInt8} {len : Nat}
    (hf : f.length = PAYLOAD + len) (hlen : len ≤ MAX_DNS_RESPONSE_LEN)
    (hresp : len ≤ resp.length) :
    copyResponse f resp len = f.take PAYLOAD ++ resp.take len := by
  have hpre : (f.take PAYLOAD).length = PAYLOAD := by rw [List.length_take]; omega
  have hroom : (f.drop PAYLOAD).length = len := by rw [List.length_drop]; omega
  have hcopy := @copyChunks_eq 24 (f.take PAYLOAD) _ _ _ hlen hroom hresp
  rwa [List.take_append_drop, hpre] at hcopy

/-- The first two bytes replaced by the transaction ID, where there are two. -/
def withId (origId resp : List UInt8) : List UInt8 :=
  if 2 ≤ resp.length then origId ++ resp.drop 2 else resp

/-- **The payload sent** is the first `len` bytes of the response under the query's ID. -/
theorem reply_payload (e : Endian) {f : Frame} {origId resp : List UInt8} {len : Nat}
    (hid : origId.length = 2) (hf : f.length = PAYLOAD + len)
    (hlen : len ≤ MAX_DNS_RESPONSE_LEN) (hresp : len ≤ resp.length) :
    (reply e f origId resp len).drop PAYLOAD = withId origId (resp.take len) := by
  have hcopy := copyResponse_eq hf hlen hresp
  have hpre : (f.take PAYLOAD).length = PAYLOAD := by rw [List.length_take]; omega
  have hcl : (copyResponse f resp len).length = PAYLOAD + len := by
    rw [hcopy, List.length_append, hpre, List.length_take]; omega
  have hP : PAYLOAD ≤ (copyResponse f resp len).length := by omega
  have hcd : (copyResponse f resp len).drop PAYLOAD = resp.take len := by
    rw [hcopy, List.drop_left' hpre]
  -- every header write keeps the length and the payload
  have heth := swapEthernet_samePayload hP
  have hip := (swapIpv4_samePayload (by rw [heth.1]; exact hP)).trans heth
  have hudp := (swapUdp_samePayload (by rw [hip.1]; exact hP)).trans hip
  have htot := @SamePayload.patch _ _ hudp hP (IP + 2) (htons (IP_LEN + UDP_LEN + len))
    (by simp; decide)
  have hzero := @SamePayload.patch _ _ htot hP (IP + 10) [0, 0] (by decide)
  have hsum := (setIpCsum_samePayload e (by rw [hzero.1]; exact hP)).trans hzero
  have hulen := @SamePayload.patch _ _ hsum hP (UDP + 4) (htons (UDP_LEN + len)) (by simp; decide)
  unfold reply
  simp only
  generalize Frame.patch _ (UDP + 4) _ = g at hulen ⊢
  obtain ⟨hgl, hgd⟩ := hulen
  rw [hcl] at hgl
  rw [hcd] at hgd
  have htl : (resp.take len).length = len := by rw [List.length_take]; omega
  rw [withId, htl, hgl]
  by_cases h2 : 2 ≤ len
  · rw [if_pos (by omega), if_pos h2, Frame.patch, hid, List.append_assoc, List.drop_left'
      (by rw [List.length_take, hgl]; omega), ← List.drop_drop, hgd]
  · rw [if_neg (by omega), if_neg h2, hgd]

/-! ## What one invocation does -/

/-- The entry answers at `now`. -/
structure DnsCacheEntry.Answers (entry : DnsCacheEntry) (env : XdpEnv) : Prop where
  live : env.now ≤ entry.expireNs
  noError : entry.rcode = 0
  nonempty : entry.len ≠ 0
  fits : entry.len.toNat ≤ MAX_DNS_RESPONSE_LEN

theorem xdpKey_length {k : UInt64} (h : xdpKey f = some k) : PAYLOAD + 12 ≤ f.length := by
  unfold xdpKey at h
  split at h
  · cases h
  split at h
  · cases h
  split at h
  · cases h
  split at h
  · cases h
  omega

/-- **Inversion of an answer from the cache layer.** -/
theorem serveFromCache_tx {k : UInt64} (h : (serveFromCache e env m f k).2.action = .tx) :
    ∃ entry, m.dnsCache k = some entry ∧ entry.Answers env ∧
      (serveFromCache e env m f k).2.frame =
        reply e (adjustTail f (PAYLOAD + entry.len.toNat)) (f.slice PAYLOAD 2) entry.response
          entry.len.toNat := by
  unfold serveFromCache at h ⊢
  cases hk : m.dnsCache k with
  | none =>
    rw [hk] at h
    cases h
  | some entry =>
    simp only [hk] at h ⊢
    split at h
    · cases h
    rename_i hlive
    split at h
    · cases h
    rename_i hrcode
    split at h
    · cases h
    rename_i hlen
    split at h
    · cases h
    rename_i htail
    split at h
    · cases h
    rename_i hg
    refine ⟨entry, rfl, ⟨?_, ?_, ?_, ?_⟩, ?_⟩
    · exact UInt64.not_lt.mp hlive
    · exact Classical.not_not.mp hrcode
    · exact fun h0 => hlen (Or.inl h0)
    · exact Nat.not_lt.mp fun hlt => hlen (Or.inr hlt)
    · rw [if_neg hlive, if_neg hrcode, if_neg hlen, if_neg htail, if_neg hg]

/-- **The layers of the program**: a packet is passed on, or the firewall decides on it, or it is
looked up under its key. -/
theorem titanDnsFilter_cases (e : Endian) (env : XdpEnv) (m : KernelMaps) (f : Frame) :
    titanDnsFilter e env m f = (m, ⟨.pass, f⟩) ∨
      (∃ v, firewall e m.blacklist f = some v ∧ titanDnsFilter e env m f = (m, v)) ∨
      ∃ k, firewall e m.blacklist f = none ∧ xdpKey f = some k ∧
        titanDnsFilter e env m f = serveFromCache e env m f k := by
  unfold titanDnsFilter
  split
  · exact Or.inl rfl
  split
  · exact Or.inl rfl
  split
  · exact Or.inl rfl
  cases firewall e m.blacklist f with
  | some v => exact Or.inr (Or.inl ⟨v, rfl, rfl⟩)
  | none =>
    cases xdpKey f with
    | none => exact Or.inl rfl
    | some k => exact Or.inr (Or.inr ⟨k, rfl, rfl, rfl⟩)

/-- **Inversion of an answer**: a packet the firewall let through and the program answered was
answered from the live entry under the packet's key. -/
theorem titanDnsFilter_tx (hfw : firewall e m.blacklist f = none)
    (h : (titanDnsFilter e env m f).2.action = .tx) :
    ∃ k entry, xdpKey f = some k ∧ m.dnsCache k = some entry ∧ entry.Answers env ∧
      (titanDnsFilter e env m f).2.frame.drop PAYLOAD =
        withId (f.slice PAYLOAD 2) (entry.response.take entry.len.toNat) := by
  rcases titanDnsFilter_cases e env m f with hpass | ⟨v, hsome, -⟩ | ⟨k, -, hkey, hserve⟩
  · rw [hpass] at h
    cases h
  · rw [hfw] at hsome
    cases hsome
  · rw [hserve] at h ⊢
    obtain ⟨entry, hentry, hans, hframe⟩ := serveFromCache_tx h
    refine ⟨k, entry, hkey, hentry, hans, ?_⟩
    have hf := xdpKey_length hkey
    rw [hframe]
    refine reply_payload e (Frame.slice_length (by omega)) (adjustTail_length _ _) hans.fits ?_
    rw [entry.response_length]
    exact hans.fits

/-- The cache as one invocation may leave it: unchanged, or one entry with a new refresh time. -/
def Touched (m m' : KernelMaps) : Prop :=
  m'.blacklist = m.blacklist ∧
    (m'.dnsCache = m.dnsCache ∨
      ∃ k entry ts, m.dnsCache k = some entry ∧
        m'.dnsCache = PartialMap.put m.dnsCache k { entry with lastRefreshTs := ts })

theorem shadowRefresh_touched {k : UInt64} {entry : DnsCacheEntry}
    (hk : m.dnsCache k = some entry) : Touched m (shadowRefresh env m k entry) := by
  unfold shadowRefresh
  simp only
  split
  · split
    · have hput : ∃ k' entry' ts, m.dnsCache k' = some entry' ∧
          PartialMap.put m.dnsCache k
            { entry with lastRefreshTs := (env.now / 1000000000).toUInt32 } =
          PartialMap.put m.dnsCache k' { entry' with lastRefreshTs := ts } :=
        ⟨k, entry, _, hk, rfl⟩
      split
      · exact ⟨rfl, Or.inr hput⟩
      · exact ⟨rfl, Or.inr hput⟩
    · exact ⟨rfl, Or.inl rfl⟩
  · exact ⟨rfl, Or.inl rfl⟩

theorem serveFromCache_touched (k : UInt64) : Touched m (serveFromCache e env m f k).1 := by
  unfold serveFromCache
  cases hk : m.dnsCache k with
  | none => exact ⟨rfl, Or.inl rfl⟩
  | some entry =>
    obtain ⟨hbl, hcache⟩ := @shadowRefresh_touched env _ _ _ hk
    simp only
    split
    · exact ⟨rfl, Or.inl rfl⟩
    split
    · exact ⟨rfl, Or.inl rfl⟩
    split
    · exact ⟨hbl, hcache⟩
    split
    · exact ⟨hbl, hcache⟩
    split
    · exact ⟨hbl, hcache⟩
    · exact ⟨hbl, hcache⟩

/-- **Frame condition of the program.** -/
theorem titanDnsFilter_touched : Touched m (titanDnsFilter e env m f).1 := by
  rcases titanDnsFilter_cases e env m f with hpass | ⟨v, -, hfirewall⟩ | ⟨k, -, -, hserve⟩
  · rw [hpass]
    exact ⟨rfl, Or.inl rfl⟩
  · rw [hfirewall]
    exact ⟨rfl, Or.inl rfl⟩
  · rw [hserve]
    exact serveFromCache_touched k

end TitanDns.Bpf
