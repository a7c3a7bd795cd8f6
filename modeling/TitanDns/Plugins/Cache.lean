import TitanDns.Plugins.Forward
import TitanDns.Plugins.RecursiveBackend

/-!
# `CachePlugin`: keys, lifetimes, lookup and write-back

The parts of `cache.rs` that do not depend on the state of the cache: what is looked up, what is
done with the entry found, what is stored and for how long.  Times are Unix seconds.

* `hashDomain`, `getKey`, `buildKeyForDomain` — the key: a hash of the name's text, type, class.
* `calculateTtl` — the lifetime of a response; `calculateTtl_nil`, `calculateTtl_pos` — **without
  answers it is the maximum**, and when it is zero; `calculateTtl_within`,
  `calculateTtl_le_answer` — its bounds.
* `lookupDecision`, `answerFrom`, `handleWith` — `handle`, given the entry under the key.
  `serve_within` — **what is served is within its lifetime and the stale window.**
* `entryFor` — what `on_response` and `insert_response_for_domain` store, if anything.
-/

namespace TitanDns

/-! ## Keys -/

/-- Little-endian value of up to eight bytes. -/
def leValue (bs : List UInt8) : UInt64 := bs.foldr (fun b n => b.toUInt64 + 256 * n) 0

/-- `hash.rotate_left(5)`. -/
def rotateLeft5 (h : UInt64) : UInt64 := (h <<< 5) ||| (h >>> 59)

/-- One step of `hash_fx`. -/
def fxStep (h n : UInt64) : UInt64 := (rotateLeft5 h ^^^ n) * 0x517cc1b727220a95

/-- `hash_fx` on a little-endian host: words of eight bytes, then the remaining bytes. -/
def hashFx (h : UInt64) : List UInt8 → UInt64
  | a :: b :: c :: d :: e :: f :: g :: i :: rest =>
    hashFx (fxStep h (leValue [a, b, c, d, e, f, g, i])) rest
  | rest => rest.foldl (fun h b => fxStep h b.toUInt64) h

/-- `SimdDomainHasher::new().hash_domain(domain)`. -/
def hashDomain (domain : String) : UInt64 := hashFx 0xcbf29ce484222325 domain.toUTF8.data.toList

/-- `QueryKey`; the subnet is never set. -/
structure QueryKey where
  nameHash : UInt64
  qtype : UInt16
  qclass : UInt16
  deriving DecidableEq

/-- `build_key_for_domain`. -/
def buildKeyForDomain (domain : String) (qtype qclass : UInt16) : QueryKey :=
  ⟨hashDomain domain, qtype, qclass⟩

/-- `get_key`. -/
def getKey (codec : Codec) (ctx : Context) : Option QueryKey :=
  ctx.request.query.map fun q => buildKeyForDomain (ctx.qname codec) q.qtype q.qclass

/-! ## Entries -/

structure CachedEntry where
  message : Message
  rawBytes : Option (List UInt8)
  timestamp : Nat
  ttl : Nat
  deriving DecidableEq

/-- `CachedEntry::new_with_bytes` at `now`. -/
def CachedEntry.newWithBytes (now : Nat) (message : Message) (ttl : Nat) (rawBytes : List UInt8) :
    CachedEntry := ⟨message, some rawBytes, now, ttl⟩

/-- The configuration of a cache plugin; the factory refuses `max_ttl < min_ttl`. -/
structure CachePlugin where
  name : String
  minTtl : Nat
  maxTtl : Nat
  ttl_range : minTtl ≤ maxTtl
  fakeipProtection : Bool
  prefetchForwarder : Option ForwardPlugin
  prefetchRecursive : Option RecursiveBackend
  prefetchThreshold : Nat
  serveStaleTtl : Nat
  /-- `xdp_filter.is_some()` -/
  xdpFilter : Bool
  xdpCacheEnabled : Bool

namespace CachePlugin

/-! ## Lifetimes -/

/-- `calculate_ttl`. -/
def calculateTtl (c : CachePlugin) (resp : Message) : Nat :=
  let ttl := resp.answers.foldl (fun ttl ans => if ans.ttl.toNat < ttl then ans.ttl.toNat else ttl)
    c.maxTtl
  if ttl < c.minTtl then c.minTtl else ttl

/-- **A response without answers lives as long as the configuration allows.** -/
theorem calculateTtl_nil {c : CachePlugin} {resp : Message} (h : resp.answers = []) :
    c.calculateTtl resp = c.maxTtl := by
  unfold calculateTtl
  simp only [h, List.foldl_nil]
  rw [if_neg (Nat.not_lt.mpr c.ttl_range)]

/-- The fold is zero when its start or some TTL is. -/
theorem foldTtl_eq_zero (answers : List Record) (start : Nat) :
    answers.foldl (fun ttl ans => if ans.ttl.toNat < ttl then ans.ttl.toNat else ttl) start = 0 ↔
      start = 0 ∨ ∃ ans ∈ answers, ans.ttl.toNat = 0 := by
  induction answers generalizing start with
  | nil => simp
  | cons ans answers ih =>
    rw [List.foldl_cons, ih]
    simp only [List.exists_mem_cons_iff]
    split
    · constructor
      · rintro (h | h)
        · exact Or.inr (Or.inl h)
        · exact Or.inr (Or.inr h)
      · rintro (h | h | h)
        · omega
        · exact Or.inl h
        · exact Or.inr h
    · constructor
      · rintro (h | h)
        · exact Or.inl h
        · exact Or.inr (Or.inr h)
      · rintro (h | h | h)
        · exact Or.inl h
        · exact Or.inl (by omega)
        · exact Or.inr h

/-- When the lifetime is zero. -/
theorem calculateTtl_eq_zero (c : CachePlugin) (resp : Message) :
    c.calculateTtl resp = 0 ↔
      c.minTtl = 0 ∧ (c.maxTtl = 0 ∨ ∃ ans ∈ resp.answers, ans.ttl.toNat = 0) := by
  have hfold := foldTtl_eq_zero resp.answers c.maxTtl
  unfold calculateTtl
  simp only
  split
  · rename_i hlt
    constructor
    · intro h
      omega
    · rintro ⟨h, -⟩
      exact h
  · rename_i hlt
    rw [hfold]
    constructor
    · intro h
      have h0 := hfold.mpr h
      exact ⟨by omega, h⟩
    · exact fun h => h.2

theorem foldTtl_le (answers : List Record) (start : Nat) :
    answers.foldl (fun ttl ans => if ans.ttl.toNat < ttl then ans.ttl.toNat else ttl) start ≤
      start := by
  induction answers generalizing start with
  | nil => simp
  | cons ans answers ih =>
    rw [List.foldl_cons]
    apply Nat.le_trans (ih (if ans.ttl.toNat < start then ans.ttl.toNat else start))
    split <;> omega

/-- **The lifetime that the configuration gives is within it.** -/
theorem calculateTtl_within (c : CachePlugin) (resp : Message) :
    c.minTtl ≤ c.calculateTtl resp ∧ c.calculateTtl resp ≤ c.maxTtl := by
  have hfold := foldTtl_le resp.answers c.maxTtl
  have hrange := c.ttl_range
  unfold calculateTtl
  simp only
  split
  · omega
  · omega

theorem foldTtl_le_answer {answers : List Record} {ans : Record} (h : ans ∈ answers) (start : Nat) :
    answers.foldl (fun ttl ans => if ans.ttl.toNat < ttl then ans.ttl.toNat else ttl) start ≤
      ans.ttl.toNat := by
  induction answers generalizing start with
  | nil => cases h
  | cons first answers ih =>
    rw [List.foldl_cons]
    rcases List.mem_cons.mp h with rfl | hrest
    · apply Nat.le_trans
        (foldTtl_le answers (if ans.ttl.toNat < start then ans.ttl.toNat else start))
      split <;> omega
    · exact ih hrest _

/-- **No answer outlives its TTL in the cache**, unless the minimum is longer. -/
theorem calculateTtl_le_answer (c : CachePlugin) {resp : Message} {ans : Record}
    (h : ans ∈ resp.answers) : c.calculateTtl resp ≤ max c.minTtl ans.ttl.toNat := by
  have hfold := foldTtl_le_answer h c.maxTtl
  unfold calculateTtl
  simp only
  split
  · omega
  · omega

/-! ## Lookup -/

/-- What `handle` does with the entry found. -/
inductive Decision where
  /-- Expired, and FakeIP protection forbids serving it: a miss that keeps the entry. -/
  | skip
  | serve
  /-- Too old to be served at all: the entry is invalidated. -/
  | drop
  deriving DecidableEq, Repr

/-- Seconds left of the original TTL. -/
def remaining (now : Nat) (entry : CachedEntry) : Nat := entry.ttl - (now - entry.timestamp)

def lookupDecision (c : CachePlugin) (now : Nat) (entry : CachedEntry) : Decision :=
  let elapsed := now - entry.timestamp
  let isStale := remaining now entry = 0
  if c.fakeipProtection ∧ isStale then .skip
  else if 0 < remaining now entry ∨ (isStale ∧ elapsed < entry.ttl + c.serveStaleTtl) then .serve
  else .drop

/-- How long past its lifetime an entry may be served. -/
def staleWindow (c : CachePlugin) : Nat := if c.fakeipProtection then 0 else c.serveStaleTtl

/-- **What is served is within its lifetime and the stale window.** -/
theorem serve_within {c : CachePlugin} {now : Nat} {entry : CachedEntry}
    (h : c.lookupDecision now entry = .serve) :
    now - entry.timestamp < entry.ttl + c.staleWindow := by
  unfold lookupDecision remaining at h
  unfold staleWindow
  simp only at h
  split at h
  · cases h
  · rename_i hskip
    split at h
    · rename_i hserve
      rcases hserve with hfresh | ⟨hzero, hage⟩
      · omega
      · rw [if_neg fun hfake => hskip ⟨hfake, hzero⟩]
        exact hage
    · cases h

/-- The response served from an entry: its bytes if they hold a header, else its message. -/
def answerFrom (ctx : Context) (entry : CachedEntry) : Context :=
  match entry.rawBytes.bind ZeroCopyDnsMessage.fromBytes with
  | some zc => ctx.setRawResponse zc true
  | none => ctx.setResponse { entry.message with id := ctx.request.id } true

/-- A hit triggers a refresh when the entry is about to expire or has expired. -/
def needPrefetch (c : CachePlugin) (now : Nat) (entry : CachedEntry) : Bool :=
  (0 < remaining now entry && remaining now entry < c.prefetchThreshold) ||
    remaining now entry == 0

/-- `handle` on the context, given what the cache holds under the key. -/
def handleWith (codec : Codec) (c : CachePlugin) (now : Nat) (found : Option CachedEntry)
    (ctx : Context) : Context :=
  match getKey codec ctx with
  | none => ctx
  | some _ =>
    let miss := { ctx with postProcessHooks := ctx.postProcessHooks ++ [c.name] }
    match found with
    | none => miss
    | some entry =>
      match c.lookupDecision now entry with
      | .serve => answerFrom ctx entry
      | .skip => miss
      | .drop => miss

/-! ## Write-back -/

/-- `MAX_CACHE_ENTRY_SIZE`. -/
def MAX_CACHE_ENTRY_SIZE : Nat := 4096

/-- `to_vec().unwrap_or_default()`. -/
def encoded (codec : Codec) (resp : Message) : List UInt8 := (codec.toVec resp).getD []

/-- The entry stored for a response that comes through the pipeline or the smart refresher:
nothing if it is too large or has no lifetime. -/
def entryFor (codec : Codec) (c : CachePlugin) (now : Nat) (resp : Message) : Option CachedEntry :=
  if MAX_CACHE_ENTRY_SIZE < (encoded codec resp).length then none
  else if c.calculateTtl resp = 0 then none
  else some (.newWithBytes now resp (c.calculateTtl resp) (encoded codec resp))

/-- The entry stored by a background refresh, which has no size limit but needs an encoding. -/
def refreshEntryFor (codec : Codec) (c : CachePlugin) (now : Nat) (resp : Message) :
    Option CachedEntry :=
  if c.calculateTtl resp = 0 then none
  else (codec.toVec resp).map (.newWithBytes now resp (c.calculateTtl resp))

theorem entryFor_some {codec : Codec} {c : CachePlugin} {now : Nat} {resp : Message}
    {entry : CachedEntry} (h : entryFor codec c now resp = some entry) :
    (encoded codec resp).length ≤ MAX_CACHE_ENTRY_SIZE ∧ 0 < c.calculateTtl resp ∧
      entry = .newWithBytes now resp (c.calculateTtl resp) (encoded codec resp) := by
  unfold entryFor at h
  split at h
  · cases h
  · split at h
    · cases h
    · cases h
      exact ⟨by omega, by omega, rfl⟩

theorem refreshEntryFor_some {codec : Codec} {c : CachePlugin} {now : Nat} {resp : Message}
    {entry : CachedEntry} (h : refreshEntryFor codec c now resp = some entry) :
    0 < c.calculateTtl resp ∧ ∃ bytes, codec.toVec resp = some bytes ∧
      entry = .newWithBytes now resp (c.calculateTtl resp) bytes := by
  unfold refreshEntryFor at h
  split at h
  · cases h
  · obtain ⟨bytes, hbytes, rfl⟩ := Option.map_eq_some_iff.mp h
    exact ⟨by omega, bytes, hbytes, rfl⟩

end CachePlugin

end TitanDns
