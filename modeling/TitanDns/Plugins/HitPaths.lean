import TitanDns.Plugins.TtlAgeing

/-!
# The two ways to serve a hit

* `Codec.Inverts` — decoding gives back what was encoded, and the ID is the first two bytes.
* `Readable` — the bytes of an entry decode to its message; `run_readable` — **so they do for every
  entry of a cache**, whatever file it was started with.
* `rawHit`, `messageHit` — the hit through `set_raw_response` and through `set_response`;
  `decodedResponse` — what the client reads of it.

Principal result: `hits_agree_iff` — **the two agree exactly when there is no TTL to raise**: the
minimum TTL of the context is applied to the message only.
-/

namespace TitanDns

open Bpf Run CacheSystem CachePlugin PersistentSystem

/-- The decoder inverts the encoder, and reads the ID from the first two bytes. -/
structure Codec.Inverts (codec : Codec) : Prop where
  decode : ∀ m bytes, codec.toVec m = some bytes → codec.fromVec bytes = some m
  id : ∀ bytes id, 12 ≤ bytes.length →
    codec.fromVec (be16 id ++ bytes.drop 2) = (codec.fromVec bytes).map ({ · with id := id })

/-- The bytes of the entry, if they hold a header, decode to its message. -/
def Readable (codec : Codec) (entry : CachedEntry) : Prop :=
  ∀ raw, entry.rawBytes = some raw → 12 ≤ raw.length → codec.fromVec raw = some entry.message

/-! ## Every entry is readable -/

section
variable {codec : Codec} {c : CachePlugin} {e : Endian}

/-- What is read from a file has bytes that decode to its message. -/
theorem fromBytes_parses {bytes : List UInt8} {entry : CachedEntry} {size : Nat}
    (h : CachedEntry.fromBytes codec bytes = .ok (entry, size)) :
    ∃ raw, entry.rawBytes = some raw ∧ codec.fromVec raw = some entry.message := by
  unfold CachedEntry.fromBytes at h
  simp only at h
  split at h
  · cases h
  · split at h
    · cases h
    · split at h
      · cases h
      · rename_i message hmessage
        cases h
        exact ⟨_, rfl, hmessage⟩

theorem fromBytes_readable {bytes : List UInt8} {entry : CachedEntry} {size : Nat}
    (h : CachedEntry.fromBytes codec bytes = .ok (entry, size)) : Readable codec entry := by
  obtain ⟨raw, hraw, hmessage⟩ := fromBytes_parses h
  intro raw' hraw' _
  rw [hraw] at hraw'
  cases hraw'
  exact hmessage

/-- **Whatever the file holds, what is read of it is readable.** -/
theorem fileHolds_readable (s : PersistentSystem) : FileHolds codec (Readable codec) s := by
  intro key entry hread
  obtain ⟨r, -, hr⟩ := List.mem_filterMap.mp hread
  split at hr
  · rename_i entry' size hentry
    cases hr
    exact fromBytes_readable hentry
  · cases hr

/-- Every writer stores a message with its encoding. -/
theorem writes_readable (hcodec : codec.Inverts) (s : PersistentSystem) (ev : PersistentEvent) :
    WritesHold codec c (Readable codec) s ev := by
  rintro ev' rfl w accepted hw
  obtain ⟨now, resp, ttl, bytes, hentry, hbytes, -⟩ := write_entry hw
  rw [hentry]
  intro raw hraw hheader
  cases hraw
  rcases hbytes with hbytes | rfl
  · exact hcodec.decode resp bytes hbytes
  · exact absurd hheader (by decide)

/-- **Every entry of a cache is readable**, whatever file the process was started with. -/
theorem run_readable (hcodec : codec.Inverts) (file : List UInt8) (es : List PersistentEvent) :
    StoreHolds (Readable codec) (run (persistentStep codec c e) ⟨.empty, file⟩ es) := by
  have hstep : ∀ s ev, StoreHolds (Readable codec) s →
      StoreHolds (Readable codec) (persistentStep codec c e s ev) := fun s ev hs =>
    (step_storeHolds_iff (fileHolds_readable s) hs ev).mpr (writes_readable hcodec s ev)
  have hstart : StoreHolds (Readable codec) ⟨.empty, file⟩ := by
    intro key entry hentry
    cases hentry
  exact invariant_run hstep hstart es

end

/-! ## The two paths -/

/-- The hit served as bytes. -/
def rawHit (ctx : Context) (zc : ZeroCopyDnsMessage) : Context := ctx.setRawResponse zc true

/-- The hit served as a message. -/
def messageHit (ctx : Context) (entry : CachedEntry) : Context :=
  ctx.setResponse { entry.message with id := ctx.request.id } true

/-- What the bytes that are sent decode to. -/
def decodedResponse (codec : Codec) (ctx : Context) : Option Message :=
  (ctx.responseBytes codec).bind codec.fromVec

section
variable {codec : Codec} {ctx : Context} {entry : CachedEntry} {zc : ZeroCopyDnsMessage}

/-- The bytes have the message of the entry, under the ID of the request. -/
theorem decoded_rawHit (hcodec : codec.Inverts) (hentry : Readable codec entry)
    (hraw : entry.rawBytes.bind ZeroCopyDnsMessage.fromBytes = some zc) :
    decodedResponse codec (rawHit ctx zc) =
      some { entry.message with id := ctx.request.id } := by
  obtain ⟨raw, hbytes, hheader⟩ := Option.bind_eq_some_iff.mp hraw
  unfold ZeroCopyDnsMessage.fromBytes at hheader
  split at hheader
  · rename_i hlength
    cases hheader
    show codec.fromVec (be16 ctx.request.id ++ raw.drop 2) = _
    rw [hcodec.id raw _ hlength, hentry raw hbytes hlength]
    rfl
  · cases hheader

/-- The message goes out with its TTLs raised. -/
theorem decoded_messageHit (hcodec : codec.Inverts)
    (hsent : (messageHit ctx entry).responseBytes codec ≠ none) :
    decodedResponse codec (messageHit ctx entry) =
      some { raised ctx.minTtl entry.message with id := ctx.request.id } := by
  obtain ⟨bytes, hbytes⟩ := Option.ne_none_iff_exists'.mp hsent
  have hto : codec.toVec { raised ctx.minTtl entry.message with id := ctx.request.id } =
      some bytes := by
    rw [← setResponse_sends]
    exact hbytes
  rw [decodedResponse, hbytes, Option.bind_some, hcodec.decode _ _ hto]

/-- A record keeps its TTL exactly when it is at least the minimum. -/
theorem raiseTtl_eq_iff (minTtl : UInt32) (r : Record) :
    Context.raiseTtl minTtl r = r ↔ minTtl ≤ r.ttl := by
  unfold Context.raiseTtl
  split
  · rename_i hlt
    constructor
    · intro h
      have hsame := congrArg Record.ttl h
      exact absurd hlt (by rw [← hsame]; exact UInt32.lt_irrefl _)
    · intro hle
      exact absurd hlt (UInt32.not_lt.mpr hle)
  · rename_i hlt
    exact iff_of_true rfl (UInt32.not_lt.mp hlt)

/-- Only answers are changed. -/
theorem raised_eq (minTtl : UInt32) (m : Message) :
    raised minTtl m = { m with answers := (raised minTtl m).answers } := by
  unfold raised
  split <;> rfl

/-- No TTL is raised. -/
theorem raised_answers_eq_iff (minTtl : UInt32) (m : Message) :
    m.answers = (raised minTtl m).answers ↔ minTtl = 0 ∨ ∀ r ∈ m.answers, minTtl ≤ r.ttl := by
  unfold raised
  split
  · rename_i hpos
    have hne : minTtl ≠ 0 := by
      rintro rfl
      exact UInt32.lt_irrefl _ hpos
    have hmap : m.answers.map id = m.answers.map (Context.raiseTtl minTtl) ↔
        ∀ r ∈ m.answers, id r = Context.raiseTtl minTtl r := List.map_inj_left
    rw [List.map_id] at hmap
    rw [or_iff_right hne, hmap]
    constructor
    · exact fun h r hr => (raiseTtl_eq_iff minTtl r).mp (h r hr).symm
    · exact fun h r hr => ((raiseTtl_eq_iff minTtl r).mpr (h r hr)).symm
  · rename_i hpos
    refine iff_of_true rfl (Or.inl ?_)
    apply UInt32.toNat_inj.mp
    have hzero := UInt32.not_lt.mp hpos
    exact Nat.le_zero.mp (UInt32.le_iff_toNat_le.mp hzero)

end

/-- **A hit is the same on both paths exactly when no TTL of the entry is below the minimum of the
context.** -/
theorem hits_agree_iff {codec : Codec} (hcodec : codec.Inverts) {c : CachePlugin} {e : Endian}
    {file : List UInt8} {es : List PersistentEvent} {key : QueryKey} {entry : CachedEntry}
    (hentry : (run (persistentStep codec c e) ⟨.empty, file⟩ es).system.cache key = some entry)
    {zc : ZeroCopyDnsMessage}
    (hraw : entry.rawBytes.bind ZeroCopyDnsMessage.fromBytes = some zc) {ctx : Context}
    (hsent : (messageHit ctx entry).responseBytes codec ≠ none) :
    decodedResponse codec (rawHit ctx zc) = decodedResponse codec (messageHit ctx entry) ↔
      ctx.minTtl = 0 ∨ ∀ r ∈ entry.message.answers, ctx.minTtl ≤ r.ttl := by
  have hreadable := run_readable hcodec file es key entry hentry
  rw [decoded_rawHit hcodec hreadable hraw, decoded_messageHit hcodec hsent,
    ← raised_answers_eq_iff, Option.some_inj]
  constructor
  · intro h
    have hanswers := congrArg Message.answers h
    exact hanswers
  · intro h
    rw [raised_eq, ← h]

/-! ## Example data -/

/-- The ID of a message on the wire. -/
def wireId : List UInt8 → UInt16
  | a :: b :: _ => UInt16.ofNat (256 * a.toNat + b.toNat)
  | _ => 0

theorem wireId_be16 (id : UInt16) (rest : List UInt8) : wireId (be16 id ++ rest) = id :=
  readU16_be16 id

/-- The library on the messages of a table, IDs included. -/
def Codec.ofTableWithId (messages : List (Message × List UInt8)) : Codec :=
  { Codec.ofTable messages [] with
    fromVec := fun bytes => (messages.find? (·.2.drop 2 == bytes.drop 2)).map fun e =>
      { e.1 with id := wireId bytes } }

theorem Codec.ofTableWithId_inverts {messages : List (Message × List UInt8)}
    (hunique : ∀ e ∈ messages, ∀ e' ∈ messages, e.2.drop 2 = e'.2.drop 2 → e.1 = e'.1) :
    (Codec.ofTableWithId messages).Inverts where
  decode m bytes h := by
    have hencoded : (Codec.ofTable messages []).toVec m = some bytes := h
    obtain ⟨e, hmem, hm, rfl, e', hmem', he', htail⟩ := Codec.ofTable_encoded hencoded
    have hsame := hunique e' hmem' e hmem htail
    show (messages.find? (·.2.drop 2 == e.2.drop 2)).map
      (fun e' => { e'.1 with id := wireId (be16 m.id ++ e.2.drop 2) }) = some m
    rw [he', Option.map_some, hsame, hm, wireId_be16]
  id bytes id _ := by
    show (messages.find? (·.2.drop 2 == bytes.drop 2)).map
        (fun e => { e.1 with id := wireId (be16 id ++ bytes.drop 2) }) =
      ((messages.find? (·.2.drop 2 == bytes.drop 2)).map
        fun e => { e.1 with id := wireId bytes }).map ({ · with id := id })
    rw [wireId_be16, Option.map_map]
    rfl

/-- The answer `192.0.2.1`, for five and for ten minutes. -/
def hitCodec : Codec :=
  .ofTableWithId
    [(addressAnswer, responseBytes exampleQuestion [192, 0, 2, 1]),
      (raised 600 addressAnswer, [0, 0, 0x81, 0x80, 0, 1, 0, 1, 0, 0, 0, 0] ++
        exampleQuestion.wire ++ [0xC0, 0x0C, 0, 1, 0, 1, 0, 0, 2, 88, 0, 4, 192, 0, 2, 1])]

theorem hitCodec_inverts : hitCodec.Inverts := by
  apply Codec.ofTableWithId_inverts
  decide

/-- The background refresher stores the answer. -/
def hitEvents : List PersistentEvent :=
  [.system (.insert ⟨1000, 0⟩ "www.example.com." 1 1 addressAnswer true)]

def hitEntry : CachedEntry :=
  .newWithBytes 1000 addressAnswer 300 (responseBytes exampleQuestion [192, 0, 2, 1])

theorem hitEntry_stored :
    (run (persistentStep hitCodec exampleCache .little) ⟨.empty, []⟩ hitEvents).system.cache
      (buildKeyForDomain "www.example.com." 1 1) = some hitEntry := by
  have hwrite : ∃ push, writeOf hitCodec exampleCache .empty
      (.insert ⟨1000, 0⟩ "www.example.com." 1 1 addressAnswer true) =
        some (⟨buildKeyForDomain "www.example.com." 1 1, hitEntry, push⟩, true) := ⟨_, rfl⟩
  obtain ⟨push, hwrite⟩ := hwrite
  exact step_writes (e := .little) hwrite

/-- The bytes of the entry. -/
def hitBytes : ZeroCopyDnsMessage :=
  ⟨responseBytes exampleQuestion [192, 0, 2, 1], by decide⟩

theorem hitEntry_bytes : hitEntry.rawBytes.bind ZeroCopyDnsMessage.fromBytes = some hitBytes := rfl

/-- A client asks, with the given minimum TTL. -/
def hitContext (minTtl : UInt32) : Context :=
  { Context.new { id := 4660, queries := [exampleQuestion] } (.v4 ⟨10, 0, 0, 2⟩) with
    minTtl := minTtl }

/-- A minimum of two hundred seconds, which the answer meets. -/
theorem hits_agree_iff_met :
    decodedResponse hitCodec (rawHit (hitContext 200) hitBytes) =
      decodedResponse hitCodec (messageHit (hitContext 200) hitEntry) :=
  (hits_agree_iff hitCodec_inverts hitEntry_stored hitEntry_bytes (by decide)).mpr
    (Or.inr (by decide))

/-- With a minimum of ten minutes the bytes still say five. -/
theorem raw_hit_not_raised :
    (decodedResponse hitCodec (rawHit (hitContext 600) hitBytes)).map
      (fun m => m.answers.map (·.ttl)) = some [300] ∧
    (decodedResponse hitCodec (messageHit (hitContext 600) hitEntry)).map
      (fun m => m.answers.map (·.ttl)) = some [600] ∧
    ¬ ∀ (codec : Codec) (_ : codec.Inverts) (c : CachePlugin) (e : Endian) (file : List UInt8)
        (es : List PersistentEvent) (key : QueryKey) (entry : CachedEntry),
        (run (persistentStep codec c e) ⟨.empty, file⟩ es).system.cache key = some entry →
        ∀ zc, entry.rawBytes.bind ZeroCopyDnsMessage.fromBytes = some zc →
        ∀ ctx, (messageHit ctx entry).responseBytes codec ≠ none →
          decodedResponse codec (rawHit ctx zc) = decodedResponse codec (messageHit ctx entry) := by
  have hraw : (decodedResponse hitCodec (rawHit (hitContext 600) hitBytes)).map
      (fun m => m.answers.map (·.ttl)) = some [300] := by decide
  have hmessage : (decodedResponse hitCodec (messageHit (hitContext 600) hitEntry)).map
      (fun m => m.answers.map (·.ttl)) = some [600] := by decide
  refine ⟨hraw, hmessage, fun hall => ?_⟩
  have hsame := hall hitCodec hitCodec_inverts exampleCache .little [] hitEvents _ hitEntry
    hitEntry_stored hitBytes hitEntry_bytes (hitContext 600) (by decide)
  rw [hsame, hmessage] at hraw
  exact absurd hraw (by decide)

end TitanDns
