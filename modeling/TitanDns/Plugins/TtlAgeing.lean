import TitanDns.Plugins.Persistence

/-!
# The TTLs of a fresh hit

* `Outlived` — no answer of an entry has a TTL shorter than the lifetime of the entry, unless the
  minimum lifetime is longer; `writes_outlived`, `outlived_survives` — **every writer sees to it,
  and a round trip through the file keeps it.**
* `servedAnswers` — the answers in the representation that is served; `handle_sends` — **they are
  sent as they are stored.**
* `Aged` — every answer that is sent has a TTL of at most the remaining lifetime.
* `ttl_aged_iff` — **a fresh hit is aged exactly when there is nothing to subtract**;
  `hit_not_aged` — after a hundred seconds the TTL is still the one of the first second.
-/

namespace TitanDns

open Bpf Run CacheSystem CachePlugin PersistentSystem

/-- The answers that the bytes decode to. -/
def answersOf (codec : Codec) (bytes : List UInt8) : List Record :=
  ((codec.fromVec bytes).map (·.answers)).getD []

/-- The entry lives no longer than any of its answers, or than the minimum. -/
structure Outlived (codec : Codec) (c : CachePlugin) (entry : CachedEntry) : Prop where
  message : ∀ r ∈ entry.message.answers, entry.ttl ≤ max c.minTtl r.ttl.toNat
  bytes : ∀ raw, entry.rawBytes = some raw →
    raw.length ≤ 65535 ∧ ∀ r ∈ answersOf codec raw, entry.ttl ≤ max c.minTtl r.ttl.toNat

section
variable {codec : Codec} {c : CachePlugin}

theorem answersOf_none {bytes : List UInt8} (h : codec.fromVec bytes = none) :
    answersOf codec bytes = [] := by
  unfold answersOf
  rw [h]
  rfl

theorem answersOf_some {bytes : List UInt8} {m : Message} (h : codec.fromVec bytes = some m) :
    answersOf codec bytes = m.answers := by
  unfold answersOf
  rw [h]
  rfl

/-- What an encoding decodes to has no TTL that the message does not have. -/
theorem answersOf_toVec (hcodec : codec.KeepsTtls) {m : Message} {bytes : List UInt8}
    (h : codec.toVec m = some bytes) {r : Record} (hr : r ∈ answersOf codec bytes) :
    ∃ r' ∈ m.answers, r.ttl = r'.ttl := by
  cases hdecode : codec.fromVec bytes with
  | none =>
    rw [answersOf_none hdecode] at hr
    cases hr
  | some m' =>
    rw [answersOf_some hdecode] at hr
    exact hcodec m bytes bytes m' h rfl hdecode r hr

/-! ## Writers -/

/-- A message with its encoding, if it has one, or with no bytes. -/
theorem newWithBytes_outlived (hcodec : codec.KeepsTtls) (hheaded : codec.Headed) {now ttl : Nat}
    {resp : Message} {bytes : List UInt8} (hbytes : codec.toVec resp = some bytes ∨ bytes = [])
    (httl : ∀ r ∈ resp.answers, ttl ≤ max c.minTtl r.ttl.toNat) :
    Outlived codec c (.newWithBytes now resp ttl bytes) where
  message := httl
  bytes := by
    intro raw hraw
    cases hraw
    rcases hbytes with hbytes | rfl
    · refine ⟨hheaded.encoded resp bytes hbytes, ?_⟩
      intro r hr
      obtain ⟨r', hr', hsame⟩ := answersOf_toVec hcodec hbytes hr
      rw [hsame]
      exact httl r' hr'
    · refine ⟨by simp, ?_⟩
      intro r hr
      cases hdecode : codec.fromVec [] with
      | none =>
        rw [answersOf_none hdecode] at hr
        cases hr
      | some m =>
        have hlen := hheaded.decoded [] m hdecode
        simp at hlen

theorem shadowTtl_le_answer {resp : Message} {ans : Record} (h : ans ∈ resp.answers) :
    shadowTtl resp ≤ ans.ttl.toNat := by
  have hmem : ans.ttl.toNat ∈ resp.answers.map (·.ttl.toNat) := List.mem_map_of_mem h
  unfold shadowTtl
  cases hmin : (resp.answers.map (·.ttl.toNat)).min? with
  | none =>
    rw [List.min?_eq_none_iff] at hmin
    rw [hmin] at hmem
    cases hmem
  | some least =>
    exact (List.min?_eq_some_iff.mp hmin).2 _ hmem

/-- **Every writer sees to it.** -/
theorem writes_outlived (hcodec : codec.KeepsTtls) (hheaded : codec.Headed)
    (s : PersistentSystem) (ev : PersistentEvent) : WritesHold codec c (Outlived codec c) s ev := by
  rintro ev' - w accepted hw
  obtain ⟨now, resp, ttl, bytes, hentry, hbytes, hlife⟩ := write_entry hw
  rw [hentry]
  apply newWithBytes_outlived hcodec hheaded hbytes
  intro r hr
  rcases hlife with rfl | rfl
  · exact c.calculateTtl_le_answer hr
  · exact Nat.le_trans (shadowTtl_le_answer hr) (Nat.le_max_right _ _)

/-- It holds of the bytes that go into a file. -/
theorem Outlived.messageBytes (hcodec : codec.KeepsTtls) (hheaded : codec.Headed)
    {entry : CachedEntry} (h : Outlived codec c entry) {msg : List UInt8}
    (hmsg : entry.messageBytes codec = some msg) :
    msg.length ≤ 65535 ∧ ∀ r ∈ answersOf codec msg, entry.ttl ≤ max c.minTtl r.ttl.toNat := by
  unfold CachedEntry.messageBytes at hmsg
  cases hraw : entry.rawBytes with
  | some raw =>
    rw [hraw] at hmsg
    cases hmsg
    exact h.bytes _ hraw
  | none =>
    rw [hraw] at hmsg
    refine ⟨hheaded.encoded _ _ hmsg, ?_⟩
    intro r hr
    obtain ⟨r', hr', hsame⟩ := answersOf_toVec hcodec hmsg hr
    rw [hsame]
    exact h.message r' hr'

/-- **The file keeps it**: what comes back has the bytes, and lives no longer. -/
theorem outlived_survives (hcodec : codec.KeepsTtls) (hheaded : codec.Headed) :
    Survives codec (Outlived codec c) where
  fits := by
    intro entry msg h hmsg
    have hlen := (h.messageBytes hcodec hheaded hmsg).1
    omega
  restored := by
    intro entry entry' h hrestored
    obtain ⟨msg, hmsg, hraw, hdecode⟩ := hrestored.bytes
    obtain ⟨hlen, hanswers⟩ := h.messageBytes hcodec hheaded hmsg
    have httl : entry'.ttl ≤ entry.ttl := by
      rw [hrestored.ttl]
      exact Nat.mod_le _ _
    refine ⟨?_, ?_⟩
    · intro r hr
      apply Nat.le_trans httl
      apply hanswers r
      rw [answersOf_some hdecode]
      exact hr
    · intro raw hraw'
      rw [hraw] at hraw'
      cases hraw'
      refine ⟨hlen, ?_⟩
      intro r hr
      exact Nat.le_trans httl (hanswers r hr)

/-- **Nothing else is ever in the store.** -/
theorem run_outlived (hcodec : codec.KeepsTtls) (hheaded : codec.Headed) {e : Endian}
    (es : List PersistentEvent) :
    StoreHolds (Outlived codec c) (run (persistentStep codec c e) .empty es) := by
  have hwrites : Meets (persistentStep codec c e) (WritesHold codec c (Outlived codec c)) .empty
      es := by
    apply meets_of_cuts
    intro before ev rest _
    exact writes_outlived hcodec hheaded _ ev
  exact ((always_storeHolds_iff (outlived_survives hcodec hheaded) es).mpr hwrites).last

/-! ## What is served -/

/-- `set_response` applies the minimum TTL of the context. -/
def raised (minTtl : UInt32) (m : Message) : Message :=
  if 0 < minTtl then { m with answers := m.answers.map (Context.raiseTtl minTtl) } else m

variable (codec) in
/-- The answers of an entry, in the representation that `handle` takes: its bytes if they hold a
header, else its message. -/
def servedAnswers (minTtl : UInt32) (entry : CachedEntry) : List Record :=
  match entry.rawBytes.bind ZeroCopyDnsMessage.fromBytes with
  | some zc => answersOf codec zc.raw
  | none => ((codec.toVec (raised minTtl entry.message)).map (answersOf codec)).getD []

theorem raiseTtl_le (minTtl : UInt32) (r : Record) :
    r.ttl.toNat ≤ (Context.raiseTtl minTtl r).ttl.toNat := by
  unfold Context.raiseTtl
  split
  · rename_i hlt
    exact Nat.le_of_lt (UInt32.lt_iff_toNat_lt.mp hlt)
  · exact Nat.le_refl _

/-- The minimum lowers no TTL. -/
theorem raised_answers {minTtl : UInt32} {m : Message} {r : Record}
    (h : r ∈ (raised minTtl m).answers) : ∃ r' ∈ m.answers, r'.ttl.toNat ≤ r.ttl.toNat := by
  unfold raised at h
  split at h
  · obtain ⟨r', hr', rfl⟩ := List.mem_map.mp h
    exact ⟨r', hr', raiseTtl_le minTtl r'⟩
  · exact ⟨r, h, Nat.le_refl _⟩

/-- No answer that is served has a TTL shorter than the lifetime. -/
theorem Outlived.served (hcodec : codec.KeepsTtls) {entry : CachedEntry}
    (h : Outlived codec c entry) {minTtl : UInt32} {r : Record}
    (hr : r ∈ servedAnswers codec minTtl entry) : entry.ttl ≤ max c.minTtl r.ttl.toNat := by
  unfold servedAnswers at hr
  split at hr
  · rename_i zc hzc
    obtain ⟨raw, hraw, hheader⟩ := Option.bind_eq_some_iff.mp hzc
    have hsame : zc.raw = raw := by
      unfold ZeroCopyDnsMessage.fromBytes at hheader
      split at hheader
      · cases hheader
        rfl
      · cases hheader
    rw [hsame] at hr
    exact (h.bytes raw hraw).2 r hr
  · cases hbytes : codec.toVec (raised minTtl entry.message) with
    | none =>
      rw [hbytes] at hr
      cases hr
    | some bytes =>
      rw [hbytes] at hr
      obtain ⟨r₁, hr₁, hsame⟩ := answersOf_toVec hcodec hbytes hr
      obtain ⟨r₀, hr₀, hle⟩ := raised_answers hr₁
      have hbound := h.message r₀ hr₀
      rw [hsame]
      omega

/-- The bytes under another ID have the same answers. -/
theorem answersOf_withId (hheaded : codec.Headed) (id : UInt16) (bytes : List UInt8) :
    answersOf codec (be16 id ++ bytes.drop 2) = answersOf codec bytes := by
  unfold answersOf
  rw [hheaded.decodeId]

/-- What is sent of a message: its encoding under the ID of the request, the minimum TTL applied. -/
theorem setResponse_sends (ctx : Context) (m : Message) :
    (ctx.setResponse { m with id := ctx.request.id } true).responseBytes codec =
      codec.toVec { raised ctx.minTtl m with id := ctx.request.id } := by
  unfold Context.setResponse Context.responseBytes raised
  simp only
  split <;> rfl

/-- **What `handle` sends of an entry are the answers as they are stored.** -/
theorem handle_sends (hheaded : codec.Headed) (ctx : Context) (entry : CachedEntry) :
    (((answerFrom ctx entry).responseBytes codec).map (answersOf codec)).getD [] =
      servedAnswers codec ctx.minTtl entry := by
  unfold answerFrom servedAnswers
  cases entry.rawBytes.bind ZeroCopyDnsMessage.fromBytes with
  | some zc => exact answersOf_withId hheaded ctx.request.id zc.raw
  | none =>
    have hsent := @setResponse_sends codec ctx entry.message
    have hbytes := hheaded.encodeId (raised ctx.minTtl entry.message) ctx.request.id
    simp only [hsent, hbytes]
    cases codec.toVec (raised ctx.minTtl entry.message) with
    | none => rfl
    | some bytes => exact answersOf_withId hheaded ctx.request.id bytes

/-! ## Ageing -/

variable (codec c) in
/-- Every answer in the bytes that are sent has a TTL of at most the remaining lifetime. -/
def Aged (now : Nat) (entry : CachedEntry) (ctx : Context) : Prop :=
  ∀ bytes, ctx.responseBytes codec = some bytes →
    ∀ r ∈ answersOf codec bytes, r.ttl.toNat ≤ remaining now entry

variable (codec c) in
/-- The client keeps no answer past the lifetime that the upstream gave any, up to the minimum. -/
def KeptInTime (now : Nat) (entry : CachedEntry) (ctx : Context) : Prop :=
  ∀ bytes, ctx.responseBytes codec = some bytes → ∀ r ∈ answersOf codec bytes,
    ∀ given ∈ entry.message.answers,
      now + r.ttl.toNat ≤ entry.timestamp + max c.minTtl given.ttl.toNat

variable (codec c) in
/-- There is nothing to subtract: no answers, or all of them have the lifetime of the entry and this
is its first second, or the minimum has raised the lifetime far enough above them. -/
def NothingToSubtract (now : Nat) (ctx : Context) (entry : CachedEntry) : Prop :=
  servedAnswers codec ctx.minTtl entry = [] ∨
  (now ≤ entry.timestamp ∧
    ∀ r ∈ servedAnswers codec ctx.minTtl entry, r.ttl.toNat = entry.ttl) ∨
  (entry.ttl ≤ c.minTtl ∧ ∀ r ∈ servedAnswers codec ctx.minTtl entry,
    r.ttl.toNat + (now - entry.timestamp) ≤ entry.ttl)

theorem aged_iff_served (hheaded : codec.Headed) (now : Nat) (ctx : Context)
    (entry : CachedEntry) : Aged codec now entry (answerFrom ctx entry) ↔
      ∀ r ∈ servedAnswers codec ctx.minTtl entry, r.ttl.toNat ≤ remaining now entry := by
  rw [← handle_sends hheaded]
  unfold Aged
  cases (answerFrom ctx entry).responseBytes codec with
  | none => simp
  | some bytes => simp

/-- **The answers are young enough exactly when there is nothing to subtract.** -/
theorem served_iff (hcodec : codec.KeepsTtls) {entry : CachedEntry} (h : Outlived codec c entry)
    {now : Nat} (hfresh : 0 < remaining now entry) (ctx : Context) :
    (∀ r ∈ servedAnswers codec ctx.minTtl entry, r.ttl.toNat ≤ remaining now entry) ↔
      NothingToSubtract codec c now ctx entry := by
  unfold remaining at hfresh ⊢
  constructor
  · intro hall
    by_cases hlow : entry.ttl ≤ c.minTtl
    · right
      right
      refine ⟨hlow, ?_⟩
      intro r hr
      have hyoung := hall r hr
      omega
    · -- the lifetime is not raised, so that every answer has at least this TTL
      have hexact : ∀ r ∈ servedAnswers codec ctx.minTtl entry,
          r.ttl.toNat = entry.ttl ∧ now ≤ entry.timestamp := by
        intro r hr
        have hyoung := hall r hr
        have hlong := h.served hcodec hr
        omega
      cases hanswers : servedAnswers codec ctx.minTtl entry with
      | nil => exact Or.inl hanswers
      | cons first rest =>
        right
        left
        refine ⟨(hexact first (by simp [hanswers])).2, ?_⟩
        intro r hr
        exact (hexact r hr).1
  · rintro (hnone | ⟨hnow, hsame⟩ | ⟨-, hlow⟩) r hr
    · rw [hnone] at hr
      cases hr
    · have := hsame r hr
      omega
    · have := hlow r hr
      omega

end

/-- **A fresh hit is aged exactly when there is nothing to subtract**; where it is aged, no client
keeps an answer for too long. -/
theorem ttl_aged_iff (codec : Codec) (c : CachePlugin) (e : Endian) (hcodec : codec.KeepsTtls)
    (hheaded : codec.Headed) (es : List PersistentEvent) (now : Nat) (ctx : Context)
    (entry : CachedEntry)
    (hserves : Serves codec c (run (persistentStep codec c e) .empty es).system now ctx entry)
    (hfresh : 0 < remaining now entry) :
    (Aged codec now entry
        ((run (persistentStep codec c e) .empty es).system.handle codec c now ctx) ↔
      NothingToSubtract codec c now ctx entry) ∧
    (Aged codec now entry
        ((run (persistentStep codec c e) .empty es).system.handle codec c now ctx) →
      KeptInTime codec c now entry
        ((run (persistentStep codec c e) .empty es).system.handle codec c now ctx)) := by
  have houtlived : Outlived codec c entry := by
    obtain ⟨key, -, hentry⟩ := Option.bind_eq_some_iff.mp hserves.1
    exact run_outlived hcodec hheaded es key entry hentry
  rw [handle_serves hserves]
  refine ⟨?_, ?_⟩
  · rw [aged_iff_served hheaded]
    exact served_iff hcodec houtlived hfresh ctx
  · intro haged bytes hbytes r hr given hgiven
    have hyoung := haged bytes hbytes r hr
    have hlife := houtlived.message given hgiven
    unfold remaining at hyoung hfresh
    omega

/-! ## An answer for five minutes -/

/-- It is stored at second 0. -/
def minutesRun : List PersistentEvent :=
  [.system (.respond ⟨0, 0⟩ (answeredContext exampleQuestion addressAnswer) true)]

/-- What is stored. -/
def minutesEntry : CachedEntry :=
  .newWithBytes 0 addressAnswer 300 (responseBytes exampleQuestion [192, 0, 2, 1])

/-- The cache afterwards. -/
def minutesSystem : CacheSystem :=
  (run (persistentStep tableCodec exampleCache .little) .empty minutesRun).system

/-- A client asks for it. -/
def clientLookup : Context :=
  .new { id := 7, recursionDesired := true, queries := [exampleQuestion] } (.v4 ⟨10, 0, 0, 2⟩)

/-- In its first second there is nothing to subtract. -/
theorem ttl_aged_iff_first :
    Aged tableCodec 0 minutesEntry (minutesSystem.handle tableCodec exampleCache 0 clientLookup) ∧
      KeptInTime tableCodec exampleCache 0 minutesEntry
        (minutesSystem.handle tableCodec exampleCache 0 clientLookup) := by
  have hkeeps : tableCodec.KeepsTtls := by
    apply Codec.ofTable_keepsTtls
    decide +kernel
  have hheaded : tableCodec.Headed := by
    apply Codec.ofTable_headed
    decide +kernel
  obtain ⟨hiff, hkept⟩ := ttl_aged_iff tableCodec exampleCache .little hkeeps hheaded minutesRun 0
    clientLookup minutesEntry (by decide +kernel) (by decide)
  have hnothing : NothingToSubtract tableCodec exampleCache 0 clientLookup minutesEntry := by
    right
    left
    refine ⟨by decide, ?_⟩
    decide +kernel
  have haged := hiff.mpr hnothing
  exact ⟨haged, hkept haged⟩

/-- **After a hundred seconds** two hundred are left, and the answer is sent with a TTL of 300. -/
theorem hit_not_aged :
    Serves tableCodec exampleCache minutesSystem 100 clientLookup minutesEntry ∧
    remaining 100 minutesEntry = 200 ∧
    ¬ Aged tableCodec 100 minutesEntry
      (minutesSystem.handle tableCodec exampleCache 100 clientLookup) := by
  have hserves : Serves tableCodec exampleCache minutesSystem 100 clientLookup minutesEntry := by
    decide +kernel
  refine ⟨hserves, rfl, ?_⟩
  intro haged
  have hsent : (minutesSystem.handle tableCodec exampleCache 100 clientLookup).responseBytes
      tableCodec = some (be16 7 ++ (responseBytes exampleQuestion [192, 0, 2, 1]).drop 2) := by
    decide +kernel
  have hyoung := haged _ hsent (.fromRdata exampleQuestion.name 300 (.a ⟨192, 0, 2, 1⟩)) (by
    decide +kernel)
  revert hyoung
  decide

end TitanDns
