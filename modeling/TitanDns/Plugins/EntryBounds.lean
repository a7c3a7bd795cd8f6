import TitanDns.Plugins.Persistence
import TitanDns.Plugins.ShadowRefresh

/-!
# Bounds on cache entries

* `EntryWithin` — the lifetime of an entry is positive and within the configuration, its message
  has at most 4096 bytes; `entryWithin_survives` — **a round trip through the file keeps that.**
* `entryFor_within` — **the hook and the smart refresher check what they write.**
* `WithinTask` — what a background refresh obtains is such that this holds of what it writes.
* `entries_within_iff` — **the bounds hold of every entry throughout the lives of a cache exactly
  when they hold of what its background refreshes obtain**; `zero_ttl_stored` — a shadow refresh
  stores whatever lifetime the answer has.
-/

namespace TitanDns

open Bpf Run CacheSystem CachePlugin PersistentSystem

/-- The bounds on an entry. -/
structure EntryWithin (codec : Codec) (c : CachePlugin) (entry : CachedEntry) : Prop where
  positive : 0 < entry.ttl
  min : c.minTtl ≤ entry.ttl
  max : entry.ttl ≤ c.maxTtl
  size : ∀ bytes, entry.messageBytes codec = some bytes → bytes.length ≤ MAX_CACHE_ENTRY_SIZE

/-- What a prefetch writes of the response is within the bounds. -/
def SmallRefresh (codec : Codec) (c : CachePlugin) (resp : Message) : Prop :=
  ∀ bytes, codec.toVec resp = some bytes → 0 < c.calculateTtl resp →
    bytes.length ≤ MAX_CACHE_ENTRY_SIZE

/-- So is what a shadow refresh writes: the least TTL of the answers is not changed. -/
def SmallShadow (codec : Codec) (c : CachePlugin) (resp : Message) : Prop :=
  ∀ bytes, codec.toVec resp = some bytes → bytes.length ≤ MAX_CACHE_ENTRY_SIZE ∧
    0 < shadowTtl resp ∧ c.minTtl ≤ shadowTtl resp ∧ shadowTtl resp ≤ c.maxTtl

/-- What the background task obtains allows the bounds. -/
def WithinTask (codec : Codec) (c : CachePlugin) (env : TaskEnv) : Task → Prop
  | .prefetch request => ∀ q resp, request.query = some q →
      refreshed codec c env request q = some resp → SmallRefresh codec c resp
  | .shadow domain qtype _ => ∀ b resp, c.prefetchRecursive = some b →
      b.lookup codec env.resolver domain qtype = .ok resp → SmallShadow codec c resp

/-- Whatever the background refreshes obtain allows the bounds; nothing is asked of other events. -/
def WithinEvent (codec : Codec) (c : CachePlugin) (s : PersistentSystem) :
    PersistentEvent → Prop
  | .system (.finish i env) => ∀ task, s.system.tasks[i]? = some task → WithinTask codec c env task
  | _ => True

section
variable {codec : Codec} {c : CachePlugin} {e : Endian}

/-! ## Over the file -/

/-- **What comes back from the file is within the bounds.** -/
theorem entryWithin_survives (hmax : c.maxTtl < 2 ^ 64) : Survives codec (EntryWithin codec c) where
  fits := by
    intro entry msg h hmsg
    have hsize := h.size msg hmsg
    simp only [MAX_CACHE_ENTRY_SIZE] at hsize
    omega
  restored := by
    intro entry entry' h hrestored
    obtain ⟨msg, hmsg, hraw, -⟩ := hrestored.bytes
    have hbound := h.max
    have httl : entry'.ttl = entry.ttl := by
      rw [hrestored.ttl]
      apply Nat.mod_eq_of_lt
      omega
    refine ⟨?_, ?_, ?_, ?_⟩
    · rw [httl]
      exact h.positive
    · rw [httl]
      exact h.min
    · rw [httl]
      exact h.max
    · intro bytes hbytes
      unfold CachedEntry.messageBytes at hbytes
      rw [hraw] at hbytes
      cases hbytes
      exact h.size msg hmsg

/-! ## Writers -/

/-- An entry with its bytes. -/
theorem newWithBytes_within {now ttl : Nat} {resp : Message} {bytes : List UInt8} :
    EntryWithin codec c (.newWithBytes now resp ttl bytes) ↔
      (0 < ttl ∧ c.minTtl ≤ ttl ∧ ttl ≤ c.maxTtl) ∧ bytes.length ≤ MAX_CACHE_ENTRY_SIZE := by
  constructor
  · intro h
    exact ⟨⟨h.positive, h.min, h.max⟩, h.size bytes rfl⟩
  · rintro ⟨⟨hpositive, hmin, hmax⟩, hsize⟩
    refine ⟨hpositive, hmin, hmax, ?_⟩
    intro bytes' hbytes
    cases hbytes
    exact hsize

/-- **The hook and the smart refresher check what they write.** -/
theorem entryFor_within {now : Nat} {resp : Message} {entry : CachedEntry}
    (h : entryFor codec c now resp = some entry) : EntryWithin codec c entry := by
  obtain ⟨hsize, hpositive, rfl⟩ := entryFor_some h
  have hrange := calculateTtl_within c resp
  exact newWithBytes_within.mpr ⟨⟨hpositive, hrange.1, hrange.2⟩, hsize⟩

theorem prefetch_within_iff (env : TaskEnv) (request : Message) :
    (∀ w, c.prefetch codec env request = some w → EntryWithin codec c w.entry) ↔
      WithinTask codec c env (.prefetch request) := by
  constructor
  · intro h q resp hq hresp bytes hbytes hpositive
    have hentry : refreshEntryFor codec c env.clocks.now resp =
        some (.newWithBytes env.clocks.now resp (c.calculateTtl resp) bytes) := by
      unfold refreshEntryFor
      rw [if_neg (by omega), hbytes]
      rfl
    unfold prefetch at h
    simp only [hq, hresp, Option.bind_some, hentry, Option.map_some, Option.some.injEq,
      forall_eq'] at h
    exact (newWithBytes_within.mp h).2
  · intro h w hw
    obtain ⟨q, resp, entry, hq, hresp, hentry, rfl⟩ := prefetch_some hw
    obtain ⟨hpositive, bytes, hbytes, rfl⟩ := refreshEntryFor_some hentry
    have hrange := calculateTtl_within c resp
    have hsize := h q resp hq hresp bytes hbytes hpositive
    exact newWithBytes_within.mpr ⟨⟨hpositive, hrange.1, hrange.2⟩, hsize⟩

theorem shadowRefresh_within_iff (env : TaskEnv) (domain : String) (qtype qclass : UInt16) :
    (∀ w, c.shadowRefresh codec env domain qtype qclass = some w → EntryWithin codec c w.entry) ↔
      WithinTask codec c env (.shadow domain qtype qclass) := by
  constructor
  · intro h b resp hb hresp bytes hbytes
    unfold CachePlugin.shadowRefresh at h
    simp only [hb, hresp, hbytes, Option.map_some, Option.some.injEq, forall_eq'] at h
    obtain ⟨hrange, hsize⟩ := newWithBytes_within.mp h
    exact ⟨hsize, hrange⟩
  · intro h w hw
    obtain ⟨b, resp, bytes, hb, hresp, hbytes, -, hentry, -⟩ := shadowRefresh_some hw
    rw [hentry]
    obtain ⟨hsize, hrange⟩ := h b resp hb hresp bytes hbytes
    exact newWithBytes_within.mpr ⟨hrange, hsize⟩

theorem taskWrite_within_iff (env : TaskEnv) (task : Task) :
    (∀ w, taskWrite codec c env task = some w → EntryWithin codec c w.entry) ↔
      WithinTask codec c env task := by
  cases task with
  | prefetch request => exact prefetch_within_iff env request
  | shadow domain qtype qclass => exact shadowRefresh_within_iff env domain qtype qclass

/-- **One event**: what it writes is within the bounds exactly when what it obtains allows it. -/
theorem writesWithin_iff (s : PersistentSystem) (ev : PersistentEvent) :
    WritesHold codec c (EntryWithin codec c) s ev ↔ WithinEvent codec c s ev := by
  constructor
  · intro h
    match ev with
    | .system (.finish i env) =>
      intro task htask
      apply (taskWrite_within_iff env task).mp
      intro w hw
      refine h _ rfl w env.accepted ?_
      show s.system.tasks[i]?.bind _ = _
      rw [htask]
      show (taskWrite codec c env task).map _ = _
      rw [hw]
      rfl
    | .system (.lookup ..) | .system (.respond ..) | .system (.insert ..)
    | .system (.pollRefresh ..) | .system .purge | .system (.evict ..) | .system (.evictHash ..)
    | .system (.evictKernel ..) | .system (.packet ..) | .save _ | .restart | .restore ..
    | .warm .. => trivial
  · rintro h ev' rfl w accepted hw
    rcases writeOf_some hw with ⟨clocks, ctx, -, hw⟩ | ⟨clocks, text, qtype, qclass, resp, -, hw⟩ |
      ⟨i, env, task, rfl, -, htask, hw⟩
    · obtain ⟨q, resp, entry, -, -, hentry, rfl⟩ := onResponse_some hw
      exact entryFor_within hentry
    · exact entryFor_within (insertResponseForDomain_some hw).1
    · exact (taskWrite_within_iff env task).mpr (h task htask) w hw

end

/-- **The bounds hold throughout exactly when the background refreshes obtain what allows it.** -/
theorem entries_within_iff (codec : Codec) (c : CachePlugin) (e : Endian)
    (hmax : c.maxTtl < 2 ^ 64) (es : List PersistentEvent) :
    Always (persistentStep codec c e) (StoreHolds (EntryWithin codec c)) .empty es ↔
      Meets (persistentStep codec c e) (WithinEvent codec c) .empty es := by
  rw [always_storeHolds_iff (entryWithin_survives hmax)]
  exact Meets.congr writesWithin_iff

/-! ## A lifetime of zero -/

/-- The answer `192.0.2.2` of an upstream that wants it used once. -/
def zeroAnswer : Message :=
  responseTo exampleQuestion [.fromRdata exampleQuestion.name 0 (.a ⟨192, 0, 2, 2⟩)]

/-- The library on what is stored here. -/
def zeroCodec : Codec :=
  .ofTable
    [(addressAnswer, responseBytes exampleQuestion [192, 0, 2, 1]),
      (otherAnswer, responseBytes exampleQuestion [192, 0, 2, 2]),
      (zeroAnswer, [0, 0, 0x81, 0x80, 0, 1, 0, 1, 0, 0, 0, 0] ++ exampleQuestion.wire ++
        [0xC0, 0x0C, 0, 1, 0, 1, 0, 0, 0, 0, 0, 4, 192, 0, 2, 2])]
    [(exampleQuestion.name, "www.example.com.")]

/-- An answer is stored, and the kernel asks for its refresh. -/
def askedRun : List PersistentEvent :=
  [.system (.respond ⟨0, 0⟩ (answeredContext exampleQuestion addressAnswer) true),
    .system (.packet ⟨355000000000, true, true⟩ (queryFrame ⟨10, 0, 0, 2⟩ 7 7 exampleQuestion)),
    .system (.pollRefresh exampleKey)]

/-- The root server has this answer; the store is saved, and loaded by a new process. -/
def reloadedRun (answer : Message) : List PersistentEvent :=
  [.system (.finish 0 (refreshEnv answer)), .save [buildKeyForDomain "www.example.com." 1 1],
    .restart, .restore 400 0]

theorem askedRun_task :
    (run (persistentStep zeroCodec iterativeCache .little) .empty askedRun).system.tasks =
      [.shadow "www.example.com." 1 1] := by
  decide +kernel

/-- An answer for five minutes keeps the bounds, over the restart too. -/
theorem entries_within_iff_minutes :
    Always (persistentStep zeroCodec iterativeCache .little)
      (StoreHolds (EntryWithin zeroCodec iterativeCache)) .empty
      (askedRun ++ reloadedRun otherAnswer) := by
  apply (entries_within_iff zeroCodec iterativeCache .little (by decide) _).mpr
  have hasked : Meets (persistentStep zeroCodec iterativeCache .little)
      (WithinEvent zeroCodec iterativeCache) .empty askedRun :=
    ⟨trivial, trivial, trivial, trivial⟩
  apply hasked.append
  refine ⟨?_, trivial, trivial, trivial, trivial⟩
  intro task htask
  rw [askedRun_task] at htask
  cases htask
  intro b resp hb hresp bytes hbytes
  cases hb
  have hanswer : oneRoot.lookup zeroCodec (refreshEnv otherAnswer).resolver "www.example.com." 1 =
      .ok otherAnswer := by
    rfl
  rw [hanswer] at hresp
  cases hresp
  have hencoded : zeroCodec.toVec otherAnswer =
      some (responseBytes exampleQuestion [192, 0, 2, 2]) := by
    decide +kernel
  rw [hencoded] at hbytes
  cases hbytes
  decide

/-- An answer with TTL 0 is stored with a lifetime of zero. -/
theorem zero_ttl_stored :
    ¬ Always (persistentStep zeroCodec iterativeCache .little)
      (StoreHolds (EntryWithin zeroCodec iterativeCache)) .empty
      (askedRun ++ [.system (.finish 0 (refreshEnv zeroAnswer))]) := by
  intro h
  have hstored : ((run (persistentStep zeroCodec iterativeCache .little) .empty
      (askedRun ++ [.system (.finish 0 (refreshEnv zeroAnswer))])).system.cache
        (buildKeyForDomain "www.example.com." 1 1)).map (·.ttl) = some 0 := by
    decide +kernel
  obtain ⟨entry, hentry, httl⟩ := Option.map_eq_some_iff.mp hstored
  have hpositive := (h.last _ entry hentry).positive
  rw [httl] at hpositive
  cases hpositive

end TitanDns
