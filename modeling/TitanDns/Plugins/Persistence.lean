import TitanDns.Lib.LittleEndian
import TitanDns.Lib.Records
import TitanDns.Plugins.CacheSystem

/-!
# The cache with its file

What `save_to_disk` writes and `load_from_disk_blocking` reads, byte by byte, and the cache of
`CacheSystem` over restarts.

* `QueryKey.toBytes`, `CachedEntry.toBytes`, `saveToDisk` — the file;
  `diskEntries_saveToDisk` — **what is read from a file that was saved.**
* `PersistentSystem`, `persistentStep` — a process with its file: saves, restarts, the turns of the
  loader's loop, the turns of the loop that fills the kernel cache from what was loaded.
* `StoreHolds`, `FileHolds` — a property of every entry in the store, and in the file.
  `step_storeHolds_iff`, `step_fileHolds` — what one step does to it; `always_storeHolds_iff` —
  **where a round trip through the file keeps it, it holds of the store throughout exactly when it
  holds of what is written.**
-/

namespace TitanDns

open Bpf Run CacheSystem CachePlugin Records

/-! ## Keys -/

/-- `QueryKey::to_bytes`; the eight bytes of the subnet stay zero. -/
def QueryKey.toBytes (key : QueryKey) : List UInt8 :=
  leBytes 8 key.nameHash.toNat ++ leBytes 2 key.qtype.toNat ++ leBytes 2 key.qclass.toNat ++
    List.replicate 8 0

/-- `QueryKey::from_bytes`, of twenty bytes. -/
def QueryKey.fromBytes (bytes : List UInt8) : QueryKey where
  nameHash := .ofNat (leNat (bytes.take 8))
  qtype := .ofNat (leNat ((bytes.drop 8).take 2))
  qclass := .ofNat (leNat ((bytes.drop 10).take 2))

@[simp] theorem QueryKey.toBytes_length (key : QueryKey) : key.toBytes.length = 20 := by
  simp [toBytes]

/-- **A key is read back.** -/
theorem QueryKey.fromBytes_toBytes (key : QueryKey) : fromBytes key.toBytes = key := by
  have hhash : key.toBytes.take 8 = leBytes 8 key.nameHash.toNat := by
    simp only [toBytes, List.append_assoc]
    exact take_leBytes _ _ _
  have htype : (key.toBytes.drop 8).take 2 = leBytes 2 key.qtype.toNat := by
    simp only [toBytes, List.append_assoc]
    rw [drop_leBytes, take_leBytes]
  have hclass : (key.toBytes.drop 10).take 2 = leBytes 2 key.qclass.toNat := by
    have hten : key.toBytes.drop 10 = (key.toBytes.drop 8).drop 2 := by rw [List.drop_drop]
    rw [hten]
    simp only [toBytes, List.append_assoc]
    rw [drop_leBytes, drop_leBytes, take_leBytes]
  unfold fromBytes
  rw [hhash, htype, hclass, leNat_leBytes key.nameHash.toNat_lt, leNat_leBytes key.qtype.toNat_lt,
    leNat_leBytes key.qclass.toNat_lt]
  simp

/-! ## Entries -/

namespace CachedEntry

variable (codec : Codec)

/-- The bytes the entry carries, else its message encoded. -/
def messageBytes (entry : CachedEntry) : Option (List UInt8) :=
  match entry.rawBytes with
  | some raw => some raw
  | none => codec.toVec entry.message

/-- An entry with these bytes. -/
def record (entry : CachedEntry) (msg : List UInt8) : List UInt8 :=
  leBytes 8 entry.timestamp ++ leBytes 8 entry.ttl ++ leBytes 4 msg.length ++ msg

/-- `CachedEntry::to_bytes`. -/
def toBytes (entry : CachedEntry) : Option (List UInt8) :=
  (messageBytes codec entry).map entry.record

inductive EntryError where
  | text (msg : String)
  /-- Of the protocol library. -/
  | decode
  deriving DecidableEq, Repr

/-- `CachedEntry::from_bytes`: the entry, and how many bytes it takes. -/
def fromBytes (bytes : List UInt8) : Except EntryError (CachedEntry × Nat) :=
  if bytes.length < 20 then .error (.text "Entry too short")
  else
    let timestamp := leNat (bytes.take 8)
    let ttl := leNat ((bytes.drop 8).take 8)
    let len := leNat ((bytes.drop 16).take 4)
    if bytes.length < 20 + len then .error (.text "Buffer underflow")
    else
      let raw := (bytes.drop 20).take len
      match codec.fromVec raw with
      | none => .error .decode
      | some message => .ok (⟨message, some raw, timestamp, ttl⟩, 20 + len)

/-- `entry'` is what comes back of `entry` from a file: the same bytes, decoded. -/
structure Restored (entry entry' : CachedEntry) : Prop where
  bytes : ∃ msg, messageBytes codec entry = some msg ∧ entry'.rawBytes = some msg ∧
    codec.fromVec msg = some entry'.message
  timestamp : entry'.timestamp = entry.timestamp % 2 ^ 64
  ttl : entry'.ttl = entry.ttl % 2 ^ 64

variable {codec} {entry : CachedEntry} {msg : List UInt8}

@[simp] theorem record_length : (entry.record msg).length = 20 + msg.length := by
  simp [record]
  omega

/-- The fields of a record, where the reader looks for them. -/
theorem record_fields (hlen : msg.length < 2 ^ 32) :
    leNat ((entry.record msg).take 8) = entry.timestamp % 2 ^ 64 ∧
      leNat (((entry.record msg).drop 8).take 8) = entry.ttl % 2 ^ 64 ∧
      leNat (((entry.record msg).drop 16).take 4) = msg.length ∧
      (entry.record msg).drop 20 = msg := by
  have h8 : (entry.record msg).drop 8 = leBytes 8 entry.ttl ++ (leBytes 4 msg.length ++ msg) := by
    simp only [record, List.append_assoc]
    exact drop_leBytes _ _ _
  have h16 : (entry.record msg).drop 16 = leBytes 4 msg.length ++ msg := by
    rw [show 16 = 8 + 8 from rfl, ← List.drop_drop, h8, drop_leBytes]
  have h20 : (entry.record msg).drop 20 = msg := by
    rw [show 20 = 16 + 4 from rfl, ← List.drop_drop, h16, drop_leBytes]
  refine ⟨?_, ?_, ?_, h20⟩
  · simp only [record, List.append_assoc]
    rw [take_leBytes, leNat_leBytes_mod]
    omega
  · rw [h8, take_leBytes, leNat_leBytes_mod]
    omega
  · rw [h16, take_leBytes]
    exact leNat_leBytes hlen

/-- **An entry comes back from its bytes** with what they decode to. -/
theorem fromBytes_record (hlen : msg.length < 2 ^ 32) :
    fromBytes codec (entry.record msg) =
      match codec.fromVec msg with
      | none => .error .decode
      | some message =>
        .ok (⟨message, some msg, entry.timestamp % 2 ^ 64, entry.ttl % 2 ^ 64⟩,
          20 + msg.length) := by
  obtain ⟨htimestamp, httl, hsize, hmsg⟩ := @record_fields entry msg hlen
  unfold fromBytes
  simp only [record_length, htimestamp, httl, hsize, hmsg, List.take_length]
  rw [if_neg (by omega), if_neg (by omega)]

end CachedEntry

/-! ## The file -/

/-- The key, the length, the bytes of the entry. -/
def diskRecord (r : QueryKey × List UInt8) : List UInt8 :=
  r.1.toBytes ++ leBytes 4 r.2.length ++ r.2

/-- `save_to_disk` of the entries, in the order of the iteration; one without bytes is left out. -/
def saveToDisk (codec : Codec) (entries : List (QueryKey × CachedEntry)) : List UInt8 :=
  (entries.filterMap fun p => (p.2.toBytes codec).map (p.1, ·)).flatMap diskRecord

/-- One turn of the loop of `load_from_disk_blocking`, up to the bytes of the entry. -/
def diskReader : Reader UInt8 (QueryKey × List UInt8) where
  next bs :=
    if bs.length < 24 then none
    else
      let len := leNat ((bs.drop 20).take 4)
      if bs.length < 24 + len then none
      else some ((.fromBytes (bs.take 20), (bs.drop 24).take len), bs.drop (24 + len))
  shorter := by
    intro bs b rest h
    simp only at h
    split at h
    · cases h
    · split at h
      · cases h
      · cases h
        rw [List.length_drop]
        omega

/-- The entries that `load_from_disk_blocking` comes by; one that cannot be read is skipped. -/
def diskEntries (codec : Codec) (file : List UInt8) : List (QueryKey × CachedEntry) :=
  (diskReader.readAll file).filterMap fun r =>
    match CachedEntry.fromBytes codec r.2 with
    | .ok (entry, _) => some (r.1, entry)
    | .error _ => none

theorem diskRecord_next {r : QueryKey × List UInt8} (hlen : r.2.length < 2 ^ 32)
    (rest : List UInt8) : diskReader.next (diskRecord r ++ rest) = some (r, rest) := by
  have hkey : (diskRecord r ++ rest).take 20 = r.1.toBytes := by
    simp only [diskRecord, List.append_assoc]
    exact List.take_left' r.1.toBytes_length
  have h20 : (diskRecord r ++ rest).drop 20 = leBytes 4 r.2.length ++ (r.2 ++ rest) := by
    simp only [diskRecord, List.append_assoc]
    exact List.drop_left' r.1.toBytes_length
  have h24 : (diskRecord r ++ rest).drop 24 = r.2 ++ rest := by
    rw [show 24 = 20 + 4 from rfl, ← List.drop_drop, h20, drop_leBytes]
  have hsize : leNat (((diskRecord r ++ rest).drop 20).take 4) = r.2.length := by
    rw [h20, take_leBytes]
    exact leNat_leBytes hlen
  have hall : (diskRecord r ++ rest).length = 24 + r.2.length + rest.length := by
    simp [diskRecord]
    omega
  have hhead : ¬ 24 + r.2.length + rest.length < 24 := by omega
  have hbody : ¬ 24 + r.2.length + rest.length < 24 + r.2.length := by omega
  simp only [diskReader, hsize, hall, if_neg hhead, if_neg hbody]
  rw [← List.drop_drop, h24, hkey, QueryKey.fromBytes_toBytes, List.take_left' rfl,
    List.drop_left' rfl]

theorem diskReader_nil : diskReader.readAll [] = [] := Reader.readAll_none rfl

/-- **The records that were saved are read.** -/
theorem readAll_saveToDisk {codec : Codec} {entries : List (QueryKey × CachedEntry)}
    (hlen : ∀ p ∈ entries, ∀ msg, p.2.messageBytes codec = some msg → msg.length + 20 < 2 ^ 32) :
    diskReader.readAll (saveToDisk codec entries) =
      entries.filterMap fun p => (p.2.toBytes codec).map (p.1, ·) := by
  have hnext : ∀ r ∈ entries.filterMap (fun p => (p.2.toBytes codec).map (p.1, ·)), ∀ rest,
      diskReader.next (diskRecord r ++ rest) = some (id r, rest) := by
    intro r hr rest
    obtain ⟨p, hp, hp'⟩ := List.mem_filterMap.mp hr
    obtain ⟨bytes, hbytes, rfl⟩ := Option.map_eq_some_iff.mp hp'
    obtain ⟨msg, hmsg, rfl⟩ := Option.map_eq_some_iff.mp hbytes
    apply diskRecord_next
    have := hlen p hp msg hmsg
    rw [CachedEntry.record_length]
    omega
  have hall := Reader.readAll_encoded hnext []
  rw [List.append_nil, diskReader_nil, List.append_nil, List.map_id] at hall
  exact hall

/-- **What is read of a saved file are its entries**, their bytes decoded. -/
theorem diskEntries_saveToDisk {codec : Codec} {entries : List (QueryKey × CachedEntry)}
    (hlen : ∀ p ∈ entries, ∀ msg, p.2.messageBytes codec = some msg → msg.length + 20 < 2 ^ 32)
    {key : QueryKey} {entry' : CachedEntry} (h : (key, entry') ∈
      diskEntries codec (saveToDisk codec entries)) :
    ∃ entry, (key, entry) ∈ entries ∧ entry.Restored codec entry' := by
  unfold diskEntries at h
  rw [readAll_saveToDisk hlen] at h
  obtain ⟨r, hr, hread⟩ := List.mem_filterMap.mp h
  obtain ⟨⟨k, entry⟩, hp, hp'⟩ := List.mem_filterMap.mp hr
  obtain ⟨bytes, hbytes, rfl⟩ := Option.map_eq_some_iff.mp hp'
  obtain ⟨msg, hmsg, rfl⟩ := Option.map_eq_some_iff.mp hbytes
  have hsize := hlen _ hp msg hmsg
  have hback := @CachedEntry.fromBytes_record codec entry msg (by omega)
  simp only [hback] at hread
  cases hdecode : codec.fromVec msg with
  | none =>
    rw [hdecode] at hread
    cases hread
  | some message =>
    rw [hdecode] at hread
    cases hread
    exact ⟨entry, hp, ⟨msg, hmsg, rfl, hdecode⟩, rfl, rfl⟩

/-! ## A process with its file -/

/-- The cache and its persistence file, which is empty before the first save. -/
structure PersistentSystem where
  system : CacheSystem
  file : List UInt8

inductive PersistentEvent where
  | system (ev : SystemEvent)
  /-- `save_to_disk`, with the keys in the order of its iteration. -/
  | save (keys : List QueryKey)
  /-- A new process: nothing is cached, and the kernel maps are created anew. -/
  | restart
  /-- One turn of the loop of `load_from_disk_blocking`, which runs beside the pipeline. -/
  | restore (now i : Nat)
  /-- One turn of the loop of `warm_xdp_cache_async`, for one key. -/
  | warm (key : QueryKey) (clocks : Clocks) (accepted : Bool)

namespace PersistentSystem

def empty : PersistentSystem := ⟨.empty, []⟩

variable (codec : Codec) (c : CachePlugin)

/-- What an iteration over these keys comes by. -/
def stored (s : CacheSystem) (keys : List QueryKey) : List (QueryKey × CachedEntry) :=
  keys.filterMap fun key => (s.cache key).map (key, ·)

/-- Not older than the stale window and an extra hour; the sum is one of `u64`, which wraps. -/
def Restorable (now : Nat) (entry : CachedEntry) : Prop :=
  now - entry.timestamp < (entry.ttl + c.serveStaleTtl + 3600) % 2 ^ 64

instance (now : Nat) (entry : CachedEntry) : Decidable (Restorable c now entry) :=
  inferInstanceAs (Decidable (_ < _))

def restore (s : PersistentSystem) (now i : Nat) : PersistentSystem :=
  match (diskEntries codec s.file)[i]? with
  | none => s
  | some (key, entry) =>
    if Restorable c now entry then
      { s with system := { s.system with cache := PartialMap.put s.system.cache key entry } }
    else s

/-- The `update_cache` call for an entry that is still fresh, with the lifetime it has left, and
the text for the reverse mapping. -/
def warmCall (s : CacheSystem) (key : QueryKey) (clocks : Clocks) :
    Option (CacheUpdate × String) :=
  (s.cache key).bind fun entry =>
    if remaining clocks.now entry = 0 then none
    else
      entry.message.query.bind fun q =>
        (entry.messageBytes codec).map fun bytes =>
          (pushOf clocks q.name q.qtype q.qclass bytes (remaining clocks.now entry),
            codec.display q.name)

/-- The filter is attached and `xdp_cache_enabled` set when the loop is started. -/
def warm (s : CacheSystem) (key : QueryKey) (clocks : Clocks) (accepted : Bool) : CacheSystem :=
  if c.xdpFilter && c.xdpCacheEnabled then
    match warmCall codec s key clocks with
    | none => s
    | some (u, domain) =>
      match updateCache s.kernel u accepted with
      | (kernel, .error _) => { s with kernel := kernel }
      | (kernel, .ok _) =>
        { s with
          kernel := kernel
          xdpHashMap := PartialMap.put s.xdpHashMap
            (calculateXdpHash u.qnameRaw u.qtype u.qclass) (domain, u.qtype, u.qclass) }
  else s

/-- One event. -/
def persistentStep (e : Endian) (s : PersistentSystem) : PersistentEvent → PersistentSystem
  | .system ev => { s with system := systemStep codec c e s.system ev }
  | .save keys => { s with file := saveToDisk codec (stored s.system keys) }
  | .restart => { s with system := .empty }
  | .restore now i => restore codec c s now i
  | .warm key clocks accepted => { s with system := warm codec c s.system key clocks accepted }

/-! ## What every step keeps -/

/-- Every entry in the store has the property. -/
def StoreHolds (P : CachedEntry → Prop) (s : PersistentSystem) : Prop :=
  ∀ key entry, s.system.cache key = some entry → P entry

/-- Every entry that is read from the file has it. -/
def FileHolds (P : CachedEntry → Prop) (s : PersistentSystem) : Prop :=
  ∀ key entry, (key, entry) ∈ diskEntries codec s.file → P entry

/-- Whatever the event writes has it. -/
def WritesHold (P : CachedEntry → Prop) (s : PersistentSystem) (ev : PersistentEvent) : Prop :=
  ∀ ev', ev = .system ev' →
    ∀ w accepted, writeOf codec c s.system ev' = some (w, accepted) → P w.entry

/-- Entries with the property fit the file, and come back with it. -/
structure Survives (P : CachedEntry → Prop) : Prop where
  fits : ∀ entry msg, P entry → entry.messageBytes codec = some msg → msg.length + 20 < 2 ^ 32
  restored : ∀ entry entry', P entry → entry.Restored codec entry' → P entry'

section
variable {codec c} {e : Endian} {s : PersistentSystem} {P : CachedEntry → Prop}

theorem warm_stores (key : QueryKey) (clocks : Clocks) (accepted : Bool) :
    (warm codec c s.system key clocks accepted).cache = s.system.cache ∧
      (warm codec c s.system key clocks accepted).tasks = s.system.tasks := by
  unfold warm
  split
  · split
    · exact ⟨rfl, rfl⟩
    · split <;> exact ⟨rfl, rfl⟩
  · exact ⟨rfl, rfl⟩

/-- What a turn of the loader puts into the store stands in the file. -/
theorem restore_cache {now i : Nat} {key : QueryKey} {entry : CachedEntry}
    (h : (restore codec c s now i).system.cache key = some entry) :
    (key, entry) ∈ diskEntries codec s.file ∨ s.system.cache key = some entry := by
  unfold restore at h
  split at h
  · exact Or.inr h
  · rename_i k entry' hread
    split at h
    · rcases PartialMap.put_some h with ⟨rfl, rfl⟩ | ⟨-, hold⟩
      · exact Or.inl (List.mem_of_getElem? hread)
      · exact Or.inr hold
    · exact Or.inr h

theorem restore_file (now i : Nat) : (restore codec c s now i).file = s.file := by
  unfold restore
  split
  · rfl
  · split <;> rfl

/-- A write is in the store afterwards. -/
theorem step_writes {s : CacheSystem} {ev : SystemEvent} {w : Write} {accepted : Bool}
    (h : writeOf codec c s ev = some (w, accepted)) :
    (systemStep codec c e s ev).cache w.key = some w.entry := by
  have hwritten : (written codec c s ev).cache w.key = some w.entry := by
    unfold written
    rw [h]
    show (s.perform c w accepted).cache w.key = some w.entry
    rw [perform_cache, PartialMap.put_self]
  cases ev with
  | respond clocks ctx acc => exact hwritten
  | insert clocks domain qtype qclass resp acc => exact hwritten
  | finish i env => exact hwritten
  | lookup now ctx => cases h
  | pollRefresh qhash => cases h
  | purge => cases h
  | evict key => cases h
  | evictHash qhash => cases h
  | evictKernel key => cases h
  | packet env f => cases h

/-- **The store keeps a property exactly when what is written has it.** -/
theorem step_storeHolds_iff (hfile : FileHolds codec P s) (hstore : StoreHolds P s)
    (ev : PersistentEvent) :
    StoreHolds P (persistentStep codec c e s ev) ↔ WritesHold codec c P s ev := by
  constructor
  · rintro h ev' rfl w accepted hw
    exact h w.key w.entry (step_writes hw)
  · intro h key entry hentry
    cases ev with
    | system ev =>
      rcases step_cache hentry with ⟨w, accepted, hw, -, rfl⟩ | hold
      · exact h ev rfl w accepted hw
      · exact hstore key entry hold
    | save keys => exact hstore key entry hentry
    | restart => cases hentry
    | restore now i =>
      rcases restore_cache hentry with hread | hold
      · exact hfile key entry hread
      · exact hstore key entry hold
    | warm k clocks accepted =>
      have hsame := (@warm_stores codec c s k clocks accepted).1
      apply hstore key entry
      rw [← hsame]
      exact hentry

/-- **The file keeps what a round trip keeps**, as long as the store has it. -/
theorem step_fileHolds (hP : Survives codec P) (hfile : FileHolds codec P s)
    (hstore : StoreHolds P s) (ev : PersistentEvent) :
    FileHolds codec P (persistentStep codec c e s ev) := by
  cases ev with
  | system ev => exact hfile
  | save keys =>
    have hstored : ∀ p ∈ stored s.system keys, P p.2 := by
      intro p hp
      obtain ⟨key, -, hkey⟩ := List.mem_filterMap.mp hp
      obtain ⟨entry, hentry, rfl⟩ := Option.map_eq_some_iff.mp hkey
      exact hstore key entry hentry
    intro key entry' hread
    obtain ⟨entry, hentry, hrestored⟩ := diskEntries_saveToDisk
      (fun p hp msg hmsg => hP.fits p.2 msg (hstored p hp) hmsg) hread
    exact hP.restored entry entry' (hstored _ hentry) hrestored
  | restart => exact hfile
  | restore now i =>
    intro key entry hread
    apply hfile key entry
    rw [← @restore_file codec c s now i]
    exact hread
  | warm key clocks accepted => exact hfile

theorem fileHolds_empty : FileHolds codec P .empty := by
  intro key entry hread
  have hnone : diskEntries codec [] = [] := by
    unfold diskEntries
    rw [diskReader_nil]
    rfl
  change (key, entry) ∈ diskEntries codec [] at hread
  rw [hnone] at hread
  cases hread

theorem storeHolds_empty : StoreHolds P .empty := by
  intro key entry hentry
  cases hentry

/-- **Over whole lives of the cache**: the property holds of the store throughout exactly when it
holds of everything that is written. -/
theorem always_storeHolds_iff (hP : Survives codec P) (es : List PersistentEvent) :
    Always (persistentStep codec c e) (StoreHolds P) .empty es ↔
      Meets (persistentStep codec c e) (WritesHold codec c P) .empty es := by
  have hfile : ∀ s ev, FileHolds codec P s → StoreHolds P s →
      FileHolds codec P (persistentStep codec c e s ev) :=
    fun _ ev hfile hstore => step_fileHolds hP hfile hstore ev
  have hstep : ∀ s ev, FileHolds codec P s → StoreHolds P s →
      (StoreHolds P (persistentStep codec c e s ev) ↔ WritesHold codec c P s ev) :=
    fun _ ev hfile hstore => step_storeHolds_iff hfile hstore ev
  exact always_iff_under hfile hstep fileHolds_empty storeHolds_empty es

end

end PersistentSystem

end TitanDns
