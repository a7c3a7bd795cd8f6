import TitanDns.Plugins.HitPaths
import TitanDns.Plugins.RoundTrip

/-!
# The loaders on arbitrary files

Both loaders with every slice and every addition checked; what fails is a `Fault`.

* `diskLoop`, `fileLoop` — the loops of `load_from_disk_blocking` and `load_from_file`;
  `loadFromDiskChecked_eq`, `loadFromFileChecked_eq` — **no slice is out of range, and a sum
  overflows exactly where an entry that is read has too long a lifetime**.
* `staleCheck` — the addition that `handle` makes on a hit.
* `StoresSafely` — what is said of the entries a loader stores.

Principal result: `load_safe_iff` — **loading is safe exactly when no entry that is read has a
lifetime that overflows with the stale window**, and an hour for the one loader.
-/

namespace TitanDns

open Run CachePlugin Records

/-! ## Checked operations -/

/-- `CachedEntry::from_bytes`: its slices are those of `fromBytesIndexed`. -/
def fromBytesChecked (codec : Codec) (bytes : List UInt8) :
    Except Fault (Except CachedEntry.EntryError (CachedEntry × Nat)) :=
  match CachedEntry.fromBytesIndexed codec bytes with
  | some read => .ok read
  | none => .error .outOfBounds

/-- `elapsed < entry.ttl + serve_stale_ttl + 3600` -/
def restorableChecked (c : CachePlugin) (now : Nat) (entry : CachedEntry) : Except Fault Bool := do
  let window ← addU64 entry.ttl c.serveStaleTtl
  let window ← addU64 window 3600
  return decide (now - entry.timestamp < window)

/-- `elapsed < entry.ttl + self.serve_stale_ttl` -/
def loadableChecked (c : CachePlugin) (now : Nat) (entry : CachedEntry) : Except Fault Bool := do
  let window ← addU64 entry.ttl c.serveStaleTtl
  return decide (now - entry.timestamp < window)

/-- `is_stale && elapsed < original_ttl + self.serve_stale_ttl`, as `handle` evaluates it. -/
def staleCheck (c : CachePlugin) (now : Nat) (entry : CachedEntry) : Except Fault Bool :=
  if remaining now entry = 0 then do
    let window ← addU64 entry.ttl c.serveStaleTtl
    return decide (now - entry.timestamp < window)
  else .ok false

/-! ## The loops -/

/-- The loop of `load_from_disk_blocking` on the records it reads; the clock is read for each
entry. -/
def diskLoop (codec : Codec) (c : CachePlugin) (clock : Nat → Nat) :
    List (QueryKey × List UInt8) → Nat → (QueryKey → Option CachedEntry) →
      Except Fault (QueryKey → Option CachedEntry)
  | [], _, cache => .ok cache
  | (key, bytes) :: records, i, cache => do
    match ← fromBytesChecked codec bytes with
    | .error _ => diskLoop codec c clock records i cache
    | .ok (entry, _) =>
      let fresh ← restorableChecked c (clock i) entry
      diskLoop codec c clock records (i + 1)
        (if fresh then PartialMap.put cache key entry else cache)

def loadFromDiskChecked (codec : Codec) (c : CachePlugin) (clock : Nat → Nat) (file : List UInt8) :
    Except Fault (QueryKey → Option CachedEntry) :=
  diskLoop codec c clock (diskReader.readAll file) 0 PartialMap.empty

/-- The loop of `load_from_file` from `offset` on. -/
def fileLoop (codec : Codec) (c : CachePlugin) (now : Nat) (buf : List UInt8) (offset : Nat)
    (cache : QueryKey → Option CachedEntry) : Except Fault (QueryKey → Option CachedEntry) :=
  if offset + 20 ≤ buf.length then do
    let keyData ← sliceChecked buf offset (offset + 20)
    let rest ← sliceChecked buf (offset + 20) buf.length
    match ← fromBytesChecked codec rest with
    | .error _ => return cache
    | .ok (entry, consumed) =>
      let fresh ← loadableChecked c now entry
      fileLoop codec c now buf (offset + 20 + consumed)
        (if fresh then PartialMap.put cache (.fromBytes keyData) entry else cache)
  else .ok cache
termination_by buf.length - offset

def loadFromFileChecked (codec : Codec) (c : CachePlugin) (now : Nat) (file : List UInt8) :
    Except Fault (QueryKey → Option CachedEntry) :=
  fileLoop codec c now file 0 PartialMap.empty

/-- The insertions of a loop, entry by entry. -/
def storeAll (check : Nat → CachedEntry → Except Fault Bool) :
    List (QueryKey × CachedEntry) → Nat → (QueryKey → Option CachedEntry) →
      Except Fault (QueryKey → Option CachedEntry)
  | [], _, cache => .ok cache
  | (key, entry) :: read, i, cache => do
    let fresh ← check i entry
    storeAll check read (i + 1) (if fresh then PartialMap.put cache key entry else cache)

section
variable {codec : Codec} {c : CachePlugin}

theorem fromBytesChecked_eq (bytes : List UInt8) :
    fromBytesChecked codec bytes = .ok (CachedEntry.fromBytes codec bytes) := by
  rw [fromBytesChecked, CachedEntry.fromBytesIndexed_eq]

/-- The checks of the age, where the sum is one of `u64` and where it is not. -/
theorem restorableChecked_eq (now : Nat) (entry : CachedEntry) :
    restorableChecked c now entry =
      if entry.ttl + c.serveStaleTtl + 3600 < 2 ^ 64 then
        .ok (decide (PersistentSystem.Restorable c now entry)) else .error .overflow := by
  unfold restorableChecked addU64
  by_cases hall : entry.ttl + c.serveStaleTtl + 3600 < 2 ^ 64
  · have hmod : (entry.ttl + c.serveStaleTtl + 3600) % 2 ^ 64 =
        entry.ttl + c.serveStaleTtl + 3600 := Nat.mod_eq_of_lt hall
    have hone : entry.ttl + c.serveStaleTtl < 2 ^ 64 := by omega
    simp only [hall, hone, ite_true, PersistentSystem.Restorable, hmod]
    simp only [bind, Except.bind, hall, ite_true]
    rfl
  · rw [if_neg hall]
    by_cases hone : entry.ttl + c.serveStaleTtl < 2 ^ 64
    · simp only [hone, ite_true, bind, Except.bind, hall, ite_false]
    · simp only [hone, ite_false, bind, Except.bind]

theorem loadableChecked_eq (now : Nat) (entry : CachedEntry) :
    loadableChecked c now entry =
      if entry.ttl + c.serveStaleTtl < 2 ^ 64 then .ok (decide (Loadable c now entry))
      else .error .overflow := by
  unfold loadableChecked addU64
  by_cases hone : entry.ttl + c.serveStaleTtl < 2 ^ 64
  · have hmod : (entry.ttl + c.serveStaleTtl) % 2 ^ 64 = entry.ttl + c.serveStaleTtl :=
      Nat.mod_eq_of_lt hone
    simp only [hone, ite_true, Loadable, hmod]
    rfl
  · simp only [hone, ite_false, bind, Except.bind]

/-- **An entry whose lifetime and window fit is looked up without overflow**, at any time. -/
theorem staleCheck_ok {entry : CachedEntry} (h : entry.ttl + c.serveStaleTtl < 2 ^ 64) (now : Nat) :
    ∃ stale, staleCheck c now entry = .ok stale := by
  unfold staleCheck addU64
  rw [if_pos h]
  split
  · exact ⟨_, rfl⟩
  · exact ⟨_, rfl⟩

/-- The loop over the records inserts the entries that can be read. -/
theorem diskLoop_eq (clock : Nat → Nat) (records : List (QueryKey × List UInt8)) (i : Nat)
    (cache : QueryKey → Option CachedEntry) :
    diskLoop codec c clock records i cache =
      storeAll (fun i entry => restorableChecked c (clock i) entry)
        (records.filterMap fun r =>
          match CachedEntry.fromBytes codec r.2 with
          | .ok (entry, _) => some (r.1, entry)
          | .error _ => none) i cache := by
  induction records generalizing i cache with
  | nil => rfl
  | cons r records ih =>
    obtain ⟨key, bytes⟩ := r
    rw [diskLoop, fromBytesChecked_eq]
    cases hread : CachedEntry.fromBytes codec bytes with
    | error err =>
      rw [List.filterMap_cons_none (by simp only [hread]), ← ih]
      rfl
    | ok found =>
      rw [List.filterMap_cons_some (by simp only [hread]; rfl), storeAll]
      simp only [bind, Except.bind]
      cases restorableChecked c (clock i) found.1 with
      | error fault => rfl
      | ok fresh => exact ih _ _

/-- So does the loop over the buffer. -/
theorem fileLoop_eq (now : Nat) (buf : List UInt8) (offset i : Nat)
    (cache : QueryKey → Option CachedEntry) :
    fileLoop codec c now buf offset cache =
      storeAll (fun _ entry => loadableChecked c now entry)
        ((fileReader codec).readAll (buf.drop offset)) i cache := by
  rw [fileLoop]
  by_cases hmore : offset + 20 ≤ buf.length
  · have hshort : ¬ (buf.drop offset).length < 20 := by
      rw [List.length_drop]
      omega
    have hkey : sliceChecked buf offset (offset + 20) = .ok ((buf.drop offset).take 20) := by
      rw [sliceChecked_eq (by omega) hmore, Nat.add_sub_cancel_left]
    have hrest : sliceChecked buf (offset + 20) buf.length = .ok ((buf.drop offset).drop 20) := by
      rw [sliceChecked_eq hmore (by omega), List.drop_drop, List.take_of_length_le]
      exact Nat.le_of_eq List.length_drop
    rw [if_pos hmore, hkey, hrest]
    simp only [bind, Except.bind, fromBytesChecked_eq]
    cases hentry : CachedEntry.fromBytes codec ((buf.drop offset).drop 20) with
    | error err =>
      rw [Reader.readAll_none]
      · rfl
      · simp only [fileReader, if_neg hshort, hentry]
    | ok found =>
      obtain ⟨entry, consumed⟩ := found
      have hnext : (fileReader codec).next (buf.drop offset) =
          some ((.fromBytes ((buf.drop offset).take 20), entry),
            buf.drop (offset + 20 + consumed)) := by
        simp only [fileReader, if_neg hshort, hentry]
        rw [List.drop_drop, Nat.add_assoc]
      rw [Reader.readAll_some hnext, storeAll]
      simp only [bind, Except.bind]
      cases loadableChecked c now entry with
      | error fault => rfl
      | ok fresh => exact fileLoop_eq now buf (offset + 20 + consumed) (i + 1) _
  · have hshort : (buf.drop offset).length < 20 := by
      rw [List.length_drop]
      omega
    rw [if_neg hmore, Reader.readAll_none]
    · rfl
    · simp only [fileReader, if_pos hshort]
termination_by buf.length - offset

/-- **Insertions go through exactly when every check does.** -/
theorem storeAll_eq {check : Nat → CachedEntry → Except Fault Bool} {fits : CachedEntry → Prop}
    [DecidablePred fits] {fresh : Nat → CachedEntry → Bool}
    (hcheck : ∀ i entry, check i entry =
      if fits entry then .ok (fresh i entry) else .error .overflow)
    (read : List (QueryKey × CachedEntry)) (i : Nat) (cache : QueryKey → Option CachedEntry) :
    storeAll check read i cache =
      if ∀ p ∈ read, fits p.2 then
        .ok ((read.zipIdx i).foldl
          (fun m p => if fresh p.2 p.1.2 then PartialMap.put m p.1.1 p.1.2 else m) cache)
      else .error .overflow := by
  induction read generalizing i cache with
  | nil =>
    rw [if_pos (by simp)]
    rfl
  | cons p read ih =>
    obtain ⟨key, entry⟩ := p
    rw [storeAll, hcheck]
    by_cases hfits : fits entry
    · rw [if_pos hfits]
      simp only [bind, Except.bind, ih, List.forall_mem_cons, hfits, true_and]
      rfl
    · have hnot : ¬ ∀ p ∈ (key, entry) :: read, fits p.2 := fun h => hfits (h _ List.mem_cons_self)
      rw [if_neg hfits, if_neg hnot]
      rfl

/-- **`load_from_disk_blocking` never slices out of range**; without an overflow it is
`loadFromDisk`. -/
theorem loadFromDiskChecked_eq (clock : Nat → Nat) (file : List UInt8) :
    loadFromDiskChecked codec c clock file =
      if ∀ p ∈ diskEntries codec file, p.2.ttl + c.serveStaleTtl + 3600 < 2 ^ 64 then
        .ok (insertAll (fun now entry => decide (PersistentSystem.Restorable c now entry)) clock
          (diskEntries codec file))
      else .error .overflow := by
  have hcheck : ∀ i entry, restorableChecked c (clock i) entry =
      if entry.ttl + c.serveStaleTtl + 3600 < 2 ^ 64 then
        .ok (decide (PersistentSystem.Restorable c (clock i) entry)) else .error .overflow :=
    fun i entry => restorableChecked_eq (clock i) entry
  unfold loadFromDiskChecked
  rw [diskLoop_eq, storeAll_eq hcheck]
  rfl

/-- **Neither does `load_from_file`.** -/
theorem loadFromFileChecked_eq (now : Nat) (file : List UInt8) :
    loadFromFileChecked codec c now file =
      if ∀ p ∈ (fileReader codec).readAll file, p.2.ttl + c.serveStaleTtl < 2 ^ 64 then
        .ok (insertAll (fun now entry => decide (Loadable c now entry)) (fun _ => now)
          ((fileReader codec).readAll file))
      else .error .overflow := by
  have hcheck : ∀ (_ : Nat) entry, loadableChecked c now entry =
      if entry.ttl + c.serveStaleTtl < 2 ^ 64 then .ok (decide (Loadable c now entry))
      else .error .overflow :=
    fun _ entry => loadableChecked_eq now entry
  unfold loadFromFileChecked
  rw [fileLoop_eq now file 0 0, List.drop_zero, storeAll_eq hcheck]
  rfl

/-! ## What is stored -/

/-- The entries of a loaded cache: their bytes parse, and no later lookup overflows. -/
structure StoresSafely (codec : Codec) (c : CachePlugin) (cache : QueryKey → Option CachedEntry) :
    Prop where
  parses : ∀ key entry, cache key = some entry →
    ∃ raw, entry.rawBytes = some raw ∧ codec.fromVec raw = some entry.message
  lookup : ∀ key entry, cache key = some entry →
    ∀ now, ∃ stale, staleCheck c now entry = .ok stale

/-- Both loaders come to an end on the file without a fault, and store entries that are safe. -/
structure LoadsSafely (codec : Codec) (c : CachePlugin) (clock : Nat → Nat) (now : Nat)
    (file : List UInt8) : Prop where
  disk : ∃ cache, loadFromDiskChecked codec c clock file = .ok cache ∧ StoresSafely codec c cache
  file : ∃ cache, loadFromFileChecked codec c now file = .ok cache ∧ StoresSafely codec c cache

/-- What is stored was read. -/
theorem mem_of_insertAll {fresh : Nat → CachedEntry → Bool} {clock : Nat → Nat}
    {read : List (QueryKey × CachedEntry)} {key : QueryKey} {entry : CachedEntry}
    (h : insertAll fresh clock read key = some entry) : (key, entry) ∈ read := by
  induction read using List.reverseRecOn with
  | nil => cases h
  | append_singleton read p ih =>
    obtain ⟨k, e⟩ := p
    rw [insertAll_concat] at h
    split at h
    · rcases PartialMap.put_some h with ⟨rfl, rfl⟩ | ⟨-, hold⟩
      · exact List.mem_append_right _ List.mem_cons_self
      · exact List.mem_append_left _ (ih hold)
    · exact List.mem_append_left _ (ih h)

theorem diskEntries_parse {file : List UInt8} {p : QueryKey × CachedEntry}
    (h : p ∈ diskEntries codec file) :
    ∃ raw, p.2.rawBytes = some raw ∧ codec.fromVec raw = some p.2.message := by
  obtain ⟨r, -, hr⟩ := List.mem_filterMap.mp h
  split at hr
  · rename_i entry size hentry
    cases hr
    exact fromBytes_parses hentry
  · cases hr

theorem fileReader_parse {file : List UInt8} {p : QueryKey × CachedEntry}
    (h : p ∈ (fileReader codec).readAll file) :
    ∃ raw, p.2.rawBytes = some raw ∧ codec.fromVec raw = some p.2.message := by
  obtain ⟨bs, rest, hnext⟩ := Reader.mem_readAll h
  simp only [fileReader] at hnext
  split at hnext
  · cases hnext
  · split at hnext
    · rename_i entry consumed hentry
      cases hnext
      exact fromBytes_parses hentry
    · cases hnext

/-- Entries whose bytes parse and whose lifetimes fit are stored safely. -/
theorem insertAll_storesSafely {fresh : Nat → CachedEntry → Bool} {clock : Nat → Nat}
    {read : List (QueryKey × CachedEntry)}
    (hparse : ∀ p ∈ read, ∃ raw, p.2.rawBytes = some raw ∧ codec.fromVec raw = some p.2.message)
    (hfits : ∀ p ∈ read, p.2.ttl + c.serveStaleTtl < 2 ^ 64) :
    StoresSafely codec c (insertAll fresh clock read) where
  parses _ _ h := hparse _ (mem_of_insertAll h)
  lookup _ _ h := staleCheck_ok (hfits _ (mem_of_insertAll h))

end

/-- **Loading is safe exactly when no entry that is read has a lifetime that overflows**: with the
stale window and the hour of grace in the one loader, with the stale window in the other. -/
theorem load_safe_iff (codec : Codec) (c : CachePlugin) (clock : Nat → Nat) (now : Nat)
    (file : List UInt8) :
    LoadsSafely codec c clock now file ↔
      (∀ p ∈ diskEntries codec file, p.2.ttl + c.serveStaleTtl + 3600 < 2 ^ 64) ∧
        ∀ p ∈ (fileReader codec).readAll file, p.2.ttl + c.serveStaleTtl < 2 ^ 64 := by
  constructor
  · rintro ⟨⟨diskCache, hdisk, -⟩, ⟨fileCache, hfile, -⟩⟩
    constructor
    · by_contra hnot
      rw [loadFromDiskChecked_eq, if_neg hnot] at hdisk
      cases hdisk
    · by_contra hnot
      rw [loadFromFileChecked_eq, if_neg hnot] at hfile
      cases hfile
  · rintro ⟨hdisk, hfile⟩
    constructor
    · refine ⟨_, by rw [loadFromDiskChecked_eq, if_pos hdisk], ?_⟩
      apply insertAll_storesSafely fun p hp => diskEntries_parse hp
      intro p hp
      have hfits := hdisk p hp
      omega
    · refine ⟨_, by rw [loadFromFileChecked_eq, if_pos hfile], ?_⟩
      exact insertAll_storesSafely (fun p hp => fileReader_parse hp) hfile

/-- **One entry with the longest lifetime aborts the load.** -/
theorem longest_lifetime_overflows :
    loadFromDiskChecked emptyCodec unlimitedCache (fun _ => 4600)
      (saveToDisk emptyCodec [(buildKeyForDomain "www.example.com." 1 1, emptyEntry)]) =
        .error .overflow ∧
    ¬ ∀ codec c clock now file, LoadsSafely codec c clock now file := by
  have hfault : loadFromDiskChecked emptyCodec unlimitedCache (fun _ => 4600)
      (saveToDisk emptyCodec [(buildKeyForDomain "www.example.com." 1 1, emptyEntry)]) =
        .error .overflow := by
    rw [loadFromDiskChecked_eq, emptyEntry_read, if_neg]
    decide +kernel
  refine ⟨hfault, fun h => ?_⟩
  obtain ⟨cache, hcache, -⟩ := (h emptyCodec unlimitedCache (fun _ => 4600) 4600
    (saveToDisk emptyCodec [(buildKeyForDomain "www.example.com." 1 1, emptyEntry)])).disk
  rw [hfault] at hcache
  cases hcache

end TitanDns
