import Mathlib.Data.List.Induction
import TitanDns.Core.Checked
import TitanDns.Plugins.Persistence

/-!
# The cache through its files, cut anywhere

Both file formats with their loaders: what comes back of a file that was written in part only.

* `fromBytesIndexed`, `fileEntries`, `loadFromDisk`, `loadFromFile` — the loaders with the
  source's indexing, where `none` is a panic; `fromBytesIndexed_eq`, `fileEntries_eq` — **there is
  none.**
* `dumpToFile` — what `dump_to_file` writes.
* `diskEntries_take`, `fileEntries_take` — **what is read of a cut file are the entries in front of
  the cut.**
* `RestoresExactly` — what the loaded cache has to hold; `cut_files_restore_iff` — **when it does**,
  for every cut of either file.
-/

namespace TitanDns

open Run CachePlugin Records

/-! ## Indexing -/

namespace CachedEntry

variable (codec : Codec)

/-- `CachedEntry::from_bytes`, every slice taken by its indices. -/
def fromBytesIndexed (bytes : List UInt8) : Option (Except EntryError (CachedEntry × Nat)) :=
  if bytes.length < 20 then some (.error (.text "Entry too short"))
  else do
    let timestamp ← slice bytes 0 8
    let ttl ← slice bytes 8 16
    let size ← slice bytes 16 20
    let len := leNat size
    if bytes.length < 20 + len then some (.error (.text "Buffer underflow"))
    else do
      let raw ← slice bytes 20 (20 + len)
      match codec.fromVec raw with
      | none => some (.error .decode)
      | some message => some (.ok (⟨message, some raw, leNat timestamp, leNat ttl⟩, 20 + len))

/-- **No slice is out of range.** -/
theorem fromBytesIndexed_eq (bytes : List UInt8) :
    fromBytesIndexed codec bytes = some (fromBytes codec bytes) := by
  unfold fromBytesIndexed fromBytes
  by_cases hhead : bytes.length < 20
  · rw [if_pos hhead, if_pos hhead]
  · have htimestamp : slice bytes 0 8 = some (bytes.take 8) := slice_some (by omega) (by omega)
    have httl : slice bytes 8 16 = some ((bytes.drop 8).take 8) := slice_some (by omega) (by omega)
    have hsize : slice bytes 16 20 = some ((bytes.drop 16).take 4) :=
      slice_some (by omega) (by omega)
    rw [if_neg hhead, if_neg hhead, htimestamp, httl, hsize]
    simp only [Option.bind_eq_bind, Option.bind_some]
    by_cases hbody : bytes.length < 20 + leNat ((bytes.drop 16).take 4)
    · rw [if_pos hbody, if_pos hbody]
    · rw [if_neg hbody, if_neg hbody, slice_some (by omega) (by omega), Nat.add_sub_cancel_left,
        Option.bind_some]
      cases codec.fromVec ((bytes.drop 20).take (leNat ((bytes.drop 16).take 4))) with
      | none => rfl
      | some message => rfl

end CachedEntry

/-! ## Dumps -/

/-- `dump_to_file` of the entries, in the order of the iteration: what stands in the file, and the
count; an entry that cannot be encoded ends it. -/
def dumpToFile (codec : Codec) : List (QueryKey × CachedEntry) → List UInt8 × Option Nat
  | [] => ([], some 0)
  | (key, entry) :: rest =>
    match entry.toBytes codec with
    | none => ([], none)
    | some bytes =>
      let (file, count) := dumpToFile codec rest
      (key.toBytes ++ bytes ++ file, count.map (· + 1))

/-- The loop of `load_from_file`, up to the age of the entry: the entries it comes by, from
`offset` on. -/
def fileEntries (codec : Codec) (buf : List UInt8) (offset : Nat) :
    Option (List (QueryKey × CachedEntry)) :=
  if offset + 20 ≤ buf.length then
    (slice buf offset (offset + 20)).bind fun keyData =>
      (slice buf (offset + 20) buf.length).bind fun rest =>
        (CachedEntry.fromBytesIndexed codec rest).bind fun
          | .ok (entry, consumed) =>
            (fileEntries codec buf (offset + 20 + consumed)).map ((.fromBytes keyData, entry) :: ·)
          | .error _ => some []
  else some []
termination_by buf.length - offset

/-- One turn of that loop, on what is left of the buffer. -/
def fileReader (codec : Codec) : Reader UInt8 (QueryKey × CachedEntry) where
  next bs :=
    if bs.length < 20 then none
    else
      match CachedEntry.fromBytes codec (bs.drop 20) with
      | .ok (entry, consumed) => some ((.fromBytes (bs.take 20), entry), bs.drop (20 + consumed))
      | .error _ => none
  shorter := by
    intro bs b rest h
    split at h
    · cases h
    · split at h
      · cases h
        rw [List.length_drop]
        omega
      · cases h

/-- **The loop over indices panics nowhere**, and reads record by record. -/
theorem fileEntries_eq (codec : Codec) {buf : List UInt8} {offset : Nat} :
    fileEntries codec buf offset = some ((fileReader codec).readAll (buf.drop offset)) := by
  rw [fileEntries]
  by_cases hmore : offset + 20 ≤ buf.length
  · have hshort : ¬ (buf.drop offset).length < 20 := by
      rw [List.length_drop]
      omega
    have hkey : slice buf offset (offset + 20) = some ((buf.drop offset).take 20) := by
      rw [slice_some (by omega) hmore, Nat.add_sub_cancel_left]
    have hrest : slice buf (offset + 20) buf.length = some ((buf.drop offset).drop 20) := by
      rw [slice_some hmore (by omega), List.drop_drop, List.take_of_length_le]
      exact Nat.le_of_eq List.length_drop
    rw [if_pos hmore, hkey, hrest, Option.bind_some, Option.bind_some,
      CachedEntry.fromBytesIndexed_eq, Option.bind_some]
    cases hentry : CachedEntry.fromBytes codec ((buf.drop offset).drop 20) with
    | error err =>
      rw [Reader.readAll_none]
      simp only [fileReader, if_neg hshort, hentry]
    | ok found =>
      obtain ⟨entry, consumed⟩ := found
      have ih := @fileEntries_eq codec buf (offset + 20 + consumed)
      have hnext : (fileReader codec).next (buf.drop offset) =
          some ((.fromBytes ((buf.drop offset).take 20), entry),
            buf.drop (offset + 20 + consumed)) := by
        simp only [fileReader, if_neg hshort, hentry]
        rw [List.drop_drop, Nat.add_assoc]
      rw [Reader.readAll_some hnext]
      simp only [ih, Option.map_some]
  · have hshort : (buf.drop offset).length < 20 := by
      rw [List.length_drop]
      omega
    rw [if_neg hmore, Reader.readAll_none]
    simp only [fileReader, if_pos hshort]
termination_by buf.length - offset

/-! ## Loading -/

/-- Insert what was read, one entry after the other; `clock i` is the time at which the age of
entry `i` is taken. -/
def insertAll (fresh : Nat → CachedEntry → Bool) (clock : Nat → Nat)
    (read : List (QueryKey × CachedEntry)) : QueryKey → Option CachedEntry :=
  read.zipIdx.foldl
    (fun m p => if fresh (clock p.2) p.1.2 then PartialMap.put m p.1.1 p.1.2 else m)
    PartialMap.empty

theorem insertAll_concat (fresh : Nat → CachedEntry → Bool) (clock : Nat → Nat)
    (read : List (QueryKey × CachedEntry)) (k : QueryKey) (e : CachedEntry) :
    insertAll fresh clock (read ++ [(k, e)]) =
      if fresh (clock read.length) e then PartialMap.put (insertAll fresh clock read) k e
      else insertAll fresh clock read := by
  unfold insertAll
  rw [List.zipIdx_append, List.foldl_append]
  simp

/-- An element of a list with one more at its end. -/
theorem getElem?_concat_iff {α : Type} (l : List α) (a b : α) (i : Nat) :
    (l ++ [a])[i]? = some b ↔ l[i]? = some b ∨ (i = l.length ∧ a = b) := by
  by_cases hi : i < l.length
  · rw [List.getElem?_append_left hi]
    constructor
    · exact Or.inl
    · rintro (h | ⟨rfl, -⟩)
      · exact h
      · omega
  · have hnone : l[i]? = none := List.getElem?_eq_none (by omega)
    rw [List.getElem?_append_right (by omega), hnone]
    rcases Nat.eq_or_lt_of_le (Nat.le_of_not_lt hi) with heq | hgt
    · simp [← heq]
    · have hne : i ≠ l.length := by omega
      have hpos : i - l.length ≠ 0 := by omega
      simp [hne, hpos]

/-- **With distinct keys, what is loaded are the fresh ones of the entries read.** -/
theorem insertAll_some {fresh : Nat → CachedEntry → Bool} {clock : Nat → Nat}
    {read : List (QueryKey × CachedEntry)} (hkeys : (read.map (·.1)).Nodup) {key : QueryKey}
    {entry : CachedEntry} :
    insertAll fresh clock read key = some entry ↔
      ∃ i, read[i]? = some (key, entry) ∧ fresh (clock i) entry = true := by
  induction read using List.reverseRecOn with
  | nil =>
    constructor
    · intro h
      cases h
    · rintro ⟨i, hi, -⟩
      simp at hi
  | append_singleton read p ih =>
    obtain ⟨k, e⟩ := p
    rw [List.map_append, List.nodup_append] at hkeys
    obtain ⟨hnodup, -, hdisjoint⟩ := hkeys
    have hnew : ∀ {i : Nat} {e'}, read[i]? = some (k, e') → False := by
      intro i e' hi
      have hmem : k ∈ read.map (·.1) := List.mem_map.mpr ⟨(k, e'), List.mem_of_getElem? hi, rfl⟩
      exact hdisjoint k hmem k (by simp) rfl
    have hindex := getElem?_concat_iff read (k, e) (key, entry)
    rw [insertAll_concat]
    constructor
    · intro h
      split at h
      · rename_i hfresh
        rcases PartialMap.put_some h with ⟨rfl, rfl⟩ | ⟨-, hold⟩
        · exact ⟨read.length, (hindex _).mpr (Or.inr ⟨rfl, rfl⟩), hfresh⟩
        · obtain ⟨i, hi, hfresh⟩ := (ih hnodup).mp hold
          exact ⟨i, (hindex i).mpr (Or.inl hi), hfresh⟩
      · obtain ⟨i, hi, hfresh⟩ := (ih hnodup).mp h
        exact ⟨i, (hindex i).mpr (Or.inl hi), hfresh⟩
    · rintro ⟨i, hi, hfresh⟩
      rcases (hindex i).mp hi with hread | ⟨rfl, heq⟩
      · have hold := (ih hnodup).mpr ⟨i, hread, hfresh⟩
        split
        · rw [PartialMap.put_of_ne]
          · exact hold
          · rintro rfl
            exact hnew hread
        · exact hold
      · obtain ⟨rfl, rfl⟩ := Prod.mk.inj heq
        rw [if_pos hfresh, PartialMap.put_self]

/-! ## Entries that a file keeps -/

namespace CachedEntry

variable (codec : Codec)

/-- The entry is encoded, its bytes are a message, and its fields are machine words. -/
structure Persists (entry : CachedEntry) : Prop where
  encodes : ∃ bytes message, entry.messageBytes codec = some bytes ∧
    codec.fromVec bytes = some message ∧ bytes.length ≤ 65535
  timestamp : entry.timestamp < 2 ^ 64
  ttl : entry.ttl < 2 ^ 64

/-- The bytes of the entry in a file. -/
def written (entry : CachedEntry) : List UInt8 := (entry.toBytes codec).getD []

/-- The entry as it is read back: its message is decoded from its bytes. -/
def reread (entry : CachedEntry) : CachedEntry :=
  let bytes := (entry.messageBytes codec).getD []
  ⟨(codec.fromVec bytes).getD {}, some bytes, entry.timestamp, entry.ttl⟩

variable {codec} {entry : CachedEntry}

/-- What an entry that persists comes to. -/
theorem Persists.cases (h : Persists codec entry) :
    ∃ bytes message, bytes.length < 2 ^ 32 ∧ codec.fromVec bytes = some message ∧
      entry.toBytes codec = some (entry.record bytes) ∧
      entry.written codec = entry.record bytes ∧
      entry.reread codec = ⟨message, some bytes, entry.timestamp, entry.ttl⟩ := by
  obtain ⟨bytes, message, hbytes, hmessage, hlen⟩ := h.encodes
  have hto : entry.toBytes codec = some (entry.record bytes) := by
    unfold toBytes
    rw [hbytes]
    rfl
  refine ⟨bytes, message, by omega, hmessage, hto, ?_, ?_⟩
  · rw [written, hto]
    rfl
  · simp only [reread, hbytes, hmessage, Option.getD_some]

theorem Persists.toBytes_eq (h : Persists codec entry) :
    entry.toBytes codec = some (entry.written codec) := by
  obtain ⟨bytes, message, -, -, hto, hwritten, -⟩ := h.cases
  rw [hto, hwritten]

/-- **A written entry is read back in front of whatever follows it.** -/
theorem fromBytes_written (h : Persists codec entry) (rest : List UInt8) :
    fromBytes codec (entry.written codec ++ rest) =
      .ok (entry.reread codec, (entry.written codec).length) := by
  obtain ⟨bytes, message, hlen, hmessage, -, hwritten, hreread⟩ := h.cases
  obtain ⟨htimestamp, httl, hsize, hmsg⟩ := @record_fields entry bytes hlen
  have hall : (entry.record bytes ++ rest).length = 20 + bytes.length + rest.length := by
    rw [List.length_append, record_length]
  have hdrop : ∀ k ≤ 20, (entry.record bytes ++ rest).drop k =
      (entry.record bytes).drop k ++ rest := by
    intro k hk
    apply List.drop_append_of_le_length
    rw [record_length]
    omega
  have htake : ∀ k n, k + n ≤ 20 → ((entry.record bytes ++ rest).drop k).take n =
      ((entry.record bytes).drop k).take n := by
    intro k n hkn
    rw [hdrop k (by omega)]
    apply List.take_append_of_le_length
    rw [List.length_drop, record_length]
    omega
  have htake8 : (entry.record bytes ++ rest).take 8 = (entry.record bytes).take 8 :=
    htake 0 8 (by omega)
  rw [hwritten, hreread]
  unfold fromBytes
  simp only [hall, htake8, htake 8 8 (by omega), htake 16 4 (by omega), hdrop 20 (by omega),
    htimestamp, httl, hsize, hmsg, List.take_left, hmessage, record_length]
  rw [if_neg (by omega), if_neg (by omega), Nat.mod_eq_of_lt h.timestamp, Nat.mod_eq_of_lt h.ttl]

/-- **A part of a written entry is not read.** -/
theorem fromBytes_torn (h : Persists codec entry) {k : Nat}
    (hk : k < (entry.written codec).length) :
    ∃ err, fromBytes codec ((entry.written codec).take k) = .error err := by
  obtain ⟨bytes, message, hlen, -, -, hwritten, -⟩ := h.cases
  obtain ⟨-, -, hsize, -⟩ := @record_fields entry bytes hlen
  rw [hwritten, record_length] at hk
  have hall : ((entry.record bytes).take k).length = k := by
    rw [List.length_take, record_length]
    omega
  rw [hwritten]
  unfold fromBytes
  by_cases hhead : k < 20
  · exact ⟨_, if_pos (by rw [hall]; exact hhead)⟩
  · have hfield : (((entry.record bytes).take k).drop 16).take 4 =
        ((entry.record bytes).drop 16).take 4 := by
      rw [List.drop_take, List.take_take, Nat.min_eq_left (by omega)]
    simp only [hall, hfield, hsize]
    rw [if_neg hhead, if_pos hk]
    exact ⟨_, rfl⟩

end CachedEntry

/-! ## What is read of a cut file -/

section
variable {codec : Codec} {entries : List (QueryKey × CachedEntry)}

/-- The entries that lie wholly in front of a cut, by the lengths of the files of the first ones. -/
theorem lt_whole_flatMap {encode : QueryKey × CachedEntry → List UInt8} {i n : Nat}
    (hi : i < entries.length) :
    i < whole (entries.map fun p => (encode p).length) n ↔
      ((entries.take (i + 1)).flatMap encode).length ≤ n := by
  rw [lt_whole_iff (by rw [List.length_map]; exact hi), ← List.map_take, List.length_flatMap]

theorem saveToDisk_eq (h : ∀ p ∈ entries, p.2.Persists codec) :
    saveToDisk codec entries =
      entries.flatMap fun p => diskRecord (p.1, p.2.written codec) := by
  induction entries with
  | nil => rfl
  | cons p entries ih =>
    have hp := (h p List.mem_cons_self).toBytes_eq
    have hrest := ih fun q hq => h q (List.mem_cons_of_mem _ hq)
    unfold saveToDisk at hrest ⊢
    rw [List.filterMap_cons, hp, List.flatMap_cons, ← hrest]
    rfl

theorem dumpToFile_eq (h : ∀ p ∈ entries, p.2.Persists codec) :
    dumpToFile codec entries =
      (entries.flatMap fun p => p.1.toBytes ++ p.2.written codec, some entries.length) := by
  induction entries with
  | nil => rfl
  | cons p entries ih =>
    have hp := (h p List.mem_cons_self).toBytes_eq
    have hrest := ih fun q hq => h q (List.mem_cons_of_mem _ hq)
    rw [dumpToFile, hp]
    simp only [hrest, List.flatMap_cons, List.length_cons, Option.map_some]

theorem diskReader_torn {r : QueryKey × List UInt8} (hlen : r.2.length < 2 ^ 32) {k : Nat}
    (hk : k < (diskRecord r).length) : diskReader.next ((diskRecord r).take k) = none := by
  have h20 : (diskRecord r).drop 20 = leBytes 4 r.2.length ++ r.2 := by
    simp only [diskRecord, List.append_assoc]
    exact List.drop_left' r.1.toBytes_length
  have hall : (diskRecord r).length = 24 + r.2.length := by
    simp [diskRecord]
    omega
  have htaken : ((diskRecord r).take k).length = k := by
    rw [List.length_take]
    omega
  rw [hall] at hk
  simp only [diskReader, htaken]
  by_cases hhead : k < 24
  · rw [if_pos hhead]
  · have hsize : leNat ((((diskRecord r).take k).drop 20).take 4) = r.2.length := by
      rw [List.drop_take, List.take_take, Nat.min_eq_left (by omega), h20, take_leBytes]
      exact leNat_leBytes hlen
    rw [if_neg hhead, hsize, if_pos hk]

theorem written_lt {p : QueryKey × CachedEntry} (h : p.2.Persists codec) :
    (p.2.written codec).length < 2 ^ 32 := by
  obtain ⟨bytes, message, hbytes, -, hlen⟩ := h.encodes
  rw [CachedEntry.written, CachedEntry.toBytes, hbytes, Option.map_some, Option.getD_some,
    CachedEntry.record_length]
  omega

/-- **What `load_from_disk` comes by in a cut file**: the entries in front of the cut. -/
theorem diskEntries_take (h : ∀ p ∈ entries, p.2.Persists codec) (n : Nat) :
    diskEntries codec ((saveToDisk codec entries).take n) =
      (entries.take (whole
        (entries.map fun p => (diskRecord (p.1, p.2.written codec)).length) n)).map
        fun p => (p.1, p.2.reread codec) := by
  have hread := @Reader.readAll_take _ _ _ diskReader
    (fun p : QueryKey × CachedEntry => diskRecord (p.1, p.2.written codec))
    (fun p => (p.1, p.2.written codec)) entries
    (fun p hp rest => diskRecord_next (written_lt (h p hp)) rest)
    (fun p hp k hk => diskReader_torn (written_lt (h p hp)) hk) n
  unfold diskEntries
  rw [saveToDisk_eq h, hread, List.filterMap_map]
  generalize whole _ n = k
  rw [← List.filterMap_eq_map]
  apply List.filterMap_congr
  intro p hp
  have hback := CachedEntry.fromBytes_written (h p (List.mem_of_mem_take hp)) []
  rw [List.append_nil] at hback
  simp only [Function.comp_apply, hback]

theorem fileReader_next {p : QueryKey × CachedEntry} (h : p.2.Persists codec)
    (rest : List UInt8) :
    (fileReader codec).next ((p.1.toBytes ++ p.2.written codec) ++ rest) =
      some ((p.1, p.2.reread codec), rest) := by
  have hkey : p.1.toBytes.length = 20 := p.1.toBytes_length
  have htake : ((p.1.toBytes ++ p.2.written codec) ++ rest).take 20 = p.1.toBytes := by
    rw [List.append_assoc]
    exact List.take_left' hkey
  have hdrop : ((p.1.toBytes ++ p.2.written codec) ++ rest).drop 20 =
      p.2.written codec ++ rest := by
    rw [List.append_assoc]
    exact List.drop_left' hkey
  have hlong : ¬ ((p.1.toBytes ++ p.2.written codec) ++ rest).length < 20 := by
    simp only [List.length_append, hkey]
    omega
  have hback := CachedEntry.fromBytes_written h rest
  simp only [fileReader, if_neg hlong, htake, hdrop, hback, QueryKey.fromBytes_toBytes]
  rw [← List.drop_drop, hdrop, List.drop_left' rfl]

theorem fileReader_torn {p : QueryKey × CachedEntry} (h : p.2.Persists codec) {k : Nat}
    (hk : k < (p.1.toBytes ++ p.2.written codec).length) :
    (fileReader codec).next ((p.1.toBytes ++ p.2.written codec).take k) = none := by
  have hkey : p.1.toBytes.length = 20 := p.1.toBytes_length
  have htaken : ((p.1.toBytes ++ p.2.written codec).take k).length = k := by
    rw [List.length_take]
    omega
  simp only [fileReader, htaken]
  by_cases hhead : k < 20
  · rw [if_pos hhead]
  · have hdrop : ((p.1.toBytes ++ p.2.written codec).take k).drop 20 =
        (p.2.written codec).take (k - 20) := by
      rw [List.drop_take, List.drop_left' hkey]
    rw [List.length_append, hkey] at hk
    obtain ⟨err, herr⟩ := @CachedEntry.fromBytes_torn codec p.2 h (k - 20) (by omega)
    rw [if_neg hhead, hdrop, herr]

/-- **What `load_from_file` comes by in a cut file**: the entries in front of the cut. -/
theorem fileEntries_take (h : ∀ p ∈ entries, p.2.Persists codec) (n : Nat) :
    fileEntries codec ((dumpToFile codec entries).1.take n) 0 =
      some ((entries.take (whole
        (entries.map fun p => (p.1.toBytes ++ p.2.written codec).length) n)).map
        fun p => (p.1, p.2.reread codec)) := by
  have hread := @Reader.readAll_take _ _ _ (fileReader codec)
    (fun p : QueryKey × CachedEntry => p.1.toBytes ++ p.2.written codec)
    (fun p => (p.1, p.2.reread codec)) entries
    (fun p hp rest => fileReader_next (h p hp) rest)
    (fun p hp k hk => fileReader_torn (h p hp) hk) n
  rw [fileEntries_eq, List.drop_zero, dumpToFile_eq h, hread]

end

/-! ## What is loaded -/

/-- `elapsed < entry.ttl + self.serve_stale_ttl`; the sum is one of `u64`, which wraps. -/
def Loadable (c : CachePlugin) (now : Nat) (entry : CachedEntry) : Prop :=
  now - entry.timestamp < (entry.ttl + c.serveStaleTtl) % 2 ^ 64

instance (c : CachePlugin) (now : Nat) (entry : CachedEntry) : Decidable (Loadable c now entry) :=
  inferInstanceAs (Decidable (_ < _))

/-- `load_from_disk_blocking` into an empty cache; the clock is read for each entry. -/
def loadFromDisk (codec : Codec) (c : CachePlugin) (clock : Nat → Nat) (file : List UInt8) :
    Option (QueryKey → Option CachedEntry) :=
  ((diskReader.readAll file).mapM fun r =>
      (CachedEntry.fromBytesIndexed codec r.2).map (r.1, ·)).map fun found =>
    insertAll (fun now entry => decide (PersistentSystem.Restorable c now entry)) clock
      (found.filterMap fun r => r.2.toOption.map (r.1, ·.1))

/-- `load_from_file` into an empty cache; the clock is read once. -/
def loadFromFile (codec : Codec) (c : CachePlugin) (now : Nat) (file : List UInt8) :
    Option (QueryKey → Option CachedEntry) :=
  (fileEntries codec file 0).map
    (insertAll (fun now entry => decide (Loadable c now entry)) fun _ => now)

theorem loadFromDisk_eq (codec : Codec) (c : CachePlugin) (clock : Nat → Nat)
    (file : List UInt8) :
    loadFromDisk codec c clock file =
      some (insertAll (fun now entry => decide (PersistentSystem.Restorable c now entry)) clock
        (diskEntries codec file)) := by
  unfold loadFromDisk diskEntries
  generalize diskReader.readAll file = records
  have hall : records.mapM (fun r => (CachedEntry.fromBytesIndexed codec r.2).map (r.1, ·)) =
      some (records.map fun r => (r.1, CachedEntry.fromBytes codec r.2)) := by
    induction records with
    | nil => rfl
    | cons r records ih =>
      rw [List.mapM_cons, ih, CachedEntry.fromBytesIndexed_eq]
      rfl
  rw [hall, Option.map_some, List.filterMap_map]
  congr 3
  funext r
  simp only [Function.comp_apply]
  cases CachedEntry.fromBytes codec r.2 with
  | error err => rfl
  | ok found => rfl

/-- `entry'` is `entry` as it was saved: the same fields and bytes, and what these decode to. -/
structure SameEntry (codec : Codec) (entry entry' : CachedEntry) : Prop where
  timestamp : entry'.timestamp = entry.timestamp
  ttl : entry'.ttl = entry.ttl
  bytes : entry'.messageBytes codec = entry.messageBytes codec
  message : ∀ bytes, entry.messageBytes codec = some bytes →
    codec.fromVec bytes = some entry'.message

/-- **The cache holds the wanted entries, each as it was saved, and nothing else.** -/
structure RestoresExactly (codec : Codec) (entries : List (QueryKey × CachedEntry))
    (wanted : Nat → CachedEntry → Prop) (cache : QueryKey → Option CachedEntry) : Prop where
  back : ∀ (i : Nat) key entry, entries[i]? = some (key, entry) → wanted i entry →
    ∃ entry', cache key = some entry' ∧ SameEntry codec entry entry'
  only : ∀ key entry', cache key = some entry' → ∃ (i : Nat) (entry : CachedEntry),
    entries[i]? = some (key, entry) ∧ wanted i entry ∧ SameEntry codec entry entry'

theorem sameEntry_reread {codec : Codec} {entry : CachedEntry} (h : entry.Persists codec) :
    SameEntry codec entry (entry.reread codec) := by
  obtain ⟨bytes, message, hbytes, hmessage, -⟩ := h.encodes
  refine ⟨rfl, rfl, ?_, ?_⟩
  · rw [hbytes]
    unfold CachedEntry.reread
    rw [hbytes]
    rfl
  · intro bytes' hbytes'
    rw [hbytes] at hbytes'
    cases hbytes'
    unfold CachedEntry.reread
    simp only [hbytes, hmessage, Option.getD_some]

section
variable {codec : Codec} {entries : List (QueryKey × CachedEntry)}

/-- **The wanted entries come back exactly when the loader takes each of them for fresh.** -/
theorem restoresExactly_iff (hkeys : (entries.map (·.1)).Nodup)
    (hentries : ∀ p ∈ entries, p.2.Persists codec) {fresh : Nat → CachedEntry → Bool}
    {clock : Nat → Nat} {age : Nat → CachedEntry → Prop} {k : Nat} {inFront : Nat → Prop}
    (hfront : ∀ i < entries.length, i < k ↔ inFront i)
    (hreread : ∀ now entry, fresh now (entry.reread codec) = fresh now entry)
    (hage : ∀ now entry, fresh now entry = true → age now entry) :
    RestoresExactly codec entries (fun i entry => inFront i ∧ age (clock i) entry)
        (insertAll fresh clock ((entries.take k).map fun p => (p.1, p.2.reread codec))) ↔
      ∀ (i : Nat) key entry, entries[i]? = some (key, entry) → inFront i →
        age (clock i) entry → fresh (clock i) entry = true := by
  have hread : ∀ (i : Nat) key entry',
      ((entries.take k).map fun p => (p.1, p.2.reread codec))[i]? = some (key, entry') ↔
        i < k ∧ ∃ entry, entries[i]? = some (key, entry) ∧ entry' = entry.reread codec := by
    intro i key entry'
    rw [List.getElem?_map, List.getElem?_take]
    by_cases hi : i < k
    · rw [if_pos hi, Option.map_eq_some_iff]
      constructor
      · rintro ⟨⟨key', entry⟩, hp, heq⟩
        cases heq
        exact ⟨hi, entry, hp, rfl⟩
      · rintro ⟨-, entry, hp, rfl⟩
        exact ⟨(key, entry), hp, rfl⟩
    · rw [if_neg hi]
      simp [hi]
  have hnodup : (((entries.take k).map fun p => (p.1, p.2.reread codec)).map (·.1)).Nodup := by
    rw [List.map_map]
    exact (List.map_take ▸ hkeys.sublist (List.take_sublist _ _))
  have hloaded := fun key entry' => @insertAll_some fresh clock _ hnodup key entry'
  have hlt : ∀ {i : Nat} {p}, entries[i]? = some p → i < entries.length :=
    fun hi => (List.getElem?_eq_some_iff.mp hi).1
  constructor
  · intro h i key entry hi hin hold
    obtain ⟨entry', hentry', -⟩ := h.back i key entry hi ⟨hin, hold⟩
    obtain ⟨j, hj, hfresh⟩ := (hloaded key entry').mp hentry'
    obtain ⟨-, entry₂, hentry₂, rfl⟩ := (hread j key entry').mp hj
    -- the key stands in one place only
    have hsame : i = j := by
      have hlen : i < (entries.map (·.1)).length := by
        rw [List.length_map]
        exact hlt hi
      apply (List.getElem?_inj hlen hkeys).mp
      rw [List.getElem?_map, List.getElem?_map, hi, hentry₂]
      rfl
    subst hsame
    rw [hi] at hentry₂
    cases hentry₂
    rw [← hreread]
    exact hfresh
  · intro h
    constructor
    · rintro i key entry hi ⟨hin, hold⟩
      have hfresh := h i key entry hi hin hold
      have hk := (hfront i (hlt hi)).mpr hin
      refine ⟨entry.reread codec, (hloaded key _).mpr ⟨i, ?_, ?_⟩,
        sameEntry_reread (hentries (key, entry) (List.mem_of_getElem? hi))⟩
      · exact (hread i key _).mpr ⟨hk, entry, hi, rfl⟩
      · rw [hreread]
        exact hfresh
    · intro key entry' hentry'
      obtain ⟨i, hi, hfresh⟩ := (hloaded key entry').mp hentry'
      obtain ⟨hk, entry, hentry, rfl⟩ := (hread i key entry').mp hi
      rw [hreread] at hfresh
      exact ⟨i, entry, hentry, ⟨(hfront i (hlt hentry)).mp hk, hage _ _ hfresh⟩,
        sameEntry_reread (hentries (key, entry) (List.mem_of_getElem? hentry))⟩

/-- The wrapped sum is no larger than the sum, and where it is smaller the sum is no word. -/
theorem wrapped_age {sum age : Nat} (hage : age < 2 ^ 64) :
    (age < sum → age < sum % 2 ^ 64) ↔ (sum < 2 ^ 64 ∨ age < sum % 2 ^ 64) := by
  constructor
  · intro h
    by_cases hsum : sum < 2 ^ 64
    · exact Or.inl hsum
    · exact Or.inr (h (by omega))
  · rintro (hsum | h) hold
    · rw [Nat.mod_eq_of_lt hsum]
      exact hold
    · exact h

/-- **When a file cut at `n` gives back the entries in front of the cut that are young enough**, for
both formats: when for none of them the sum that their age is compared with wraps to one that they
have reached. -/
theorem cut_files_restore_iff {c : CachePlugin} (hkeys : (entries.map (·.1)).Nodup)
    (hentries : ∀ p ∈ entries, p.2.Persists codec) {clock : Nat → Nat}
    (hclock : ∀ i, clock i < 2 ^ 64) {now : Nat} (hnow : now < 2 ^ 64) (n : Nat) :
    ((∃ cache, loadFromDisk codec c clock ((saveToDisk codec entries).take n) = some cache ∧
        RestoresExactly codec entries (fun i entry =>
          (saveToDisk codec (entries.take (i + 1))).length ≤ n ∧
            clock i - entry.timestamp < entry.ttl + c.serveStaleTtl + 3600) cache) ↔
      ∀ (i : Nat) key entry, entries[i]? = some (key, entry) →
        (saveToDisk codec (entries.take (i + 1))).length ≤ n →
        entry.ttl + c.serveStaleTtl + 3600 < 2 ^ 64 ∨
          clock i - entry.timestamp < (entry.ttl + c.serveStaleTtl + 3600) % 2 ^ 64) ∧
    ((∃ cache, loadFromFile codec c (now) ((dumpToFile codec entries).1.take n) = some cache ∧
        RestoresExactly codec entries (fun i entry =>
          (dumpToFile codec (entries.take (i + 1))).1.length ≤ n ∧
            now - entry.timestamp < entry.ttl + c.serveStaleTtl) cache) ↔
      ∀ (i : Nat) key entry, entries[i]? = some (key, entry) →
        (dumpToFile codec (entries.take (i + 1))).1.length ≤ n →
        entry.ttl + c.serveStaleTtl < 2 ^ 64 ∨
          now - entry.timestamp < (entry.ttl + c.serveStaleTtl) % 2 ^ 64) := by
  have hfirst : ∀ i, ∀ p ∈ entries.take i, p.2.Persists codec :=
    fun i p hp => hentries p (List.mem_of_mem_take hp)
  have hold : ∀ i (entry : CachedEntry), clock i - entry.timestamp < 2 ^ 64 :=
    fun i entry => Nat.lt_of_le_of_lt (Nat.sub_le _ _) (hclock i)
  have hold' : ∀ entry : CachedEntry, now - entry.timestamp < 2 ^ 64 :=
    fun entry => Nat.lt_of_le_of_lt (Nat.sub_le _ _) hnow
  constructor
  · have hfront : ∀ i < entries.length,
        i < whole (entries.map fun p => (diskRecord (p.1, p.2.written codec)).length) n ↔
          (saveToDisk codec (entries.take (i + 1))).length ≤ n := by
      intro i hi
      rw [saveToDisk_eq (hfirst (i + 1))]
      exact @lt_whole_flatMap entries (fun p => diskRecord (p.1, p.2.written codec)) i n hi
    rw [loadFromDisk_eq, diskEntries_take hentries]
    simp only [Option.some.injEq, exists_eq_left']
    rw [@restoresExactly_iff codec entries hkeys hentries
      (fun now entry => decide (PersistentSystem.Restorable c now entry)) clock
      (fun now entry => now - entry.timestamp < entry.ttl + c.serveStaleTtl + 3600) _
      (fun i => (saveToDisk codec (entries.take (i + 1))).length ≤ n) hfront (fun _ _ => rfl)
      (fun now entry h => Nat.lt_of_lt_of_le (of_decide_eq_true h) (Nat.mod_le _ _))]
    simp only [decide_eq_true_eq]
    exact forall₄_congr fun i key entry _ => imp_congr_right fun _ => wrapped_age (hold i entry)
  · have hfront : ∀ i < entries.length,
        i < whole (entries.map fun p => (p.1.toBytes ++ p.2.written codec).length) n ↔
          (dumpToFile codec (entries.take (i + 1))).1.length ≤ n := by
      intro i hi
      rw [dumpToFile_eq (hfirst (i + 1))]
      exact @lt_whole_flatMap entries (fun p => p.1.toBytes ++ p.2.written codec) i n hi
    unfold loadFromFile
    rw [fileEntries_take hentries, Option.map_some]
    simp only [Option.some.injEq, exists_eq_left']
    rw [@restoresExactly_iff codec entries hkeys hentries
      (fun now entry => decide (Loadable c now entry)) (fun _ => now)
      (fun now entry => now - entry.timestamp < entry.ttl + c.serveStaleTtl) _
      (fun i => (dumpToFile codec (entries.take (i + 1))).1.length ≤ n) hfront (fun _ _ => rfl)
      (fun now entry h => Nat.lt_of_lt_of_le (of_decide_eq_true h) (Nat.mod_le _ _))]
    simp only [decide_eq_true_eq]
    exact forall₄_congr fun _ _ entry _ => imp_congr_right fun _ => wrapped_age (hold' entry)

end

/-! ## A lifetime near the end of the range -/

/-- The answer `192.0.2.1` as it was stored at second 1000. -/
def storedAnswer : CachedEntry :=
  .newWithBytes 1000 CacheSystem.addressAnswer 300
    (CacheSystem.responseBytes exampleQuestion [192, 0, 2, 1])

theorem storedAnswer_persists : storedAnswer.Persists CacheSystem.tableCodec where
  encodes := ⟨CacheSystem.responseBytes exampleQuestion [192, 0, 2, 1], CacheSystem.addressAnswer,
    rfl, by decide +kernel, by decide +kernel⟩
  timestamp := by decide
  ttl := by decide

/-- Four long strings, stored two hundred seconds later. -/
def storedText : CachedEntry :=
  .newWithBytes 1200 CacheSystem.textAnswer 300
    (CacheSystem.responseBytes CacheSystem.textQuestion CacheSystem.textData)

theorem storedText_persists : storedText.Persists CacheSystem.tableCodec where
  encodes := ⟨CacheSystem.responseBytes CacheSystem.textQuestion CacheSystem.textData,
    CacheSystem.textAnswer, rfl, by decide +kernel, by decide +kernel⟩
  timestamp := by decide
  ttl := by decide

def twoStored : List (QueryKey × CachedEntry) :=
  [(buildKeyForDomain "www.example.com." 1 1, storedAnswer),
    (buildKeyForDomain "www.example.com." 16 1, storedText)]

/-- What the two loaders find of a file cut at `n`, at second 1400. -/
def RestoredAt (n : Nat) : Prop :=
  (∃ cache, loadFromDisk CacheSystem.tableCodec CacheSystem.exampleCache (fun _ => 1400)
      ((saveToDisk CacheSystem.tableCodec twoStored).take n) = some cache ∧
    RestoresExactly CacheSystem.tableCodec twoStored (fun i entry =>
      (saveToDisk CacheSystem.tableCodec (twoStored.take (i + 1))).length ≤ n ∧
        1400 - entry.timestamp < entry.ttl + CacheSystem.exampleCache.serveStaleTtl + 3600)
      cache) ∧
    ∃ cache, loadFromFile CacheSystem.tableCodec CacheSystem.exampleCache 1400
        ((dumpToFile CacheSystem.tableCodec twoStored).1.take n) = some cache ∧
      RestoresExactly CacheSystem.tableCodec twoStored (fun i entry =>
        (dumpToFile CacheSystem.tableCodec (twoStored.take (i + 1))).1.length ≤ n ∧
          1400 - entry.timestamp < entry.ttl + CacheSystem.exampleCache.serveStaleTtl) cache

/-- Files of two answers, whole and cut inside the second record. -/
theorem cut_files_restore_iff_answer :
    RestoredAt 1000 ∧ RestoredAt 500 ∧
      (saveToDisk CacheSystem.tableCodec (twoStored.take 1)).length < 500 ∧
      500 < (saveToDisk CacheSystem.tableCodec twoStored).length ∧
      (dumpToFile CacheSystem.tableCodec (twoStored.take 1)).1.length < 500 ∧
      500 < (dumpToFile CacheSystem.tableCodec twoStored).1.length := by
  have hall : ∀ p ∈ twoStored, p.2.Persists CacheSystem.tableCodec := by
    intro p hp
    rcases List.mem_cons.mp hp with rfl | hp
    · exact storedAnswer_persists
    · obtain rfl := List.mem_singleton.mp hp
      exact storedText_persists
  have hkeys : (twoStored.map (·.1)).Nodup := by decide +kernel
  have hsums : ∀ p ∈ twoStored,
      p.2.ttl + CacheSystem.exampleCache.serveStaleTtl + 3600 < 2 ^ 64 := by decide +kernel
  have hrestored : ∀ n, RestoredAt n := by
    intro n
    obtain ⟨hdisk, hfile⟩ := @cut_files_restore_iff CacheSystem.tableCodec twoStored
      CacheSystem.exampleCache hkeys hall (fun _ => 1400) (fun _ => by decide) 1400 (by decide) n
    constructor
    · refine hdisk.mpr fun i key entry hi _ => .inl ?_
      exact hsums (key, entry) (List.mem_of_getElem? hi)
    · refine hfile.mpr fun i key entry hi _ => .inl ?_
      have hsum := hsums (key, entry) (List.mem_of_getElem? hi)
      simp only at hsum
      omega
  exact ⟨hrestored 1000, hrestored 500, by decide +kernel, by decide +kernel, by decide +kernel,
    by decide +kernel⟩

/-- A cache without a limit for lifetimes. -/
def unlimitedCache : CachePlugin :=
  { CacheSystem.exampleCache with
    maxTtl := 2 ^ 64 - 1
    ttl_range := by decide }

/-- An answer without records, as that cache stores it at second 1000. -/
def emptyEntry : CachedEntry :=
  .newWithBytes 1000 (CacheSystem.responseTo exampleQuestion [])
    (unlimitedCache.calculateTtl (CacheSystem.responseTo exampleQuestion []))
    ([0, 0, 0x81, 0x80, 0, 1, 0, 0, 0, 0, 0, 0] ++ exampleQuestion.wire)

def emptyCodec : Codec :=
  .ofTable [(CacheSystem.responseTo exampleQuestion [],
    [0, 0, 0x81, 0x80, 0, 1, 0, 0, 0, 0, 0, 0] ++ exampleQuestion.wire)] []

theorem emptyEntry_persists : emptyEntry.Persists emptyCodec where
  encodes := ⟨[0, 0, 0x81, 0x80, 0, 1, 0, 0, 0, 0, 0, 0] ++ exampleQuestion.wire,
    CacheSystem.responseTo exampleQuestion [], rfl, by decide +kernel, by decide +kernel⟩
  timestamp := by decide +kernel
  ttl := by decide +kernel

/-- Its file is read back. -/
theorem emptyEntry_read :
    diskEntries emptyCodec
        (saveToDisk emptyCodec [(buildKeyForDomain "www.example.com." 1 1, emptyEntry)]) =
      [(buildKeyForDomain "www.example.com." 1 1, emptyEntry.reread emptyCodec)] := by
  have hall : ∀ p ∈ [(buildKeyForDomain "www.example.com." 1 1, emptyEntry)],
      p.2.Persists emptyCodec := by
    intro p hp
    cases List.mem_singleton.mp hp
    exact emptyEntry_persists
  have hread := @diskEntries_take emptyCodec
    [(buildKeyForDomain "www.example.com." 1 1, emptyEntry)] hall
    (saveToDisk emptyCodec [(buildKeyForDomain "www.example.com." 1 1, emptyEntry)]).length
  have hwhole : whole
      ([(buildKeyForDomain "www.example.com." 1 1, emptyEntry)].map fun p =>
        (diskRecord (p.1, p.2.written emptyCodec)).length)
      (saveToDisk emptyCodec [(buildKeyForDomain "www.example.com." 1 1, emptyEntry)]).length =
        1 := by decide +kernel
  rw [List.take_length, hwhole] at hread
  exact hread

/-- One hour later it is not loaded from the file that was saved. -/
theorem unlimited_entry_lost :
    ¬ ∃ cache, loadFromDisk emptyCodec unlimitedCache (fun _ => 4600)
        (saveToDisk emptyCodec [(buildKeyForDomain "www.example.com." 1 1, emptyEntry)]) =
          some cache ∧
      RestoresExactly emptyCodec [(buildKeyForDomain "www.example.com." 1 1, emptyEntry)]
        (fun _ entry => 4600 - entry.timestamp < entry.ttl + unlimitedCache.serveStaleTtl + 3600)
        cache := by
  rintro ⟨cache, hload, hrestores⟩
  obtain ⟨entry', hentry', -⟩ := hrestores.back 0 _ emptyEntry rfl (by decide +kernel)
  have hlost : (loadFromDisk emptyCodec unlimitedCache (fun _ => 4600)
      (saveToDisk emptyCodec [(buildKeyForDomain "www.example.com." 1 1, emptyEntry)])).bind
        (· (buildKeyForDomain "www.example.com." 1 1)) = none := by
    rw [loadFromDisk_eq, emptyEntry_read]
    decide +kernel
  rw [hload, Option.bind_some, hentry'] at hlost
  cases hlost

end TitanDns
