import TitanDns.Bpf.WireHash
import TitanDns.Lib.Run

/-!
# Runs of the kernel cache

The events of `dns_cache`: `update_cache` calls, evictions by the LRU map, packets.

* `cacheStep` — one event; `lastStored` — the history of a run: the call that last stored under
  each key.
* `cacheStep_accounted`, `run_accounted` — **the cache holds nothing but what the last call for
  each key stored**, refresh times apart.
* `answered_from_lastStored` — hence an answer is what the last call for the packet's key stored,
  cut to the 768 bytes of the map value.
* `xdp_cache_sound_by_key` — **what that says about the question**: the stored question has the
  key of the question asked.  `xdp_cache_unsound`: it need not be that question.
-/

namespace TitanDns.Bpf

open Run

/-- An event at the cache. -/
inductive CacheEvent where
  | update (u : CacheUpdate) (accepted : Bool)
  | evict (key : UInt64)
  | packet (env : XdpEnv) (f : Frame)

def cacheStep (e : Endian) (m : KernelMaps) : CacheEvent → KernelMaps
  | .update u accepted => (updateCache m u accepted).1
  | .evict key => { m with dnsCache := PartialMap.forget m.dnsCache key }
  | .packet env f => (titanDnsFilter e env m f).1

/-- The history: calls the kernel accepted, by key. -/
def historyStep (h : UInt64 → Option CacheUpdate) : CacheEvent → UInt64 → Option CacheUpdate
  | .update u true => PartialMap.put h u.key u
  | _ => h

/-- The call that last stored under each key in the run. -/
def lastStored (es : List CacheEvent) : UInt64 → Option CacheUpdate :=
  run historyStep PartialMap.empty es

/-- What stands in the history stood there before or was stored in the run. -/
theorem historyRun_mem {h : UInt64 → Option CacheUpdate} {es : List CacheEvent} {k : UInt64}
    {u : CacheUpdate} (hu : run historyStep h es k = some u) :
    h k = some u ∨ (u.key = k ∧ .update u true ∈ es) := by
  induction es generalizing h with
  | nil => exact Or.inl hu
  | cons ev es ih =>
    rcases ih hu with hstep | ⟨hk, hmem⟩
    · unfold historyStep at hstep
      split at hstep
      · rcases PartialMap.put_some hstep with ⟨rfl, rfl⟩ | ⟨-, hold⟩
        · exact Or.inr ⟨rfl, List.mem_cons_self⟩
        · exact Or.inl hold
      · exact Or.inl hstep
    · exact Or.inr ⟨hk, List.mem_cons_of_mem _ hmem⟩

theorem lastStored_mem {es : List CacheEvent} {k : UInt64} {u : CacheUpdate}
    (hu : lastStored es k = some u) : u.key = k ∧ .update u true ∈ es := by
  rcases historyRun_mem hu with h | h
  · cases h
  · exact h

/-! ## What the cache holds -/

/-- The entry is what the call stored, whatever the refresh time. -/
def Stands (key : UInt64) (entry : DnsCacheEntry) (u : CacheUpdate) : Prop :=
  u.key = key ∧ ∃ ts, entry = { u.entry with lastRefreshTs := ts }

/-- What one event keeps. -/
theorem cacheStep_accounted {e : Endian} {m : KernelMaps} {h : UInt64 → Option CacheUpdate}
    (hm : PartialMap.Accounted Stands m.dnsCache h) (ev : CacheEvent) :
    PartialMap.Accounted Stands (cacheStep e m ev).dnsCache (historyStep h ev) := by
  cases ev with
  | update u accepted =>
    cases accepted with
    | true => exact hm.put ⟨rfl, u.entry.lastRefreshTs, rfl⟩
    | false => exact hm
  | evict key => exact hm.forget key
  | packet env f =>
    have htouched : Touched m (titanDnsFilter e env m f).1 := titanDnsFilter_touched
    obtain ⟨-, hsame | ⟨k, entry, ts, hk, hput⟩⟩ := htouched
    · simp only [cacheStep, hsame]
      exact hm
    · simp only [cacheStep, hput]
      refine hm.rewrite hk ?_
      rintro u ⟨hkey, ts', rfl⟩
      exact ⟨hkey, ts, rfl⟩

/-- **The cache holds nothing but what was stored last.** -/
theorem run_accounted {e : Endian} {m : KernelMaps} (hm : m.dnsCache = PartialMap.empty)
    (es : List CacheEvent) :
    PartialMap.Accounted Stands (run (cacheStep e) m es).dnsCache (lastStored es) := by
  refine simulation (R := fun (m : KernelMaps) h => PartialMap.Accounted Stands m.dnsCache h)
    (fun m h ev hR => cacheStep_accounted hR ev) ?_ es
  rw [hm]
  exact PartialMap.Accounted.empty _

/-- The packet is answered, and not by the firewall. -/
def AnsweredFromCache (e : Endian) (env : XdpEnv) (m : KernelMaps) (f : Frame) : Prop :=
  firewall e m.blacklist f = none ∧ (titanDnsFilter e env m f).2.action = .tx

instance (e : Endian) (env : XdpEnv) (m : KernelMaps) (f : Frame) :
    Decidable (AnsweredFromCache e env m f) :=
  inferInstanceAs (Decidable (_ ∧ _))

/-- The DNS payload of the frame the program leaves. -/
def sentPayload (e : Endian) (env : XdpEnv) (m : KernelMaps) (f : Frame) : List UInt8 :=
  (titanDnsFilter e env m f).2.frame.drop PAYLOAD

/-- **An answer is what was stored last under the packet's key.** -/
theorem answered_from_lastStored {e : Endian} {m : KernelMaps}
    (hm : m.dnsCache = PartialMap.empty) {es : List CacheEvent} {env : XdpEnv} {f : Frame}
    (h : AnsweredFromCache e env (run (cacheStep e) m es) f) :
    ∃ k u, xdpKey f = some k ∧ lastStored es k = some u ∧ u.key = k ∧
      u.entry.Answers env ∧
      sentPayload e env (run (cacheStep e) m es) f =
        withId (f.slice PAYLOAD 2) (u.response.take 768) := by
  obtain ⟨k, entry, hk, hentry, hans, hsent⟩ := titanDnsFilter_tx h.1 h.2
  obtain ⟨u, hu, hkey, ts, rfl⟩ := run_accounted hm es k entry hentry
  exact ⟨k, u, hk, hu, hkey, ⟨hans.live, hans.noError, hans.nonempty, hans.fits⟩,
    hsent.trans (congrArg _ u.entry_response)⟩

/-! ## Whose answer it is -/

/-- Among these questions the key tells different ones apart. -/
def KeyInjective (Q : Question → Prop) : Prop :=
  ∀ a b, Q a → Q b → questionKey a = questionKey b → a.Same b

/-- **An answer belongs to the key of the question asked**: it was stored last by a call with the
key computed from the packet, which is the key of the question that a packet without options
carries; so it was stored for that question wherever the key tells the questions involved apart. -/
theorem xdp_cache_sound_by_key {e : Endian} {m : KernelMaps}
    (hm : m.dnsCache = PartialMap.empty) {es : List CacheEvent} {env : XdpEnv} {f : Frame}
    (h : AnsweredFromCache e env (run (cacheStep e) m es) f) :
    ∃ k u, xdpKey f = some k ∧ lastStored es k = some u ∧ u.key = k ∧
      sentPayload e env (run (cacheStep e) m es) f =
        withId (f.slice PAYLOAD 2) (u.response.take 768) ∧
      ∀ q, ihl f = 5 → Carries f q → q.name.NoZero →
        k = calculateXdpHash q.name.wire q.qtype q.qclass ∧
        ∀ Q : Question → Prop, KeyInjective Q → Q q →
          ∀ stored, u.IsFor stored → Q stored → stored.Same q := by
  obtain ⟨k, u, hk, hu, hkey, -, hsent⟩ := answered_from_lastStored hm h
  refine ⟨k, u, hk, hu, hkey, hsent, ?_⟩
  intro q hihl hq hz
  have hkq := xdpKey_carries (hq.atPayload hihl) hz hk
  refine ⟨hkq, fun Q hQ hqQ stored hstored hsQ => hQ stored q hsQ hqQ ?_⟩
  rw [← hstored.key_eq, hkey, hkq]

/-- A NOERROR answer to `q` with one address record. -/
def answerBytes (q : Question) : List UInt8 :=
  [0, 0, 0x81, 0x80, 0, 1, 0, 1, 0, 0, 0, 0] ++ q.wire ++
    [0xC0, 0x0C, 0, 1, 0, 1, 0, 0, 1, 44, 0, 4, 192, 0, 2, 1]

/-- The call that stores that answer at boot time for five minutes. -/
def storeAnswer (q : Question) : CacheUpdate :=
  ⟨q.name.wire, q.qtype, q.qclass, answerBytes q, 300, 0⟩

theorem xdp_cache_sound_by_key_example :
    ∃ k u, xdpKey (queryFrame ⟨10, 0, 0, 2⟩ 7 7 exampleQuestion) = some k ∧
      lastStored [.update (storeAnswer exampleQuestion) true] k = some u ∧ u.key = k ∧
      sentPayload .little ⟨1, true, true⟩
          (run (cacheStep .little) .empty [.update (storeAnswer exampleQuestion) true])
          (queryFrame ⟨10, 0, 0, 2⟩ 7 7 exampleQuestion) =
        withId [7, 7] (u.response.take 768) ∧
      ∀ q, ihl (queryFrame ⟨10, 0, 0, 2⟩ 7 7 exampleQuestion) = 5 →
        Carries (queryFrame ⟨10, 0, 0, 2⟩ 7 7 exampleQuestion) q → q.name.NoZero →
        k = calculateXdpHash q.name.wire q.qtype q.qclass ∧
        ∀ Q : Question → Prop, KeyInjective Q → Q q →
          ∀ stored, u.IsFor stored → Q stored → stored.Same q :=
  xdp_cache_sound_by_key rfl (by decide +kernel)

/-- `ar.com`, type A, class IN. -/
def arCom : Question where
  name :=
    { labels := [[97, 114], [99, 111, 109]], label_length := by decide, wire_length := by decide }
  qtype := 1
  qclass := 1

/-- `c0.com`, type A, class IN. -/
def c0Com : Question where
  name :=
    { labels := [[99, 48], [99, 111, 109]], label_length := by decide, wire_length := by decide }
  qtype := 1
  qclass := 1

/-- **Two names can share one answer**: the answer stored for `ar.com` is sent for `c0.com`. -/
theorem xdp_cache_unsound :
    questionKey arCom = questionKey c0Com ∧ ¬ arCom.Same c0Com ∧
    (storeAnswer arCom).IsFor arCom ∧ Carries (queryFrame ⟨10, 0, 0, 2⟩ 7 7 c0Com) c0Com ∧
    AnsweredFromCache .little ⟨1, true, true⟩
      (run (cacheStep .little) .empty [.update (storeAnswer arCom) true])
      (queryFrame ⟨10, 0, 0, 2⟩ 7 7 c0Com) ∧
    sentPayload .little ⟨1, true, true⟩
      (run (cacheStep .little) .empty [.update (storeAnswer arCom) true])
      (queryFrame ⟨10, 0, 0, 2⟩ 7 7 c0Com) = withId [7, 7] (answerBytes arCom) := by
  have hcollide : questionKey arCom = questionKey c0Com :=
    @questionKey_collide arCom c0Com [2] [3, 99, 111, 109, 0] [97, 114] [99, 48]
      (letters_collide rfl) rfl rfl rfl rfl
  have hans : AnsweredFromCache .little ⟨1, true, true⟩
      (run (cacheStep .little) .empty [.update (storeAnswer arCom) true])
      (queryFrame ⟨10, 0, 0, 2⟩ 7 7 c0Com) := by
    decide +kernel
  refine ⟨hcollide, by decide, ⟨rfl, rfl, rfl⟩, queryFrame_carries _ _ _ _, hans, ?_⟩
  obtain ⟨k, u, -, hu, -, -, hsent⟩ := answered_from_lastStored rfl hans
  rcases PartialMap.put_some hu with ⟨-, rfl⟩ | ⟨-, hempty⟩
  · exact hsent
  · cases hempty

end TitanDns.Bpf
