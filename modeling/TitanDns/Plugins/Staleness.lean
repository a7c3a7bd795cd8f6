import TitanDns.Plugins.KernelAnswers
import TitanDns.Plugins.Persistence

/-!
# How stale an answer can be

Both layers over the lives of a cache with its file: the userspace store, in Unix seconds, and the
kernel cache, in nanoseconds since boot.

* `kernelCalls`, `lastCalls` — what the kernel maps see of an event, and the call that last stored
  under each key since they were created; `run_kernelAccounted` — **the kernel cache holds nothing
  else.**
* `ServedInTime` — what is served at an event is within its lifetime and the stale window.
* `OutOfGrace` — a packet finds no kernel entry in the last seconds of its life, as many as the
  kernel gives beyond the stale window; `packet_inTime`, `outOfGrace_of_inTime` — **it is answered
  in time, and otherwise not**, where nothing overflows.
* `staleness_bounded` — **in a run without packets in the grace period every answer is in time**;
  `late_answer` — the kernel gives every entry a minute, whatever the stale window is.
-/

namespace TitanDns

open Bpf Run CacheSystem CachePlugin PersistentSystem

section
variable (codec : Codec) (c : CachePlugin)

/-! ## The kernel maps -/

/-- What the kernel maps see of an event; `none` where they are created anew. -/
def kernelCalls (s : PersistentSystem) : PersistentEvent → List (Option CacheEvent)
  | .system ev => (kernelEvents codec c s.system ev).map some
  | .save _ => []
  | .restart => [none]
  | .restore _ _ => []
  | .warm key clocks accepted =>
    if c.xdpFilter && c.xdpCacheEnabled then
      ((warmCall codec s.system key clocks).map fun call => some (.update call.1 accepted)).toList
    else []

/-- The maps after it. -/
def mapsStep (e : Endian) (m : KernelMaps) : Option CacheEvent → KernelMaps
  | none => .empty
  | some ev => cacheStep e m ev

/-- The calls they have taken, by key. -/
def callsStep (h : UInt64 → Option CacheUpdate) : Option CacheEvent → UInt64 → Option CacheUpdate
  | none => PartialMap.empty
  | some ev => historyStep h ev

/-- The state of the cache after the events. -/
def stateAfter (e : Endian) (es : List PersistentEvent) : PersistentSystem :=
  run (persistentStep codec c e) .empty es

/-- The call that last stored under each key since the maps were created. -/
def lastCalls (e : Endian) (es : List PersistentEvent) : UInt64 → Option CacheUpdate :=
  run callsStep PartialMap.empty
    (trace (persistentStep codec c e) (kernelCalls codec c) .empty es)

end

section
variable {codec : Codec} {c : CachePlugin} {e : Endian}

theorem run_mapsStep_some (m : KernelMaps) (evs : List CacheEvent) :
    run (mapsStep e) m (evs.map some) = run (cacheStep e) m evs := by
  unfold run
  rw [List.foldl_map]
  rfl

theorem warm_kernel (s : CacheSystem) (key : QueryKey) (clocks : Clocks) (accepted : Bool)
    (hon : (c.xdpFilter && c.xdpCacheEnabled) = true) :
    (warm codec c s key clocks accepted).kernel =
      match warmCall codec s key clocks with
      | none => s.kernel
      | some (u, _) => (updateCache s.kernel u accepted).1 := by
  unfold warm
  rw [if_pos hon]
  cases warmCall codec s key clocks with
  | none => rfl
  | some call =>
    cases accepted with
    | true => rfl
    | false => rfl

/-- **The kernel maps move by these calls only.** -/
theorem persistentStep_kernel (s : PersistentSystem) (ev : PersistentEvent) :
    (persistentStep codec c e s ev).system.kernel =
      run (mapsStep e) s.system.kernel (kernelCalls codec c s ev) := by
  cases ev with
  | system ev =>
    show (systemStep codec c e s.system ev).kernel = _
    rw [step_kernel, kernelCalls, run_mapsStep_some]
  | save keys => rfl
  | restart => rfl
  | restore now i =>
    show (restore codec c s now i).system.kernel = s.system.kernel
    unfold restore
    split
    · rfl
    · split <;> rfl
  | warm key clocks accepted =>
    show (warm codec c s.system key clocks accepted).kernel = _
    by_cases hon : (c.xdpFilter && c.xdpCacheEnabled) = true
    · rw [kernelCalls, if_pos hon, warm_kernel s.system key clocks accepted hon]
      cases warmCall codec s.system key clocks with
      | none => rfl
      | some call => rfl
    · rw [kernelCalls, if_neg hon, warm, if_neg hon]
      rfl

/-- **The kernel cache holds nothing but what was stored last.** -/
theorem run_kernelAccounted (es : List PersistentEvent) :
    PartialMap.Accounted Stands (stateAfter codec c e es).system.kernel.dnsCache
      (lastCalls codec c e es) := by
  have hmaps : (stateAfter codec c e es).system.kernel = run (mapsStep e) .empty
      (trace (persistentStep codec c e) (kernelCalls codec c) .empty es) :=
    @run_trace _ _ _ _ _ _ (mapsStep e) (fun s : PersistentSystem => s.system.kernel)
      persistentStep_kernel .empty es
  have hstep : ∀ (m : KernelMaps) h call, PartialMap.Accounted Stands m.dnsCache h →
      PartialMap.Accounted Stands (mapsStep e m call).dnsCache (callsStep h call) := by
    intro m h call hm
    cases call with
    | none => exact PartialMap.Accounted.empty _
    | some ev => exact cacheStep_accounted hm ev
  rw [hmaps]
  exact @simulation _ _ _ _ _
    (fun (m : KernelMaps) h => PartialMap.Accounted Stands m.dnsCache h) hstep _ _
    (PartialMap.Accounted.empty _) _

/-- **An answer is what was stored last under the packet's key.** -/
theorem answered_from_lastCall {es : List PersistentEvent} {env : XdpEnv} {f : Frame}
    (h : AnsweredFromCache e env (stateAfter codec c e es).system.kernel f) :
    ∃ k entry u, xdpKey f = some k ∧
      (stateAfter codec c e es).system.kernel.dnsCache k = some entry ∧ entry.Answers env ∧
      lastCalls codec c e es k = some u ∧ entry.expireNs = u.entry.expireNs ∧
      sentPayload e env (stateAfter codec c e es).system.kernel f =
        withId (f.slice PAYLOAD 2) (u.response.take 768) := by
  obtain ⟨k, entry, hk, hentry, hans, hsent⟩ := titanDnsFilter_tx h.1 h.2
  obtain ⟨u, hu, -, ts, rfl⟩ := run_kernelAccounted es k entry hentry
  exact ⟨k, _, u, hk, hentry, hans, hu, rfl, hsent.trans (congrArg _ u.entry_response)⟩

end

/-! ## In time -/

section
variable (codec : Codec) (c : CachePlugin) (e : Endian)

/-- The kernel sends the response of `u` no later than its lifetime and the stale window allow. -/
def SentInTime (env : XdpEnv) (u : CacheUpdate) : Prop :=
  env.now.toNat ≤ u.nowNs.toNat + (u.ttlSecs.toNat + c.staleWindow) * 1000000000

/-- Whatever is served at this event, after those before it, is served in time. -/
def ServedInTime (before : List PersistentEvent) : PersistentEvent → Prop
  | .system (.lookup now ctx) => ∀ entry,
      Serves codec c (stateAfter codec c e before).system now ctx entry →
        now - entry.timestamp < entry.ttl + c.staleWindow
  | .system (.packet env f) =>
      AnsweredFromCache e env (stateAfter codec c e before).system.kernel f →
        ∃ k u, xdpKey f = some k ∧ lastCalls codec c e before k = some u ∧
          sentPayload e env (stateAfter codec c e before).system.kernel f =
            withId (f.slice PAYLOAD 2) (u.response.take 768) ∧ SentInTime c env u
  | _ => True

/-- No packet finds a kernel entry that would answer it in the last seconds of its life: a minute,
less the stale window. -/
def OutOfGrace (s : PersistentSystem) : PersistentEvent → Prop
  | .system (.packet env f) => ∀ k entry, xdpKey f = some k →
      s.system.kernel.dnsCache k = some entry → entry.Answers env →
        env.now.toNat + (60 - c.staleWindow) * 1000000000 ≤ entry.expireNs.toNat
  | _ => True

end

section
variable {codec : Codec} {c : CachePlugin} {e : Endian}

/-- The sums of `update_cache` do not overflow. -/
def NoOverflow (u : CacheUpdate) : Prop :=
  u.nowNs.toNat + (u.ttlSecs.toNat + 60) * 1000000000 < 2 ^ 64

/-- The end of an entry, in `u64`. -/
theorem expireNs_toNat (u : CacheUpdate) : u.entry.expireNs.toNat =
    (u.nowNs.toNat + (u.ttlSecs.toNat + 60) * 1000000000) % 2 ^ 64 := by
  have hsecs : (u.ttlSecs + 60).toNat = (u.ttlSecs.toNat + 60) % 2 ^ 64 := UInt64.toNat_add _ _
  have hlife : ((u.ttlSecs + 60) * 1000000000).toNat =
      (u.ttlSecs + 60).toNat * 1000000000 % 2 ^ 64 := UInt64.toNat_mul _ _
  show (u.nowNs + (u.ttlSecs + 60) * 1000000000).toNat = _
  rw [UInt64.toNat_add, hlife, hsecs]
  omega

/-- **A packet out of the grace period is answered in time.** -/
theorem packet_inTime {before : List PersistentEvent} {env : XdpEnv} {f : Frame}
    (h : OutOfGrace c (stateAfter codec c e before) (.system (.packet env f))) :
    ServedInTime codec c e before (.system (.packet env f)) := by
  intro hans
  obtain ⟨k, entry, u, hk, hentry, hlive, hu, hexpire, hsent⟩ := answered_from_lastCall hans
  refine ⟨k, u, hk, hu, hsent, ?_⟩
  have htime := h k entry hk hentry hlive
  rw [hexpire, expireNs_toNat] at htime
  unfold SentInTime
  omega

/-- **Where nothing overflows, only such a packet is.** -/
theorem outOfGrace_of_inTime {before : List PersistentEvent} {env : XdpEnv} {f : Frame}
    (hans : AnsweredFromCache e env (stateAfter codec c e before).system.kernel f)
    (hsums : ∀ k u, lastCalls codec c e before k = some u → NoOverflow u)
    (h : ServedInTime codec c e before (.system (.packet env f))) :
    OutOfGrace c (stateAfter codec c e before) (.system (.packet env f)) := by
  intro k entry hk hentry hlive
  obtain ⟨k', u, hk', hu, -, htime⟩ := h hans
  rw [hk] at hk'
  cases hk'
  obtain ⟨u', hu', -, ts, rfl⟩ := run_kernelAccounted before k entry hentry
  rw [hu] at hu'
  cases hu'
  have hsum := hsums k u hu
  have hend := hlive.live
  have hle := UInt64.le_iff_toNat_le.mp hend
  unfold NoOverflow at hsum
  unfold SentInTime at htime
  change _ ≤ u.entry.expireNs.toNat at hle
  change _ ≤ u.entry.expireNs.toNat
  rw [expireNs_toNat, Nat.mod_eq_of_lt hsum] at hle ⊢
  omega

end

/-- **Every answer of either layer is in time** in a run without packets in the grace period. -/
theorem staleness_bounded (codec : Codec) (c : CachePlugin) (e : Endian)
    (es : List PersistentEvent)
    (hes : Meets (persistentStep codec c e) (OutOfGrace c) .empty es) :
    ∀ before ev rest, es = before ++ ev :: rest → ServedInTime codec c e before ev := by
  rintro before ev rest rfl
  have hgrace := hes.at_cut
  match ev with
  | .system (.lookup now ctx) =>
    intro entry hserves
    exact serve_within hserves.2
  | .system (.packet env f) => exact packet_inTime hgrace
  | .system (.respond ..) | .system (.insert ..) | .system (.pollRefresh ..)
  | .system (.finish ..) | .system .purge | .system (.evict ..) | .system (.evictHash ..)
  | .system (.evictKernel ..) | .save _ | .restart | .restore .. | .warm .. => trivial

/-! ## A minute of grace -/

/-- An answer for five minutes is stored at boot. -/
def bootRun : List PersistentEvent :=
  [.system (.respond ⟨0, 0⟩ (answeredContext exampleQuestion addressAnswer) true)]

/-- A packet asks for it. -/
def packetAt (now : UInt64) : PersistentEvent :=
  .system (.packet ⟨now, true, true⟩ (clientFrame exampleQuestion))

/-- What the kernel holds for it lives for six. -/
theorem bootRun_expires :
    ((xdpKey (clientFrame exampleQuestion)).bind
      (stateAfter tableCodec exampleCache .little bootRun).system.kernel.dnsCache).map
        (·.expireNs) = some 360000000000 := by
  decide +kernel

/-- In its last second the answer is in time. -/
theorem staleness_bounded_last :
    ServedInTime tableCodec exampleCache .little bootRun (packetAt 300000000000) := by
  have hgrace : OutOfGrace exampleCache (stateAfter tableCodec exampleCache .little bootRun)
      (packetAt 300000000000) := by
    intro k entry hk hentry hlive
    have hexpires := bootRun_expires
    rw [hk, Option.bind_some, hentry] at hexpires
    have hend : entry.expireNs = 360000000000 := Option.some.inj hexpires
    rw [hend]
    decide
  exact staleness_bounded tableCodec exampleCache .little (bootRun ++ [packetAt 300000000000])
    ⟨trivial, hgrace, trivial⟩ bootRun (packetAt 300000000000) [] rfl

/-- **Half a minute later** it is still sent, though nothing is to be served stale. -/
theorem late_answer :
    exampleCache.serveStaleTtl = 0 ∧
    ¬ ServedInTime tableCodec exampleCache .little bootRun (packetAt 330000000000) := by
  refine ⟨rfl, ?_⟩
  intro h
  have hlast : ((xdpKey (clientFrame exampleQuestion)).bind
      (lastCalls tableCodec exampleCache .little bootRun)).map (fun u => (u.nowNs, u.ttlSecs)) =
        some (0, 300) := by
    decide +kernel
  obtain ⟨k, u, hk, hu, -, htime⟩ := h (by decide +kernel)
  rw [hk, Option.bind_some, hu] at hlast
  obtain ⟨hnow, httl⟩ := Prod.mk.inj (Option.some.inj hlast)
  unfold SentInTime at htime
  rw [hnow, httl] at htime
  revert htime
  decide

end TitanDns
