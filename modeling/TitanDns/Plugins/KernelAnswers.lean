import TitanDns.Plugins.CacheSystem

/-!
# What the kernel sends of a response that userspace stored

An answer from `dns_cache` in a run of the whole cache: which write it comes from, and how much of
that write's bytes it carries.

* `withId_take_eq_iff` — a prefix under an ID is the whole under it only if nothing is cut off.
* `answer_from_write` — **an answer carries the bytes of a write of the run**, the last one the
  kernel took under the packet's key, cut to the map value.
* `response_verbatim_iff` — **it carries all of them exactly when there are at most 768.**
* `response_truncated` — `on_response` passes on up to 4096.
-/

namespace TitanDns

open Bpf Run CacheSystem

theorem withId_length {id resp : List UInt8} (h : 2 ≤ resp.length) :
    (withId id resp).length = id.length + (resp.length - 2) := by
  rw [withId, if_pos h, List.length_append, List.length_drop]

theorem withId_take_eq_iff (id resp : List UInt8) :
    withId id (resp.take 768) = withId id resp ↔ resp.length ≤ 768 := by
  constructor
  · intro h
    by_contra hlong
    have htake : (resp.take 768).length = 768 := by
      rw [List.length_take]
      omega
    have hlen := congrArg List.length h
    rw [withId_length (by omega), withId_length (by omega), htake] at hlen
    omega
  · intro h
    rw [List.take_of_length_le h]

section
variable {codec : Codec} {c : CachePlugin} {e : Endian} {es : List SystemEvent} {env : XdpEnv}
  {f : Frame}

/-- A call that an event makes is the call of its write. -/
theorem update_mem_kernelEvents {s : CacheSystem} {ev : SystemEvent} {u : CacheUpdate}
    (h : .update u true ∈ kernelEvents codec c s ev) :
    ∃ w, writeOf codec c s ev = some (w, true) ∧ callOf c s w = some u := by
  unfold kernelEvents at h
  split at h
  · cases List.mem_singleton.mp h
  · cases List.mem_singleton.mp h
  · split at h
    · rename_i w accepted hw
      obtain ⟨u', hu', heq⟩ := Option.map_eq_some_iff.mp (Option.mem_toList.mp h)
      cases heq
      exact ⟨w, hw, hu'⟩
    · cases h

/-- The calls, evictions and packets of a run from an empty cache. -/
def kernelTrace (codec : Codec) (c : CachePlugin) (e : Endian) (es : List SystemEvent) :
    List CacheEvent :=
  trace (systemStep codec c e) (kernelEvents codec c) .empty es

/-- The event of the run made the call, and the kernel took it. -/
def PassedOn (codec : Codec) (c : CachePlugin) (e : Endian) (es : List SystemEvent)
    (ev : SystemEvent) (u : CacheUpdate) : Prop :=
  ∃ es₁ es₂ w, es = es₁ ++ ev :: es₂ ∧
    writeOf codec c (run (systemStep codec c e) .empty es₁) ev = some (w, true) ∧
    callOf c (run (systemStep codec c e) .empty es₁) w = some u

/-- What `on_response` passes on is the encoding of the response, of at most 4096 bytes. -/
theorem respond_passes {s : CacheSystem} {clocks : Clocks} {ctx : Context} {accepted : Bool}
    {w : Write} {u : CacheUpdate}
    (hw : writeOf codec c s (.respond clocks ctx accepted) = some (w, true))
    (hcall : callOf c s w = some u) :
    ∃ resp, ctx.response = some resp ∧ u.response = CachePlugin.encoded codec resp ∧
      u.response.length ≤ CachePlugin.MAX_CACHE_ENTRY_SIZE := by
  obtain ⟨w', hw', heq⟩ := Option.map_eq_some_iff.mp hw
  cases heq
  obtain ⟨q, resp, entry, -, hresp, hentry, rfl⟩ := CachePlugin.onResponse_some hw'
  obtain ⟨hlength, -, -⟩ := CachePlugin.entryFor_some hentry
  cases callOf_call hcall
  exact ⟨resp, hresp, rfl, hlength⟩

/-- **An answer carries what an event of the run passed on.** -/
theorem answer_from_write
    (h : AnsweredFromCache e env (run (systemStep codec c e) .empty es).kernel f) :
    ∃ k u ev, xdpKey f = some k ∧ lastStored (kernelTrace codec c e es) k = some u ∧
      PassedOn codec c e es ev u ∧
      sentPayload e env (run (systemStep codec c e) .empty es).kernel f =
        withId (f.slice PAYLOAD 2) (u.response.take 768) := by
  rw [run_kernel] at h ⊢
  obtain ⟨k, u, hk, hu, -, -, hsent⟩ := answered_from_lastStored rfl h
  obtain ⟨es₁, ev, es₂, hes, hemit⟩ := mem_trace (lastStored_mem hu).2
  obtain ⟨w, hw, hcall⟩ := update_mem_kernelEvents hemit
  exact ⟨k, u, ev, hk, hu, ⟨es₁, es₂, w, hes, hw, hcall⟩, hsent⟩

/-- **An answer is the response verbatim, the ID apart, exactly when it has at most 768 bytes.** -/
theorem response_verbatim_iff
    (h : AnsweredFromCache e env (run (systemStep codec c e) .empty es).kernel f) :
    ∃ k u ev, xdpKey f = some k ∧ lastStored (kernelTrace codec c e es) k = some u ∧
      PassedOn codec c e es ev u ∧
      (∀ clocks ctx accepted, ev = .respond clocks ctx accepted →
        ∃ resp, ctx.response = some resp ∧ u.response = CachePlugin.encoded codec resp ∧
          u.response.length ≤ CachePlugin.MAX_CACHE_ENTRY_SIZE) ∧
      (sentPayload e env (run (systemStep codec c e) .empty es).kernel f =
        withId (f.slice PAYLOAD 2) u.response ↔ u.response.length ≤ 768) := by
  obtain ⟨k, u, ev, hk, hu, hpassed, hsent⟩ := answer_from_write h
  refine ⟨k, u, ev, hk, hu, hpassed, ?_, ?_⟩
  · rintro clocks ctx accepted rfl
    obtain ⟨_, _, w, -, hw, hcall⟩ := hpassed
    exact respond_passes hw hcall
  · rw [hsent]
    exact withId_take_eq_iff _ _

end

/-! ## A long response -/

/-- The frame of a client's query. -/
def clientFrame (q : Question) : Frame := queryFrame ⟨10, 0, 0, 2⟩ 7 7 q

/-- The run in which `resp` reaches the hook. -/
def storedRun (q : Question) (resp : Message) : List SystemEvent :=
  [.respond ⟨0, 0⟩ (answeredContext q resp) true]

/-- The cache after that run. -/
def storedSystem (q : Question) (resp : Message) : CacheSystem :=
  run (systemStep tableCodec exampleCache .little) .empty (storedRun q resp)

theorem response_verbatim_iff_example :
    ∃ k u ev, xdpKey (clientFrame exampleQuestion) = some k ∧
      lastStored (kernelTrace tableCodec exampleCache .little
        (storedRun exampleQuestion addressAnswer)) k = some u ∧
      PassedOn tableCodec exampleCache .little (storedRun exampleQuestion addressAnswer) ev u ∧
      (∀ clocks ctx accepted, ev = .respond clocks ctx accepted →
        ∃ resp, ctx.response = some resp ∧ u.response = CachePlugin.encoded tableCodec resp ∧
          u.response.length ≤ CachePlugin.MAX_CACHE_ENTRY_SIZE) ∧
      (sentPayload .little ⟨1, true, true⟩ (storedSystem exampleQuestion addressAnswer).kernel
          (clientFrame exampleQuestion) =
        withId ((clientFrame exampleQuestion).slice PAYLOAD 2) u.response ↔
          u.response.length ≤ 768) :=
  response_verbatim_iff (by decide +kernel)

/-- **A response of 849 bytes**: the hook accepts it, the kernel answers with 768 of them. -/
theorem response_truncated :
    (CachePlugin.encoded tableCodec textAnswer).length = 849 ∧
    AnsweredFromCache .little ⟨1, true, true⟩ (storedSystem textQuestion textAnswer).kernel
      (clientFrame textQuestion) ∧
    (exampleCache.onResponse tableCodec ⟨0, 0⟩ (answeredContext textQuestion textAnswer)).bind
      (callOf exampleCache .empty) =
        some ⟨textQuestion.name.wire, 16, 1, CachePlugin.encoded tableCodec textAnswer, 300, 0⟩ ∧
    sentPayload .little ⟨1, true, true⟩ (storedSystem textQuestion textAnswer).kernel
        (clientFrame textQuestion) =
      withId [7, 7] ((CachePlugin.encoded tableCodec textAnswer).take 768) ∧
    sentPayload .little ⟨1, true, true⟩ (storedSystem textQuestion textAnswer).kernel
        (clientFrame textQuestion) ≠
      withId [7, 7] (CachePlugin.encoded tableCodec textAnswer) := by
  have hlength : (CachePlugin.encoded tableCodec textAnswer).length = 849 := by decide +kernel
  have hsent : sentPayload .little ⟨1, true, true⟩ (storedSystem textQuestion textAnswer).kernel
      (clientFrame textQuestion) =
        withId [7, 7] ((CachePlugin.encoded tableCodec textAnswer).take 768) := by
    decide +kernel
  refine ⟨hlength, by decide +kernel, by decide +kernel, hsent, ?_⟩
  rw [hsent]
  intro hsame
  have := (withId_take_eq_iff _ _).mp hsame
  omega

end TitanDns
