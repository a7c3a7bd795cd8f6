import TitanDns.Autopilot.DomainMemory
import TitanDns.Lib.Run

/-!
# What the domain memory keeps to

The tables of `DomainMemory` over every sequence of results, lookups and cleanups.

* `isExpired_eq`, `remainingTtl_eq` — **no subtraction underflows**; `expired_left` — an expired
  entry has no time left.
* `Averages` — an entry against the latencies it comes from; `update_averages` — **the average stays
  between the least and the greatest of them.**
* `Thins`, `Advances` — what a call does to a table: it stores its result, and then entries go.
* `MemoryHistory` — a run, with the latencies recorded for each best upstream since it became that.
* `MemorySound` — what is said of a run.

Principal result: `memory_sound` — **every run with fewer than 2^32 - 1 results for a name is
sound.**
-/

namespace TitanDns.Autopilot

open Run

/-! ## Lifetimes -/

theorem baseDomainTtlSecs_le (boost : Nat) : baseDomainTtlSecs boost ≤ 10800 := Nat.min_le_right _ _

namespace DomainMemory

/-- The value of `ttlSecs`. -/
def lifetime (m : DomainMemory) (boost : Nat) : Nat :=
  baseDomainTtlSecs boost +
    min (m.successCount.toNat * DOMAIN_MEMORY_HOT_FACTOR) (86400 - baseDomainTtlSecs boost)

theorem ttlSecs_eq (m : DomainMemory) (boost : Nat) : m.ttlSecs boost = .ok (m.lifetime boost) := by
  have hbase := baseDomainTtlSecs_le boost
  unfold ttlSecs
  rw [subU64_eq (by omega)]
  rfl

theorem lifetime_le (m : DomainMemory) (boost : Nat) : m.lifetime boost ≤ 86400 := by
  have hbase := baseDomainTtlSecs_le boost
  unfold lifetime
  omega

theorem isExpired_eq (m : DomainMemory) (boost : Nat) (now : Instant) :
    m.isExpired boost now = .ok (decide (m.lifetime boost * SECOND < now.since m.lastUpdate)) := by
  unfold isExpired
  rw [ttlSecs_eq]
  rfl

/-- The seconds between two instants are an `i64`. -/
theorem since_seconds_lt (now earlier : Instant) : now.since earlier / SECOND < 2 ^ 63 := by
  have hnow := now.latest
  have hearlier := earlier.earliest
  rw [Nat.div_lt_iff_lt_mul (by decide)]
  unfold Instant.since HORIZON SECOND at *
  omega

theorem remainingTtl_eq (m : DomainMemory) (boost : Nat) (now : Instant) :
    m.remainingTtl boost now =
      .ok (m.lifetime boost - (now.since m.lastUpdate / SECOND : Nat) : Int) := by
  have hlifetime := m.lifetime_le boost
  have helapsed := since_seconds_lt now m.lastUpdate
  unfold remainingTtl
  rw [ttlSecs_eq]
  show subI64 (asI64 (m.lifetime boost)) (asI64 (now.since m.lastUpdate / SECOND)) = _
  generalize now.since m.lastUpdate / SECOND = elapsed at helapsed
  rw [asI64_eq (by omega), asI64_eq helapsed, subI64_eq (by omega) (by omega)]

/-- **An expired entry has no time left**, and one with time left is not expired. -/
theorem expired_left (m : DomainMemory) (boost : Nat) (now : Instant) :
    ∃ expired left, m.isExpired boost now = .ok expired ∧ m.remainingTtl boost now = .ok left ∧
      (expired = true → left ≤ 0) ∧ (0 < left → expired = false) := by
  refine ⟨_, _, m.isExpired_eq boost now, m.remainingTtl_eq boost now, ?_⟩
  have hpos : 0 < SECOND := by decide
  generalize now.since m.lastUpdate = elapsed
  generalize m.lifetime boost = ttl
  have himp : ttl * SECOND < elapsed → ttl ≤ elapsed / SECOND := fun h =>
    (Nat.le_div_iff_mul_le hpos).mpr (Nat.le_of_lt h)
  generalize elapsed / SECOND = seconds at himp
  rw [decide_eq_true_eq, decide_eq_false_iff_not]
  constructor
  · intro h
    have := himp h
    omega
  · intro hleft h
    have := himp h
    omega

end DomainMemory

/-! ## Averages -/

/-- A running average moves towards the latency, and not past it. -/
theorem average_between (avg count latency : Nat) :
    min avg latency ≤ (avg * count + latency) / (count + 1) ∧
      (avg * count + latency) / (count + 1) ≤ max avg latency := by
  constructor
  · rw [Nat.le_div_iff_mul_le (show 0 < count + 1 by omega), Nat.mul_add, Nat.mul_one]
    exact Nat.add_le_add (Nat.mul_le_mul_right count (Nat.min_le_left _ _)) (Nat.min_le_right _ _)
  · apply Nat.div_le_of_le_mul
    rw [Nat.add_mul, Nat.one_mul, Nat.mul_comm count]
    exact Nat.add_le_add (Nat.mul_le_mul_right count (Nat.le_max_left _ _)) (Nat.le_max_right _ _)

/-- An entry and the latencies it comes from. -/
structure Averages (m : DomainMemory) (samples : List Nat) : Prop where
  least : ∃ l ∈ samples, l ≤ m.avgLatency
  greatest : ∃ l ∈ samples, m.avgLatency ≤ l
  count : m.successCount.toNat = samples.length
  small : ∀ l ∈ samples, l ≤ CLIENT_MEMORY_MAX_LATENCY_MS

/-- The latencies recorded for the best upstream since it became that: `before` and `after` are the
best upstreams before and after a call, `recorded` what the call records for an upstream. -/
def sinceBest (before after : Option String) (samples : List Nat) (recorded : String → List Nat) :
    List Nat :=
  match after with
  | some upstream =>
    if before = some upstream then samples ++ recorded upstream else recorded upstream
  | none => []

/-- What a result of a key is for an upstream. -/
def recordedAs (upstream : String) (latency : Nat) (upstream' : String) : List Nat :=
  if upstream = upstream' then [latency] else []

theorem averages_new (now : Instant) (upstream : String) {latency : Nat}
    (h : latency ≤ CLIENT_MEMORY_MAX_LATENCY_MS) :
    Averages (.new now upstream latency) [latency] where
  least := ⟨latency, List.mem_singleton_self _, Nat.le_refl _⟩
  greatest := ⟨latency, List.mem_singleton_self _, Nat.le_refl _⟩
  count := rfl
  small l hl := by rwa [List.mem_singleton.mp hl]

/-- An entry that counts one latency more, with the average it then has. -/
theorem Averages.append {m m' : DomainMemory} {samples : List Nat} (h : Averages m samples)
    {latency : Nat} (hlatency : latency ≤ CLIENT_MEMORY_MAX_LATENCY_MS)
    (havg : m'.avgLatency =
      (m.avgLatency * m.successCount.toNat + latency) / (m.successCount.toNat + 1))
    (hcount : m'.successCount.toNat = m.successCount.toNat + 1) :
    Averages m' (samples ++ [latency]) := by
  obtain ⟨l, hl, hleast⟩ := h.least
  obtain ⟨g, hg, hgreatest⟩ := h.greatest
  obtain ⟨hlow, hhigh⟩ := average_between m.avgLatency m.successCount.toNat latency
  rw [← havg] at hlow hhigh
  have hlast : latency ∈ samples ++ [latency] :=
    List.mem_append_right _ (List.mem_singleton_self _)
  constructor
  · rcases Nat.le_total m.avgLatency latency with hle | hle
    · exact ⟨l, List.mem_append_left _ hl, by omega⟩
    · exact ⟨latency, hlast, by omega⟩
  · rcases Nat.le_total m.avgLatency latency with hle | hle
    · exact ⟨latency, hlast, by omega⟩
    · exact ⟨g, List.mem_append_left _ hg, by omega⟩
  · rw [hcount, h.count, List.length_append]
    rfl
  · intro l' hl'
    rcases List.mem_append.mp hl' with hl' | hl'
    · exact h.small l' hl'
    · rwa [List.mem_singleton.mp hl']

/-- An update for the best upstream does not overflow. -/
theorem update_same {m : DomainMemory} (now : Instant) {latency : Nat}
    (havg : m.avgLatency ≤ 120) (hlatency : latency ≤ 120)
    (hfew : m.successCount.toNat + 1 < 2 ^ 32) :
    ∃ m', m.update now m.bestUpstream latency = .ok m' ∧ m'.bestUpstream = m.bestUpstream ∧
      m'.avgLatency =
        (m.avgLatency * m.successCount.toNat + latency) / (m.successCount.toNat + 1) ∧
      m'.successCount.toNat = m.successCount.toNat + 1 := by
  have hone : (1 : UInt32).toNat = 1 := rfl
  have hweighted : m.avgLatency * m.successCount.toNat ≤ 120 * m.successCount.toNat :=
    Nat.mul_le_mul_right _ havg
  have hnext : (m.successCount + 1).toNat = m.successCount.toNat + 1 := by
    rw [UInt32.toNat_add]
    exact Nat.mod_eq_of_lt (by omega)
  refine ⟨{ m with
    avgLatency := (m.avgLatency * m.successCount.toNat + latency) / (m.successCount + 1).toNat,
    successCount := m.successCount + 1, lastUpdate := now }, ?_, rfl, ?_, hnext⟩
  · unfold DomainMemory.update
    rw [if_pos rfl, mulU64_eq (by omega)]
    simp only [bind, Except.bind]
    rw [addU64_eq (by omega)]
    simp only
    rw [addU32_eq (by omega)]
    rfl
  · show _ / (m.successCount + 1).toNat = _
    rw [hnext]

/-- **An update keeps the average between the latencies**, and does not overflow. -/
theorem update_averages {m : DomainMemory} {samples : List Nat} (h : Averages m samples)
    (now : Instant) (upstream : String) {latency : Nat}
    (hlatency : latency ≤ CLIENT_MEMORY_MAX_LATENCY_MS) (hfew : samples.length + 1 < 2 ^ 32) :
    ∃ m', m.update now upstream latency = .ok m' ∧
      Averages m' (sinceBest (some m.bestUpstream) (some m'.bestUpstream) samples
        (recordedAs upstream latency)) := by
  by_cases hsame : upstream = m.bestUpstream
  · subst hsame
    obtain ⟨g, hg, hgreatest⟩ := h.greatest
    have havg : m.avgLatency ≤ 120 := Nat.le_trans hgreatest (h.small g hg)
    obtain ⟨m', hupdate, hbest, havg', hcount⟩ :=
      update_same now havg hlatency (by rw [h.count]; exact hfew)
    refine ⟨m', hupdate, ?_⟩
    unfold sinceBest recordedAs
    simp only [hbest, if_true]
    exact h.append hlatency havg' hcount
  · by_cases hfaster : latency < m.avgLatency
    · refine ⟨_, by rw [DomainMemory.update, if_neg hsame, if_pos hfaster], ?_⟩
      have hne : ¬ some m.bestUpstream = some upstream :=
        fun heq => hsame (Option.some.inj heq).symm
      unfold sinceBest recordedAs
      simp only [if_neg hne, if_true]
      exact averages_new now upstream hlatency
    · refine ⟨_, by rw [DomainMemory.update, if_neg hsame, if_neg hfaster], ?_⟩
      unfold sinceBest recordedAs
      simp only [if_true, if_neg hsame, List.append_nil]
      exact ⟨h.least, h.greatest, h.count, h.small⟩

/-! ## Cleanups -/

/-- Entries go, and those that stay are as they were. -/
def Thins (t t' : MemoryTable) : Prop := ∀ k m, t'.get k = some m → t.get k = some m

theorem Thins.refl (t : MemoryTable) : Thins t t := fun _ _ h => h

theorem Thins.trans {t t' t'' : MemoryTable} (h : Thins t t') (h' : Thins t' t'') : Thins t t'' :=
  fun k m hm => h k m (h' k m hm)

/-- **An eviction ends within the capacity.** -/
theorem evict_ok (t : MemoryTable) (boost : Nat) (env : Moment) (capacity : Nat) :
    ∃ t', evict t boost env capacity = .ok t' ∧ Thins t t' ∧ t'.size ≤ capacity := by
  unfold evict
  by_cases hover : capacity < t.size
  · let left (e : (_ : String) × DomainMemory) : String × Int :=
      (e.1, e.2.lifetime boost - ((env.ranked e.1).since e.2.lastUpdate / SECOND : Nat))
    let sorted := ((env.order.order t.entries).map left).mergeSort fun a b => a.2 ≤ b.2
    have hperm : (sorted.map (·.1)).Perm t.keys := by
      have hsorted := (List.mergeSort_perm ((env.order.order t.entries).map left)
        fun a b => a.2 ≤ b.2).map (·.1)
      have hentries := (env.order.perm t.entries).map Sigma.fst
      rw [List.map_map] at hsorted
      exact hsorted.trans hentries
    have hsub : ((sorted.take (t.size - capacity)).map (·.1)).Sublist (sorted.map (·.1)) :=
      (List.take_sublist _ _).map _
    have hnodup : ((sorted.take (t.size - capacity)).map (·.1)).Nodup :=
      (hperm.nodup_iff.mpr t.keys_nodup).sublist hsub
    have hsize := Table.size_removeAll hnodup fun k hk => hperm.mem_iff.mp (hsub.subset hk)
    have hlength : ((sorted.take (t.size - capacity)).map (·.1)).length = t.size - capacity := by
      have hall : sorted.length = t.size := by
        rw [← List.length_map (fun e : String × Int => e.1), hperm.length_eq]
        rfl
      rw [List.length_map, List.length_take, hall]
      omega
    refine ⟨t.removeAll ((sorted.take (t.size - capacity)).map (·.1)), ?_,
      fun k m h => Table.get_removeAll t h, by omega⟩
    rw [if_pos hover, subU64_eq (by omega)]
    simp only [DomainMemory.remainingTtl_eq, bind, Except.bind, pure, Except.pure]
    rw [Table.mapM_ok]
  · exact ⟨t, if_neg hover, Thins.refl t, by omega⟩

/-- **So does a cleanup.** -/
theorem cleanup_ok (t : MemoryTable) (boost : Nat) (env : Moment) (capacity : Nat) :
    ∃ t', cleanup t boost env capacity = .ok t' ∧ Thins t t' ∧ t'.size ≤ capacity := by
  unfold cleanup
  simp only [DomainMemory.isExpired_eq, bind, Except.bind, pure, Except.pure]
  rw [Table.retainM_ok]
  obtain ⟨t', ht', hthins, hsize⟩ := evict_ok _ boost env capacity
  exact ⟨t', ht', fun k m h => Table.get_retain t _ (hthins k m h), hsize⟩

/-! ## Tables and their latencies -/

/-- The best upstream of a key. -/
def bestOf (t : MemoryTable) (key : String) : Option String := (t.get key).map (·.bestUpstream)

/-- A result of a key: its upstream and its latency. -/
structure MemorySample where
  key : String
  upstream : String
  latency : Nat

/-- What a call records for an upstream of a key. -/
def MemorySample.latencies (r : Option MemorySample) (key upstream : String) : List Nat :=
  match r with
  | some r => if r.key = key then recordedAs r.upstream r.latency upstream else []
  | none => []

/-- Every entry is the average of its latencies, of which there are no more than the results of its
key. -/
structure Tracked (t : MemoryTable) (samples : String → List Nat) (results : String → Nat) :
    Prop where
  averages : ∀ k m, t.get k = some m → Averages m (samples k)
  few : ∀ k m, t.get k = some m → (samples k).length ≤ results k

/-- What a call does to a table: it stores its result, and then entries go. -/
def Advances (t : MemoryTable) (now : Instant) (r : Option MemorySample) (t' : MemoryTable) :
    Prop :=
  ∃ stored, (match r with
    | some r => store t now r.key r.upstream r.latency = .ok stored
    | none => stored = t) ∧ Thins stored t'

/-- How many results of a key there are. -/
def MemorySample.count (r : Option MemorySample) (key : String) : Nat :=
  match r with
  | some r => if r.key = key then 1 else 0
  | none => 0

theorem MemorySample.latencies_length (r : Option MemorySample) (key upstream : String) :
    (MemorySample.latencies r key upstream).length ≤ MemorySample.count r key := by
  unfold MemorySample.latencies MemorySample.count recordedAs
  cases r with
  | none => exact Nat.le_refl _
  | some r =>
    by_cases hk : r.key = key
    · simp only [if_pos hk]
      split <;> simp
    · simp only [if_neg hk, List.length_nil, Nat.le_refl]

/-- A stored result: the entry of its key is the average of its latencies, and the others are as
they were. -/
theorem store_ok {t : MemoryTable} {samples : String → List Nat} {results : String → Nat}
    (h : Tracked t samples results) (now : Instant) {r : MemorySample}
    (hlatency : r.latency ≤ CLIENT_MEMORY_MAX_LATENCY_MS) (hfew : results r.key + 1 < 2 ^ 32) :
    ∃ t', store t now r.key r.upstream r.latency = .ok t' ∧ t'.size ≤ t.size + 1 ∧
      ∀ k m, t'.get k = some m → Averages m (sinceBest (bestOf t k) (some m.bestUpstream)
        (samples k) (MemorySample.latencies (some r) k)) := by
  -- an entry of another key
  have hother : ∀ v k m, k ≠ r.key → (t.put r.key v).get k = some m →
      Averages m (sinceBest (bestOf t k) (some m.bestUpstream) (samples k)
        (MemorySample.latencies (some r) k)) := by
    intro v k m hk hm
    rw [Table.get_put_of_ne t v hk] at hm
    have hkeep : sinceBest (bestOf t k) (some m.bestUpstream) (samples k)
        (MemorySample.latencies (some r) k) = samples k := by
      simp [sinceBest, bestOf, hm, MemorySample.latencies, Ne.symm hk]
    rw [hkeep]
    exact h.averages k m hm
  have hown : MemorySample.latencies (some r) r.key = recordedAs r.upstream r.latency :=
    funext fun _ => if_pos rfl
  unfold store
  cases hget : t.get r.key with
  | none =>
    refine ⟨_, rfl, Table.size_put_le t _ _, fun k m hm => ?_⟩
    by_cases hk : k = r.key
    · subst hk
      rw [Table.get_put_self] at hm
      obtain rfl := Option.some.inj hm
      have hnew : sinceBest (bestOf t r.key) (some r.upstream) (samples r.key)
          (MemorySample.latencies (some r) r.key) = [r.latency] := by
        simp [sinceBest, bestOf, hget, hown, recordedAs]
      show Averages _ (sinceBest (bestOf t r.key) (some r.upstream) _ _)
      rw [hnew]
      exact averages_new now r.upstream hlatency
    · exact hother _ k m hk hm
  | some old =>
    have hlength := h.few r.key old hget
    obtain ⟨updated, hupdate, hupdated⟩ :=
      update_averages (h.averages r.key old hget) now r.upstream hlatency (by omega)
    refine ⟨t.put r.key updated, ?_, Table.size_put_le t _ _, fun k m hm => ?_⟩
    · simp only [hupdate, bind, Except.bind, pure, Except.pure]
    · by_cases hk : k = r.key
      · subst hk
        rw [Table.get_put_self] at hm
        obtain rfl := Option.some.inj hm
        have hbest : bestOf t r.key = some old.bestUpstream := by rw [bestOf, hget]; rfl
        rwa [hbest, hown]
      · exact hother _ k m hk hm

/-- **What a call leaves in a table is the average of its latencies.** -/
theorem Tracked.advance {t t' : MemoryTable} {samples : String → List Nat} {results : String → Nat}
    (h : Tracked t samples results) {now : Instant} {r : Option MemorySample}
    (hlatency : ∀ x ∈ r, x.latency ≤ CLIENT_MEMORY_MAX_LATENCY_MS)
    (hfew : ∀ x ∈ r, results x.key + 1 < 2 ^ 32) (ht : Advances t now r t') :
    Tracked t'
      (fun k => sinceBest (bestOf t k) (bestOf t' k) (samples k) (MemorySample.latencies r k))
      (fun k => results k + MemorySample.count r k) := by
  obtain ⟨stored, hstored, hthins⟩ := ht
  have hentry : ∀ k m, stored.get k = some m → Averages m (sinceBest (bestOf t k)
      (some m.bestUpstream) (samples k) (MemorySample.latencies r k)) := by
    cases r with
    | none =>
      obtain rfl := hstored
      intro k m hm
      have hkeep : sinceBest (bestOf stored k) (some m.bestUpstream) (samples k)
          (MemorySample.latencies none k) = samples k := by
        simp [sinceBest, bestOf, hm, MemorySample.latencies]
      rw [hkeep]
      exact h.averages k m hm
    | some r =>
      obtain ⟨t'', ht'', -, hall⟩ := store_ok h now (hlatency r rfl) (hfew r rfl)
      obtain rfl : t'' = stored := Except.ok.inj (ht''.symm.trans hstored)
      exact hall
  have hbest : ∀ k m, t'.get k = some m → bestOf t' k = some m.bestUpstream := by
    intro k m hm
    rw [bestOf, hm]
    rfl
  constructor
  · intro k m hm
    rw [hbest k m hm]
    exact hentry k m (hthins k m hm)
  · intro k m hm
    rw [hbest k m hm]
    have hcount := MemorySample.latencies_length r k m.bestUpstream
    unfold sinceBest
    simp only
    split
    · rename_i hbefore
      obtain ⟨old, hold, -⟩ := Option.map_eq_some_iff.mp hbefore
      have hlength := h.few k old hold
      rw [List.length_append]
      omega
    · omega

/-! ## Calls -/

inductive MemoryCall where
  | record (domainLower upstream : String) (latencyMs : Nat)
  | recordForClient (domainLower upstream : String) (latencyMs : Nat) (clientIp : IpAddr)
  | lookup (domainLower : String)
  | lookupForClient (domainLower : String) (clientIp : IpAddr)
  | cleanupDomains
  | cleanupClients

/-- What a call records for a domain: results that are slow are not recorded. -/
def MemoryCall.domainResult : MemoryCall → Option MemorySample
  | .record domainLower upstream latencyMs =>
    if DOMAIN_MEMORY_MAX_LATENCY_MS < latencyMs then none
    else some ⟨trimDots domainLower, upstream, latencyMs⟩
  | .recordForClient domainLower upstream latencyMs _ =>
    if CLIENT_MEMORY_MAX_LATENCY_MS < latencyMs then none
    else some ⟨trimDots domainLower, upstream, latencyMs⟩
  | _ => none

/-- What a call records for a domain and a subnet. -/
def MemoryCall.clientResult : MemoryCall → Option MemorySample
  | .recordForClient domainLower upstream latencyMs clientIp =>
    if CLIENT_MEMORY_MAX_LATENCY_MS < latencyMs then none
    else some ⟨clientMemoryKeyLower (trimDots domainLower) clientIp, upstream, latencyMs⟩
  | _ => none

structure MemoryEvent where
  env : Moment
  call : MemoryCall

namespace Memories

def act (s : Memories) (e : MemoryEvent) : Except Fault Memories :=
  match e.call with
  | .record domainLower upstream latencyMs =>
    s.recordDomainResultLower e.env domainLower upstream latencyMs
  | .recordForClient domainLower upstream latencyMs clientIp =>
    s.recordDomainResultForClientLower e.env domainLower upstream latencyMs clientIp
  | .lookup domainLower => (s.getDomainBestUpstreamLower e.env domainLower).map (·.2)
  | .lookupForClient domainLower clientIp =>
    (s.getDomainBestUpstreamForClientLower e.env domainLower clientIp).map (·.2)
  | .cleanupDomains => s.cleanupExpiredDomains e.env
  | .cleanupClients => s.cleanupClientMemory e.env

/-- The sizes between two calls. A call stores one entry before it cleans up. -/
structure WithinBounds (s : Memories) : Prop where
  capacity : s.capacity ≤ MAX_DOMAIN_MEMORY
  domains : s.domains.size + 1 ≤ MAX_DOMAIN_MEMORY + 100
  clients : s.clients.size + 1 ≤ 5100

theorem init_withinBounds : WithinBounds init where
  capacity := by decide
  domains := by decide
  clients := by decide

theorem updateDomainMemoryParams_capacity (s : Memories) (avgQps : ℚ) :
    (s.updateDomainMemoryParams avgQps).capacity ≤ MAX_DOMAIN_MEMORY := by
  unfold updateDomainMemoryParams
  simp only
  split
  · exact Nat.le_refl _
  · rename_i hle
    split
    · decide
    · exact Nat.le_of_not_lt hle

/-- What a call does, given that results can be stored. -/
structure Acts (s : Memories) (now : Instant) (domainResult clientResult : Option MemorySample)
    (s' : Memories) : Prop where
  bounds : s'.WithinBounds
  domains : Advances s.domains now domainResult s'.domains
  clients : Advances s.clients now clientResult s'.clients

theorem cleanupExpiredDomains_ok {s : Memories} (h : s.capacity ≤ MAX_DOMAIN_MEMORY)
    (env : Moment) : ∃ domains, s.cleanupExpiredDomains env = .ok { s with domains := domains } ∧
      Thins s.domains domains ∧ domains.size ≤ MAX_DOMAIN_MEMORY := by
  obtain ⟨domains, hclean, hthins, hsize⟩ := cleanup_ok s.domains s.ttlBoost env s.capacity
  refine ⟨domains, ?_, hthins, Nat.le_trans hsize h⟩
  unfold cleanupExpiredDomains
  rw [hclean]
  rfl

theorem cleanupClientMemory_ok (s : Memories) (env : Moment) :
    ∃ clients, s.cleanupClientMemory env = .ok { s with clients := clients } ∧
      Thins s.clients clients ∧ clients.size ≤ MAX_CLIENT_MEMORY := by
  obtain ⟨clients, hclean, hthins, hsize⟩ := cleanup_ok s.clients s.ttlBoost env MAX_CLIENT_MEMORY
  refine ⟨clients, ?_, hthins, hsize⟩
  unfold cleanupClientMemory
  rw [hclean]
  rfl

/-- **A result of a domain leaves room for the next**: at a multiple of a hundred the table is
brought down to its capacity. -/
theorem applyDomainResultClean_ok {s : Memories} (h : s.WithinBounds) (env : Moment)
    {r : MemorySample} {stored : MemoryTable}
    (hstored : store s.domains env.now r.key r.upstream r.latency = .ok stored)
    (hsize : stored.size ≤ s.domains.size + 1) :
    ∃ s', s.applyDomainResultClean env r.key r.upstream r.latency = .ok s' ∧ s'.WithinBounds ∧
      s'.clients = s.clients ∧ Thins stored s'.domains := by
  have hroom := h.domains
  unfold applyDomainResultClean
  simp only [hstored, bind, Except.bind]
  by_cases hfull : stored.size % 100 = 0
  · let s₁ := { s with domains := stored }.updateDomainMemoryParams env.avgQps
    have hcapacity : s₁.capacity ≤ MAX_DOMAIN_MEMORY := updateDomainMemoryParams_capacity _ _
    obtain ⟨domains, hclean, hthins, hle⟩ := cleanupExpiredDomains_ok hcapacity env
    refine ⟨{ s₁ with domains := domains }, ?_, ⟨hcapacity, ?_, h.clients⟩, rfl, hthins⟩
    · rw [if_pos hfull]
      exact hclean
    · show domains.size + 1 ≤ MAX_DOMAIN_MEMORY + 100
      omega
  · refine ⟨{ s with domains := stored }, if_neg hfull, ⟨h.capacity, ?_, h.clients⟩, rfl,
      Thins.refl _⟩
    show stored.size + 1 ≤ MAX_DOMAIN_MEMORY + 100
    have hmax : MAX_DOMAIN_MEMORY = 100000 := rfl
    omega

/-- The same for a result of a domain and a subnet. -/
theorem applyClientResultClean_ok {s : Memories} (h : s.WithinBounds) (env : Moment)
    {key domain upstream : String} {latency : Nat} {stored storedClient : MemoryTable}
    (hstored : store s.domains env.now domain upstream latency = .ok stored)
    (hsize : stored.size ≤ s.domains.size + 1)
    (hstoredClient : store s.clients env.now key upstream latency = .ok storedClient)
    (hsizeClient : storedClient.size ≤ s.clients.size + 1) :
    ∃ s', s.applyClientResultClean env key domain upstream latency = .ok s' ∧ s'.WithinBounds ∧
      Thins storedClient s'.clients ∧ Thins stored s'.domains := by
  have hroom := h.clients
  -- the table of the clients is cleaned up before the domain's result is stored
  obtain ⟨clients, htidy, hthins, hle⟩ : ∃ clients,
      (if storedClient.size % 100 = 0 then
        cleanupClientMemory { s with clients := storedClient } env
      else .ok { s with clients := storedClient }) = .ok { s with clients := clients } ∧
      Thins storedClient clients ∧ clients.size + 1 ≤ 5100 := by
    by_cases hfull : storedClient.size % 100 = 0
    · obtain ⟨clients, hclean, hthins, hle⟩ :=
        cleanupClientMemory_ok { s with clients := storedClient } env
      have hmax : MAX_CLIENT_MEMORY = 5000 := rfl
      exact ⟨clients, by rw [if_pos hfull]; exact hclean, hthins, by omega⟩
    · exact ⟨storedClient, if_neg hfull, Thins.refl _, by omega⟩
  obtain ⟨s', hs', hbounds, hclients, hdomains⟩ := applyDomainResultClean_ok
    (s := { s with clients := clients }) (r := ⟨domain, upstream, latency⟩)
    ⟨h.capacity, h.domains, hle⟩ env hstored hsize
  refine ⟨s', ?_, hbounds, by rw [hclients]; exact hthins, hdomains⟩
  unfold applyClientResultClean
  simp only [hstoredClient, bind, Except.bind]
  by_cases hfull : storedClient.size % 100 = 0
  · rw [if_pos hfull] at htidy ⊢
    rw [htidy]
    exact hs'
  · rw [if_neg hfull] at htidy ⊢
    rw [Except.ok.inj htidy]
    exact hs'

/-- A lookup removes an expired entry or nothing. -/
theorem getDomainBestUpstreamLower_ok {s : Memories} (h : s.WithinBounds) (env : Moment)
    (domainLower : String) :
    ∃ found s', s.getDomainBestUpstreamLower env domainLower = .ok (found, s') ∧ s'.WithinBounds ∧
      s'.clients = s.clients ∧ Thins s.domains s'.domains := by
  unfold getDomainBestUpstreamLower
  cases hget : s.domains.get (trimDots domainLower) with
  | none => exact ⟨none, s, rfl, h, rfl, Thins.refl _⟩
  | some entry =>
    simp only [DomainMemory.isExpired_eq, bind, Except.bind, pure, Except.pure]
    split
    · refine ⟨none, _, rfl, ⟨h.capacity, ?_, h.clients⟩, rfl,
        fun k m hm => Table.get_remove _ hm⟩
      have hsize := Table.size_remove_le s.domains (trimDots domainLower)
      have hroom := h.domains
      show (s.domains.remove (trimDots domainLower)).size + 1 ≤ _
      omega
    · exact ⟨_, s, rfl, h, rfl, Thins.refl _⟩

theorem getDomainBestUpstreamForClientLower_ok {s : Memories} (h : s.WithinBounds) (env : Moment)
    (domainLower : String) (clientIp : IpAddr) :
    ∃ found s', s.getDomainBestUpstreamForClientLower env domainLower clientIp = .ok (found, s') ∧
      s'.WithinBounds ∧ s'.clients = s.clients ∧ Thins s.domains s'.domains := by
  unfold getDomainBestUpstreamForClientLower
  split
  · rename_i entry hget
    simp only [DomainMemory.isExpired_eq, bind, Except.bind, pure, Except.pure]
    split
    · exact ⟨_, s, rfl, h, rfl, Thins.refl _⟩
    · exact getDomainBestUpstreamLower_ok h env domainLower
  · exact getDomainBestUpstreamLower_ok h env domainLower

theorem advances_thins {t t' : MemoryTable} (h : Thins t t') (now : Instant) :
    Advances t now none t' := ⟨t, rfl, h⟩

/-- A call that records nothing and changes nothing. -/
theorem WithinBounds.unchanged {s : Memories} (h : s.WithinBounds) (now : Instant) :
    Acts s now none none s :=
  ⟨h, advances_thins (Thins.refl _) _, advances_thins (Thins.refl _) _⟩

/-- A call that records nothing and at most removes domains. -/
theorem WithinBounds.lookup {s s' : Memories} (h : s'.WithinBounds)
    (hclients : s'.clients = s.clients) (hdomains : Thins s.domains s'.domains) (now : Instant) :
    Acts s now none none s' :=
  ⟨h, advances_thins hdomains _, advances_thins (by rw [hclients]; exact Thins.refl _) _⟩

/-- **What a call does**: its results are stored, entries go, and both tables keep room for one
more. -/
theorem act_ok {s : Memories} (h : s.WithinBounds) (e : MemoryEvent)
    (hdomain : ∀ r ∈ e.call.domainResult, ∃ stored,
      store s.domains e.env.now r.key r.upstream r.latency = .ok stored ∧
        stored.size ≤ s.domains.size + 1)
    (hclient : ∀ r ∈ e.call.clientResult, ∃ stored,
      store s.clients e.env.now r.key r.upstream r.latency = .ok stored ∧
        stored.size ≤ s.clients.size + 1) :
    ∃ s', s.act e = .ok s' ∧ Acts s e.env.now e.call.domainResult e.call.clientResult s' := by
  obtain ⟨env, call⟩ := e
  cases call with
  | record domainLower upstream latencyMs =>
    unfold act recordDomainResultLower
    unfold MemoryCall.domainResult at hdomain ⊢
    simp only at hdomain ⊢
    split
    · exact ⟨s, rfl, h.unchanged _⟩
    · rename_i hfast
      rw [if_neg hfast] at hdomain
      obtain ⟨stored, hstored, hsize⟩ := hdomain _ rfl
      obtain ⟨s', hs', hbounds, hclients, hdomains⟩ :=
        applyDomainResultClean_ok h env hstored hsize
      exact ⟨s', hs', hbounds, ⟨stored, hstored, hdomains⟩,
        advances_thins (by rw [hclients]; exact Thins.refl _) _⟩
  | recordForClient domainLower upstream latencyMs clientIp =>
    unfold act recordDomainResultForClientLower
    unfold MemoryCall.domainResult at hdomain ⊢
    unfold MemoryCall.clientResult at hclient ⊢
    simp only at hdomain hclient ⊢
    split
    · exact ⟨s, rfl, h.unchanged _⟩
    · rename_i hfast
      rw [if_neg hfast] at hdomain hclient
      obtain ⟨stored, hstored, hsize⟩ := hdomain _ rfl
      obtain ⟨storedClient, hstoredClient, hsizeClient⟩ := hclient _ rfl
      obtain ⟨s', hs', hbounds, hclients, hdomains⟩ :=
        applyClientResultClean_ok h env hstored hsize hstoredClient hsizeClient
      exact ⟨s', hs', hbounds, ⟨stored, hstored, hdomains⟩, ⟨storedClient, hstoredClient, hclients⟩⟩
  | lookup domainLower =>
    obtain ⟨found, s', hs', hbounds, hclients, hdomains⟩ :=
      getDomainBestUpstreamLower_ok h env domainLower
    refine ⟨s', ?_, hbounds.lookup hclients hdomains _⟩
    simp only [act, hs', Except.map]
  | lookupForClient domainLower clientIp =>
    obtain ⟨found, s', hs', hbounds, hclients, hdomains⟩ :=
      getDomainBestUpstreamForClientLower_ok h env domainLower clientIp
    refine ⟨s', ?_, hbounds.lookup hclients hdomains _⟩
    simp only [act, hs', Except.map]
  | cleanupDomains =>
    obtain ⟨domains, hclean, hthins, hle⟩ := cleanupExpiredDomains_ok h.capacity env
    refine ⟨_, hclean, ⟨h.capacity, ?_, h.clients⟩, advances_thins hthins _,
      advances_thins (Thins.refl _) _⟩
    show domains.size + 1 ≤ MAX_DOMAIN_MEMORY + 100
    omega
  | cleanupClients =>
    obtain ⟨clients, hclean, hthins, hle⟩ := cleanupClientMemory_ok s env
    refine ⟨_, hclean, ⟨h.capacity, h.domains, ?_⟩, advances_thins (Thins.refl _) _,
      advances_thins hthins _⟩
    show clients.size + 1 ≤ 5100
    have hmax : MAX_CLIENT_MEMORY = 5000 := rfl
    omega

end Memories

/-! ## Keys of the clients -/

theorem at_not_mem_digits {base : Nat} (hbase : 1 < base) (hmax : base ≤ 16) (n : Nat) :
    '@' ∉ (digits base n).toList := by
  have hall : ∀ n < 16, '@' ≠ Nat.digitChar n := by decide
  unfold digits
  rw [String.toList_ofList]
  induction n using Nat.strongRecOn with
  | ind n ih =>
    rcases Nat.lt_or_ge n base with hlt | hge
    · rw [Nat.toDigits_of_lt_base hlt, List.mem_singleton]
      exact hall n (by omega)
    · have hdigit : n % base < base := Nat.mod_lt n (by omega)
      rw [Nat.toDigits_of_base_le hbase hge, List.mem_append, List.mem_singleton, not_or]
      exact ⟨ih _ (Nat.div_lt_self (by omega) hbase), hall _ (by omega)⟩

theorem at_not_mem_subnet (ip : IpAddr) : '@' ∉ (getClientSubnet ip).toList := by
  have hten : ∀ n, '@' ∉ (digits 10 n).toList := at_not_mem_digits (by decide) (by decide)
  have hsixteen : ∀ n, '@' ∉ (digits 16 n).toList := at_not_mem_digits (by decide) (by decide)
  unfold getClientSubnet
  cases ip with
  | v4 ip =>
    simp only
    split <;> simp [String.toList_append, hten]
  | v6 ip => simp [String.toList_append, hsixteen]

/-- A text before its last separator. -/
theorem eq_of_append_separator {a b s s' : List Char} {c : Char} (hs : c ∉ s) (hs' : c ∉ s')
    (h : a ++ c :: s = b ++ c :: s') : a = b := by
  rcases List.append_eq_append_iff.mp h with ⟨t, rfl, ht⟩ | ⟨t, rfl, ht⟩
  · cases t with
    | nil => rw [List.append_nil]
    | cons x t =>
      obtain ⟨-, rfl⟩ := List.cons.inj ht
      exact absurd (List.mem_append_right _ List.mem_cons_self) hs
  · cases t with
    | nil => rw [List.append_nil]
    | cons x t =>
      obtain ⟨-, rfl⟩ := List.cons.inj ht
      exact absurd (List.mem_append_right _ List.mem_cons_self) hs'

/-- The key of a domain and a subnet tells the domain. -/
theorem clientMemoryKeyLower_domain {domain domain' : String} {ip ip' : IpAddr}
    (h : clientMemoryKeyLower domain ip = clientMemoryKeyLower domain' ip') :
    trimDots domain = trimDots domain' := by
  have hlist := congrArg String.toList h
  unfold clientMemoryKeyLower at hlist
  simp only [String.toList_append, List.append_assoc] at hlist
  rw [← String.toList_inj]
  exact eq_of_append_separator (at_not_mem_subnet ip) (at_not_mem_subnet ip') hlist

/-! ## Histories -/

/-- A run with the latencies recorded for the best upstream of each key since it became that. -/
structure MemoryHistory where
  state : Except Fault Memories
  domainSamples : String → List Nat
  clientSamples : String → List Nat

/-- A table of a state that did not fail. -/
def tableOf (part : Memories → MemoryTable) : Except Fault Memories → MemoryTable
  | .ok s => part s
  | .error _ => ∅

def MemoryHistory.step (h : MemoryHistory) (e : MemoryEvent) : MemoryHistory :=
  let next := h.state.bind (·.act e)
  { state := next
    domainSamples := fun domain =>
      sinceBest (bestOf (tableOf Memories.domains h.state) domain)
        (bestOf (tableOf Memories.domains next) domain) (h.domainSamples domain)
        (MemorySample.latencies e.call.domainResult domain)
    clientSamples := fun key =>
      sinceBest (bestOf (tableOf Memories.clients h.state) key)
        (bestOf (tableOf Memories.clients next) key) (h.clientSamples key)
        (MemorySample.latencies e.call.clientResult key) }

/-- The history of a run from the empty tables. -/
def history (es : List MemoryEvent) : MemoryHistory :=
  run MemoryHistory.step ⟨.ok .init, fun _ => [], fun _ => []⟩ es

/-- How many results of a domain, and of a domain and a subnet, a run has. -/
def domainResults (es : List MemoryEvent) (domain : String) : Nat :=
  es.countP fun e => e.call.domainResult.any (·.key = domain)

def clientResults (es : List MemoryEvent) (key : String) : Nat :=
  es.countP fun e => e.call.clientResult.any (·.key = key)

/-- Fewer than 2^32 - 1 results for each domain. -/
def FewResults (es : List MemoryEvent) : Prop := ∀ domain, domainResults es domain < 2 ^ 32 - 1

/-- A result of a domain and a subnet is one of the domain. -/
theorem clientResult_any {call : MemoryCall} {key : String}
    (h : call.clientResult.any (·.key = key) = true) :
    ∃ domain upstream latency ip, key = clientMemoryKeyLower (trimDots domain) ip ∧
      call.domainResult = some ⟨trimDots domain, upstream, latency⟩ := by
  cases call with
  | recordForClient domain upstream latency ip =>
    unfold MemoryCall.clientResult at h
    unfold MemoryCall.domainResult
    simp only at h ⊢
    split at h
    · cases h
    · rename_i hfast
      rw [if_neg hfast]
      exact ⟨domain, upstream, latency, ip, by simpa [eq_comm] using h, rfl⟩
  | _ => cases h

/-- A domain and a subnet have no more results than the domain. -/
theorem clientResults_le (es : List MemoryEvent) (key : String) :
    ∃ domain, clientResults es key ≤ domainResults es domain := by
  by_cases hsome : ∃ e ∈ es, e.call.clientResult.any (·.key = key) = true
  · obtain ⟨e, -, he⟩ := hsome
    obtain ⟨domain, -, -, ip, rfl, -⟩ := clientResult_any he
    refine ⟨trimDots domain, List.countP_mono_left fun e' _ he' => ?_⟩
    obtain ⟨domain', upstream, latency, ip', hkey, hresult⟩ := clientResult_any he'
    have hsame := clientMemoryKeyLower_domain hkey
    rw [trimDots_trimDots, trimDots_trimDots] at hsame
    rw [hresult]
    simpa using hsame.symm
  · refine ⟨key, ?_⟩
    have hzero : clientResults es key = 0 :=
      List.countP_eq_zero.mpr fun e he hkey => hsome ⟨e, he, hkey⟩
    omega

/-! ## Whole runs -/

/-- What is said of a run: nothing overflows, and in the state it ends in the averages and the sizes
are within their bounds. -/
structure MemorySound (es : List MemoryEvent) : Prop where
  /-- No subtraction underflows, nor does anything else fail. -/
  runs : ∃ s, (history es).state = .ok s
  /-- The average latency of a best upstream is between the least and the greatest latency recorded
  for it since it became the best. -/
  averages : ∀ s domain m, (history es).state = .ok s → s.domains.get domain = some m →
    (∃ l ∈ (history es).domainSamples domain, l ≤ m.avgLatency) ∧
      ∃ l ∈ (history es).domainSamples domain, m.avgLatency ≤ l
  clientAverages : ∀ s key m, (history es).state = .ok s → s.clients.get key = some m →
    (∃ l ∈ (history es).clientSamples key, l ≤ m.avgLatency) ∧
      ∃ l ∈ (history es).clientSamples key, m.avgLatency ≤ l
  /-- The sizes, also with the entry that the next result stores before anything is cleaned up. -/
  sizes : ∀ s key m, (history es).state = .ok s →
    s.domains.size ≤ MAX_DOMAIN_MEMORY + 100 ∧
      (s.domains.put key m).size ≤ MAX_DOMAIN_MEMORY + 100 ∧
      s.clients.size ≤ 5100 ∧ (s.clients.put key m).size ≤ 5100
  expiry : ∀ (m : DomainMemory) boost now, ∃ expired left, m.isExpired boost now = .ok expired ∧
    m.remainingTtl boost now = .ok left ∧ (expired = true → left ≤ 0) ∧ (0 < left → expired = false)

/-- What holds along a run. -/
structure MemoryHistory.Inv (h : MemoryHistory) (es : List MemoryEvent) (s : Memories) : Prop where
  state : h.state = .ok s
  bounds : s.WithinBounds
  domains : Tracked s.domains h.domainSamples (domainResults es)
  clients : Tracked s.clients h.clientSamples (clientResults es)

/-- What is recorded is not slow. -/
theorem recorded_small {max latency : Nat} {key upstream : String} {r : MemorySample}
    (h : r ∈ if max < latency then none else some (⟨key, upstream, latency⟩ : MemorySample)) :
    r.latency ≤ max := by
  split at h
  · cases h
  · rename_i hfast
    obtain rfl := Option.some.inj h
    exact Nat.le_of_not_lt hfast

theorem domainResult_small {call : MemoryCall} {r : MemorySample} (h : r ∈ call.domainResult) :
    r.latency ≤ CLIENT_MEMORY_MAX_LATENCY_MS := by
  cases call with
  | record domain upstream latency =>
    have hmax : DOMAIN_MEMORY_MAX_LATENCY_MS ≤ CLIENT_MEMORY_MAX_LATENCY_MS := by decide
    exact Nat.le_trans (recorded_small h) hmax
  | recordForClient domain upstream latency ip => exact recorded_small h
  | _ => cases h

theorem clientResult_small {call : MemoryCall} {r : MemorySample} (h : r ∈ call.clientResult) :
    r.latency ≤ CLIENT_MEMORY_MAX_LATENCY_MS := by
  cases call with
  | recordForClient domain upstream latency ip => exact recorded_small h
  | _ => cases h

theorem MemorySample.count_eq (r : Option MemorySample) (key : String) :
    MemorySample.count r key = if r.any (·.key = key) = true then 1 else 0 := by
  unfold MemorySample.count
  cases r with
  | none => rfl
  | some r => simp

theorem domainResults_append (es : List MemoryEvent) (e : MemoryEvent) (domain : String) :
    domainResults (es ++ [e]) domain =
      domainResults es domain + MemorySample.count e.call.domainResult domain := by
  rw [domainResults, List.countP_append, List.countP_singleton, MemorySample.count_eq]
  rfl

theorem clientResults_append (es : List MemoryEvent) (e : MemoryEvent) (key : String) :
    clientResults (es ++ [e]) key =
      clientResults es key + MemorySample.count e.call.clientResult key := by
  rw [clientResults, List.countP_append, List.countP_singleton, MemorySample.count_eq]
  rfl

theorem MemorySample.count_own {r : MemorySample} {o : Option MemorySample} (h : r ∈ o) :
    MemorySample.count o r.key = 1 := by
  obtain rfl := Option.mem_def.mp h
  exact if_pos rfl

/-- **The step.** -/
theorem MemoryHistory.Inv.step {h : MemoryHistory} {es : List MemoryEvent} {s : Memories}
    (hinv : h.Inv es s) (e : MemoryEvent) (hfew : FewResults (es ++ [e])) :
    ∃ s', (h.step e).Inv (es ++ [e]) s' := by
  have hdomain : ∀ r ∈ e.call.domainResult, domainResults es r.key + 1 < 2 ^ 32 := by
    intro r hr
    have hlt := hfew r.key
    rw [domainResults_append, MemorySample.count_own hr] at hlt
    omega
  have hclient : ∀ r ∈ e.call.clientResult, clientResults es r.key + 1 < 2 ^ 32 := by
    intro r hr
    obtain ⟨domain, hle⟩ := clientResults_le (es ++ [e]) r.key
    have hlt := hfew domain
    rw [clientResults_append, MemorySample.count_own hr] at hle
    omega
  obtain ⟨s', hact, hbounds, hdomains, hclients⟩ := Memories.act_ok hinv.bounds e
    (fun r hr => by
      obtain ⟨stored, hstored, hsize, -⟩ := store_ok hinv.domains e.env.now (domainResult_small hr)
        (hdomain r hr)
      exact ⟨stored, hstored, hsize⟩)
    (fun r hr => by
      obtain ⟨stored, hstored, hsize, -⟩ := store_ok hinv.clients e.env.now (clientResult_small hr)
        (hclient r hr)
      exact ⟨stored, hstored, hsize⟩)
  have hnext : h.state.bind (·.act e) = .ok s' := by
    rw [hinv.state]
    exact hact
  refine ⟨s', hnext, hbounds, ?_, ?_⟩
  · have htracked := hinv.domains.advance (fun r hr => domainResult_small hr) hdomain hdomains
    have hsamples : (h.step e).domainSamples = fun domain =>
        sinceBest (bestOf s.domains domain) (bestOf s'.domains domain) (h.domainSamples domain)
          (MemorySample.latencies e.call.domainResult domain) := by
      unfold MemoryHistory.step
      rw [hnext, hinv.state]
      rfl
    have hcounts := funext (domainResults_append es e)
    rw [hsamples, hcounts]
    exact htracked
  · have htracked := hinv.clients.advance (fun r hr => clientResult_small hr) hclient hclients
    have hsamples : (h.step e).clientSamples = fun key =>
        sinceBest (bestOf s.clients key) (bestOf s'.clients key) (h.clientSamples key)
          (MemorySample.latencies e.call.clientResult key) := by
      unfold MemoryHistory.step
      rw [hnext, hinv.state]
      rfl
    have hcounts := funext (clientResults_append es e)
    rw [hsamples, hcounts]
    exact htracked

theorem tracked_empty (samples : String → List Nat) (results : String → Nat) :
    Tracked ∅ samples results where
  averages k m hm := by
    rw [Table.get_empty] at hm
    cases hm
  few k m hm := by
    rw [Table.get_empty] at hm
    cases hm

/-- **The invariant of a run**, by its last event. -/
theorem history_inv (es : List MemoryEvent) (hfew : FewResults es) :
    ∃ s, (history es).Inv es s := by
  induction es using List.reverseRecOn with
  | nil => exact ⟨.init, rfl, Memories.init_withinBounds, tracked_empty _ _, tracked_empty _ _⟩
  | append_singleton es e ih =>
    obtain ⟨s, hinv⟩ := ih fun domain => by
      have hlt := hfew domain
      rw [domainResults_append] at hlt
      omega
    have hlast : history (es ++ [e]) = (history es).step e := run_append _ _ _
    rw [hlast]
    exact hinv.step e hfew

/-- **Every run with few results for each domain is sound.** -/
theorem memory_sound (es : List MemoryEvent) (hfew : FewResults es) : MemorySound es := by
  obtain ⟨s, hinv⟩ := history_inv es hfew
  have hstate : ∀ s', (history es).state = .ok s' → s' = s := fun s' hs' =>
    Except.ok.inj (hs'.symm.trans hinv.state)
  refine ⟨⟨s, hinv.state⟩, ?_, ?_, ?_, fun m boost now => m.expired_left boost now⟩
  · intro s' domain m hs' hm
    obtain rfl := hstate s' hs'
    have haverages := hinv.domains.averages domain m hm
    exact ⟨haverages.least, haverages.greatest⟩
  · intro s' key m hs' hm
    obtain rfl := hstate s' hs'
    have haverages := hinv.clients.averages key m hm
    exact ⟨haverages.least, haverages.greatest⟩
  · intro s' key m hs'
    obtain rfl := hstate s' hs'
    have hdomains := hinv.bounds.domains
    have hclients := hinv.bounds.clients
    have hput := Table.size_put_le s'.domains key m
    have hputClient := Table.size_put_le s'.clients key m
    exact ⟨by omega, by omega, by omega, by omega⟩

/-- A moment at which everything happens at once. -/
def firstMoment : Moment where
  now := ⟨0, by decide, by decide⟩
  retained := fun _ => ⟨0, by decide, by decide⟩
  ranked := fun _ => ⟨0, by decide, by decide⟩
  avgQps := 0
  order := ⟨id, fun _ => List.Perm.refl _⟩

theorem memory_sound_example :
    MemorySound [⟨firstMoment, .recordForClient "example.com." "9.9.9.9" 20 (.v4 ⟨10, 0, 0, 1⟩)⟩,
      ⟨firstMoment, .lookup "example.com"⟩] :=
  memory_sound _ fun domain => Nat.lt_of_le_of_lt List.countP_le_length (by decide)

end TitanDns.Autopilot
