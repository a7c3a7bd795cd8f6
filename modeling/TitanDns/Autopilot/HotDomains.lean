import TitanDns.Core.Context
import TitanDns.Lib.KeyedTable
import TitanDns.Lib.Run
import TitanDns.Autopilot.Metrics
import Mathlib.Data.List.MinMax
import Mathlib.Data.Rat.Defs
import Mathlib.Algebra.Order.Field.Rat
import Mathlib.Algebra.Order.Field.Basic
import Mathlib.Tactic.NormNum

/-!
# Hot domains and their prefetch

The hundred domains that `HOT_DOMAINS` follows, with their accesses by the hour of the day, and the
prefetch of those that are likely in the next hour.

* `DomainStats`, `recordAccess` — an access; a new domain takes the place of a least accessed one.
* `HotDomains.checkHourlyPrefetch`, `triggerPrefetch` — at each new hour the likely domains are
  prefetched, unless the last prefetch is too recent or there is much traffic.
* `HotTracks` — the invariant: every entry counts the accesses since its domain came in.

Principal results: `hot_domains_exact` — **at most a hundred domains, each with exactly the accesses
since it came in, by the hour**; `access_evicts` — **an access brings its domain in, and drops at
most one other, of a full table and a least accessed one**; `prefetches_spaced` — **two prefetches
are two minutes apart, and each takes exactly the domains with a fifth of their accesses in the next
hour.**
-/

namespace TitanDns.Autopilot

open Run Table

def MAX_HOT_DOMAINS : Nat := 100

structure DomainStats where
  domain : String
  accessCount : Nat
  hourlyCounts : Fin 24 → Nat
  /-- Nanoseconds from the boot on, or before it. -/
  lastAccess : Int

namespace DomainStats

def new (domain : String) (now : Nat) : DomainStats := ⟨domain, 0, fun _ => 0, now⟩

/-- `record_access` -/
def recordAccess (stats : DomainStats) (hour now : Nat) : DomainStats :=
  { stats with
    accessCount := stats.accessCount + 1
    hourlyCounts :=
      if h : hour < 24 then
        Function.update stats.hourlyCounts ⟨hour, h⟩ (stats.hourlyCounts ⟨hour, h⟩ + 1)
      else stats.hourlyCounts
    lastAccess := now }

/-- `predict_access_probability` -/
def predictAccessProbability (stats : DomainStats) (hour : Nat) : ℚ :=
  if stats.accessCount = 0 then 0
  else if h : hour < 24 then stats.hourlyCounts ⟨hour, h⟩ / stats.accessCount
  else 0

end DomainStats

/-- The hour of the day of a time in seconds. -/
def hourOf (secs : Nat) : Nat := secs / 3600 % 24

theorem hourOf_lt (secs : Nat) : hourOf secs < 24 := Nat.mod_lt _ (by omega)

abbrev HotTable := Table String DomainStats

/-- The map iterates over its entries in some order. -/
structure HotOrder where
  order : List ((_ : String) × DomainStats) → List ((_ : String) × DomainStats)
  perm : ∀ entries, (order entries).Perm entries

/-- `iter().min_by_key(access_count)` -/
def leastAccessed (t : HotTable) (it : HotOrder) : Option String :=
  ((it.order t.entries).argmin fun e => e.2.accessCount).map (·.1)

/-- Room for one more domain. -/
def makeRoom (t : HotTable) (it : HotOrder) : HotTable :=
  if MAX_HOT_DOMAINS ≤ t.size then
    match leastAccessed t it with
    | some minDomain => t.remove minDomain
    | none => t
  else t

/-- `HotDomains::record_access` of a name without trailing dots. -/
def recordDomain (t : HotTable) (domain : String) (hour now : Nat) (it : HotOrder) : HotTable :=
  match t.get domain with
  | some stats => t.put domain (stats.recordAccess hour now)
  | none => (makeRoom t it).put domain ((DomainStats.new domain now).recordAccess hour now)

/-- `get_prefetch_candidates` -/
def prefetchCandidates (t : HotTable) (threshold : ℚ) (secs : Nat) (it : HotOrder) : List String :=
  ((it.order t.entries).filter fun e =>
    decide (threshold ≤ e.2.predictAccessProbability ((secs / 3600 + 1) % 24))).map (·.1)

/-! ## The tracker -/

def PREFETCH_QPS_LIMIT : Nat := 300
def PREFETCH_AVG_QPS_30S_LIMIT : ℚ := 200

/-- `PREFETCH_COOLDOWN`: 120 s. -/
def PREFETCH_COOLDOWN : Nat := 120 * SECOND

structure HotDomains where
  domains : HotTable
  /-- Nothing before the first prefetch: the source begins one cooldown back. -/
  lastPrefetch : Option Nat
  lastHour : Nat
  /-- The check of the hour has found candidates, and `trigger_prefetch` is next. -/
  triggering : Bool
  /-- History: when it prefetched and what, the latest first. -/
  prefetched : List (Nat × List String)
  /-- History: the hours of the accesses to each domain since it came in last. -/
  since : String → List Nat

def HotDomains.new : HotDomains := ⟨∅, none, 255, false, [], fun _ => []⟩

/-- What a call finds around it. -/
structure HotMoment where
  /-- On the monotonic clock. -/
  now : Nat
  /-- On the wall clock. -/
  secs : Nat
  currentQps : Nat
  avgQps : ℚ
  order : HotOrder

/-- The last prefetch is too recent. -/
def HotDomains.cooling (s : HotDomains) (now : Nat) : Bool :=
  s.lastPrefetch.any fun last => decide (now - last < PREFETCH_COOLDOWN)

/-- `trigger_prefetch` -/
def HotDomains.triggerPrefetch (s : HotDomains) (threshold : ℚ) (env : HotMoment) : HotDomains :=
  if s.cooling env.now then s
  else if PREFETCH_QPS_LIMIT < env.currentQps ∨ PREFETCH_AVG_QPS_30S_LIMIT < env.avgQps then s
  else
    let candidates := prefetchCandidates s.domains threshold env.secs env.order
    if candidates.isEmpty then s
    else
      { s with
        lastPrefetch := some env.now
        prefetched := (env.now, candidates) :: s.prefetched }

/-- `check_hourly_prefetch`, up to the call of `trigger_prefetch`. -/
def HotDomains.checkHourlyPrefetch (s : HotDomains) (env : HotMoment) : HotDomains :=
  if hourOf env.secs = s.lastHour then s
  else
    { s with
      lastHour := hourOf env.secs
      triggering := !(prefetchCandidates s.domains (1 / 5) env.secs env.order).isEmpty }

/-- `record_access` -/
def HotDomains.recordAccess (s : HotDomains) (domain : String) (env : HotMoment) : HotDomains :=
  let domain := trimDots domain
  let domains := recordDomain s.domains domain (hourOf env.secs) env.now env.order
  { s with
    domains := domains
    since := fun d =>
      if d = domain then hourOf env.secs :: s.since d
      else if d ∈ domains.keys then s.since d else [] }

inductive HotEvent where
  | access (domain : String) (env : HotMoment)
  /-- A round of the health loop. -/
  | check (env : HotMoment)
  /-- The round goes on. -/
  | trigger (env : HotMoment)

def HotDomains.step (s : HotDomains) : HotEvent → HotDomains
  | .access domain env => s.recordAccess domain env
  | .check env => if s.triggering then s else s.checkHourlyPrefetch env
  | .trigger env =>
    if s.triggering then { s with triggering := false }.triggerPrefetch (1 / 5) env else s

/-- The state after the events `es`, taken in order from the start. -/
def hotAfter (es : List HotEvent) : HotDomains := run HotDomains.step .new es

/-! ## The table -/

theorem leastAccessed_some {t : HotTable} {it : HotOrder} {k : String}
    (h : leastAccessed t it = some k) :
    ∃ stats, t.get k = some stats ∧
      ∀ k' stats', t.get k' = some stats' → stats.accessCount ≤ stats'.accessCount := by
  obtain ⟨e, he, rfl⟩ := Option.map_eq_some_iff.mp h
  have hmem : e ∈ t.entries := (it.perm _).mem_iff.mp (List.argmin_mem he)
  refine ⟨e.2, mem_entries.mp hmem, fun k' stats' hget => ?_⟩
  have hmem' : (⟨k', stats'⟩ : (_ : String) × DomainStats) ∈ it.order t.entries :=
    (it.perm _).mem_iff.mpr (mem_entries.mpr hget)
  exact List.le_of_mem_argmin (f := fun e : (_ : String) × DomainStats => e.2.accessCount) hmem' he

theorem leastAccessed_isSome {t : HotTable} (it : HotOrder) (h : 0 < t.size) :
    (leastAccessed t it).isSome = true := by
  unfold leastAccessed
  rw [Option.isSome_map]
  cases harg : (it.order t.entries).argmin fun e => e.2.accessCount with
  | some e => rfl
  | none =>
    have hnil := List.argmin_eq_none.mp harg
    have hlen := (it.perm t.entries).length_eq
    rw [hnil] at hlen
    simp only [Table.size, AList.keys, List.keys, List.length_map] at h
    simp at hlen
    omega

theorem mem_keys {t : HotTable} {k : String} : k ∈ t.keys ↔ ∃ stats, t.get k = some stats := by
  rw [← Option.isSome_iff_exists]
  exact (AList.lookup_isSome).symm

theorem size_remove {t : HotTable} {k : String} (h : k ∈ t.keys) :
    (t.remove k).size + 1 = t.size := by
  have hall : (t.removeAll [k]).size + [k].length = t.size :=
    size_removeAll (List.nodup_singleton k) (by simpa using h)
  simpa [removeAll] using hall

/-- There is room afterwards, and what is left was there. -/
theorem makeRoom_spec {t : HotTable} (it : HotOrder) (h : t.size ≤ MAX_HOT_DOMAINS) :
    (makeRoom t it).size < MAX_HOT_DOMAINS ∧
      (∀ k stats, (makeRoom t it).get k = some stats → t.get k = some stats) ∧
      ∀ k stats, t.get k = some stats → (makeRoom t it).get k = none →
        t.size = MAX_HOT_DOMAINS ∧ leastAccessed t it = some k := by
  unfold makeRoom
  by_cases hfull : MAX_HOT_DOMAINS ≤ t.size
  · have hpos : 0 < t.size := by
      have hmax : 0 < MAX_HOT_DOMAINS := by simp [MAX_HOT_DOMAINS]
      omega
    obtain ⟨k, hk⟩ := Option.isSome_iff_exists.mp (leastAccessed_isSome it hpos)
    obtain ⟨stats, hget, -⟩ := leastAccessed_some hk
    have hsize := size_remove (mem_keys.mpr ⟨stats, hget⟩)
    simp only [hfull, if_true, hk]
    refine ⟨by omega, fun k' stats' hget' => get_remove t hget', fun k' stats' hget' hgone => ?_⟩
    refine ⟨by omega, ?_⟩
    by_cases hkk : k' = k
    · rw [hkk]
    · have hstay : (t.remove k).get k' = t.get k' := AList.lookup_erase_ne hkk
      rw [hstay, hget'] at hgone
      cases hgone
  · simp only [hfull, if_false]
    refine ⟨by omega, fun _ _ hget => hget, fun k stats hget hgone => ?_⟩
    rw [hget] at hgone
    cases hgone

section
variable {t : HotTable} (domain : String) (hour now : Nat) (it : HotOrder)

theorem recordDomain_self : (recordDomain t domain hour now it).get domain =
    some (((t.get domain).getD (.new domain now)).recordAccess hour now) := by
  unfold recordDomain
  cases t.get domain <;> simp

/-- **Other domains keep their entry or go.** -/
theorem recordDomain_other (hsize : t.size ≤ MAX_HOT_DOMAINS) {d : String} (hne : d ≠ domain)
    {stats : DomainStats} (h : (recordDomain t domain hour now it).get d = some stats) :
    t.get d = some stats := by
  unfold recordDomain at h
  cases hget : t.get domain with
  | some old =>
    simp only [hget] at h
    rwa [get_put_of_ne t _ hne] at h
  | none =>
    simp only [hget] at h
    rw [get_put_of_ne _ _ hne] at h
    exact (makeRoom_spec it hsize).2.1 d stats h

theorem recordDomain_size (h : t.size ≤ MAX_HOT_DOMAINS) :
    (recordDomain t domain hour now it).size ≤ MAX_HOT_DOMAINS := by
  unfold recordDomain
  cases hget : t.get domain with
  | some old =>
    have hmem : domain ∈ t.keys := mem_keys.mpr ⟨old, hget⟩
    simp only [size_put, hmem, if_true]
    exact h
  | none =>
    have hroom := (makeRoom_spec it h).1
    have hput := size_put_le (makeRoom t it) domain
      ((DomainStats.new domain now).recordAccess hour now)
    simp only
    omega

end

/-! ## The invariant -/

/-- The entry counts the accesses at these hours. -/
structure CountsHours (stats : DomainStats) (domain : String) (hours : List Nat) : Prop where
  domain : stats.domain = domain
  nonempty : hours ≠ []
  all : stats.accessCount = hours.length
  hourly : ∀ h : Fin 24, stats.hourlyCounts h = hours.count h.val

theorem CountsHours.first (domain : String) {hour : Nat} (h : hour < 24) (now : Nat) :
    CountsHours ((DomainStats.new domain now).recordAccess hour now) domain [hour] where
  domain := rfl
  nonempty := by simp
  all := rfl
  hourly h' := by
    by_cases heq : h' = ⟨hour, h⟩
    · subst heq
      simp [DomainStats.recordAccess, DomainStats.new, h]
    · have hne : hour ≠ h'.val := fun hv => heq (Fin.ext hv.symm)
      simp [DomainStats.recordAccess, DomainStats.new, h, heq, hne]

theorem CountsHours.access {stats : DomainStats} {domain : String} {hours : List Nat}
    (hstats : CountsHours stats domain hours) {hour : Nat} (h : hour < 24) (now : Nat) :
    CountsHours (stats.recordAccess hour now) domain (hour :: hours) where
  domain := hstats.domain
  nonempty := by simp
  all := by simp [DomainStats.recordAccess, hstats.all]
  hourly h' := by
    by_cases heq : h' = ⟨hour, h⟩
    · subst heq
      simp [DomainStats.recordAccess, h, hstats.hourly]
    · have hne : hour ≠ h'.val := fun hv => heq (Fin.ext hv.symm)
      simp [DomainStats.recordAccess, h, heq, hne, hstats.hourly, List.count_cons_of_ne]

structure HotTracks (s : HotDomains) : Prop where
  size : s.domains.size ≤ MAX_HOT_DOMAINS
  entry : ∀ d stats, s.domains.get d = some stats → CountsHours stats d (s.since d)
  absent : ∀ d, s.domains.get d = none → s.since d = []

theorem HotTracks.access {s : HotDomains} (h : HotTracks s) (name : String) (env : HotMoment) :
    HotTracks (s.recordAccess name env) := by
  have hself := recordDomain_self (t := s.domains) (trimDots name) (hourOf env.secs) env.now
    env.order
  refine ⟨recordDomain_size _ _ _ _ h.size, fun d stats hget => ?_, fun d hget => ?_⟩
  · by_cases hd : d = trimDots name
    · subst hd
      simp only [HotDomains.recordAccess] at hget ⊢
      rw [hself] at hget
      cases hget
      rw [if_pos trivial]
      cases hold : s.domains.get (trimDots name) with
      | some old => exact (h.entry _ old hold).access (hourOf_lt _) _
      | none =>
        rw [h.absent _ hold]
        exact .first _ (hourOf_lt _) _
    · have hold := recordDomain_other _ _ _ _ h.size hd hget
      have hkeys : d ∈ (recordDomain s.domains (trimDots name) (hourOf env.secs) env.now
          env.order).keys := mem_keys.mpr ⟨stats, hget⟩
      simp only [HotDomains.recordAccess, hd, if_false, hkeys, if_true]
      exact h.entry d stats hold
  · have hne : d ≠ trimDots name := by
      rintro rfl
      simp only [HotDomains.recordAccess] at hget
      rw [hself] at hget
      cases hget
    have hkeys : d ∉ (recordDomain s.domains (trimDots name) (hourOf env.secs) env.now
        env.order).keys := by
      rw [mem_keys]
      rintro ⟨stats, hsome⟩
      simp only [HotDomains.recordAccess] at hget
      rw [hsome] at hget
      cases hget
    simp only [HotDomains.recordAccess, hne, if_false, hkeys]

theorem triggerPrefetch_cases (s : HotDomains) (threshold : ℚ) (env : HotMoment) :
    s.triggerPrefetch threshold env = s ∨
      s.cooling env.now = false ∧ s.triggerPrefetch threshold env =
        { s with
          lastPrefetch := some env.now
          prefetched :=
            (env.now, prefetchCandidates s.domains threshold env.secs env.order) ::
              s.prefetched } := by
  unfold HotDomains.triggerPrefetch
  cases hcool : s.cooling env.now with
  | true => exact .inl rfl
  | false =>
    by_cases hbusy : PREFETCH_QPS_LIMIT < env.currentQps ∨ PREFETCH_AVG_QPS_30S_LIMIT < env.avgQps
    · exact .inl (by simp [hbusy])
    · cases hnone : (prefetchCandidates s.domains threshold env.secs env.order).isEmpty with
      | true => exact .inl (by simp [hbusy, hnone])
      | false => exact .inr ⟨rfl, by simp [hbusy, hnone]⟩

/-- What a round of the health loop leaves alone. -/
theorem check_domains (s : HotDomains) (env : HotMoment) :
    (s.checkHourlyPrefetch env).domains = s.domains ∧
      (s.checkHourlyPrefetch env).since = s.since ∧
      (s.checkHourlyPrefetch env).prefetched = s.prefetched ∧
      (s.checkHourlyPrefetch env).lastPrefetch = s.lastPrefetch := by
  unfold HotDomains.checkHourlyPrefetch
  split <;> simp

theorem trigger_domains (s : HotDomains) (threshold : ℚ) (env : HotMoment) :
    (s.triggerPrefetch threshold env).domains = s.domains ∧
      (s.triggerPrefetch threshold env).since = s.since := by
  rcases triggerPrefetch_cases s threshold env with heq | ⟨-, heq⟩ <;> simp [heq]

theorem HotTracks.same {s s' : HotDomains} (h : HotTracks s) (hdomains : s'.domains = s.domains)
    (hsince : s'.since = s.since) : HotTracks s' := by
  refine ⟨?_, ?_, ?_⟩
  · rw [hdomains]
    exact h.size
  · rw [hdomains, hsince]
    exact h.entry
  · rw [hdomains, hsince]
    exact h.absent

theorem HotTracks.step {s : HotDomains} (h : HotTracks s) (e : HotEvent) :
    HotTracks (s.step e) := by
  cases e with
  | access domain env => exact h.access domain env
  | check env =>
    simp only [HotDomains.step]
    split
    · exact h
    · exact h.same (check_domains s env).1 (check_domains s env).2.1
  | trigger env =>
    simp only [HotDomains.step]
    split
    · have hdomains := trigger_domains { s with triggering := false } (1 / 5) env
      exact h.same hdomains.1 hdomains.2
    · exact h

theorem hotTracks_run (es : List HotEvent) : HotTracks (hotAfter es) := by
  have hstep : ∀ (s : HotDomains) (e : HotEvent), HotTracks s → HotTracks (s.step e) :=
    fun s e h => h.step e
  have hnew : HotTracks .new := ⟨by simp [HotDomains.new, Table.size], by simp [HotDomains.new],
    by simp [HotDomains.new]⟩
  exact invariant_run hstep hnew es

/-- **At most a hundred domains, each with exactly the accesses since it came in, by the hour.** -/
theorem hot_domains_exact (es : List HotEvent) :
    (hotAfter es).domains.size ≤ MAX_HOT_DOMAINS ∧
      ∀ d, match (hotAfter es).domains.get d with
        | none => (hotAfter es).since d = []
        | some stats => CountsHours stats d ((hotAfter es).since d) := by
  have h := hotTracks_run es
  refine ⟨h.size, fun d => ?_⟩
  cases hget : (hotAfter es).domains.get d with
  | none => exact h.absent d hget
  | some stats => exact h.entry d stats hget

/-- **An access brings its domain in, and drops at most one other**: of a full table, for a new
domain, and one that no domain of the table was accessed less often than; every other entry stays as
it was. -/
theorem access_evicts (es : List HotEvent) (name : String) (env : HotMoment) :
    (∃ stats, ((hotAfter es).recordAccess name env).domains.get (trimDots name) = some stats) ∧
      (∀ d ≠ trimDots name, ∀ stats,
        ((hotAfter es).recordAccess name env).domains.get d = some stats →
          (hotAfter es).domains.get d = some stats) ∧
      ∃ victim, ∀ d stats, (hotAfter es).domains.get d = some stats →
        ((hotAfter es).recordAccess name env).domains.get d = none →
          d = victim ∧ (hotAfter es).domains.size = MAX_HOT_DOMAINS ∧
            (hotAfter es).domains.get (trimDots name) = none ∧
            ∀ d' stats', (hotAfter es).domains.get d' = some stats' →
              stats.accessCount ≤ stats'.accessCount := by
  have h := hotTracks_run es
  generalize hotAfter es = s at h ⊢
  have hself := recordDomain_self (t := s.domains) (trimDots name) (hourOf env.secs) env.now
    env.order
  refine ⟨⟨_, hself⟩, fun d hne stats hget => recordDomain_other _ _ _ _ h.size hne hget,
    (leastAccessed s.domains env.order).getD "", fun d stats hget hgone => ?_⟩
  have hne : d ≠ trimDots name := by
    rintro rfl
    simp only [HotDomains.recordAccess] at hgone
    rw [hself] at hgone
    cases hgone
  simp only [HotDomains.recordAccess, recordDomain] at hgone
  cases hold : s.domains.get (trimDots name) with
  | some old =>
    -- a known domain takes no place
    simp only [hold] at hgone
    rw [get_put_of_ne _ _ hne, hget] at hgone
    cases hgone
  | none =>
    simp only [hold] at hgone
    rw [get_put_of_ne _ _ hne] at hgone
    obtain ⟨hfull, hleast⟩ := (makeRoom_spec env.order h.size).2.2 d stats hget hgone
    obtain ⟨stats', hget', hmin⟩ := leastAccessed_some hleast
    rw [hget] at hget'
    cases hget'
    exact ⟨by rw [hleast]; rfl, hfull, rfl, hmin⟩

/-! ## Prefetches -/

theorem mem_prefetchCandidates {t : HotTable} {threshold : ℚ} {secs : Nat} {it : HotOrder}
    {d : String} : d ∈ prefetchCandidates t threshold secs it ↔
      ∃ stats, t.get d = some stats ∧
        threshold ≤ stats.predictAccessProbability ((secs / 3600 + 1) % 24) := by
  unfold prefetchCandidates
  rw [List.mem_map]
  constructor
  · rintro ⟨e, he, rfl⟩
    obtain ⟨hmem, hprob⟩ := List.mem_filter.mp he
    exact ⟨e.2, mem_entries.mp ((it.perm _).mem_iff.mp hmem), of_decide_eq_true hprob⟩
  · rintro ⟨stats, hget, hprob⟩
    have hmem := (it.perm _).mem_iff.mpr (mem_entries.mpr hget)
    exact ⟨⟨d, stats⟩, List.mem_filter.mpr ⟨hmem, decide_eq_true hprob⟩, rfl⟩

/-- A fifth of the accesses were in the hour. -/
theorem CountsHours.likely {stats : DomainStats} {domain : String} {hours : List Nat}
    (h : CountsHours stats domain hours) {hour : Nat} (hlt : hour < 24) :
    1 / 5 ≤ stats.predictAccessProbability hour ↔ hours.length ≤ 5 * hours.count hour := by
  have hpos : 0 < hours.length := List.length_pos_iff.mpr h.nonempty
  have hne : stats.accessCount ≠ 0 := by
    rw [h.all]
    omega
  have hcast : (0 : ℚ) < (hours.length : ℚ) := by exact_mod_cast hpos
  have hcount : stats.hourlyCounts ⟨hour, hlt⟩ = hours.count hour := h.hourly ⟨hour, hlt⟩
  unfold DomainStats.predictAccessProbability
  rw [if_neg hne, dif_pos hlt, hcount, h.all, div_le_div_iff₀ (by norm_num) hcast]
  constructor
  · intro hle
    have hnat : ((1 * hours.length : Nat) : ℚ) ≤ ((hours.count hour * 5 : Nat) : ℚ) := by
      push_cast
      exact hle
    have hle' : 1 * hours.length ≤ hours.count hour * 5 := by exact_mod_cast hnat
    omega
  · intro hle
    have hle' : 1 * hours.length ≤ hours.count hour * 5 := by omega
    exact_mod_cast hle'

/-- The last prefetch is the latest of the history, and each is a cooldown after the one before. -/
structure PrefetchSpaced (s : HotDomains) : Prop where
  last : s.lastPrefetch = (s.prefetched.head?.map Prod.fst)
  apart : s.prefetched.Pairwise fun later earlier => earlier.1 + PREFETCH_COOLDOWN ≤ later.1

theorem PrefetchSpaced.trigger {s : HotDomains} (h : PrefetchSpaced s) (threshold : ℚ)
    (env : HotMoment) : PrefetchSpaced (s.triggerPrefetch threshold env) := by
  rcases triggerPrefetch_cases s threshold env with heq | ⟨hcool, heq⟩
  · rw [heq]
    exact h
  · rw [heq]
    refine ⟨rfl, List.pairwise_cons.mpr ⟨fun p hp => ?_, h.apart⟩⟩
    cases hs : s.prefetched with
    | nil => rw [hs] at hp; cases hp
    | cons q rest =>
      have hlast := h.last
      have hapart := h.apart
      rw [hs] at hlast hapart hp
      simp only [HotDomains.cooling, hlast, List.head?_cons, Option.map_some, Option.any_some,
        decide_eq_false_iff_not] at hcool
      have hcooldown : 0 < PREFETCH_COOLDOWN := by decide
      rcases List.mem_cons.mp hp with rfl | hp
      · simp only
        omega
      · have hle := (List.pairwise_cons.mp hapart).1 p hp
        simp only
        omega

theorem PrefetchSpaced.same {s s' : HotDomains} (h : PrefetchSpaced s)
    (hlast : s'.lastPrefetch = s.lastPrefetch) (hprefetched : s'.prefetched = s.prefetched) :
    PrefetchSpaced s' := by
  refine ⟨?_, ?_⟩
  · rw [hlast, hprefetched]
    exact h.last
  · rw [hprefetched]
    exact h.apart

theorem PrefetchSpaced.step {s : HotDomains} (h : PrefetchSpaced s) (e : HotEvent) :
    PrefetchSpaced (s.step e) := by
  cases e with
  | access domain env => exact h.same rfl rfl
  | check env =>
    simp only [HotDomains.step]
    split
    · exact h
    · exact h.same (check_domains s env).2.2.2 (check_domains s env).2.2.1
  | trigger env =>
    simp only [HotDomains.step]
    split
    · exact PrefetchSpaced.trigger (s := { s with triggering := false }) (h.same rfl rfl) _ env
    · exact h

theorem prefetchSpaced_run (es : List HotEvent) : PrefetchSpaced (hotAfter es) := by
  have hstep : ∀ (s : HotDomains) (e : HotEvent), PrefetchSpaced s → PrefetchSpaced (s.step e) :=
    fun s e h => h.step e
  exact invariant_run hstep ⟨rfl, List.Pairwise.nil⟩ es

/-- **Two prefetches are two minutes apart, and each takes exactly the domains with a fifth of their
accesses in the next hour.** -/
theorem prefetches_spaced (es : List HotEvent) :
    ((hotAfter es).prefetched.Pairwise fun later earlier =>
        earlier.1 + PREFETCH_COOLDOWN ≤ later.1) ∧
      ∀ env, ((hotAfter es).step (.trigger env)).prefetched = (hotAfter es).prefetched ∨
        ∃ domains, ((hotAfter es).step (.trigger env)).prefetched =
            (env.now, domains) :: (hotAfter es).prefetched ∧
          ∀ d, d ∈ domains ↔ (hotAfter es).since d ≠ [] ∧ ((hotAfter es).since d).length ≤
            5 * ((hotAfter es).since d).count ((env.secs / 3600 + 1) % 24) := by
  have htracks := hotTracks_run es
  have hspaced := prefetchSpaced_run es
  generalize hotAfter es = s at htracks hspaced ⊢
  refine ⟨hspaced.apart, fun env => ?_⟩
  simp only [HotDomains.step]
  split
  · rcases triggerPrefetch_cases { s with triggering := false } (1 / 5) env with heq | ⟨-, heq⟩
    · exact .inl (by rw [heq])
    · refine .inr ⟨_, by rw [heq], fun d => ?_⟩
      have hhour : (env.secs / 3600 + 1) % 24 < 24 := Nat.mod_lt _ (by omega)
      rw [mem_prefetchCandidates]
      constructor
      · rintro ⟨stats, hget, hprob⟩
        have hentry := htracks.entry d stats hget
        exact ⟨hentry.nonempty, (hentry.likely hhour).mp hprob⟩
      · rintro ⟨hsome, hmany⟩
        cases hget : s.domains.get d with
        | none => exact absurd (htracks.absent d hget) hsome
        | some stats =>
          exact ⟨stats, rfl, ((htracks.entry d stats hget).likely hhour).mpr hmany⟩
  · exact .inl rfl

end TitanDns.Autopilot
