import TitanDns.Plugins.AnswerChain
import TitanDns.Lib.PartialMap
import Mathlib.Algebra.GroupWithZero.Nat

/-!
# `probe_and_sort`, probe by probe

* `Probing` — what a run meets: the latency cache, the limit, how each probe ends, and in which
  order they end.
* `Probing.probeAndSort` — the sorted records and the cache that is left; `probeAndSort_eq` connects
  it to the model by address of `AnswerChain`.
* `Probing.labelled` — every address with its latency, the largest number where none is known.
* `Probing.Arranged` — all addresses are kept, by increasing latency.
* `probeAndSort_cache_of_ne` — no latency but those of the addresses asked for is written.

Principal result: `arranged_iff` — **all addresses are kept exactly when they are no more than the
limit or all of them are cached**; those past the limit are dropped.
-/

namespace TitanDns

namespace SmartResolvePlugin

/-- `u64::MAX`: the latency of a probe that failed or timed out. -/
def NO_LATENCY : Nat := 2 ^ 64 - 1

/-- What a run of `probe_and_sort` meets; latencies in milliseconds. -/
structure Probing where
  latencyCache : IpAddr → Option Nat
  cache_le : ∀ ip latency, latencyCache ip = some latency → latency ≤ NO_LATENCY
  maxIpsToProbe : Nat
  /-- How the probe of a position ends; `none` if it fails or times out. -/
  outcome : Nat → Option Nat
  outcome_le : ∀ k latency, outcome k = some latency → latency ≤ NO_LATENCY
  /-- The order in which the results come in. -/
  order : List (Nat × Record) → List (Nat × Record)
  order_perm : ∀ l, (order l).Perm l

namespace Probing

variable (p : Probing) (records : List Record)

/-- `cached_results` before the probes. -/
def cachedResults : List (Nat × Record) :=
  records.filterMap fun r =>
    r.data.ip.bind fun ip => (p.latencyCache ip).map fun latency => (latency, r)

/-- `ips_to_probe` -/
def ipsToProbe : List Record :=
  records.filterMap fun r =>
    r.data.ip.bind fun ip => if (p.latencyCache ip).isNone then some r else none

/-- `max_new` -/
def maxNew : Nat := p.maxIpsToProbe - (p.cachedResults records).length

def latencyMs (k : Nat) : Nat := (p.outcome k).getD NO_LATENCY

/-- The records of a list with the latencies of their probes. -/
def measured (rs : List Record) : List (Nat × Record) :=
  rs.zipIdx.map fun x => (p.latencyMs x.2, x.1)

/-- `cached_results` after the probes, sorted. -/
def results : List (Nat × Record) :=
  let probed := p.order (p.measured ((p.ipsToProbe records).take (p.maxNew records)))
  (p.cachedResults records ++ probed).mergeSort fun x y => x.1 ≤ y.1

/-- `latency_cache.insert`, of a latency that is one. -/
def store (cache : IpAddr → Option Nat) (result : Nat × Record) : IpAddr → Option Nat :=
  match result.2.data.ip with
  | some ip => if result.1 < NO_LATENCY then PartialMap.put cache ip result.1 else cache
  | none => cache

/-- `probe_and_sort`: the records and the cache. -/
def probeAndSort : List Record × (IpAddr → Option Nat) :=
  ((p.results records).map (·.2), (p.results records).foldl store p.latencyCache)

/-! ## The latencies -/

/-- Every address with its latency: that of the cache, that of its probe if it has one within the
limit, and otherwise the largest number. -/
def labelled : List (Nat × Record) :=
  p.cachedResults records ++ (p.ipsToProbe records).zipIdx.map fun x =>
    (if x.2 < p.maxNew records then p.latencyMs x.2 else NO_LATENCY, x.1)

/-- All addresses are kept, by increasing latency; an address without one comes last, as its label
is the largest. -/
structure Arranged (out : List Record) : Prop where
  perm : out.Perm records
  ranked : ∃ ranked : List (Nat × Record), ranked.map (·.2) = out ∧
    ranked.Perm (p.labelled records) ∧ ranked.Pairwise fun x y => x.1 ≤ y.1

variable {p records}

theorem latencyMs_le (k : Nat) : p.latencyMs k ≤ NO_LATENCY := by
  unfold latencyMs
  cases h : p.outcome k with
  | none => exact Nat.le_refl _
  | some latency => exact p.outcome_le k latency h

/-- A cached result is a record with the latency of its address. -/
theorem mem_cachedResults {x : Nat × Record} (h : x ∈ p.cachedResults records) :
    x.2 ∈ records ∧ ∃ ip, x.2.data.ip = some ip ∧ p.latencyCache ip = some x.1 := by
  obtain ⟨r, hr, hdata⟩ := List.mem_filterMap.mp h
  obtain ⟨ip, hip, hcached⟩ := Option.bind_eq_some_iff.mp hdata
  obtain ⟨latency, hlatency, rfl⟩ := Option.map_eq_some_iff.mp hcached
  exact ⟨hr, ip, hip, hlatency⟩

/-- **A label is the largest number at most**, so an address without a latency is last. -/
theorem labelled_le {x : Nat × Record} (h : x ∈ p.labelled records) : x.1 ≤ NO_LATENCY := by
  rcases List.mem_append.mp h with h | h
  · obtain ⟨-, ip, -, hcached⟩ := mem_cachedResults h
    exact p.cache_le ip x.1 hcached
  · obtain ⟨⟨r, k⟩, -, rfl⟩ := List.mem_map.mp h
    show (if k < p.maxNew records then p.latencyMs k else NO_LATENCY) ≤ NO_LATENCY
    split
    · exact latencyMs_le k
    · exact Nat.le_refl _

/-- What is measured are the records. -/
theorem map_measured (rs : List Record) : (p.measured rs).map (·.2) = rs := by
  have hcomp : ((fun x : Nat × Record => x.2) ∘ fun x : Record × Nat => (p.latencyMs x.2, x.1)) =
      Prod.fst := rfl
  rw [measured, List.map_map, hcomp, List.zipIdx_map_fst]

variable (p records) in
/-- The results, up to their order: the cached ones and those probed within the limit. -/
theorem results_perm : (p.results records).Perm
    (p.cachedResults records ++ p.measured ((p.ipsToProbe records).take (p.maxNew records))) :=
  (List.mergeSort_perm _ _).trans ((p.order_perm _).append_left _)

theorem results_sorted : (p.results records).Pairwise fun x y => x.1 ≤ y.1 := by
  have hsorted := @List.pairwise_mergeSort _ (fun x y : Nat × Record => decide (x.1 ≤ y.1))
    (fun a b c hab hbc => by
      simp only [decide_eq_true_eq] at hab hbc ⊢
      omega)
    (fun a b => by
      simp only [Bool.or_eq_true, decide_eq_true_eq]
      omega)
    (p.cachedResults records ++
      p.order (p.measured ((p.ipsToProbe records).take (p.maxNew records))))
  exact hsorted.imp fun h => of_decide_eq_true h

variable (p records) in
/-- **What comes out are the cached addresses and those probed within the limit.** -/
theorem probeAndSort_perm : (p.probeAndSort records).1.Perm
    ((p.cachedResults records).map (·.2) ++ (p.ipsToProbe records).take (p.maxNew records)) := by
  have h := (p.results_perm records).map (·.2)
  rwa [List.map_append, map_measured] at h

theorem take_zipIdx (rs : List Record) (n k : Nat) :
    (rs.zipIdx k).take n = (rs.take n).zipIdx k := by
  induction rs generalizing n k with
  | nil => rw [List.zipIdx_nil, List.take_nil, List.take_nil, List.zipIdx_nil]
  | cons r rs ih =>
    cases n with
    | zero => rfl
    | succ n =>
      rw [List.zipIdx_cons, List.take_succ_cons, ih, List.take_succ_cons, List.zipIdx_cons]

/-- The model by address is this one, where the probes of an address end alike. -/
theorem probeAndSort_eq {probes : Probes} (hcache : probes.cached = p.latencyCache)
    (hmax : probes.maxIpsToProbe = p.maxIpsToProbe) (horder : probes.order = p.order)
    (hlatency : ∀ x ∈ (p.ipsToProbe records).zipIdx, ∀ ip, x.1.data.ip = some ip →
      probes.latency ip = p.latencyMs x.2) :
    SmartResolvePlugin.probeAndSort probes records = (p.probeAndSort records).1 := by
  have hunknown : (records.filterMap fun r => r.data.ip.bind fun ip =>
      if (p.latencyCache ip).isNone then some (probes.latency ip, r) else none) =
      p.measured (p.ipsToProbe records) := by
    have hlabel : (records.filterMap fun r => r.data.ip.bind fun ip =>
        if (p.latencyCache ip).isNone then some (probes.latency ip, r) else none) =
        (p.ipsToProbe records).filterMap fun r =>
          r.data.ip.map fun ip => (probes.latency ip, r) := by
      rw [ipsToProbe, List.filterMap_filterMap]
      apply List.filterMap_congr
      intro r _
      cases hip : r.data.ip with
      | none => rfl
      | some ip =>
        cases hcached : p.latencyCache ip with
        | none => simp [hcached, hip]
        | some latency => simp [hcached]
    have haddress : ∀ x ∈ (p.ipsToProbe records).zipIdx, ∃ ip, x.1.data.ip = some ip := by
      intro x hx
      have hmem : x.1 ∈ p.ipsToProbe records := by
        rw [← List.zipIdx_map_fst 0 (p.ipsToProbe records)]
        exact List.mem_map_of_mem hx
      obtain ⟨r, -, hdata⟩ := List.mem_filterMap.mp hmem
      obtain ⟨ip, hip, hr⟩ := Option.bind_eq_some_iff.mp hdata
      split at hr
      · cases hr
        exact ⟨ip, hip⟩
      · cases hr
    have hzip : ((p.ipsToProbe records).filterMap fun r =>
        r.data.ip.map fun ip => (probes.latency ip, r)) =
        (p.ipsToProbe records).zipIdx.filterMap fun x =>
          x.1.data.ip.map fun ip => (probes.latency ip, x.1) := by
      conv_lhs => rw [← List.zipIdx_map_fst 0 (p.ipsToProbe records), List.filterMap_map]
      rfl
    rw [hlabel, hzip, measured, ← List.filterMap_eq_map]
    apply List.filterMap_congr
    intro x hx
    obtain ⟨ip, hip⟩ := haddress x hx
    rw [hip, Option.map_some, hlatency x hx ip hip]
    rfl
  have htake : (p.measured (p.ipsToProbe records)).take (p.maxNew records) =
      p.measured ((p.ipsToProbe records).take (p.maxNew records)) := by
    rw [measured, measured, ← List.map_take, take_zipIdx]
  unfold SmartResolvePlugin.probeAndSort
  rw [hcache, hmax, horder, hunknown]
  show ((p.cachedResults records ++
    p.order ((p.measured (p.ipsToProbe records)).take (p.maxNew records))).mergeSort
      fun x y => x.1 ≤ y.1).map (·.2) = _
  rw [htake]
  rfl

/-- One result writes the entry of its own address only. -/
theorem store_of_ne {cache : IpAddr → Option Nat} {x : Nat × Record} {ip : IpAddr}
    (h : x.2.data.ip ≠ some ip) : store cache x ip = cache ip := by
  unfold store
  cases hip : x.2.data.ip with
  | none => rfl
  | some ip' =>
    have hne : ip ≠ ip' := by
      rintro rfl
      exact h hip
    show (if x.1 < NO_LATENCY then PartialMap.put cache ip' x.1 else cache) ip = cache ip
    split
    · exact PartialMap.put_of_ne hne cache x.1
    · rfl

theorem foldl_store_of_ne {results : List (Nat × Record)} {cache : IpAddr → Option Nat}
    {ip : IpAddr} (h : ∀ x ∈ results, x.2.data.ip ≠ some ip) :
    results.foldl store cache ip = cache ip := by
  induction results generalizing cache with
  | nil => rfl
  | cons x xs ih =>
    rw [List.foldl_cons, ih fun y hy => h y (List.mem_cons_of_mem _ hy),
      store_of_ne (h x List.mem_cons_self)]

/-- **The latency of an address that was not asked for stays.** -/
theorem probeAndSort_cache_of_ne {ip : IpAddr} (h : ∀ r ∈ records, r.data.ip ≠ some ip) :
    (p.probeAndSort records).2 ip = p.latencyCache ip := by
  apply foldl_store_of_ne
  intro x hx
  apply h
  rcases List.mem_append.mp ((p.results_perm records).mem_iff.mp hx) with hx | hx
  · exact (mem_cachedResults hx).1
  · have hmem : x.2 ∈ (p.measured ((p.ipsToProbe records).take (p.maxNew records))).map (·.2) :=
      List.mem_map_of_mem hx
    rw [map_measured] at hmem
    obtain ⟨r, hr, hdata⟩ := List.mem_filterMap.mp (List.mem_of_mem_take hmem)
    obtain ⟨ip, -, hip⟩ := Option.bind_eq_some_iff.mp hdata
    split at hip
    · cases hip
      exact hr
    · cases hip

/-! ## All addresses or not -/

/-- Address records are split into the cached ones and those to probe. -/
theorem split_perm (haddress : ∀ r ∈ records, r.data.ip.isSome) :
    ((p.cachedResults records).map (·.2) ++ p.ipsToProbe records).Perm records := by
  induction records with
  | nil => exact List.Perm.nil
  | cons r rs ih =>
    have hrest := ih fun r' hr' => haddress r' (List.mem_cons_of_mem _ hr')
    obtain ⟨ip, hip⟩ := Option.isSome_iff_exists.mp (haddress r List.mem_cons_self)
    cases hcached : p.latencyCache ip with
    | none =>
      have hknown : p.cachedResults (r :: rs) = p.cachedResults rs := by
        simp [cachedResults, hip, hcached]
      have hprobe : p.ipsToProbe (r :: rs) = r :: p.ipsToProbe rs := by
        simp [ipsToProbe, hip, hcached]
      rw [hknown, hprobe]
      exact List.perm_middle.trans (hrest.cons r)
    | some latency =>
      have hknown : p.cachedResults (r :: rs) = (latency, r) :: p.cachedResults rs := by
        simp [cachedResults, hip, hcached]
      have hprobe : p.ipsToProbe (r :: rs) = p.ipsToProbe rs := by
        simp [ipsToProbe, hip, hcached]
      rw [hknown, hprobe, List.map_cons, List.cons_append]
      exact hrest.cons r

theorem split_length (haddress : ∀ r ∈ records, r.data.ip.isSome) :
    (p.cachedResults records).length + (p.ipsToProbe records).length = records.length := by
  have h := (split_perm (p := p) haddress).length_eq
  rwa [List.length_append, List.length_map] at h

/-- How many addresses come out. -/
theorem probeAndSort_length : (p.probeAndSort records).1.length =
    (p.cachedResults records).length +
      min (p.maxNew records) (p.ipsToProbe records).length := by
  rw [(p.probeAndSort_perm records).length_eq, List.length_append, List.length_map,
    List.length_take]

/-- No address is to be probed when all are cached. -/
theorem ipsToProbe_eq_nil_iff (haddress : ∀ r ∈ records, r.data.ip.isSome) :
    p.ipsToProbe records = [] ↔
      ∀ r ∈ records, ∀ ip, r.data.ip = some ip → (p.latencyCache ip).isSome := by
  rw [ipsToProbe, List.filterMap_eq_nil_iff]
  constructor
  · intro h r hr ip hip
    have hnone := h r hr
    rw [hip] at hnone
    cases hcached : p.latencyCache ip with
    | some latency => rfl
    | none => simp [hcached] at hnone
  · intro h r hr
    obtain ⟨ip, hip⟩ := Option.isSome_iff_exists.mp (haddress r hr)
    have hsome := h r hr ip hip
    cases hcached : p.latencyCache ip with
    | some latency => simp [hip, hcached]
    | none =>
      rw [hcached] at hsome
      cases hsome

/-- Where every address to probe is within the limit, the results are all addresses by label. -/
theorem results_labelled (h : (p.ipsToProbe records).length ≤ p.maxNew records) :
    (p.results records).Perm (p.labelled records) := by
  have htake : (p.ipsToProbe records).take (p.maxNew records) = p.ipsToProbe records :=
    List.take_of_length_le h
  have hlabels : (p.ipsToProbe records).zipIdx.map (fun x =>
      (if x.2 < p.maxNew records then p.latencyMs x.2 else NO_LATENCY, x.1)) =
      p.measured (p.ipsToProbe records) := by
    apply List.map_congr_left
    intro x hx
    have hlt : x.2 < p.maxNew records := by
      have hbound := (List.mem_zipIdx hx).2.1
      omega
    rw [if_pos hlt]
  have hperm := p.results_perm records
  rw [labelled, hlabels]
  rwa [htake] at hperm

end Probing

/-- What is gathered for probing are addresses. -/
theorem ip_of_mem_unseen {seen : List IpAddr} {records : List Record} {r : Record}
    (h : r ∈ unseen seen records) : r.data.ip.isSome := by
  induction records generalizing seen with
  | nil => cases h
  | cons r' rs ih =>
    unfold unseen at h
    split at h
    · exact ih h
    · rename_i ip hip
      split at h
      · exact ih h
      · rcases List.mem_cons.mp h with rfl | h
        · rw [hip]
          rfl
        · exact ih h

open Probing in
/-- **All addresses are kept exactly when they are no more than the limit or all of them are
cached.** -/
theorem arranged_iff (p : Probing) {records : List Record}
    (haddress : ∀ r ∈ records, r.data.ip.isSome) :
    p.Arranged records (p.probeAndSort records).1 ↔
      records.length ≤ p.maxIpsToProbe ∨
        ∀ r ∈ records, ∀ ip, r.data.ip = some ip → (p.latencyCache ip).isSome := by
  have hlength := split_length (p := p) haddress
  have hfits : (p.ipsToProbe records).length ≤ p.maxNew records ↔
      records.length ≤ p.maxIpsToProbe ∨ p.ipsToProbe records = [] := by
    rw [← List.length_eq_zero_iff]
    unfold maxNew
    omega
  rw [← ipsToProbe_eq_nil_iff haddress, ← hfits]
  constructor
  · intro h
    have hkept := h.perm.length_eq
    rw [probeAndSort_length] at hkept
    omega
  · intro h
    constructor
    · have hperm := p.probeAndSort_perm records
      rw [List.take_of_length_le h] at hperm
      exact hperm.trans (split_perm haddress)
    · exact ⟨p.results records, rfl, results_labelled h, results_sorted⟩

/-- Nothing is cached, the limit is the configuration's default, and every probe takes 10 ms. -/
def exampleProbing : Probing where
  latencyCache := fun _ => none
  cache_le := by simp
  maxIpsToProbe := 5
  outcome := fun _ => some 10
  outcome_le := by
    intro _ latency h
    cases h
    decide
  order := id
  order_perm := fun l => List.Perm.refl l

/-- So many address records of one name. -/
def exampleAddresses (n : Nat) : List Record :=
  (List.range n).map fun k => .fromRdata exampleQuestion.name 300 (.a ⟨192, 0, 2, UInt8.ofNat k⟩)

theorem arranged_iff_five :
    exampleProbing.Arranged (exampleAddresses 5)
      (exampleProbing.probeAndSort (exampleAddresses 5)).1 :=
  (arranged_iff exampleProbing (by decide)).mpr (Or.inl (by decide))

/-- **The sixth address is lost.** -/
theorem sixth_address_lost :
    (exampleProbing.probeAndSort (exampleAddresses 6)).1.length = 5 ∧
    ¬ ∀ (p : Probing) (records : List Record), (∀ r ∈ records, r.data.ip.isSome) →
        p.Arranged records (p.probeAndSort records).1 := by
  have hlength : (exampleProbing.probeAndSort (exampleAddresses 6)).1.length = 5 := by
    rw [Probing.probeAndSort_length]
    decide
  refine ⟨hlength, fun hall => ?_⟩
  have hperm := (hall exampleProbing (exampleAddresses 6) (by decide)).perm.length_eq
  rw [hlength] at hperm
  exact absurd hperm (by decide)

end SmartResolvePlugin

end TitanDns
