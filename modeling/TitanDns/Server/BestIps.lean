import TitanDns.Server.Hooks
import TitanDns.Lib.TopK
import Mathlib.Algebra.GroupWithZero.Nat

/-!
# `filter_best_ips` over the table of address qualities

* `IpTable`, `getIpQualityFresh`, `isIpKnownBad` — the table, and what is still fresh of it.
* `BestKept` — what the filter is for, as a relation between the answers before and after it.
* `Spoiled` — a family nothing good is known of has an unknown and a bad address, and is kept whole,
  while the other family has an address too many.

Principal result: `bestKept_iff` — **the filter does what it is for exactly when the answers are not
spoiled.**
-/

namespace TitanDns

/-! ## The table -/

/-- What the table holds of one address; times in milliseconds. -/
structure IpEntry where
  quality : IpQuality
  lastCheck : Nat

/-- `IpQuality::needs_recheck`. -/
def IpEntry.needsRecheck (e : IpEntry) (now : Nat) : Bool :=
  if e.quality.reachable then 300000 < now - e.lastCheck else 60000 < now - e.lastCheck

/-- `IP_QUALITY_CACHE` -/
abbrev IpTable := IpAddr → Option IpEntry

namespace IpTable

variable (table : IpTable) (now : Nat)

/-- `get_ip_quality_fresh` -/
def getIpQualityFresh (ip : IpAddr) : Option IpQuality :=
  (table ip).bind fun e => if e.needsRecheck now then none else some e.quality

/-- `is_ip_known_bad` -/
def isIpKnownBad (ip : IpAddr) : Bool :=
  match table ip with
  | some e => !e.quality.reachable && !e.needsRecheck now
  | none => false

/-- The latency of an address known to be reachable; one that was never measured is last. -/
def latency (ip : IpAddr) : Option Nat :=
  (table.getIpQualityFresh now ip).bind fun q =>
    if q.reachable then some (q.tcpLatencyMs.getD ((2 ^ 64 - 1) / 2)) else none

/-- An address nothing fresh is known about. -/
def Unknown (ip : IpAddr) : Prop := table.getIpQualityFresh now ip = none

/-- What the hooks read, with this table. -/
def env (base : HookEnv) : HookEnv :=
  { base with knownBad := table.isIpKnownBad now, quality := table.getIpQualityFresh now }

/-- **An address is of one kind.** -/
theorem kinds (ip : IpAddr) :
    (table.isIpKnownBad now ip = true ∧ table.latency now ip = none ∧ ¬ table.Unknown now ip) ∨
    (table.isIpKnownBad now ip = false ∧ (table.latency now ip).isSome ∧
      ¬ table.Unknown now ip) ∨
    (table.isIpKnownBad now ip = false ∧ table.latency now ip = none ∧ table.Unknown now ip) := by
  unfold latency Unknown isIpKnownBad getIpQualityFresh
  cases table ip with
  | none => simp
  | some e =>
    cases hfresh : e.needsRecheck now with
    | true => simp [hfresh]
    | false =>
      cases hr : e.quality.reachable with
      | true => simp [hfresh, hr]
      | false => simp [hfresh, hr]

end IpTable

namespace ForwardPlugin

/-- The addresses of one family. -/
def family (v4 : Bool) (ips : List IpAddr) : List IpAddr := ips.filter fun ip => isV4 ip == v4

theorem mem_family {v4 : Bool} {ips : List IpAddr} {ip : IpAddr} :
    ip ∈ family v4 ips ↔ ip ∈ ips ∧ isV4 ip = v4 := by
  simp [family]

theorem family_v4 (ips : List IpAddr) : ips.filter isV4 = family true ips :=
  List.filter_congr fun ip _ => (beq_true (isV4 ip)).symm

theorem family_v6 (ips : List IpAddr) : (ips.filter fun ip => !isV4 ip) = family false ips :=
  List.filter_congr fun ip _ => (beq_false (isV4 ip)).symm

/-! ## What the filter is for -/

structure BestKept (table : IpTable) (now : Nat) (before after : Message) : Prop where
  /-- every record that is not an address -/
  others : after.answers.filter (·.data.ip.isNone) = before.answers.filter (·.data.ip.isNone)
  order : after.answers.Sublist before.answers
  survivor : recordIps before.answers ≠ [] → recordIps after.answers ≠ []
  /-- the fastest of each family -/
  fastest : ∀ v4, (∃ ip ∈ family v4 (recordIps before.answers), (table.latency now ip).isSome) →
    ∃ ip ∈ family v4 (recordIps after.answers), ∃ l, table.latency now ip = some l ∧
      ∀ ip' ∈ family v4 (recordIps before.answers), ∀ l', table.latency now ip' = some l' → l ≤ l'
  /-- no bad address beside one that is filtered out -/
  clean : (∃ ip ∈ recordIps before.answers, ip ∉ recordIps after.answers) →
    ∀ ip ∈ recordIps after.answers, table.isIpKnownBad now ip = false

/-- The reachable addresses of a family, in the order of the answers. -/
def reachables (table : IpTable) (now : Nat) (ips : List IpAddr) : List (IpAddr × Nat) :=
  ips.filterMap fun ip => (table.latency now ip).map (ip, ·)

/-- An address too many in a family with reachable ones: a bad one, one that comes after two others
in the order of latencies, or an unknown one after the first. -/
def Surplus (table : IpTable) (now : Nat) (ips : List IpAddr) (ip : IpAddr) : Prop :=
  table.isIpKnownBad now ip = true ∨
    (∃ l, table.latency now ip = some l ∧ ∀ i, (reachables table now ips)[i]? = some (ip, l) →
      2 ≤ TopK.ahead (·.2) (reachables table now ips) (ip, l) i) ∨
    table.Unknown now ip ∧ ips.find? (fun ip' => (table.getIpQualityFresh now ip').isNone) ≠ some ip

/-- One family has an unknown and a bad address and no reachable one; the other has a reachable
address, and one too many. -/
def Spoiled (table : IpTable) (now : Nat) (ips : List IpAddr) : Prop :=
  ∃ v4, (∀ ip ∈ family v4 ips, table.latency now ip = none) ∧
    (∃ ip ∈ family v4 ips, table.Unknown now ip) ∧
    (∃ ip ∈ family v4 ips, table.isIpKnownBad now ip = true) ∧
    (∃ ip ∈ family (!v4) ips, (table.latency now ip).isSome) ∧
    ∃ ip ∈ family (!v4) ips, Surplus table now (family (!v4) ips) ip

/-! ## What the filter collects -/

section

variable {table : IpTable} {now : Nat} {base : HookEnv} {ips : List IpAddr} {ip : IpAddr}

theorem mem_reachables {l : Nat} :
    (ip, l) ∈ reachables table now ips ↔ ip ∈ ips ∧ table.latency now ip = some l := by
  unfold reachables
  rw [List.mem_filterMap]
  constructor
  · rintro ⟨ip', hmem, h⟩
    obtain ⟨l', hl', heq⟩ := Option.map_eq_some_iff.mp h
    cases heq
    exact ⟨hmem, hl'⟩
  · rintro ⟨hmem, hl⟩
    exact ⟨ip, hmem, by rw [hl]; rfl⟩

theorem reachables_ne_nil :
    reachables table now ips ≠ [] ↔ ∃ ip ∈ ips, (table.latency now ip).isSome := by
  simp only [ne_eq, List.eq_nil_iff_forall_not_mem, not_forall, not_not]
  constructor
  · rintro ⟨⟨ip, l⟩, h⟩
    obtain ⟨hmem, hl⟩ := mem_reachables.mp h
    exact ⟨ip, hmem, by rw [hl]; rfl⟩
  · rintro ⟨ip, hmem, h⟩
    obtain ⟨l, hl⟩ := Option.isSome_iff_exists.mp h
    exact ⟨(ip, l), mem_reachables.mpr ⟨hmem, hl⟩⟩

theorem knownIps_env : knownIps (table.env now base) ips = reachables table now ips := by
  unfold knownIps reachables
  rw [List.filterMap_filter]
  refine congrArg (List.filterMap · ips) (funext fun ip => ?_)
  show (if (!table.isIpKnownBad now ip) = true then _ else none) = _
  rcases table.kinds now ip with ⟨hbad, hl, -⟩ | ⟨hbad, -, -⟩ | ⟨hbad, hl, -⟩
  · rw [hbad, hl]
    rfl
  all_goals
    rw [hbad, Bool.not_false, if_pos rfl]
    unfold IpTable.latency IpTable.env
    dsimp only
    cases table.getIpQualityFresh now ip with
    | none => rfl
    | some q =>
      cases hr : q.reachable with
      | true => simp [hr]
      | false => simp [hr]

theorem unknownIps_env : unknownIps (table.env now base) ips =
    ips.filter fun ip => (table.getIpQualityFresh now ip).isNone := by
  unfold unknownIps
  refine List.filter_congr fun ip _ => ?_
  show (!table.isIpKnownBad now ip && (table.getIpQualityFresh now ip).isNone) = _
  rcases table.kinds now ip with ⟨-, -, hknown⟩ | ⟨hbad, -, -⟩ | ⟨hbad, -, -⟩
  · rw [Option.isNone_eq_false_iff.mpr (Option.isSome_iff_ne_none.mpr hknown), Bool.and_false]
  all_goals rw [hbad, Bool.not_false, Bool.true_and]

/-! ## What it keeps of a family -/

/-- An address of the family is kept. -/
def Kept (table : IpTable) (now : Nat) (ips : List IpAddr) (ip : IpAddr) : Prop :=
  let unknown := ips.filter fun ip => (table.getIpQualityFresh now ip).isNone
  (keepOf (reachables table now ips) unknown).2 = true ∨
    ip ∈ (keepOf (reachables table now ips) unknown).1

/-- Without a reachable address: all, if one is unknown. -/
theorem kept_whole (h : reachables table now ips = []) :
    Kept table now ips ip ↔ ∃ ip' ∈ ips, table.Unknown now ip' := by
  simp [Kept, keepOf, h, IpTable.Unknown]

/-- With one: the two fastest, and the first unknown one. -/
theorem kept_chosen (h : reachables table now ips ≠ []) :
    Kept table now ips ip ↔
      (∃ l, (ip, l) ∈ ((reachables table now ips).mergeSort fun a b => a.2 ≤ b.2).take 2) ∨
        ips.find? (fun ip' => (table.getIpQualityFresh now ip').isNone) = some ip := by
  have hempty : (reachables table now ips).isEmpty = false := by
    rw [List.isEmpty_eq_false_iff]
    exact h
  simp only [Kept, keepOf, hempty, Bool.false_eq_true, if_false, false_or, List.mem_append,
    KEEP_KNOWN_PER_FAMILY, KEEP_UNKNOWN_FALLBACK_PER_FAMILY, List.map_take]
  rw [← List.head?_filter, List.take_one, Option.mem_toList, ← List.map_take, List.mem_map]
  simp

theorem unknown_of_find
    (h : ips.find? (fun ip' => (table.getIpQualityFresh now ip').isNone) = some ip) :
    table.Unknown now ip := by
  have := List.find?_some h
  exact Option.isNone_iff_eq_none.mp this

theorem latency_of_fastest {l : Nat}
    (hl : (ip, l) ∈ ((reachables table now ips).mergeSort fun a b => a.2 ≤ b.2).take 2) :
    table.latency now ip = some l :=
  (mem_reachables.mp (List.mem_mergeSort.mp (List.mem_of_mem_take hl))).2

/-- A known one is kept if it is one of the fastest. -/
theorem known_kept_iff (h : reachables table now ips ≠ []) (hknown : ¬ table.Unknown now ip) :
    Kept table now ips ip ↔
      ∃ l, (ip, l) ∈ ((reachables table now ips).mergeSort fun a b => a.2 ≤ b.2).take 2 := by
  rw [kept_chosen h]
  exact or_iff_left fun hfind => hknown (unknown_of_find hfind)

/-- One without a latency is kept if it is the first unknown one. -/
theorem unreached_kept_iff (h : reachables table now ips ≠ [])
    (hnone : table.latency now ip = none) :
    Kept table now ips ip ↔
      ips.find? (fun ip' => (table.getIpQualityFresh now ip').isNone) = some ip := by
  rw [kept_chosen h]
  refine or_iff_right ?_
  rintro ⟨l, hl⟩
  rw [latency_of_fastest hl] at hnone
  cases hnone

/-- **In a family with a reachable address, what is not kept is surplus.** -/
theorem kept_iff (h : reachables table now ips ≠ []) :
    Kept table now ips ip ↔ ¬ Surplus table now ips ip := by
  unfold Surplus
  rcases table.kinds now ip with ⟨hbad, hnone, hknown⟩ | ⟨hbad, hsome, hknown⟩ |
    ⟨hbad, hnone, hunknown⟩
  · rw [unreached_kept_iff h hnone]
    exact iff_of_false (fun hfind => hknown (unknown_of_find hfind)) fun hn => hn (.inl hbad)
  · obtain ⟨l, hl⟩ := Option.isSome_iff_exists.mp hsome
    rw [known_kept_iff h hknown]
    constructor
    · rintro ⟨l', hl'⟩ (hb | ⟨l'', hl'', houtranked⟩ | ⟨hu, -⟩)
      · rw [hbad] at hb
        cases hb
      · obtain ⟨i, hi, hahead⟩ := (TopK.mem_take_mergeSort (·.2) _ 2 (ip, l')).mp hl'
        obtain rfl : l' = l'' := Option.some.inj ((latency_of_fastest hl').symm.trans hl'')
        have := houtranked i hi
        omega
      · exact hknown hu
    · intro hn
      refine ⟨l, (TopK.mem_take_mergeSort (·.2) _ 2 (ip, l)).mpr ?_⟩
      by_contra hnot
      refine hn (.inr (.inl ⟨l, hl, fun i hi => ?_⟩))
      by_contra hlt
      exact hnot ⟨i, hi, by omega⟩
  · rw [unreached_kept_iff h hnone]
    constructor
    · rintro hfind (hb | ⟨l', hl', -⟩ | ⟨-, hnot⟩)
      · rw [hbad] at hb
        cases hb
      · rw [hnone] at hl'
        cases hl'
      · exact hnot hfind
    · intro hn
      by_contra hnot
      exact hn (.inr (.inr ⟨hunknown, hnot⟩))

/-- The fastest of a family. -/
theorem exists_fastest (h : reachables table now ips ≠ []) :
    ∃ ip l, (ip, l) ∈ ((reachables table now ips).mergeSort fun a b => a.2 ≤ b.2).take 2 ∧
      ∀ ip' ∈ ips, ∀ l', table.latency now ip' = some l' → l ≤ l' := by
  cases hsort : (reachables table now ips).mergeSort fun a b => a.2 ≤ b.2 with
  | nil =>
    have := congrArg List.length hsort
    rw [List.length_mergeSort] at this
    exact absurd (List.length_eq_zero_iff.mp this) h
  | cons first rest =>
    refine ⟨first.1, first.2, by simp, fun ip' hip' l' hl' => ?_⟩
    exact TopK.head_mergeSort (·.2) (by rw [hsort]; rfl)
      (mem_reachables.mpr ⟨hip', hl'⟩ : (ip', l') ∈ _)

/-! ## What it keeps of the answers -/

theorem mem_keepOf {known : List (IpAddr × Nat)} {unknown : List IpAddr}
    (h : ip ∈ (keepOf known unknown).1) : (∃ l, (ip, l) ∈ known) ∨ ip ∈ unknown := by
  unfold keepOf at h
  split at h
  · cases h
  · rcases List.mem_append.mp h with h | h
    · obtain ⟨⟨ip', l⟩, hmem, rfl⟩ := List.mem_map.mp h
      exact .inl ⟨l, List.mem_mergeSort.mp (List.mem_of_mem_take hmem)⟩
    · exact .inr (List.mem_of_mem_take h)

/-- The filter is at work: it is on, and some address is reachable. -/
def Active (table : IpTable) (now : Nat) (limit : Bool) (ips : List IpAddr) : Prop :=
  limit = true ∧ ∃ ip ∈ ips, (table.latency now ip).isSome

theorem reachables_family {v4 : Bool} :
    reachables table now (family v4 ips) ≠ [] ↔
      ∃ ip ∈ ips, isV4 ip = v4 ∧ (table.latency now ip).isSome := by
  rw [reachables_ne_nil]
  constructor
  · rintro ⟨ip, hip, h⟩
    exact ⟨ip, (mem_family.mp hip).1, (mem_family.mp hip).2, h⟩
  · rintro ⟨ip, hip, hv4, h⟩
    exact ⟨ip, mem_family.mpr ⟨hip, hv4⟩, h⟩

/-- What a record needs to stay. -/
def Stays (table : IpTable) (now : Nat) (ips : List IpAddr) (r : Record) : Prop :=
  ∀ ip, r.data.ip = some ip → Kept table now (family (isV4 ip) ips) ip

theorem filterBestIps_idle {limit : Bool} {resp : Message}
    (h : ¬ Active table now limit (recordIps resp.answers)) :
    filterBestIps (table.env now base) limit resp = resp := by
  unfold filterBestIps
  cases limit with
  | false => rfl
  | true =>
    have hnone (v4 : Bool) :
        reachables table now (family v4 (recordIps resp.answers)) = [] := by
      by_contra hne
      obtain ⟨ip, hip, -, hl⟩ := reachables_family.mp hne
      exact h ⟨rfl, ip, hip, hl⟩
    simp only [family_v4, family_v6, knownIps_env, hnone, List.isEmpty_nil, Bool.and_self, if_true]

theorem keepOf_ne_nil {known : List (IpAddr × Nat)} (h : known ≠ []) (unknown : List IpAddr) :
    (keepOf known unknown).1 ≠ [] := by
  have hempty : known.isEmpty = false := by
    rw [List.isEmpty_eq_false_iff]
    exact h
  have hlength : 0 < (known.mergeSort fun a b => a.2 ≤ b.2).length := by
    rw [List.length_mergeSort]
    exact List.length_pos_iff.mpr h
  intro hnil
  have := congrArg List.length hnil
  simp only [keepOf, hempty, Bool.false_eq_true, if_false, List.length_append, List.length_map,
    List.length_take, KEEP_KNOWN_PER_FAMILY, List.length_nil] at this
  omega

/-- **At work, it leaves the other records and the addresses that are kept.** -/
theorem filterBestIps_active (base : HookEnv) {limit : Bool} {resp : Message}
    (h : Active table now limit (recordIps resp.answers)) :
    ∃ keep : Record → Bool,
      (filterBestIps (table.env now base) limit resp).answers = resp.answers.filter keep ∧
        ∀ r, keep r = true ↔ Stays table now (recordIps resp.answers) r := by
  obtain ⟨rfl, ip, hip, hl⟩ := h
  set ips := recordIps resp.answers
  have hne : reachables table now (family (isV4 ip) ips) ≠ [] :=
    reachables_family.mpr ⟨ip, hip, rfl, hl⟩
  have hmem {v4 : Bool} {ip : IpAddr} (h : ip ∈ (keepOf (reachables table now (family v4 ips))
      ((family v4 ips).filter fun ip => (table.getIpQualityFresh now ip).isNone)).1) :
      isV4 ip = v4 := by
    rcases mem_keepOf h with ⟨l, hl⟩ | hu
    · exact (mem_family.mp (mem_reachables.mp hl).1).2
    · exact (mem_family.mp (List.mem_filter.mp hu).1).2
  unfold filterBestIps
  simp only [if_true, family_v4, family_v6, knownIps_env, unknownIps_env]
  rw [if_neg ?_, if_neg ?_]
  · refine ⟨_, rfl, fun r => ?_⟩
    unfold Stays RData.ip
    cases r.data with
    | a v =>
      simp only [Bool.or_eq_true, List.contains_iff_mem, List.mem_append, Option.some.injEq,
        forall_eq', Kept, isV4]
      refine or_congr_right ⟨?_, .inl⟩
      rintro (h | h)
      · exact h
      · exact absurd (hmem h) (by simp [isV4])
    | aaaa v =>
      simp only [Bool.or_eq_true, List.contains_iff_mem, List.mem_append, Option.some.injEq,
        forall_eq', Kept, isV4]
      refine or_congr_right ⟨?_, .inr⟩
      rintro (h | h)
      · exact absurd (hmem h) (by simp [isV4])
      · exact h
    | _ => simp
  · intro hempty
    simp only [Bool.and_eq_true, List.isEmpty_iff, List.append_eq_nil_iff] at hempty
    cases hv4 : isV4 ip with
    | true => exact keepOf_ne_nil (hv4 ▸ hne) _ hempty.1.1.1
    | false => exact keepOf_ne_nil (hv4 ▸ hne) _ hempty.1.1.2
  · intro hempty
    rw [Bool.and_eq_true, List.isEmpty_iff, List.isEmpty_iff] at hempty
    cases hv4 : isV4 ip with
    | true => exact (hv4 ▸ hne) hempty.1
    | false => exact (hv4 ▸ hne) hempty.2

/-- The addresses it leaves. -/
theorem mem_filterBestIps {limit : Bool} {resp : Message}
    (h : Active table now limit (recordIps resp.answers)) :
    ip ∈ recordIps (filterBestIps (table.env now base) limit resp).answers ↔
      ip ∈ recordIps resp.answers ∧
        Kept table now (family (isV4 ip) (recordIps resp.answers)) ip := by
  obtain ⟨keep, hanswers, hkeep⟩ := filterBestIps_active base h
  rw [hanswers]
  unfold recordIps at hkeep ⊢
  simp only [List.mem_filterMap, List.mem_filter]
  constructor
  · rintro ⟨r, ⟨hr, hk⟩, hip⟩
    exact ⟨⟨r, hr, hip⟩, (hkeep r).mp hk ip hip⟩
  · rintro ⟨⟨r, hr, hip⟩, hk⟩
    refine ⟨r, ⟨hr, (hkeep r).mpr fun ip' hip' => ?_⟩, hip⟩
    obtain rfl : ip = ip' := Option.some.inj (hip.symm.trans hip')
    exact hk

/-- **What is kept at all events:** the other records, the order, and the fastest of each family. -/
theorem filterBestIps_keeps (table : IpTable) (now : Nat) (base : HookEnv) (limit : Bool)
    (resp : Message) :
    let after := filterBestIps (table.env now base) limit resp
    after.answers.filter (·.data.ip.isNone) = resp.answers.filter (·.data.ip.isNone) ∧
      after.answers.Sublist resp.answers ∧
      ∀ v4, (∃ ip ∈ family v4 (recordIps resp.answers), (table.latency now ip).isSome) →
        ∃ ip ∈ family v4 (recordIps after.answers), ∃ l, table.latency now ip = some l ∧
          ∀ ip' ∈ family v4 (recordIps resp.answers), ∀ l',
            table.latency now ip' = some l' → l ≤ l' := by
  intro after
  have hfastest (v4 : Bool)
      (hv4 : ∃ ip ∈ family v4 (recordIps resp.answers), (table.latency now ip).isSome) :=
    exists_fastest (reachables_ne_nil.mpr hv4)
  by_cases h : Active table now limit (recordIps resp.answers)
  · obtain ⟨keep, hanswers, hkeep⟩ := filterBestIps_active base h
    refine ⟨?_, ?_, fun v4 hv4 => ?_⟩
    · show List.filter _ after.answers = _
      rw [show after.answers = _ from hanswers, List.filter_filter]
      refine List.filter_congr fun r _ => ?_
      cases hr : r.data.ip with
      | none =>
        have : keep r = true := (hkeep r).mpr fun ip hip => by rw [hr] at hip; cases hip
        rw [this]
        rfl
      | some ip => rfl
    · rw [show after.answers = _ from hanswers]
      exact List.filter_sublist
    · obtain ⟨ip, l, htake, hleast⟩ := hfastest v4 hv4
      obtain ⟨hmem, hl⟩ := mem_reachables.mp (List.mem_mergeSort.mp (List.mem_of_mem_take htake))
      obtain ⟨hip, rfl⟩ := mem_family.mp hmem
      refine ⟨ip, mem_family.mpr ⟨(mem_filterBestIps h).mpr ⟨hip, ?_⟩, rfl⟩, l, hl, hleast⟩
      exact (kept_chosen (reachables_ne_nil.mpr hv4)).mpr (.inl ⟨l, htake⟩)
  · have hid : after = resp := filterBestIps_idle h
    rw [hid]
    refine ⟨rfl, List.Sublist.refl _, fun v4 hv4 => ?_⟩
    obtain ⟨ip, l, htake, hleast⟩ := hfastest v4 hv4
    obtain ⟨hmem, hl⟩ := mem_reachables.mp (List.mem_mergeSort.mp (List.mem_of_mem_take htake))
    exact ⟨ip, hmem, l, hl, hleast⟩

/-- A family that is kept whole: what is missing is of the other one. -/
theorem kept_of_unreachable {v4 : Bool} (hnone : reachables table now (family v4 ips) = [])
    (hunknown : ∃ ip ∈ family v4 ips, table.Unknown now ip) (ip : IpAddr) :
    Kept table now (family v4 ips) ip :=
  (kept_whole hnone).mpr hunknown

/-- A bad address stays, and some address does not, exactly in spoiled answers. -/
theorem spoiled_iff (base : HookEnv) {limit : Bool} {resp : Message}
    (h : Active table now limit (recordIps resp.answers)) :
    Spoiled table now (recordIps resp.answers) ↔
      ∃ bad ∈ recordIps (filterBestIps (table.env now base) limit resp).answers,
        table.isIpKnownBad now bad = true ∧ ∃ ip ∈ recordIps resp.answers,
          ip ∉ recordIps (filterBestIps (table.env now base) limit resp).answers := by
  have hnone {v4 : Bool} : reachables table now (family v4 (recordIps resp.answers)) = [] ↔
      ∀ ip ∈ family v4 (recordIps resp.answers), table.latency now ip = none := by
    rw [← not_iff_not, ← ne_eq, reachables_ne_nil]
    simp [Option.isSome_iff_ne_none]
  constructor
  · rintro ⟨v4, hunreachable, hunknown, ⟨bad, hbad, hb⟩, hreachable, ip, hip, hsurplus⟩
    obtain ⟨hmem, rfl⟩ := mem_family.mp hbad
    obtain ⟨hmem', hv4⟩ := mem_family.mp hip
    refine ⟨bad, (mem_filterBestIps h).mpr ⟨hmem, ?_⟩, hb, ip, hmem', fun hstays => ?_⟩
    · exact kept_of_unreachable (hnone.mpr hunreachable) hunknown bad
    · have hkept := ((mem_filterBestIps h).mp hstays).2
      rw [hv4] at hkept
      exact (kept_iff (reachables_ne_nil.mpr hreachable)).mp hkept hsurplus
  · rintro ⟨bad, hbad, hb, ip, hip, hgone⟩
    obtain ⟨hmem, hkept⟩ := (mem_filterBestIps h).mp hbad
    have hdropped : ¬ Kept table now (family (isV4 ip) (recordIps resp.answers)) ip :=
      fun hk => hgone ((mem_filterBestIps h).mpr ⟨hip, hk⟩)
    -- beside a reachable address of its family a bad one would not be kept
    have hunreachable : reachables table now (family (isV4 bad) (recordIps resp.answers)) = [] := by
      by_contra hne
      exact (kept_iff hne).mp hkept (.inl hb)
    have hunknown := (kept_whole hunreachable).mp hkept
    have hother : isV4 ip = !isV4 bad := by
      refine Bool.eq_not.mpr fun heq => hdropped ?_
      rw [heq]
      exact kept_of_unreachable hunreachable hunknown ip
    obtain ⟨-, good, hgood, hl⟩ := h
    have hreachable :
        reachables table now (family (!isV4 bad) (recordIps resp.answers)) ≠ [] := by
      refine reachables_family.mpr ⟨good, hgood, Bool.eq_not.mpr fun heq => ?_, hl⟩
      rw [hnone.mp hunreachable good (mem_family.mpr ⟨hgood, heq⟩)] at hl
      cases hl
    refine ⟨isV4 bad, hnone.mp hunreachable, hunknown, ⟨bad, mem_family.mpr ⟨hmem, rfl⟩, hb⟩,
      reachables_ne_nil.mp hreachable, ip, mem_family.mpr ⟨hip, hother⟩, ?_⟩
    rw [hother] at hdropped
    by_contra hn
    exact hdropped ((kept_iff hreachable).mpr hn)

end

/-- **The filter does what it is for exactly when it is off or the answers are not spoiled.** -/
theorem bestKept_iff (table : IpTable) (now : Nat) (base : HookEnv) (limit : Bool)
    (resp : Message) :
    BestKept table now resp (filterBestIps (table.env now base) limit resp) ↔
      ¬ (limit = true ∧ Spoiled table now (recordIps resp.answers)) := by
  obtain ⟨hothers, horder, hfastest⟩ := filterBestIps_keeps table now base limit resp
  by_cases h : Active table now limit (recordIps resp.answers)
  · rw [and_iff_right h.1, spoiled_iff base h]
    constructor
    · rintro hbest ⟨bad, hbad, hb, hgone⟩
      rw [hbest.clean hgone bad hbad] at hb
      cases hb
    · intro hn
      refine ⟨hothers, horder, fun _ => ?_, hfastest, fun hgone bad hbad => ?_⟩
      · obtain ⟨-, ip, hip, hl⟩ := h
        obtain ⟨ip', hip', -⟩ := hfastest (isV4 ip) ⟨ip, mem_family.mpr ⟨hip, rfl⟩, hl⟩
        exact List.ne_nil_of_mem (mem_family.mp hip').1
      · exact Bool.eq_false_iff.mpr fun hb => hn ⟨bad, hbad, hb, hgone⟩
  · refine iff_of_true ⟨hothers, horder, ?_, hfastest, ?_⟩ ?_
    · rw [filterBestIps_idle h]
      exact id
    · rw [filterBestIps_idle h]
      rintro ⟨ip, hip, hgone⟩
      exact absurd hip hgone
    · rintro ⟨hlimit, v4, -, -, -, ⟨ip, hip, hl⟩, -⟩
      exact h ⟨hlimit, ip, (mem_family.mp hip).1, hl⟩

/-- One IPv4 address that is bad and one that is unknown, one IPv6 address that is reachable and one
that is bad. -/
def mixedAnswers : Message where
  answers :=
    [RData.a ⟨192, 0, 2, 1⟩, .a ⟨192, 0, 2, 2⟩, .aaaa ⟨1, 1⟩, .aaaa ⟨1, 2⟩].map
      (.fromRdata ⟨[[97]], by decide, by decide⟩ 60)

def mixedTable : IpTable := fun ip =>
  if ip = .v4 ⟨192, 0, 2, 1⟩ ∨ ip = .v6 ⟨1, 2⟩ then some ⟨⟨false, none⟩, 0⟩
  else if ip = .v6 ⟨1, 1⟩ then some ⟨⟨true, some 20⟩, 0⟩
  else none

/-- The bad IPv6 address goes, and the bad IPv4 address stays. -/
theorem bad_address_stays :
    ¬ BestKept mixedTable 1000 mixedAnswers
      (filterBestIps (mixedTable.env 1000 ⟨⟨0, 0⟩, fun _ => none, fun _ => false, fun _ => none⟩)
        true mixedAnswers) := by
  intro hbest
  have hactive : Active mixedTable 1000 true (recordIps mixedAnswers.answers) :=
    ⟨rfl, .v6 ⟨1, 1⟩, by decide, by decide⟩
  have hspoiled : Spoiled mixedTable 1000 (recordIps mixedAnswers.answers) :=
    ⟨true, by decide, ⟨.v4 ⟨192, 0, 2, 2⟩, by decide, rfl⟩,
      ⟨.v4 ⟨192, 0, 2, 1⟩, by decide, by decide⟩, ⟨.v6 ⟨1, 1⟩, by decide, by decide⟩,
      .v6 ⟨1, 2⟩, by decide, .inl (by decide)⟩
  obtain ⟨bad, hbad, hb, hgone⟩ :=
    (spoiled_iff ⟨⟨0, 0⟩, fun _ => none, fun _ => false, fun _ => none⟩ hactive).mp hspoiled
  rw [hbest.clean hgone bad hbad] at hb
  cases hb

end ForwardPlugin

end TitanDns
