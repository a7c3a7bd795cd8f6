import TitanDns.Lib.KeyedTable
import TitanDns.Lib.Run
import TitanDns.Lib.TopK
import Mathlib.Algebra.GroupWithZero.Nat
import Mathlib.Data.Finset.Card
import Mathlib.Data.List.Induction

/-!
# Time patterns

How often each domain was asked for in each hour of the day.  Every five minutes the domains that
were asked for most in the next hour are fetched.

* `PatternTable`, `recordTimedAccessLower`, `cleanupTimePatterns` — the counts, which are halved
  when there are too many.
* `getHotDomainsForHour`, `getPrefetchCandidates` — the domains of an hour, by their counts.
* `get_cleanup` — **a cleanup drops the patterns seen once, and no others.**
* `PatternInv` — what every access keeps.

Principal results: `patterns_bounded` — **never more than fifty thousand patterns, none with more
than its accesses, and all with exactly those where there were never more patterns than that**;
`candidates_most` — what is fetched was asked for in the next hour before, and no pattern left out
has a higher count.
-/

namespace TitanDns.Autopilot

open Run Table

def MAX_TIME_PATTERNS : Nat := 50000

/-- A domain and an hour. -/
abbrev Pattern := String × Nat

/-- `TIME_PATTERN_ACCESS` -/
abbrev PatternTable := Table Pattern Nat

/-- The map iterates over its entries in some order. -/
structure PatternOrder where
  order : List ((_ : Pattern) × Nat) → List ((_ : Pattern) × Nat)
  perm : ∀ entries, (order entries).Perm entries

/-- `cleanup_time_patterns` -/
def cleanupTimePatterns (t : PatternTable) : PatternTable :=
  let t := t.retain fun _ count => decide (1 < count)
  if MAX_TIME_PATTERNS / 2 < t.size then
    (t.mapValues fun _ count => count / 2).retain fun _ count => decide (0 < count)
  else t

/-- The entry with one more access; a `u32` saturates. -/
def countAccess (t : PatternTable) (p : Pattern) : PatternTable :=
  t.put p (match t.get p with
    | some count => min (count + 1) (2 ^ 32 - 1)
    | none => 1)

/-- `record_timed_access_lower` -/
def recordTimedAccessLower (t : PatternTable) (p : Pattern) : PatternTable :=
  let t := countAccess t p
  if MAX_TIME_PATTERNS < t.size then cleanupTimePatterns t else t

/-- `get_hot_domains_for_hour` -/
def getHotDomainsForHour (t : PatternTable) (it : PatternOrder) (hour limit : Nat) :
    List (String × Nat) :=
  let domains := ((it.order t.entries).filter fun e => decide (e.1.2 = hour)).map
    fun e => (e.1.1, e.2)
  (domains.mergeSort fun a b => decide (b.2 ≤ a.2)).take limit

/-- `get_prefetch_candidates`, at an hour. -/
def getPrefetchCandidates (t : PatternTable) (it : PatternOrder) (hour limit : Nat) : List String :=
  (getHotDomainsForHour t it ((hour + 1) % 24) limit).map (·.1)

/-- The table after the accesses `ps`. -/
def patternsAfter (ps : List Pattern) : PatternTable := run recordTimedAccessLower ∅ ps

/-! ## Cleanups -/

/-- **A cleanup drops the patterns seen once, and no others.** -/
theorem get_cleanup (t : PatternTable) : ∃ many : Bool, ∀ p,
    (cleanupTimePatterns t).get p =
      ((t.get p).filter (1 < ·)).map fun count => if many then count / 2 else count := by
  unfold cleanupTimePatterns
  simp only
  split
  · refine ⟨true, fun p => ?_⟩
    rw [get_retain_eq, get_mapValues, get_retain_eq]
    cases t.get p with
    | none => rfl
    | some count =>
      by_cases hone : 1 < count
      · have hhalf : 0 < count / 2 := by omega
        simp [Option.filter_some, hone, hhalf]
      · simp [Option.filter_some, hone]
  · refine ⟨false, fun p => ?_⟩
    rw [get_retain_eq]
    cases t.get p with
    | none => rfl
    | some count => by_cases hone : 1 < count <;> simp [Option.filter_some, hone]

theorem size_cleanup_lt {t : PatternTable} {p : Pattern} (h : t.get p = some 1) :
    (cleanupTimePatterns t).size < t.size := by
  have hlt : (t.retain fun _ count => decide (1 < count)).size < t.size :=
    size_retain_lt h (by simp)
  unfold cleanupTimePatterns
  simp only
  split
  · refine Nat.lt_of_le_of_lt (size_retain_le _ _) ?_
    rw [size_mapValues]
    exact hlt
  · exact hlt

/-! ## Runs -/

/-- What every access keeps. -/
structure PatternInv (ps : List Pattern) (t : PatternTable) : Prop where
  size : t.size ≤ MAX_TIME_PATTERNS
  counts : ∀ p count, t.get p = some count →
    0 < count ∧ count ≤ ps.count p ∧ count ≤ 2 ^ 32 - 1

/-- The count after one more access. -/
theorem get_countAccess (t : PatternTable) (p p' : Pattern) :
    (countAccess t p).get p' =
      if p' = p then
        some (match t.get p with
          | some count => min (count + 1) (2 ^ 32 - 1)
          | none => 1)
      else t.get p' := by
  unfold countAccess
  by_cases hp : p' = p
  · subst hp
    rw [get_put_self, if_pos rfl]
  · rw [get_put_of_ne _ _ hp, if_neg hp]

theorem PatternInv.counted {ps : List Pattern} {t : PatternTable} (h : PatternInv ps t)
    (p : Pattern) {p' : Pattern} {count : Nat} (hget : (countAccess t p).get p' = some count) :
    0 < count ∧ count ≤ (ps ++ [p]).count p' ∧ count ≤ 2 ^ 32 - 1 := by
  rw [get_countAccess] at hget
  rw [List.count_append, List.count_singleton]
  split at hget
  · rename_i hp
    subst hp
    cases hold : t.get p' with
    | none =>
      rw [hold] at hget
      have hcount : 1 = count := Option.some.inj hget
      simp only [beq_self_eq_true, if_true]
      omega
    | some old =>
      have hcounts := h.counts p' old hold
      rw [hold] at hget
      have hcount : min (old + 1) (2 ^ 32 - 1) = count := Option.some.inj hget
      simp only [beq_self_eq_true, if_true]
      omega
  · have hcounts := h.counts p' count hget
    omega

/-- **One more access**: where the table is too large then, its pattern is new, and goes again. -/
theorem PatternInv.access {ps : List Pattern} {t : PatternTable} (h : PatternInv ps t)
    (p : Pattern) : PatternInv (ps ++ [p]) (recordTimedAccessLower t p) := by
  have hsize := size_put t p (match t.get p with
    | some count => min (count + 1) (2 ^ 32 - 1)
    | none => 1)
  have hold := h.size
  unfold recordTimedAccessLower
  simp only
  split
  · rename_i hmany
    have hnew : t.get p = none := by
      by_contra hknown
      obtain ⟨count, hcount⟩ := Option.ne_none_iff_exists'.mp hknown
      have hmem : p ∈ t.keys := List.mem_map.mpr ⟨_, mem_entries.mpr hcount, rfl⟩
      have hsame : (countAccess t p).size = t.size := hsize.trans (if_pos hmem)
      omega
    have hone : (countAccess t p).get p = some 1 := by simp [get_countAccess, hnew]
    have hless := size_cleanup_lt hone
    have hadd : (countAccess t p).size ≤ t.size + 1 := size_put_le _ _ _
    obtain ⟨many, hget⟩ := get_cleanup (countAccess t p)
    refine ⟨by omega, fun p' count hcount => ?_⟩
    rw [hget] at hcount
    obtain ⟨before, hbefore, hthin⟩ := Option.map_eq_some_iff.mp hcount
    obtain ⟨hsome, htwo⟩ := Option.filter_eq_some_iff.mp hbefore
    have hcounts := h.counted p hsome
    rw [decide_eq_true_eq] at htwo
    cases many with
    | true =>
      simp only [if_true] at hthin
      omega
    | false =>
      simp only [Bool.false_eq_true, if_false] at hthin
      omega
  · rename_i hfew
    exact ⟨by omega, fun p' count hcount => h.counted p hcount⟩

theorem patternsAfter_append (ps : List Pattern) (p : Pattern) :
    patternsAfter (ps ++ [p]) = recordTimedAccessLower (patternsAfter ps) p := run_append _ _ _

theorem patterns_inv (ps : List Pattern) : PatternInv ps (patternsAfter ps) := by
  induction ps using List.reverseRecOn with
  | nil => exact ⟨by simp [patternsAfter, Table.size], by simp [patternsAfter]⟩
  | append_singleton ps p ih =>
    rw [patternsAfter_append]
    exact ih.access p

/-- As long as there is room nothing is forgotten. -/
structure Remembers (ps : List Pattern) (t : PatternTable) : Prop where
  counts : ∀ p, t.get p = if p ∈ ps then some (min (ps.count p) (2 ^ 32 - 1)) else none

theorem Remembers.size {ps : List Pattern} {t : PatternTable} (h : Remembers ps t) :
    t.size ≤ ps.toFinset.card := by
  have hkeys : t.keys.toFinset ⊆ ps.toFinset := by
    intro p hp
    obtain ⟨e, he, rfl⟩ := List.mem_map.mp (List.mem_toFinset.mp hp)
    have hget := mem_entries.mp he
    rw [h.counts] at hget
    split at hget
    · simpa
    · cases hget
  have hnodup : t.keys.Nodup := t.nodupKeys
  have hcard := Finset.card_le_card hkeys
  rwa [List.toFinset_card_of_nodup hnodup] at hcard

theorem Remembers.access {ps : List Pattern} {t : PatternTable} (h : Remembers ps t) (p : Pattern)
    (hroom : (ps ++ [p]).toFinset.card ≤ MAX_TIME_PATTERNS) :
    Remembers (ps ++ [p]) (recordTimedAccessLower t p) := by
  have hcounted : Remembers (ps ++ [p]) (countAccess t p) := by
    refine ⟨fun p' => ?_⟩
    rw [get_countAccess, List.count_append, List.count_singleton]
    by_cases hp : p' = p
    · subst hp
      rw [h.counts]
      by_cases hmem : p' ∈ ps
      · have hmin : min (min (ps.count p') (2 ^ 32 - 1) + 1) (2 ^ 32 - 1) =
            min (ps.count p' + 1) (2 ^ 32 - 1) := by omega
        simp only [hmem, if_true, hmin, beq_self_eq_true, List.mem_append, true_or]
      · simp [hmem, List.count_eq_zero.mpr hmem]
    · have hne : (p == p') = false := by simp [Ne.symm hp]
      simp [hp, h.counts, hne]
  have hsize := hcounted.size
  unfold recordTimedAccessLower
  simp only
  rw [if_neg (by omega)]
  exact hcounted

theorem remembers (ps : List Pattern) (hroom : ps.toFinset.card ≤ MAX_TIME_PATTERNS) :
    Remembers ps (patternsAfter ps) := by
  induction ps using List.reverseRecOn with
  | nil => exact ⟨fun p => by simp [patternsAfter]⟩
  | append_singleton ps p ih =>
    rw [patternsAfter_append]
    have hless : ps.toFinset.card ≤ (ps ++ [p]).toFinset.card :=
      Finset.card_le_card fun p' hp' => by
        rw [List.toFinset_append]
        exact Finset.mem_union_left _ hp'
    exact (ih (Nat.le_trans hless hroom)).access p hroom

/-- **Never more than fifty thousand patterns, none with more than its accesses**; as long as there
were never more patterns than that, with exactly its accesses. -/
theorem patterns_bounded (ps : List Pattern) :
    (patternsAfter ps).size ≤ MAX_TIME_PATTERNS ∧
      (∀ p count, (patternsAfter ps).get p = some count →
        0 < count ∧ count ≤ ps.count p ∧ count ≤ 2 ^ 32 - 1) ∧
      (ps.toFinset.card ≤ MAX_TIME_PATTERNS → ∀ p, (patternsAfter ps).get p =
        if p ∈ ps then some (min (ps.count p) (2 ^ 32 - 1)) else none) := by
  have h := patterns_inv ps
  exact ⟨h.size, h.counts, fun hroom => (remembers ps hroom).counts⟩

/-! ## Candidates -/

/-- What `getHotDomainsForHour` returns. -/
structure Hottest (t : PatternTable) (hour limit : Nat) (l : List (String × Nat)) : Prop where
  length : l.length ≤ limit
  nodup : (l.map (·.1)).Nodup
  counts : ∀ x ∈ l, t.get (x.1, hour) = some x.2
  sorted : l.Pairwise fun x y => y.2 ≤ x.2
  /-- Who is left out has no higher count than anyone within, and then there is no room. -/
  others : ∀ domain count, t.get (domain, hour) = some count → (domain, count) ∉ l →
    l.length = limit ∧ ∀ x ∈ l, count ≤ x.2

/-- The entries of an hour. -/
theorem mem_hour {t : PatternTable} {it : PatternOrder} {hour : Nat} {x : String × Nat} :
    x ∈ ((it.order t.entries).filter fun e => decide (e.1.2 = hour)).map
      (fun e => (e.1.1, e.2)) ↔ t.get (x.1, hour) = some x.2 := by
  rw [List.mem_map]
  constructor
  · rintro ⟨e, he, rfl⟩
    obtain ⟨hmem, hhour⟩ := List.mem_filter.mp he
    rw [decide_eq_true_eq] at hhour
    subst hhour
    exact mem_entries.mp ((it.perm _).mem_iff.mp hmem)
  · intro hget
    refine ⟨⟨(x.1, hour), x.2⟩, List.mem_filter.mpr ⟨?_, by simp⟩, rfl⟩
    exact (it.perm _).mem_iff.mpr (mem_entries.mpr hget)

theorem nodup_hour (t : PatternTable) (it : PatternOrder) (hour : Nat) :
    ((((it.order t.entries).filter fun e => decide (e.1.2 = hour)).map
      fun e => (e.1.1, e.2)).map (·.1)).Nodup := by
  have hentries : (t.entries.map Sigma.fst).Nodup := t.nodupKeys
  have hkeys : ((it.order t.entries).map Sigma.fst).Nodup :=
    ((it.perm t.entries).map Sigma.fst).nodup_iff.mpr hentries
  rw [List.map_map]
  have hpart : (((it.order t.entries).filter fun e => decide (e.1.2 = hour)).map
      Sigma.fst).Nodup := hkeys.sublist (List.filter_sublist.map _)
  refine List.Nodup.of_map (fun domain => (domain, hour)) ?_
  rw [List.map_map]
  have hsame : (((it.order t.entries).filter fun e => decide (e.1.2 = hour)).map
      ((fun domain => (domain, hour)) ∘ ((fun x : String × Nat => x.1) ∘
        fun e : (_ : Pattern) × Nat => (e.1.1, e.2)))) =
      ((it.order t.entries).filter fun e => decide (e.1.2 = hour)).map Sigma.fst := by
    refine List.map_congr_left fun e he => ?_
    have hhour := (List.mem_filter.mp he).2
    rw [decide_eq_true_eq] at hhour
    simp [← hhour]
  rw [hsame]
  exact hpart

/-- **The domains of an hour with the highest counts.** -/
theorem hottest (t : PatternTable) (it : PatternOrder) (hour limit : Nat) :
    Hottest t hour limit (getHotDomainsForHour t it hour limit) := by
  unfold getHotDomainsForHour
  simp only
  have hmem := @mem_hour t it hour
  have hnodup := nodup_hour t it hour
  generalize ((it.order t.entries).filter fun e => decide (e.1.2 = hour)).map
    (fun e => (e.1.1, e.2)) = domains at hmem hnodup ⊢
  have hsorted : (domains.mergeSort fun a b => decide (b.2 ≤ a.2)).Pairwise
      fun a b => decide (b.2 ≤ a.2) = true := List.pairwise_mergeSort
    (fun a b c hab hbc => by simp only [decide_eq_true_eq] at *; omega)
    (fun a b => by simp only [Bool.or_eq_true, decide_eq_true_eq]; omega) domains
  have hperm := List.mergeSort_perm domains fun a b => decide (b.2 ≤ a.2)
  generalize (domains.mergeSort fun a b => decide (b.2 ≤ a.2)) = sorted at hsorted hperm ⊢
  have hall : ∀ x, x ∈ sorted ↔ t.get (x.1, hour) = some x.2 := fun x =>
    hperm.mem_iff.trans hmem
  refine ⟨List.length_take_le _ _, ?_, fun x hx => (hall x).mp (List.mem_of_mem_take hx), ?_, ?_⟩
  · exact ((hperm.map (·.1)).nodup_iff.mpr hnodup).sublist ((List.take_sublist _ _).map _)
  · exact (hsorted.sublist (List.take_sublist _ _)).imp fun h => by simpa using h
  · intro domain count hget hout
    have hin : (domain, count) ∈ sorted := (hall _).mpr hget
    rw [← List.take_append_drop limit sorted] at hin hsorted
    have hdrop : (domain, count) ∈ sorted.drop limit :=
      (List.mem_append.mp hin).resolve_left hout
    obtain ⟨-, -, hacross⟩ := List.pairwise_append.mp hsorted
    refine ⟨?_, fun x hx => by simpa using hacross x hx _ hdrop⟩
    have hpos := List.length_pos_of_mem hdrop
    rw [List.length_drop] at hpos
    rw [List.length_take]
    omega

/-- **What is fetched was asked for in the next hour before**, no name is fetched twice, and no
pattern of that hour that is left out has a higher count. -/
theorem candidates_most (ps : List Pattern) (it : PatternOrder) (hour limit : Nat) :
    (getPrefetchCandidates (patternsAfter ps) it hour limit).Nodup ∧
      (getPrefetchCandidates (patternsAfter ps) it hour limit).length ≤ limit ∧
      ∀ domain ∈ getPrefetchCandidates (patternsAfter ps) it hour limit,
        (domain, (hour + 1) % 24) ∈ ps ∧
        ∃ count, (patternsAfter ps).get (domain, (hour + 1) % 24) = some count ∧
          ∀ domain' count', (patternsAfter ps).get (domain', (hour + 1) % 24) = some count' →
            domain' ∉ getPrefetchCandidates (patternsAfter ps) it hour limit → count' ≤ count := by
  have h := hottest (patternsAfter ps) it ((hour + 1) % 24) limit
  have hinv := patterns_inv ps
  unfold getPrefetchCandidates
  refine ⟨h.nodup, by simpa using h.length, fun domain hdomain => ?_⟩
  obtain ⟨x, hx, rfl⟩ := List.mem_map.mp hdomain
  have hget := h.counts x hx
  obtain ⟨hpos, hle, -⟩ := hinv.counts _ _ hget
  refine ⟨List.count_pos_iff.mp (by omega), x.2, hget, fun domain' count' hget' hout => ?_⟩
  have hnot : (domain', count') ∉
      getHotDomainsForHour (patternsAfter ps) it ((hour + 1) % 24) limit := by
    intro hin
    exact hout (List.mem_map_of_mem hin)
  exact (h.others domain' count' hget' hnot).2 x hx

end TitanDns.Autopilot
