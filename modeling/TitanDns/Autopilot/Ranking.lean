import TitanDns.Autopilot.Registry

/-!
# Ranking the upstreams

* `scopeForLabel` — the network an upstream belongs to, by its label.
* `computeRankedUpstreams` — the available upstreams of a scope, best first; all of them when none
  is registered for the scope.  The score is a parameter.
* `getRankedUpstreamsCached` — the ranking, or the snapshot of an earlier one while it is young or
  no score has changed.

Principal result: `mem_computeRankedUpstreams` — **what is ranked**.
-/

namespace TitanDns.Autopilot

open UpstreamMetrics AutoPilot

inductive NetworkScope where
  | global
  | domestic
  | foreign
  deriving DecidableEq, Repr

def scopeForLabel (label : String) : NetworkScope :=
  let l := label.toLower
  if (startsWithText l "udp://" || containsText l "aliapi://") && !containsText l "127.0.0.1" &&
      !containsText l "[::1]" && !containsText l "localhost" then .domestic
  else if startsWithText l "https://" || startsWithText l "tls://" || startsWithText l "quic://"
    then .foreign
  else .global

def filterUpstreamsByScope (scope : NetworkScope) (all : List UpstreamMetrics) :
    List UpstreamMetrics :=
  match scope with
  | .global => all
  | scope => all.filter (scopeForLabel ·.label == scope)

/-- The upstreams that are ranked for a scope. -/
def scopedUpstreams (scope : NetworkScope) (all : List UpstreamMetrics) : List UpstreamMetrics :=
  let own := filterUpstreamsByScope scope all
  if own.isEmpty then all else own

def computeRankedUpstreams (score : UpstreamMetrics → Nat) (a : AutoPilot) (now : Nat)
    (scope : NetworkScope) : List String :=
  let available := (scopedUpstreams scope a.upstreams).filter (·.isAvailable now)
  (available.mergeSort fun u v => score v ≤ score u).map (·.label)

structure RankSnapshot where
  ts : Nat
  epoch : Nat
  ranks : List String

/-- `UPSTREAM_RANK_CACHE_TTL`: 200 ms. -/
def UPSTREAM_RANK_CACHE_TTL : Nat := 200000000

/-- The snapshot is used instead of a new ranking. -/
def RankSnapshot.reused (cached : RankSnapshot) (a : AutoPilot) (now : Nat) : Bool :=
  !cached.ranks.isEmpty &&
    (decide (now - cached.ts < UPSTREAM_RANK_CACHE_TTL) || cached.epoch == a.epoch)

/-- The ranking, and the snapshot it leaves. -/
def getRankedUpstreamsCached (score : UpstreamMetrics → Nat) (a : AutoPilot) (now : Nat)
    (scope : NetworkScope) (cached : RankSnapshot) : List String × RankSnapshot :=
  if now - cached.ts < UPSTREAM_RANK_CACHE_TTL ∧ cached.ranks.isEmpty = false then
    (cached.ranks, cached)
  else if cached.epoch = a.epoch ∧ cached.ranks.isEmpty = false then
    (cached.ranks, { cached with ts := now })
  else
    let ranks := computeRankedUpstreams score a now scope
    (ranks, ⟨now, a.epoch, ranks⟩)

theorem getRanked_reused {score : UpstreamMetrics → Nat} {a : AutoPilot} {now : Nat}
    {scope : NetworkScope} {cached : RankSnapshot} (h : cached.reused a now = true) :
    (getRankedUpstreamsCached score a now scope cached).1 = cached.ranks := by
  unfold RankSnapshot.reused at h
  simp only [Bool.and_eq_true, Bool.not_eq_true', Bool.or_eq_true, decide_eq_true_eq,
    beq_iff_eq] at h
  unfold getRankedUpstreamsCached
  split
  · rfl
  · rename_i hold
    rw [if_pos ⟨h.2.resolve_left fun hyoung => hold ⟨hyoung, h.1⟩, h.1⟩]

theorem getRanked_computed {score : UpstreamMetrics → Nat} {a : AutoPilot} {now : Nat}
    {scope : NetworkScope} {cached : RankSnapshot} (h : cached.reused a now = false) :
    (getRankedUpstreamsCached score a now scope cached).1 =
      computeRankedUpstreams score a now scope := by
  unfold RankSnapshot.reused at h
  simp only [Bool.and_eq_false_iff, Bool.not_eq_false', Bool.or_eq_false_iff,
    decide_eq_false_iff_not, beq_eq_false_iff_ne] at h
  unfold getRankedUpstreamsCached
  rw [if_neg, if_neg]
  · rintro ⟨hepoch, hsome⟩
    rcases h with h | h
    · rw [hsome] at h
      cases h
    · exact h.2 hepoch
  · rintro ⟨hyoung, hsome⟩
    rcases h with h | h
    · rw [hsome] at h
      cases h
    · exact h.1 hyoung

/-- No registered upstream belongs to the scope. -/
def Unscoped (scope : NetworkScope) (a : AutoPilot) : Prop :=
  ∀ m ∈ a.upstreams, scopeForLabel m.label ≠ scope

theorem mem_scopedUpstreams {scope : NetworkScope} (hscope : scope ≠ .global) (a : AutoPilot)
    (m : UpstreamMetrics) :
    m ∈ scopedUpstreams scope a.upstreams ↔
      m ∈ a.upstreams ∧ (scopeForLabel m.label = scope ∨ Unscoped scope a) := by
  have hfilter : filterUpstreamsByScope scope a.upstreams =
      a.upstreams.filter (scopeForLabel ·.label == scope) := by
    cases scope with
    | global => exact absurd rfl hscope
    | domestic => rfl
    | foreign => rfl
  have hempty : (filterUpstreamsByScope scope a.upstreams).isEmpty = true ↔ Unscoped scope a := by
    rw [hfilter, List.isEmpty_iff, List.filter_eq_nil_iff]
    simp [Unscoped]
  unfold scopedUpstreams
  simp only
  split
  · rename_i h
    have hnone := hempty.mp h
    exact ⟨fun hm => ⟨hm, Or.inr hnone⟩, fun hm => hm.1⟩
  · rename_i h
    have hsome : ¬ Unscoped scope a := fun hnone => h (hempty.mpr hnone)
    rw [hfilter, List.mem_filter]
    simp [hsome]

/-- **What is ranked**: the available upstreams of the scope, or of all scopes if it has none. -/
theorem mem_computeRankedUpstreams {score : UpstreamMetrics → Nat} {scope : NetworkScope}
    (hscope : scope ≠ .global) (a : AutoPilot) (now : Nat) (label : String) :
    label ∈ computeRankedUpstreams score a now scope ↔
      ∃ m, a.get label = some m ∧ m.isAvailable now = true ∧
        (scopeForLabel label = scope ∨ Unscoped scope a) := by
  unfold computeRankedUpstreams
  simp only
  rw [List.mem_map]
  constructor
  · rintro ⟨m, hm, rfl⟩
    obtain ⟨hm, havailable⟩ := List.mem_filter.mp (List.mem_mergeSort.mp hm)
    obtain ⟨hmem, hin⟩ := (mem_scopedUpstreams hscope a m).mp hm
    exact ⟨m, get_label hmem, havailable, hin⟩
  · rintro ⟨m, hget, havailable, hin⟩
    obtain ⟨hmem, rfl⟩ := get_some hget
    refine ⟨m, List.mem_mergeSort.mpr (List.mem_filter.mpr ⟨?_, havailable⟩), rfl⟩
    exact (mem_scopedUpstreams hscope a m).mpr ⟨hmem, hin⟩

end TitanDns.Autopilot
