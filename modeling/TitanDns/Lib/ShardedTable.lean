import TitanDns.Lib.KeyedTable
import TitanDns.Lib.Tally
import Mathlib.Algebra.BigOperators.Intervals

/-!
# Tables in shards

A table in shards, each behind a lock of its own: what concerns all of it goes from one shard to the
next, and others come in between.

* `Layout` — how many shards there are, and which one a key belongs to; `size`, `countUp`,
  `clearShard` — the table's operations.
* `Counts` — every shard counts the keys of a list that belong there; `Counts.countUp`,
  `Counts.clearShard`: **clearing a shard takes its keys from the list.**
* `Sweep` — parties that count a key each, then add the sizes up shard by shard, and clear the
  shards one by one where there is too much; `Within` — the invariant.
* `Within.size_le` — **however they interleave, the table is over its limit by no more than the
  parties that have counted and are not through with the shards.**
-/

namespace ShardedTable

open Tally

/-- Which shard a key belongs to. -/
structure Layout (K : Type) where
  shards : Nat
  of : K → Nat
  of_lt : ∀ k, of k < shards

namespace Layout

variable {K : Type} (layout : Layout K)

/-- The entries of the shards from `i` on. -/
def sizeFrom (t : Nat → Table K Nat) (i : Nat) : Nat :=
  ∑ j ∈ Finset.Ico i layout.shards, (t j).size

/-- `len()`, if nobody comes in between. -/
def size (t : Nat → Table K Nat) : Nat := layout.sizeFrom t 0

/-- One shard is emptied. -/
def clearShard (t : Nat → Table K Nat) (i : Nat) : Nat → Table K Nat := Function.update t i ∅

theorem sizeFrom_succ (t : Nat → Table K Nat) {i : Nat} (h : i < layout.shards) :
    layout.sizeFrom t i = (t i).size + layout.sizeFrom t (i + 1) :=
  Finset.sum_eq_sum_Ico_succ_bot h _

theorem sizeFrom_end (t : Nat → Table K Nat) {i : Nat} (h : layout.shards ≤ i) :
    layout.sizeFrom t i = 0 := by
  rw [sizeFrom, Finset.Ico_eq_empty_of_le h, Finset.sum_empty]

/-- **One shard changes.** -/
theorem sizeFrom_update (t : Nat → Table K Nat) {a : Nat} (ha : a < layout.shards) (x : Table K Nat)
    (i : Nat) :
    layout.sizeFrom (Function.update t a x) i + (if i ≤ a then (t a).size else 0) =
      layout.sizeFrom t i + if i ≤ a then x.size else 0 := by
  have hrest : ∀ u v : Nat → Table K Nat, (∀ j, j ≠ a → u j = v j) →
      ∑ j ∈ (Finset.Ico i layout.shards).erase a, (u j).size =
        ∑ j ∈ (Finset.Ico i layout.shards).erase a, (v j).size := by
    intro u v huv
    refine Finset.sum_congr rfl fun j hj => ?_
    rw [huv j (Finset.ne_of_mem_erase hj)]
  have hsame := hrest (Function.update t a x) t fun j hj => Function.update_of_ne hj _ _
  by_cases hle : i ≤ a
  · have hmem : a ∈ Finset.Ico i layout.shards := Finset.mem_Ico.mpr ⟨hle, ha⟩
    have hnew := Finset.add_sum_erase _ (fun j => (Function.update t a x j).size) hmem
    have hold := Finset.add_sum_erase _ (fun j => (t j).size) hmem
    simp only [Function.update_self] at hnew
    rw [if_pos hle, if_pos hle]
    unfold sizeFrom
    omega
  · have hnot : a ∉ Finset.Ico i layout.shards := fun hmem => hle (Finset.mem_Ico.mp hmem).1
    rw [Finset.erase_eq_of_notMem hnot] at hsame
    rw [if_neg hle, if_neg hle]
    unfold sizeFrom
    omega

variable [DecidableEq K]

/-- `entry(k).and_modify(|c| *c += 1).or_insert(1)` -/
def countUp (t : Nat → Table K Nat) (k : K) : Nat → Table K Nat :=
  Function.update t (layout.of k) ((t (layout.of k)).countUp k)

/-! ## Counts -/

/-- Every shard counts the keys of the list that belong there. -/
def Counts (t : Nat → Table K Nat) (l : List K) : Prop :=
  ∀ i, (t i).Counts (l.filter (layout.of · = i))

variable {layout} {t : Nat → Table K Nat} {l : List K}

theorem Counts.empty : layout.Counts (fun _ => ∅) [] := fun _ => .empty

/-- An entry and its count. -/
theorem get_of_counts {t : Table K Nat} {i : Nat} (h : t.Counts (l.filter (layout.of · = i)))
    (k : K) : t.get k = if k ∈ l ∧ layout.of k = i then some (l.count k) else none := by
  rw [h k]
  simp only [List.mem_filter, decide_eq_true_eq]
  split
  · rename_i hin
    rw [List.count_filter (by simpa using hin.2)]
  · rfl

theorem Counts.countUp (h : layout.Counts t l) (k : K) :
    layout.Counts (layout.countUp t k) (k :: l) := by
  intro i
  rw [Layout.countUp]
  by_cases hi : layout.of k = i
  · subst hi
    rw [Function.update_self, List.filter_cons_of_pos (by simp)]
    exact (h (layout.of k)).countUp k
  · rw [Function.update_of_ne (Ne.symm hi), List.filter_cons_of_neg (by simpa using hi)]
    exact h i

/-- **Clearing a shard takes its keys from the list.** -/
theorem Counts.clearShard (h : layout.Counts t l) (i : Nat) :
    layout.Counts (clearShard t i) (l.filter fun k => layout.of k ≠ i) := by
  intro j
  rw [Layout.clearShard, List.filter_filter]
  by_cases hj : j = i
  · subst hj
    have hnone : (l.filter fun k => decide (layout.of k = j) && decide (layout.of k ≠ j)) = [] := by
      simp
    rw [Function.update_self, hnone]
    exact .empty
  · have hsame : (l.filter fun k => decide (layout.of k = j) && decide (layout.of k ≠ i)) =
        l.filter (layout.of · = j) := by
      refine List.filter_congr fun k _ => ?_
      by_cases hk : layout.of k = j
      · simp [hk, hj]
      · simp [hk]
    rw [Function.update_of_ne hj, hsame]
    exact h j

end Layout

/-! ## Looking and clearing, shard by shard -/

/-- How far a party is. -/
inductive Sweep where
  /-- It has counted nothing since it was last through with the shards. -/
  | away
  /-- It has counted. -/
  | owing
  /-- It has added up the sizes before shard `i`, or emptied those shards and adds up nothing. -/
  | walking (i sum : Nat)

def Sweep.owes : Sweep → Nat
  | .away => 0
  | _ => 1

section
variable {K C : Type} (layout : Layout K)

/-- Who has counted, the newest first, and how many of them since whom: `since`, of those who are
through, the one that began last; `begun`, each one on the way. -/
structure Ledger (C : Type) where
  adds : List C
  since : Nat
  begun : C → Nat

/-- What is in the table was seen when the last one began, or was counted since; whoever counted
since is not through. -/
structure Ledger.Fits (book : Ledger C) (limit : Nat) (t : Nat → Table K Nat) (f : C → Sweep) :
    Prop where
  size : layout.size t ≤ limit + book.since
  since : book.since ≤ book.adds.length
  nodup : (book.adds.take book.since).Nodup
  owing : ∀ c ∈ book.adds.take book.since, f c ≠ .away
  walk : ∀ c i sum, f c = .walking i sum →
    layout.size t ≤ sum + layout.sizeFrom t i + book.begun c ∧
      c ∉ book.adds.take (book.begun c)

/-- The table keeps within its limit, but for the parties that are not through. -/
def Within (limit : Nat) (t : Nat → Table K Nat) (f : C → Sweep) : Prop :=
  ∃ book : Ledger C, book.Fits layout limit t f

variable {layout} {limit : Nat} {t : Nat → Table K Nat} {f : C → Sweep}

theorem Within.empty : Within layout limit (fun _ => ∅) (fun _ : C => .away) := by
  refine ⟨⟨[], 0, fun _ => 0⟩, ?_, Nat.le_refl _, by simp, by simp, ?_⟩
  · simp [Layout.size, Layout.sizeFrom, Table.size]
  · intro c i sum h
    cases h

variable [DecidableEq C] {c : C}

/-- A party that stays as far as it is. -/
theorem Within.same (h : Within layout limit t f) {x : Sweep} (hx : f c = x) :
    Within layout limit t (Function.update f c x) := by
  rwa [← hx, Function.update_eq_self]

/-- A party counts a key. -/
theorem Within.countUp [DecidableEq K] (h : Within layout limit t f) (hc : f c = .away) (k : K) :
    Within layout limit (layout.countUp t k) (Function.update f c .owing) := by
  obtain ⟨book, hfits⟩ := h
  have hsize : ((t (layout.of k)).countUp k).size ≤ (t (layout.of k)).size + 1 :=
    Table.size_put_le _ _ _
  have hgrows : (t (layout.of k)).size ≤ ((t (layout.of k)).countUp k).size := by
    rw [Table.countUp, Table.size_put]
    split <;> omega
  have hfrom := layout.sizeFrom_update t (layout.of_lt k) ((t (layout.of k)).countUp k)
  have hall := hfrom 0
  rw [if_pos (Nat.zero_le _), if_pos (Nat.zero_le _)] at hall
  refine ⟨⟨c :: book.adds, book.since + 1, fun d => book.begun d + 1⟩, ?_, ?_, ?_, ?_, ?_⟩
  · have hold := hfits.size
    unfold Layout.size Layout.countUp at *
    simp only
    omega
  · have hold := hfits.since
    simp only [List.length_cons]
    omega
  · -- whoever is away has not counted since
    refine List.nodup_cons.mpr ⟨fun hmem => ?_, hfits.nodup⟩
    exact hfits.owing c hmem hc
  · intro d hd
    rcases List.mem_cons.mp hd with rfl | hd
    · simp
    · by_cases hdc : d = c
      · subst hdc
        simp
      · rw [Function.update_of_ne hdc]
        exact hfits.owing d hd
  · intro d i sum hd
    by_cases hdc : d = c
    · subst hdc
      simp at hd
    · rw [Function.update_of_ne hdc] at hd
      obtain ⟨hold, hnot⟩ := hfits.walk d i sum hd
      refine ⟨?_, fun hmem => ?_⟩
      · have hi := hfrom i
        unfold Layout.size Layout.countUp at *
        simp only
        split at hi <;> omega
      · rcases List.mem_cons.mp hmem with rfl | hmem
        · exact hdc rfl
        · exact hnot hmem

/-- A party that has counted begins with the first shard, to look or to clear. -/
theorem Within.begin (h : Within layout limit t f) (hc : f c ≠ .away) :
    Within layout limit t (Function.update f c (.walking 0 0)) := by
  obtain ⟨book, hfits⟩ := h
  refine ⟨⟨book.adds, book.since, Function.update book.begun c 0⟩, hfits.size, hfits.since,
    hfits.nodup, fun d hd => ?_, fun d i sum hd => ?_⟩
  · by_cases hdc : d = c
    · subst hdc
      simp
    · rw [Function.update_of_ne hdc]
      exact hfits.owing d hd
  · by_cases hdc : d = c
    · subst hdc
      rw [Function.update_self] at hd
      cases hd
      simp [Layout.size]
    · rw [Function.update_of_ne hdc] at hd
      simp only [Function.update_of_ne hdc]
      exact hfits.walk d i sum hd

/-- A party looks at a shard. -/
theorem Within.look (h : Within layout limit t f) {i sum : Nat} (hc : f c = .walking i sum)
    (hi : i < layout.shards) :
    Within layout limit t (Function.update f c (.walking (i + 1) (sum + (t i).size))) := by
  obtain ⟨book, hfits⟩ := h
  refine ⟨book, hfits.size, hfits.since, hfits.nodup, fun d hd => ?_, fun d j sum' hd => ?_⟩
  · by_cases hdc : d = c
    · subst hdc
      simp
    · rw [Function.update_of_ne hdc]
      exact hfits.owing d hd
  · by_cases hdc : d = c
    · subst hdc
      rw [Function.update_self] at hd
      cases hd
      obtain ⟨hold, hnot⟩ := hfits.walk d i sum hc
      have hsplit := layout.sizeFrom_succ t hi
      exact ⟨by omega, hnot⟩
    · rw [Function.update_of_ne hdc] at hd
      exact hfits.walk d j sum' hd

/-- A party clears a shard. -/
theorem Within.clear (h : Within layout limit t f) {i : Nat} (hc : f c = .walking i 0)
    (hi : i < layout.shards) :
    Within layout limit (Layout.clearShard t i) (Function.update f c (.walking (i + 1) 0)) := by
  obtain ⟨book, hfits⟩ := h
  have hempty : (∅ : Table K Nat).size = 0 := rfl
  have hfrom := layout.sizeFrom_update t hi ∅
  have hall := hfrom 0
  rw [if_pos (Nat.zero_le _), if_pos (Nat.zero_le _), hempty] at hall
  refine ⟨book, ?_, hfits.since, hfits.nodup, fun d hd => ?_, fun d j sum hd => ?_⟩
  · have hold := hfits.size
    unfold Layout.size Layout.clearShard at *
    omega
  · by_cases hdc : d = c
    · subst hdc
      simp
    · rw [Function.update_of_ne hdc]
      exact hfits.owing d hd
  · by_cases hdc : d = c
    · subst hdc
      rw [Function.update_self] at hd
      cases hd
      obtain ⟨hold, hnot⟩ := hfits.walk d i 0 hc
      have hsplit := layout.sizeFrom_succ t hi
      have hlater := hfrom (i + 1)
      rw [if_neg (by omega), if_neg (by omega)] at hlater
      refine ⟨?_, hnot⟩
      unfold Layout.size Layout.clearShard at *
      omega
    · -- the others see less, by no more than the table has lost
      rw [Function.update_of_ne hdc] at hd
      obtain ⟨hold, hnot⟩ := hfits.walk d j sum hd
      have hj := hfrom j
      refine ⟨?_, hnot⟩
      unfold Layout.size Layout.clearShard at *
      split at hj <;> omega

/-- A party that has seen all shards within the limit, or has emptied them, is through. -/
theorem Within.leave (h : Within layout limit t f) {i sum : Nat} (hc : f c = .walking i sum)
    (hi : layout.shards ≤ i) (hsum : sum ≤ limit) :
    Within layout limit t (Function.update f c .away) := by
  obtain ⟨book, hfits⟩ := h
  obtain ⟨hold, hnot⟩ := hfits.walk c i sum hc
  rw [layout.sizeFrom_end t hi] at hold
  have hsize := hfits.size
  have hsince := hfits.since
  have hfewer : book.adds.take (min book.since (book.begun c)) <+: book.adds.take book.since :=
    List.take_prefix_take_left (Nat.min_le_left _ _)
  have hfewer' : book.adds.take (min book.since (book.begun c)) <+: book.adds.take (book.begun c) :=
    List.take_prefix_take_left (Nat.min_le_right _ _)
  refine ⟨⟨book.adds, min book.since (book.begun c), book.begun⟩, ?_, ?_, ?_, fun d hd => ?_,
    fun d j sum' hd => ?_⟩
  · simp only
    omega
  · simp only
    omega
  · exact hfits.nodup.sublist hfewer.sublist
  · have hdc : d ≠ c := fun heq => hnot (heq ▸ hfewer'.subset hd)
    rw [Function.update_of_ne hdc]
    exact hfits.owing d (hfewer.subset hd)
  · by_cases hdc : d = c
    · subst hdc
      simp at hd
    · rw [Function.update_of_ne hdc] at hd
      exact hfits.walk d j sum' hd

/-- **The table is over its limit by no more than the parties that are not through.** -/
theorem Within.size_le [Fintype C] (h : Within layout limit t f) :
    layout.size t ≤ limit + tally Sweep.owes f := by
  obtain ⟨book, hfits⟩ := h
  have hsize := hfits.size
  have hlen : (book.adds.take book.since).length = book.since := by
    rw [List.length_take, Nat.min_eq_left hfits.since]
  have hcard : (book.adds.take book.since).toFinset.card = book.since := by
    rw [List.toFinset_card_of_nodup hfits.nodup, hlen]
  have howed : book.since ≤ tally Sweep.owes f := by
    have hones : ∑ d ∈ (book.adds.take book.since).toFinset, 1 ≤
        ∑ d ∈ (book.adds.take book.since).toFinset, (f d).owes := by
      refine Finset.sum_le_sum fun d hd => ?_
      have hne := hfits.owing d (List.mem_toFinset.mp hd)
      cases hf : f d with
      | away => exact absurd hf hne
      | owing => exact Nat.le_refl _
      | walking i sum => exact Nat.le_refl _
    have hsub := Finset.sum_le_sum_of_subset
      (f := fun d => (f d).owes) (Finset.subset_univ (book.adds.take book.since).toFinset)
    rw [← Finset.card_eq_sum_ones, hcard] at hones
    unfold tally
    omega
  omega

end

end ShardedTable
