import Mathlib.Data.List.Basic

/-!
# The first few of a stable sort

Which elements of a list a stable sort by a key puts among the first `k`.

* `ahead` — how many elements come before a given one: those of a smaller key, and of an equal key
  those that stand earlier in the list.
* `mem_take_sorted` — in a list sorted strictly, **an element is among the first `k` exactly when
  fewer than `k` are before it**; `mem_take_mergeSort` — so it is with the stable sort of any list,
  when one counts over the list as it was.
-/

namespace TopK

/-! ## Strictly sorted lists -/

variable {β : Type} {lt : β → β → Prop} [DecidableRel lt]

theorem mem_take_sorted (hasymm : ∀ {p q}, lt p q → ¬ lt q p) {s : List β} (hs : s.Pairwise lt)
    (k : Nat) (p : β) : p ∈ s.take k ↔ p ∈ s ∧ s.countP (fun q => lt q p) < k := by
  induction s generalizing k with
  | nil => simp
  | cons q s ih =>
    obtain ⟨hq, hs⟩ := List.pairwise_cons.mp hs
    cases k with
    | zero => simp
    | succ k =>
      by_cases hp : p = q
      · -- nothing is before the first
        subst hp
        have hnone : (p :: s).countP (fun q => lt q p) = 0 := by
          refine List.countP_eq_zero.mpr fun r hr => ?_
          rw [decide_eq_true_eq]
          rcases List.mem_cons.mp hr with rfl | hr
          · exact fun h => hasymm h h
          · exact hasymm (hq r hr)
        rw [hnone]
        simp
      · have hone : (q :: s).countP (fun r => lt r p) =
            s.countP (fun r => lt r p) + if lt q p then 1 else 0 := by
          rw [List.countP_cons]
          simp only [decide_eq_true_eq]
        rw [List.take_succ_cons, List.mem_cons, List.mem_cons, ih hs, hone]
        constructor
        · rintro (h | ⟨hmem, hcount⟩)
          · exact absurd h hp
          · rw [if_pos (hq p hmem)]
            exact ⟨.inr hmem, by omega⟩
        · rintro ⟨h | hmem, hcount⟩
          · exact absurd h hp
          · rw [if_pos (hq p hmem)] at hcount
            exact .inr ⟨hmem, by omega⟩

/-! ## The stable sort -/

variable {α : Type} (key : α → Nat)

/-- Before, in the order of a list's elements with their places: of a smaller key, or of the same
key and earlier in the list. -/
def Before (p q : α × Nat) : Prop := key p.1 < key q.1 ∨ key p.1 = key q.1 ∧ p.2 < q.2

instance (p q : α × Nat) : Decidable (Before key p q) := inferInstanceAs (Decidable (_ ∨ _))

/-- How many elements of the list come before the element at a place. -/
def ahead (l : List α) (x : α) (i : Nat) : Nat := l.zipIdx.countP fun p => Before key p (x, i)

theorem Before.asymm {p q : α × Nat} (h : Before key p q) : ¬ Before key q p := by
  unfold Before at h ⊢
  omega

/-- The sort with places, whose places are all different, is strict. -/
theorem pairwise_before (l : List α) :
    (l.zipIdx.mergeSort (List.zipIdxLE fun a b => key a ≤ key b)).Pairwise
      (Before key) := by
  have hplaces : (l.zipIdx.mergeSort (List.zipIdxLE fun a b => key a ≤ key b)).Pairwise
      fun p q => p.2 ≠ q.2 := by
    refine List.Pairwise.perm ?_ (List.mergeSort_perm _ _).symm fun h => h.symm
    rw [List.pairwise_iff_getElem]
    intro i j hi hj hij
    rw [List.getElem_zipIdx, List.getElem_zipIdx]
    simp only
    omega
  have hsorted : (l.zipIdx.mergeSort (List.zipIdxLE fun a b => decide (key a ≤ key b))).Pairwise
      fun p q => List.zipIdxLE (fun a b => decide (key a ≤ key b)) p q = true :=
    List.pairwise_mergeSort (List.zipIdxLE_trans fun a b c hab hbc => by
      simp only [decide_eq_true_eq] at *; omega)
    (List.zipIdxLE_total fun a b => by
      simp only [Bool.or_eq_true, decide_eq_true_eq]; omega) l.zipIdx
  refine (hsorted.and hplaces).imp fun {p q} h => ?_
  obtain ⟨hle, hne⟩ := h
  simp only [List.zipIdxLE, decide_eq_true_eq] at hle
  unfold Before
  split at hle
  · split at hle
    · simp only [decide_eq_true_eq] at hle
      omega
    · omega
  · cases hle

theorem mem_take_mergeSort (l : List α) (k : Nat) (x : α) :
    x ∈ (l.mergeSort fun a b => key a ≤ key b).take k ↔
      ∃ i, l[i]? = some x ∧ ahead key l x i < k := by
  rw [← List.mergeSort_zipIdx, ← List.map_take, List.mem_map]
  have hmem (i : Nat) := mem_take_sorted (Before.asymm key) (pairwise_before key l) k (x, i)
  have hcount (i : Nat) : (l.zipIdx.mergeSort (List.zipIdxLE fun a b => key a ≤ key b)).countP
      (fun p => Before key p (x, i)) = ahead key l x i :=
    (List.mergeSort_perm _ _).countP_eq _
  constructor
  · rintro ⟨⟨y, i⟩, hy, rfl⟩
    obtain ⟨hin, hlt⟩ := (hmem i).mp hy
    rw [List.mem_mergeSort, List.mem_zipIdx_iff_getElem?] at hin
    exact ⟨i, hin, by rw [← hcount i]; exact hlt⟩
  · rintro ⟨i, hi, hlt⟩
    refine ⟨(x, i), (hmem i).mpr ⟨?_, by rw [hcount i]; exact hlt⟩, rfl⟩
    rw [List.mem_mergeSort, List.mem_zipIdx_iff_getElem?]
    exact hi

/-- The first element of the sort has the least key. -/
theorem head_mergeSort {l : List α} {x : α}
    (h : (l.mergeSort fun a b => key a ≤ key b).head? = some x) {y : α} (hy : y ∈ l) :
    key x ≤ key y := by
  have hsorted : (l.mergeSort fun a b => decide (key a ≤ key b)).Pairwise
      fun a b => decide (key a ≤ key b) = true := List.pairwise_mergeSort
    (fun a b c hab hbc => by simp only [decide_eq_true_eq] at *; omega)
    (fun a b => by simp only [Bool.or_eq_true, decide_eq_true_eq]; omega) l
  obtain ⟨rest, heq⟩ := List.head?_eq_some_iff.mp h
  rw [heq] at hsorted
  have hy' : y ∈ x :: rest := heq ▸ List.mem_mergeSort.mpr hy
  rcases List.mem_cons.mp hy' with rfl | hy'
  · exact Nat.le_refl _
  · simpa using (List.pairwise_cons.mp hsorted).1 y hy'

end TopK
