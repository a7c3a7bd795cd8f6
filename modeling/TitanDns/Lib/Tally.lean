import Mathlib.Algebra.Order.BigOperators.Group.Finset
import Mathlib.Data.Fintype.Card

/-!
# Sums over parties

Finitely many parties, each with a state of its own, of which one moves at a time.

* `tally g f` — the sum over all parties of what `g` makes of the state.
* `tally_update` — **when one party moves, the sum moves by what that party's state is worth.**
* `tally_le_card` — parties that are worth at most one.
-/

namespace Tally

variable {C P : Type*} [Fintype C] [DecidableEq C]

/-- The sum of `g` over the states of all parties. -/
def tally (g : P → ℕ) (f : C → P) : ℕ := ∑ c, g (f c)

/-- **One party moves.** -/
theorem tally_update (g : P → ℕ) (f : C → P) (c : C) (x : P) :
    tally g (Function.update f c x) + g (f c) = tally g f + g x := by
  have hrest : ∑ c' ∈ Finset.univ.erase c, g (Function.update f c x c') =
      ∑ c' ∈ Finset.univ.erase c, g (f c') := by
    refine Finset.sum_congr rfl fun c' hc' => ?_
    rw [Function.update_of_ne (Finset.ne_of_mem_erase hc')]
  have hnew := Finset.add_sum_erase Finset.univ (fun c' => g (Function.update f c x c'))
    (Finset.mem_univ c)
  have hold := Finset.add_sum_erase Finset.univ (fun c' => g (f c')) (Finset.mem_univ c)
  simp only [Function.update_self] at hnew
  unfold tally
  omega

omit [DecidableEq C] in
/-- Parties that are worth at most one. -/
theorem tally_le_card {g : P → ℕ} (hg : ∀ x, g x ≤ 1) (f : C → P) : tally g f ≤ Fintype.card C := by
  have hsum := Finset.sum_le_card_nsmul Finset.univ (fun c => g (f c)) 1 fun c _ => hg (f c)
  simpa [tally] using hsum

omit [DecidableEq C] in
/-- Parties that are worth at most one, and one of them nothing. -/
theorem tally_lt_card {g : P → ℕ} (hg : ∀ x, g x ≤ 1) {f : C → P} {c : C} (hc : g (f c) = 0) :
    tally g f < Fintype.card C := by
  have hlt : ∑ c, g (f c) < ∑ _c : C, 1 :=
    Finset.sum_lt_sum (fun c _ => hg (f c)) ⟨c, Finset.mem_univ c, by omega⟩
  simpa [tally] using hlt

omit [DecidableEq C] in
theorem tally_add (g g' : P → ℕ) (f : C → P) :
    tally (fun x => g x + g' x) f = tally g f + tally g' f := Finset.sum_add_distrib

omit [DecidableEq C] in
theorem tally_eq_zero {g : P → ℕ} {f : C → P} (h : ∀ c, g (f c) = 0) : tally g f = 0 :=
  Finset.sum_eq_zero fun c _ => h c

end Tally
