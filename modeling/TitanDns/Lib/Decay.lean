import Mathlib.Algebra.Order.Field.Basic
import Mathlib.Data.List.Induction
import Mathlib.Tactic.Linarith
import Mathlib.Tactic.LinearCombination
import Mathlib.Tactic.Positivity
import Mathlib.Tactic.Ring

/-!
# A score with decay

A score that grows by what each step brings, is compared with a level, and then decays by a factor.
What keeps a score at the level in balance is a `leak` of `(1 - r) * level` a step; only what a step
brings beyond it counts.

* `score` — after some steps; `Reaches` — at some step the level is reached before the decay.
* `series` — the sum with growing weights; `score_closed` — the score by the surplus of its steps.
* `le_score_add_iff` — **the level is reached at a step exactly when the weighted surplus up to it
  pays for the start**; `reaches_iff` — the same for a whole run whose steps are all worth the leak.
* `not_reaches` — **steps that bring no more than the leak never reach the level**, however many.
-/

namespace Decay

variable {K : Type*} [Field K] [LinearOrder K] [IsStrictOrderedRing K]

/-- The score after steps that brought these amounts. -/
def score (r : K) (as : List K) : K := as.foldl (fun s a => r * (s + a)) 0

/-- At some step the level is reached. -/
def Reaches (r level : K) (as : List K) : Prop :=
  ∃ before a after, as = before ++ a :: after ∧ level ≤ score r before + a

/-- What a step has to bring to keep the level. -/
def leak (r level : K) : K := (1 - r) * level

/-- `a₀ + a₁ x + a₂ x² + …` -/
def series (x : K) : List K → K
  | [] => 0
  | a :: as => a + x * series x as

omit [LinearOrder K] [IsStrictOrderedRing K] in
theorem score_concat (r : K) (as : List K) (a : K) :
    score r (as ++ [a]) = r * (score r as + a) := by
  rw [score, List.foldl_append]
  rfl

omit [LinearOrder K] [IsStrictOrderedRing K] in
theorem series_concat (x : K) (as : List K) (a : K) :
    series x (as ++ [a]) = series x as + a * x ^ as.length := by
  induction as with
  | nil => simp [series]
  | cons b as ih =>
    rw [List.cons_append, series, ih, series, List.length_cons, pow_succ]
    ring

/-- Amounts that are not negative only add. -/
theorem series_nonneg {x : K} (hx : 0 ≤ x) {as : List K} (h : ∀ a ∈ as, 0 ≤ a) :
    0 ≤ series x as := by
  induction as with
  | nil => exact le_refl 0
  | cons a as ih =>
    have ha := h a List.mem_cons_self
    have hrest := mul_nonneg hx (ih fun b hb => h b (List.mem_cons_of_mem _ hb))
    rw [series]
    linarith

theorem series_nonpos {x : K} (hx : 0 ≤ x) {as : List K} (h : ∀ a ∈ as, a ≤ 0) :
    series x as ≤ 0 := by
  induction as with
  | nil => exact le_refl 0
  | cons a as ih =>
    have ha := h a List.mem_cons_self
    have hrest := mul_nonpos_of_nonneg_of_nonpos hx
      (ih fun b hb => h b (List.mem_cons_of_mem _ hb))
    rw [series]
    linarith

omit [LinearOrder K] [IsStrictOrderedRing K] in
theorem series_append (x : K) (as bs : List K) :
    series x (as ++ bs) = series x as + x ^ as.length * series x bs := by
  induction as with
  | nil => simp [series]
  | cons a as ih =>
    rw [List.cons_append, series, ih, series, List.length_cons, pow_succ]
    ring

/-- What the steps bring beyond the leak, the later ones with more weight. -/
def surplus (r level : K) (as : List K) : K := series r⁻¹ (as.map fun a => a - leak r level)

variable {r level : K}

/-- **The score by the surplus of its steps.** -/
theorem score_closed (hr : 0 < r) (as : List K) :
    score r as = r * level + r ^ as.length * (surplus r level as - r * level) := by
  induction as using List.reverseRecOn with
  | nil =>
    show (0 : K) = r * level + r ^ 0 * (0 - r * level)
    ring
  | append_singleton as a ih =>
    have hpow : r ^ as.length * r⁻¹ ^ as.length = 1 := by
      rw [← mul_pow, mul_inv_cancel₀ hr.ne', one_pow]
    have hsurplus : surplus r level (as ++ [a]) =
        surplus r level as + (a - leak r level) * r⁻¹ ^ as.length := by
      rw [surplus, List.map_append, List.map_singleton, series_concat, List.length_map]
      rfl
    rw [score_concat, ih, hsurplus, List.length_append, List.length_singleton, pow_succ, leak]
    linear_combination (-(r * (a - (1 - r) * level))) * hpow

/-- **The level is reached at a step exactly when the surplus up to it pays for the start.** -/
theorem le_score_add_iff (hr : 0 < r) (as : List K) (a : K) :
    level ≤ score r as + a ↔ r * level ≤ surplus r level (as ++ [a]) := by
  have hclosed : score r (as ++ [a]) = r * level +
      r ^ (as ++ [a]).length * (surplus r level (as ++ [a]) - r * level) := score_closed hr _
  have hpow : 0 < r ^ (as ++ [a]).length := by positivity
  rw [score_concat] at hclosed
  have hsame : r * (score r as + a) - r * level =
      r ^ (as ++ [a]).length * (surplus r level (as ++ [a]) - r * level) := by
    rw [hclosed]
    ring
  constructor
  · intro h
    have hscaled : 0 ≤ r ^ (as ++ [a]).length * (surplus r level (as ++ [a]) - r * level) := by
      rw [← hsame]
      have := mul_le_mul_of_nonneg_left h hr.le
      linarith
    have := nonneg_of_mul_nonneg_right hscaled hpow
    linarith
  · intro h
    have hscaled : 0 ≤ r * (score r as + a) - r * level := by
      rw [hsame]
      exact mul_nonneg hpow.le (by linarith)
    have : r * level ≤ r * (score r as + a) := by linarith
    exact le_of_mul_le_mul_left this hr

omit [IsStrictOrderedRing K] in
/-- The level is reached before or at the last step. -/
theorem reaches_concat (as : List K) (a : K) :
    Reaches r level (as ++ [a]) ↔ Reaches r level as ∨ level ≤ score r as + a := by
  constructor
  · rintro ⟨before, b, after, heq, h⟩
    rcases List.eq_nil_or_concat after with rfl | ⟨after, c, rfl⟩
    · obtain ⟨rfl, hb⟩ := List.append_inj' heq rfl
      cases hb
      exact Or.inr h
    · rw [List.concat_eq_append, ← List.cons_append, ← List.append_assoc] at heq
      obtain ⟨rfl, -⟩ := List.append_inj' heq rfl
      exact Or.inl ⟨before, b, after, rfl, h⟩
  · rintro (⟨before, b, after, rfl, h⟩ | h)
    · exact ⟨before, b, after ++ [a], by rw [List.append_assoc]; rfl, h⟩
    · exact ⟨as, a, [], rfl, h⟩

omit [IsStrictOrderedRing K] in
/-- What was reached stays reached. -/
theorem Reaches.append {as : List K} (h : Reaches r level as) (bs : List K) :
    Reaches r level (as ++ bs) := by
  obtain ⟨before, a, after, rfl, hle⟩ := h
  exact ⟨before, a, after ++ bs, by rw [List.append_assoc]; rfl, hle⟩

/-- **Where every step is worth the leak, the whole surplus decides.** -/
theorem reaches_iff (hr : 0 < r) (hlevel : 0 < level) {as : List K}
    (h : ∀ a ∈ as, leak r level ≤ a) : Reaches r level as ↔ r * level ≤ surplus r level as := by
  constructor
  · rintro ⟨before, a, after, rfl, hle⟩
    have hat := (le_score_add_iff hr before a).mp hle
    have hsplit : before ++ a :: after = (before ++ [a]) ++ after := by
      rw [List.append_assoc]
      rfl
    have hrest : 0 ≤ series r⁻¹ (after.map fun a => a - leak r level) := by
      apply series_nonneg (inv_nonneg.mpr hr.le)
      intro b hb
      obtain ⟨a', ha', rfl⟩ := List.mem_map.mp hb
      have := h a' (by simp [ha'])
      linarith
    have hgrow : surplus r level (before ++ [a]) ≤ surplus r level (before ++ a :: after) := by
      have hmap : (before ++ [a] ++ after).map (fun a => a - leak r level) =
          (before ++ [a]).map (fun a => a - leak r level) ++
            after.map (fun a => a - leak r level) := List.map_append
      rw [hsplit, surplus, surplus, hmap, series_append]
      have := mul_nonneg (pow_nonneg (inv_nonneg.mpr hr.le)
        ((before ++ [a]).map fun a => a - leak r level).length) hrest
      linarith
    linarith
  · intro hsurplus
    rcases List.eq_nil_or_concat as with rfl | ⟨before, a, rfl⟩
    · have hpos : 0 < r * level := mul_pos hr hlevel
      have hzero : surplus r level [] = 0 := rfl
      rw [hzero] at hsurplus
      linarith
    · rw [List.concat_eq_append] at hsurplus ⊢
      exact ⟨before, a, [], rfl, (le_score_add_iff hr before a).mpr hsurplus⟩

/-- **Steps that bring no more than the leak never reach the level.** -/
theorem not_reaches (hr : 0 < r) (hlevel : 0 < level) {as : List K}
    (h : ∀ a ∈ as, a ≤ leak r level) : ¬ Reaches r level as := by
  rintro ⟨before, a, after, rfl, hle⟩
  have hat := (le_score_add_iff hr before a).mp hle
  have hnonpos : surplus r level (before ++ [a]) ≤ 0 := by
    apply series_nonpos (inv_nonneg.mpr hr.le)
    intro b hb
    obtain ⟨a', ha', rfl⟩ := List.mem_map.mp hb
    have := h a' (by
      rcases List.mem_append.mp ha' with ha' | ha'
      · exact List.mem_append_left _ ha'
      · exact List.mem_append_right _ (List.mem_cons.mpr (Or.inl (List.mem_singleton.mp ha'))))
    linarith
  have hpos : 0 < r * level := mul_pos hr hlevel
  linarith

end Decay
