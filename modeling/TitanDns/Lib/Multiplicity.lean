import Mathlib.Algebra.BigOperators.Ring.List
import Mathlib.Algebra.Order.Ring.Nat
import Mathlib.Data.List.Count
import Mathlib.Data.List.Sort
import Mathlib.Data.Nat.ModEq
import Mathlib.Logic.Function.Basic
import Mathlib.Tactic.Ring

/-!
# Entries with multiplicities

A list of entries in order, some of them repeated, is a strictly increasing list with a load.

* `loaded`, `exists_loaded`, `exists_load` — the list with its load, and that every list in order is
  one.
* `countP_loaded` — counting it; `digits_inj` — **small digits are determined by the sum of their
  powers.**
* `counts_agree` — **where two counts are in a fixed proportion under a load of high powers, the
  same entries are counted**, and the proportion is one if there are any.
-/

namespace Multiplicity

/-- Each entry, once more than the load says. -/
def loaded (load : ℕ → ℕ) (l : List ℕ) : List ℕ :=
  l.flatMap fun a => List.replicate (load a + 1) a

variable {load : ℕ → ℕ} {l : List ℕ}

theorem loaded_cons (load : ℕ → ℕ) (a : ℕ) (l : List ℕ) :
    loaded load (a :: l) = List.replicate (load a + 1) a ++ loaded load l := List.flatMap_cons

theorem mem_loaded {b : ℕ} : b ∈ loaded load l ↔ b ∈ l := by
  simp [loaded]

theorem loaded_sorted (h : l.Pairwise (· < ·)) : (loaded load l).Pairwise (· ≤ ·) := by
  induction l with
  | nil => exact List.Pairwise.nil
  | cons a l ih =>
    obtain ⟨hfirst, hrest⟩ := List.pairwise_cons.mp h
    rw [loaded_cons, List.pairwise_append]
    refine ⟨List.pairwise_replicate.mpr (Or.inr (Nat.le_refl a)), ih hrest, ?_⟩
    intro b hb c hc
    rw [List.eq_of_mem_replicate hb]
    exact (hfirst c (mem_loaded.mp hc)).le

theorem loaded_congr {load' : ℕ → ℕ} (h : ∀ a ∈ l, load a = load' a) :
    loaded load l = loaded load' l := by
  induction l with
  | nil => rfl
  | cons a l ih =>
    rw [loaded_cons, loaded_cons, h a List.mem_cons_self,
      ih fun b hb => h b (List.mem_cons_of_mem _ hb)]

/-- **Every list in order is a strictly increasing one with a load.** -/
theorem exists_loaded (h : l.Pairwise (· ≤ ·)) :
    ∃ load l', l'.Pairwise (· < ·) ∧ loaded load l' = l := by
  induction l with
  | nil => exact ⟨fun _ => 0, [], List.Pairwise.nil, rfl⟩
  | cons a l ih =>
    obtain ⟨hfirst, hrest⟩ := List.pairwise_cons.mp h
    obtain ⟨load, l', hsorted, rfl⟩ := ih hrest
    have hle : ∀ b ∈ l', a ≤ b := fun b hb => hfirst b (mem_loaded.mpr hb)
    by_cases ha : a ∈ l'
    · -- the entry is there already, as the first
      cases l' with
      | nil => cases ha
      | cons b l' =>
        obtain ⟨hb, hsorted'⟩ := List.pairwise_cons.mp hsorted
        have hab : a = b := by
          rcases List.mem_cons.mp ha with h | h
          · exact h
          · exact absurd (hle b List.mem_cons_self) (Nat.not_le.mpr (hb a h))
        subst hab
        refine ⟨Function.update load a (load a + 1), a :: l', hsorted, ?_⟩
        have hother : ∀ c ∈ l', Function.update load a (load a + 1) c = load c := fun c hc =>
          Function.update_of_ne (Nat.ne_of_gt (hb c hc)) _ _
        rw [loaded_cons, loaded_cons, Function.update_self, loaded_congr hother,
          List.replicate_succ, List.cons_append]
    · have hlt : ∀ b ∈ l', a < b := fun b hb =>
        Nat.lt_of_le_of_ne (hle b hb) fun hab => ha (hab ▸ hb)
      refine ⟨Function.update load a 0, a :: l', List.pairwise_cons.mpr ⟨hlt, hsorted⟩, ?_⟩
      have hother : ∀ c ∈ l', Function.update load a 0 c = load c := fun c hc =>
        Function.update_of_ne (Nat.ne_of_gt (hlt c hc)) _ _
      rw [loaded_cons, Function.update_self, loaded_congr hother]
      rfl

/-- The same for the entries given. -/
theorem exists_load (hl : l.Pairwise (· < ·)) {m : List ℕ} (hm : m.Pairwise (· ≤ ·))
    (hmem : ∀ a, a ∈ m ↔ a ∈ l) : ∃ load, loaded load l = m := by
  obtain ⟨load, l', hl', rfl⟩ := exists_loaded hm
  have hperm : l'.Perm l := by
    rw [List.perm_ext_iff_of_nodup (hl'.imp Nat.ne_of_lt) (hl.imp Nat.ne_of_lt)]
    exact fun a => mem_loaded.symm.trans (hmem a)
  have hsame := hperm.eq_of_pairwise' (hl'.imp Nat.le_of_lt) (hl.imp Nat.le_of_lt)
  exact ⟨load, by rw [hsame]⟩

theorem countP_loaded (p : ℕ → Bool) (load : ℕ → ℕ) (l : List ℕ) :
    (loaded load l).countP p = (l.map fun a => if p a then load a + 1 else 0).sum := by
  rw [loaded, List.countP_flatMap]
  congr 1
  exact List.map_congr_left fun a _ => List.countP_replicate

/-- What is counted depends on the entries alone. -/
theorem countP_loaded_congr {p q : ℕ → Bool} (h : ∀ a ∈ l, p a = q a) :
    (loaded load l).countP p = (loaded load l).countP q := by
  rw [countP_loaded, countP_loaded]
  congr 1
  exact List.map_congr_left fun a ha => by rw [h a ha]

/-! ## Loads that tell the entries apart -/

variable {N : ℕ} {f g : ℕ → ℕ}

/-- The powers above an exponent add up to a multiple of the next power. -/
theorem dvd_sum_powers {a : ℕ} (h : ∀ b ∈ l, a < b) :
    N ^ (a + 1) ∣ (l.map fun b => f b * N ^ b).sum := by
  induction l with
  | nil => exact Nat.dvd_zero _
  | cons b l ih =>
    rw [List.map_cons, List.sum_cons]
    have hb : a + 1 ≤ b := h b List.mem_cons_self
    exact Nat.dvd_add (Dvd.dvd.mul_left (pow_dvd_pow N hb) _)
      (ih fun c hc => h c (List.mem_cons_of_mem _ hc))

/-- **Small digits are determined by the sum of their powers.** -/
theorem digits_inj (hl : l.Pairwise (· < ·)) (hf : ∀ a ∈ l, f a < N) (hg : ∀ a ∈ l, g a < N)
    (h : (l.map fun a => f a * N ^ a).sum = (l.map fun a => g a * N ^ a).sum) :
    ∀ a ∈ l, f a = g a := by
  induction l with
  | nil =>
    intro a ha
    cases ha
  | cons a l ih =>
    obtain ⟨hfirst, hrest⟩ := List.pairwise_cons.mp hl
    have hfa := hf a List.mem_cons_self
    have hga := hg a List.mem_cons_self
    have hpos : 0 < N ^ a := Nat.pow_pos (Nat.lt_of_le_of_lt (Nat.zero_le _) hfa)
    obtain ⟨F, hF⟩ := dvd_sum_powers (N := N) (f := f) hfirst
    obtain ⟨G, hG⟩ := dvd_sum_powers (N := N) (f := g) hfirst
    rw [List.map_cons, List.sum_cons, List.map_cons, List.sum_cons, hF, hG, pow_succ] at h
    -- the lowest digit, by the remainder
    have hlow : f a + N * F = g a + N * G := by
      apply Nat.eq_of_mul_eq_mul_left hpos
      calc N ^ a * (f a + N * F) = f a * N ^ a + N ^ a * N * F := by ring
        _ = g a * N ^ a + N ^ a * N * G := h
        _ = N ^ a * (g a + N * G) := by ring
    have hdigit : f a = g a := by
      have hmod := congrArg (· % N) hlow
      simpa [Nat.add_mul_mod_self_left, Nat.mod_eq_of_lt hfa, Nat.mod_eq_of_lt hga] using hmod
    have htail : (l.map fun b => f b * N ^ b).sum = (l.map fun b => g b * N ^ b).sum := by
      have hmul : N * F = N * G := by omega
      rw [hF, hG, pow_succ, Nat.mul_assoc, hmul, Nat.mul_assoc]
    intro b hb
    rcases List.mem_cons.mp hb with rfl | hb
    · exact hdigit
    · exact ih hrest (fun c hc => hf c (List.mem_cons_of_mem _ hc))
        (fun c hc => hg c (List.mem_cons_of_mem _ hc)) htail b hb

/-- A load of powers. -/
def powers (N a : ℕ) : ℕ := N ^ a - 1

/-- **Where two counts are in a fixed proportion under a load of high powers, the same entries are
counted**, and the proportion is one if there are any. -/
theorem counts_agree {n d : ℕ} (hn : 0 < n) (hd : 0 < d) (hl : l.Pairwise (· < ·))
    {p q : ℕ → Bool} (h : n * (loaded (powers (n + d + 1)) l).countP p =
      d * (loaded (powers (n + d + 1)) l).countP q) :
    ∀ a ∈ l, p a = q a ∧ (p a = true → n = d) := by
  have hweight : ∀ (k : ℕ) (r : ℕ → Bool), k * (loaded (powers (n + d + 1)) l).countP r =
      (l.map fun a => (if r a then k else 0) * (n + d + 1) ^ a).sum := by
    intro k r
    rw [countP_loaded, ← List.sum_map_mul_left]
    congr 1
    refine List.map_congr_left fun a _ => ?_
    have hpos : 0 < (n + d + 1) ^ a := Nat.pow_pos (Nat.succ_pos _)
    cases r a with
    | true =>
      have hpower : powers (n + d + 1) a + 1 = (n + d + 1) ^ a := Nat.sub_add_cancel hpos
      rw [if_pos rfl, if_pos rfl, hpower]
    | false => simp
  rw [hweight, hweight] at h
  have hdigits := digits_inj hl (fun a _ => by split <;> omega) (fun a _ => by split <;> omega) h
  intro a ha
  have hdigit := hdigits a ha
  cases hp : p a with
  | true =>
    cases hq : q a with
    | true =>
      rw [hp, hq, if_pos rfl, if_pos rfl] at hdigit
      exact ⟨rfl, fun _ => hdigit⟩
    | false =>
      rw [hp, hq, if_pos rfl, if_neg (by decide)] at hdigit
      omega
  | false =>
    cases hq : q a with
    | true =>
      rw [hp, hq, if_neg (by decide), if_pos rfl] at hdigit
      omega
    | false => exact ⟨rfl, fun h => absurd h (by decide)⟩

end Multiplicity
