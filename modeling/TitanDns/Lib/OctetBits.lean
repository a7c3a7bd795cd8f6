import Mathlib.Data.List.GetD

/-!
# Bits of a string of octets, most significant first

* `octetBit` — the bit at a position; the octets behind the string count as zero.
* `AgreeUpTo` — two strings have the same first bits.

Principal result: `agreeUpTo_octets_iff` — **up to a multiple of eight bits, agreement is that of
whole octets.**
-/

/-- The bit at a position: position 0 is the most significant bit of the first octet. -/
def octetBit (os : List UInt8) (i : Nat) : Bool := (os.getD (i / 8) 0).toNat.testBit (7 - i % 8)

/-- The first `n` bits are the same. -/
def AgreeUpTo (n : Nat) (xs ys : List UInt8) : Prop := ∀ i < n, octetBit xs i = octetBit ys i

instance (n : Nat) (xs ys : List UInt8) : Decidable (AgreeUpTo n xs ys) :=
  inferInstanceAs (Decidable (∀ i < n, octetBit xs i = octetBit ys i))

/-- A bit by the octet it stands in. -/
theorem octetBit_at (os : List UInt8) {j k : Nat} (hk : k < 8) :
    octetBit os (8 * j + k) = (os.getD j 0).toNat.testBit (7 - k) := by
  have hdiv : (8 * j + k) / 8 = j := by omega
  have hmod : (8 * j + k) % 8 = k := by omega
  rw [octetBit, hdiv, hmod]

/-- An octet is its eight bits. -/
theorem octet_ext {a b : UInt8} (h : ∀ k < 8, a.toNat.testBit (7 - k) = b.toNat.testBit (7 - k)) :
    a = b := by
  apply UInt8.toNat_inj.mp
  apply Nat.eq_of_testBit_eq
  intro i
  by_cases hi : i < 8
  · have hbit := h (7 - i) (by omega)
    have hback : 7 - (7 - i) = i := by omega
    rwa [hback] at hbit
  · have hpow : 2 ^ 8 ≤ 2 ^ i := Nat.pow_le_pow_right (by omega) (by omega)
    have ha := a.toNat_lt
    have hb := b.toNat_lt
    rw [Nat.testBit_lt_two_pow (by omega), Nat.testBit_lt_two_pow (by omega)]

namespace AgreeUpTo

variable {n m : Nat} {xs ys : List UInt8}

theorem mono (h : AgreeUpTo n xs ys) (hm : m ≤ n) : AgreeUpTo m xs ys :=
  fun i hi => h i (by omega)

/-- Equal octets, as far as the bits reach, have equal bits. -/
theorem of_octets (h : ∀ j, 8 * j < n → xs.getD j 0 = ys.getD j 0) : AgreeUpTo n xs ys := by
  intro i hi
  rw [octetBit, octetBit, h (i / 8) (by omega)]

end AgreeUpTo

/-- **Up to a multiple of eight bits, agreement is that of whole octets.** -/
theorem agreeUpTo_octets_iff {n : Nat} {xs ys : List UInt8} :
    AgreeUpTo (8 * n) xs ys ↔ ∀ j < n, xs.getD j 0 = ys.getD j 0 := by
  constructor
  · intro h j hj
    apply octet_ext
    intro k hk
    rw [← octetBit_at xs hk, ← octetBit_at ys hk]
    exact h (8 * j + k) (by omega)
  · intro h
    exact AgreeUpTo.of_octets fun j hj => h j (by omega)

/-- The same for strings long enough: the first octets are the same list. -/
theorem agreeUpTo_take_iff {n : Nat} {xs ys : List UInt8} (hx : n ≤ xs.length)
    (hy : n ≤ ys.length) : AgreeUpTo (8 * n) xs ys ↔ xs.take n = ys.take n := by
  rw [agreeUpTo_octets_iff]
  constructor
  · intro h
    apply List.ext_getElem
    · rw [List.length_take, List.length_take]
      omega
    · intro j hj _
      have hjn : j < n := by
        rw [List.length_take] at hj
        omega
      have heq := h j hjn
      rw [List.getD_eq_getElem xs 0 (by omega), List.getD_eq_getElem ys 0 (by omega)] at heq
      rw [List.getElem_take, List.getElem_take, heq]
  · intro h j hj
    have hxj : (xs.take n).getD j 0 = xs.getD j 0 := by
      rw [List.getD_eq_getElem?_getD, List.getElem?_take_of_lt hj, ← List.getD_eq_getElem?_getD]
    have hyj : (ys.take n).getD j 0 = ys.getD j 0 := by
      rw [List.getD_eq_getElem?_getD, List.getElem?_take_of_lt hj, ← List.getD_eq_getElem?_getD]
    rw [← hxj, ← hyj, h]
