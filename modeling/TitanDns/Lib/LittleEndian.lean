import Mathlib.Algebra.Group.Nat.Defs
import Mathlib.Data.List.Basic

/-!
# Numbers as bytes, least significant first

* `leBytes k n` — the `k` low octets of `n`; `leNat` — the number that bytes stand for.
* `leNat_leBytes` — **a number that fits is read back**; `take_leBytes`, `drop_leBytes` — its bytes
  are cut off in front of others.
* `leBytes_leNat` — **bytes are those of the number they stand for**; `leNat_append`,
  `leNat_middle`, `leNat_lt` — that number.
* `leBytes_append`, `leBytes_shifted`, `leBytes_add_shifted` — a field cut into a low and a high
  part.
-/

/-- `to_le_bytes` of a number of `k` octets. -/
def leBytes : Nat → Nat → List UInt8
  | 0, _ => []
  | k + 1, n => UInt8.ofNat n :: leBytes k (n / 256)

/-- `from_le_bytes` -/
def leNat (bs : List UInt8) : Nat := bs.foldr (fun b n => b.toNat + 256 * n) 0

@[simp] theorem leBytes_length (k n : Nat) : (leBytes k n).length = k := by
  induction k generalizing n with
  | zero => rfl
  | succ k ih => rw [leBytes, List.length_cons, ih]

/-- What is read back is the number modulo the size of the field. -/
theorem leNat_leBytes_mod (k n : Nat) : leNat (leBytes k n) = n % 256 ^ k := by
  induction k generalizing n with
  | zero =>
    rw [Nat.pow_zero, Nat.mod_one]
    rfl
  | succ k ih =>
    have hrest := ih (n / 256)
    have hsplit : n % 256 ^ (k + 1) = n % 256 + 256 * (n / 256 % 256 ^ k) := by
      rw [Nat.pow_succ', Nat.mod_mul]
    unfold leNat at hrest ⊢
    rw [leBytes, List.foldr_cons, hrest, UInt8.toNat_ofNat', hsplit]

/-- A number that fits is read back. -/
theorem leNat_leBytes {k n : Nat} (h : n < 256 ^ k) : leNat (leBytes k n) = n := by
  rw [leNat_leBytes_mod, Nat.mod_eq_of_lt h]

/-- Bytes of a field are cut off in front of what follows them. -/
theorem take_leBytes (k n : Nat) (rest : List UInt8) : (leBytes k n ++ rest).take k = leBytes k n :=
  List.take_left' (leBytes_length k n)

theorem drop_leBytes (k n : Nat) (rest : List UInt8) : (leBytes k n ++ rest).drop k = rest :=
  List.drop_left' (leBytes_length k n)

/-- The low octets, then those above them. -/
theorem leBytes_append (j k n : Nat) :
    leBytes (j + k) n = leBytes j n ++ leBytes k (n / 256 ^ j) := by
  induction j generalizing n with
  | zero => rw [Nat.zero_add, Nat.pow_zero, Nat.div_one, leBytes, List.nil_append]
  | succ j ih =>
    have hstep : j + 1 + k = (j + k) + 1 := by omega
    rw [hstep, leBytes, ih (n / 256), leBytes, List.cons_append, Nat.div_div_eq_div_mul,
      ← Nat.pow_succ']

/-- A multiple of the size of the field leaves nothing in it. -/
theorem leBytes_shifted (k n : Nat) : leBytes k (n * 256 ^ k) = List.replicate k 0 := by
  induction k generalizing n with
  | zero => rfl
  | succ k ih =>
    have hlow : n * 256 ^ (k + 1) = n * 256 ^ k * 256 := by rw [Nat.pow_succ, Nat.mul_assoc]
    have hzero : UInt8.ofNat (n * 256 ^ k * 256) = 0 := by
      apply UInt8.toNat_inj.mp
      rw [UInt8.toNat_ofNat', UInt8.toNat_zero]
      omega
    rw [leBytes, hlow, Nat.mul_div_cancel _ (by omega), ih, hzero, List.replicate_succ]

/-- What is added above the field leaves its octets. -/
theorem leBytes_add_shifted (k a n : Nat) : leBytes k (a * 256 ^ k + n) = leBytes k n := by
  induction k generalizing a n with
  | zero => rfl
  | succ k ih =>
    have hlow : a * 256 ^ (k + 1) = a * 256 ^ k * 256 := by rw [Nat.pow_succ, Nat.mul_assoc]
    have hdiv : (a * 256 ^ k * 256 + n) / 256 = a * 256 ^ k + n / 256 := by omega
    have hhead : UInt8.ofNat (a * 256 ^ k * 256 + n) = UInt8.ofNat n := by
      apply UInt8.toNat_inj.mp
      rw [UInt8.toNat_ofNat', UInt8.toNat_ofNat']
      omega
    rw [leBytes, leBytes, hlow, hdiv, ih, hhead]

theorem leNat_cons (b : UInt8) (bs : List UInt8) : leNat (b :: bs) = b.toNat + 256 * leNat bs := rfl

theorem leNat_append (p s : List UInt8) :
    leNat (p ++ s) = leNat p + 256 ^ p.length * leNat s := by
  induction p with
  | nil => simp [leNat]
  | cons b p ih =>
    rw [List.cons_append, leNat_cons, leNat_cons, ih, List.length_cons, Nat.pow_succ, Nat.mul_add,
      ← Nat.mul_assoc, Nat.mul_comm 256 (256 ^ p.length), Nat.add_assoc]

/-- A word differs when one of its bytes does. -/
theorem leNat_middle {p s : List UInt8} {a b : UInt8}
    (heq : leNat (p ++ a :: s) = leNat (p ++ b :: s)) : a = b := by
  rw [leNat_append, leNat_append] at heq
  have hpos : 0 < 256 ^ p.length := Nat.pow_pos (by omega)
  have hsame := Nat.eq_of_mul_eq_mul_left hpos (Nat.add_left_cancel heq)
  apply UInt8.toNat_inj.mp
  rw [leNat_cons, leNat_cons] at hsame
  omega

theorem leNat_lt (bs : List UInt8) : leNat bs < 256 ^ bs.length := by
  induction bs with
  | nil => exact Nat.one_pos
  | cons b bs ih =>
    have hb := b.toNat_lt
    rw [leNat_cons, List.length_cons, Nat.pow_succ]
    omega

/-- Bytes are those of the number they stand for. -/
theorem leBytes_leNat (bs : List UInt8) : leBytes bs.length (leNat bs) = bs := by
  induction bs with
  | nil => rfl
  | cons b bs ih =>
    have hb := b.toNat_lt
    have hlow : UInt8.ofNat (b.toNat + 256 * leNat bs) = b := by
      apply UInt8.toNat_inj.mp
      rw [UInt8.toNat_ofNat']
      omega
    have hrest : (b.toNat + 256 * leNat bs) / 256 = leNat bs := by omega
    rw [List.length_cons, leNat_cons, leBytes, hlow, hrest, ih]
