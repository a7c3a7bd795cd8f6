import Mathlib.Data.List.Basic

/-!
# Domain names and questions

* `Name` — a list of labels of 1 to 63 octets whose wire form has at most 255 octets; the bounds
  are fields, so no other name can be built.
* `Name.wire` — the uncompressed wire form.
* `Name.Same` — equality up to ASCII case.  `Name.same_iff_wire`: **two names are the same exactly
  when their wire forms are equal after folding every octet**, because a length octet is below
  `'A'` and folding leaves it alone.
* `Question` — name, type, class, and its wire form.
-/

namespace TitanDns

/-- Upper-case ASCII letters to lower case, everything else unchanged. -/
def asciiLower (b : UInt8) : UInt8 := if 65 ≤ b ∧ b ≤ 90 then b + 32 else b

theorem asciiLower_of_lt {b : UInt8} (h : b < 65) : asciiLower b = b := by
  unfold asciiLower
  rw [if_neg]
  rintro ⟨h65, -⟩
  exact absurd (UInt8.lt_of_lt_of_le h h65) (UInt8.lt_irrefl b)

theorem asciiLower_idem (b : UInt8) : asciiLower (asciiLower b) = asciiLower b := by
  unfold asciiLower
  split
  · rename_i h
    rw [if_neg]
    rintro ⟨-, h90⟩
    simp only [UInt8.le_iff_toNat_le, UInt8.toNat_add, UInt8.reduceToNat] at h h90
    omega
  · rfl

/-- Wire form of the labels, without the root label. -/
def labelsWire (ls : List (List UInt8)) : List UInt8 :=
  ls.flatMap fun l => UInt8.ofNat l.length :: l

@[simp] theorem labelsWire_nil : labelsWire [] = [] := rfl

@[simp] theorem labelsWire_cons (l : List UInt8) (ls : List (List UInt8)) :
    labelsWire (l :: ls) = UInt8.ofNat l.length :: l ++ labelsWire ls := rfl

/-- A domain name. -/
structure Name where
  labels : List (List UInt8)
  label_length : ∀ l ∈ labels, 1 ≤ l.length ∧ l.length ≤ 63
  wire_length : (labelsWire labels).length + 1 ≤ 255
  deriving DecidableEq

namespace Name

/-- Uncompressed wire form: the labels, then the root label. -/
def wire (n : Name) : List UInt8 := labelsWire n.labels ++ [0]

/-- The labels with every octet folded. -/
def foldedLabels (n : Name) : List (List UInt8) := n.labels.map (·.map asciiLower)

/-- The same name up to ASCII case. -/
def Same (a b : Name) : Prop := a.foldedLabels = b.foldedLabels

instance (a b : Name) : Decidable (Same a b) :=
  inferInstanceAs (Decidable (a.foldedLabels = b.foldedLabels))

/-- No label contains a zero octet. -/
def NoZero (n : Name) : Prop := ∀ l ∈ n.labels, (0 : UInt8) ∉ l

instance (n : Name) : Decidable n.NoZero :=
  inferInstanceAs (Decidable (∀ l ∈ n.labels, (0 : UInt8) ∉ l))

theorem Same.refl (n : Name) : Same n n := rfl

theorem Same.symm {a b : Name} (h : Same a b) : Same b a := Eq.symm h

theorem Same.trans {a b c : Name} (hab : Same a b) (hbc : Same b c) : Same a c := Eq.trans hab hbc

end Name

/-! ## Folding the wire form -/

theorem toNat_lengthOctet {n : Nat} (h : n ≤ 63) : (UInt8.ofNat n).toNat = n :=
  UInt8.toNat_ofNat_of_lt' (Nat.lt_of_le_of_lt h (by decide))

theorem lengthOctet_fold {l : List UInt8} (h : l.length ≤ 63) :
    asciiLower (UInt8.ofNat l.length) = UInt8.ofNat l.length := by
  apply asciiLower_of_lt
  rw [UInt8.lt_iff_toNat_lt, toNat_lengthOctet h]
  have : (65 : UInt8).toNat = 65 := rfl
  omega

theorem labelsWire_fold {ls : List (List UInt8)} (h : ∀ l ∈ ls, l.length ≤ 63) :
    (labelsWire ls).map asciiLower = labelsWire (ls.map (·.map asciiLower)) := by
  induction ls with
  | nil => rfl
  | cons l ls ih =>
    have hl := lengthOctet_fold (h l List.mem_cons_self)
    have hls := ih fun l' hl' => h l' (List.mem_cons_of_mem _ hl')
    simp only [labelsWire_cons, List.map_cons, List.map_append, List.cons_append, hl, hls,
      List.length_map]

/-- The wire form determines the labels: each length octet says where its label ends. -/
theorem labelsWire_injective {ls ls' : List (List UInt8)}
    (h : ∀ l ∈ ls, 1 ≤ l.length ∧ l.length ≤ 63) (h' : ∀ l ∈ ls', 1 ≤ l.length ∧ l.length ≤ 63)
    (heq : labelsWire ls = labelsWire ls') : ls = ls' := by
  induction ls generalizing ls' with
  | nil =>
    cases ls' with
    | nil => rfl
    | cons l' ls' => simp at heq
  | cons l ls ih =>
    cases ls' with
    | nil => simp at heq
    | cons l' ls' =>
      simp only [labelsWire_cons, List.cons_append, List.cons.injEq] at heq
      obtain ⟨hlen, hrest⟩ := heq
      have hl := h l List.mem_cons_self
      have hl' := h' l' List.mem_cons_self
      have hll : l.length = l'.length := by
        have := congrArg UInt8.toNat hlen
        rwa [toNat_lengthOctet hl.2, toNat_lengthOctet hl'.2] at this
      obtain ⟨rfl, htail⟩ := List.append_inj hrest hll
      rw [ih (fun x hx => h x (List.mem_cons_of_mem _ hx))
        (fun x hx => h' x (List.mem_cons_of_mem _ hx)) htail]

namespace Name

theorem foldedLabels_length (n : Name) : ∀ l ∈ n.foldedLabels, 1 ≤ l.length ∧ l.length ≤ 63 := by
  intro l hl
  obtain ⟨l', hl', rfl⟩ := List.mem_map.mp hl
  rw [List.length_map]
  exact n.label_length l' hl'

theorem wire_fold (n : Name) : n.wire.map asciiLower = labelsWire n.foldedLabels ++ [0] := by
  rw [wire, List.map_append, labelsWire_fold fun l hl => (n.label_length l hl).2]
  rfl

/-- **Equal up to case is equal after folding the wire form.** -/
theorem same_iff_wire (a b : Name) : Same a b ↔ a.wire.map asciiLower = b.wire.map asciiLower := by
  rw [wire_fold, wire_fold, List.append_cancel_right_eq]
  constructor
  · intro h
    rw [show a.foldedLabels = b.foldedLabels from h]
  · exact labelsWire_injective a.foldedLabels_length b.foldedLabels_length

end Name

theorem lengthOctet_ne_zero {l : List UInt8} (h : 1 ≤ l.length ∧ l.length ≤ 63) :
    UInt8.ofNat l.length ≠ 0 := by
  intro h0
  have hn := toNat_lengthOctet h.2
  rw [h0] at hn
  have : (0 : UInt8).toNat = 0 := rfl
  omega

/-- Without a zero octet in a label, the only zero octet of the wire form is the root label. -/
theorem Name.NoZero.zero_notMem {n : Name} (h : n.NoZero) : (0 : UInt8) ∉ labelsWire n.labels := by
  intro hmem
  obtain ⟨l, hl, h0⟩ := List.mem_flatMap.mp hmem
  rcases List.mem_cons.mp h0 with h0 | h0
  · exact lengthOctet_ne_zero (n.label_length l hl) h0.symm
  · exact h l hl h0

/-! ## Questions -/

/-- Big-endian octets (`u16::to_be_bytes`). -/
def be16 (w : UInt16) : List UInt8 := [(w >>> 8).toUInt8, w.toUInt8]

@[simp] theorem be16_length (w : UInt16) : (be16 w).length = 2 := rfl

/-- `from_be_bytes` -/
def readU16 (high low : UInt8) : UInt16 := UInt16.ofNat (256 * high.toNat + low.toNat)

theorem readU16_be16 (w : UInt16) : readU16 (w >>> 8).toUInt8 w.toUInt8 = w := by
  have hlt := w.toNat_lt
  have hhigh : (w >>> 8).toUInt8.toNat = w.toNat / 256 := by
    simp only [UInt16.toNat_toUInt8, UInt16.toNat_shiftRight, UInt16.reduceToNat, Nat.reduceMod,
      Nat.shiftRight_eq_div_pow, Nat.reducePow]
    omega
  have hlow : w.toUInt8.toNat = w.toNat % 256 := UInt16.toNat_toUInt8 w
  apply UInt16.toNat_inj.mp
  rw [readU16, UInt16.toNat_ofNat', hhigh, hlow]
  omega

theorem be16_readU16 (high low : UInt8) : be16 (readU16 high low) = [high, low] := by
  have hhigh := high.toNat_lt
  have hlow := low.toNat_lt
  have hvalue : (readU16 high low).toNat = 256 * high.toNat + low.toNat := by
    rw [readU16, UInt16.toNat_ofNat']
    omega
  have hfirst : (readU16 high low >>> 8).toUInt8 = high := by
    apply UInt8.toNat_inj.mp
    simp only [UInt16.toNat_toUInt8, UInt16.toNat_shiftRight, UInt16.reduceToNat, Nat.reduceMod,
      Nat.shiftRight_eq_div_pow, Nat.reducePow, hvalue]
    omega
  have hsecond : (readU16 high low).toUInt8 = low := by
    apply UInt8.toNat_inj.mp
    rw [UInt16.toNat_toUInt8, hvalue]
    omega
  rw [be16, hfirst, hsecond]

/-- One entry of the question section. -/
structure Question where
  name : Name
  qtype : UInt16
  qclass : UInt16
  deriving DecidableEq

namespace Question

def wire (q : Question) : List UInt8 := q.name.wire ++ be16 q.qtype ++ be16 q.qclass

/-- The same name up to ASCII case, the same type, the same class. -/
def Same (a b : Question) : Prop := a.name.Same b.name ∧ a.qtype = b.qtype ∧ a.qclass = b.qclass

instance (a b : Question) : Decidable (Same a b) :=
  inferInstanceAs (Decidable (_ ∧ _ ∧ _))

theorem Same.refl (q : Question) : Same q q := ⟨Name.Same.refl _, rfl, rfl⟩

/-- The question with every octet of its name folded. -/
def folded (q : Question) : List (List UInt8) × UInt16 × UInt16 :=
  (q.name.foldedLabels, q.qtype, q.qclass)

theorem same_iff_folded (a b : Question) : Same a b ↔ a.folded = b.folded := by
  unfold Same folded Name.Same
  rw [Prod.mk.injEq, Prod.mk.injEq]

end Question

/-- `www.example.com`, type A, class IN. -/
def exampleQuestion : Question where
  name :=
    { labels := [[119, 119, 119], [101, 120, 97, 109, 112, 108, 101], [99, 111, 109]]
      label_length := by decide
      wire_length := by decide }
  qtype := 1
  qclass := 1

end TitanDns
