import TitanDns.Dns.Addresses

/-!
# The client subnet option

* `buildEcsOption` — family, prefix length, scope, and the octets that the prefix reaches into.
* `Family.octetsFor` — how many octets those are; `ecsAddress` — the address field of an option.
* `Family.EcsPrivate` — the option tells the first bits of the address and nothing else.

Principal results: `buildEcsOption_eq_iff` — **two addresses have the same option exactly when they
agree in those whole octets**; `ecsPrivate_iff` — **the option keeps the rest of the address to
itself exactly when the prefix ends between two octets.**
-/

namespace TitanDns

/-- The family of an address. -/
inductive Family where
  | v4
  | v6
  deriving DecidableEq

namespace IpAddr

def family : IpAddr → Family
  | .v4 _ => .v4
  | .v6 _ => .v6

def octets : IpAddr → List UInt8
  | .v4 ip => ip.octets
  | .v6 ip => ip.octets

end IpAddr

/-- `build_ecs_option`: the data of the option. -/
def buildEcsOption (clientIp : IpAddr) (sourcePrefixLen : UInt8) : List UInt8 :=
  match clientIp with
  | .v4 v4 =>
    let bytesNeeded := ((sourcePrefixLen + 7) / 8).toNat
    [0x00, 0x01, sourcePrefixLen, 0x00] ++ v4.octets.take (min bytesNeeded 4)
  | .v6 v6 =>
    let bytesNeeded := ((sourcePrefixLen + 7) / 8).toNat
    [0x00, 0x02, sourcePrefixLen, 0x00] ++ v6.octets.take (min bytesNeeded 16)

/-- The address field: what stands behind family, prefix length and scope. -/
def ecsAddress (data : List UInt8) : List UInt8 := data.drop 4

namespace Family

/-- The bits of an address. -/
def bits : Family → Nat
  | .v4 => 32
  | .v6 => 128

/-- `FAMILY` -/
def code : Family → UInt8
  | .v4 => 0x01
  | .v6 => 0x02

/-- The octets that a prefix reaches into. -/
def octetsFor (len : Nat) : Nat := (len + 7) / 8

/-- The option tells the first bits and nothing else: addresses that agree in them have the same
option, and its address field has the octets that the prefix reaches into, with the unused bits
zero. -/
structure EcsPrivate (f : Family) (len : UInt8) : Prop where
  same : ∀ x y : IpAddr, x.family = f → y.family = f → AgreeUpTo len.toNat x.octets y.octets →
    buildEcsOption x len = buildEcsOption y len
  octets : ∀ x : IpAddr, x.family = f →
    (ecsAddress (buildEcsOption x len)).length = octetsFor len.toNat
  trailing : ∀ x : IpAddr, x.family = f → ∀ i, len.toNat ≤ i → i < 8 * octetsFor len.toNat →
    octetBit (ecsAddress (buildEcsOption x len)) i = false

end Family

variable {x y : IpAddr} {len : UInt8}

theorem IpAddr.octets_length (x : IpAddr) : 8 * x.octets.length = x.family.bits := by
  cases x with
  | v4 ip => rfl
  | v6 ip =>
    rw [IpAddr.octets, Ipv6Addr.octets_length]
    rfl

/-- The octets counted by the code, where the length is one of the family. -/
theorem bytesNeeded_eq (h : len.toNat ≤ 128) :
    ((len + 7) / 8).toNat = Family.octetsFor len.toNat := by
  have hadd : (len + 7).toNat = len.toNat + 7 := by
    rw [UInt8.toNat_add, Nat.mod_eq_of_lt]
    · rfl
    · exact Nat.lt_of_le_of_lt (Nat.add_le_add_right h 7) (by decide)
  rw [UInt8.toNat_div, hadd]
  rfl

/-- **The option of an address, with a length of its family.** -/
theorem buildEcsOption_eq (h : len.toNat ≤ x.family.bits) :
    buildEcsOption x len =
      [0x00, x.family.code, len, 0x00] ++ x.octets.take (Family.octetsFor len.toNat) := by
  cases x with
  | v4 ip =>
    have hlen : len.toNat ≤ 32 := h
    have hmin : min (Family.octetsFor len.toNat) 4 = Family.octetsFor len.toNat := by
      unfold Family.octetsFor
      omega
    simp only [buildEcsOption, bytesNeeded_eq (show len.toNat ≤ 128 by omega), hmin]
    rfl
  | v6 ip =>
    have hlen : len.toNat ≤ 128 := h
    have hmin : min (Family.octetsFor len.toNat) 16 = Family.octetsFor len.toNat := by
      unfold Family.octetsFor
      omega
    simp only [buildEcsOption, bytesNeeded_eq hlen, hmin]
    rfl

theorem octetsFor_le_length (h : len.toNat ≤ x.family.bits) :
    Family.octetsFor len.toNat ≤ x.octets.length := by
  have hlen := x.octets_length
  unfold Family.octetsFor
  omega

theorem ecsAddress_buildEcsOption (h : len.toNat ≤ x.family.bits) :
    ecsAddress (buildEcsOption x len) = x.octets.take (Family.octetsFor len.toNat) := by
  rw [buildEcsOption_eq h]
  rfl

/-- The number of octets is right for every length. -/
theorem ecsAddress_length (h : len.toNat ≤ x.family.bits) :
    (ecsAddress (buildEcsOption x len)).length = Family.octetsFor len.toNat := by
  rw [ecsAddress_buildEcsOption h, List.length_take, Nat.min_eq_left (octetsFor_le_length h)]

/-- **Two addresses of a family have the same option exactly when they agree in the octets that the
prefix reaches into.** -/
theorem buildEcsOption_eq_iff (h : len.toNat ≤ x.family.bits) (hxy : y.family = x.family) :
    buildEcsOption x len = buildEcsOption y len ↔
      AgreeUpTo (8 * Family.octetsFor len.toNat) x.octets y.octets := by
  have hy : len.toNat ≤ y.family.bits := by rw [hxy]; exact h
  rw [buildEcsOption_eq h, buildEcsOption_eq hy, hxy, List.append_right_inj,
    agreeUpTo_take_iff (octetsFor_le_length h) (octetsFor_le_length hy)]

/-- The address of a family whose bits are all set. -/
def Family.allOnes : Family → IpAddr
  | .v4 => .v4 ⟨255, 255, 255, 255⟩
  | .v6 => .v6 ⟨0xffffffffffffffff, 0xffffffffffffffff⟩

theorem Family.allOnes_family (f : Family) : f.allOnes.family = f := by
  cases f <;> rfl

theorem Family.octets_allOnes (f : Family) :
    f.allOnes.octets = List.replicate (f.bits / 8) 255 := by
  cases f with
  | v4 => rfl
  | v6 => decide

/-- A bit of octets that are all ones. -/
theorem octetBit_replicate {n i : Nat} (h : i < 8 * n) :
    octetBit (List.replicate n 255) i = true := by
  have hget : (List.replicate n (255 : UInt8)).getD (i / 8) 0 = 255 := by
    rw [List.getD_eq_getElem _ _ (by rw [List.length_replicate]; omega), List.getElem_replicate]
  have hbits : ∀ k < 8, (255 : UInt8).toNat.testBit (7 - k) = true := by decide
  rw [octetBit, hget]
  exact hbits (i % 8) (by omega)

/-- **The option keeps the rest of the address to itself exactly when the prefix ends between two
octets**: the octets are not masked. -/
theorem ecsPrivate_iff (f : Family) (len : UInt8) (hlen : len.toNat ≤ f.bits) :
    f.EcsPrivate len ↔ 8 ∣ len.toNat := by
  constructor
  · intro h
    by_contra hnot
    -- the first unused bit of the last octet, with all bits of the address set
    have hones : len.toNat ≤ f.allOnes.family.bits := by rw [f.allOnes_family]; exact hlen
    have hbits : 8 ∣ f.bits := by cases f <;> decide
    have hin : len.toNat < 8 * Family.octetsFor len.toNat := by
      unfold Family.octetsFor
      omega
    have hzero := h.trailing f.allOnes f.allOnes_family len.toNat (Nat.le_refl _) hin
    have hmin : min (Family.octetsFor len.toNat) (f.bits / 8) = Family.octetsFor len.toNat := by
      unfold Family.octetsFor
      omega
    rw [ecsAddress_buildEcsOption hones, f.octets_allOnes, List.take_replicate, hmin,
      octetBit_replicate hin] at hzero
    exact absurd hzero (by decide)
  · intro h
    have hwhole : 8 * Family.octetsFor len.toNat = len.toNat := by
      unfold Family.octetsFor
      omega
    constructor
    · rintro x y rfl hy hagree
      rw [buildEcsOption_eq_iff hlen hy, hwhole]
      exact hagree
    · rintro x rfl
      exact ecsAddress_length hlen
    · intro x _ i hge hlt
      omega

/-- The usual setting for IPv4. -/
theorem ecsPrivate_iff_24 : Family.v4.EcsPrivate 24 :=
  (ecsPrivate_iff .v4 24 (by decide)).mpr (by decide)

/-- With a prefix of 20 bits, two addresses that agree in it have different options: the third octet
goes out whole. -/
theorem ecs_leaks_20 :
    AgreeUpTo 20 (Ipv4Addr.octets ⟨203, 0, 113, 7⟩) (Ipv4Addr.octets ⟨203, 0, 112, 7⟩) ∧
    buildEcsOption (.v4 ⟨203, 0, 113, 7⟩) 20 = [0, 1, 20, 0, 203, 0, 113] ∧
    buildEcsOption (.v4 ⟨203, 0, 112, 7⟩) 20 = [0, 1, 20, 0, 203, 0, 112] ∧
    ¬ ∀ (f : Family) (len : UInt8), len.toNat ≤ f.bits → f.EcsPrivate len := by
  have hagree :
      AgreeUpTo 20 (Ipv4Addr.octets ⟨203, 0, 113, 7⟩) (Ipv4Addr.octets ⟨203, 0, 112, 7⟩) := by
    decide
  refine ⟨hagree, rfl, rfl, fun hall => ?_⟩
  have hsame := (hall .v4 20 (by decide)).same (.v4 ⟨203, 0, 113, 7⟩) (.v4 ⟨203, 0, 112, 7⟩) rfl rfl
    hagree
  exact absurd hsame (by decide)

end TitanDns
