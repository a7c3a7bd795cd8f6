import TitanDns.Plugins.Responders
import TitanDns.Dns.Addresses

/-!
# The layout of synthesised addresses

* `Dns64Plugin.parsePrefix`, `Dns64Plugin.new` — the prefix and its length from the configuration.
* `octets_synthesizeIpv6_64`, `octets_synthesizeIpv6_96` — what `synthesize_ipv6` writes, octet by
  octet: every length but 64 gets the layout of 96.
* `embeddedAt`, `Rfc6052` — where the octets of the IPv4 address belong behind a prefix.
* `Dns64Plugin.Carries` — the prefix has that very address at those places already.

Principal result: `synthesizeIpv6_translates_iff` — **the layout is right for lengths 64 and 96, and
for another length only where the prefix carries the address itself.**
-/

namespace TitanDns

/-! ## The configuration -/

namespace Dns64Plugin

/-- `parse_prefix`: what stands behind a second slash is not read, and a length that is no number is
96. -/
def parsePrefix (text : List Char) : Option (Ipv6Addr × UInt8) :=
  let parts := text.splitOn '/'
  match Ipv6Addr.parse (parts.headD []) with
  | none => none
  | some addr =>
    let len := ((parts[1]?).map fun l => (parseU8 l).getD 96).getD 96
    if len ≠ 96 ∧ len ≠ 64 ∧ len ≠ 56 ∧ len ≠ 48 ∧ len ≠ 40 ∧ len ≠ 32 then none
    else some (addr, len)

/-- `64:ff9b::` -/
def wellKnownPrefix : Ipv6Addr := ⟨0x0064ff9b00000000, 0⟩

/-- `Dns64Plugin::new` -/
def new (configured : Option (List Char)) (onlyIfNoAaaa : Bool) : Option Dns64Plugin :=
  match configured with
  | some text => (parsePrefix text).map fun (addr, len) => ⟨addr, len, onlyIfNoAaaa⟩
  | none => some ⟨wellKnownPrefix, 96, onlyIfNoAaaa⟩

/-- The lengths that `parse_prefix` accepts. -/
def acceptedLens : List UInt8 := [32, 40, 48, 56, 64, 96]

/-- A plugin that was built has one of these lengths. -/
theorem new_accepted {configured : Option (List Char)} {onlyIfNoAaaa : Bool} {d : Dns64Plugin}
    (h : new configured onlyIfNoAaaa = some d) : d.prefixLen ∈ acceptedLens := by
  cases configured with
  | none =>
    obtain rfl : _ = d := Option.some.inj h
    exact (by decide : (96 : UInt8) ∈ acceptedLens)
  | some text =>
    obtain ⟨⟨addr, len⟩, hparse, rfl⟩ := Option.map_eq_some_iff.mp h
    simp only [parsePrefix] at hparse
    split at hparse
    · cases hparse
    · split at hparse
      · cases hparse
      · rename_i hlen
        obtain ⟨rfl, rfl⟩ := Prod.mk.inj (Option.some.inj hparse)
        simp only [acceptedLens, List.mem_cons, List.not_mem_nil, or_false]
        by_contra hnot
        simp only [not_or] at hnot
        exact hlen ⟨hnot.2.2.2.2.2, hnot.2.2.2.2.1, hnot.2.2.2.1, hnot.2.2.1, hnot.2.1, hnot.1⟩

end Dns64Plugin

/-! ## The octets that are written -/

/-- The high half of a word with another word in its low half. -/
theorem low_half_toNat (w : UInt64) (v : UInt32) :
    ((w &&& 0xffffffff00000000) ||| v.toUInt64).toNat = w.toNat / 256 ^ 4 * 256 ^ 4 + v.toNat := by
  have hv := v.toNat_lt
  have hmask : (w &&& 0xffffffff00000000).toNat = 2 ^ 32 * (w.toNat / 2 ^ 32) := by
    apply Nat.eq_of_testBit_eq
    intro i
    have hconst : (0xffffffff00000000 : UInt64).toNat = 2 ^ 32 * (2 ^ 32 - 1) := rfl
    rw [UInt64.toNat_and, hconst, Nat.testBit_and, Nat.testBit_two_pow_mul, Nat.testBit_two_pow_mul,
      Nat.testBit_two_pow_sub_one, Nat.testBit_div_two_pow]
    by_cases hi : 32 ≤ i
    · by_cases htop : i < 64
      · have hback : i - 32 + 32 = i := by omega
        simp only [hi, hback, show i - 32 < 32 by omega, decide_true, Bool.and_true, Bool.true_and]
      · have hbig : w.toNat < 2 ^ i :=
          Nat.lt_of_lt_of_le w.toNat_lt (Nat.pow_le_pow_right (by omega) (by omega))
        have hback : i - 32 + 32 = i := by omega
        rw [hback, Nat.testBit_lt_two_pow hbig, Bool.false_and, Bool.and_false]
    · simp only [hi, decide_false, Bool.and_false, Bool.false_and]
  have hpow : 256 ^ 4 = 2 ^ 32 := by decide
  rw [UInt64.toNat_or, UInt32.toNat_toUInt64, hmask,
    ← Nat.two_pow_add_eq_or_of_lt hv (w.toNat / 2 ^ 32), hpow, Nat.mul_comm]

namespace Dns64Plugin

/-- Length 64: the prefix, the reserved octet, the IPv4 address. -/
theorem octets_synthesizeIpv6_64 {d : Dns64Plugin} (h : d.prefixLen = 64) (ip : Ipv4Addr) :
    (d.synthesizeIpv6 ip).octets =
      d.ipv6Prefix.octets.take 8 ++ [0] ++ ip.octets ++ [0, 0, 0] := by
  have hv := ip.toU32.toNat_lt
  have hlow : (ip.toU32.toUInt64 <<< 24).toNat = ip.toU32.toNat * 256 ^ 3 := by
    rw [UInt64.toNat_shiftLeft, UInt32.toNat_toUInt64, Nat.shiftLeft_eq]
    have hconst : (24 : UInt64).toNat % 64 = 24 := rfl
    rw [hconst]
    omega
  have hbytes : (leBytes 8 (ip.toU32.toNat * 256 ^ 3)).reverse = [0] ++ ip.octets ++ [0, 0, 0] := by
    have hsplit := leBytes_append 3 5 (ip.toU32.toNat * 256 ^ 3)
    have hrest := leBytes_append 4 1 ip.toU32.toNat
    have htop : ip.toU32.toNat / 256 ^ 4 = 0 := by omega
    rw [Nat.mul_div_cancel _ (by omega), leBytes_shifted] at hsplit
    rw [htop] at hrest
    rw [hsplit, hrest, List.reverse_append, List.reverse_append, ip.leBytes_toU32]
    rfl
  have htake : d.ipv6Prefix.octets.take 8 = (leBytes 8 d.ipv6Prefix.high.toNat).reverse :=
    List.take_left' (by rw [List.length_reverse, leBytes_length])
  rw [synthesizeIpv6, if_pos h, Ipv6Addr.octets, hlow, hbytes, htake, List.append_assoc,
    List.append_assoc]
  rfl

/-- **Every other length gets twelve octets of the prefix and the IPv4 address.** -/
theorem octets_synthesizeIpv6_96 {d : Dns64Plugin} (h : d.prefixLen ≠ 64) (ip : Ipv4Addr) :
    (d.synthesizeIpv6 ip).octets = d.ipv6Prefix.octets.take 12 ++ ip.octets := by
  have hsplit := leBytes_append 4 4 d.ipv6Prefix.low.toNat
  have hmixed := leBytes_append 4 4 (d.ipv6Prefix.low.toNat / 256 ^ 4 * 256 ^ 4 + ip.toU32.toNat)
  have hv : ip.toU32.toNat < 256 ^ 4 := ip.toU32.toNat_lt
  have hhigh : (d.ipv6Prefix.low.toNat / 256 ^ 4 * 256 ^ 4 + ip.toU32.toNat) / 256 ^ 4 =
      d.ipv6Prefix.low.toNat / 256 ^ 4 := by
    omega
  rw [leBytes_add_shifted, hhigh] at hmixed
  have htake : d.ipv6Prefix.octets.take 12 = (leBytes 8 d.ipv6Prefix.high.toNat).reverse ++
      (leBytes 4 (d.ipv6Prefix.low.toNat / 256 ^ 4)).reverse := by
    rw [Ipv6Addr.octets, hsplit, List.reverse_append, ← List.append_assoc]
    exact List.take_left' (by simp)
  rw [synthesizeIpv6, if_neg h, Ipv6Addr.octets, low_half_toNat, hmixed, List.reverse_append,
    ip.leBytes_toU32, htake, List.append_assoc]

end Dns64Plugin

/-! ## The layout -/

/-- Where octet `k` of the IPv4 address belongs behind a prefix of `len` bits: right after the
prefix, octet 8 left out. -/
def embeddedAt (len k : Nat) : Nat :=
  if len < 96 ∧ 8 ≤ len / 8 + k then len / 8 + k + 1 else len / 8 + k

/-- The address of an IPv4 address behind a prefix. -/
structure Rfc6052 (ipv6Prefix : Ipv6Addr) (len : Nat) (ip : Ipv4Addr) (out : Ipv6Addr) : Prop where
  prefixBits : AgreeUpTo len out.octets ipv6Prefix.octets
  reserved : len < 96 → ∀ i, 64 ≤ i → i < 72 → octetBit out.octets i = false
  embedded : ∀ k < 4, out.octets.getD (embeddedAt len k) 0 = ip.octets.getD k 0

/-- The IPv4 address read back from its places. -/
def embeddedIpv4 (len : Nat) (out : Ipv6Addr) : Ipv4Addr :=
  ⟨out.octets.getD (embeddedAt len 0) 0, out.octets.getD (embeddedAt len 1) 0,
    out.octets.getD (embeddedAt len 2) 0, out.octets.getD (embeddedAt len 3) 0⟩

/-- An address that follows the layout gives its IPv4 address back. -/
theorem Rfc6052.embeddedIpv4_eq {ipv6Prefix : Ipv6Addr} {len : Nat} {ip : Ipv4Addr} {out : Ipv6Addr}
    (h : Rfc6052 ipv6Prefix len ip out) : embeddedIpv4 len out = ip := by
  have h0 := h.embedded 0 (by omega)
  have h1 := h.embedded 1 (by omega)
  have h2 := h.embedded 2 (by omega)
  have h3 := h.embedded 3 (by omega)
  rw [embeddedIpv4, h0, h1, h2, h3]
  rfl

/-- The reserved octet by its bits. -/
theorem reserved_iff (os : List UInt8) :
    (∀ i, 64 ≤ i → i < 72 → octetBit os i = false) ↔ os.getD 8 0 = 0 := by
  have hzero (k : Nat) : (0 : UInt8).toNat.testBit k = false := Nat.zero_testBit k
  constructor
  · intro h
    apply octet_ext
    intro k hk
    rw [← octetBit_at os hk, h (8 * 8 + k) (by omega) (by omega), hzero]
  · intro h i hlow hhigh
    have hdiv : i / 8 = 8 := by omega
    rw [octetBit, hdiv, h, hzero]

namespace Dns64Plugin

variable (d : Dns64Plugin) (ip : Ipv4Addr)

/-- What is said of a synthesised address: the layout, the way back, and that no other address has
the same one. -/
structure Translates : Prop where
  layout : Rfc6052 d.ipv6Prefix d.prefixLen.toNat ip (d.synthesizeIpv6 ip)
  recovered : embeddedIpv4 d.prefixLen.toNat (d.synthesizeIpv6 ip) = ip
  distinct : ∀ ip', d.synthesizeIpv6 ip' = d.synthesizeIpv6 ip → ip' = ip

/-- The prefix has this very address where it belongs, and its reserved octet is zero. -/
def Carries : Prop :=
  d.ipv6Prefix.octets.getD 8 0 = 0 ∧
    ∀ k < 4, d.ipv6Prefix.octets.getD (embeddedAt d.prefixLen.toNat k) 0 = ip.octets.getD k 0

variable {d ip}

/-- Distinct addresses are told apart, whatever the length. -/
theorem synthesizeIpv6_injective {ip' : Ipv4Addr}
    (h : d.synthesizeIpv6 ip' = d.synthesizeIpv6 ip) : ip' = ip := by
  have hoctets := congrArg Ipv6Addr.octets h
  apply Ipv4Addr.octets_injective
  by_cases hlen : d.prefixLen = 64
  · rw [octets_synthesizeIpv6_64 hlen, octets_synthesizeIpv6_64 hlen, List.append_left_inj,
      List.append_right_inj] at hoctets
    exact hoctets
  · rw [octets_synthesizeIpv6_96 hlen, octets_synthesizeIpv6_96 hlen,
      List.append_right_inj] at hoctets
    exact hoctets

/-- The prefix part of what is written. -/
theorem getD_take_append {n j : Nat} {xs ys : List UInt8} (hj : j < n) (hn : n ≤ xs.length) :
    (xs.take n ++ ys).getD j 0 = xs.getD j 0 := by
  have hlen : j < (xs.take n).length := by
    rw [List.length_take]
    omega
  rw [List.getD_eq_getElem?_getD, List.getElem?_append_left hlen, List.getElem?_take_of_lt hj,
    ← List.getD_eq_getElem?_getD]

/-- The part behind the prefix. -/
theorem getD_append_at {n : Nat} {xs ys : List UInt8} (hn : xs.length = n) (k : Nat) :
    (xs ++ ys).getD (n + k) 0 = ys.getD k 0 := by
  have hback : n + k - n = k := by omega
  rw [List.getD_append_right _ _ _ _ (by omega), hn, hback]

/-- Away from length 64 the first twelve octets are those of the prefix. -/
theorem getD_synthesizeIpv6_first (h : d.prefixLen ≠ 64) {j : Nat} (hj : j < 12) :
    (d.synthesizeIpv6 ip).octets.getD j 0 = d.ipv6Prefix.octets.getD j 0 := by
  rw [octets_synthesizeIpv6_96 h]
  exact getD_take_append hj (by rw [Ipv6Addr.octets_length]; omega)

theorem rfc6052_64 (h : d.prefixLen = 64) :
    Rfc6052 d.ipv6Prefix d.prefixLen.toNat ip (d.synthesizeIpv6 ip) := by
  have hlen : d.prefixLen.toNat = 64 := by rw [h]; rfl
  have htake : (d.ipv6Prefix.octets.take 8).length = 8 := by
    rw [List.length_take, Ipv6Addr.octets_length]
    rfl
  rw [hlen]
  constructor
  · apply AgreeUpTo.of_octets
    intro j hj
    rw [octets_synthesizeIpv6_64 h, List.append_assoc, List.append_assoc]
    exact getD_take_append (by omega) (by rw [Ipv6Addr.octets_length]; omega)
  · intro _
    rw [reserved_iff, octets_synthesizeIpv6_64 h, List.append_assoc, List.append_assoc]
    exact getD_append_at htake 0
  · intro k hk
    have hat : embeddedAt 64 k = 9 + k := by
      rw [embeddedAt, if_pos ⟨by omega, by omega⟩]
      omega
    have hbefore : (d.ipv6Prefix.octets.take 8 ++ [0]).length = 9 := by
      rw [List.length_append, htake]
      rfl
    rw [octets_synthesizeIpv6_64 h, hat, List.append_assoc, getD_append_at hbefore,
      List.getD_append _ _ _ _ (by rw [Ipv4Addr.octets_length]; omega)]

theorem rfc6052_96 (h : d.prefixLen = 96) :
    Rfc6052 d.ipv6Prefix d.prefixLen.toNat ip (d.synthesizeIpv6 ip) := by
  have hlen : d.prefixLen.toNat = 96 := by rw [h]; rfl
  have hne : d.prefixLen ≠ 64 := by rw [h]; decide
  have htake : (d.ipv6Prefix.octets.take 12).length = 12 := by
    rw [List.length_take, Ipv6Addr.octets_length]
    rfl
  rw [hlen]
  constructor
  · exact AgreeUpTo.of_octets fun j hj => getD_synthesizeIpv6_first hne (by omega)
  · intro hlt
    omega
  · intro k _
    have hat : embeddedAt 96 k = 12 + k := if_neg (by omega)
    rw [octets_synthesizeIpv6_96 hne, hat, getD_append_at htake]

/-- **Behind a shorter prefix the IPv4 address is where it belongs only if the prefix has it
there.** -/
theorem rfc6052_short_iff (hshort : d.prefixLen.toNat ≤ 56) :
    Rfc6052 d.ipv6Prefix d.prefixLen.toNat ip (d.synthesizeIpv6 ip) ↔ d.Carries ip := by
  have hne : d.prefixLen ≠ 64 := by
    rintro h
    rw [h] at hshort
    exact absurd hshort (by decide)
  have hat {k : Nat} (hk : k < 4) : embeddedAt d.prefixLen.toNat k < 12 := by
    unfold embeddedAt
    split <;> omega
  have hreserved : (d.synthesizeIpv6 ip).octets.getD 8 0 = d.ipv6Prefix.octets.getD 8 0 :=
    getD_synthesizeIpv6_first hne (by omega)
  constructor
  · intro h
    constructor
    · rw [← hreserved]
      exact (reserved_iff _).mp (h.reserved (by omega))
    · intro k hk
      rw [← h.embedded k hk, getD_synthesizeIpv6_first hne (hat hk)]
  · rintro ⟨hzero, hcarried⟩
    constructor
    · exact AgreeUpTo.of_octets fun j hj => getD_synthesizeIpv6_first hne (by omega)
    · intro _
      rw [reserved_iff, hreserved, hzero]
    · intro k hk
      rw [getD_synthesizeIpv6_first hne (hat hk), hcarried k hk]

/-- An address is translated when it follows the layout. -/
theorem translates_iff_rfc6052 :
    d.Translates ip ↔ Rfc6052 d.ipv6Prefix d.prefixLen.toNat ip (d.synthesizeIpv6 ip) := by
  constructor
  · exact Translates.layout
  · intro h
    exact ⟨h, h.embeddedIpv4_eq, fun _ => synthesizeIpv6_injective⟩

/-- No prefix carries every address. -/
theorem not_forall_carries : ¬ ∀ ip, d.Carries ip := by
  intro h
  have hzero := (h ⟨0, 0, 0, 0⟩).2 0 (by omega)
  have hone := (h ⟨1, 0, 0, 0⟩).2 0 (by omega)
  rw [hzero] at hone
  exact absurd hone (by decide)

/-- The accepted lengths, as the two whose layout is written and the shorter ones. -/
theorem accepted_cases (h : d.prefixLen ∈ acceptedLens) :
    d.prefixLen = 64 ∨ d.prefixLen = 96 ∨
      (d.prefixLen ≠ 64 ∧ d.prefixLen ≠ 96 ∧ d.prefixLen.toNat ≤ 56) := by
  simp only [acceptedLens, List.mem_cons, List.not_mem_nil, or_false] at h
  rcases h with h | h | h | h | h | h
  iterate 4 exact Or.inr (Or.inr (by rw [h]; decide))
  · exact Or.inl h
  · exact Or.inr (Or.inl h)

/-- **The layout is right for lengths 64 and 96, and for another length only where the prefix
carries the address itself**; so over all addresses it is right for 64 and 96 only. -/
theorem synthesizeIpv6_translates_iff {d : Dns64Plugin} (hlen : d.prefixLen ∈ acceptedLens) :
    (∀ ip, d.Translates ip ↔ d.prefixLen = 64 ∨ d.prefixLen = 96 ∨ d.Carries ip) ∧
      ((∀ ip, d.Translates ip) ↔ d.prefixLen = 64 ∨ d.prefixLen = 96) := by
  rcases accepted_cases hlen with h | h | ⟨hne64, hne96, hshort⟩
  · have hall (ip : Ipv4Addr) : d.Translates ip := translates_iff_rfc6052.mpr (rfc6052_64 h)
    exact ⟨fun ip => iff_of_true (hall ip) (Or.inl h), iff_of_true hall (Or.inl h)⟩
  · have hall (ip : Ipv4Addr) : d.Translates ip := translates_iff_rfc6052.mpr (rfc6052_96 h)
    exact ⟨fun ip => iff_of_true (hall ip) (Or.inr (Or.inl h)), iff_of_true hall (Or.inr h)⟩
  · have hone (ip : Ipv4Addr) : d.Translates ip ↔ d.Carries ip :=
      translates_iff_rfc6052.trans (rfc6052_short_iff hshort)
    constructor
    · intro ip
      rw [hone ip, or_iff_right hne64, or_iff_right hne96]
    · constructor
      · intro hall
        exact absurd (fun ip => (hone ip).mp (hall ip)) not_forall_carries
      · rintro (h | h)
        · exact absurd h hne64
        · exact absurd h hne96

/-- The plugin of the prefix `2001:db8::/32`. -/
def documentationPlugin : Dns64Plugin := ⟨⟨0x20010db800000000, 0⟩, 32, true⟩

theorem new_documentation : new (some "2001:db8::/32".toList) true = some documentationPlugin := by
  have hparse : parsePrefix "2001:db8::/32".toList = some (⟨0x20010db800000000, 0⟩, 32) := by decide
  rw [new, hparse]
  rfl

theorem synthesizeIpv6_translates_iff_documentation :
    ¬ ∀ ip, documentationPlugin.Translates ip := by
  intro hall
  rcases (synthesizeIpv6_translates_iff (new_accepted new_documentation)).2.mp hall with h | h
  · exact absurd h (by decide)
  · exact absurd h (by decide)

/-- `192.0.2.33` behind `2001:db8::/32` belongs at `2001:db8:c000:221::`, and is put at
`2001:db8::c000:221`. -/
theorem synthesizeIpv6_misplaced :
    some (documentationPlugin.synthesizeIpv6 ⟨192, 0, 2, 33⟩) =
      Ipv6Addr.parse "2001:db8::c000:221".toList ∧
    ¬ ∀ (configured : Option (List Char)) (onlyIfNoAaaa : Bool) (d : Dns64Plugin),
        new configured onlyIfNoAaaa = some d → ∀ ip, d.Translates ip := by
  refine ⟨by decide, fun hall => ?_⟩
  have h := (hall _ _ _ new_documentation ⟨192, 0, 2, 33⟩).layout.embedded 0 (by omega)
  exact absurd h (by decide)

end Dns64Plugin

end TitanDns
