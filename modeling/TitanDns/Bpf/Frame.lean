import Mathlib.Data.List.Basic

/-!
# Frames and header helpers of `titan_filter.c`

A frame is the byte list between `data` and `data_end`.  Pointers are offsets; every bounds check
of the source is a comparison with the length.

* `Endian` — byte order of the host: the program reads 16- and 32-bit words natively.
* `Frame.patch` — bytes written at an offset.  `Frame.patch_drop`: **a write inside the headers
  leaves the payload alone.**
* `ihl`, `udpAt` — the header length that the packet states, and where its UDP header is by it.
* `swapEthernet`, `swapIpv4`, `swapUdp`, `calcIpCsum` — the helpers of the source.
-/

namespace TitanDns.Bpf

/-! ## Host byte order -/

inductive Endian where
  | little
  | big
  deriving DecidableEq, Repr

/-- The native 16-bit word stored as the bytes `a`, `b`. -/
def Endian.word16 : Endian → UInt8 → UInt8 → Nat
  | .little, a, b => a.toNat + 256 * b.toNat
  | .big, a, b => 256 * a.toNat + b.toNat

/-- The bytes a native 16-bit word is stored as. -/
def Endian.bytes16 : Endian → Nat → List UInt8
  | .little, w => [UInt8.ofNat (w % 256), UInt8.ofNat (w / 256 % 256)]
  | .big, w => [UInt8.ofNat (w / 256 % 256), UInt8.ofNat (w % 256)]

@[simp] theorem Endian.bytes16_length (e : Endian) (w : Nat) : (e.bytes16 w).length = 2 := by
  cases e <;> rfl

/-- The native 32-bit word stored as the bytes `a`, `b`, `c`, `d`. -/
def Endian.word32 : Endian → UInt8 → UInt8 → UInt8 → UInt8 → UInt32
  | .little, a, b, c, d =>
    UInt32.ofNat (a.toNat + 256 * (b.toNat + 256 * (c.toNat + 256 * d.toNat)))
  | .big, a, b, c, d =>
    UInt32.ofNat (d.toNat + 256 * (c.toNat + 256 * (b.toNat + 256 * a.toNat)))

/-- `bpf_htons`: the network-order bytes of a 16-bit value. -/
def htons (w : Nat) : List UInt8 := [UInt8.ofNat (w / 256 % 256), UInt8.ofNat (w % 256)]

@[simp] theorem htons_length (w : Nat) : (htons w).length = 2 := rfl

/-! ## Frames -/

abbrev Frame := List UInt8

namespace Frame

/-- The byte at offset `i`; only read after a bounds check. -/
def byte (f : Frame) (i : Nat) : UInt8 := f.getD i 0

/-- The `n` bytes from offset `i`. -/
def slice (f : Frame) (i n : Nat) : List UInt8 := (f.drop i).take n

/-- Write `bs` at offset `i`. -/
def patch (f : Frame) (i : Nat) (bs : List UInt8) : Frame :=
  f.take i ++ bs ++ f.drop (i + bs.length)

theorem slice_length {f : Frame} {i n : Nat} (h : i + n ≤ f.length) : (f.slice i n).length = n := by
  simp only [slice, List.length_take, List.length_drop]
  omega

theorem patch_length {f : Frame} {i : Nat} {bs : List UInt8} (h : i + bs.length ≤ f.length) :
    (f.patch i bs).length = f.length := by
  simp only [patch, List.length_append, List.length_take, List.length_drop]
  omega

/-- A write below offset `n` leaves everything from `n` on alone. -/
theorem patch_drop {f : Frame} {i n : Nat} {bs : List UInt8} (hn : i + bs.length ≤ n)
    (hf : n ≤ f.length) : (f.patch i bs).drop n = f.drop n := by
  have hlen : (f.take i ++ bs).length = i + bs.length := by
    simp only [List.length_append, List.length_take]
    omega
  rw [patch, List.drop_append, hlen, List.drop_eq_nil_of_le (by omega), List.nil_append,
    List.drop_drop]
  congr 1
  omega

/-- Writing where the first `i` bytes end. -/
theorem patch_append {p bs q r : List UInt8} (hq : q.length = bs.length) :
    Frame.patch (p ++ q ++ r) p.length bs = p ++ bs ++ r := by
  have htake : (p ++ q ++ r).take p.length = p := by simp
  have hdrop : (p ++ q ++ r).drop (p.length + bs.length) = r := by
    rw [← hq, ← List.length_append, List.drop_left]
  rw [patch, htake, hdrop]

end Frame

/-! ## Header layout -/

/-- `sizeof(struct ethhdr)`. -/
def ETH_LEN : Nat := 14

/-- `sizeof(struct iphdr)`. -/
def IP_LEN : Nat := 20

/-- `sizeof(struct udphdr)`. -/
def UDP_LEN : Nat := 8

/-- Offset of the IPv4 header. -/
def IP : Nat := ETH_LEN

/-- Offset of the UDP header. -/
def UDP : Nat := ETH_LEN + IP_LEN

/-- Offset of the DNS payload. -/
def PAYLOAD : Nat := ETH_LEN + IP_LEN + UDP_LEN

/-- IHL, in words of four bytes. -/
def ihl (f : Frame) : Nat := (f.byte IP).toNat % 16

/-- Where the UDP header of the packet is; the program takes it to be at `UDP`. -/
def udpAt (f : Frame) : Nat := IP + 4 * ihl f

/-! ## Helpers -/

/-- `h_dest` at 0, `h_source` at 6. -/
def swapEthernet (f : Frame) : Frame :=
  (f.patch 6 (f.slice 0 6)).patch 0 (f.slice 6 6)

/-- `saddr` at 12, `daddr` at 16, `check` at 10 of the IPv4 header. -/
def swapIpv4 (f : Frame) : Frame :=
  ((f.patch (IP + 12) (f.slice (IP + 16) 4)).patch (IP + 16) (f.slice (IP + 12) 4)).patch
    (IP + 10) [0, 0]

/-- `source` at 0, `dest` at 2, `check` at 6 of the UDP header. -/
def swapUdp (f : Frame) : Frame :=
  ((f.patch UDP (f.slice (UDP + 2) 2)).patch (UDP + 2) (f.slice UDP 2)).patch (UDP + 6) [0, 0]

/-- The sum of the first `n` native words from offset `i`. -/
def sumWords (e : Endian) (f : Frame) (i : Nat) : Nat → Nat
  | 0 => 0
  | n + 1 => sumWords e f i n + e.word16 (f.byte (i + 2 * n)) (f.byte (i + 2 * n + 1))

/-- `while (csum >> 16) csum = (csum & 0xFFFF) + (csum >> 16)`. -/
def foldCarries (csum : Nat) : Nat :=
  if csum / 65536 = 0 then csum else foldCarries (csum % 65536 + csum / 65536)
termination_by csum
decreasing_by omega

/-- `~csum`, as a 16-bit word. -/
def calcIpCsum (e : Endian) (f : Frame) : Nat :=
  65535 - foldCarries (sumWords e f IP (IP_LEN / 2))

/-- `ip->check = calc_ip_csum(ip)`. -/
def setIpCsum (e : Endian) (f : Frame) : Frame := f.patch (IP + 10) (e.bytes16 (calcIpCsum e f))

/-! ## The helpers stay inside the headers -/

/-- `g` has the length of `f` and the same bytes from the payload on. -/
def SamePayload (g f : Frame) : Prop := g.length = f.length ∧ g.drop PAYLOAD = f.drop PAYLOAD

variable {f g : Frame}

theorem SamePayload.refl (f : Frame) : SamePayload f f := ⟨rfl, rfl⟩

theorem SamePayload.trans {a b c : Frame} (hab : SamePayload a b) (hbc : SamePayload b c) :
    SamePayload a c := ⟨hab.1.trans hbc.1, hab.2.trans hbc.2⟩

theorem SamePayload.patch (h : SamePayload g f) (hf : PAYLOAD ≤ f.length) {i : Nat}
    {bs : List UInt8} (hi : i + bs.length ≤ PAYLOAD) : SamePayload (g.patch i bs) f := by
  have hg : PAYLOAD ≤ g.length := by rw [h.1]; exact hf
  exact ⟨(Frame.patch_length (by omega)).trans h.1, (Frame.patch_drop hi hg).trans h.2⟩

theorem SamePayload.patch_slice (h : SamePayload g f) (hf : PAYLOAD ≤ f.length) {i j n : Nat}
    {g' : Frame} (hg' : g'.length = f.length) (hi : i + n ≤ PAYLOAD) (hj : j + n ≤ PAYLOAD) :
    SamePayload (g.patch i (g'.slice j n)) f := by
  refine h.patch hf ?_
  rw [Frame.slice_length (by omega)]
  exact hi

theorem swapEthernet_samePayload (hf : PAYLOAD ≤ f.length) : SamePayload (swapEthernet f) f :=
  ((SamePayload.refl f).patch_slice hf rfl (by decide) (by decide)).patch_slice hf rfl
    (by decide) (by decide)

theorem swapIpv4_samePayload (hf : PAYLOAD ≤ f.length) : SamePayload (swapIpv4 f) f :=
  (((SamePayload.refl f).patch_slice hf rfl (by decide) (by decide)).patch_slice hf rfl
    (by decide) (by decide)).patch hf (by decide)

theorem swapUdp_samePayload (hf : PAYLOAD ≤ f.length) : SamePayload (swapUdp f) f :=
  (((SamePayload.refl f).patch_slice hf rfl (by decide) (by decide)).patch_slice hf rfl
    (by decide) (by decide)).patch hf (by decide)

theorem setIpCsum_samePayload (e : Endian) (hf : PAYLOAD ≤ f.length) :
    SamePayload (setIpCsum e f) f := by
  refine (SamePayload.refl f).patch hf ?_
  rw [Endian.bytes16_length]
  decide

end TitanDns.Bpf
