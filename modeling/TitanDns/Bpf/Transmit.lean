import TitanDns.Bpf.Filter
import Mathlib.Tactic.IntervalCases

/-!
# What the XDP program transmits

The headers of a frame that `titan_dns_filter` sends back, as a receiver reads them: the IPv4
header has four times IHL bytes, and the UDP header follows it.  The program itself takes the header
to have 20 bytes, in its checksum and in where it looks for ports and payload.

* `WellFormed` — checksum, lengths and swapped addresses of a frame sent for another.
* `Transmitted` — what is common to both ways of sending: new headers, the 20 bytes summed up, and
  the rest; `reflectRefused_transmitted`, `reply_transmitted` — the two ways.
* `Fits` — that rest makes up for the bytes that the program leaves out.

Principal result: `transmitted_wellFormed_iff` — **a frame sent for a header of 20 bytes is well
formed, a refusal if the lengths it came with match; for a longer header it must fit by chance.**
-/

namespace TitanDns.Bpf

/-! ## One's complement sums -/

theorem foldCarries_lt (s : Nat) : foldCarries s < 65536 := by
  fun_induction foldCarries s with
  | case1 s h => omega
  | case2 s h ih => exact ih

theorem foldCarries_mod (s : Nat) : foldCarries s % 65535 = s % 65535 := by
  fun_induction foldCarries s with
  | case1 s h => rfl
  | case2 s h ih => omega

theorem foldCarries_pos {s : Nat} (hs : 0 < s) : 0 < foldCarries s := by
  fun_induction foldCarries s with
  | case1 s h => exact hs
  | case2 s h ih => exact ih (by omega)

/-- A sum folds to all ones when it is a multiple of that, and not zero. -/
theorem foldCarries_ones {s : Nat} (hs : 0 < s) : foldCarries s = 65535 ↔ s % 65535 = 0 := by
  have hlt := foldCarries_lt s
  have hmod := foldCarries_mod s
  have hpos := foldCarries_pos hs
  omega

theorem sumWords_add (e : Endian) (f : Frame) (i n m : Nat) :
    sumWords e f i (n + m) = sumWords e f i n + sumWords e f (i + 2 * n) m := by
  induction m with
  | zero => rfl
  | succ m ih =>
    have hat : i + 2 * (n + m) = i + 2 * n + 2 * m := by omega
    show sumWords e f i (n + m) +
        e.word16 (f.byte (i + 2 * (n + m))) (f.byte (i + 2 * (n + m) + 1)) =
      sumWords e f i n + (sumWords e f (i + 2 * n) m + _)
    rw [ih, hat]
    omega

theorem sumWords_congr (e : Endian) {f g : Frame} {i k n : Nat}
    (h : ∀ j, j < 2 * n → f.byte (i + j) = g.byte (k + j)) :
    sumWords e f i n = sumWords e g k n := by
  induction n with
  | zero => rfl
  | succ n ih =>
    have hlow : f.byte (i + 2 * n) = g.byte (k + 2 * n) := h (2 * n) (by omega)
    have hhigh : f.byte (i + 2 * n + 1) = g.byte (k + 2 * n + 1) := h (2 * n + 1) (by omega)
    unfold sumWords
    rw [ih fun j hj => h j (by omega), hlow, hhigh]

/-- The byte order of the host does not matter for a multiple of all ones. -/
theorem sumWords_big (f : Frame) (i n : Nat) :
    sumWords .big f i n % 65535 = 256 * sumWords .little f i n % 65535 := by
  induction n with
  | zero => rfl
  | succ n ih =>
    show (sumWords .big f i n +
        (256 * (f.byte (i + 2 * n)).toNat + (f.byte (i + 2 * n + 1)).toNat)) % 65535 =
      256 * (sumWords .little f i n +
        ((f.byte (i + 2 * n)).toNat + 256 * (f.byte (i + 2 * n + 1)).toNat)) % 65535
    omega

theorem sumWords_native (e : Endian) (f : Frame) (i n : Nat) :
    sumWords e f i n % 65535 = 0 ↔ sumWords .big f i n % 65535 = 0 := by
  cases e with
  | big => exact Iff.rfl
  | little =>
    have hbig := sumWords_big f i n
    omega

theorem word16_bytes16 (e : Endian) {w : Nat} (hw : w < 65536) :
    e.word16 ((e.bytes16 w).getD 0 0) ((e.bytes16 w).getD 1 0) = w := by
  cases e with
  | little =>
    show (UInt8.ofNat (w % 256)).toNat + 256 * (UInt8.ofNat (w / 256 % 256)).toNat = w
    rw [UInt8.toNat_ofNat', UInt8.toNat_ofNat']
    omega
  | big =>
    show 256 * (UInt8.ofNat (w / 256 % 256)).toNat + (UInt8.ofNat (w % 256)).toNat = w
    rw [UInt8.toNat_ofNat', UInt8.toNat_ofNat']
    omega

/-! ## Bytes of a frame -/

namespace Frame

theorem byte_patch {f : Frame} {i : Nat} {bs : List UInt8} (h : i + bs.length ≤ f.length)
    (j : Nat) :
    (f.patch i bs).byte j =
      if i ≤ j ∧ j < i + bs.length then bs.getD (j - i) 0 else f.byte j := by
  have htake : (f.take i).length = i := by
    rw [List.length_take]
    omega
  unfold byte patch
  simp only [List.getD_eq_getElem?_getD]
  split
  · rename_i hj
    rw [List.append_assoc, List.getElem?_append_right (by omega), htake,
      List.getElem?_append_left (by omega)]
  · rename_i hj
    by_cases hlt : j < i
    · rw [List.append_assoc, List.getElem?_append_left (by omega), List.getElem?_take_of_lt hlt]
    · have hlen : (f.take i ++ bs).length = i + bs.length := by rw [List.length_append, htake]
      rw [List.getElem?_append_right (by omega), hlen, List.getElem?_drop]
      congr 2
      omega

theorem byte_slice (f : Frame) (i n k : Nat) (hk : k < n) :
    (f.slice i n).getD k 0 = f.byte (i + k) := by
  unfold slice byte
  simp only [List.getD_eq_getElem?_getD]
  rw [List.getElem?_take_of_lt hk, List.getElem?_drop]

/-- A copied field. -/
theorem byte_patch_slice {f g : Frame} {i k n : Nat} (h : i + n ≤ f.length) (hg : k + n ≤ g.length)
    (j : Nat) :
    (f.patch i (g.slice k n)).byte j =
      if i ≤ j ∧ j < i + n then g.byte (k + (j - i)) else f.byte j := by
  have hlength : (g.slice k n).length = n := slice_length hg
  rw [byte_patch (by rw [hlength]; exact h), hlength]
  split
  · exact byte_slice g k n (j - i) (by omega)
  · rfl

theorem patch_slice_length {f g : Frame} {i k n : Nat} (h : i + n ≤ f.length)
    (hg : k + n ≤ g.length) : (f.patch i (g.slice k n)).length = f.length :=
  patch_length (by rw [slice_length hg]; exact h)

theorem byte_drop (f : Frame) (n j : Nat) : Frame.byte (f.drop n) j = f.byte (n + j) := by
  unfold byte
  simp only [List.getD_eq_getElem?_getD, List.getElem?_drop]

theorem byte_take_append {f : Frame} {n j : Nat} (bs : List UInt8) (hj : j < n)
    (hn : n ≤ f.length) : Frame.byte (f.take n ++ bs) j = f.byte j := by
  unfold byte
  rw [List.getD_eq_getElem?_getD, List.getElem?_append_left (by rw [List.length_take]; omega),
    List.getElem?_take_of_lt hj, ← List.getD_eq_getElem?_getD]

/-- A write behind what is dropped. -/
theorem drop_patch {f : Frame} {n i : Nat} (bs : List UInt8) (h : n + i ≤ f.length) :
    (f.patch (n + i) bs).drop n = Frame.patch (f.drop n) i bs := by
  unfold patch
  rw [List.append_assoc, List.drop_append_of_le_length (by rw [List.length_take]; omega),
    List.drop_take, List.drop_drop, List.append_assoc, Nat.add_assoc, Nat.add_sub_cancel_left]

theorem slice_drop (f : Frame) (n i k : Nat) : f.slice (n + i) k = Frame.slice (f.drop n) i k := by
  unfold slice
  rw [List.drop_drop]

end Frame

/-! ## Received and sent -/

/-- A field of two bytes, in network order. -/
def field (f : Frame) (i : Nat) : Nat := 256 * (f.byte i).toNat + (f.byte (i + 1)).toNat

/-- `g` is a correct packet, sent back to where `f` came from. -/
structure WellFormed (f g : Frame) : Prop where
  checksum : foldCarries (sumWords .big g IP (2 * ihl g)) = 65535
  total : field g (IP + 2) = 4 * ihl g + field g (udpAt g + 4)
  /-- Eight bytes and the payload. -/
  udp : 8 ≤ field g (udpAt g + 4) ∧ g.length = udpAt g + field g (udpAt g + 4)
  frame : g.length = ETH_LEN + field g (IP + 2)
  macs : ∀ i < 6, g.byte i = f.byte (6 + i) ∧ g.byte (6 + i) = f.byte i
  addresses : ∀ i < 4, g.byte (IP + 12 + i) = f.byte (IP + 16 + i) ∧
    g.byte (IP + 16 + i) = f.byte (IP + 12 + i)
  ports : ∀ i < 2, g.byte (udpAt g + i) = f.byte (udpAt f + 2 + i) ∧
    g.byte (udpAt g + 2 + i) = f.byte (udpAt f + i)

/-- What both ways of sending do: Ethernet and IPv4 headers of their own, with the sum of 20 bytes
right, and behind them `tail`. -/
structure Transmitted (f g : Frame) (total : Nat) (tail : List UInt8) : Prop where
  version : g.byte IP = f.byte IP
  sum : sumWords .big g IP 10 % 65535 = 0
  total : field g (IP + 2) = total
  macs : ∀ i < 6, g.byte i = f.byte (6 + i) ∧ g.byte (6 + i) = f.byte i
  addresses : ∀ i < 4, g.byte (IP + 12 + i) = f.byte (IP + 16 + i) ∧
    g.byte (IP + 16 + i) = f.byte (IP + 12 + i)
  length : UDP ≤ g.length
  tail : g.drop UDP = tail

/-- The bytes of the header that the program takes for the start of the UDP header. -/
def optionsLength (f : Frame) : Nat := 4 * (ihl f - 5)

/-- What is sent behind the first 20 bytes of the header fits the header that came in: the rest of
that header adds nothing to the sum, and the UDP header follows it. -/
structure Fits (f : Frame) (sent : Nat) (tail : List UInt8) : Prop where
  sum : sumWords .big tail 0 (optionsLength f / 2) % 65535 = 0
  total : sent = 20 + optionsLength f + field tail (optionsLength f + 4)
  udp : 8 ≤ field tail (optionsLength f + 4) ∧
    tail.length = optionsLength f + field tail (optionsLength f + 4)
  frame : tail.length + 20 = sent
  ports : ∀ i < 2,
    Frame.byte tail (optionsLength f + i) = f.byte (udpAt f + 2 + i) ∧
    Frame.byte tail (optionsLength f + 2 + i) = f.byte (udpAt f + i)

theorem field_drop (f : Frame) (n i : Nat) : field (f.drop n) i = field f (n + i) := by
  unfold field
  rw [Frame.byte_drop, Frame.byte_drop]
  rfl

section
variable {f g : Frame} {sent : Nat} {tail : List UInt8}

theorem ihl_options (hihl : 5 ≤ ihl f) : 4 * ihl f = 20 + optionsLength f := by
  unfold optionsLength
  omega

theorem Transmitted.ihl_eq (h : Transmitted f g sent tail) : ihl g = ihl f := by
  unfold ihl
  rw [h.version]

theorem Transmitted.byte (h : Transmitted f g sent tail) (j : Nat) :
    g.byte (UDP + j) = Frame.byte tail j := by
  rw [← h.tail, Frame.byte_drop]

/-- A header is not all zeros. -/
theorem sumWords_pos (hihl : 5 ≤ ihl g) : 0 < sumWords .big g IP (2 * ihl g) := by
  have hsplit : 2 * ihl g = 1 + (2 * ihl g - 1) := by omega
  have hversion : 5 ≤ (g.byte (IP + 2 * 0)).toNat % 16 := by
    show 5 ≤ ihl g
    omega
  have hfirst : sumWords .big g IP 1 =
      0 + (256 * (g.byte (IP + 2 * 0)).toNat + (g.byte (IP + 2 * 0 + 1)).toNat) := rfl
  rw [hsplit, sumWords_add, hfirst]
  omega

/-- The program sums the first ten words: the others must not count. -/
theorem Transmitted.checksum_iff (h : Transmitted f g sent tail) (hihl : 5 ≤ ihl f) :
    foldCarries (sumWords .big g IP (2 * ihl g)) = 65535 ↔
      sumWords .big tail 0 (optionsLength f / 2) % 65535 = 0 := by
  have hsame := h.ihl_eq
  have hoptions := ihl_options hihl
  have hsum : sumWords .big g IP (2 * ihl g) =
      sumWords .big g IP 10 + sumWords .big tail 0 (optionsLength f / 2) := by
    have hsplit : 2 * ihl g = 10 + optionsLength f / 2 := by omega
    rw [hsplit, sumWords_add]
    congr 1
    exact sumWords_congr .big fun j _ => by rw [Nat.zero_add]; exact h.byte j
  have hten := h.sum
  rw [foldCarries_ones (sumWords_pos (by omega)), hsum]
  omega

/-- **A transmitted frame is well formed if its rest fits.** -/
theorem Transmitted.wellFormed_iff (h : Transmitted f g sent tail) (hihl : 5 ≤ ihl f) :
    WellFormed f g ↔ Fits f sent tail := by
  have hsame := h.ihl_eq
  have hoptions := ihl_options hihl
  have hat : udpAt g = UDP + optionsLength f := by
    show 14 + 4 * ihl g = 34 + optionsLength f
    omega
  have hfield : field g (udpAt g + 4) = field tail (optionsLength f + 4) := by
    rw [← h.tail, field_drop, hat]
    rfl
  have hports (j : Nat) : g.byte (udpAt g + j) = Frame.byte tail (optionsLength f + j) := by
    rw [hat, Nat.add_assoc, h.byte]
  have hports' (j : Nat) :
      g.byte (udpAt g + 2 + j) = Frame.byte tail (optionsLength f + 2 + j) := by
    rw [Nat.add_assoc, hports, ← Nat.add_assoc]
  have hlength : g.length = 34 + tail.length := by
    have hle : 34 ≤ g.length := h.length
    rw [← h.tail, List.length_drop]
    show g.length = 34 + (g.length - 34)
    omega
  have htotal : field g (IP + 2) = 4 * ihl g + field g (udpAt g + 4) ↔
      sent = 20 + optionsLength f + field tail (optionsLength f + 4) := by
    rw [h.total, hsame, hoptions, hfield]
  have hudp : (8 ≤ field g (udpAt g + 4) ∧ g.length = udpAt g + field g (udpAt g + 4)) ↔
      8 ≤ field tail (optionsLength f + 4) ∧
        tail.length = optionsLength f + field tail (optionsLength f + 4) := by
    have hat' : udpAt g = 34 + optionsLength f := hat
    rw [hfield, hlength, hat']
    omega
  have hframe : g.length = ETH_LEN + field g (IP + 2) ↔ tail.length + 20 = sent := by
    have heth : ETH_LEN = 14 := rfl
    rw [h.total, hlength, heth]
    omega
  constructor
  · intro hwell
    refine ⟨(h.checksum_iff hihl).mp hwell.checksum, htotal.mp hwell.total, hudp.mp hwell.udp,
      hframe.mp hwell.frame, fun i hi => ?_⟩
    obtain ⟨hsource, hdest⟩ := hwell.ports i hi
    rw [hports] at hsource
    rw [hports'] at hdest
    exact ⟨hsource, hdest⟩
  · intro hfits
    refine ⟨(h.checksum_iff hihl).mpr hfits.sum, htotal.mpr hfits.total, hudp.mpr hfits.udp,
      hframe.mpr hfits.frame, h.macs, h.addresses, fun i hi => ?_⟩
    obtain ⟨hsource, hdest⟩ := hfits.ports i hi
    rw [hports, hports']
    exact ⟨hsource, hdest⟩

end

/-! ## The headers that are sent -/

section
variable {f : Frame}

/-- The three swaps. -/
def swapped (f : Frame) : Frame := swapUdp (swapIpv4 (swapEthernet f))

/-- `swapUdp` on what follows the first 20 bytes of the header. -/
def swapPorts (u : List UInt8) : List UInt8 :=
  ((Frame.patch u 0 (Frame.slice u 2 2)).patch 2 (Frame.slice u 0 2)).patch 6 [0, 0]

theorem swapEthernet_length (h : PAYLOAD ≤ f.length) : (swapEthernet f).length = f.length :=
  (swapEthernet_samePayload h).1

theorem swapIpv4_length (h : PAYLOAD ≤ f.length) : (swapIpv4 f).length = f.length :=
  (swapIpv4_samePayload h).1

theorem swapUdp_length (h : PAYLOAD ≤ f.length) : (swapUdp f).length = f.length :=
  (swapUdp_samePayload h).1

theorem swapped_length (h : PAYLOAD ≤ f.length) : (swapped f).length = f.length := by
  have heth := swapEthernet_length h
  have hip : (swapIpv4 (swapEthernet f)).length = f.length :=
    (swapIpv4_length (by rw [heth]; exact h)).trans heth
  exact (swapUdp_length (by rw [hip]; exact h)).trans hip

theorem swapEthernet_byte (h : PAYLOAD ≤ f.length) (j : Nat) :
    (swapEthernet f).byte j =
      if j < 6 then f.byte (6 + j) else if j < 12 then f.byte (j - 6) else f.byte j := by
  have hlong : 42 ≤ f.length := h
  have hsource := @Frame.patch_slice_length f f 6 0 6 (by omega) (by omega)
  unfold swapEthernet
  rw [Frame.byte_patch_slice (by omega) (by omega), Frame.byte_patch_slice (by omega) (by omega)]
  split
  · rw [if_pos (by omega), Nat.sub_zero]
  · split
    · rw [if_neg (by omega), if_pos (by omega), Nat.zero_add]
    · rw [if_neg (by omega), if_neg (by omega)]

theorem swapIpv4_patches (f : Frame) : swapIpv4 f =
    ((f.patch 26 (f.slice 30 4)).patch 30 (f.slice 26 4)).patch 24 [0, 0] := rfl

theorem swapIpv4_byte (h : PAYLOAD ≤ f.length) (j : Nat) :
    (swapIpv4 f).byte j =
      if j = 24 ∨ j = 25 then 0
      else if 26 ≤ j ∧ j < 30 then f.byte (j + 4)
      else if 30 ≤ j ∧ j < 34 then f.byte (j - 4)
      else f.byte j := by
  have hlong : 42 ≤ f.length := h
  have hsource := @Frame.patch_slice_length f f 26 30 4 (by omega) (by omega)
  have hdest := @Frame.patch_slice_length (f.patch 26 (f.slice 30 4)) f 30 26 4 (by omega)
    (by omega)
  rw [swapIpv4_patches, Frame.byte_patch (by show 26 ≤ _; omega),
    Frame.byte_patch_slice (by omega) (by omega), Frame.byte_patch_slice (by omega) (by omega)]
  simp only [List.length_cons, List.length_nil, Nat.zero_add, Nat.reduceAdd]
  by_cases hcheck : j = 24 ∨ j = 25
  · rw [if_pos (by omega), if_pos hcheck]
    rcases hcheck with rfl | rfl
    · rfl
    · rfl
  · rw [if_neg (by omega), if_neg hcheck]
    by_cases hdst : 30 ≤ j ∧ j < 34
    · rw [if_pos hdst, if_neg (by omega), if_pos hdst]
      congr 1
      omega
    · rw [if_neg hdst, if_neg hdst]
      by_cases hsrc : 26 ≤ j ∧ j < 30
      · rw [if_pos hsrc, if_pos hsrc]
        congr 1
        omega
      · rw [if_neg hsrc, if_neg hsrc]

/-- `swapUdp` stays behind the first 20 bytes of the IPv4 header, and is `swapPorts` there. -/
theorem swapUdp_byte (h : PAYLOAD ≤ f.length) {j : Nat} (hj : j < 34) :
    (swapUdp f).byte j = f.byte j := by
  have hlong : 42 ≤ f.length := h
  have hoffsets : swapUdp f =
      ((f.patch 34 (f.slice 36 2)).patch 36 (f.slice 34 2)).patch 40 [0, 0] := rfl
  have hsource := @Frame.patch_slice_length f f 34 36 2 (by omega) (by omega)
  have hdest := @Frame.patch_slice_length (f.patch 34 (f.slice 36 2)) f 36 34 2 (by omega)
    (by omega)
  rw [hoffsets, Frame.byte_patch (by show 42 ≤ _; omega), if_neg (by omega),
    Frame.byte_patch_slice (by omega) (by omega), if_neg (by omega),
    Frame.byte_patch_slice (by omega) (by omega), if_neg (by omega)]

theorem swapUdp_drop (h : PAYLOAD ≤ f.length) : (swapUdp f).drop 34 = swapPorts (f.drop 34) := by
  have hlong : 42 ≤ f.length := h
  have hoffsets : swapUdp f = ((f.patch (34 + 0) (f.slice (34 + 2) 2)).patch (34 + 2)
      (f.slice (34 + 0) 2)).patch (34 + 6) [0, 0] := rfl
  have hsource := @Frame.patch_slice_length f f (34 + 0) (34 + 2) 2 (by omega) (by omega)
  have hdest := @Frame.patch_slice_length (f.patch (34 + 0) (f.slice (34 + 2) 2)) f (34 + 2)
    (34 + 0) 2 (by omega) (by omega)
  rw [hoffsets, Frame.drop_patch _ (by omega), Frame.drop_patch _ (by omega),
    Frame.drop_patch _ (by omega), Frame.slice_drop, Frame.slice_drop]
  rfl

/-- The headers after the swaps. -/
theorem swapped_byte (h : PAYLOAD ≤ f.length) {j : Nat} (hj : j < 34) :
    (swapped f).byte j =
      if j < 6 then f.byte (6 + j)
      else if j < 12 then f.byte (j - 6)
      else if j = 24 ∨ j = 25 then 0
      else if 26 ≤ j ∧ j < 30 then f.byte (j + 4)
      else if 30 ≤ j ∧ j < 34 then f.byte (j - 4)
      else f.byte j := by
  have heth : PAYLOAD ≤ (swapEthernet f).length := by rw [swapEthernet_length h]; exact h
  have hip : PAYLOAD ≤ (swapIpv4 (swapEthernet f)).length := by
    rw [swapIpv4_length heth]
    exact heth
  unfold swapped
  rw [swapUdp_byte hip hj, swapIpv4_byte heth]
  simp only [swapEthernet_byte h]
  split_ifs <;> first | rfl | omega

/-- A copied field within the first 34 bytes. -/
theorem patch_slice_drop {g : Frame} {i k n : Nat} (hi : i + n ≤ 34) (h : 34 ≤ g.length)
    (hg : k + n ≤ f.length) : (g.patch i (f.slice k n)).drop 34 = g.drop 34 :=
  Frame.patch_drop (by rw [Frame.slice_length hg]; exact hi) h

theorem swapEthernet_drop (h : PAYLOAD ≤ f.length) : (swapEthernet f).drop 34 = f.drop 34 := by
  have hlong : 42 ≤ f.length := h
  have hsource := @Frame.patch_slice_length f f 6 0 6 (by omega) (by omega)
  unfold swapEthernet
  rw [patch_slice_drop (by omega) (by omega) (by omega),
    patch_slice_drop (by omega) (by omega) (by omega)]

theorem swapIpv4_drop (h : PAYLOAD ≤ f.length) : (swapIpv4 f).drop 34 = f.drop 34 := by
  have hlong : 42 ≤ f.length := h
  have hsource := @Frame.patch_slice_length f f 26 30 4 (by omega) (by omega)
  have hdest := @Frame.patch_slice_length (f.patch 26 (f.slice 30 4)) f 30 26 4 (by omega)
    (by omega)
  rw [swapIpv4_patches, Frame.patch_drop (by decide) (by omega),
    patch_slice_drop (by omega) (by omega) (by omega),
    patch_slice_drop (by omega) (by omega) (by omega)]

theorem swapped_drop (h : PAYLOAD ≤ f.length) : (swapped f).drop 34 = swapPorts (f.drop 34) := by
  have heth : PAYLOAD ≤ (swapEthernet f).length := by rw [swapEthernet_length h]; exact h
  have hip : PAYLOAD ≤ (swapIpv4 (swapEthernet f)).length := by
    rw [swapIpv4_length heth]
    exact heth
  unfold swapped
  rw [swapUdp_drop hip, swapIpv4_drop heth, swapEthernet_drop h]

end

/-! ## The checksum -/

section
variable {f : Frame} (e : Endian)

theorem setIpCsum_byte (h : 26 ≤ f.length) (j : Nat) :
    (setIpCsum e f).byte j =
      if 24 ≤ j ∧ j < 26 then (e.bytes16 (calcIpCsum e f)).getD (j - 24) 0 else f.byte j := by
  have hoffset : setIpCsum e f = f.patch 24 (e.bytes16 (calcIpCsum e f)) := rfl
  rw [hoffset, Frame.byte_patch (by rw [Endian.bytes16_length]; exact h), Endian.bytes16_length]

theorem setIpCsum_drop (h : 34 ≤ f.length) : (setIpCsum e f).drop 34 = f.drop 34 :=
  Frame.patch_drop (by rw [Endian.bytes16_length]; decide) h

theorem setIpCsum_length (h : 34 ≤ f.length) : (setIpCsum e f).length = f.length :=
  Frame.patch_length (by rw [Endian.bytes16_length]; show 26 ≤ _; omega)

/-- The ten words of the header with the checksum of the source sum up. -/
theorem setIpCsum_sum (h : 34 ≤ f.length) (hhigh : f.byte 24 = 0) (hlow : f.byte 25 = 0) :
    sumWords .big (setIpCsum e f) IP 10 % 65535 = 0 := by
  rw [← sumWords_native e]
  have hsplit (g : Frame) : sumWords e g IP 10 =
      sumWords e g IP 5 + (0 + e.word16 (g.byte 24) (g.byte 25)) + sumWords e g 26 4 := by
    have hten : 10 = 5 + (1 + 4) := rfl
    rw [hten, sumWords_add, sumWords_add, ← Nat.add_assoc]
    rfl
  have hkeeps (j : Nat) (hj : j < 24 ∨ 26 ≤ j) : (setIpCsum e f).byte j = f.byte j := by
    rw [setIpCsum_byte e (by omega), if_neg (by omega)]
  have hbefore : sumWords e (setIpCsum e f) IP 5 = sumWords e f IP 5 :=
    sumWords_congr e fun j hj => hkeeps (IP + j) (Or.inl (by show 14 + j < 24; omega))
  have hafter : sumWords e (setIpCsum e f) 26 4 = sumWords e f 26 4 :=
    sumWords_congr e fun j _ => hkeeps (26 + j) (Or.inr (by omega))
  have hcsum : calcIpCsum e f = 65535 - foldCarries (sumWords e f IP 10) := rfl
  have hfolded := foldCarries_lt (sumWords e f IP 10)
  have hmod := foldCarries_mod (sumWords e f IP 10)
  have hzero : e.word16 (f.byte 24) (f.byte 25) = 0 := by
    rw [hhigh, hlow]
    cases e <;> rfl
  have hword : e.word16 ((setIpCsum e f).byte 24) ((setIpCsum e f).byte 25) = calcIpCsum e f := by
    rw [setIpCsum_byte e (by omega), setIpCsum_byte e (by omega)]
    exact word16_bytes16 e (by omega)
  have hold := hsplit f
  rw [hzero] at hold
  rw [hsplit, hbefore, hafter, hword]
  omega

end

/-! ## The two ways of sending -/

section
variable {e : Endian} {f : Frame}

/-- What both ways write into the first 34 bytes: the swaps, a total length and the checksum. -/
theorem Transmitted.of_swapped (e : Endian) {a b : Frame} (ha : PAYLOAD ≤ a.length)
    (hsame : ∀ j < 34, a.byte j = f.byte j)
    (hb : ∀ j < 34, j < 16 ∨ 18 ≤ j → b.byte j = (swapped a).byte j) (hblength : 34 ≤ b.length) :
    Transmitted f (setIpCsum e b) (field b 16) (b.drop 34) := by
  have hkeeps : ∀ j, j < 24 ∨ 26 ≤ j → (setIpCsum e b).byte j = b.byte j := by
    intro j hj
    rw [setIpCsum_byte e (by omega), if_neg (by omega)]
  have hbyte : ∀ j < 34, j < 16 ∨ 18 ≤ j → j < 24 ∨ 26 ≤ j →
      (setIpCsum e b).byte j = (swapped a).byte j :=
    fun j hj hlength hcheck => (hkeeps j hcheck).trans (hb j hj hlength)
  have hcheck : b.byte 24 = 0 ∧ b.byte 25 = 0 := by
    rw [hb 24 (by omega) (by omega), hb 25 (by omega) (by omega), swapped_byte ha (by omega),
      swapped_byte ha (by omega)]
    exact ⟨rfl, rfl⟩
  have hlength : UDP ≤ (setIpCsum e b).length := by
    rw [setIpCsum_length e hblength]
    exact hblength
  refine ⟨?_, setIpCsum_sum e hblength hcheck.1 hcheck.2, ?_, fun i hi => ?_, fun i hi => ?_,
    hlength, setIpCsum_drop e hblength⟩
  · have hversion : (setIpCsum e b).byte 14 = f.byte 14 := by
      rw [hbyte 14 (by omega) (by omega) (by omega), swapped_byte ha (by omega)]
      exact hsame 14 (by omega)
    exact hversion
  · show 256 * ((setIpCsum e b).byte 16).toNat + ((setIpCsum e b).byte 17).toNat = field b 16
    rw [hkeeps 16 (by omega), hkeeps 17 (by omega)]
    rfl
  · rw [hbyte i (by omega) (by omega) (by omega), hbyte (6 + i) (by omega) (by omega) (by omega),
      swapped_byte ha (by omega), swapped_byte ha (by omega), if_pos hi, if_neg (by omega),
      if_pos (by omega), hsame _ (by omega), hsame _ (by omega), Nat.add_sub_cancel_left]
    exact ⟨rfl, rfl⟩
  · show (setIpCsum e b).byte (26 + i) = f.byte (30 + i) ∧
      (setIpCsum e b).byte (30 + i) = f.byte (26 + i)
    rw [hbyte (26 + i) (by omega) (by omega) (by omega),
      hbyte (30 + i) (by omega) (by omega) (by omega), swapped_byte ha (by omega),
      swapped_byte ha (by omega), if_neg (by omega), if_neg (by omega), if_neg (by omega),
      if_pos (by omega), if_neg (by omega), if_neg (by omega), if_neg (by omega),
      if_neg (by omega), if_pos (by omega), hsame _ (by omega), hsame _ (by omega)]
    exact ⟨by congr 1; omega, by congr 1; omega⟩

/-- A write behind the first 34 bytes. -/
theorem Transmitted.patch {g : Frame} {sent : Nat} {tail : List UInt8}
    (h : Transmitted f g sent tail) {i : Nat} {bs : List UInt8}
    (hroom : 34 + i + bs.length ≤ g.length) :
    Transmitted f (g.patch (34 + i) bs) sent (Frame.patch tail i bs) := by
  have hkeeps : ∀ j < 34, (g.patch (34 + i) bs).byte j = g.byte j := by
    intro j hj
    rw [Frame.byte_patch hroom, if_neg (by omega)]
  have hlength := Frame.patch_length hroom
  refine ⟨(hkeeps 14 (by omega)).trans h.version, ?_, ?_, fun i hi => ?_, fun i hi => ?_, ?_, ?_⟩
  · rw [← h.sum]
    congr 1
    exact sumWords_congr .big fun j hj => hkeeps (IP + j) (by show 14 + j < 34; omega)
  · rw [← h.total]
    show 256 * (_ : UInt8).toNat + (_ : UInt8).toNat = _
    rw [hkeeps _ (by decide), hkeeps _ (by decide)]
    rfl
  · rw [hkeeps i (by omega), hkeeps (6 + i) (by omega)]
    exact h.macs i hi
  · rw [hkeeps (IP + 12 + i) (by show 26 + i < 34; omega),
      hkeeps (IP + 16 + i) (by show 30 + i < 34; omega)]
    exact h.addresses i hi
  · rw [hlength]
    exact h.length
  · show (g.patch (34 + i) bs).drop 34 = _
    rw [Frame.drop_patch _ (by omega)]
    congr 1
    exact h.tail

/-- What the reflector sends for the bytes behind the first 20 of the header. -/
def refusedTail (u : List UInt8) : List UInt8 := Frame.patch (swapPorts u) 10 (htons 0x8105)

theorem reflectRefused_transmitted (e : Endian) (h : PAYLOAD + 12 ≤ f.length) :
    Transmitted f (reflectRefused e f) (field f 16) (refusedTail (f.drop 34)) := by
  have hlong : 54 ≤ f.length := h
  have hf : PAYLOAD ≤ f.length := by show 42 ≤ _; omega
  have hswapped := swapped_length hf
  have hcsum := setIpCsum_length e (show 34 ≤ (swapped f).length by omega)
  have htotal : field (swapped f) 16 = field f 16 := by
    unfold field
    rw [swapped_byte hf (by omega), swapped_byte hf (by omega)]
    rfl
  have hbase : Transmitted f (setIpCsum e (swapped f)) (field (swapped f) 16)
      ((swapped f).drop 34) :=
    .of_swapped e hf (fun _ _ => rfl) (fun _ _ _ => rfl) (by omega)
  rw [htotal, swapped_drop hf] at hbase
  have hroom : 34 + 10 + (htons 0x8105).length ≤ (setIpCsum e (swapped f)).length := by
    rw [htons_length]
    omega
  have hsent : reflectRefused e f =
      (setIpCsum e (swapped f)).patch (34 + 10) (htons 0x8105) := rfl
  have hpatched := hbase.patch hroom
  rw [hsent]
  unfold refusedTail
  exact hpatched

theorem field_patch {g : Frame} {i w : Nat} (h : i + 2 ≤ g.length) (hw : w < 65536) :
    field (g.patch i (htons w)) i = w := by
  have hroom : i + (htons w).length ≤ g.length := h
  unfold field
  rw [Frame.byte_patch hroom, Frame.byte_patch hroom, htons_length, if_pos (by omega),
    if_pos (by omega), Nat.sub_self, Nat.add_sub_cancel_left]
  exact word16_bytes16 .big hw

/-- The frame that the cache layer has copied its response into. -/
def copied (f : Frame) (resp : List UInt8) (len : Nat) : Frame := f.take 42 ++ resp.take len

/-- And the headers but for the checksum. -/
def beforeCsum (a : Frame) (total : Nat) : Frame :=
  ((swapped a).patch 16 (htons total)).patch 24 [0, 0]

theorem copyResponse_copied {resp : List UInt8} {len : Nat} (h : PAYLOAD + 2 ≤ f.length)
    (hlen : len ≤ MAX_DNS_RESPONSE_LEN) (hresp : len ≤ resp.length) :
    copyResponse (adjustTail f (PAYLOAD + len)) resp len = copied f resp len := by
  have hlong : 44 ≤ f.length := h
  rw [copyResponse_eq (adjustTail_length _ _) hlen hresp]
  unfold copied
  congr 1
  show (f.take (42 + len) ++ List.replicate (42 + len - f.length) 0).take 42 = f.take 42
  rw [List.take_append_of_le_length (by rw [List.length_take]; omega), List.take_take]
  congr 1
  omega

section
variable {resp : List UInt8} {len : Nat} (h : 42 ≤ f.length) (hresp : len ≤ resp.length)
include h

theorem copied_byte {j : Nat} (hj : j < 34) : (copied f resp len).byte j = f.byte j := by
  unfold copied
  exact Frame.byte_take_append _ (by omega) h

theorem copied_drop :
    (copied f resp len).drop 34 = (f.drop 34).take 8 ++ resp.take len := by
  unfold copied
  rw [List.drop_append_of_le_length (by rw [List.length_take]; omega), List.drop_take]

include hresp

theorem copied_length : (copied f resp len).length = 42 + len := by
  unfold copied
  rw [List.length_append, List.length_take, List.length_take]
  omega

end

section
variable {a : Frame} {total : Nat} (ha : PAYLOAD ≤ a.length)
include ha

theorem beforeCsum_rooms : 16 + (htons total).length ≤ (swapped a).length ∧
    24 + [(0 : UInt8), 0].length ≤ ((swapped a).patch 16 (htons total)).length := by
  have hlong : 42 ≤ a.length := ha
  have hswapped := swapped_length ha
  have hfirst : 16 + (htons total).length ≤ (swapped a).length := by
    rw [htons_length]
    omega
  refine ⟨hfirst, ?_⟩
  rw [Frame.patch_length hfirst]
  show 26 ≤ _
  omega

theorem beforeCsum_length : (beforeCsum a total).length = a.length := by
  obtain ⟨hfirst, hsecond⟩ := @beforeCsum_rooms a total ha
  unfold beforeCsum
  rw [Frame.patch_length hsecond, Frame.patch_length hfirst, swapped_length ha]

theorem beforeCsum_drop : (beforeCsum a total).drop 34 = swapPorts (a.drop 34) := by
  have hlong : 42 ≤ a.length := ha
  have hswapped := swapped_length ha
  obtain ⟨hfirst, -⟩ := @beforeCsum_rooms a total ha
  have hlength := Frame.patch_length hfirst
  unfold beforeCsum
  rw [Frame.patch_drop (by decide) (by omega),
    Frame.patch_drop (by rw [htons_length]; decide) (by omega), swapped_drop ha]

theorem beforeCsum_byte {j : Nat} (hj : j < 34) (hlength : j < 16 ∨ 18 ≤ j) :
    (beforeCsum a total).byte j = (swapped a).byte j := by
  obtain ⟨hfirst, hsecond⟩ := @beforeCsum_rooms a total ha
  unfold beforeCsum
  rw [Frame.byte_patch hsecond]
  split
  · rename_i hcheck
    have hcases : j = 24 ∨ j = 25 := by
      have hlt : j < 26 := hcheck.2
      omega
    rw [swapped_byte ha hj, if_neg (by omega), if_neg (by omega), if_pos hcases]
    rcases hcases with rfl | rfl
    · rfl
    · rfl
  · rw [Frame.byte_patch hfirst, htons_length, if_neg (by omega)]

theorem beforeCsum_total (htotal : total < 65536) : field (beforeCsum a total) 16 = total := by
  obtain ⟨hfirst, hsecond⟩ := @beforeCsum_rooms a total ha
  have hsame : field (beforeCsum a total) 16 = field ((swapped a).patch 16 (htons total)) 16 := by
    unfold field beforeCsum
    rw [Frame.byte_patch hsecond, Frame.byte_patch hsecond, if_neg (by omega), if_neg (by omega)]
  rw [hsame]
  exact field_patch hfirst htotal

end

/-- What a cached response is sent as: its first `len` bytes under the ID of the query. -/
def cachedTail (u resp : List UInt8) (len : Nat) : List UInt8 :=
  let t := Frame.patch (swapPorts (u.take 8 ++ resp.take len)) 4 (htons (8 + len))
  if 2 ≤ len then t.patch 8 (Frame.slice u 8 2) else t

theorem reply_transmitted (e : Endian) {resp : List UInt8} {len : Nat}
    (h : PAYLOAD + 2 ≤ f.length) (hlen : len ≤ MAX_DNS_RESPONSE_LEN) (hresp : len ≤ resp.length) :
    Transmitted f (reply e (adjustTail f (PAYLOAD + len)) (f.slice PAYLOAD 2) resp len) (28 + len)
      (cachedTail (f.drop 34) resp len) := by
  have hlong : 44 ≤ f.length := h
  have hmax : len ≤ 768 := hlen
  have hcopied := copied_length (show 42 ≤ f.length by omega) hresp
  have hpayload : PAYLOAD ≤ (copied f resp len).length := by
    rw [hcopied]
    exact Nat.le_add_right _ _
  have hblength := @beforeCsum_length (copied f resp len) (28 + len) hpayload
  have hbase := Transmitted.of_swapped e hpayload
    (fun j hj => copied_byte (show 42 ≤ f.length by omega) hj)
    (fun j hj hlength => @beforeCsum_byte _ (28 + len) hpayload j hj hlength) (by omega)
  rw [beforeCsum_total hpayload (by omega), beforeCsum_drop hpayload,
    copied_drop (show 42 ≤ f.length by omega)] at hbase
  have hclength := setIpCsum_length e
    (show 34 ≤ (beforeCsum (copied f resp len) (28 + len)).length by omega)
  have hudp : 34 + 4 + (htons (8 + len)).length ≤
      (setIpCsum e (beforeCsum (copied f resp len) (28 + len))).length := by
    rw [htons_length]
    omega
  have hulength := Frame.patch_length hudp
  have hsent : reply e (adjustTail f (PAYLOAD + len)) (f.slice PAYLOAD 2) resp len =
      let g := (setIpCsum e (beforeCsum (copied f resp len) (28 + len))).patch (34 + 4)
        (htons (8 + len))
      if 44 ≤ g.length then g.patch (34 + 8) (f.slice PAYLOAD 2) else g := by
    rw [← copyResponse_copied h hlen hresp]
    rfl
  have hudpSent := hbase.patch hudp
  rw [hsent]
  unfold cachedTail
  simp only
  by_cases htwo : 2 ≤ len
  · rw [if_pos (by omega), if_pos htwo, ← Frame.slice_drop]
    refine hudpSent.patch ?_
    rw [Frame.slice_length (by show 44 ≤ _; omega)]
    omega
  · rw [if_neg (by omega), if_neg htwo]
    exact hudpSent

/-! ## A header of 20 bytes -/

theorem swapPorts_rooms {u : List UInt8} (h : 8 ≤ u.length) :
    (Frame.patch u 0 (Frame.slice u 2 2)).length = u.length ∧
      ((Frame.patch u 0 (Frame.slice u 2 2)).patch 2 (Frame.slice u 0 2)).length = u.length := by
  have hsource := @Frame.patch_slice_length u u 0 2 2 (by omega) (by omega)
  have hdest := @Frame.patch_slice_length (Frame.patch u 0 (Frame.slice u 2 2)) u 2 0 2 (by omega)
    (by omega)
  exact ⟨hsource, hdest.trans hsource⟩

theorem swapPorts_length {u : List UInt8} (h : 8 ≤ u.length) :
    (swapPorts u).length = u.length := by
  obtain ⟨-, hdest⟩ := swapPorts_rooms h
  unfold swapPorts
  rw [Frame.patch_length (by rw [hdest]; exact h), hdest]

theorem swapPorts_byte {u : List UInt8} (h : 8 ≤ u.length) (j : Nat) :
    Frame.byte (swapPorts u) j =
      if j < 2 then Frame.byte u (2 + j)
      else if j < 4 then Frame.byte u (j - 2)
      else if j = 6 ∨ j = 7 then 0
      else Frame.byte u j := by
  obtain ⟨hsource, hdest⟩ := swapPorts_rooms h
  unfold swapPorts
  rw [Frame.byte_patch (by rw [hdest]; exact h),
    Frame.byte_patch_slice (by omega) (by omega), Frame.byte_patch_slice (by omega) (by omega)]
  simp only [List.length_cons, List.length_nil, Nat.zero_add, Nat.reduceAdd, Nat.sub_zero]
  by_cases hcheck : j = 6 ∨ j = 7
  · rw [if_pos (by omega), if_neg (by omega), if_neg (by omega), if_pos hcheck]
    rcases hcheck with rfl | rfl
    · rfl
    · rfl
  · rw [if_neg (by omega), if_neg hcheck]
    by_cases hfirst : j < 2
    · rw [if_neg (by omega), if_pos (by omega), if_pos hfirst]
    · by_cases hsecond : j < 4
      · rw [if_pos (by omega), if_neg hfirst, if_pos hsecond]
      · rw [if_neg (by omega), if_neg (by omega), if_neg hfirst, if_neg hsecond]

/-- The lengths that a frame came with match: its total length is that of a header of 20 bytes and
its UDP length, and the frame ends there. -/
def LengthsMatch (f : Frame) : Prop :=
  field f (IP + 2) = 20 + field f (UDP + 4) ∧ f.length = UDP + field f (UDP + 4)

/-- Without options there is little to fit. -/
theorem fits_five_iff (hihl : ihl f = 5) {sent : Nat} {tail : List UInt8}
    (hports : ∀ i < 2, Frame.byte tail i = f.byte (UDP + 2 + i) ∧
      Frame.byte tail (2 + i) = f.byte (UDP + i)) :
    Fits f sent tail ↔
      sent = 20 + field tail 4 ∧ 8 ≤ field tail 4 ∧ tail.length = field tail 4 := by
  have hoptions : optionsLength f = 0 := by
    unfold optionsLength
    rw [hihl]
  have hat : udpAt f = UDP := by
    unfold udpAt
    rw [hihl]
    rfl
  constructor
  · intro hfits
    have htotal := hfits.total
    have hudp := hfits.udp
    rw [hoptions] at htotal hudp
    simp only [Nat.zero_add, Nat.add_zero] at htotal hudp
    exact ⟨htotal, hudp⟩
  · rintro ⟨htotal, hlong, hlength⟩
    constructor
    · rw [hoptions]
      rfl
    · rw [hoptions]
      simpa using htotal
    · rw [hoptions]
      simpa using And.intro hlong hlength
    · omega
    · intro i hi
      rw [hoptions, hat, Nat.zero_add, Nat.zero_add]
      exact hports i hi

theorem fits_refused_iff (hihl : ihl f = 5) (h : PAYLOAD + 12 ≤ f.length) :
    Fits f (field f 16) (refusedTail (f.drop 34)) ↔ LengthsMatch f := by
  have hlong : 54 ≤ f.length := h
  have hdrop : (f.drop 34).length = f.length - 34 := List.length_drop
  have hswap := swapPorts_length (show 8 ≤ (f.drop 34).length by omega)
  have hroom : 10 + (htons 0x8105).length ≤ (swapPorts (f.drop 34)).length := by
    rw [htons_length]
    omega
  have hlength : (refusedTail (f.drop 34)).length = f.length - 34 := by
    unfold refusedTail
    rw [Frame.patch_length hroom, hswap, hdrop]
  have hbyte (j : Nat) (hj : j < 6) : Frame.byte (refusedTail (f.drop 34)) j =
      if j < 2 then f.byte (34 + (2 + j)) else if j < 4 then f.byte (34 + (j - 2))
      else f.byte (34 + j) := by
    unfold refusedTail
    rw [Frame.byte_patch hroom, if_neg (by omega), swapPorts_byte (by omega), Frame.byte_drop,
      Frame.byte_drop, Frame.byte_drop]
    split_ifs <;> first | rfl | omega
  have hfield : field (refusedTail (f.drop 34)) 4 = field f 38 := by
    unfold field
    rw [hbyte 4 (by omega), hbyte (4 + 1) (by omega)]
    rfl
  rw [fits_five_iff hihl fun i hi => ?_, hfield, hlength]
  · unfold LengthsMatch
    show _ ↔ field f 16 = 20 + field f 38 ∧ f.length = 34 + field f 38
    omega
  · rw [hbyte i (by omega), if_pos hi, hbyte (2 + i) (by omega), if_neg (by omega),
      if_pos (by omega), Nat.add_sub_cancel_left, ← Nat.add_assoc]
    exact ⟨rfl, rfl⟩

section
variable {u resp : List UInt8} {len : Nat} (hu : 10 ≤ u.length) (hresp : len ≤ resp.length)
include hu hresp

theorem cachedBody_length : (u.take 8 ++ resp.take len).length = 8 + len := by
  rw [List.length_append, List.length_take, List.length_take]
  omega

theorem cachedTail_room : 4 + (htons (8 + len)).length ≤
    (swapPorts (u.take 8 ++ resp.take len)).length := by
  have hbody := cachedBody_length hu hresp
  rw [htons_length, swapPorts_length (by omega)]
  omega

theorem cachedTail_length : (cachedTail u resp len).length = 8 + len := by
  have hbody := cachedBody_length hu hresp
  have hpatched := Frame.patch_length (cachedTail_room hu hresp)
  rw [swapPorts_length (by omega)] at hpatched
  have hid : (Frame.slice u 8 2).length = 2 := Frame.slice_length hu
  unfold cachedTail
  simp only
  split
  · rw [Frame.patch_length (by rw [hid]; omega)]
    omega
  · omega

/-- The ID is behind the UDP header. -/
theorem cachedTail_byte {j : Nat} (hj : j < 8) : Frame.byte (cachedTail u resp len) j =
    Frame.byte (Frame.patch (swapPorts (u.take 8 ++ resp.take len)) 4 (htons (8 + len))) j := by
  have hbody := cachedBody_length hu hresp
  have hpatched := Frame.patch_length (cachedTail_room hu hresp)
  rw [swapPorts_length (by omega)] at hpatched
  have hid : (Frame.slice u 8 2).length = 2 := Frame.slice_length hu
  unfold cachedTail
  simp only
  split
  · rw [Frame.byte_patch (by rw [hid]; omega), if_neg (by omega)]
  · rfl

theorem cachedTail_ports {i : Nat} (hi : i < 2) :
    Frame.byte (cachedTail u resp len) i = Frame.byte u (2 + i) ∧
      Frame.byte (cachedTail u resp len) (2 + i) = Frame.byte u i := by
  have hbody := cachedBody_length hu hresp
  have hroom := cachedTail_room hu hresp
  have hport (j : Nat) (hj : j < 4) :
      Frame.byte (u.take 8 ++ resp.take len) j = Frame.byte u j :=
    Frame.byte_take_append _ (by omega) (by omega)
  constructor
  · rw [cachedTail_byte hu hresp (by omega), Frame.byte_patch hroom, if_neg (by omega),
      swapPorts_byte (by omega), if_pos hi, hport _ (by omega)]
  · rw [cachedTail_byte hu hresp (by omega), Frame.byte_patch hroom, if_neg (by omega),
      swapPorts_byte (by omega), if_neg (by omega), if_pos (by omega), hport _ (by omega),
      Nat.add_sub_cancel_left]

theorem cachedTail_field (hlen : 8 + len < 65536) :
    field (cachedTail u resp len) 4 = 8 + len := by
  unfold field
  rw [cachedTail_byte hu hresp (by omega), cachedTail_byte hu hresp (by omega)]
  exact field_patch (cachedTail_room hu hresp) hlen

end

theorem fits_cached (hihl : ihl f = 5) (h : PAYLOAD + 2 ≤ f.length) {resp : List UInt8} {len : Nat}
    (hlen : len ≤ MAX_DNS_RESPONSE_LEN) (hresp : len ≤ resp.length) :
    Fits f (28 + len) (cachedTail (f.drop 34) resp len) := by
  have hlong : 44 ≤ f.length := h
  have hmax : len ≤ 768 := hlen
  have hu : 10 ≤ (f.drop 34).length := by
    rw [List.length_drop]
    omega
  rw [fits_five_iff hihl fun i hi => ?_, cachedTail_field hu hresp (by omega),
    cachedTail_length hu hresp]
  · omega
  · obtain ⟨hsource, hdest⟩ := cachedTail_ports hu hresp hi
    rw [hsource, hdest, Frame.byte_drop, Frame.byte_drop, ← Nat.add_assoc]
    exact ⟨rfl, rfl⟩

end

/-! ## Everything that is sent -/

section
variable (e : Endian) (m : KernelMaps) (f : Frame)

/-- The firewall refuses the sender. -/
def Blacklisted : Prop := m.blacklist (saddr e f) = some 2

/-- What is sent behind the first 20 bytes of the header, and the total length in these. -/
def sentTail : Option (Nat × List UInt8) :=
  if m.blacklist (saddr e f) = some 2 then some (field f 16, refusedTail (f.drop 34))
  else
    (xdpKey f).bind fun k => (m.dnsCache k).map fun entry =>
      (28 + entry.len.toNat, cachedTail (f.drop 34) entry.response entry.len.toNat)

end

section
variable {e : Endian} {env : XdpEnv} {m : KernelMaps} {f : Frame}

theorem firewall_tx {v : Verdict} (h : firewall e m.blacklist f = some v) (htx : v.action = .tx) :
    Blacklisted e m f ∧ PAYLOAD + 12 ≤ f.length ∧ v.frame = reflectRefused e f := by
  unfold firewall at h
  split at h
  · cases h
  · rename_i rule hrule
    split at h
    · cases h
      cases htx
    · split at h
      · rename_i htwo
        split at h
        · rename_i hroom
          cases h
          exact ⟨hrule.trans (congrArg some htwo), hroom.2.2, rfl⟩
        · cases h
          cases htx
      · cases h

theorem firewall_none (h : firewall e m.blacklist f = none) : ¬ Blacklisted e m f := by
  intro hrefused
  unfold firewall at h
  rw [hrefused] at h
  simp only at h
  rw [if_neg (by decide), if_pos trivial] at h
  split at h
  · cases h
  · cases h

/-- **Every way of sending.** -/
theorem titanDnsFilter_sent (h : (titanDnsFilter e env m f).2.action = .tx) :
    PAYLOAD + 12 ≤ f.length ∧
      ((Blacklisted e m f ∧ (titanDnsFilter e env m f).2.frame = reflectRefused e f) ∨
        ¬ Blacklisted e m f ∧ ∃ k entry, xdpKey f = some k ∧ m.dnsCache k = some entry ∧
          entry.Answers env ∧ (titanDnsFilter e env m f).2.frame =
            reply e (adjustTail f (PAYLOAD + entry.len.toNat)) (f.slice PAYLOAD 2) entry.response
              entry.len.toNat) := by
  rcases titanDnsFilter_cases e env m f with
    hpass | ⟨v, hsome, hfirewall⟩ | ⟨k, hnone, hkey, hserve⟩
  · rw [hpass] at h
    cases h
  · rw [hfirewall] at h ⊢
    obtain ⟨hrefused, hroom, hframe⟩ := firewall_tx hsome h
    exact ⟨hroom, Or.inl ⟨hrefused, hframe⟩⟩
  · rw [hserve] at h ⊢
    obtain ⟨entry, hentry, hanswers, hframe⟩ := serveFromCache_tx h
    exact ⟨xdpKey_length hkey,
      Or.inr ⟨firewall_none hnone, k, entry, hkey, hentry, hanswers, hframe⟩⟩

/-- **Every frame sent** has the headers of `Transmitted`. -/
theorem titanDnsFilter_transmitted (h : (titanDnsFilter e env m f).2.action = .tx) :
    ∃ sent tail, sentTail e m f = some (sent, tail) ∧
      Transmitted f (titanDnsFilter e env m f).2.frame sent tail ∧
      (ihl f = 5 → (Fits f sent tail ↔ (Blacklisted e m f → LengthsMatch f))) := by
  obtain ⟨hroom, ⟨hrefused, hframe⟩ | ⟨hrefused, k, entry, hkey, hentry, hanswers, hframe⟩⟩ :=
    titanDnsFilter_sent h
  · refine ⟨_, _, if_pos hrefused, ?_, fun hihl => ?_⟩
    · rw [hframe]
      exact reflectRefused_transmitted e hroom
    · rw [fits_refused_iff hihl hroom]
      exact ⟨fun hmatch _ => hmatch, fun hmatch => hmatch hrefused⟩
  · have hresp : entry.len.toNat ≤ entry.response.length := by
      rw [entry.response_length]
      exact hanswers.fits
    have hid : PAYLOAD + 2 ≤ f.length := by
      have hlong : 54 ≤ f.length := hroom
      show 44 ≤ f.length
      omega
    refine ⟨28 + entry.len.toNat, cachedTail (f.drop 34) entry.response entry.len.toNat, ?_, ?_,
      fun hihl => ?_⟩
    · refine (if_neg hrefused).trans ?_
      rw [hkey, Option.bind_some, hentry, Option.map_some]
    · rw [hframe]
      exact reply_transmitted e hid hanswers.fits hresp
    · exact iff_of_true (fits_cached hihl hid hanswers.fits hresp)
        fun hrefused' => absurd hrefused' hrefused

end

/-- **When a frame that is sent is well formed**: for a header of 20 bytes always, but that a
refusal keeps the lengths it came with; for a longer one if what the program takes for UDP header
and payload happens to fit it. -/
theorem transmitted_wellFormed_iff (e : Endian) (env : XdpEnv) (m : KernelMaps) (f : Frame)
    (htx : (titanDnsFilter e env m f).2.action = .tx) (hihl : 5 ≤ ihl f) :
    WellFormed f (titanDnsFilter e env m f).2.frame ↔
      (ihl f = 5 ∧ (Blacklisted e m f → LengthsMatch f)) ∨
        (5 < ihl f ∧ ∃ sent tail, sentTail e m f = some (sent, tail) ∧ Fits f sent tail) := by
  obtain ⟨sent, tail, htail, htransmitted, hfive⟩ := titanDnsFilter_transmitted htx
  rw [htransmitted.wellFormed_iff hihl]
  by_cases hoptions : ihl f = 5
  · rw [hfive hoptions]
    constructor
    · exact fun hmatch => Or.inl ⟨hoptions, hmatch⟩
    · rintro (⟨-, hmatch⟩ | ⟨hlong, -⟩)
      · exact hmatch
      · omega
  · constructor
    · exact fun hfits => Or.inr ⟨by omega, sent, tail, htail, hfits⟩
    · rintro (⟨hshort, -⟩ | ⟨-, sent', tail', htail', hfits⟩)
      · exact absurd hshort hoptions
      · rw [htail] at htail'
        cases htail'
        exact hfits

/-- A query for the root from 192.0.2.7, with the given header words behind the addresses. -/
def headedFrame (version total : UInt8) (options : List UInt8) : Frame :=
  [2, 0, 0, 0, 0, 1, 2, 0, 0, 0, 0, 2, 8, 0] ++
    [version, 0, 0, total, 0, 1, 0, 0, 64, 17, 0, 0, 192, 0, 2, 7, 192, 0, 2, 53] ++ options ++
    [0x9c, 0x40, 0, 53, 0, 25, 0, 0] ++ [0x12, 0x34, 1, 0, 0, 1, 0, 0, 0, 0, 0, 0, 0, 0, 1, 0, 1]

/-- Everyone is refused. -/
def refusing : KernelMaps := { KernelMaps.empty with blacklist := fun _ => some 2 }

def idleEnv : XdpEnv := ⟨0, true, true⟩

/-- A refusal for a header of 20 bytes. -/
theorem transmitted_wellFormed_iff_refusal :
    WellFormed (headedFrame 0x45 45 [])
      (titanDnsFilter .little idleEnv refusing (headedFrame 0x45 45 [])).2.frame :=
  (transmitted_wellFormed_iff .little idleEnv refusing (headedFrame 0x45 45 []) (by decide +kernel)
    (by decide)).mpr (Or.inl ⟨by decide, fun _ => by unfold LengthsMatch; decide⟩)

/-- With a router alert option the checksum of the refusal is wrong. -/
theorem options_checksum_wrong :
    (titanDnsFilter .little idleEnv refusing (headedFrame 0x46 49 [148, 4, 0, 0])).2.action = .tx ∧
      ihl (headedFrame 0x46 49 [148, 4, 0, 0]) = 6 ∧
      ¬ WellFormed (headedFrame 0x46 49 [148, 4, 0, 0])
        (titanDnsFilter .little idleEnv refusing (headedFrame 0x46 49 [148, 4, 0, 0])).2.frame := by
  have htx : (titanDnsFilter .little idleEnv refusing
      (headedFrame 0x46 49 [148, 4, 0, 0])).2.action = .tx := by decide +kernel
  refine ⟨htx, by decide, fun hwell => ?_⟩
  obtain ⟨sent, tail, htail, htransmitted, -⟩ := titanDnsFilter_transmitted htx
  have hsum := ((htransmitted.wellFormed_iff (by decide)).mp hwell).sum
  cases htail
  revert hsum
  decide +kernel

end TitanDns.Bpf
