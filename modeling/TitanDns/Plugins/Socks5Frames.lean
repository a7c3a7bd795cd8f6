import TitanDns.Core.Checked
import TitanDns.Plugins.Socks5Tunnel

/-!
# What the relay may send

`Socks5UdpTunnel::recv_from` with every index and every slice checked, on whatever the relay sends.

* `recvFromChecked` — the source, with the buffers it reads into and copies to;
  `recvFromChecked_eq` — **no index is out of range**, and what is returned is `recvFrom` of the
  datagram.
* `IsHeader` — the headers of a target; `recvFrom_ok_iff` — **what is returned is what follows
  one**.
* `FramesExactly` — what is said of one call.

Principal result: `frames_exactly` — **that holds of every call**, whatever the last one left in the
tunnel's buffer.
-/

namespace TitanDns.Socks5

/-! ## The receiver -/

/-- The caller's buffer; a slice holds at most `isize::MAX` octets. -/
structure Buffer where
  bytes : List UInt8
  length_lt : bytes.length < 2 ^ 63

/-- The tunnel's buffer, brought to the length `desired`. -/
def resize (recvBuf : List UInt8) (desired : Nat) : List UInt8 :=
  if recvBuf.length < desired then recvBuf ++ List.replicate (desired - recvBuf.length) 0
  else recvBuf.take desired

/-- `socket.recv`: a datagram that is longer than the buffer loses its end. -/
def recv (recvBuf datagram : List UInt8) : List UInt8 × Nat :=
  (datagram.take recvBuf.length ++ recvBuf.drop datagram.length,
    min datagram.length recvBuf.length)

/-- The sender in the header, and `data_offset`. -/
def sourceChecked (data : List UInt8) : Except Fault (Except String (SocketAddr × Nat)) := do
  let atyp ← indexChecked data 3
  if atyp = 1 then
    let a ← indexChecked data 4
    let b ← indexChecked data 5
    let c ← indexChecked data 6
    let d ← indexChecked data 7
    let high ← indexChecked data 8
    let low ← indexChecked data 9
    return .ok (⟨.v4 ⟨a, b, c, d⟩, UInt16.ofNat (beValue [high, low])⟩, 10)
  else if atyp = 4 then
    if data.length < 22 then return .error "Invalid SOCKS5 UDP response"
    else
      let ipBytes ← sliceChecked data 4 20
      let high ← indexChecked data 20
      let low ← indexChecked data 21
      return .ok (⟨.v6 ⟨UInt64.ofNat (beValue (ipBytes.take 8)),
        UInt64.ofNat (beValue (ipBytes.drop 8))⟩, UInt16.ofNat (beValue [high, low])⟩, 22)
  else return .error "Unsupported ATYP in response"

/-- `buf[..n].copy_from_slice(src)` -/
def copyChecked (buf : List UInt8) (n : Nat) (src : List UInt8) : Except Fault (List UInt8) := do
  let dst ← sliceChecked buf 0 n
  if dst.length = src.length then return src ++ buf.drop n else .error .outOfBounds

/-- What a call returns, the caller's buffer after it, and the tunnel's. -/
structure Received where
  result : Except String (Nat × SocketAddr)
  buf : List UInt8
  recvBuf : List UInt8

/-- The closure of `recv_from` on the octets received. -/
def decodeChecked (data buf : List UInt8) :
    Except Fault (Except String (Nat × SocketAddr) × List UInt8) := do
  if data.length < 10 then return (.error "Invalid SOCKS5 UDP response", buf)
  else
    match ← sourceChecked data with
    | .error e => return (.error e, buf)
    | .ok (addr, offset) =>
      let dataLen ← subU64 data.length offset
      if buf.length < dataLen then return (.error "Buffer too small", buf)
      else
        let payload ← sliceChecked data offset data.length
        let buf ← copyChecked buf dataLen payload
        return (.ok (dataLen, addr), buf)

/-- `recv_from`, with what the tunnel's buffer held before and what the socket gives. After an error
of the socket that buffer is the empty one which was put in its place. -/
def recvFromChecked (recvBuf : List UInt8) (received : Except String (List UInt8)) (buf : Buffer) :
    Except Fault Received := do
  let desired := min (buf.bytes.length + 64) (2 ^ 64 - 1)
  match received with
  | .error e => return ⟨.error e, buf.bytes, []⟩
  | .ok datagram =>
    let (recvBuf, len) := recv (resize recvBuf desired) datagram
    let data ← sliceChecked recvBuf 0 len
    let (result, buf) ← decodeChecked data buf.bytes
    return ⟨result, buf, recvBuf⟩

/-! ## Its steps -/

theorem resize_length (recvBuf : List UInt8) (desired : Nat) :
    (resize recvBuf desired).length = desired := by
  unfold resize
  split <;> simp <;> omega

/-- The octets received are those of the datagram, and none of what the buffer held. -/
theorem recv_take (recvBuf datagram : List UInt8) :
    sliceChecked (recv recvBuf datagram).1 0 (recv recvBuf datagram).2 =
      .ok (datagram.take recvBuf.length) := by
  have hlen : (datagram.take recvBuf.length).length = min datagram.length recvBuf.length := by
    rw [List.length_take, Nat.min_comm]
  unfold recv
  rw [sliceChecked_eq (Nat.zero_le _) (by rw [List.length_append, hlen]; omega), List.drop_zero,
    Nat.sub_zero, ← hlen, List.take_left']
  rfl

/-- Ten octets have an address type, and six octets behind it. -/
theorem drop_three {data : List UInt8} (h : 10 ≤ data.length) :
    ∃ atyp a b c d high low rest,
      data.drop 3 = atyp :: a :: b :: c :: d :: high :: low :: rest := by
  match data, h with
  | _ :: _ :: _ :: atyp :: a :: b :: c :: d :: high :: low :: rest, _ =>
    exact ⟨atyp, a, b, c, d, high, low, rest, rfl⟩

/-- Two octets, where there are two. -/
theorem take_two {bs : List UInt8} (h : 2 ≤ bs.length) :
    ∃ high low, bs.take 2 = [high, low] ∧ bs[0]? = some high ∧ bs[1]? = some low := by
  match bs, h with
  | high :: low :: _, _ => exact ⟨high, low, rfl, rfl, rfl⟩

/-- **The header is read in range.** -/
theorem sourceChecked_eq {data : List UInt8} (h : 10 ≤ data.length) :
    sourceChecked data = .ok (source data) := by
  obtain ⟨atyp, a, b, c, d, high, low, rest, hdrop⟩ := drop_three h
  have hindex : ∀ k octet, (data.drop 3)[k]? = some octet → indexChecked data (3 + k) = .ok octet :=
    fun _ _ => indexChecked_drop
  rw [hdrop] at hindex
  unfold sourceChecked source
  rw [hindex 0 atyp rfl, hdrop]
  by_cases hv4 : atyp = 1
  · subst hv4
    rw [hindex 1 a rfl, hindex 2 b rfl, hindex 3 c rfl, hindex 4 d rfl, hindex 5 high rfl,
      hindex 6 low rfl]
    rfl
  by_cases hv6 : atyp = 4
  · subst hv6
    by_cases hshort : data.length < 22
    · simp only [hshort, ite_true]
      rfl
    · have hrest : data.drop 4 = a :: b :: c :: d :: high :: low :: rest := by
        have htail := congrArg (List.drop 1) hdrop
        rwa [List.drop_drop] at htail
      have hlong : 2 ≤ (data.drop 20).length := by
        rw [List.length_drop]
        omega
      obtain ⟨x, y, hport, hx, hy⟩ := take_two hlong
      have hslice : sliceChecked data 4 20 = .ok ((data.drop 4).take 16) :=
        sliceChecked_eq (by omega) (by omega)
      rw [hslice, indexChecked_drop hx, indexChecked_drop hy]
      simp only [bind, Except.bind, pure, Except.pure, hshort, hv4, ite_true, ite_false]
      have hbehind : (data.drop 4).drop 16 = data.drop 20 := List.drop_drop
      have hhigh : ((data.drop 4).take 16).take 8 = (data.drop 4).take 8 := List.take_take
      have hlow : ((data.drop 4).take 16).drop 8 = ((data.drop 4).drop 8).take 8 := List.drop_take
      rw [hhigh, hlow, ← hrest, hbehind, hport]
  · simp only [bind, Except.bind, pure, Except.pure, hv4, hv6, ite_false]
    split
    · rename_i heq
      exact absurd (List.cons.inj heq).1 hv4
    · rename_i heq
      exact absurd (List.cons.inj heq).1 hv6
    · rfl

/-! ## Headers -/

/-- A header with the address and the port of a target; RSV and FRAG may be anything. -/
def IsHeader (bytes : List UInt8) (target : SocketAddr) : Prop :=
  bytes.length = (header target).length ∧ bytes.drop 3 = (header target).drop 3

/-- Octets are those of the number they stand for. -/
theorem octets_beValue {k : Nat} {bs : List UInt8} (h : bs.length = k) :
    octets k (beValue bs) = bs := by
  have hvalue : beValue bs = leNat bs.reverse := by rw [← beValue_reverse, List.reverse_reverse]
  have hbytes := leBytes_leNat bs.reverse
  rw [List.length_reverse, h] at hbytes
  rw [octets_eq, hvalue, hbytes, List.reverse_reverse]

theorem beValue_lt (bs : List UInt8) : beValue bs < 256 ^ bs.length := by
  have hlt := leNat_lt bs.reverse
  rwa [← beValue_reverse, List.reverse_reverse, List.length_reverse] at hlt

/-- Two octets are those of the port they stand for. -/
theorem octets_port {bs : List UInt8} (h : bs.length = 2) :
    octets 2 (UInt16.ofNat (beValue bs)).toNat = bs := by
  have hlt := beValue_lt bs
  rw [h] at hlt
  rw [UInt16.toNat_ofNat', Nat.mod_eq_of_lt (by omega), octets_beValue h]

theorem octets_half {bs : List UInt8} (h : bs.length = 8) :
    octets 8 (UInt64.ofNat (beValue bs)).toNat = bs := by
  have hlt := beValue_lt bs
  rw [h] at hlt
  rw [UInt64.toNat_ofNat', Nat.mod_eq_of_lt (by omega), octets_beValue h]

/-- A header is found in front of any payload. -/
theorem source_header {bytes : List UInt8} {target : SocketAddr} (h : IsHeader bytes target)
    (payload : List UInt8) :
    source (bytes ++ payload) = .ok (target, (header target).length) := by
  obtain ⟨hlength, hdrop⟩ := h
  have hthree := (header_length target).1
  have hsame : (bytes ++ payload).drop 3 = (packet target payload).drop 3 := by
    rw [packet, List.drop_append_of_le_length (by omega), hdrop,
      List.drop_append_of_le_length (by omega)]
  have hsize : (bytes ++ payload).length = (packet target payload).length := by
    rw [packet, List.length_append, List.length_append, hlength]
  have hpacket := source_packet target payload
  unfold source at hpacket ⊢
  rw [hsame, hsize]
  exact hpacket

/-- **What is found is a header**, and the offset is its length. -/
theorem source_ok {data : List UInt8} {addr : SocketAddr} {offset : Nat} (h : 10 ≤ data.length)
    (hsource : source data = .ok (addr, offset)) :
    offset ≤ data.length ∧ offset ≤ 22 ∧ IsHeader (data.take offset) addr := by
  have hlength : (data.drop 3).length = data.length - 3 := List.length_drop
  unfold source at hsource
  split at hsource
  · rename_i a b c d rest hdrop
    obtain ⟨rfl, rfl⟩ := Prod.mk.inj (Except.ok.inj hsource)
    rw [hdrop] at hlength
    simp only [List.length_cons] at hlength
    have hport : (rest.take 2).length = 2 := by
      rw [List.length_take]
      omega
    refine ⟨h, by omega, ?_, ?_⟩
    · simp [header]
      omega
    · rw [List.drop_take, hdrop]
      simp only [header]
      rw [octets_port hport]
      rfl
  · rename_i rest hdrop
    split at hsource
    · cases hsource
    rename_i hlong
    obtain ⟨rfl, rfl⟩ := Prod.mk.inj (Except.ok.inj hsource)
    rw [hdrop] at hlength
    simp only [List.length_cons] at hlength
    have hhigh : (rest.take 8).length = 8 := by
      rw [List.length_take]
      omega
    have hlow : ((rest.drop 8).take 8).length = 8 := by
      rw [List.length_take, List.length_drop]
      omega
    have hport : ((rest.drop 16).take 2).length = 2 := by
      rw [List.length_take, List.length_drop]
      omega
    have hsplit : rest.take 18 =
        rest.take 8 ++ ((rest.drop 8).take 8 ++ (rest.drop 16).take 2) := by
      rw [show 18 = 8 + (8 + 2) from rfl, List.take_add, List.take_add, List.drop_drop]
    refine ⟨by omega, by omega, ?_, ?_⟩
    · simp [header]
      omega
    · rw [List.drop_take, hdrop]
      simp only [header]
      rw [octets_port hport, octets_half hhigh, octets_half hlow, List.take_succ_cons, hsplit]
      simp only [List.append_assoc]
      rfl
  · cases hsource

/-! ## The call -/

/-- What the caller gets, and what its buffer holds then. -/
def returned (buf : List UInt8) :
    Except String (List UInt8 × SocketAddr) → Except String (Nat × SocketAddr) × List UInt8
  | .error e => (.error e, buf)
  | .ok (payload, addr) => (.ok (payload.length, addr), payload ++ buf.drop payload.length)

/-- A payload that fits is copied to the front of the buffer. -/
theorem copyChecked_eq {buf src : List UInt8} (h : src.length ≤ buf.length) :
    copyChecked buf src.length src = .ok (src ++ buf.drop src.length) := by
  unfold copyChecked
  rw [sliceChecked_eq (Nat.zero_le _) h]
  have hlen : ((buf.drop 0).take (src.length - 0)).length = src.length := by
    rw [List.drop_zero, Nat.sub_zero, List.length_take]
    omega
  simp only [bind, Except.bind, pure, Except.pure, hlen, ite_true]

/-- **Nothing the relay sends makes the call panic**, and the octets left in the tunnel's buffer
play no part. -/
theorem recvFromChecked_eq (recvBuf datagram : List UInt8) (buf : Buffer) :
    ∃ kept, recvFromChecked recvBuf (.ok datagram) buf =
      .ok ⟨(returned buf.bytes (recvFrom datagram buf.bytes.length)).1,
        (returned buf.bytes (recvFrom datagram buf.bytes.length)).2, kept⟩ := by
  have hroom : min (buf.bytes.length + 64) (2 ^ 64 - 1) = buf.bytes.length + 64 := by
    have := buf.length_lt
    omega
  refine ⟨(recv (resize recvBuf (buf.bytes.length + 64)) datagram).1, ?_⟩
  unfold recvFromChecked recvFrom
  rw [hroom]
  simp only [recv_take, resize_length, bind, Except.bind, pure, Except.pure]
  generalize datagram.take (buf.bytes.length + 64) = data
  unfold decodeChecked
  by_cases hshort : data.length < 10
  · simp only [hshort, ite_true, returned, pure, Except.pure]
  · simp only [hshort, ite_false, bind, Except.bind, pure, Except.pure,
      sourceChecked_eq (Nat.le_of_not_lt hshort)]
    cases hsource : source data with
    | error e => rfl
    | ok found =>
      obtain ⟨addr, offset⟩ := found
      have hoffset := (source_ok (Nat.le_of_not_lt hshort) hsource).1
      simp only [subU64_eq hoffset]
      by_cases hbig : buf.bytes.length < data.length - offset
      · simp only [hbig, ite_true, returned]
      · have hpayload : (data.drop offset).length = data.length - offset := List.length_drop
        have hslice : sliceChecked data offset data.length = .ok (data.drop offset) := by
          rw [sliceChecked_eq hoffset (Nat.le_refl _), ← hpayload, List.take_length]
        rw [← hpayload] at hbig
        simp only [← hpayload] at hslice ⊢
        simp only [hbig, ite_false, hslice, copyChecked_eq (Nat.le_of_not_lt hbig), returned]

/-- **What is returned is what follows a header**, and it is the whole of it. -/
theorem recvFrom_ok_iff {datagram payload : List UInt8} {target : SocketAddr} {bufLen : Nat} :
    recvFrom datagram bufLen = .ok (payload, target) ↔
      payload.length ≤ bufLen ∧ ∃ bytes, IsHeader bytes target ∧ datagram = bytes ++ payload := by
  constructor
  · intro h
    unfold recvFrom at h
    simp only at h
    split at h
    · cases h
    rename_i hshort
    cases hsource : source (datagram.take (bufLen + 64)) with
    | error e =>
      rw [hsource] at h
      cases h
    | ok found =>
      obtain ⟨addr, offset⟩ := found
      obtain ⟨hoffset, hsmall, hheader⟩ := source_ok (Nat.le_of_not_lt hshort) hsource
      rw [hsource] at h
      simp only at h
      split at h
      · cases h
      rename_i hfits
      obtain ⟨rfl, rfl⟩ := Prod.mk.inj (Except.ok.inj h)
      -- a datagram whose end was cut off leaves more than the buffer takes
      have hwhole : datagram.length ≤ bufLen + 64 := by
        rw [List.length_take] at hfits
        omega
      rw [List.take_of_length_le hwhole] at hheader hfits ⊢
      refine ⟨?_, datagram.take offset, hheader, (List.take_append_drop offset datagram).symm⟩
      rw [List.length_drop]
      omega
  · rintro ⟨hfits, bytes, hheader, rfl⟩
    obtain ⟨hmin, hmax⟩ := header_length target
    have hlen : (bytes ++ payload).length = (header target).length + payload.length := by
      rw [List.length_append, hheader.1]
    have htake : (bytes ++ payload).take (bufLen + 64) = bytes ++ payload :=
      List.take_of_length_le (by omega)
    have hdrop : (bytes ++ payload).drop (header target).length = payload := by
      rw [← hheader.1]
      exact List.drop_left
    unfold recvFrom
    simp only [htake, source_header hheader, hdrop]
    rw [if_neg (by omega), if_neg (by omega)]

/-- **A payload that is too long is an error**, whatever of it the tunnel's buffer holds. -/
theorem recvFrom_too_long (target : SocketAddr) {data : List UInt8} {bufLen : Nat}
    (h : bufLen < data.length) :
    recvFrom (packet target data) bufLen = .error "Buffer too small" := by
  obtain ⟨hmin, hmax⟩ := header_length target
  have htake : (packet target data).take (bufLen + 64) =
      packet target (data.take (bufLen + 64 - (header target).length)) := by
    rw [packet, packet, List.take_append, List.take_of_length_le (by omega)]
  have hlen : ∀ rest, (packet target rest).length = (header target).length + rest.length :=
    fun _ => List.length_append
  have hrest : (data.take (bufLen + 64 - (header target).length)).length =
      min (bufLen + 64 - (header target).length) data.length := List.length_take
  unfold recvFrom
  simp only [htake, source_packet, hlen, hrest]
  rw [if_neg (by omega), if_pos (by omega)]

/-! ## One call -/

/-- What a call returns, and what it leaves in the caller's buffer. -/
def Returns (call : Except Fault Received) (result : Except String (Nat × SocketAddr))
    (buf : List UInt8) : Prop := ∃ kept, call = .ok ⟨result, buf, kept⟩

/-- What is said of the calls with a given buffer. -/
structure FramesExactly (recvBuf : List UInt8) (buf : Buffer) : Prop where
  /-- What `send_to` writes is read back. -/
  decoded : ∀ target data, data.length ≤ buf.bytes.length →
    Returns (recvFromChecked recvBuf (.ok (packet target data)) buf) (.ok (data.length, target))
      (data ++ buf.bytes.drop data.length)
  /-- A payload that is longer than the buffer is an error. -/
  too_long : ∀ target data, buf.bytes.length < data.length →
    Returns (recvFromChecked recvBuf (.ok (packet target data)) buf) (.error "Buffer too small")
      buf.bytes
  /-- Of any datagram either nothing is returned or all that follows its header. -/
  exact : ∀ datagram,
    (∃ e, Returns (recvFromChecked recvBuf (.ok datagram) buf) (.error e) buf.bytes) ∨
      ∃ bytes target payload, datagram = bytes ++ payload ∧ IsHeader bytes target ∧
        payload.length ≤ buf.bytes.length ∧
        Returns (recvFromChecked recvBuf (.ok datagram) buf) (.ok (payload.length, target))
          (payload ++ buf.bytes.drop payload.length)

/-- A call returns what `recvFrom` says. -/
theorem returns_recvFrom (recvBuf datagram : List UInt8) (buf : Buffer) :
    Returns (recvFromChecked recvBuf (.ok datagram) buf)
      (returned buf.bytes (recvFrom datagram buf.bytes.length)).1
      (returned buf.bytes (recvFrom datagram buf.bytes.length)).2 :=
  recvFromChecked_eq recvBuf datagram buf

/-- **Every frame is read exactly or not at all**, whatever is in the two buffers. -/
theorem frames_exactly (recvBuf : List UInt8) (buf : Buffer) : FramesExactly recvBuf buf where
  decoded target data hfits := by
    have hcall := returns_recvFrom recvBuf (packet target data) buf
    rwa [recvFrom_packet target hfits] at hcall
  too_long target data hlong := by
    have hcall := returns_recvFrom recvBuf (packet target data) buf
    rwa [recvFrom_too_long target hlong] at hcall
  exact datagram := by
    have hcall := returns_recvFrom recvBuf datagram buf
    cases hresult : recvFrom datagram buf.bytes.length with
    | error e =>
      rw [hresult] at hcall
      exact .inl ⟨e, hcall⟩
    | ok found =>
      obtain ⟨payload, target⟩ := found
      obtain ⟨hfits, bytes, hheader, heq⟩ := recvFrom_ok_iff.mp hresult
      rw [hresult] at hcall
      exact .inr ⟨bytes, target, payload, heq, hheader, hfits, hcall⟩

end TitanDns.Socks5
