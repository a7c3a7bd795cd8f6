import TitanDns.Lib.Run

/-!
# The receive buffer of `run_udp`

One `BytesMut` takes every datagram; each packet is split off, and the buffer is topped up.

* `BytesCrate` — what the loop relies on of the buffer type; `BytesMut`, by length and capacity.
* `Turn`, `receive` — one turn of the loop, and what the buffer type does in it.
* `Roomy` — the next call of `recv_buf_from` is offered 4096 bytes; `received_whole` — **then no
  datagram of up to 4096 bytes is cut.**
* `roomy_iff` — **exactly the runs stay roomy in which every packet leaves 4096 bytes, or fewer than
  2048 with a reallocation to 4096**: `reserve` is asked for what is missing of the capacity, and
  does nothing when as much as that is there.
* `short_starves` — a packet of up to half the buffer leaves less; `small_then_large` — the next one
  is cut.
-/

namespace TitanDns

open Run

/-- What is relied on of the buffer type, by length and capacity; it may do otherwise the next
time, with what else it knows of the memory behind a buffer. -/
structure BytesCrate where
  /-- The capacity after `reserve(additional)`. -/
  reserve : (len capacity additional : Nat) → Nat
  reserve_room : ∀ len capacity additional, additional ≤ reserve len capacity additional - len
  reserve_idle : ∀ len capacity additional, additional ≤ capacity - len →
    reserve len capacity additional = capacity

/-- Reallocation to exactly what is asked for. -/
def BytesCrate.exact : BytesCrate where
  reserve len capacity additional :=
    if additional ≤ capacity - len then capacity else len + additional
  reserve_room len capacity additional := by
    split
    · assumption
    · omega
  reserve_idle len capacity additional h := if_pos h

structure BytesMut where
  len : Nat
  capacity : Nat
  deriving DecidableEq

namespace BytesMut

variable (crate : BytesCrate)

def reserve (b : BytesMut) (additional : Nat) : BytesMut :=
  { b with capacity := crate.reserve b.len b.capacity additional }

/-- `split_to(n)`: what remains. -/
def splitTo (b : BytesMut) (n : Nat) : BytesMut := ⟨b.len - n, b.capacity - n⟩

def clear (b : BytesMut) : BytesMut := { b with len := 0 }

/-- `chunk_mut`: a full buffer grows by 64 bytes at least. -/
def chunkMut (b : BytesMut) : BytesMut := if b.capacity = b.len then b.reserve crate 64 else b

/-- The room that `recv_buf_from` offers. -/
def offered (b : BytesMut) : Nat := (b.chunkMut crate).capacity - (b.chunkMut crate).len

/-- `recv_buf_from`: the datagram is cut to the room, and `len` bytes of it are read. -/
def recvBufFrom (b : BytesMut) (datagram : Nat) : BytesMut × Nat :=
  let len := min datagram (b.offered crate)
  ({ b.chunkMut crate with len := (b.chunkMut crate).len + len }, len)

end BytesMut

/-! ## The loop -/

def MAX_DNS_PACKET_SIZE : Nat := 4096

/-- What `recv_buf_from` comes to: an error, or a datagram of the given length. -/
inductive Received where
  | error
  | datagram (length : Nat)
  deriving DecidableEq

/-- One turn of the loop: what it receives, and what the buffer type does in it. -/
structure Turn where
  received : Received
  crate : BytesCrate

namespace UdpServer

/-- `BytesMut::with_capacity(4096)`: it may be given more. -/
structure Buffer where
  capacity : Nat
  asked : 4096 ≤ capacity

/-- The buffer that the loop starts with. -/
def buffer (given : Buffer) : BytesMut := ⟨0, given.capacity⟩

section
variable (crate : BytesCrate)

/-- `if buf.capacity() < 4096 { buf.reserve(4096 - buf.capacity()) }` -/
def topUp (b : BytesMut) : BytesMut :=
  if b.capacity < 4096 then b.reserve crate (4096 - b.capacity) else b

end

/-- One turn of the loop: the buffer it leaves. -/
def receive (b : BytesMut) (turn : Turn) : BytesMut :=
  match turn.received with
  | .error => b.chunkMut turn.crate
  | .datagram length =>
    let (b, len) := b.recvBufFrom turn.crate length
    if MAX_DNS_PACKET_SIZE < len ∨ len < 12 then b.clear
    else topUp turn.crate (b.splitTo len)

/-- The next call is offered room for the largest packet, whatever the buffer type does. -/
def Roomy (b : BytesMut) : Prop := ∀ crate, MAX_DNS_PACKET_SIZE ≤ b.offered crate

/-- The capacity that is left behind a packet. -/
def leftBehind (b : BytesMut) (length : Nat) : Nat := b.capacity - min length b.capacity

/-- A packet that is split off leaves 4096 bytes, or so little that `reserve` reallocates, and then
to 4096 bytes. -/
def Restores (b : BytesMut) (turn : Turn) : Prop :=
  match turn.received with
  | .error => True
  | .datagram length =>
    MAX_DNS_PACKET_SIZE < min length b.capacity ∨ min length b.capacity < 12 ∨
      4096 ≤ leftBehind b length ∨
      leftBehind b length < 2048 ∧
        4096 ≤ turn.crate.reserve 0 (leftBehind b length) (4096 - leftBehind b length)

variable {crate : BytesCrate} {b : BytesMut}

/-- Nothing is left in the buffer, and it has some capacity. -/
structure Idle (b : BytesMut) : Prop where
  len : b.len = 0
  capacity : 0 < b.capacity

/-- An idle buffer is offered as it is. -/
theorem Idle.chunkMut (h : Idle b) : b.chunkMut crate = b := by
  unfold BytesMut.chunkMut
  have hcap := h.capacity
  rw [if_neg (by rw [h.len]; omega)]

theorem Idle.offered (h : Idle b) : b.offered crate = b.capacity := by
  rw [BytesMut.offered, h.chunkMut, h.len, Nat.sub_zero]

theorem Idle.roomy_iff_capacity (h : Idle b) : Roomy b ↔ 4096 ≤ b.capacity := by
  unfold Roomy
  simp only [h.offered]
  exact ⟨fun hroomy => hroomy .exact, fun hroomy _ => hroomy⟩

/-- What a packet splits off an idle buffer. -/
theorem Idle.received (h : Idle b) (length : Nat) :
    b.recvBufFrom crate length =
      (⟨min length b.capacity, b.capacity⟩, min length b.capacity) := by
  simp only [BytesMut.recvBufFrom, h.offered, h.chunkMut, h.len, Nat.zero_add]

/-- **Roomy means that a datagram of up to 4096 bytes is read whole.** -/
theorem received_whole (h : Roomy b) {datagram : Nat} (hmax : datagram ≤ MAX_DNS_PACKET_SIZE) :
    (b.recvBufFrom crate datagram).2 = datagram :=
  Nat.min_eq_left (Nat.le_trans hmax (h crate))

/-- The top-up is made by `reserve`, or there is nothing to make up. -/
theorem topUp_cases (hlen : b.len = 0) :
    (b.capacity < 4096 ∧
      topUp crate b = ⟨0, crate.reserve 0 b.capacity (4096 - b.capacity)⟩) ∨
    (4096 ≤ b.capacity ∧ topUp crate b = b) := by
  unfold topUp
  split
  · rename_i hshort
    refine Or.inl ⟨hshort, ?_⟩
    rw [BytesMut.reserve, hlen]
  · rename_i hlong
    exact Or.inr ⟨by omega, rfl⟩

/-- Whatever is missing, the topped-up buffer is idle. -/
theorem topUp_idle (hlen : b.len = 0) : Idle (topUp crate b) := by
  rcases topUp_cases hlen with ⟨hshort, htop⟩ | ⟨hlong, htop⟩
  · have hroom := crate.reserve_room 0 b.capacity (4096 - b.capacity)
    rw [htop]
    refine ⟨rfl, ?_⟩
    simp only
    omega
  · rw [htop]
    exact ⟨hlen, by omega⟩

/-- **When the top-up makes the buffer roomy**: `reserve` is asked for what is missing, and does
nothing when as much as that is there. -/
theorem topUp_roomy_iff (hlen : b.len = 0) :
    Roomy (topUp crate b) ↔
      4096 ≤ b.capacity ∨
        b.capacity < 2048 ∧ 4096 ≤ crate.reserve 0 b.capacity (4096 - b.capacity) := by
  rw [(topUp_idle hlen).roomy_iff_capacity]
  rcases topUp_cases hlen with ⟨hshort, htop⟩ | ⟨hlong, htop⟩
  · rw [htop]
    simp only
    by_cases hhalf : b.capacity < 2048
    · constructor
      · exact fun h => Or.inr ⟨hhalf, h⟩
      · rintro (h | h)
        · omega
        · exact h.2
    · rw [crate.reserve_idle 0 b.capacity (4096 - b.capacity) (by omega)]
      omega
  · rw [htop]
    omega

/-- A turn that splits a packet off, and one that does not. -/
theorem receive_datagram (h : Idle b) (length : Nat) :
    receive b ⟨.datagram length, crate⟩ =
      if MAX_DNS_PACKET_SIZE < min length b.capacity ∨ min length b.capacity < 12 then b
      else topUp crate ⟨0, leftBehind b length⟩ := by
  have hclear : (⟨0, b.capacity⟩ : BytesMut) = b := by rw [← h.len]
  simp only [receive, h.received]
  simp only [BytesMut.clear, BytesMut.splitTo, Nat.sub_self, hclear]
  rfl

theorem receive_idle (h : Idle b) (turn : Turn) : Idle (receive b turn) := by
  obtain ⟨received, crate⟩ := turn
  cases received with
  | error => rwa [receive, h.chunkMut]
  | datagram length =>
    rw [receive_datagram h]
    split
    · exact h
    · exact topUp_idle rfl

/-- **A turn keeps the buffer roomy exactly when its packet restores it.** -/
theorem receive_roomy_iff (h : Idle b) (hroomy : Roomy b) (turn : Turn) :
    Roomy (receive b turn) ↔ Restores b turn := by
  obtain ⟨received, crate⟩ := turn
  cases received with
  | error =>
    rw [receive, h.chunkMut]
    exact ⟨fun _ => trivial, fun _ => hroomy⟩
  | datagram length =>
    rw [receive_datagram h]
    simp only [Restores]
    split
    · rename_i hdropped
      rw [← or_assoc]
      exact ⟨fun _ => Or.inl hdropped, fun _ => hroomy⟩
    · rename_i hkept
      rw [topUp_roomy_iff rfl, ← or_assoc, or_iff_right hkept]

/-- The buffer that the loop starts with is idle and roomy. -/
theorem buffer_idle (given : Buffer) : Idle (buffer given) ∧ Roomy (buffer given) := by
  have hcap : 4096 ≤ (buffer given).capacity := given.asked
  have hidle : Idle (buffer given) := ⟨rfl, by omega⟩
  exact ⟨hidle, hidle.roomy_iff_capacity.mpr hcap⟩

end UdpServer

open UdpServer

/-- **Every call is offered 4096 bytes exactly in the runs in which every packet restores the
buffer.** -/
theorem roomy_iff (given : Buffer) (es : List Turn) :
    Always receive Roomy (buffer given) es ↔ Meets receive Restores (buffer given) es := by
  obtain ⟨hidle, hroomy⟩ := buffer_idle given
  have hkept : ∀ b turn, Idle b → Roomy b → Idle (receive b turn) :=
    fun _ turn h _ => receive_idle h turn
  have hstep : ∀ b turn, Idle b → Roomy b → (Roomy (receive b turn) ↔ Restores b turn) :=
    fun _ turn h hroomy => receive_roomy_iff h hroomy turn
  exact always_iff_under hkept hstep hidle hroomy es

/-- A query of 100 bytes leaves room for 3996, and a datagram of 4096 bytes is cut to these. -/
theorem small_then_large :
    (receive (buffer ⟨4096, by decide⟩) ⟨.datagram 100, .exact⟩).recvBufFrom .exact 4096 =
      (⟨3996, 3996⟩, 3996) ∧
    ¬ ∀ given es, (∀ n crate, ⟨.datagram n, crate⟩ ∈ es → n ≤ MAX_DNS_PACKET_SIZE) →
      Always receive Roomy (buffer given) es := by
  refine ⟨by decide, fun h => ?_⟩
  have hmax : ∀ n crate, ⟨.datagram n, crate⟩ ∈ [(⟨.datagram 100, .exact⟩ : Turn)] →
      n ≤ MAX_DNS_PACKET_SIZE := by
    intro n crate hn
    cases List.mem_singleton.mp hn
    decide
  have hlast := (h ⟨4096, by decide⟩ [⟨.datagram 100, .exact⟩] hmax).last .exact
  revert hlast
  decide

/-- **A packet of up to half the buffer starves it**, whatever the buffer type does. -/
theorem short_starves (crate : BytesCrate) {b : BytesMut} (h : Idle b) (hcap : b.capacity = 4096)
    {length : Nat} (hmin : 12 ≤ length) (hmax : length ≤ 2048) :
    ¬ Roomy (receive b ⟨.datagram length, crate⟩) := by
  have hroomy : Roomy b := h.roomy_iff_capacity.mpr (by omega)
  rw [receive_roomy_iff h hroomy]
  simp only [Restores, leftBehind, hcap, MAX_DNS_PACKET_SIZE]
  omega

end TitanDns
