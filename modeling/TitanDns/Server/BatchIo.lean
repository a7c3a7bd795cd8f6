import TitanDns.Core.Checked
import TitanDns.Lib.Run
import TitanDns.Lib.Slots
import TitanDns.Server.BatchSender

/-!
# `BatchIo`

The receiver of the Linux server: one `recvmmsg` call fills the first slots of one buffer, and the
loop reads the packets out of it.

* `BatchIo`, `recvBatch`, `getPacket`, `autoTuneBatchSize` — the buffer, the headers and the
  functions; `fill` is what the kernel does.
* `Layout` — the sizes of the buffer and of the headers; `HoldsAt` — a datagram is in its slot.
* `holdsAt_fill` — **every datagram of a batch is in the slot of its index.**

Principal result: `batch_reads_back` — **after any run the packets of a batch are the datagrams in
order, cut to 4096 bytes, whatever the slots held before**, and no index is out of range.
-/

namespace TitanDns

open Run Slots

def MAX_BATCH_SIZE : Nat := 256

def DEFAULT_BATCH_SIZE : Nat := 64

def MIN_BATCH_SIZE : Nat := 32

def PACKET_SIZE : Nat := 4096

/-- What waits at the socket; the address is not one of IP. -/
structure Datagram where
  data : List UInt8
  source : Option SocketAddr

/-- The packet that is read of it. -/
def Datagram.read (d : Datagram) : Option Packet :=
  if d.data = [] then none else d.source.map fun src => (d.data.take PACKET_SIZE, src)

/-- A packet of a fitting size is read as it was sent. -/
theorem Datagram.read_packet {packet : Packet}
    (hsize : 12 ≤ packet.1.length ∧ packet.1.length ≤ PACKET_SIZE) :
    (Datagram.mk packet.1 (some packet.2)).read = some packet := by
  have hsome : packet.1 ≠ [] := List.ne_nil_of_length_pos (by omega)
  unfold Datagram.read
  rw [if_neg hsome, List.take_of_length_le hsize.2]
  rfl

/-- Of a header the length of its message counts. -/
structure BatchIo where
  bufferPool : List UInt8
  msgLens : List Nat
  addrs : List (Option SocketAddr)
  batchSize : Nat

namespace BatchIo

def new : BatchIo where
  bufferPool := List.replicate (MAX_BATCH_SIZE * PACKET_SIZE) 0
  msgLens := List.replicate MAX_BATCH_SIZE 0
  addrs := List.replicate MAX_BATCH_SIZE none
  batchSize := DEFAULT_BATCH_SIZE

def currentBatchSize (b : BatchIo) : Nat := max MIN_BATCH_SIZE (min b.batchSize MAX_BATCH_SIZE)

def autoTuneBatchSize (b : BatchIo) (currentQps : Nat) : BatchIo :=
  let newSize := if 100000 < currentQps then 256 else if currentQps < 10000 then 32 else 64
  { b with batchSize := max MIN_BATCH_SIZE (min newSize MAX_BATCH_SIZE) }

/-- The kernel puts a datagram into the slot of a header, which cuts it. -/
def receive (b : BatchIo) (i : Nat) (d : Datagram) : BatchIo :=
  { b with
    bufferPool := writeAt b.bufferPool (i * PACKET_SIZE) (d.data.take PACKET_SIZE)
    msgLens := b.msgLens.set i (min PACKET_SIZE d.data.length)
    addrs := b.addrs.set i d.source }

/-- `recvmmsg`: a datagram for each header, from `i` on. -/
def fill (b : BatchIo) (i : Nat) : List Datagram → BatchIo
  | [] => b
  | d :: ds => (b.receive i d).fill (i + 1) ds

/-- The lengths of the first headers are reset. -/
def reinit (b : BatchIo) (size : Nat) : BatchIo :=
  { b with msgLens := List.replicate size 0 ++ b.msgLens.drop size }

/-- `recv_batch` when `datagrams` wait at the socket, or the call fails. -/
def recvBatch (b : BatchIo) (res : Except Int (List Datagram)) : BatchIo × Except Int Nat :=
  let size := b.currentBatchSize
  let b := b.reinit size
  match res with
  | .error e => (b, .error e)
  | .ok datagrams => (b.fill 0 (datagrams.take size), .ok (min size datagrams.length))

/-- `get_packet` -/
def getPacket (b : BatchIo) (index : Nat) : Except Fault (Option Packet) :=
  match b.msgLens[index]?, b.addrs[index]? with
  | some len, some addr =>
    if len = 0 then .ok none
    else
      match sliceChecked b.bufferPool (index * PACKET_SIZE) (index * PACKET_SIZE + len) with
      | .ok data => .ok (addr.map fun src => (data, src))
      | .error fault => .error fault
  | _, _ => .ok none

/-! ## A datagram in its slot -/

structure Layout (b : BatchIo) : Prop where
  bufferPool : b.bufferPool.length = MAX_BATCH_SIZE * PACKET_SIZE
  msgLens : b.msgLens.length = MAX_BATCH_SIZE
  addrs : b.addrs.length = MAX_BATCH_SIZE

structure HoldsAt (b : BatchIo) (i : Nat) (d : Datagram) : Prop where
  len : b.msgLens[i]? = some (d.data.take PACKET_SIZE).length
  addr : b.addrs[i]? = some d.source
  data : slot PACKET_SIZE b.bufferPool i (d.data.take PACKET_SIZE).length = d.data.take PACKET_SIZE

variable {b : BatchIo} {i : Nat}

theorem layout_new : Layout new := ⟨List.length_replicate, List.length_replicate,
  List.length_replicate⟩

/-- A slot lies in the buffer. -/
theorem Layout.fits (h : b.Layout) (hi : i < MAX_BATCH_SIZE) {n : Nat} (hn : n ≤ PACKET_SIZE) :
    i * PACKET_SIZE + n ≤ b.bufferPool.length := by
  have hslot : (i + 1) * PACKET_SIZE ≤ MAX_BATCH_SIZE * PACKET_SIZE :=
    Nat.mul_le_mul_right PACKET_SIZE hi
  rw [Nat.add_mul, Nat.one_mul] at hslot
  rw [h.bufferPool]
  omega

theorem Layout.reinit (h : b.Layout) {size : Nat} (hsize : size ≤ MAX_BATCH_SIZE) :
    (b.reinit size).Layout := by
  refine ⟨h.bufferPool, ?_, h.addrs⟩
  simp only [BatchIo.reinit, List.length_append, List.length_replicate, List.length_drop, h.msgLens]
  omega

theorem Layout.receive (h : b.Layout) (hi : i < MAX_BATCH_SIZE) (d : Datagram) :
    (b.receive i d).Layout := by
  refine ⟨?_, ?_, ?_⟩
  · simp only [BatchIo.receive]
    rw [length_writeAt (h.fits hi (List.length_take_le _ _)), h.bufferPool]
  · simp only [BatchIo.receive, List.length_set, h.msgLens]
  · simp only [BatchIo.receive, List.length_set, h.addrs]

theorem holdsAt_receive (h : b.Layout) (hi : i < MAX_BATCH_SIZE) (d : Datagram) :
    (b.receive i d).HoldsAt i d := by
  refine ⟨?_, ?_, ?_⟩
  · simp only [receive, List.length_take]
    rw [List.getElem?_set_self (by rw [h.msgLens]; exact hi)]
  · simp only [receive]
    rw [List.getElem?_set_self (by rw [h.addrs]; exact hi)]
  · exact slot_writeAt (h.fits hi (List.length_take_le _ _))

/-- The datagrams of the other slots stay. -/
theorem HoldsAt.receive {j : Nat} {d' : Datagram} (h : b.HoldsAt j d') (hb : b.Layout)
    (hi : i < MAX_BATCH_SIZE) (hne : j ≠ i) (d : Datagram) : (b.receive i d).HoldsAt j d' := by
  refine ⟨?_, ?_, ?_⟩
  · simp only [BatchIo.receive]
    rw [List.getElem?_set_ne hne.symm, h.len]
  · simp only [BatchIo.receive]
    rw [List.getElem?_set_ne hne.symm, h.addr]
  · simp only [BatchIo.receive]
    rw [slot_writeAt_of_ne (hb.fits hi (List.length_take_le _ _)) (List.length_take_le _ _)
      (List.length_take_le _ _) hne, h.data]

theorem Layout.fill (h : b.Layout) {ds : List Datagram} (hds : i + ds.length ≤ MAX_BATCH_SIZE) :
    (b.fill i ds).Layout := by
  induction ds generalizing b i with
  | nil => exact h
  | cons d ds ih =>
    rw [List.length_cons] at hds
    exact ih (h.receive (by omega) d) (by omega)

theorem HoldsAt.fill {j : Nat} {d : Datagram} (h : b.HoldsAt j d) (hb : b.Layout) (hj : j < i)
    {ds : List Datagram} (hds : i + ds.length ≤ MAX_BATCH_SIZE) : (b.fill i ds).HoldsAt j d := by
  induction ds generalizing b i with
  | nil => exact h
  | cons d' ds ih =>
    rw [List.length_cons] at hds
    have hi : i < MAX_BATCH_SIZE := by omega
    exact ih (h.receive hb hi (by omega) d') (hb.receive hi d') (by omega) (by omega)

/-- **Every datagram of a batch is in the slot of its index.** -/
theorem holdsAt_fill (hb : b.Layout) {ds : List Datagram} (hds : i + ds.length ≤ MAX_BATCH_SIZE)
    {k : Nat} {d : Datagram} (hk : ds[k]? = some d) : (b.fill i ds).HoldsAt (i + k) d := by
  induction ds generalizing b i k with
  | nil => simp at hk
  | cons d' ds ih =>
    rw [List.length_cons] at hds
    have hi : i < MAX_BATCH_SIZE := by omega
    cases k with
    | zero =>
      obtain rfl : d' = d := by simpa using hk
      exact (holdsAt_receive hb hi d').fill (hb.receive hi d') (Nat.lt_succ_self i) (by omega)
    | succ k =>
      have hk' : ds[k]? = some d := by simpa using hk
      have hrest := ih (i := i + 1) (hb.receive hi d') (by omega) hk'
      rwa [Nat.add_assoc, Nat.add_comm 1 k] at hrest

/-- What is read of a slot. -/
theorem HoldsAt.getPacket {d : Datagram} (h : b.HoldsAt i d) (hb : b.Layout)
    (hi : i < MAX_BATCH_SIZE) : b.getPacket i = .ok d.read := by
  have hempty : (d.data.take PACKET_SIZE).length = 0 ↔ d.data = [] := by
    rw [List.length_take, ← List.length_eq_zero_iff]
    unfold PACKET_SIZE
    omega
  have hdata := h.data
  unfold slot at hdata
  unfold BatchIo.getPacket Datagram.read
  rw [h.len, h.addr]
  simp only [hempty]
  split
  · rfl
  · rw [sliceChecked_eq (Nat.le_add_right _ _) (hb.fits hi (List.length_take_le _ _)),
      Nat.add_sub_cancel_left, hdata]

/-! ## A run of the receiver -/

inductive RxEvent where
  | recv (res : Except Int (List Datagram))
  | tune (currentQps : Nat)

def step (b : BatchIo) : RxEvent → BatchIo
  | .recv res => (b.recvBatch res).1
  | .tune currentQps => b.autoTuneBatchSize currentQps

theorem currentBatchSize_bounds (b : BatchIo) :
    MIN_BATCH_SIZE ≤ b.currentBatchSize ∧ b.currentBatchSize ≤ MAX_BATCH_SIZE := by
  unfold currentBatchSize MIN_BATCH_SIZE MAX_BATCH_SIZE
  omega

theorem Layout.recvBatch (h : b.Layout) (res : Except Int (List Datagram)) :
    (b.recvBatch res).1.Layout := by
  have hsize := b.currentBatchSize_bounds.2
  have hb := h.reinit hsize
  unfold BatchIo.recvBatch
  cases res with
  | error e => exact hb
  | ok datagrams =>
    have htake := List.length_take_le b.currentBatchSize datagrams
    exact hb.fill (by omega)

theorem Layout.step (h : b.Layout) (e : RxEvent) : (b.step e).Layout := by
  cases e with
  | recv res => exact h.recvBatch res
  | tune currentQps => exact ⟨h.bufferPool, h.msgLens, h.addrs⟩

/-- The receiver after the events `es`, taken in order. -/
def received (es : List RxEvent) : BatchIo := run step new es

theorem layout_received (es : List RxEvent) : (received es).Layout := by
  have hstep : ∀ (b : BatchIo) (e : RxEvent), b.Layout → (b.step e).Layout := fun _ e h => h.step e
  have hrun := invariant_run hstep layout_new es
  exact hrun

/-- The packets of a batch, read in order. -/
def packets (b : BatchIo) (count : Nat) : List (Except Fault (Option Packet)) :=
  (List.range count).map b.getPacket

/-- Reading a batch back. -/
theorem packets_recvBatch (h : b.Layout) (datagrams : List Datagram) :
    (b.recvBatch (.ok datagrams)).1.packets (min b.currentBatchSize datagrams.length) =
      (datagrams.take b.currentBatchSize).map fun d => .ok d.read := by
  have hsize := b.currentBatchSize_bounds.2
  have hb := h.reinit hsize
  have htake := List.length_take_le b.currentBatchSize datagrams
  unfold packets BatchIo.recvBatch
  refine List.ext_getElem? fun k => ?_
  rw [List.getElem?_map, List.getElem?_map]
  cases hk : (datagrams.take b.currentBatchSize)[k]? with
  | none =>
    rw [List.getElem?_eq_none_iff, List.length_take] at hk
    rw [List.getElem?_eq_none (by rwa [List.length_range])]
    rfl
  | some d =>
    have hlt : k < min b.currentBatchSize datagrams.length := by
      rw [← List.length_take]
      exact List.getElem?_eq_some_iff.mp hk |>.choose
    have hholds := holdsAt_fill (i := 0) hb (by omega) hk
    rw [Nat.zero_add] at hholds
    rw [List.getElem?_range hlt]
    exact congrArg some (hholds.getPacket (hb.fill (by omega)) (by omega))

/-- **The packets of a batch are the datagrams in order, cut to 4096 bytes**, whatever was received
before; of an empty one and of one whose address is not of IP there is none. -/
theorem batch_reads_back (es : List RxEvent) (datagrams : List Datagram) (currentQps : Nat) :
    let b := received es
    (b.recvBatch (.ok datagrams)).2 = .ok (min b.currentBatchSize datagrams.length) ∧
      (MIN_BATCH_SIZE ≤ b.currentBatchSize ∧ b.currentBatchSize ≤ MAX_BATCH_SIZE) ∧
      (((b.recvBatch (.ok datagrams)).1.autoTuneBatchSize currentQps).packets
          (min b.currentBatchSize datagrams.length)) =
        (datagrams.take b.currentBatchSize).map fun d => .ok d.read :=
  ⟨rfl, currentBatchSize_bounds _, packets_recvBatch (layout_received es) datagrams⟩

end BatchIo

end TitanDns
