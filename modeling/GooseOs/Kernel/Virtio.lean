import GooseOs.Lib.Bytes
import GooseOs.Lib.RingBuffer
import GooseOs.Kernel.Process

/-!
`virtio.rs`: the virtqueues of the virtio-net driver. Device memory is what the rings and the buffers hold; the
registers are in `VirtioMmio`.
-/

namespace GooseOs
namespace Virtio

abbrev rxBufferCount : Nat := 32
abbrev txBufferCount : Nat := 16
abbrev packetSize : Nat := 1514
abbrev virtioNetHdrSize : Nat := 12
abbrev bufSize : Nat := packetSize + virtioNetHdrSize
abbrev queueSize : Nat := 64

abbrev vringDescFWrite : BitVec 16 := 2

/-- `DriverError` of `driver.rs`. -/
inductive DriverError where
  | notFound
  | initFailed
  | notReady
  | bufferFull
  | bufferEmpty
  | invalidState
  deriving DecidableEq

structure VirtqDesc where
  addr : Word := 0
  len : BitVec 32 := 0
  flags : BitVec 16 := 0
  next : BitVec 16 := 0
  deriving DecidableEq

structure VirtqUsedElem where
  id : BitVec 32 := 0
  len : BitVec 32 := 0
  deriving DecidableEq

structure VirtioNetHdr where
  flags : BitVec 8 := 0
  gsoType : BitVec 8 := 0
  hdrLen : BitVec 16 := 0
  gsoSize : BitVec 16 := 0
  csumStart : BitVec 16 := 0
  csumOffset : BitVec 16 := 0
  numBuffers : BitVec 16 := 0

/-- The bytes of a little-endian `u16` field. -/
def bytes16 (v : BitVec 16) : List Byte := [v.extractLsb' 0 8, v.extractLsb' 8 8]

/-- The `repr(C)` bytes of the header. -/
def VirtioNetHdr.bytes (h : VirtioNetHdr) : List Byte :=
  [h.flags, h.gsoType] ++ bytes16 h.hdrLen ++ bytes16 h.gsoSize ++ bytes16 h.csumStart ++ bytes16 h.csumOffset ++
    bytes16 h.numBuffers

/-- One virtqueue: `*_desc`, `*_avail`, `*_used` and `*_last_used`. -/
structure Virtq where
  desc : Nat → VirtqDesc := fun _ => {}
  availIdx : BitVec 16 := 0
  availRing : Nat → BitVec 16 := fun _ => 0
  usedIdx : BitVec 16 := 0
  usedRing : Nat → VirtqUsedElem := fun _ => {}
  lastUsed : BitVec 16 := 0

/-- The driver's state. A buffer is indexed by its offsets below `bufSize`. -/
structure VirtioNet where
  initialized : Bool := false
  rx : Virtq := {}
  tx : Virtq := {}
  rxBuffers : Nat → Memory := fun _ _ => 0
  txBuffers : Nat → Memory := fun _ _ => 0
  txFreeMask : BitVec 16 := 0xFFFF
  /-- The addresses of the buffers, which are parts of one static. -/
  rxPa : Nat → Word
  txPa : Nat → Word

/-- The bytes `buf[start..start + len]`. -/
def slice (buf : Memory) (start len : Nat) : List Byte := (List.range len).map fun i => buf (start + i)

namespace VirtioNet

/-! ### TX -/

/-- One iteration of the loop of `reclaim_tx`, or its `break`. -/
def reclaimTxStep (v : VirtioNet) : Option VirtioNet :=
  let usedIdx := v.tx.usedIdx
  if v.tx.lastUsed = usedIdx then none
  else
    let elem := v.tx.usedRing (RingBuffer.cell queueSize v.tx.lastUsed)
    let descIdx := elem.id.toNat
    some { v with
      txFreeMask := if descIdx < txBufferCount then v.txFreeMask ||| ((1 : BitVec 16) <<< descIdx) else v.txFreeMask
      tx := { v.tx with lastUsed := v.tx.lastUsed + 1 } }

def reclaimTxLoop : Nat → VirtioNet → VirtioNet
  | 0, v => v
  | fuel + 1, v =>
    match v.reclaimTxStep with
    | none => v
    | some v' => reclaimTxLoop fuel v'

/-- `reclaim_tx`, which catches up with the used index. -/
def reclaimTx (v : VirtioNet) : VirtioNet := reclaimTxLoop (v.tx.usedIdx - v.tx.lastUsed).toNat v

/-- The checks of `transmit` before it reclaims. -/
def transmitRefused (data : List Byte) (v : VirtioNet) : Option DriverError :=
  if !v.initialized then some .notReady
  else if data.length > packetSize then some .bufferFull
  else none

/-- `transmit` once it has reclaimed: a free buffer is claimed, filled and entered in the available ring. -/
def transmitFill (data : List Byte) (v : VirtioNet) : Option (Nat × VirtioNet) :=
  if v.txFreeMask = 0 then none
  else
    let bufIdx := v.txFreeMask.ctz.toNat
    let hdr : VirtioNetHdr := {}
    let buffer := ((v.txBuffers bufIdx).writeBytes 0 hdr.bytes).writeBytes virtioNetHdrSize data
    let totalLen := virtioNetHdrSize + data.length
    some (bufIdx, { v with
      txFreeMask := v.txFreeMask &&& ~~~((1 : BitVec 16) <<< bufIdx)
      txBuffers := Function.update v.txBuffers bufIdx buffer
      tx := { v.tx with
        desc := Function.update v.tx.desc bufIdx { addr := v.txPa bufIdx, len := BitVec.ofNat 32 totalLen }
        availRing := Function.update v.tx.availRing (RingBuffer.cell queueSize v.tx.availIdx) (BitVec.ofNat 16 bufIdx) } })

/-- The descriptor is offered when the available index moves past it. -/
def transmitPublish (v : VirtioNet) : VirtioNet := { v with tx := { v.tx with availIdx := v.tx.availIdx + 1 } }

/-- `transmit` -/
def transmit (data : List Byte) (v : VirtioNet) : Except DriverError Unit × VirtioNet :=
  match v.transmitRefused data with
  | some error => (.error error, v)
  | none =>
    match transmitFill data v.reclaimTx with
    | none => (.error .bufferFull, v.reclaimTx)
    | some (_, v') => (.ok (), v'.transmitPublish)

/-! ### RX -/

/-- Enter a buffer in the RX descriptor table and the available ring. -/
def provideRx (v : VirtioNet) (i : Nat) : VirtioNet :=
  { v with
    rx := { v.rx with
      desc := Function.update v.rx.desc i { addr := v.rxPa i, len := BitVec.ofNat 32 bufSize, flags := vringDescFWrite }
      availRing := Function.update v.rx.availRing (RingBuffer.cell queueSize v.rx.availIdx) (BitVec.ofNat 16 i) } }

def publishRx (v : VirtioNet) : VirtioNet := { v with rx := { v.rx with availIdx := v.rx.availIdx + 1 } }

/-- `populate_rx_queue` -/
def populateRxQueue (v : VirtioNet) : VirtioNet :=
  (List.range rxBufferCount).foldl (fun v i => (v.provideRx i).publishRx) v

/-- The checks of `receive`: the driver is ready and a used element is waiting. -/
def receiveRefused (v : VirtioNet) : Option DriverError :=
  if !v.initialized then some .notReady
  else if v.rx.lastUsed = v.rx.usedIdx then some .bufferEmpty
  else none

/-- `receive` on the next used element, for a caller's buffer of `room` bytes: the frame copied out, unless the
element is rejected. -/
def receiveElem (room : Nat) (v : VirtioNet) : Result (Option (Nat × List Byte) × VirtioNet) :=
  let elem := v.rx.usedRing (RingBuffer.cell queueSize v.rx.lastUsed)
  let descIdx := elem.id.toNat
  let totalLen := elem.len.toNat
  if descIdx ≥ rxBufferCount ∨ totalLen ≤ virtioNetHdrSize then
    .ok (none, { v with rx := { v.rx with lastUsed := v.rx.lastUsed + 1 } })
  else
    let dataLen := totalLen - virtioNetHdrSize
    let copyLen := min dataLen room
    if copyLen ≤ room ∧ virtioNetHdrSize + copyLen ≤ bufSize then
      .ok (some (descIdx, slice (v.rxBuffers descIdx) virtioNetHdrSize copyLen),
        { v with rx := { v.rx with lastUsed := v.rx.lastUsed + 1 } }.provideRx descIdx)
    else .error .sliceOutOfRange

/-- `receive` -/
def receive (room : Nat) (v : VirtioNet) : Result (Except DriverError (List Byte) × VirtioNet) :=
  match v.receiveRefused with
  | some error => .ok (.error error, v)
  | none => do
    match ← v.receiveElem room with
    | (none, v') => .ok (.error .invalidState, v')
    | (some (_, frame), v') => .ok (.ok frame, v'.publishRx)

end VirtioNet

/-! ### The device -/

/-- The device's side of a queue: the next available entry to take, and the descriptors it holds. -/
structure Device where
  next : BitVec 16 := 0
  held : List (BitVec 16) := []

/-- The device takes the next available entry. -/
def Device.take (d : Device) (q : Virtq) : Device where
  next := d.next + 1
  held := d.held ++ [q.availRing (RingBuffer.cell queueSize d.next)]

def Device.drop (d : Device) (i : BitVec 16) : Device := { d with held := d.held.erase i }

/-- The device returns a descriptor through the used ring. -/
def Virtq.give (q : Virtq) (i : BitVec 16) (len : BitVec 32) : Virtq :=
  { q with
    usedRing := Function.update q.usedRing (RingBuffer.cell queueSize q.usedIdx) { id := i.setWidth 32, len := len }
    usedIdx := q.usedIdx + 1 }

end Virtio
end GooseOs
