import GooseOs.Kernel.Platform
import GooseOs.Kernel.Virtio
import GooseOs.Lib.Mmio
import Mathlib.Data.List.FinRange

/-!
`virtio.rs`: the registers of the virtio-net device. Discovery, negotiation and interrupt acknowledgement, and the
notifications around the virtqueues.
-/

namespace GooseOs.Virtio
open Mmio

/-- The 32-bit registers the driver uses. -/
inductive Register where
  | magic | version | deviceId | devFeatures | devFeaturesSel | drvFeatures | drvFeaturesSel
  | queueSel | queueNumMax | queueNum | queueReady | queueNotify | irqStatus | irqAck | status
  | queueDescLow | queueDescHigh | queueAvailLow | queueAvailHigh | queueUsedLow | queueUsedHigh
  deriving DecidableEq

/-- `VIRTIO_MMIO_*` -/
def Register.offset : Register → Nat
  | .magic => 0x000
  | .version => 0x004
  | .deviceId => 0x008
  | .devFeatures => 0x010
  | .devFeaturesSel => 0x014
  | .drvFeatures => 0x020
  | .drvFeaturesSel => 0x024
  | .queueSel => 0x030
  | .queueNumMax => 0x034
  | .queueNum => 0x038
  | .queueReady => 0x044
  | .queueNotify => 0x050
  | .irqStatus => 0x060
  | .irqAck => 0x064
  | .status => 0x070
  | .queueDescLow => 0x080
  | .queueDescHigh => 0x084
  | .queueAvailLow => 0x090
  | .queueAvailHigh => 0x094
  | .queueUsedLow => 0x0A0
  | .queueUsedHigh => 0x0A4

/-- A register of the slot at `base`, or byte `i` of its configuration space. -/
inductive Port where
  | register (base : Nat) (r : Register)
  | config (base i : Nat)

def Port.address : Port → Nat
  | .register base r => base + r.offset
  | .config base i => base + 0x100 + i

def Port.Value : Port → Type
  | .register .. => BitVec 32
  | .config .. => Byte

abbrev statusAck : BitVec 32 := 1
abbrev statusDriver : BitVec 32 := 2
abbrev statusDriverOk : BitVec 32 := 4
abbrev statusFeaturesOk : BitVec 32 := 8
abbrev statusFailed : BitVec 32 := 128

abbrev virtioMagic : BitVec 32 := 0x74726976

abbrev virtioNetFMac : BitVec 32 := 1 <<< 5
abbrev virtioNetFStatus : BitVec 32 := 1 <<< 16
abbrev virtioFVersion1 : BitVec 32 := 1 <<< 0

/-- `VIRTIO_DEV_NET` and `VIRTIO_IRQ_BASE` of `platform.rs`. -/
abbrev virtioDevNet : BitVec 32 := 1
abbrev virtioIrqBase : Nat := 1

/-- Where a virtqueue lies. -/
structure RingAddrs where
  desc : Word
  avail : Word
  used : Word

/-- The statics of the driver. -/
structure Statics where
  net : VirtioNet
  rxRings : RingAddrs
  txRings : RingAddrs
  base : Nat := 0
  irq : Nat := 0
  mac : FixedArray 6 Byte := fun _ => 0
  /-- `VIRTIO_NET_READY` -/
  ready : Bool := false
  /-- `VIRTIO_NET_IRQ` -/
  netIrq : Nat := 0

abbrev Code (α : Type) := Driver Port Port.Value DriverError Statics α

section Registers
variable (d : Responder Port Port.Value)

def read32 (r : Register) : Code (BitVec 32) := do
  let s ← own
  read d (.register s.base r)

def write32 (r : Register) (val : BitVec 32) : Code Unit := do
  let s ← own
  write (.register s.base r) val

/-! ### Discovery -/

def probe (base : Nat) : Code Bool := do
  let magic : BitVec 32 ← read d (.register base .magic)
  if magic ≠ virtioMagic then return false
  else
    let version : BitVec 32 ← read d (.register base .version)
    if version ≠ 2 then return false
    else
      let deviceId : BitVec 32 ← read d (.register base .deviceId)
      return decide (deviceId = virtioDevNet)

def slotBase (slot : Nat) : Nat := virtioMmioBase + slot * virtioMmioStride

/-- One slot of `probe_all`, which prints the identification of every slot. -/
def probeSlot (found : Option (Nat × Nat)) (slot : Nat) : Code (Option (Nat × Nat)) := do
  let base := slotBase slot
  let _ ← read d (.register base .magic)
  let _ ← read d (.register base .version)
  let _ ← read d (.register base .deviceId)
  if found.isSome then return found
  else if ← probe d base then
    let irq := virtioIrqBase + slot
    update fun s => { s with base, irq, netIrq := irq }
    return some (slot, irq)
  else return none

def probeAll : Code (Option (Nat × Nat)) := (List.range virtioMmioSlots).foldlM (probeSlot d) none

/-! ### Initialisation -/

/-- Reset the device and tell it that a driver is there. -/
def acknowledge : Code Unit := do
  write32 .status 0
  write32 .status statusAck
  write32 .status (statusAck ||| statusDriver)

/-- Read what the device offers and accept what the driver wants of it. The low features are returned. -/
def negotiate : Code (BitVec 32) := do
  write32 .devFeaturesSel 0
  let featuresLo ← read32 d .devFeatures
  write32 .devFeaturesSel 1
  let featuresHi ← read32 d .devFeatures
  write32 .drvFeaturesSel 0
  write32 .drvFeatures (featuresLo &&& (virtioNetFMac ||| virtioNetFStatus))
  write32 .drvFeaturesSel 1
  write32 .drvFeatures (featuresHi &&& virtioFVersion1)
  return featuresLo

/-- Set FEATURES_OK and see whether the device keeps it. -/
def confirm : Code Unit := do
  write32 .status (statusAck ||| statusDriver ||| statusFeaturesOk)
  let status ← read32 d .status
  if status &&& statusFeaturesOk = 0 then
    write32 .status statusFailed
    fail .initFailed
  else return ()

def readMac (featuresLo : BitVec 32) : Code Unit :=
  if featuresLo &&& virtioNetFMac ≠ 0 then
    (List.finRange 6).forM fun i => do
      let s ← own
      let b : Byte ← read d (.config s.base i)
      update fun s => { s with mac := Function.update s.mac i b }
  else update fun s => { s with mac := .ofList 0 [0x52, 0x54, 0x00, 0x12, 0x34, 0x56] }

/-- Tell the device where the selected queue lies. -/
def placeQueue (rings : RingAddrs) : Code Unit := do
  write32 .queueDescLow (rings.desc.setWidth 32)
  write32 .queueDescHigh ((rings.desc >>> 32).setWidth 32)
  write32 .queueAvailLow (rings.avail.setWidth 32)
  write32 .queueAvailHigh ((rings.avail >>> 32).setWidth 32)
  write32 .queueUsedLow (rings.used.setWidth 32)
  write32 .queueUsedHigh ((rings.used >>> 32).setWidth 32)

/-- `setup_queue`. A device that offers fewer entries than `QUEUE_SIZE` is told `QUEUE_SIZE` all the same. -/
def setupQueue (queueIdx : BitVec 32) : Code Unit := do
  write32 .queueSel queueIdx
  let max ← read32 d .queueNumMax
  if max = 0 then return ()
  else
    write32 .queueNum (BitVec.ofNat 32 queueSize)
    let s ← own
    placeQueue (if queueIdx = 0 then s.rxRings else s.txRings)
    write32 .queueReady 1

/-- `populate_rx_queue` with its notification, which precedes DRIVER_OK. -/
def provideBuffers : Code Unit := do
  update fun s => { s with net := s.net.populateRxQueue }
  write32 .queueSel 0
  write32 .queueNotify 0

/-- Set DRIVER_OK. -/
def goLive : Code Unit := do
  write32 .status (statusAck ||| statusDriver ||| statusFeaturesOk ||| statusDriverOk)
  update fun s => { s with net := { s.net with initialized := true } }

def init : Code Unit := do
  let s ← own
  if s.base = 0 then fail .notFound
  else
    acknowledge
    let featuresLo ← negotiate d
    confirm d
    readMac d featuresLo
    setupQueue d 0
    setupQueue d 1
    provideBuffers
    goLive

def initDevice : Code Unit := do
  init d
  update fun s => { s with ready := true }

/-! ### Service -/

/-- `handle_interrupt` -/
def handleInterrupt : Code Unit := do
  let irqStatus ← read32 d .irqStatus
  write32 .irqAck irqStatus
  update fun s => { s with net := s.net.reclaimTx }

end Registers

/-- `transmit` with its notification. -/
def transmitNotify (data : List Byte) : Code Unit := do
  let s ← own
  match s.net.transmit data with
  | (.ok (), net) =>
    update fun s => { s with net }
    write32 .queueNotify 1
  | (.error e, net) =>
    update fun s => { s with net }
    fail e

/-- `receive` with its notification. -/
def receiveNotify (room : Nat) : Code (List Byte) := do
  let s ← own
  match s.net.receive room with
  | .ok (.ok frame, net) =>
    update fun s => { s with net }
    write32 .queueNotify 0
    return frame
  | .ok (.error e, net) =>
    update fun s => { s with net }
    fail e
  | .error _ => fault

def VirtioNet.canTransmit (v : VirtioNet) : Bool := v.initialized && v.txFreeMask != 0

def VirtioNet.canReceive (v : VirtioNet) : Bool := v.initialized && v.rx.usedIdx != v.rx.lastUsed

end GooseOs.Virtio
