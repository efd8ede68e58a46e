import GooseOs.Kernel.VirtioMmio
import GooseOs.Virtio.Receive
import GooseOs.Virtio.Transmit

/-!
What the driver may do to its device's registers, as a protocol: the status bits in their order, no feature that was
not offered, no queue before its place is known, and an interrupt acknowledged with what was read. The driver keeps
to it whatever the device answers, from the first probe on.
-/

namespace GooseOs.Virtio
open Mmio

/-! ### The protocol -/

/-- How far a device is. It is `verified` once it has kept FEATURES_OK, and `refused` if it has not. -/
inductive Stage where
  | unknown | reset | acknowledged | driver | offered | verified | refused | failed | live
  deriving DecidableEq

/-- What a device has been told of a queue, and the size it offered. -/
structure QueueSetup where
  max : BitVec 32 := 0
  num : BitVec 32 := 0
  word : Register → Option (BitVec 32) := fun _ => none
  ready : Bool := false

/-- The six registers that place a queue. -/
def Register.places : Register → Bool
  | .queueDescLow | .queueDescHigh | .queueAvailLow | .queueAvailHigh | .queueUsedLow | .queueUsedHigh => true
  | _ => false

def QueueSetup.address (q : QueueSetup) (low high : Register) : Option Word := do
  let l ← q.word low
  let h ← q.word high
  return h.setWidth 64 <<< 32 ||| l.setWidth 64

/-- The addresses of descriptors, available and used ring, once all are known. -/
def QueueSetup.placed (q : QueueSetup) : Option RingAddrs := do
  let desc ← q.address .queueDescLow .queueDescHigh
  let avail ← q.address .queueAvailLow .queueAvailHigh
  let used ← q.address .queueUsedLow .queueUsedHigh
  return ⟨desc, avail, used⟩

/-- The state of the protocol. -/
structure Link where
  stage : Stage := .unknown
  devSel : BitVec 32 := 0
  drvSel : BitVec 32 := 0
  offered : BitVec 32 → Option (BitVec 32) := fun _ => none
  accepted : BitVec 32 → Option (BitVec 32) := fun _ => none
  queueSel : BitVec 32 := 0
  queues : BitVec 32 → QueueSetup := fun _ => {}
  notified : BitVec 32 → Nat := fun _ => 0
  /-- The interrupt status that was read and not acknowledged. -/
  pending : Option (BitVec 32) := none

namespace Link
variable (m : Link)

/-- The queue that is selected. -/
def queue : QueueSetup := m.queues m.queueSel

def setQueue (q : QueueSetup) : Link := { m with queues := Function.update m.queues m.queueSel q }

def writeStatus (v : BitVec 32) : Option Link :=
  if v = 0 then some { stage := .reset }
  else match m.stage with
    | .reset => if v = statusAck then some { m with stage := .acknowledged } else none
    | .acknowledged => if v = statusAck ||| statusDriver then some { m with stage := .driver } else none
    | .driver =>
      if v = statusAck ||| statusDriver ||| statusFeaturesOk ∧ (m.accepted 0).isSome ∧ (m.accepted 1).isSome then
        some { m with stage := .offered }
      else none
    | .refused => if v = statusFailed then some { m with stage := .failed } else none
    | .verified =>
      if v = statusAck ||| statusDriver ||| statusFeaturesOk ||| statusDriverOk then some { m with stage := .live } else none
    | _ => none

/-- A write to a register. -/
def write (v : BitVec 32) : Register → Option Link
  | .status => m.writeStatus v
  | .devFeaturesSel => if m.stage = .driver then some { m with devSel := v } else none
  | .drvFeaturesSel => if m.stage = .driver then some { m with drvSel := v } else none
  | .drvFeatures =>
    if m.stage = .driver ∧ ∃ o ∈ m.offered m.drvSel, v &&& ~~~o = 0 then
      some { m with accepted := Function.update m.accepted m.drvSel (some v) }
    else none
  | .queueSel => if m.stage = .verified then some { m with queueSel := v } else none
  | .queueNum =>
    if m.stage = .verified ∧ m.queue.max ≠ 0 ∧ m.queue.ready = false then some (m.setQueue { m.queue with num := v }) else none
  | .queueReady =>
    if m.stage = .verified ∧ v = 1 ∧ m.queue.num ≠ 0 ∧ m.queue.placed.isSome then
      some (m.setQueue { m.queue with ready := true })
    else none
  | .queueNotify =>
    if m.stage = .verified ∨ m.stage = .live then
      some { m with notified := Function.update m.notified v (m.notified v + 1) }
    else none
  | .irqAck => if m.stage = .live ∧ m.pending = some v then some { m with pending := none } else none
  | r =>
    if r.places ∧ m.stage = .verified ∧ m.queue.num ≠ 0 ∧ m.queue.ready = false then
      some (m.setQueue { m.queue with word := Function.update m.queue.word r (some v) })
    else none

/-- A read of a register that is answered by `v`. -/
def read (v : BitVec 32) : Register → Option Link
  | .devFeatures =>
    if m.stage = .driver then some { m with offered := Function.update m.offered m.devSel (some v) } else none
  | .status =>
    if m.stage = .offered then
      some { m with stage := if v &&& statusFeaturesOk = 0 then .refused else .verified }
    else none
  | .queueNumMax => if m.stage = .verified then some (m.setQueue { m.queue with max := v }) else none
  | .irqStatus => if m.stage = .live then some { m with pending := some v } else none
  | _ => none

end Link

/-- Slots are identified before anything is written; then all accesses go to the slot at `base`. -/
def protocol (base : Nat) : Protocol Port Port.Value Link := fun m x =>
  match x with
  | .read (.register b r) v =>
    if m.stage = .unknown then if r = .magic ∨ r = .version ∨ r = .deviceId then some m else none
    else if b = base then m.read v r
    else none
  | .read (.config b _) _ =>
    if b = base ∧ m.stage = .verified ∧ ∃ o ∈ m.accepted 0, o &&& virtioNetFMac ≠ 0 then some m else none
  | .write (.register b r) v => if b = base then m.write v r else none
  | .write (.config _ _) _ => none

section Rules
variable {d : Responder Port Port.Value} {base : Nat} {reg : Register} {m m' : Link} {s : Statics}
  {E : Stop DriverError → Link → Statics → Prop}

theorem keeps_write32 {v : BitVec 32} {Q : Unit → Link → Statics → Prop} (here : s.base = base)
    (allowed : m.write v reg = some m') (returned : Q () m' s) : Keeps (protocol base) (write32 reg v) Q E m s := by
  refine keeps_bind (keeps_own (keeps_write ?_ returned))
  exact (if_pos here).trans allowed

theorem keeps_read32 {Q : BitVec 32 → Link → Statics → Prop} (here : s.base = base) (known : m.stage ≠ .unknown)
    (allowed : ∀ v, ∃ m', m.read v reg = some m' ∧ Q v m' s) : Keeps (protocol base) (read32 d reg) Q E m s := by
  refine keeps_bind (keeps_own (keeps_read fun v => ?_))
  obtain ⟨m', step, returned⟩ := allowed v
  exact ⟨m', (if_neg known).trans ((if_pos here).trans step), returned⟩

/-- Identification tells nothing. -/
theorem keeps_identify {b : Nat} {Q : BitVec 32 → Link → Statics → Prop} (unknown : m.stage = .unknown)
    (identifies : reg = .magic ∨ reg = .version ∨ reg = .deviceId) (returned : ∀ v : BitVec 32, Q v m s) :
    Keeps (protocol base) (Mmio.read d (.register b reg)) Q E m s :=
  keeps_read fun v => ⟨m, (if_pos unknown).trans (if_pos identifies), returned v⟩

end Rules

/-! ### Discovery -/

section Discovery
variable {d : Responder Port Port.Value} {base : Nat} {s : Statics} {E : Stop DriverError → Link → Statics → Prop}

theorem probe_keeps {b : Nat} {Q : Bool → Link → Statics → Prop} (returned : ∀ present, Q present {} s) :
    Keeps (protocol base) (probe d b) Q E {} s := by
  refine keeps_bind (keeps_identify rfl (.inl rfl) fun magic => ?_)
  split
  · exact keeps_pure (returned _)
  · refine keeps_bind (keeps_identify rfl (.inr (.inl rfl)) fun version => ?_)
    split
    · exact keeps_pure (returned _)
    · exact keeps_bind (keeps_identify rfl (.inr (.inr rfl)) fun deviceId => keeps_pure (returned _))

/-- Where the driver has found its device. -/
structure Found (s₀ s : Statics) (slot : Nat) : Prop where
  small : slot < virtioMmioSlots
  statics : s = { s₀ with base := slotBase slot, irq := virtioIrqBase + slot, netIrq := virtioIrqBase + slot }

/-- Nothing is found yet, or the device in a slot. -/
def Searched (s₀ : Statics) (found : Option (Nat × Nat)) (s : Statics) : Prop :=
  match found with
  | none => s = s₀
  | some (slot, irq) => Found s₀ s slot ∧ irq = virtioIrqBase + slot

theorem probeSlot_keeps {s₀ : Statics} {found : Option (Nat × Nat)} {slot : Nat} (small : slot < virtioMmioSlots)
    (searched : Searched s₀ found s) :
    Keeps (protocol base) (probeSlot d found slot) (fun found m t => m = {} ∧ Searched s₀ found t) (fun _ _ _ => False) {} s := by
  refine keeps_bind (keeps_identify rfl (.inl rfl) fun _ => ?_)
  refine keeps_bind (keeps_identify rfl (.inr (.inl rfl)) fun _ => ?_)
  refine keeps_bind (keeps_identify rfl (.inr (.inr rfl)) fun _ => ?_)
  cases found with
  | some found => exact keeps_pure ⟨rfl, searched⟩
  | none =>
    obtain rfl : s = s₀ := searched
    refine keeps_bind (probe_keeps fun present => ?_)
    cases present with
    | false => exact keeps_pure ⟨rfl, rfl⟩
    | true => exact keeps_bind (keeps_update (keeps_pure ⟨rfl, ⟨small, rfl⟩, rfl⟩))

theorem probeAll_keeps {s₀ : Statics} :
    Keeps (protocol base) (probeAll d) (fun found m t => m = {} ∧ Searched s₀ found t) (fun _ _ _ => False) {} s₀ := by
  have slots : ∀ (l : List Nat), (∀ slot ∈ l, slot < virtioMmioSlots) → ∀ found s, Searched s₀ found s →
      Keeps (protocol base) (l.foldlM (probeSlot d) found) (fun found m t => m = {} ∧ Searched s₀ found t)
        (fun _ _ _ => False) {} s := by
    intro l
    induction l with
    | nil => exact fun _ found s searched => keeps_pure ⟨rfl, searched⟩
    | cons slot l ih =>
      intro small found s searched
      rw [List.foldlM_cons]
      refine keeps_bind (keeps_mono (probeSlot_keeps (small slot List.mem_cons_self) searched) ?_ fun _ _ _ => id)
      rintro found m t ⟨rfl, searched⟩
      exact ih (fun slot member => small slot (List.mem_cons_of_mem _ member)) found t searched
  exact slots _ (fun slot member => List.mem_range.mp member) none s₀ rfl

end Discovery

/-! ### Initialisation -/

/-- The features the driver wants, by feature word. -/
def wanted (sel : BitVec 32) : BitVec 32 := if sel = 0 then virtioNetFMac ||| virtioNetFStatus else virtioFVersion1

/-- The link after negotiation. -/
def negotiated (lo hi : BitVec 32) : Link where
  stage := .driver
  devSel := 1
  drvSel := 1
  offered := Function.update (Function.update (fun _ => none) 0 (some lo)) 1 (some hi)
  accepted := Function.update (Function.update (fun _ => none) 0 (some (lo &&& wanted 0))) 1 (some (hi &&& wanted 1))

/-- What a device that offers `max` entries has been told of a queue in the end. -/
def QueueSetup.told (max : BitVec 32) (rings : RingAddrs) : QueueSetup :=
  if max = 0 then {}
  else {
    max, num := BitVec.ofNat 32 queueSize, ready := true
    word := fun
      | .queueDescLow => some (rings.desc.setWidth 32)
      | .queueDescHigh => some ((rings.desc >>> 32).setWidth 32)
      | .queueAvailLow => some (rings.avail.setWidth 32)
      | .queueAvailHigh => some ((rings.avail >>> 32).setWidth 32)
      | .queueUsedLow => some (rings.used.setWidth 32)
      | .queueUsedHigh => some ((rings.used >>> 32).setWidth 32)
      | _ => none }

theorem halves (x : Word) : ((x >>> 32).setWidth 32).setWidth 64 <<< 32 ||| (x.setWidth 32).setWidth 64 = x := by
  apply BitVec.eq_of_getLsbD_eq
  intro i bound
  by_cases low : i < 32
  · simp [low, bound]
  · have high : i - 32 < 32 := by omega
    simp [low, bound, high, show 32 + (i - 32) = i by omega]

/-- A queue is ready at the place of its rings, unless the device has none. -/
theorem QueueSetup.told_placed {max : BitVec 32} (offers : max ≠ 0) (rings : RingAddrs) :
    (QueueSetup.told max rings).ready = true ∧ (QueueSetup.told max rings).num ≠ 0 ∧
      (QueueSetup.told max rings).placed = some rings := by
  unfold told
  rw [if_neg offers]
  refine ⟨rfl, (by decide : BitVec.ofNat 32 queueSize ≠ 0), ?_⟩
  simp [placed, address, halves]

section Init
variable {d : Responder Port Port.Value} {base : Nat} {m : Link} {s : Statics}

theorem acknowledge_keeps {Q : Unit → Link → Statics → Prop} {E : Stop DriverError → Link → Statics → Prop} (here : s.base = base)
    (returned : Q () { stage := .driver } s) : Keeps (protocol base) acknowledge Q E m s := by
  refine keeps_bind (keeps_write32 here rfl ?_)
  refine keeps_bind (keeps_write32 here rfl ?_)
  exact keeps_write32 here rfl returned

theorem negotiate_keeps {Q : BitVec 32 → Link → Statics → Prop} {E : Stop DriverError → Link → Statics → Prop}
    (here : s.base = base) (returned : ∀ lo hi, Q lo (negotiated lo hi) s) :
    Keeps (protocol base) (negotiate d) Q E { stage := .driver } s := by
  have known : Stage.driver ≠ .unknown := by decide
  refine keeps_bind (keeps_write32 here rfl ?_)
  refine keeps_bind (keeps_read32 here known fun lo => ⟨_, rfl, ?_⟩)
  refine keeps_bind (keeps_write32 here rfl ?_)
  refine keeps_bind (keeps_read32 here known fun hi => ⟨_, rfl, ?_⟩)
  refine keeps_bind (keeps_write32 here rfl ?_)
  have first : ∀ o m : BitVec 32, o &&& m &&& ~~~o = 0 := by
    intro o m
    rw [BitVec.and_comm o m, BitVec.and_assoc, BitVec.and_not_self]
    exact BitVec.and_zero
  refine keeps_bind (keeps_write32 here (if_pos ⟨rfl, lo, rfl, first _ _⟩) ?_)
  refine keeps_bind (keeps_write32 here rfl ?_)
  refine keeps_bind (keeps_write32 here (if_pos ⟨rfl, hi, rfl, first _ _⟩) ?_)
  exact keeps_pure (returned lo hi)

theorem confirm_keeps {lo hi : BitVec 32} (here : s.base = base) :
    Keeps (protocol base) (confirm d) (fun _ m t => m = { negotiated lo hi with stage := .verified } ∧ t = s)
      (fun e m t => e = .error .initFailed ∧ m = { negotiated lo hi with stage := .failed } ∧ t = s) (negotiated lo hi) s := by
  refine keeps_bind (keeps_write32 here rfl ?_)
  refine keeps_bind (keeps_read32 here (by decide : Stage.offered ≠ .unknown) fun status => ⟨_, rfl, ?_⟩)
  split
  · exact keeps_bind (keeps_write32 here rfl (keeps_fail ⟨rfl, rfl, rfl⟩))
  · exact keeps_pure ⟨rfl, rfl⟩

theorem readMac_keeps {E : Stop DriverError → Link → Statics → Prop} {lo hi : BitVec 32} (here : s.base = base) :
    Keeps (protocol base) (readMac d lo) (fun _ m t => m = { negotiated lo hi with stage := .verified } ∧
      ∃ mac, t = { s with mac }) E { negotiated lo hi with stage := .verified } s := by
  unfold readMac
  split
  · next offers =>
    have mac : lo &&& wanted 0 &&& virtioNetFMac ≠ 0 := by
      rw [BitVec.and_assoc]
      exact offers
    generalize List.finRange 6 = l
    refine keeps_forM (I := fun _ m t => m = { negotiated lo hi with stage := .verified } ∧ ∃ mac, t = { s with mac }) ?_
      ⟨rfl, s.mac, rfl⟩
    rintro i rest - m t ⟨rfl, mac', rfl⟩
    refine keeps_bind (keeps_own (keeps_bind (keeps_read fun b => ⟨_, if_pos ⟨here, rfl, _, rfl, mac⟩, ?_⟩)))
    exact keeps_update ⟨rfl, _, rfl⟩
  · exact keeps_update ⟨rfl, _, rfl⟩

/-- The link with queue `i` selected and set up to `q`. -/
def Link.select (m : Link) (i : BitVec 32) (q : QueueSetup) : Link :=
  { m with queueSel := i, queues := Function.update m.queues i q }

@[simp] theorem Link.select_queue {i : BitVec 32} {q : QueueSetup} : (m.select i q).queue = q := Function.update_self ..

@[simp] theorem Link.select_setQueue {i : BitVec 32} {q q' : QueueSetup} :
    (m.select i q).setQueue q' = m.select i q' := by
  simp [Link.select, setQueue]

theorem Link.select_places {i v : BitVec 32} {q : QueueSetup} {r : Register} (verified : m.stage = .verified)
    (places : r.places = true) (sized : q.num ≠ 0) (open_ : q.ready = false) :
    (m.select i q).write v r = some (m.select i { q with word := Function.update q.word r (some v) }) := by
  have allowed : r.places ∧ (m.select i q).stage = .verified ∧ (m.select i q).queue.num ≠ 0 ∧
      (m.select i q).queue.ready = false := by
    rw [select_queue]
    exact ⟨places, verified, sized, open_⟩
  cases r with
  | queueDescLow | queueDescHigh | queueAvailLow | queueAvailHigh | queueUsedLow | queueUsedHigh =>
    refine (if_pos allowed).trans ?_
    rw [select_queue, select_setQueue]
  | _ => cases places

theorem placeQueue_keeps {E : Stop DriverError → Link → Statics → Prop} {Q : Unit → Link → Statics → Prop} {i : BitVec 32}
    {max : BitVec 32} {rings : RingAddrs} (here : s.base = base) (verified : m.stage = .verified) (offers : max ≠ 0)
    (returned : Q () (m.select i { QueueSetup.told max rings with ready := false }) s) :
    Keeps (protocol base) (placeQueue rings) Q E (m.select i { max, num := BitVec.ofNat 32 queueSize }) s := by
  have sized : BitVec.ofNat 32 queueSize ≠ 0 := by decide
  refine keeps_bind (keeps_write32 here (Link.select_places verified rfl sized rfl) ?_)
  refine keeps_bind (keeps_write32 here (Link.select_places verified rfl sized rfl) ?_)
  refine keeps_bind (keeps_write32 here (Link.select_places verified rfl sized rfl) ?_)
  refine keeps_bind (keeps_write32 here (Link.select_places verified rfl sized rfl) ?_)
  refine keeps_bind (keeps_write32 here (Link.select_places verified rfl sized rfl) ?_)
  refine keeps_write32 here (Link.select_places verified rfl sized rfl) ?_
  rw [QueueSetup.told, if_neg offers] at returned
  convert returned using 4
  funext r
  cases r <;> simp [Function.update]

/-- The queue that is selected gets its place. -/
theorem setupQueue_keeps {E : Stop DriverError → Link → Statics → Prop} {queueIdx : BitVec 32} (here : s.base = base)
    (verified : m.stage = .verified) (fresh : m.queues queueIdx = {}) :
    Keeps (protocol base) (setupQueue d queueIdx) (fun _ m' t => t = s ∧ ∃ max, m' =
      m.select queueIdx (.told max (if queueIdx = 0 then s.rxRings else s.txRings))) E m s := by
  have selected : m.write queueIdx .queueSel = some (m.select queueIdx {}) := by
    refine (if_pos verified).trans ?_
    rw [Link.select, ← fresh, Function.update_eq_self]
  refine keeps_bind (keeps_write32 here selected ?_)
  have stage : ∀ q, (m.select queueIdx q).stage = .verified := fun _ => verified
  have sized : ∀ max : BitVec 32, (m.select queueIdx {}).read max .queueNumMax = some (m.select queueIdx { max }) := by
    intro max
    simp [Link.read, stage]
  refine keeps_bind (keeps_read32 here (by rw [stage]; decide) fun max => ⟨_, sized max, ?_⟩)
  split
  · next none_ => exact keeps_pure ⟨rfl, max, by rw [QueueSetup.told, if_pos none_, none_]⟩
  · next offers =>
    have numbered : (m.select queueIdx { max }).write (BitVec.ofNat 32 queueSize) .queueNum =
        some (m.select queueIdx { max, num := BitVec.ofNat 32 queueSize }) := by
      refine (if_pos ?_).trans ?_
      · rw [Link.select_queue]
        exact ⟨verified, offers, rfl⟩
      · rw [Link.select_queue, Link.select_setQueue]
    refine keeps_bind (keeps_write32 here numbered ?_)
    refine keeps_bind (keeps_own (keeps_bind (placeQueue_keeps here verified offers ?_)))
    generalize (if queueIdx = 0 then s.rxRings else s.txRings) = rings
    obtain ⟨ready, sized, placed⟩ := QueueSetup.told_placed offers rings
    refine keeps_write32 here ?_ ⟨rfl, max, rfl⟩
    refine (if_pos ?_).trans ?_
    · rw [Link.select_queue]
      exact ⟨verified, rfl, sized, Option.isSome_of_eq_some placed⟩
    · rw [Link.select_queue, Link.select_setQueue, ← ready]

end Init

/-! ### The queues -/

section Queues
variable {v v' : VirtioNet} {data : List Byte}

theorem populate_kept (l : List Nat) :
    (l.foldl (fun v i => (v.provideRx i).publishRx) v).rx.availIdx = v.rx.availIdx + BitVec.ofNat 16 l.length ∧
      (l.foldl (fun v i => (v.provideRx i).publishRx) v).tx = v.tx ∧
      (l.foldl (fun v i => (v.provideRx i).publishRx) v).txFreeMask = v.txFreeMask := by
  induction l generalizing v with
  | nil => simp
  | cons i l ih =>
    obtain ⟨avail, tx, mask⟩ := ih (v := (v.provideRx i).publishRx)
    rw [List.foldl_cons]
    refine ⟨?_, tx, mask⟩
    rw [avail, List.length_cons, Nat.add_comm l.length 1, BitVec.ofNat_add, ← BitVec.add_assoc]
    rfl

theorem populateRxQueue_kept : v.populateRxQueue.rx.availIdx = v.rx.availIdx + BitVec.ofNat 16 rxBufferCount ∧
    v.populateRxQueue.tx = v.tx ∧ v.populateRxQueue.txFreeMask = v.txFreeMask := by
  have kept := populate_kept (v := v) (List.range rxBufferCount)
  rwa [List.length_range] at kept

/-- Reclaiming offers nothing and takes no buffer. -/
structure Reclaims (v v' : VirtioNet) : Prop where
  initialized : v'.initialized = v.initialized
  rx : v'.rx = v.rx
  offered : v'.tx.availIdx = v.tx.availIdx
  free : v.txFreeMask ≠ 0 → v'.txFreeMask ≠ 0

theorem or_ne_zero {x y : BitVec 16} (some_ : x ≠ 0) : x ||| y ≠ 0 := by
  intro zero
  exact some_ (BitVec.or_eq_zero_iff.mp zero).1

theorem reclaimTxLoop_reclaims (fuel : Nat) : Reclaims v (VirtioNet.reclaimTxLoop fuel v) := by
  induction fuel generalizing v with
  | zero => exact ⟨rfl, rfl, rfl, id⟩
  | succ fuel ih =>
    unfold VirtioNet.reclaimTxLoop VirtioNet.reclaimTxStep
    split
    · exact ⟨rfl, rfl, rfl, id⟩
    · next v' used =>
      dsimp only at used
      split at used
      · cases used
      · cases used
        obtain ⟨initialized, rx, offered, free⟩ := ih
        refine ⟨initialized, rx, offered, fun some_ => free ?_⟩
        dsimp only
        split
        · exact or_ne_zero some_
        · exact some_

theorem reclaimTx_reclaims : Reclaims v v.reclaimTx := reclaimTxLoop_reclaims _

/-- A successful `transmit` offers one descriptor more. -/
theorem transmit_ok (sent : v.transmit data = (.ok (), v')) :
    v'.initialized = v.initialized ∧ v'.rx = v.rx ∧ v'.tx.availIdx = v.tx.availIdx + 1 := by
  have reclaims := reclaimTx_reclaims (v := v)
  unfold VirtioNet.transmit VirtioNet.transmitFill at sent
  split at sent
  · cases sent
  · split at sent
    · cases sent
    · next found =>
      split at found
      · cases found
      · cases found
        cases sent
        exact ⟨reclaims.initialized, reclaims.rx, congrArg (· + 1) reclaims.offered⟩

theorem transmit_error {e : DriverError} (refused : v.transmit data = (.error e, v')) :
    v'.initialized = v.initialized ∧ v'.rx = v.rx ∧ v'.tx.availIdx = v.tx.availIdx := by
  have reclaims := reclaimTx_reclaims (v := v)
  unfold VirtioNet.transmit at refused
  split at refused
  · cases refused
    exact ⟨rfl, rfl, rfl⟩
  · split at refused
    · cases refused
      exact ⟨reclaims.initialized, reclaims.rx, reclaims.offered⟩
    · cases refused

theorem transmit_notReady (off : v.initialized = false) : v.transmit data = (.error .notReady, v) := by
  simp [VirtioNet.transmit, VirtioNet.transmitRefused, off]

/-- A frame that fits is sent whenever `can_transmit` says so. -/
theorem transmit_sends (can : v.canTransmit = true) (fits : data.length ≤ packetSize) :
    ∃ v', v.transmit data = (.ok (), v') := by
  simp only [VirtioNet.canTransmit, Bool.and_eq_true, bne_iff_ne] at can
  obtain ⟨initialized, free⟩ := can
  have room := (reclaimTx_reclaims (v := v)).free free
  have passes : v.transmitRefused data = none := by
    simp [VirtioNet.transmitRefused, initialized, Nat.not_lt.mpr fits]
  unfold VirtioNet.transmit VirtioNet.transmitFill
  rw [passes]
  dsimp only
  rw [if_neg room]
  exact ⟨_, rfl⟩

theorem receiveElem_kept {room : Nat} {found : Option (Nat × List Byte)}
    (elem : v.receiveElem room = .ok (found, v')) :
    v'.initialized = v.initialized ∧ v'.tx = v.tx ∧ v'.rx.availIdx = v.rx.availIdx := by
  unfold VirtioNet.receiveElem at elem
  dsimp only at elem
  split at elem
  · cases elem
    exact ⟨rfl, rfl, rfl⟩
  · split at elem
    · cases elem
      exact ⟨rfl, rfl, rfl⟩
    · cases elem

/-- A frame received gives its buffer back. -/
theorem receive_ok {room : Nat} {frame : List Byte} (received : v.receive room = .ok (.ok frame, v')) :
    v'.initialized = v.initialized ∧ v'.tx = v.tx ∧ v'.rx.availIdx = v.rx.availIdx + 1 := by
  unfold VirtioNet.receive at received
  split at received
  · cases received
  · cases elem : v.receiveElem room with
    | error e =>
      rw [elem] at received
      cases received
    | ok answer =>
      rw [elem] at received
      obtain ⟨_ | found, v₁⟩ := answer
      · cases received
      · cases received
        obtain ⟨initialized, tx, avail⟩ := receiveElem_kept elem
        exact ⟨initialized, tx, congrArg (· + 1) avail⟩

theorem receive_error {room : Nat} {e : DriverError} (refused : v.receive room = .ok (.error e, v')) :
    v'.initialized = v.initialized ∧ v'.tx = v.tx ∧ v'.rx.availIdx = v.rx.availIdx := by
  unfold VirtioNet.receive at refused
  split at refused
  · cases refused
    exact ⟨rfl, rfl, rfl⟩
  · cases elem : v.receiveElem room with
    | error e =>
      rw [elem] at refused
      cases refused
    | ok answer =>
      rw [elem] at refused
      obtain ⟨_ | found, v₁⟩ := answer
      · cases refused
        exact receiveElem_kept elem
      · cases refused

theorem receive_notReady {room : Nat} (off : v.initialized = false) : v.receive room = .ok (.error .notReady, v) := by
  simp [VirtioNet.receive, VirtioNet.receiveRefused, off]

end Queues

/-! ### The whole initialisation -/

/-- The queues as `new_uninit` makes them. -/
structure Fresh (v : VirtioNet) : Prop where
  initialized : v.initialized = false
  rx : v.rx = {}
  tx : v.tx = {}
  mask : v.txFreeMask = 0xFFFF

/-- A device at work. It was promised no feature it had not offered, it knows where the queues lie that it has, and
each descriptor offered to it was announced: the 32 of the start together, every later one on its own. -/
structure Live (m : Link) (s : Statics) : Prop where
  stage : m.stage = .live
  features : ∀ sel, sel = 0 ∨ sel = 1 → ∃ o, m.offered sel = some o ∧ m.accepted sel = some (o &&& wanted sel)
  rx : ∃ max, m.queues 0 = .told max s.rxRings
  tx : ∃ max, m.queues 1 = .told max s.txRings
  rxRung : s.net.rx.availIdx = BitVec.ofNat 16 (31 + m.notified 0)
  txRung : s.net.tx.availIdx = BitVec.ofNat 16 (m.notified 1)
  acknowledged : m.pending = none

section Whole
variable {d : Responder Port Port.Value} {base : Nat} {m : Link} {s : Statics}

theorem Live.of_net {net : VirtioNet} (live : Live m s) (rx : net.rx.availIdx = s.net.rx.availIdx)
    (tx : net.tx.availIdx = s.net.tx.availIdx) : Live m { s with net } :=
  { live with rxRung := rx.trans live.rxRung, txRung := tx.trans live.txRung }

theorem init_keeps (here : s.base = base) (found : base ≠ 0) (fresh : Fresh s.net) :
    Keeps (protocol base) (init d)
      (fun _ m t => Live m t ∧ ∃ mac, t = { s with mac, net := { s.net.populateRxQueue with initialized := true } })
      (fun e m t => e = .error .initFailed ∧ m.stage = .failed ∧ t = s) {} s := by
  refine keeps_bind (keeps_own ?_)
  rw [if_neg (here ▸ found)]
  refine keeps_bind (acknowledge_keeps here ?_)
  refine keeps_bind (negotiate_keeps here fun lo hi => ?_)
  refine keeps_bind (keeps_mono (confirm_keeps here) ?_ ?_)
  · rintro _ m t ⟨rfl, rfl⟩
    refine keeps_bind (keeps_mono (readMac_keeps here) ?_ fun _ _ _ => id)
    rintro _ m t ⟨rfl, mac, rfl⟩
    refine keeps_bind (keeps_mono (setupQueue_keeps here rfl rfl) ?_ fun _ _ _ => id)
    rintro _ m t ⟨rfl, max, rfl⟩
    refine keeps_bind (keeps_mono (setupQueue_keeps here rfl ?_) ?_ fun _ _ _ => id)
    · rfl
    rintro _ m t ⟨rfl, max', rfl⟩
    refine keeps_bind (keeps_bind (keeps_update (keeps_bind (keeps_write32 here rfl (keeps_write32 here rfl ?_)))))
    refine keeps_bind (keeps_write32 here rfl (keeps_update ⟨?_, mac, rfl⟩))
    obtain ⟨avail, tx, -⟩ := populateRxQueue_kept (v := t.net)
    -- Only what is kept matters here; unnamed, the 32 buffers are provided again to compare two states.
    generalize t.net.populateRxQueue = net at avail tx ⊢
    exact {
      stage := rfl
      features := by
        rintro sel (rfl | rfl)
        · exact ⟨lo, rfl, rfl⟩
        · exact ⟨hi, rfl, rfl⟩
      rx := ⟨max, rfl⟩
      tx := ⟨max', rfl⟩
      rxRung := by
        refine avail.trans ?_
        rw [fresh.rx]
        rfl
      txRung := by
        refine (congrArg Virtq.availIdx tx).trans ?_
        rw [fresh.tx]
        rfl
      acknowledged := rfl }
  · rintro e m t ⟨rfl, rfl, rfl⟩
    exact ⟨rfl, rfl, rfl⟩

end Whole

/-! ### Runs -/

/-- How far the boot path is with its device. -/
inductive Phase where
  | powerOn | found | absent | up | down

structure Host where
  session : Session Port Port.Value Statics
  phase : Phase

inductive HostLabel where
  | probeAll
  | initDevice
  | transmit (data : List Byte)
  | receive
  | interrupt
  | device

/-- What a device at work writes: its part of the rings, and the buffers it was given. -/
structure DeviceWrites (v v' : VirtioNet) : Prop where
  rx : ∃ usedIdx usedRing, v'.rx = { v.rx with usedIdx, usedRing }
  tx : ∃ usedIdx usedRing, v'.tx = { v.tx with usedIdx, usedRing }
  rest : v' = { v with rx := v'.rx, tx := v'.tx, rxBuffers := v'.rxBuffers }

/-- A call of the driver, or a step of the device. Only the interrupt of a ready device is served. -/
inductive HostStep (d : Responder Port Port.Value) : Host → HostLabel → Host → Prop
  | probeAll {s : Session Port Port.Value Statics} :
      HostStep d ⟨s, .powerOn⟩ .probeAll
        ⟨after (probeAll d) s, if (after (probeAll d) s).state.base = 0 then .absent else .found⟩
  | initDevice {s : Session Port Port.Value Statics} :
      HostStep d ⟨s, .found⟩ .initDevice
        ⟨after (initDevice d) s, if (after (initDevice d) s).state.ready then .up else .down⟩
  | transmit {s : Session Port Port.Value Statics} {p : Phase} {data : List Byte} :
      HostStep d ⟨s, p⟩ (.transmit data) ⟨after (transmitNotify data) s, p⟩
  | receive {s : Session Port Port.Value Statics} {p : Phase} :
      HostStep d ⟨s, p⟩ .receive ⟨after (receiveNotify packetSize) s, p⟩
  | interrupt {s : Session Port Port.Value Statics} {p : Phase} (ready : s.state.ready = true) :
      HostStep d ⟨s, p⟩ .interrupt ⟨after (handleInterrupt d) s, p⟩
  | device {s : Session Port Port.Value Statics} {p : Phase} {net : VirtioNet} (live : s.state.net.initialized = true)
      (writes : DeviceWrites s.state.net net) :
      HostStep d ⟨s, p⟩ .device ⟨{ s with state := { s.state with net } }, p⟩

structure HostInitial (h : Host) : Prop where
  phase : h.phase = .powerOn
  history : h.session.history = []
  base : h.session.state.base = 0
  ready : h.session.state.ready = false
  fresh : Fresh h.session.state.net

abbrev HostRun (d : Responder Port Port.Value) := Run HostInitial (HostStep d)

/-! ### Service -/

/-- What a call leaves of the statics. -/
def Serves (s t : Statics) : Prop := ∃ net, t = { s with net } ∧ net.initialized = s.net.initialized

section Service
variable {d : Responder Port Port.Value} {base : Nat} {m : Link} {s : Statics} {net : VirtioNet} {data : List Byte}

/-- One more TX descriptor, announced. -/
theorem Live.txOffered (live : Live m s) (rx : net.rx.availIdx = s.net.rx.availIdx)
    (tx : net.tx.availIdx = s.net.tx.availIdx + 1) :
    Live { m with notified := Function.update m.notified 1 (m.notified 1 + 1) } { s with net } where
  __ := live
  rxRung := by
    show _ = BitVec.ofNat 16 (31 + Function.update m.notified 1 (m.notified 1 + 1) 0)
    rw [Function.update_of_ne (by decide), rx, live.rxRung]
  txRung := by
    show _ = BitVec.ofNat 16 (Function.update m.notified 1 (m.notified 1 + 1) 1)
    rw [Function.update_self, tx, live.txRung, BitVec.ofNat_add]
    rfl

/-- One more RX descriptor, announced. -/
theorem Live.rxOffered (live : Live m s) (rx : net.rx.availIdx = s.net.rx.availIdx + 1)
    (tx : net.tx.availIdx = s.net.tx.availIdx) :
    Live { m with notified := Function.update m.notified 0 (m.notified 0 + 1) } { s with net } where
  __ := live
  rxRung := by
    show _ = BitVec.ofNat 16 (31 + Function.update m.notified 0 (m.notified 0 + 1) 0)
    rw [Function.update_self, rx, live.rxRung, ← Nat.add_assoc, BitVec.ofNat_add (31 + _) 1]
    rfl
  txRung := by
    show _ = BitVec.ofNat 16 (Function.update m.notified 0 (m.notified 0 + 1) 1)
    rw [Function.update_of_ne (by decide), tx, live.txRung]

theorem transmit_keeps (here : s.base = base) (live : Live m s) :
    Keeps (protocol base) (transmitNotify data) (fun _ m' t => Live m' t ∧ Serves s t) (fun _ m' t => Live m' t ∧ Serves s t)
      m s := by
  refine keeps_bind (keeps_own ?_)
  split
  · next net sent =>
    obtain ⟨initialized, rx, tx⟩ := transmit_ok sent
    refine keeps_bind (keeps_update (keeps_write32 here (if_pos (.inr live.stage)) ⟨?_, net, rfl, initialized⟩))
    exact live.txOffered (congrArg Virtq.availIdx rx) tx
  · next e net refused =>
    obtain ⟨initialized, rx, tx⟩ := transmit_error refused
    refine keeps_bind (keeps_update (keeps_fail ⟨?_, net, rfl, initialized⟩))
    exact live.of_net (congrArg Virtq.availIdx rx) tx

theorem receive_keeps {room : Nat} (here : s.base = base) (live : Live m s) :
    Keeps (protocol base) (receiveNotify room) (fun _ m' t => Live m' t ∧ Serves s t) (fun _ m' t => Live m' t ∧ Serves s t)
      m s := by
  refine keeps_bind (keeps_own ?_)
  split
  · next frame net received =>
    obtain ⟨initialized, tx, rx⟩ := receive_ok received
    refine keeps_bind (keeps_update (keeps_bind (keeps_write32 here (if_pos (.inr live.stage)) ?_)))
    exact keeps_pure ⟨live.rxOffered rx (congrArg Virtq.availIdx tx), net, rfl, initialized⟩
  · next e net refused =>
    obtain ⟨initialized, tx, rx⟩ := receive_error refused
    refine keeps_bind (keeps_update (keeps_fail ⟨?_, net, rfl, initialized⟩))
    exact live.of_net rx (congrArg Virtq.availIdx tx)
  · exact fun _ _ before => ⟨m, before, live, s.net, rfl, rfl⟩

/-- An interrupt is acknowledged with the status that was read. -/
theorem handleInterrupt_keeps {E : Stop DriverError → Link → Statics → Prop} (here : s.base = base) (live : Live m s) :
    Keeps (protocol base) (handleInterrupt d) (fun _ m' t => Live m' t ∧ Serves s t) E m s := by
  have known : m.stage ≠ .unknown := by
    rw [live.stage]
    decide
  refine keeps_bind (keeps_read32 here known fun status => ⟨_, if_pos live.stage, ?_⟩)
  refine keeps_bind (keeps_write32 here (if_pos ⟨live.stage, rfl⟩) (keeps_update ?_))
  have reclaims := reclaimTx_reclaims (v := s.net)
  have served := live.of_net (congrArg Virtq.availIdx reclaims.rx) reclaims.offered
  exact ⟨{ served with acknowledged := rfl }, s.net.reclaimTx, rfl, reclaims.initialized⟩

theorem transmit_quiet {s : Session Port Port.Value Statics} (off : s.state.net.initialized = false) :
    after (transmitNotify data) s = s := by
  have looked : (own : Code Statics) s = .ok s.state s := rfl
  unfold after transmitNotify
  rw [bind_run looked, transmit_notReady off]
  rfl

theorem receive_quiet {s : Session Port Port.Value Statics} {room : Nat} (off : s.state.net.initialized = false) :
    after (receiveNotify room) s = s := by
  have looked : (own : Code Statics) s = .ok s.state s := rfl
  unfold after receiveNotify
  rw [bind_run looked, receive_notReady off]
  rfl

end Service

/-! ### From power-on -/

/-- The device is where `probe_all` found it. -/
def AtSlot (s : Statics) : Prop :=
  ∃ slot < virtioMmioSlots, s.base = slotBase slot ∧ s.irq = virtioIrqBase + slot ∧ s.netIrq = virtioIrqBase + slot

/-- Nothing but identification, whatever slot the device is in. -/
def Silent (s : Session Port Port.Value Statics) : Prop := ∀ base, (protocol base).follow {} s.history = some {}

inductive Stands : Host → Prop
  | quiet {s : Session Port Port.Value Statics} {p : Phase} (phase : p = .powerOn ∨ p = .absent) (base : s.state.base = 0)
      (ready : s.state.ready = false) (fresh : Fresh s.state.net) (silent : Silent s) : Stands ⟨s, p⟩
  | found {s : Session Port Port.Value Statics} (slot : AtSlot s.state) (ready : s.state.ready = false)
      (fresh : Fresh s.state.net) (silent : Silent s) : Stands ⟨s, .found⟩
  | down {s : Session Port Port.Value Statics} {m : Link} (slot : AtSlot s.state) (ready : s.state.ready = false)
      (off : s.state.net.initialized = false) (follows : (protocol s.state.base).follow {} s.history = some m)
      (failed : m.stage = .failed) : Stands ⟨s, .down⟩
  | up {s : Session Port Port.Value Statics} {m : Link} (slot : AtSlot s.state) (on : s.state.net.initialized = true)
      (follows : (protocol s.state.base).follow {} s.history = some m) (live : Live m s.state) : Stands ⟨s, .up⟩

section Steps
variable {d : Responder Port Port.Value} {s : Session Port Port.Value Statics} {h h' : Host} {l : HostLabel}

theorem AtSlot.found {s : Statics} (slot : AtSlot s) : s.base ≠ 0 := by
  obtain ⟨slot, -, base, -⟩ := slot
  rw [base, slotBase, virtioMmioBase]
  omega

theorem probeAll_stands (base : s.state.base = 0) (ready : s.state.ready = false) (fresh : Fresh s.state.net)
    (silent : Silent s) :
    Stands ⟨after (probeAll d) s, if (after (probeAll d) s).state.base = 0 then .absent else .found⟩ := by
  have searched : ∀ base, (protocol base).follow {} (after (probeAll d) s).history = some {} ∧
      ∃ found, Searched s.state found (after (probeAll d) s).state := by
    intro base
    have keeps : Keeps (protocol base) (probeAll d) (fun _ m t => m = {} ∧ ∃ found, Searched s.state found t)
        (fun _ m t => m = {} ∧ ∃ found, Searched s.state found t) {} s.state :=
      keeps_mono probeAll_keeps (fun found _ _ ⟨same, searched⟩ => ⟨same, found, searched⟩) fun _ _ _ => False.elim
    obtain ⟨m, follows, rfl, found⟩ := keeps.after (silent base)
    exact ⟨follows, found⟩
  have silent' : Silent (after (probeAll d) s) := fun base => (searched base).1
  obtain ⟨found, result⟩ := (searched 0).2
  cases found with
  | none =>
    have same : (after (probeAll d) s).state = s.state := result
    rw [if_pos (same ▸ base)]
    exact .quiet (.inr rfl) (same ▸ base) (same ▸ ready) (same ▸ fresh) silent'
  | some found =>
    obtain ⟨⟨small, statics⟩, -⟩ := result
    have slot : AtSlot (after (probeAll d) s).state := by
      rw [statics]
      exact ⟨found.1, small, rfl, rfl, rfl⟩
    rw [if_neg slot.found]
    refine .found slot ?_ ?_ silent'
    · rw [statics]
      exact ready
    · rw [statics]
      exact fresh

/-- What `init_device` makes of a fresh driver. -/
inductive Initialised (s : Statics) (m : Link) (t : Statics) : Prop where
  | failed (stage : m.stage = .failed) (same : t = s)
  | live (live : Live m t) (mac : FixedArray 6 Byte)
      (statics : t = { s with mac, net := { s.net.populateRxQueue with initialized := true }, ready := true })

theorem initDevice_initialises (slot : AtSlot s.state) (fresh : Fresh s.state.net) (silent : Silent s) :
    ∃ m, (protocol s.state.base).follow {} (after (initDevice d) s).history = some m ∧
      Initialised s.state m (after (initDevice d) s).state := by
  refine Keeps.after ?_ (silent s.state.base)
  refine keeps_bind (keeps_mono (init_keeps rfl slot.found fresh) ?_ ?_)
  · rintro _ m t ⟨live, mac, rfl⟩
    exact keeps_update (.live { live with } mac rfl)
  · rintro _ m t ⟨-, stage, same⟩
    exact .failed stage same

theorem Live.device {m : Link} {s : Statics} {net : VirtioNet} (live : Live m s) (writes : DeviceWrites s.net net) :
    Live m { s with net } := by
  obtain ⟨⟨_, _, rx⟩, ⟨_, _, tx⟩, -⟩ := writes
  exact live.of_net (by rw [rx]) (by rw [tx])

/-- A call of a driver at work. -/
theorem Stands.served {α : Type} {x : Code α} (slot : AtSlot s.state) (on : s.state.net.initialized = true)
    {m : Link} (keeps : Keeps (protocol s.state.base) x (fun _ m t => Live m t ∧ Serves s.state t)
      (fun _ m t => Live m t ∧ Serves s.state t) m s.state)
    (follows : (protocol s.state.base).follow {} s.history = some m) : Stands ⟨after x s, .up⟩ := by
  obtain ⟨m', follows', live, net, statics, initialized⟩ := keeps.after follows
  have base : (after x s).state.base = s.state.base := by rw [statics]
  rw [← base] at follows'
  refine .up ?_ ?_ follows' live
  · rw [statics]
    exact slot
  · rw [statics]
    exact initialized.trans on

/-- A call that a driver refuses until its device is up. -/
theorem Stands.called {α : Type} {x : Code α} {p : Phase} (stands : Stands ⟨s, p⟩)
    (quiet : s.state.net.initialized = false → after x s = s)
    (keeps : ∀ m, Live m s.state → Keeps (protocol s.state.base) x (fun _ m t => Live m t ∧ Serves s.state t)
      (fun _ m t => Live m t ∧ Serves s.state t) m s.state) : Stands ⟨after x s, p⟩ := by
  cases stands with
  | quiet phase base ready fresh silent =>
    rw [quiet fresh.initialized]
    exact .quiet phase base ready fresh silent
  | found slot ready fresh silent =>
    rw [quiet fresh.initialized]
    exact .found slot ready fresh silent
  | down slot ready off follows failed =>
    rw [quiet off]
    exact .down slot ready off follows failed
  | up slot on follows live => exact .served slot on (keeps _ live) follows

theorem Stands.step (stands : Stands h) (step : HostStep d h l h') : Stands h' := by
  cases step with
  | probeAll =>
    cases stands with
    | quiet _ base ready fresh silent => exact probeAll_stands base ready fresh silent
  | @initDevice s =>
    cases stands with
    | quiet phase => rcases phase with phase | phase <;> cases phase
    | found slot ready fresh silent =>
      obtain ⟨m, follows, result⟩ := initDevice_initialises (d := d) slot fresh silent
      cases result with
      | failed stage same =>
        rw [if_neg (by rw [same, ready]; decide)]
        rw [← same] at slot ready fresh follows
        exact .down slot ready fresh.initialized follows stage
      | live live mac statics =>
        have base : (after (initDevice d) s).state.base = s.state.base := by rw [statics]
        rw [if_pos (by rw [statics])]
        rw [← base] at follows
        refine .up ?_ ?_ follows live
        · rw [statics]
          exact slot
        · rw [statics]
  | transmit => exact stands.called transmit_quiet fun _ live => transmit_keeps rfl live
  | receive => exact stands.called receive_quiet fun _ live => receive_keeps rfl live
  | interrupt served =>
    cases stands with
    | quiet _ _ ready => exact absurd (ready.symm.trans served) (by decide)
    | found _ ready => exact absurd (ready.symm.trans served) (by decide)
    | down _ ready => exact absurd (ready.symm.trans served) (by decide)
    | up slot on follows live => exact .served slot on (handleInterrupt_keeps rfl live) follows
  | device on writes =>
    cases stands with
    | quiet _ _ _ fresh => exact absurd (fresh.initialized.symm.trans on) (by decide)
    | found _ _ fresh => exact absurd (fresh.initialized.symm.trans on) (by decide)
    | down _ _ off => exact absurd (off.symm.trans on) (by decide)
    | up slot _ follows live => exact .up slot (writes.rest ▸ on) follows (live.device writes)

theorem HostInitial.stands (initial : HostInitial h) : Stands h := by
  obtain ⟨session, phase⟩ := h
  obtain ⟨rfl, history, base, ready, fresh⟩ := initial
  refine .quiet (.inl rfl) base ready fresh fun base => ?_
  rw [show session.history = [] from history]
  rfl

end Steps

/-- What holds of the driver and its device from power-on, whatever the device answers. -/
structure Conforms {d : Responder Port Port.Value} (r : HostRun d) : Prop where
  /-- The accesses follow the protocol: the device is untouched but for its identification, given up, or at work. -/
  follows : ∀ n, n ≤ r.len → ∃ m,
    (protocol (r.state n).session.state.base).follow {} (r.state n).session.history = some m ∧
      ((m.stage = .unknown ∨ m.stage = .failed) ∧ (r.state n).session.state.net.initialized = false ∨
        Live m (r.state n).session.state ∧ (r.state n).session.state.net.initialized = true)
  slot : ∀ n, n ≤ r.len → (r.state n).session.state.base ≠ 0 → AtSlot (r.state n).session.state
  /-- A device that came up starts with the queues empty on the TX side and provided on the RX side. -/
  starts : ∀ n, n < r.len → r.label n = .initDevice → (r.state (n + 1)).session.state.ready = true →
    TxInitial ⟨(r.state (n + 1)).session.state.net, {}, .idle⟩ ∧ RxInitial ⟨(r.state (n + 1)).session.state.net, {}, .idle⟩
  sends : ∀ n data, n < r.len → r.label n = .transmit data → (r.state n).session.state.net.canTransmit = true →
    data.length ≤ packetSize → (r.state (n + 1)).session.state.net.tx.availIdx =
      (r.state n).session.state.net.tx.availIdx + 1

section Runs
variable {d : Responder Port Port.Value} (r : HostRun d) {n : Nat}

theorem HostRun.stands (bound : n ≤ r.len) : Stands (r.state n) :=
  r.invariant (fun _ initial => initial.stands) (fun _ _ _ stands step => stands.step step) n bound

theorem Stands.follows {h : Host} (stands : Stands h) : ∃ m,
    (protocol h.session.state.base).follow {} h.session.history = some m ∧
      ((m.stage = .unknown ∨ m.stage = .failed) ∧ h.session.state.net.initialized = false ∨
        Live m h.session.state ∧ h.session.state.net.initialized = true) := by
  cases stands with
  | quiet _ _ _ fresh silent => exact ⟨{}, silent _, .inl ⟨.inl rfl, fresh.initialized⟩⟩
  | found _ _ fresh silent => exact ⟨{}, silent _, .inl ⟨.inl rfl, fresh.initialized⟩⟩
  | down _ _ off follows failed => exact ⟨_, follows, .inl ⟨.inr failed, off⟩⟩
  | up _ on follows live => exact ⟨_, follows, .inr ⟨live, on⟩⟩

theorem Stands.slot {h : Host} (stands : Stands h) (found : h.session.state.base ≠ 0) : AtSlot h.session.state := by
  cases stands with
  | quiet _ base => exact absurd base found
  | found slot => exact slot
  | down slot => exact slot
  | up slot => exact slot

theorem initDevice_starts {h h' : Host} (stands : Stands h) (step : HostStep d h .initDevice h')
    (ready : h'.session.state.ready = true) :
    TxInitial ⟨h'.session.state.net, {}, .idle⟩ ∧ RxInitial ⟨h'.session.state.net, {}, .idle⟩ := by
  cases step with
  | @initDevice s =>
    cases stands with
    | quiet phase => rcases phase with phase | phase <;> cases phase
    | found slot off fresh silent =>
      obtain ⟨m, -, result⟩ := initDevice_initialises (d := d) slot fresh silent
      cases result with
      | failed _ same =>
        have still : s.state.ready = true := same ▸ ready
        exact absurd (off.symm.trans still) (by decide)
      | live _ mac statics =>
        obtain ⟨-, tx, mask⟩ := populateRxQueue_kept (v := s.state.net)
        have net : (after (initDevice d) s).state.net = { s.state.net.populateRxQueue with initialized := true } := by
          rw [statics]
        rw [net]
        exact ⟨⟨tx.trans fresh.tx, mask.trans fresh.mask, rfl, rfl⟩, ⟨s.state.net, fresh.rx, rfl⟩, rfl, rfl⟩

theorem transmit_offers {h h' : Host} {data : List Byte} (step : HostStep d h (.transmit data) h')
    (can : h.session.state.net.canTransmit = true) (fits : data.length ≤ packetSize) :
    h'.session.state.net.tx.availIdx = h.session.state.net.tx.availIdx + 1 := by
  cases step with
  | @transmit s p =>
    obtain ⟨net, sent⟩ := transmit_sends can fits
    have looked : (own : Code Statics) s = .ok s.state s := rfl
    have left : (after (transmitNotify data) s).state.net = net := by
      unfold after transmitNotify
      rw [bind_run looked, sent]
      rfl
    rw [left]
    exact (transmit_ok sent).2.2

end Runs

end GooseOs.Virtio
