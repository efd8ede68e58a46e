import GooseOs.Virtio.Queue
import GooseOs.Lib.Run
import Mathlib.Logic.Relation

/-!
Transmission: the driver's calls, cut where they read or publish a ring index, against a device that may step
in between. A TX buffer is never reused in flight.
-/

namespace GooseOs.Virtio
open RingBuffer

/-- Where the driver is. -/
inductive TxPhase where
  | idle
  | entered (data : List Byte)
  | reclaiming (call : Option (List Byte))
  | filling (data : List Byte)
  | offering (i : Nat) (data : List Byte)

/-- The `transmit` call under way. -/
def TxPhase.call : TxPhase → Option (List Byte)
  | .idle => none
  | .entered data => some data
  | .reclaiming call => call
  | .filling data => some data
  | .offering _ data => some data

/-- The buffer the driver has claimed and not yet offered. -/
def TxPhase.claimed : TxPhase → List Nat
  | .offering i _ => [i]
  | _ => []

structure TxState where
  net : VirtioNet
  device : Device
  phase : TxPhase

inductive TxLabel where
  | take
  | give (i : BitVec 16) (len : BitVec 32)
  | interrupt
  | transmit (data : List Byte)
  | enter
  | iterate
  | leave
  | fill
  | returns (result : Except DriverError Unit)

inductive TxStep : TxState → TxLabel → TxState → Prop
  | take {s : TxState} (pending : s.device.next ≠ s.net.tx.availIdx) :
      TxStep s .take { s with device := s.device.take s.net.tx }
  | give {s : TxState} {i : BitVec 16} {len : BitVec 32} (held : i ∈ s.device.held) :
      TxStep s (.give i len) { s with net := { s.net with tx := s.net.tx.give i len }, device := s.device.drop i }
  | interrupt {v : VirtioNet} {d : Device} : TxStep ⟨v, d, .idle⟩ .interrupt ⟨v, d, .reclaiming none⟩
  | transmit {v : VirtioNet} {d : Device} {data : List Byte} :
      TxStep ⟨v, d, .idle⟩ (.transmit data) ⟨v, d, .entered data⟩
  | refuse {v : VirtioNet} {d : Device} {data : List Byte} {error : DriverError}
      (refused : v.transmitRefused data = some error) :
      TxStep ⟨v, d, .entered data⟩ (.returns (.error error)) ⟨v, d, .idle⟩
  | enter {v : VirtioNet} {d : Device} {data : List Byte} (passes : v.transmitRefused data = none) :
      TxStep ⟨v, d, .entered data⟩ .enter ⟨v, d, .reclaiming (some data)⟩
  | iterate {v v' : VirtioNet} {d : Device} {call : Option (List Byte)} (used : v.reclaimTxStep = some v') :
      TxStep ⟨v, d, .reclaiming call⟩ .iterate ⟨v', d, .reclaiming call⟩
  | leave {v : VirtioNet} {d : Device} (done : v.reclaimTxStep = none) :
      TxStep ⟨v, d, .reclaiming none⟩ .leave ⟨v, d, .idle⟩
  | proceed {v : VirtioNet} {d : Device} {data : List Byte} (done : v.reclaimTxStep = none) :
      TxStep ⟨v, d, .reclaiming (some data)⟩ .leave ⟨v, d, .filling data⟩
  | full {v : VirtioNet} {d : Device} {data : List Byte} (busy : v.transmitFill data = none) :
      TxStep ⟨v, d, .filling data⟩ (.returns (.error .bufferFull)) ⟨v, d, .idle⟩
  | fill {v v' : VirtioNet} {d : Device} {data : List Byte} {i : Nat} (free : v.transmitFill data = some (i, v')) :
      TxStep ⟨v, d, .filling data⟩ .fill ⟨v', d, .offering i data⟩
  | publish {v : VirtioNet} {d : Device} {data : List Byte} {i : Nat} :
      TxStep ⟨v, d, .offering i data⟩ (.returns (.ok ())) ⟨v.transmitPublish, d, .idle⟩

/-- The queue as `new_uninit` makes it; `init` does not change it. -/
structure TxInitial (s : TxState) : Prop where
  queue : s.net.tx = {}
  mask : s.net.txFreeMask = 0xFFFF
  device : s.device = {}
  phase : s.phase = .idle

abbrev TxRun := Run TxInitial TxStep

/-! ### The mask -/

/-- The buffers with a clear bit in `tx_free_mask`. -/
def InUse (mask : BitVec 16) (i : Nat) : Prop := i < txBufferCount ∧ mask.getLsbD i = false

theorem shifted_bit {i j : Nat} (small : i < 16) (bound : j < 16) : ((1 : BitVec 16) <<< i).getLsbD j = decide (j = i) := by
  have all : ∀ i j : Fin 16, ((1 : BitVec 16) <<< i.val).getLsbD j.val = decide (j = i) := by decide
  rw [all ⟨i, small⟩ ⟨j, bound⟩]
  exact decide_eq_decide.mpr Fin.mk_eq_mk

theorem inUse_claim {mask : BitVec 16} {i j : Nat} (small : i < txBufferCount) :
    InUse (mask &&& ~~~((1 : BitVec 16) <<< i)) j ↔ j = i ∨ InUse mask j := by
  unfold InUse
  by_cases bound : j < 16
  · rw [BitVec.getLsbD_and, BitVec.getLsbD_not, shifted_bit small bound]
    by_cases same : j = i <;> simp [same, bound, small]
  · have other : j ≠ i := fun same => bound (same ▸ small)
    simp [bound, other]

theorem inUse_free {mask : BitVec 16} {i j : Nat} (small : i < txBufferCount) :
    InUse (mask ||| ((1 : BitVec 16) <<< i)) j ↔ j ≠ i ∧ InUse mask j := by
  unfold InUse
  by_cases bound : j < 16
  · rw [BitVec.getLsbD_or, shifted_bit small bound]
    by_cases same : j = i <;> simp [same]
  · simp [bound]

/-! ### The invariant -/

/-- The descriptor entered at the available index is the one of buffer `i`, which holds the header and the data. -/
structure Ready (v : VirtioNet) (i : Nat) (data : List Byte) : Prop where
  entry : (v.tx.availRing (cell queueSize v.tx.availIdx)).toNat = i
  small : i < txBufferCount
  fits : data.length ≤ packetSize
  desc : v.tx.desc i = { addr := v.txPa i, len := BitVec.ofNat 32 (virtioNetHdrSize + data.length) }
  bytes : slice (v.txBuffers i) 0 (virtioNetHdrSize + data.length) = List.replicate virtioNetHdrSize 0 ++ data

structure TxInvariant (s : TxState) : Prop where
  conserved : Conserved (InUse s.net.txFreeMask) s.phase.claimed s.net.tx s.device
  fits : ∀ data, s.phase = .reclaiming (some data) ∨ s.phase = .filling data → data.length ≤ packetSize
  ready : ∀ i data, s.phase = .offering i data → Ready s.net i data

theorem inUse_lt {mask : BitVec 16} {i : Nat} (used : InUse mask i) : i < 16 := used.1

section Pieces
variable {v v' : VirtioNet} {d : Device} {data : List Byte} {i : Nat}

theorem transmitRefused_fits (passes : v.transmitRefused data = none) : data.length ≤ packetSize := by
  unfold VirtioNet.transmitRefused at passes
  split at passes
  · cases passes
  · split at passes
    · cases passes
    · omega

/-- What an iteration of `reclaim_tx` does to a queue whose descriptors are all accounted for. -/
theorem reclaimTxStep_some (conserved : Conserved (InUse v.txFreeMask) [] v.tx d) (used : v.reclaimTxStep = some v') :
    v.tx.lastUsed ≠ v.tx.usedIdx ∧ InUse v.txFreeMask (v.tx.usedRing (cell queueSize v.tx.lastUsed)).id.toNat ∧
      v' = { v with
        txFreeMask := v.txFreeMask ||| ((1 : BitVec 16) <<< (v.tx.usedRing (cell queueSize v.tx.lastUsed)).id.toNat)
        tx := v.tx.processed } := by
  unfold VirtioNet.reclaimTxStep at used
  dsimp only at used
  split at used
  · cases used
  · next pending =>
    have member := (processed_perm (d := d) pending).mem_iff.mp List.mem_cons_self
    have inUse := (conserved.exact _).mp member
    refine ⟨pending, inUse, ?_⟩
    rw [if_pos inUse.1] at used
    exact (Option.some.inj used).symm

theorem reclaimed_conserved (conserved : Conserved (InUse v.txFreeMask) [] v.tx d) (used : v.reclaimTxStep = some v') :
    Conserved (InUse v'.txFreeMask) [] v'.tx d ∧ (inflight v.tx d).length = (inflight v'.tx d).length + 1 := by
  obtain ⟨pending, inUse, rfl⟩ := reclaimTxStep_some conserved used
  have moved := processed_perm (d := d) pending
  refine ⟨⟨?_, fun j => ?_⟩, moved.length_eq.symm⟩
  · exact (List.nodup_cons.mp (moved.nodup_iff.mpr conserved.once)).2
  · rw [inUse_free inUse.1, ← conserved.exact j, List.nil_append, List.nil_append, ← moved.mem_iff, List.mem_cons]
    have apart := (List.nodup_cons.mp (moved.nodup_iff.mpr conserved.once)).1
    constructor
    · intro member
      exact ⟨fun same => apart (same ▸ member), .inr member⟩
    · rintro ⟨other, same | member⟩
      · exact absurd same other
      · exact member

theorem slice_append {m : Memory} {a n k : Nat} : slice m a (n + k) = slice m a n ++ slice m (a + n) k := by
  simp [slice, List.range_add, Nat.add_assoc, Function.comp_def]

theorem slice_written {m : Memory} {a : Nat} {bs : List Byte} : slice (m.writeBytes a bs) a bs.length = bs := by
  have gathered := @Memory.scatter_gather m (List.range' a bs.length) bs List.nodup_range' (by simp)
  rw [← Memory.writeBytes_eq_scatter, List.range'_eq_map_range, List.map_map] at gathered
  exact gathered

theorem slice_header {m : Memory} {hdr : VirtioNetHdr} :
    slice ((m.writeBytes 0 hdr.bytes).writeBytes virtioNetHdrSize data) 0 (virtioNetHdrSize + data.length) =
      hdr.bytes ++ data := by
  have size : hdr.bytes.length = virtioNetHdrSize := rfl
  have front : slice ((m.writeBytes 0 hdr.bytes).writeBytes virtioNetHdrSize data) 0 virtioNetHdrSize = hdr.bytes := by
    refine Eq.trans (List.map_congr_left fun i member => ?_) (@slice_written m 0 hdr.bytes)
    have bound := List.mem_range.mp member
    exact Memory.writeBytes_apply_outside (Or.inl (by omega))
  rw [slice_append, front, Nat.zero_add, slice_written]

theorem header_bytes : ({} : VirtioNetHdr).bytes = List.replicate virtioNetHdrSize 0 := by decide

/-- What `transmit` finds and writes once it has reclaimed. -/
theorem transmitFill_some (fits : data.length ≤ packetSize) (free : v.transmitFill data = some (i, v')) :
    ¬ InUse v.txFreeMask i ∧ Ready v' i data ∧ v'.txFreeMask = v.txFreeMask &&& ~~~((1 : BitVec 16) <<< i) ∧
      v'.tx.availIdx = v.tx.availIdx ∧ (∀ j, j ≠ i → v'.tx.desc j = v.tx.desc j ∧ v'.txBuffers j = v.txBuffers j) ∧
      ∃ desc, v'.tx = { v.tx with
        desc := desc
        availRing := Function.update v.tx.availRing (cell queueSize v.tx.availIdx) (BitVec.ofNat 16 i) } := by
  unfold VirtioNet.transmitFill at free
  split at free
  · cases free
  · next nonzero =>
    cases free
    have small : v.txFreeMask.ctz.toNat < 16 := by
      have below := BitVec.ctz_lt_iff_ne_zero.mpr nonzero
      rw [BitVec.lt_def] at below
      simpa using below
    have set : v.txFreeMask.getLsbD v.txFreeMask.ctz.toNat = true := BitVec.getLsbD_true_ctz_of_ne_zero nonzero
    refine ⟨fun used => ?_, ⟨?_, small, fits, ?_, ?_⟩, rfl, rfl, fun j other => ⟨?_, ?_⟩, _, rfl⟩
    · rw [used.2] at set
      cases set
    · dsimp only
      rw [Function.update_self, BitVec.toNat_ofNat, Nat.mod_eq_of_lt (by omega)]
    · exact Function.update_self ..
    · rw [← header_bytes]
      dsimp only
      rw [Function.update_self]
      exact slice_header
    · exact Function.update_of_ne other ..
    · exact Function.update_of_ne other ..

theorem filled_conserved (conserved : Conserved (InUse v.txFreeMask) [] v.tx d) (fits : data.length ≤ packetSize)
    (free : v.transmitFill data = some (i, v')) : Conserved (InUse v'.txFreeMask) [i] v'.tx d := by
  obtain ⟨unused, ready, mask, -, -, desc, tx⟩ := transmitFill_some fits free
  have room := conserved.offered_room (fun _ => inUse_lt)
  have same : inflight v'.tx d = inflight v.tx d := by
    unfold inflight
    rw [tx, offered_update (by simp only [queueSize]; omega)]
    rfl
  refine ⟨?_, fun j => ?_⟩
  · rw [same]
    exact List.nodup_cons.mpr ⟨fun member => unused ((conserved.exact i).mp member), conserved.once⟩
  · rw [same, mask, inUse_claim ready.small, ← conserved.exact j]
    simp

theorem published_conserved (conserved : Conserved (InUse v.txFreeMask) [i] v.tx d) (ready : Ready v i data) :
    Conserved (InUse v.transmitPublish.txFreeMask) [] v.transmitPublish.tx d := by
  have room := conserved.offered_room (fun _ => inUse_lt)
  refine conserved.perm ?_
  unfold inflight
  change List.Perm (offered { v.tx with availIdx := v.tx.availIdx + 1 } d ++ _ ++ _) _
  rw [offered_publish (by simp only [queueSize]; omega), ready.entry]
  simp only [List.append_assoc]
  exact List.perm_middle

end Pieces

/-! ### Steps -/

section Step
variable {s s' : TxState} {l : TxLabel}

theorem TxInitial.invariant (initial : TxInitial s) : TxInvariant s := by
  obtain ⟨queue, mask, device, phase⟩ := initial
  refine ⟨?_, by rw [phase]; simp, by rw [phase]; simp⟩
  rw [queue, mask, device, phase]
  refine ⟨List.nodup_nil, fun i => ?_⟩
  have full : ∀ i : Fin 16, (0xFFFF : BitVec 16).getLsbD i.val = true := by decide
  refine iff_of_false (List.not_mem_nil) fun used => ?_
  rw [InUse, full ⟨i, used.1⟩] at used
  cases used.2

theorem TxInvariant.step (inv : TxInvariant s) (step : TxStep s l s') : TxInvariant s' := by
  obtain ⟨conserved, fits, ready⟩ := inv
  cases step with
  | take pending => exact ⟨conserved.take pending, fits, ready⟩
  | give held =>
    refine ⟨conserved.give (fun _ => inUse_lt) (by decide) held, fits, fun i data phase => ?_⟩
    obtain ⟨entry, small, fit, desc, bytes⟩ := ready i data phase
    exact ⟨entry, small, fit, desc, bytes⟩
  | interrupt => exact ⟨conserved, by simp, by simp⟩
  | transmit => exact ⟨conserved, by simp, by simp⟩
  | refuse => exact ⟨conserved, by simp, by simp⟩
  | enter passes =>
    refine ⟨conserved, fun data phase => ?_, by simp⟩
    obtain ⟨⟨⟩⟩ | ⟨⟨⟩⟩ := phase
    exact transmitRefused_fits passes
  | iterate used => exact ⟨(reclaimed_conserved conserved used).1, fits, by simp⟩
  | leave => exact ⟨conserved, by simp, by simp⟩
  | proceed =>
    refine ⟨conserved, fun data phase => ?_, by simp⟩
    obtain ⟨⟨⟩⟩ | ⟨⟨⟩⟩ := phase
    exact fits _ (.inl rfl)
  | full => exact ⟨conserved, by simp, by simp⟩
  | fill free =>
    have fit := fits _ (.inr rfl)
    refine ⟨filled_conserved conserved fit free, by simp, fun i data phase => ?_⟩
    cases phase
    exact (transmitFill_some fit free).2.1
  | publish => exact ⟨published_conserved conserved (ready _ _ rfl), by simp, by simp⟩

/-- Between the call and its return the available index stands. -/
theorem TxStep.inside {data : List Byte} (step : TxStep s l s') (call : s.phase.call = some data)
    (other : ∀ result, l ≠ .returns result) : s'.phase.call = some data ∧ s'.net.tx.availIdx = s.net.tx.availIdx := by
  cases step with
  | take => exact ⟨call, rfl⟩
  | give => exact ⟨call, rfl⟩
  | interrupt => cases call
  | transmit => cases call
  | refuse => exact absurd rfl (other _)
  | enter => exact ⟨call, rfl⟩
  | iterate used =>
    refine ⟨call, ?_⟩
    unfold VirtioNet.reclaimTxStep at used
    dsimp only at used
    split at used
    · cases used
    · cases used
      rfl
  | leave => cases call
  | proceed => exact ⟨call, rfl⟩
  | full => exact absurd rfl (other _)
  | fill free =>
    unfold VirtioNet.transmitFill at free
    split at free
    · cases free
    · cases free
      exact ⟨call, rfl⟩
  | publish => exact absurd rfl (other _)

/-- Only the claimed buffer is written, and it is not on its way. -/
theorem TxStep.unwritten (inv : TxInvariant s) (step : TxStep s l s') {i : Nat}
    (member : i ∈ inflight s.net.tx s.device) :
    s'.net.txBuffers i = s.net.txBuffers i ∧ s'.net.tx.desc i = s.net.tx.desc i := by
  cases step with
  | iterate used =>
    obtain ⟨-, -, rfl⟩ := reclaimTxStep_some inv.conserved used
    exact ⟨rfl, rfl⟩
  | fill free =>
    obtain ⟨unused, -, -, -, kept, -⟩ := transmitFill_some (inv.fits _ (.inr rfl)) free
    have used := (inv.conserved.exact i).mp member
    obtain ⟨desc, bytes⟩ := kept i fun same => unused (same ▸ used)
    exact ⟨bytes, desc⟩
  | _ => exact ⟨rfl, rfl⟩

end Step

/-! ### Runs -/

/-- A `transmit` call from step `m` to its return in step `n`. -/
structure Call (r : TxRun) (m n : Nat) (data : List Byte) (result : Except DriverError Unit) : Prop where
  before : m < n
  bound : n < r.len
  call : r.label m = .transmit data
  returns : r.label n = .returns result
  inside : ∀ i, m < i → i < n → ∀ other, r.label i ≠ .returns other

/-- From `v` to `v'` one descriptor is offered: buffer `i`, with the zero header and the data. -/
structure Offers (v v' : VirtioNet) (i : Nat) (data : List Byte) : Prop where
  index : v'.tx.availIdx = v.tx.availIdx + 1
  entry : (v'.tx.availRing (cell queueSize v.tx.availIdx)).toNat = i
  addr : (v'.tx.desc i).addr = v'.txPa i
  len : (v'.tx.desc i).len.toNat = virtioNetHdrSize + data.length
  flags : (v'.tx.desc i).flags = 0
  bytes : slice (v'.txBuffers i) 0 (virtioNetHdrSize + data.length) = List.replicate virtioNetHdrSize 0 ++ data

def TxLabel.isIterate : TxLabel → Bool
  | .iterate => true
  | _ => false

/-- The driver stays in the loop of `reclaim_tx`. -/
def TxLabel.inLoop : TxLabel → Bool
  | .take | .give .. | .iterate => true
  | _ => false

structure TxSafe (r : TxRun) : Prop where
  exact : ∀ n, n ≤ r.len →
    Conserved (InUse (r.state n).net.txFreeMask) (r.state n).phase.claimed (r.state n).net.tx (r.state n).device
  unwritten : ∀ n, n < r.len → ∀ i, i ∈ inflight (r.state n).net.tx (r.state n).device →
    (r.state (n + 1)).net.txBuffers i = (r.state n).net.txBuffers i ∧
      (r.state (n + 1)).net.tx.desc i = (r.state n).net.tx.desc i
  accepted : ∀ m n data, Call r m n data (.ok ()) →
    ∃ i, i < txBufferCount ∧ Offers (r.state m).net (r.state (n + 1)).net i data
  refused : ∀ m n data error, Call r m n data (.error error) →
    (r.state (n + 1)).net.tx.availIdx = (r.state m).net.tx.availIdx
  resumes : ∀ n, n ≤ r.len → ∀ call, (r.state n).phase = .reclaiming call →
    ∃ l s', TxStep (r.state n) l s' ∧ (l = .iterate ∨ l = .leave)
  terminates : ∀ m n, m ≤ n → n ≤ r.len → (∀ i, m ≤ i → i < n → (r.label i).inLoop = true) →
    Nat.count (fun i => (r.label i).isIterate = true) n ≤ Nat.count (fun i => (r.label i).isIterate = true) m + txBufferCount

section Run
variable {r : TxRun} {m n : Nat} {data : List Byte} {result : Except DriverError Unit}

theorem tx_invariant (r : TxRun) (bound : n ≤ r.len) : TxInvariant (r.state n) :=
  r.invariant (fun _ initial => initial.invariant) (fun _ _ _ inv step => inv.step step) n bound

theorem Call.open (call : Call r m n data result) :
    (r.state n).phase.call = some data ∧ (r.state n).net.tx.availIdx = (r.state m).net.tx.availIdx := by
  have first := r.steps m (Nat.lt_trans call.before call.bound)
  rw [call.call] at first
  have entered : (r.state (m + 1)).phase.call = some data ∧
      (r.state (m + 1)).net.tx.availIdx = (r.state m).net.tx.availIdx := by
    generalize r.state (m + 1) = s' at first
    generalize r.state m = s at first
    cases first
    exact ⟨rfl, rfl⟩
  have along : ∀ i, m + 1 ≤ i → i ≤ n → (r.state i).phase.call = some data ∧
      (r.state i).net.tx.availIdx = (r.state m).net.tx.availIdx := by
    intro i lower
    induction i, lower using Nat.le_induction with
    | base => exact fun _ => entered
    | succ i lower ih =>
      intro upper
      obtain ⟨held, index⟩ := ih (by omega)
      have bound := call.bound
      obtain ⟨held', index'⟩ := (r.steps i (by omega)).inside held (call.inside i (by omega) (by omega))
      exact ⟨held', index'.trans index⟩
  exact along n call.before le_rfl

theorem TxStep.accepted {s s' : TxState} (inv : TxInvariant s) (step : TxStep s (.returns (.ok ())) s')
    (call : s.phase.call = some data) : ∃ i, i < txBufferCount ∧ Offers s.net s'.net i data := by
  cases step with
  | publish =>
    rename_i v d sent i
    cases call
    obtain ⟨entry, small, fits, desc, bytes⟩ := inv.ready i data rfl
    refine ⟨i, small, rfl, entry, congrArg VirtqDesc.addr desc, ?_, congrArg VirtqDesc.flags desc, bytes⟩
    have len : (v.tx.desc i).len = BitVec.ofNat 32 (virtioNetHdrSize + data.length) := congrArg VirtqDesc.len desc
    change (v.tx.desc i).len.toNat = _
    rw [len, BitVec.toNat_ofNat, Nat.mod_eq_of_lt]
    simp only [packetSize, virtioNetHdrSize] at *
    omega

theorem Call.accepted (call : Call r m n data (.ok ())) :
    ∃ i, i < txBufferCount ∧ Offers (r.state m).net (r.state (n + 1)).net i data := by
  obtain ⟨held, index⟩ := call.open
  have inv := tx_invariant r (Nat.le_of_lt call.bound)
  have last := r.steps n call.bound
  rw [call.returns] at last
  obtain ⟨i, small, offers⟩ := last.accepted inv held
  exact ⟨i, small, index ▸ offers.index, index ▸ offers.entry, offers.addr, offers.len, offers.flags, offers.bytes⟩

theorem TxStep.refused {s s' : TxState} {error : DriverError} (step : TxStep s (.returns (.error error)) s') :
    s'.net.tx.availIdx = s.net.tx.availIdx := by
  cases step <;> rfl

theorem Call.refused {error : DriverError} (call : Call r m n data (.error error)) :
    (r.state (n + 1)).net.tx.availIdx = (r.state m).net.tx.availIdx := by
  have last := r.steps n call.bound
  rw [call.returns] at last
  exact last.refused.trans call.open.2

/-- In the loop the descriptors on their way become fewer with each iteration, and never more. -/
theorem TxStep.loop {s s' : TxState} {l : TxLabel} (inv : TxInvariant s) (step : TxStep s l s')
    (inside : l.inLoop = true) :
    (inflight s'.net.tx s'.device).length + (if l.isIterate then 1 else 0) = (inflight s.net.tx s.device).length := by
  have room := inv.conserved.returned_room fun _ => inUse_lt
  cases step with
  | take pending => exact (take_perm pending).length_eq
  | give held => exact (give_perm held (by simp only [queueSize]; omega)).length_eq
  | iterate used => exact (reclaimed_conserved inv.conserved used).2.symm
  | _ => cases inside

theorem loop_count (r : TxRun) (le : m ≤ n) (bound : n ≤ r.len)
    (inside : ∀ i, m ≤ i → i < n → (r.label i).inLoop = true) :
    (inflight (r.state n).net.tx (r.state n).device).length + Nat.count (fun i => (r.label i).isIterate = true) n =
      (inflight (r.state m).net.tx (r.state m).device).length + Nat.count (fun i => (r.label i).isIterate = true) m := by
  induction n, le using Nat.le_induction with
  | base => rfl
  | succ n le ih =>
    have before := ih (by omega) fun i lower upper => inside i lower (by omega)
    have fewer := (r.steps n bound).loop (tx_invariant r (by omega)) (inside n le (Nat.lt_succ_self n))
    rw [Nat.count_succ]
    omega

/-- TX buffers are never reused in flight. -/
theorem transmit_safe (r : TxRun) : TxSafe r where
  exact n bound := (tx_invariant r bound).conserved
  unwritten n bound i member := (r.steps n bound).unwritten (tx_invariant r (Nat.le_of_lt bound)) member
  accepted m n data call := call.accepted
  refused m n data error call := call.refused
  resumes n bound call phase := by
    generalize r.state n = s at phase
    obtain ⟨v, d, _⟩ := s
    cases phase
    cases step : v.reclaimTxStep with
    | some v' => exact ⟨_, _, .iterate step, .inl rfl⟩
    | none =>
      cases call with
      | none => exact ⟨_, _, .leave step, .inr rfl⟩
      | some data => exact ⟨_, _, .proceed step, .inr rfl⟩
  terminates m n le bound inside := by
    have count := loop_count r le bound inside
    have total := (tx_invariant r (Nat.le_trans le bound)).conserved.length_le fun _ => inUse_lt
    simp only [txBufferCount]
    omega

end Run

/-! ### Calls without the device -/

theorem reclaimTxLoop_done {v : VirtioNet} {fuel : Nat} (enough : (v.tx.usedIdx - v.tx.lastUsed).toNat ≤ fuel) :
    (VirtioNet.reclaimTxLoop fuel v).reclaimTxStep = none := by
  induction fuel generalizing v with
  | zero =>
    have caught := @add_distance 16 v.tx.lastUsed v.tx.usedIdx
    rw [Nat.le_zero.mp enough, BitVec.add_zero] at caught
    simp [VirtioNet.reclaimTxLoop, VirtioNet.reclaimTxStep, caught]
  | succ fuel ih =>
    rw [VirtioNet.reclaimTxLoop]
    split
    · assumption
    · next v' used =>
      refine ih ?_
      unfold VirtioNet.reclaimTxStep at used
      dsimp only at used
      split at used
      · cases used
      · next pending =>
        cases used
        have distance := distance_next pending
        dsimp only
        omega

theorem reclaimTxLoop_steps (d : Device) (call : Option (List Byte)) (fuel : Nat) (v : VirtioNet) :
    Relation.ReflTransGen (fun s s' => ∃ l, TxStep s l s') ⟨v, d, .reclaiming call⟩
      ⟨VirtioNet.reclaimTxLoop fuel v, d, .reclaiming call⟩ := by
  induction fuel generalizing v with
  | zero => exact .refl
  | succ fuel ih =>
    rw [VirtioNet.reclaimTxLoop]
    split
    · exact .refl
    · next v' used => exact .head ⟨_, .iterate used⟩ (ih v')

/-- A call that the device does not step into is `transmit`. -/
theorem transmit_steps (v : VirtioNet) (d : Device) (data : List Byte) :
    Relation.ReflTransGen (fun s s' => ∃ l, TxStep s l s') ⟨v, d, .idle⟩ ⟨(v.transmit data).2, d, .idle⟩ := by
  refine .head ⟨.transmit data, .transmit⟩ ?_
  cases refused : v.transmitRefused data with
  | some error =>
    have result : (v.transmit data).2 = v := by simp only [VirtioNet.transmit, refused]
    rw [result]
    exact .single ⟨_, .refuse refused⟩
  | none =>
    refine .head ⟨_, .enter refused⟩ ((reclaimTxLoop_steps d (some data) (v.tx.usedIdx - v.tx.lastUsed).toNat v).trans ?_)
    refine .head ⟨_, .proceed (reclaimTxLoop_done le_rfl)⟩ ?_
    cases filled : VirtioNet.transmitFill data v.reclaimTx with
    | none =>
      have result : (v.transmit data).2 = v.reclaimTx := by simp only [VirtioNet.transmit, refused, filled]
      rw [result]
      exact .single ⟨_, .full filled⟩
    | some claimed =>
      obtain ⟨i, v'⟩ := claimed
      have result : (v.transmit data).2 = v'.transmitPublish := by simp only [VirtioNet.transmit, refused, filled]
      rw [result]
      exact .head ⟨_, .fill filled⟩ (.single ⟨_, .publish⟩)

end GooseOs.Virtio
