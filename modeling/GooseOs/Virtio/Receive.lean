import GooseOs.Virtio.Queue
import GooseOs.Lib.Run

/-!
Reception: `receive` calls with a 1514-byte buffer against a device that fills and returns the descriptors it
holds. A used element without a frame is skipped without its buffer being offered again.
-/

namespace GooseOs.Virtio
open RingBuffer

/-- Where the driver is. -/
inductive RxPhase where
  | idle
  | entered
  | loaded
  | offering (i : Nat) (frame : List Byte)

/-- The buffer the driver has processed and not yet offered again. -/
def RxPhase.claimed : RxPhase → List Nat
  | .offering i _ => [i]
  | _ => []

structure RxState where
  net : VirtioNet
  device : Device
  phase : RxPhase

inductive RxLabel where
  | take
  | write (i : BitVec 16)
  | give (i : BitVec 16) (len : BitVec 32)
  | receive
  | load
  | consume
  | returns (result : Except DriverError (List Byte))
  deriving Inhabited

inductive RxStep : RxState → RxLabel → RxState → Prop
  | take {s : RxState} (pending : s.device.next ≠ s.net.rx.availIdx) :
      RxStep s .take { s with device := s.device.take s.net.rx }
  | write {s : RxState} {i : BitVec 16} {buffer : Memory} (held : i ∈ s.device.held) :
      RxStep s (.write i)
        { s with net := { s.net with rxBuffers := Function.update s.net.rxBuffers i.toNat buffer } }
  | give {s : RxState} {i : BitVec 16} {len : BitVec 32} (held : i ∈ s.device.held) :
      RxStep s (.give i len) { s with net := { s.net with rx := s.net.rx.give i len }, device := s.device.drop i }
  | receive {v : VirtioNet} {d : Device} : RxStep ⟨v, d, .idle⟩ .receive ⟨v, d, .entered⟩
  | refuse {v : VirtioNet} {d : Device} {error : DriverError} (refused : v.receiveRefused = some error) :
      RxStep ⟨v, d, .entered⟩ (.returns (.error error)) ⟨v, d, .idle⟩
  | load {v : VirtioNet} {d : Device} (passes : v.receiveRefused = none) :
      RxStep ⟨v, d, .entered⟩ .load ⟨v, d, .loaded⟩
  | skip {v v' : VirtioNet} {d : Device} (rejected : v.receiveElem packetSize = .ok (none, v')) :
      RxStep ⟨v, d, .loaded⟩ (.returns (.error .invalidState)) ⟨v', d, .idle⟩
  | consume {v v' : VirtioNet} {d : Device} {i : Nat} {frame : List Byte}
      (copied : v.receiveElem packetSize = .ok (some (i, frame), v')) :
      RxStep ⟨v, d, .loaded⟩ .consume ⟨v', d, .offering i frame⟩
  | publish {v : VirtioNet} {d : Device} {i : Nat} {frame : List Byte} :
      RxStep ⟨v, d, .offering i frame⟩ (.returns (.ok frame)) ⟨v.publishRx, d, .idle⟩

/-- The queue as `init` leaves it. -/
structure RxInitial (s : RxState) : Prop where
  queue : ∃ v : VirtioNet, v.rx = {} ∧ s.net = { v.populateRxQueue with initialized := true }
  device : s.device = {}
  phase : s.phase = .idle

abbrev RxRun := Run RxInitial RxStep

/-! ### Frames -/

/-- The frame of a used element, for a 1514-byte buffer; an element that ends with the header has none. -/
def frameOf (v : VirtioNet) (elem : VirtqUsedElem) : Option (List Byte) :=
  if elem.len.toNat ≤ virtioNetHdrSize then none
  else some (slice (v.rxBuffers elem.id.toNat) virtioNetHdrSize (min (elem.len.toNat - virtioNetHdrSize) packetSize))

/-- The frames in the unprocessed part of the used ring. -/
def VirtioNet.pendingFrames (v : VirtioNet) : List (List Byte) :=
  (window queueSize v.rx.usedRing v.rx.lastUsed v.rx.usedIdx).filterMap (frameOf v)

/-- The frame copied out by a call that has not returned yet. -/
def RxPhase.copied : RxPhase → List (List Byte)
  | .offering _ frame => [frame]
  | _ => []

/-- The frame a step of the device hands over. -/
def RxState.given (s : RxState) : RxLabel → Option (List Byte)
  | .give i len => frameOf s.net { id := i.setWidth 32, len := len }
  | _ => none

def RxLabel.returned : RxLabel → Option (List Byte)
  | .returns (.ok frame) => some frame
  | _ => none

/-! ### Pieces of `receive` -/

section Pieces
variable {v v' : VirtioNet} {d : Device} {i : Nat} {frame : List Byte}

theorem provided_offered (room : (v.rx.availIdx - d.next).toNat < queueSize) :
    offered (v.provideRx i).rx d = offered v.rx d := offered_update room

theorem published_offered (room : (v.rx.availIdx - d.next).toNat < queueSize) :
    offered v.publishRx.rx d = offered v.rx d ++ [(v.rx.availRing (cell queueSize v.rx.availIdx)).toNat] :=
  offered_publish room

theorem populate_offered (l : List Nat) (small : ∀ i ∈ l, i < 2 ^ 16)
    (room : (v.rx.availIdx - d.next).toNat + l.length ≤ queueSize) :
    offered (l.foldl (fun v i => (v.provideRx i).publishRx) v).rx d = offered v.rx d ++ l ∧
      (l.foldl (fun v i => (v.provideRx i).publishRx) v).rx.returned = v.rx.returned := by
  induction l generalizing v with
  | nil => simp
  | cons i l ih =>
    rw [List.length_cons] at room
    have wide : (v.rx.availIdx - d.next).toNat + 1 < 2 ^ 16 := by
      simp only [queueSize] at room
      omega
    have next : ((v.provideRx i).publishRx.rx.availIdx - d.next).toNat = (v.rx.availIdx - d.next).toNat + 1 :=
      distance_succ wide
    obtain ⟨all, used⟩ := ih (v := (v.provideRx i).publishRx) (fun j member => small j (List.mem_cons_of_mem i member))
      (by omega)
    have first : (v.provideRx i).rx.availRing (cell queueSize v.rx.availIdx) = BitVec.ofNat 16 i := Function.update_self ..
    rw [List.foldl_cons]
    refine ⟨?_, used⟩
    rw [all, published_offered (by exact (by omega : (v.rx.availIdx - d.next).toNat < queueSize)),
      provided_offered (by omega)]
    change _ ++ [((v.provideRx i).rx.availRing (cell queueSize v.rx.availIdx)).toNat] ++ l = _
    rw [first, BitVec.toNat_ofNat, Nat.mod_eq_of_lt (small i List.mem_cons_self), List.append_assoc]
    rfl

/-- `receive` never slices out of range, whatever the device wrote. -/
theorem receiveElem_total (v : VirtioNet) : ∃ answer, v.receiveElem packetSize = .ok answer := by
  unfold VirtioNet.receiveElem
  dsimp only
  split
  · exact ⟨_, rfl⟩
  · refine ⟨_, if_pos ⟨Nat.min_le_right .., ?_⟩⟩
    simp only [virtioNetHdrSize, bufSize, packetSize]
    omega

theorem receiveElem_none (rejected : v.receiveElem packetSize = .ok (none, v')) :
    v' = { v with rx := v.rx.processed } ∧ (rxBufferCount ≤ (v.rx.usedRing (cell queueSize v.rx.lastUsed)).id.toNat ∨
      (v.rx.usedRing (cell queueSize v.rx.lastUsed)).len.toNat ≤ virtioNetHdrSize) := by
  unfold VirtioNet.receiveElem at rejected
  dsimp only at rejected
  split at rejected
  · next bad =>
    cases rejected
    exact ⟨rfl, bad⟩
  · split at rejected <;> cases rejected

theorem receiveElem_some (copied : v.receiveElem packetSize = .ok (some (i, frame), v')) :
    i = (v.rx.usedRing (cell queueSize v.rx.lastUsed)).id.toNat ∧
      frameOf v (v.rx.usedRing (cell queueSize v.rx.lastUsed)) = some frame ∧
      v' = ({ v with rx := v.rx.processed } : VirtioNet).provideRx i := by
  unfold VirtioNet.receiveElem at copied
  dsimp only at copied
  split at copied
  · cases copied
  · next good =>
    split at copied
    · cases copied
      refine ⟨rfl, ?_, rfl⟩
      rw [frameOf, if_neg fun short => good (.inr short)]
    · cases copied

end Pieces

/-! ### The invariant -/

structure RxInvariant (s : RxState) : Prop where
  conserved : Conserved (· < rxBufferCount) s.phase.claimed s.net.rx s.device
  long : ∀ elem ∈ window queueSize s.net.rx.usedRing s.net.rx.lastUsed s.net.rx.usedIdx, virtioNetHdrSize < elem.len.toNat
  waiting : s.phase = .loaded → s.net.rx.lastUsed ≠ s.net.rx.usedIdx
  ready : ∀ i frame, s.phase = .offering i frame →
    (s.net.rx.availRing (cell queueSize s.net.rx.availIdx)).toNat = i

/-- The device hands no buffer back without a frame. -/
def RxLabel.Filled : RxLabel → Prop
  | .give _ len => virtioNetHdrSize < len.toNat
  | _ => True

section Step
variable {s s' : RxState} {l : RxLabel}

theorem RxInitial.queues (initial : RxInitial s) :
    inflight s.net.rx s.device = List.range rxBufferCount ∧
      window queueSize s.net.rx.usedRing s.net.rx.lastUsed s.net.rx.usedIdx = [] := by
  obtain ⟨⟨v, fresh, net⟩, device, phase⟩ := initial
  have populated := populate_offered (v := v) (d := {}) (List.range rxBufferCount)
    (fun i member => by have := List.mem_range.mp member; simp only [rxBufferCount] at this; omega)
    (by rw [fresh]; decide)
  rw [fresh] at populated
  have rx : s.net.rx = v.populateRxQueue.rx := by rw [net]
  have out : offered s.net.rx s.device = List.range rxBufferCount := by
    rw [rx, device]
    exact populated.1.trans (by decide)
  have used : s.net.rx.returned = [] := by
    rw [rx]
    exact populated.2.trans (by decide)
  refine ⟨?_, List.map_eq_nil_iff.mp used⟩
  rw [inflight, out, used, device]
  rfl

theorem RxInitial.invariant (initial : RxInitial s) : RxInvariant s := by
  obtain ⟨all, used⟩ := initial.queues
  have phase := initial.phase
  refine ⟨⟨?_, fun i => ?_⟩, fun elem member => ?_, by rw [phase]; simp, by rw [phase]; simp⟩
  · rw [phase, all]
    exact List.nodup_range
  · rw [phase, all]
    exact List.mem_range
  · rw [used] at member
    cases member

theorem descriptor_lt {i : Nat} (small : i < rxBufferCount) : i < 32 := small

theorem not_rejected {v : VirtioNet} {d : Device} (inv : RxInvariant ⟨v, d, .loaded⟩) (v' : VirtioNet) :
    v.receiveElem packetSize ≠ .ok (none, v') := by
  obtain ⟨conserved, long, waiting, -⟩ := inv
  dsimp only at conserved long waiting
  intro rejected
  have pending := waiting rfl
  have small := (conserved.exact _).mp ((processed_perm (d := d) pending).mem_iff.mp List.mem_cons_self)
  rw [window_cons pending] at long
  have frame := long _ List.mem_cons_self
  rcases (receiveElem_none rejected).2 with large | short
  · omega
  · omega

theorem RxInvariant.step (inv : RxInvariant s) (filled : l.Filled) (step : RxStep s l s') : RxInvariant s' := by
  obtain ⟨conserved, long, waiting, ready⟩ := inv
  cases step with
  | take pending => exact ⟨conserved.take pending, long, waiting, ready⟩
  | write held => exact ⟨conserved, long, waiting, ready⟩
  | give held =>
    rename_i i len
    have room := conserved.returned_room fun _ => descriptor_lt
    have wide : (s.net.rx.usedIdx - s.net.rx.lastUsed).toNat + 1 < 2 ^ 16 := by omega
    refine ⟨conserved.give (fun _ => descriptor_lt) le_rfl held, fun elem member => ?_, fun phase caught => ?_, ready⟩
    · change elem ∈ window queueSize (Function.update s.net.rx.usedRing (cell queueSize s.net.rx.usedIdx) _)
        s.net.rx.lastUsed (s.net.rx.usedIdx + 1) at member
      rw [window_snoc wide, window_update (by decide) (by simp only [queueSize]; omega), Function.update_self,
        List.mem_append, List.mem_singleton] at member
      rcases member with old | rfl
      · exact long elem old
      · exact filled
    · have distance := distance_succ wide
      change s.net.rx.lastUsed = s.net.rx.usedIdx + 1 at caught
      rw [← caught, BitVec.sub_self] at distance
      cases distance
  | receive => exact ⟨conserved, long, by simp, by simp⟩
  | refuse => exact ⟨conserved, long, by simp, by simp⟩
  | load passes =>
    refine ⟨conserved, long, fun _ => ?_, by simp⟩
    unfold VirtioNet.receiveRefused at passes
    split at passes
    · cases passes
    · split at passes
      · cases passes
      · assumption
  | skip rejected =>
    rename_i v v' d
    exact absurd rejected (not_rejected ⟨conserved, long, waiting, ready⟩ v')
  | consume copied =>
    rename_i v v' d i frame
    obtain ⟨rfl, -, rfl⟩ := receiveElem_some copied
    dsimp only at conserved long waiting
    have pending := waiting rfl
    have moved := processed_perm (d := d) pending
    have small := (conserved.exact _).mp (moved.mem_iff.mp List.mem_cons_self)
    have room := conserved.offered_room fun _ => descriptor_lt
    refine ⟨conserved.perm ?_, fun elem member => ?_, by simp, fun i frame phase => ?_⟩
    · refine List.Perm.trans (List.Perm.cons _ (List.Perm.of_eq ?_)) moved
      unfold inflight
      rw [provided_offered (by exact (by omega : (v.rx.availIdx - d.next).toNat < 64))]
      rfl
    · refine long elem ?_
      rw [window_cons pending]
      exact List.mem_cons_of_mem _ member
    · cases phase
      change ((Function.update v.rx.availRing (cell queueSize v.rx.availIdx) (BitVec.ofNat 16 _))
        (cell queueSize v.rx.availIdx)).toNat = _
      rw [Function.update_self, BitVec.toNat_ofNat, Nat.mod_eq_of_lt]
      simp only [rxBufferCount] at small
      omega
  | publish =>
    rename_i v d i frame
    dsimp only at conserved ready
    have room := conserved.offered_room fun _ => descriptor_lt
    refine ⟨conserved.perm ?_, long, by simp, by simp⟩
    unfold inflight
    rw [published_offered (by simp only [queueSize]; omega), ready i frame rfl]
    simp only [List.append_assoc]
    exact List.perm_middle

/-! ### Order -/

theorem held_not_returned {q : Virtq} {d : Device} {out : Nat → Prop} {claimed : List Nat} {i : BitVec 16}
    (conserved : Conserved out claimed q d) (held : i ∈ d.held) : i.toNat ∉ q.returned := by
  have once := conserved.once
  unfold inflight at once
  rw [← List.append_assoc, List.nodup_append] at once
  intro returned
  refine once.2.2 i.toNat ?_ i.toNat returned rfl
  exact List.mem_append_right _ (List.mem_append_right _ (List.mem_map_of_mem held))

/-- What a step hands over, copies out and returns, in this order. -/
theorem RxStep.frames (inv : RxInvariant s) (step : RxStep s l s') :
    s.phase.copied ++ s.net.pendingFrames ++ (s.given l).toList =
      l.returned.toList ++ (s'.phase.copied ++ s'.net.pendingFrames) := by
  obtain ⟨conserved, long, waiting, ready⟩ := inv
  cases step with
  | take => exact List.append_nil _
  | write held =>
    rename_i i buffer
    refine (List.append_nil _).trans ?_
    refine congrArg (s.phase.copied ++ ·) (List.filterMap_congr fun elem member => ?_)
    have other : elem.id.toNat ≠ i.toNat := by
      intro same
      refine held_not_returned conserved held ?_
      rw [← same]
      exact List.mem_map_of_mem member
    simp only [frameOf, Function.update_of_ne other]
  | give held =>
    rename_i i len
    have room := conserved.returned_room fun _ => descriptor_lt
    have wide : (s.net.rx.usedIdx - s.net.rx.lastUsed).toNat + 1 < 2 ^ 16 := by omega
    have pending : VirtioNet.pendingFrames { s.net with rx := s.net.rx.give i len } =
        s.net.pendingFrames ++ (frameOf s.net { id := i.setWidth 32, len := len }).toList := by
      unfold VirtioNet.pendingFrames
      change List.filterMap (frameOf s.net) (window queueSize (Function.update s.net.rx.usedRing
        (cell queueSize s.net.rx.usedIdx) { id := i.setWidth 32, len := len }) s.net.rx.lastUsed (s.net.rx.usedIdx + 1)) = _
      rw [window_snoc wide, window_update (by decide) (by simp only [queueSize]; omega), Function.update_self,
        List.filterMap_append]
      congr 1
    change s.phase.copied ++ s.net.pendingFrames ++ (frameOf s.net { id := i.setWidth 32, len := len }).toList =
      s.phase.copied ++ VirtioNet.pendingFrames { s.net with rx := s.net.rx.give i len }
    rw [pending, List.append_assoc]
  | receive => exact List.append_nil _
  | refuse => exact List.append_nil _
  | load => exact List.append_nil _
  | skip rejected =>
    rename_i v v' d
    exact absurd rejected (not_rejected ⟨conserved, long, waiting, ready⟩ v')
  | consume copied =>
    rename_i v v' d i frame
    obtain ⟨rfl, framed, rfl⟩ := receiveElem_some copied
    dsimp only at waiting
    have pending : v.pendingFrames = frame :: VirtioNet.pendingFrames { v with rx := v.rx.processed } := by
      unfold VirtioNet.pendingFrames
      rw [window_cons (waiting rfl), List.filterMap_cons_some framed]
      rfl
    change v.pendingFrames ++ [] = [] ++ ([frame] ++ VirtioNet.pendingFrames { v with rx := v.rx.processed })
    rw [pending]
    simp
  | publish => exact List.append_nil _

/-! ### Calls -/

/-- The driver is inside a `receive` call. -/
def RxPhase.busy : RxPhase → Bool
  | .idle => false
  | _ => true

theorem RxStep.inside (step : RxStep s l s') (busy : s.phase.busy = true) (other : ∀ result, l ≠ .returns result) :
    s'.phase.busy = true ∧ s'.net.rx.availIdx = s.net.rx.availIdx := by
  cases step with
  | take => exact ⟨busy, rfl⟩
  | write => exact ⟨busy, rfl⟩
  | give => exact ⟨busy, rfl⟩
  | receive => exact ⟨rfl, rfl⟩
  | refuse => exact absurd rfl (other _)
  | load => exact ⟨rfl, rfl⟩
  | skip => exact absurd rfl (other _)
  | consume copied =>
    obtain ⟨-, -, rfl⟩ := receiveElem_some copied
    exact ⟨rfl, rfl⟩
  | publish => exact absurd rfl (other _)

/-- A consumed element's descriptor is in the driver's hands. -/
theorem RxStep.consumed (inv : RxInvariant s) (step : RxStep s l s') (moved : s'.net.rx.lastUsed ≠ s.net.rx.lastUsed) :
    l = .consume ∧ ∃ frame, s'.phase = .offering (s.net.rx.usedRing (cell queueSize s.net.rx.lastUsed)).id.toNat frame := by
  cases step with
  | skip rejected => exact absurd rejected (not_rejected inv _)
  | consume copied =>
    obtain ⟨rfl, -, rfl⟩ := receiveElem_some copied
    exact ⟨rfl, _, rfl⟩
  | _ => exact absurd rfl moved

theorem RxStep.kept {i : Nat} {frame : List Byte} (step : RxStep s l s') (phase : s.phase = .offering i frame)
    (other : ∀ result, l ≠ .returns result) : s'.phase = .offering i frame := by
  cases step with
  | take => exact phase
  | write => exact phase
  | give => exact phase
  | publish => exact absurd rfl (other _)
  | _ => cases phase

theorem RxStep.offers {i : Nat} {frame : List Byte} {result : Except DriverError (List Byte)} (inv : RxInvariant s)
    (step : RxStep s (.returns result) s') (phase : s.phase = .offering i frame) :
    s'.net.rx.availIdx = s.net.rx.availIdx + 1 ∧
      (s'.net.rx.availRing (cell queueSize s.net.rx.availIdx)).toNat = i := by
  cases step with
  | publish => exact ⟨rfl, inv.ready i frame phase⟩
  | _ => cases phase

end Step

/-! ### Runs -/

/-- A `receive` call from step `m` to its return in step `n`. -/
structure RxCall (r : RxRun) (m n : Nat) (result : Except DriverError (List Byte)) : Prop where
  before : m < n
  bound : n < r.len
  call : r.label m = .receive
  returns : r.label n = .returns result
  inside : ∀ i, m < i → i < n → ∀ other, r.label i ≠ .returns other

/-- The frames the device has handed over before step `n`. -/
def givenFrames (r : RxRun) (n : Nat) : List (List Byte) :=
  (List.range n).filterMap fun i => (r.state i).given (r.label i)

/-- The frames returned to the caller before step `n`. -/
def returnedFrames (r : RxRun) (n : Nat) : List (List Byte) := (List.range n).filterMap fun i => (r.label i).returned

structure RxSafe (r : RxRun) : Prop where
  exact : ∀ n, n ≤ r.len →
    Conserved (· < rxBufferCount) (r.state n).phase.claimed (r.state n).net.rx (r.state n).device
  reoffered : ∀ m n result k, RxCall r m n result → m < k → k ≤ n →
    (r.state (k + 1)).net.rx.lastUsed ≠ (r.state k).net.rx.lastUsed →
    (r.state (n + 1)).net.rx.availIdx = (r.state m).net.rx.availIdx + 1 ∧
      ((r.state (n + 1)).net.rx.availRing (cell queueSize (r.state m).net.rx.availIdx)).toNat =
        ((r.state k).net.rx.usedRing (cell queueSize (r.state k).net.rx.lastUsed)).id.toNat
  ordered : ∀ n, n ≤ r.len →
    givenFrames r n = returnedFrames r n ++ ((r.state n).phase.copied ++ (r.state n).net.pendingFrames)
  inRange : ∀ n, n ≤ r.len → ∃ answer, (r.state n).net.receiveElem packetSize = .ok answer

section Run
variable {r : RxRun} {m n : Nat}

theorem rx_invariant (filled : ∀ n, n < r.len → (r.label n).Filled) (bound : n ≤ r.len) : RxInvariant (r.state n) :=
  r.invariant_of_steps (fun _ initial => initial.invariant)
    (fun n bound inv => inv.step (filled n bound) (r.steps n bound)) n bound

theorem filterMap_singleton {α β : Type} (f : α → Option β) (a : α) : List.filterMap f [a] = (f a).toList := by
  cases found : f a <;> simp [found]

/-- The frames are returned in the order of the used ring, and none is lost. -/
theorem frames_ordered (filled : ∀ n, n < r.len → (r.label n).Filled) (bound : n ≤ r.len) :
    givenFrames r n = returnedFrames r n ++ ((r.state n).phase.copied ++ (r.state n).net.pendingFrames) := by
  induction n with
  | zero =>
    have start := r.start
    rw [VirtioNet.pendingFrames, start.queues.2, start.phase]
    rfl
  | succ n ih =>
    have before := ih (by omega)
    have frames := (r.steps n bound).frames (rx_invariant filled (by omega))
    unfold givenFrames returnedFrames at *
    rw [List.range_succ, List.filterMap_append, List.filterMap_append, before, List.append_assoc]
    rw [filterMap_singleton, filterMap_singleton, frames, List.append_assoc]

theorem RxCall.open {result : Except DriverError (List Byte)} {k : Nat} (call : RxCall r m n result) (above : m < k)
    (below : k ≤ n) : (r.state k).phase.busy = true ∧ (r.state k).net.rx.availIdx = (r.state m).net.rx.availIdx := by
  induction k, above using Nat.le_induction with
  | base =>
    have first := r.steps m (Nat.lt_trans call.before call.bound)
    rw [call.call] at first
    generalize r.state (m + 1) = s' at first
    generalize r.state m = s at first
    cases first
    exact ⟨rfl, rfl⟩
  | succ k above ih =>
    obtain ⟨busy, index⟩ := ih (by omega)
    have bound := call.bound
    obtain ⟨busy', index'⟩ := (r.steps k (by omega)).inside busy (call.inside k (by omega) (by omega))
    exact ⟨busy', index'.trans index⟩

theorem RxCall.reoffered {result : Except DriverError (List Byte)} {k : Nat}
    (filled : ∀ n, n < r.len → (r.label n).Filled) (call : RxCall r m n result) (above : m < k) (below : k ≤ n)
    (moved : (r.state (k + 1)).net.rx.lastUsed ≠ (r.state k).net.rx.lastUsed) :
    (r.state (n + 1)).net.rx.availIdx = (r.state m).net.rx.availIdx + 1 ∧
      ((r.state (n + 1)).net.rx.availRing (cell queueSize (r.state m).net.rx.availIdx)).toNat =
        ((r.state k).net.rx.usedRing (cell queueSize (r.state k).net.rx.lastUsed)).id.toNat := by
  have bound := call.bound
  obtain ⟨label, frame, phase⟩ := (r.steps k (by omega)).consumed (rx_invariant filled (by omega)) moved
  have early : k < n := by
    rcases Nat.lt_or_ge k n with early | late
    · exact early
    · have same : k = n := by omega
      rw [same, call.returns] at label
      cases label
  have kept : ∀ j, k + 1 ≤ j → j ≤ n →
      (r.state j).phase = .offering ((r.state k).net.rx.usedRing (cell queueSize (r.state k).net.rx.lastUsed)).id.toNat frame := by
    intro j lower
    induction j, lower using Nat.le_induction with
    | base => exact fun _ => phase
    | succ j lower ih =>
      intro upper
      exact (r.steps j (by omega)).kept (ih (by omega)) (call.inside j (by omega) (by omega))
  have last := r.steps n bound
  rw [call.returns] at last
  obtain ⟨index, entry⟩ := last.offers (rx_invariant filled (Nat.le_of_lt bound)) (kept n early le_rfl)
  rw [(call.open call.before le_rfl).2] at index entry
  exact ⟨index, entry⟩

/-- RX buffers are conserved as long as the device hands none back without a frame. -/
theorem receive_safe (r : RxRun) (filled : ∀ n, n < r.len → (r.label n).Filled) : RxSafe r where
  exact _ bound := (rx_invariant filled bound).conserved
  reoffered _ _ _ _ call above below moved := call.reoffered filled above below moved
  ordered _ bound := frames_ordered filled bound
  inRange _ _ := receiveElem_total _

end Run

/-! ### Two runs -/

namespace Sample

def start : VirtioNet :=
  { VirtioNet.populateRxQueue { rxPa := fun _ => 0, txPa := fun _ => 0 } with initialized := true }

def holding : Device := ({} : Device).take start.rx

/-- The first buffer is handed back with this length. -/
def handed (len : BitVec 32) : VirtioNet := { start with rx := start.rx.give 0 len }

def settled (len : BitVec 32) (phase : RxPhase) : RxState := ⟨handed len, holding.drop 0, phase⟩

/-- The device takes a descriptor and returns it, and the driver calls `receive`. -/
def opening (len : BitVec 32) : List (RxLabel × RxState) :=
  [(.take, ⟨start, holding, .idle⟩), (.give 0 len, settled len .idle), (.receive, settled len .entered),
    (.load, settled len .loaded)]

theorem initial : RxInitial ⟨start, {}, .idle⟩ := ⟨⟨_, rfl, rfl⟩, rfl, rfl⟩

theorem opening_linked (len : BitVec 32) {rest : List (RxLabel × RxState)}
    (linked : Run.Linked RxStep (settled len .loaded) rest) :
    Run.Linked RxStep ⟨start, {}, .idle⟩ (opening len ++ rest) := by
  have pending : ({} : Device).next ≠ start.rx.availIdx := by decide
  have held : (0 : BitVec 16) ∈ holding.held := by decide
  have passes : (handed len).receiveRefused = none := rfl
  exact ⟨.take pending, .give (s := ⟨start, holding, .idle⟩) held, .receive, .load passes, linked⟩

/-- The element of `len` bytes, 12 or fewer, is skipped. -/
def skipped : List (RxLabel × RxState) :=
  [(.returns (.error .invalidState), ⟨{ handed 12 with rx := (handed 12).rx.processed }, holding.drop 0, .idle⟩)]

def skippedRun : RxRun := Run.ofTrace _ initial (opening 12 ++ skipped) (opening_linked 12 ⟨.skip rfl, trivial⟩)

/-- A frame of one byte is returned. -/
def framed : List (RxLabel × RxState) :=
  let next := ({ handed 13 with rx := (handed 13).rx.processed } : VirtioNet).provideRx 0
  [(.consume, ⟨next, holding.drop 0, .offering 0 [0]⟩), (.returns (.ok [0]), ⟨next.publishRx, holding.drop 0, .idle⟩)]

def framedRun : RxRun := Run.ofTrace _ initial (opening 13 ++ framed) (opening_linked 13 ⟨.consume rfl, .publish, trivial⟩)

end Sample

theorem receive_safe_framed : RxSafe Sample.framedRun := by
  refine receive_safe Sample.framedRun fun n bound => ?_
  have last : n < 6 := bound
  rcases (by omega : n = 0 ∨ n = 1 ∨ n = 2 ∨ n = 3 ∨ n = 4 ∨ n = 5) with rfl | rfl | rfl | rfl | rfl | rfl
  · trivial
  · exact (by decide : virtioNetHdrSize < (13 : BitVec 32).toNat)
  all_goals trivial

/-- An element without a frame takes its buffer with it. -/
theorem receive_leaks : ∃ r : RxRun, ¬ RxSafe r := by
  refine ⟨Sample.skippedRun, fun law => ?_⟩
  have call : RxCall Sample.skippedRun 2 4 (.error .invalidState) := by
    refine ⟨by decide, by decide, rfl, rfl, fun i above below other => ?_⟩
    obtain rfl : i = 3 := by omega
    nofun
  have offered := (law.reoffered 2 4 _ 4 call (by decide) le_rfl (by decide)).1
  exact absurd offered (by decide)

end GooseOs.Virtio
