import GooseOs.Irq.Handlers
import GooseOs.Process.Endings
import GooseOs.Machine.Reference

/-!
Who owns an interrupt, over whole runs: ownership is a matching exactly when processes register
properly, and a claimed interrupt stays answerable when they register once and finish what they
were handed.
-/

namespace GooseOs
open Trap Security

section Law
variable [Platform]

/-! ### Runs of the table -/

/-- The event a step of the machine amounts to. -/
inductive StepEvent (k : Kernel) : Label → IrqEvent → Prop where
  | trap (t : Trap) : StepEvent k (.trap t) (irqEvent k t)
  | spawned (pid : Nat) : StepEvent k (.trap .ecall) (.spawned pid)
  | other {l : Label} (quiet : ∀ t, l ≠ .trap t) : StepEvent k l .none

variable {k k' : Kernel} {l : Label}

theorem trapHandler_user {t : Trap} (mode : t = .ecall → k.inUser) (h : trapHandler k t = .ok k')
    (own : t = .ecall ∨ ∃ code, t = .fault code) : k.inUser := by
  rcases own with call | ⟨code, rfl⟩
  · exact mode call
  · simp only [trapHandler] at h
    split at h
    · next user => simpa [Core.inUser] using user
    · cases h

theorem possible_trap {t : Trap} (cons : Consistent k.toCore) (mode : t = .ecall → k.inUser)
    (h : trapHandler k t = .ok k') (raised : ∀ irq, t = .external irq → irq = 0 ∨ k.plic.enabled irq = true) :
    k.irqs.Possible (irqEvent k t) := by
  have live : (t = .ecall ∨ ∃ code, t = .fault code) → (k.irqs.slot k.currentPid).live = true := by
    intro own
    rw [Kernel.irqs, irqSlot_live, (cons.running (trapHandler_user mode h own)).1]
    nofun
  cases t with
  | timer | unhandled code => trivial
  | external irq => exact raised irq rfl
  | fault code => exact live (.inr ⟨code, rfl⟩)
  | ecall =>
    have live := live (.inl rfl)
    unfold irqEvent
    dsimp only
    split
    · exact live
    · split
      · exact live
      · trivial
    · exact live
    · exact live
    · trivial

/-- Every step of the machine is an event that is possible in the table. -/
theorem step_event (cons : Consistent k.toCore) (step : Step k l k') :
    ∃ e, StepEvent k l e ∧ k.irqs.Possible e ∧ k'.irqs = k.irqs.apply e := by
  by_cases trap : ∃ t, l = .trap t
  · obtain ⟨t, rfl⟩ := trap
    obtain ⟨handled, mode⟩ := step_trap step
    have raised : ∀ irq, t = .external irq → irq = 0 ∨ k.plic.enabled irq = true := by
      rintro irq rfl
      cases step with
      | external raised => exact raised
    rcases trapHandler_irqs cons mode handled with same | ⟨rfl, pid, free, used, same⟩
    · exact ⟨_, .trap t, possible_trap cons mode handled raised, same⟩
    · refine ⟨_, .spawned pid, ⟨?_, used⟩, same⟩
      show ((k.procs pid).state != .free) = false
      rw [free]
      rfl
  · have other : ∀ t, l ≠ .trap t := fun t same => trap ⟨t, same⟩
    refine ⟨.none, .other other, trivial, ?_⟩
    cases step with
    | user mode after stores => rfl
    | idle mode after => rfl
    | frame up => rfl
    | _ => exact absurd rfl (other _)

/-! ### Boot -/

section Boot
open Boot

theorem createProcess_plic {pid : Nat} {code : Nat × Nat} (h : createProcess k pid code = .ok k') : k'.plic = k.plic := by
  unfold createProcess at h
  obtain ⟨⟨userCode, vm₁⟩, -, h⟩ := bind_ok h
  obtain ⟨⟨userStack, vm₂⟩, -, h⟩ := bind_ok h
  obtain ⟨⟨userRoot, vm₃⟩, -, h⟩ := bind_ok h
  obtain ⟨vm₄, -, h⟩ := bind_ok h
  obtain ⟨vm₅, -, h⟩ := bind_ok h
  obtain ⟨vm₆, -, h⟩ := bind_ok h
  cases h
  rfl

theorem createProcesses_plic (h : createProcesses k = .ok k') : k'.plic = k.plic := by
  unfold createProcesses at h
  obtain ⟨k₁, tested, h⟩ := bind_ok h
  obtain ⟨k₂, rust, h⟩ := bind_ok h
  have first : k₁.plic = k.plic := by
    unfold launchTest at tested
    split at tested
    · exact createProcess_plic tested
    · cases tested
      rfl
  have second : k₂.plic = k₁.plic := by
    unfold launchRust at rust
    split at rust
    · obtain ⟨parsed, -, rust⟩ := bind_ok rust
      split at rust
      · cases rust
      · unfold createProcessFromElf at rust
        obtain ⟨⟨userRoot, vm⟩, -, rust⟩ := bind_ok rust
        cases rust
        rfl
    · cases rust
      rfl
  have third : k'.plic = k₂.plic := by
    unfold launchDefault at h
    split at h
    · cases h
      rfl
    · obtain ⟨k₃, init, h⟩ := bind_ok h
      obtain ⟨k₄, server, h⟩ := bind_ok h
      obtain ⟨vm, -, h⟩ := bind_ok h
      cases h
      exact (createProcess_plic server).trans (createProcess_plic init)
  rw [third, second, first]

/-- No interrupt is owned, registered, pending or claimed when PID 1 starts. -/
structure Untouched (s : IrqTable) : Prop where
  owner : ∀ q, s.owner q = 0
  num : ∀ pid, (s.slot pid).num = 0
  pending : ∀ pid, (s.slot pid).pending = false
  claimed : ∀ q, s.plic.claimed q = false

theorem booted_plic (booted : Booted k) (q : Nat) : k.plic.claimed q = false := by
  obtain ⟨env, -, h⟩ := booted
  unfold boot at h
  obtain ⟨alloc, -, h⟩ := bind_ok h
  obtain ⟨alloc', -, h⟩ := bind_ok h
  obtain ⟨⟨rootPt, vm⟩, -, h⟩ := bind_ok h
  obtain ⟨k₁, created, h⟩ := bind_ok h
  cases h
  have same : k₁.plic = _ := createProcesses_plic created
  show k₁.plic.claimed q = false
  rw [same]
  rfl

theorem booted_irqs (booted : Booted k) : Untouched k.irqs := by
  obtain ⟨-, -, owners, ⟨satp, entry, sp, first, -⟩, others⟩ := booted_started booted
  have slot : ∀ pid, (k.procs pid).irqNum = 0 ∧ (k.procs pid).irqPending = false := by
    intro pid
    by_cases one : pid = 1
    · rw [one, first]
      exact ⟨rfl, rfl⟩
    · rcases others pid one with empty | ⟨-, _, _, _, created⟩
      · rw [empty]
        exact ⟨rfl, rfl⟩
      · rw [created]
        exact ⟨rfl, rfl⟩
  exact ⟨owners, fun pid => (slot pid).1, fun pid => (slot pid).2, booted_plic booted⟩

theorem booted_sound (booted : Booted k) : k.irqs.Sound := by
  have fresh := booted_irqs booted
  refine ⟨fun pid live => ?_, fun q owned => absurd (fresh.owner q) owned, fun q owned => absurd (fresh.owner q) owned,
    fun pid _ some => absurd (fresh.num pid) some⟩
  have cons := (booted_started booted).consistent
  exact Nat.one_le_iff_ne_zero.mp (cons.range pid (irqSlot_live.mp live)).1

end Boot

namespace MachineRun
variable {r : MachineRun} {n : Nat}

theorem event (r : MachineRun) (bound : n < r.len) :
    ∃ e, StepEvent (r.state n) (r.label n) e ∧ (r.state n).irqs.Possible e ∧
      (r.state (n + 1)).irqs = (r.state n).irqs.apply e :=
  step_event (r.consistent (Nat.le_of_lt bound)) (r.steps n bound)

theorem irqs_sound (r : MachineRun) (bound : n ≤ r.len) : (r.state n).irqs.Sound := by
  apply r.invariant_of_steps (P := fun k => k.irqs.Sound) (fun _ => booted_sound) _ n bound
  intro n bound sound
  obtain ⟨e, -, possible, same⟩ := r.event bound
  rw [same]
  exact sound.apply possible

end MachineRun

/-! ### Ownership is a matching -/

/-- `IRQ_OWNER` and the `irq_num` of the live slots are inverse. -/
def IrqMatching (k : Kernel) : Prop :=
  ∀ q pid, (k.irqOwner q = pid ∧ pid ≠ 0) ↔ (k.procs pid).state ≠ .free ∧ (k.procs pid).irqNum = q ∧ q ≠ 0

theorem irqMatching_iff : IrqMatching k ↔ k.irqs.Matching := by
  unfold IrqMatching IrqTable.Matching Kernel.irqs
  simp only [irqSlot_live]
  rfl

/-- Ownership over a run: a matching in every state, given up when its process ends, and registered
only by the number the caller passed. -/
structure OwnershipKept (r : MachineRun) : Prop where
  matching : ∀ n, n ≤ r.len → IrqMatching (r.state n)
  released : ∀ n pid, n < r.len → ((r.state n).procs pid).state ≠ .free →
    ((r.state (n + 1)).procs pid).state = .free →
    ∀ q, (r.state n).irqOwner q = pid → (r.state (n + 1)).irqOwner q = 0
  registers : ∀ n pid, r.CallAt n sysIrqRegisterNo pid → (r.state (n + 1)).frame.a0 = 0 →
    isValidIrq (r.state n).frame.a0.toNat = true ∧ (r.state n).frame.a0 ≠ 0 ∧
      (r.state n).irqOwner (r.state n).frame.a0.toNat = 0

/-- The interrupt a SYS_IRQ_REGISTER asks for: the low half of its argument. -/
def askedIrq (k : Kernel) : Nat := k.frame.a0.toNat % 2 ^ 32

/-- A registration that gets past the checks of the handler. -/
def Registers (r : MachineRun) (n pid : Nat) : Prop :=
  r.CallAt n sysIrqRegisterNo pid ∧ isValidIrq (askedIrq (r.state n)) = true ∧
    (r.state n).irqOwner (askedIrq (r.state n)) = 0

/-- Asking, in 32 bits, for a nonzero interrupt as one's first. -/
structure ProperRegister (k : Kernel) : Prop where
  nonzero : k.frame.a0 ≠ 0
  narrow : k.frame.a0.toNat < 2 ^ 32
  first : k.current.irqNum = 0

variable {r : MachineRun} {n pid : Nat}

theorem MachineRun.CallAt.sysIrqRegister (call : r.CallAt n sysIrqRegisterNo pid) :
    r.state (n + 1) = Syscall.sysIrqRegister (r.state n) := by
  have handled := call.handled
  have number := call.number
  unfold handleEcall at handled
  rw [number] at handled
  exact (Except.ok.inj handled).symm

theorem irqEvent_register {t : Trap} {irq : Nat} (same : irqEvent k t = .register pid irq) :
    t = .ecall ∧ k.frame.a7.toNat = sysIrqRegisterNo ∧ k.currentPid = pid ∧ irq = askedIrq k := by
  cases t with
  | timer | unhandled code | fault code | external irq => cases same
  | ecall =>
    unfold irqEvent at same
    dsimp only at same
    split at same
    · cases same
    · split at same <;> cases same
    · next number =>
      cases same
      exact ⟨rfl, number, rfl, rfl⟩
    · cases same
    · cases same

theorem irqEvent_ended {t : Trap} (same : irqEvent k t = .ended pid) :
    k.currentPid = pid ∧ ∃ code, Ends k.toCore t code := by
  cases t with
  | timer | unhandled code | external irq => cases same
  | fault code =>
    cases same
    exact ⟨rfl, _, .inr ⟨code, rfl, rfl⟩⟩
  | ecall =>
    unfold irqEvent at same
    dsimp only at same
    split at same
    · next number =>
      cases same
      exact ⟨rfl, _, .inl ⟨rfl, number, rfl⟩⟩
    · split at same <;> cases same
    · cases same
    · cases same
    · cases same

theorem StepEvent.register {e : IrqEvent} {irq : Nat} (event : StepEvent k l e) (same : e = .register pid irq) :
    l = .trap .ecall ∧ k.frame.a7.toNat = sysIrqRegisterNo ∧ k.currentPid = pid ∧ irq = askedIrq k := by
  cases event with
  | trap t =>
    obtain ⟨rfl, rest⟩ := irqEvent_register same
    exact ⟨rfl, rest⟩
  | spawned | other => cases same

theorem StepEvent.ended {e : IrqEvent} (event : StepEvent k l e) (same : e = .ended pid) :
    k.currentPid = pid ∧ ∃ t code, l = .trap t ∧ Ends k.toCore t code := by
  cases event with
  | trap t =>
    obtain ⟨own, code, ends⟩ := irqEvent_ended same
    exact ⟨own, t, code, rfl, ends⟩
  | spawned | other => cases same

theorem Registers.answer (registers : Registers r n pid) : (r.state (n + 1)).frame.a0 = 0 := by
  obtain ⟨call, valid, free⟩ := registers
  rw [call.sysIrqRegister]
  have valid' : isValidIrq ((r.state n).advance.frame.a0.toNat % 2 ^ 32) = true := valid
  have free' : (r.state n).advance.irqOwner ((r.state n).advance.frame.a0.toNat % 2 ^ 32) = 0 := free
  unfold Syscall.sysIrqRegister
  dsimp only
  rw [if_neg (by rw [valid']; nofun), if_neg (not_not.mpr free')]
  rfl

theorem registers_of_answer (call : r.CallAt n sysIrqRegisterNo pid) (answer : (r.state (n + 1)).frame.a0 = 0) :
    Registers r n pid := by
  refine ⟨call, ?_⟩
  have failed : usizeMax ≠ 0 := by decide
  rw [call.sysIrqRegister] at answer
  unfold Syscall.sysIrqRegister at answer
  dsimp only at answer
  split at answer
  · exact absurd answer failed
  · next valid =>
    split at answer
    · exact absurd answer failed
    · next free =>
      rw [Bool.not_eq_true, Bool.not_eq_false'] at valid
      exact ⟨valid, not_not.mp free⟩

theorem Registers.irqs (registers : Registers r n pid) :
    (r.state (n + 1)).irqs = (r.state n).irqs.apply (.register pid (askedIrq (r.state n))) := by
  rw [registers.1.sysIrqRegister, sysIrqRegister_irqs, registers.1.caller]
  rfl

theorem matching_of_proper (proper : ∀ n pid, Registers r n pid → ProperRegister (r.state n)) (bound : n ≤ r.len) :
    (r.state n).irqs.Matching := by
  apply r.invariant_of_steps (P := fun k => k.irqs.Matching) _ _ n bound
  · intro k booted q pid
    have fresh := booted_irqs booted
    rw [fresh.owner, fresh.num]
    exact ⟨fun held => absurd held.1.symm held.2, fun held => absurd held.2.1.symm held.2.2⟩
  · intro n bound matching
    obtain ⟨e, event, possible, same⟩ := r.event bound
    rw [same]
    apply matching.apply (r.irqs_sound (Nat.le_of_lt bound)) possible
    intro pid irq registered accepted
    obtain ⟨label, number, caller, rfl⟩ := event.register registered
    obtain ⟨nonzero, narrow, first⟩ := proper n pid ⟨⟨bound, label, number, caller⟩, accepted⟩
    refine ⟨fun zero => nonzero (BitVec.eq_of_toNat_eq ?_), ?_⟩
    · rw [askedIrq, Nat.mod_eq_of_lt narrow] at zero
      exact zero
    · rw [← caller]
      exact first

theorem ended_of_freed (bound : n < r.len) (before : ((r.state n).procs pid).state ≠ .free)
    (after : ((r.state (n + 1)).procs pid).state = .free) :
    (r.state (n + 1)).irqs = (r.state n).irqs.apply (.ended pid) := by
  obtain ⟨e, event, possible, same⟩ := r.event bound
  have live : ((r.state n).irqs.slot pid).live = true := irqSlot_live.mpr before
  have dead : ((r.state (n + 1)).irqs.slot pid).live ≠ true := fun still => irqSlot_live.mp still after
  rw [same] at dead
  cases e with
  | ended q =>
    rw [IrqTable.ended_live] at dead
    split at dead
    · next own => rw [same, own]
    · exact absurd live dead
  | spawned q =>
    rw [IrqTable.spawned_live] at dead
    split at dead
    · exact absurd rfl dead
    · exact absurd live dead
  | register q irq =>
    by_cases accepted : (r.state n).irqs.Accepts irq
    · rw [IrqTable.register_live accepted] at dead
      exact absurd live dead
    · rw [IrqTable.register_refused accepted] at dead
      exact absurd live dead
  | none | ack q | take q | raised irq waiting =>
    refine absurd (Eq.trans (IrqTable.Same.live (IrqTable.apply_same ?_ ?_ ?_) pid) live) dead
    · nofun
    · nofun
    · nofun

/-- Ownership is kept on a run exactly when every accepted registration asks, in 32 bits, for a
nonzero interrupt as the caller's first. -/
theorem ownershipKept_iff (r : MachineRun) :
    OwnershipKept r ↔ ∀ n pid, Registers r n pid → ProperRegister (r.state n) := by
  constructor
  · intro kept n pid registers
    have call := registers.1
    obtain ⟨valid, nonzero, -⟩ := kept.registers n pid call registers.answer
    have narrow : (r.state n).frame.a0.toNat < 2 ^ 32 := by
      have small : (r.state n).frame.a0.toNat < maxIrqs := by simpa [isValidIrq] using valid
      exact small.trans (by decide)
    refine ⟨nonzero, narrow, ?_⟩
    by_contra some
    have live : ((r.state n).procs pid).state ≠ .free := by
      rw [call.running.1]
      nofun
    have current : (r.state n).current = (r.state n).procs pid := by rw [Kernel.current, call.caller]
    rw [current] at some
    have accepted : (r.state n).irqs.Accepts (askedIrq (r.state n)) := registers.2
    have owner : (r.state n).irqOwner ((r.state n).procs pid).irqNum = pid :=
      ((kept.matching n (Nat.le_of_lt call.bound) _ pid).mpr ⟨live, rfl, some⟩).1
    have after : (r.state (n + 1)).irqs.Matching := irqMatching_iff.mp (kept.matching (n + 1) call.bound)
    rw [registers.irqs] at after
    have still : ((r.state n).irqs.apply (.register pid (askedIrq (r.state n)))).owner
        ((r.state n).procs pid).irqNum = pid := by
      rw [IrqTable.register_owner accepted]
      split
      · rfl
      · exact owner
    have moved := ((after _ pid).mp ⟨still, call.running.2⟩).2.1
    rw [IrqTable.register_num accepted, if_pos rfl] at moved
    have free : (r.state n).irqOwner (askedIrq (r.state n)) = 0 := registers.2.2
    rw [moved, owner] at free
    exact call.running.2 free
  · intro proper
    refine ⟨fun n bound => irqMatching_iff.mpr (matching_of_proper proper bound), fun n pid bound before after q owned => ?_,
      fun n pid call answer => ?_⟩
    · have matching := matching_of_proper proper (Nat.le_of_lt bound)
      have sound := r.irqs_sound (Nat.le_of_lt bound)
      have used := sound.used pid (irqSlot_live.mpr before)
      have ended := ended_of_freed bound before after
      obtain ⟨-, num, nonzero⟩ := (matching q pid).mp ⟨owned, used⟩
      have valid := sound.valid q (by rw [show (r.state n).irqs.owner q = pid from owned]; exact used)
      show (r.state (n + 1)).irqs.owner q = 0
      rw [ended, IrqTable.ended_owner, if_pos ⟨num.symm, nonzero, valid⟩]
    · have registers := registers_of_answer call answer
      obtain ⟨nonzero, narrow, -⟩ := proper n pid registers
      obtain ⟨-, valid, free⟩ := registers
      rw [askedIrq, Nat.mod_eq_of_lt narrow] at valid free
      exact ⟨valid, nonzero, free⟩

/-! ### Claimed interrupts can be completed -/

/-- Every claimed interrupt has a live owner that answers for it and can complete it. -/
def Completable (k : Kernel) : Prop :=
  ∀ q, k.plic.claimed q = true → ∃ pid, k.irqOwner q = pid ∧ (k.procs pid).state ≠ .free ∧ (k.procs pid).irqNum = q ∧
    (Syscall.sysIrqAck { k with currentPid := pid }).plic.claimed q = false

theorem completable_of_answered (sound : k.irqs.Sound) (answered : k.irqs.Answered) : Completable k := by
  intro q claimed
  obtain ⟨pid, owner, live, num, nonzero⟩ := answered q claimed
  have used := sound.used pid live
  have enabled := sound.enabled q (owner ▸ used)
  refine ⟨pid, owner, irqSlot_live.mp live, num, ?_⟩
  have answers : (k.irqs.slot pid).num = q := num
  have acked : (Syscall.sysIrqAck { k with currentPid := pid }).irqs = k.irqs.apply (.ack pid) := sysIrqAck_irqs
  rw [IrqTable.apply, answers, if_neg nonzero] at acked
  have plic : (Syscall.sysIrqAck { k with currentPid := pid }).plic = k.plic.complete q := congrArg IrqTable.plic acked
  rw [plic]
  exact IrqTable.complete_self enabled

/-- In a run where every process registers while it has no interrupt, and ends with none claimed,
a claimed interrupt can always be completed. -/
theorem completable_of_finished (first : ∀ n pid, Registers r n pid → (r.state n).current.irqNum = 0)
    (finished : ∀ n pid code, r.EndsAt n pid code → (r.state n).plic.claimed ((r.state n).procs pid).irqNum = false)
    (bound : n ≤ r.len) : Completable (r.state n) := by
  have serving : (r.state n).irqs.Serving := by
    apply r.invariant_of_steps (P := fun k => k.irqs.Serving) _ _ n bound
    · intro k booted
      have fresh := booted_irqs booted
      refine ⟨fun q _ owned => absurd (fresh.owner q) owned, fun q claimed => ?_⟩
      rw [fresh.claimed q] at claimed
      cases claimed
    · intro n bound serving
      obtain ⟨e, event, possible, same⟩ := r.event bound
      rw [same]
      apply serving.apply (r.irqs_sound (Nat.le_of_lt bound)) possible
      · intro pid irq registered accepted
        obtain ⟨label, number, caller, rfl⟩ := event.register registered
        have none := first n pid ⟨⟨bound, label, number, caller⟩, accepted⟩
        rwa [Kernel.current, caller] at none
      · intro pid ended
        obtain ⟨rfl, t, code, label, ends⟩ := event.ended ended
        exact finished n _ code (r.endsAt_of_ends bound label ends)
  exact completable_of_answered (r.irqs_sound bound) serving.answered

end Law

section Reference
open Reference
attribute [local instance] Reference.platform

/-- PID 1 registers two interrupts. -/
noncomputable def registeredTwiceRun : MachineRun :=
  script [.user (calling sysIrqRegisterNo 5 0), .ecall, .user (calling sysIrqRegisterNo 6 0), .ecall]

/-- The first one still names PID 1, which no longer answers for it. -/
theorem ownershipKept_fails : ¬ OwnershipKept registeredTwiceRun := by
  intro kept
  have owner : (registeredTwiceRun.state 4).irqOwner 5 = 1 := by decide
  have answers := ((kept.matching 4 (by decide) 5 1).mp ⟨owner, by decide⟩).2.1
  exact absurd answers (by decide)

/-- PID 1 registers an interrupt, is interrupted by it and exits. -/
noncomputable def orphanRun : MachineRun :=
  script [.user (calling sysIrqRegisterNo 5 0), .ecall, .external 5, .user (calling sysExitNo 0 0), .ecall]

theorem completable_fails : ¬ Completable (orphanRun.state 5) := by
  intro completable
  obtain ⟨pid, owner, live, -⟩ := completable 5 (by decide)
  have nobody : (orphanRun.state 5).irqOwner 5 = 0 := by decide
  rw [nobody] at owner
  subst owner
  exact live (by decide)

/-- PID 1 registers an interrupt, is interrupted by it and acknowledges it before it exits. -/
noncomputable def acknowledgedRun : MachineRun :=
  script [.user (calling sysIrqRegisterNo 5 0), .ecall, .external 5, .user (calling sysIrqAckNo 0 0), .ecall,
    .user (calling sysExitNo 0 0), .ecall]

theorem acknowledgedRun_registers {n pid : Nat} (registers : Registers acknowledgedRun n pid) : n = 1 :=
  registers.1.among (P := (· = 1)) (by decide)

theorem ownershipKept_acknowledged : OwnershipKept acknowledgedRun := by
  refine (ownershipKept_iff _).mpr fun n pid registers => ?_
  obtain rfl := acknowledgedRun_registers registers
  exact ⟨by decide, by decide, rfl⟩

theorem completable_acknowledged : Completable (acknowledgedRun.state 3) := by
  refine completable_of_finished (fun n pid registers => ?_) (fun n pid code ends => ?_) (by decide)
  · obtain rfl := acknowledgedRun_registers registers
    rfl
  · obtain rfl := ends.among (P := (· = 6)) (by decide)
    obtain rfl : 1 = pid := ends.current
    rfl

end Reference

end GooseOs
