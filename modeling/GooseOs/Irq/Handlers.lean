import GooseOs.Irq.Table
import GooseOs.Process.Consistency

/-!
Every step of the machine is one event on the interrupt table. Most handlers leave the table as it
is; the others are the events.
-/

namespace GooseOs
open Sched Ipc Lifecycle Syscall Trap NetServer Security

def Process.irqSlot (p : Process) : IrqSlot := ⟨p.state != .free, p.irqNum, p.irqPending⟩

variable [Platform] {c c' : Core} {k k' : Kernel} {pid : Nat}

def Kernel.irqs (k : Kernel) : IrqTable := ⟨k.irqOwner, fun q => (k.procs q).irqSlot, k.plic⟩

/-- The event a trap amounts to; a SYS_SPAWN that succeeds is one more. -/
def irqEvent (k : Kernel) : Trap → IrqEvent
  | .external irq => .raised irq ((k.procs (irqOwner k irq)).state == .blockedRecv)
  | .fault _ => .ended k.currentPid
  | .ecall =>
    match k.frame.a7.toNat with
    | 1 => .ended k.currentPid
    | 3 => if (k.procs k.currentPid).irqPending && k.frame.a0.toNat == 0 then .take k.currentPid else .none
    | 14 => .register k.currentPid (k.frame.a0.toNat % 2 ^ 32)
    | 15 => .ack k.currentPid
    | _ => .none
  | _ => .none

/-! ### Handlers that leave the table as it is -/

/-- The same owners, and the same interrupt fields in every slot. -/
def Quiet (c c' : Core) : Prop := c'.irqOwner = c.irqOwner ∧ ∀ q, (c'.procs q).irqSlot = (c.procs q).irqSlot

omit [Platform] in
theorem Quiet.refl (c : Core) : Quiet c c := ⟨rfl, fun _ => rfl⟩

omit [Platform] in
theorem Quiet.trans {c'' : Core} (first : Quiet c c') (second : Quiet c' c'') : Quiet c c'' :=
  ⟨second.1.trans first.1, fun q => (second.2 q).trans (first.2 q)⟩

omit [Platform] in
theorem quiet_update {p : Process} (owner : c'.irqOwner = c.irqOwner) (procs : c'.procs = Function.update c.procs pid p)
    (same : p.irqSlot = (c.procs pid).irqSlot) : Quiet c c' := by
  refine ⟨owner, fun q => ?_⟩
  rw [procs]
  by_cases own : q = pid
  · rw [own, Function.update_self, same]
  · rw [Function.update_of_ne own]

omit [Platform] in
theorem irqSlot_of_live {p p' : Process} (before : p.state ≠ .free) (after : p'.state ≠ .free)
    (num : p'.irqNum = p.irqNum) (pending : p'.irqPending = p.irqPending) : p'.irqSlot = p.irqSlot := by
  rw [Process.irqSlot, num, pending, bne_iff_ne.mpr after, Process.irqSlot, bne_iff_ne.mpr before]

omit [Platform] in
theorem quiet_load {next : Nat} (ready : (c.procs next).state = .ready) : Quiet c (load c next) := by
  refine ⟨rfl, fun q => ?_⟩
  show (Function.update c.procs next _ q).irqSlot = _
  by_cases own : q = next
  · subst own
    rw [Function.update_self]
    exact irqSlot_of_live (by rw [ready]; nofun) nofun rfl rfl
  · rw [Function.update_of_ne own]

theorem quiet_schedule (h : schedule c pid = .ok c') : Quiet c c' := by
  have saved : Quiet c (c.modify pid fun p => { p with context := c.frame }) := quiet_update rfl rfl rfl
  rcases schedule_ok h with ⟨next, found, rfl⟩ | ⟨-, rfl⟩
  · exact saved.trans (quiet_load (nextReady_some found).1)
  · exact saved

/-- A used slot is parked in a used state, then the scheduler acts. -/
theorem quiet_park {d : Core} {p : Process} (h : schedule d pid = .ok c') (owner : d.irqOwner = c.irqOwner)
    (procs : d.procs = Function.update c.procs pid p) (before : (c.procs pid).state ≠ .free) (after : p.state ≠ .free)
    (num : p.irqNum = (c.procs pid).irqNum) (pending : p.irqPending = (c.procs pid).irqPending) : Quiet c c' :=
  (quiet_update owner procs (irqSlot_of_live before after num pending)).trans (quiet_schedule h)

section Calls
variable (live : (c.procs c.currentPid).state ≠ .free)

include live in
theorem sysSend_quiet (h : sysSend c = .ok c') : Quiet c c' := by
  unfold sysSend at h
  dsimp only at h
  split at h
  · cases h
    exact .refl c
  split at h
  · next wanted =>
    cases h
    have target : (c.procs c.frame.a0.toNat).state = .blockedRecv := Slot.wantsFrom_state wanted
    have used : (c.procs c.frame.a0.toNat).state ≠ .free := by rw [target]; nofun
    exact quiet_update rfl rfl (irqSlot_of_live used (by simp) rfl rfl)
  · exact quiet_park h rfl rfl live (by simp) rfl rfl

include live in
theorem sysCall_quiet (h : Ipc.sysCall c = .ok c') : Quiet c c' := by
  unfold Ipc.sysCall at h
  dsimp only at h
  split at h
  · cases h
    exact .refl c
  · next valid =>
    have valid : isValidIpcTarget c.frame.a0.toNat c.currentPid = true := by simpa using valid
    have apart := (isValidIpcTarget_iff.mp valid).2.2
    split at h
    · next wanted =>
      have target : (c.procs c.frame.a0.toNat).state = .blockedRecv := Slot.wantsFrom_state wanted
      have used : (c.procs c.frame.a0.toNat).state ≠ .free := by rw [target]; nofun
      have caller : ∀ p : Process, (Function.update c.procs c.frame.a0.toNat p c.currentPid).state ≠ .free := by
        intro p
        rwa [Function.update_of_ne apart.symm]
      have second : Quiet { c with procs := Function.update c.procs c.frame.a0.toNat _ } c' :=
        quiet_park h rfl rfl (caller _) (by simp) rfl rfl
      refine Quiet.trans ?_ second
      exact quiet_update rfl rfl (irqSlot_of_live used (by simp) rfl rfl)
    · exact quiet_park h rfl rfl live (by simp) rfl rfl

omit [Platform] in
theorem sysReply_quiet (h : sysReply c = .ok c') : Quiet c c' := by
  unfold sysReply at h
  dsimp only at h
  split at h
  · cases h
    exact .refl c
  split at h
  · next pending =>
    cases h
    have caller : (c.procs c.frame.a0.toNat).state = .blockedCall := by
      rw [Bool.and_eq_true, beq_iff_eq] at pending
      exact pending.1
    have used : (c.procs c.frame.a0.toNat).state ≠ .free := by rw [caller]; nofun
    exact quiet_update rfl rfl (irqSlot_of_live used (by simp) rfl rfl)
  · cases h
    exact .refl c

include live in
theorem sysWait_quiet (h : sysWait c = .ok c') : Quiet c c' := by
  unfold sysWait at h
  dsimp only at h
  split at h
  · cases h
    exact .refl c
  split at h
  · cases h
    exact .refl c
  split at h
  · cases h
    exact .refl c
  · exact quiet_park h rfl rfl live (by simp) rfl rfl

include live in
theorem sysYield_quiet (h : sysYield c = .ok c') : Quiet c c' := by
  unfold sysYield at h
  dsimp only at h
  split at h
  · cases h
    exact .refl c
  split at h
  · cases h
    exact .refl c
  · obtain ⟨d, scheduled, h⟩ := bind_ok h
    cases h
    have parked : Quiet c d := quiet_park scheduled rfl rfl live (by simp) rfl rfl
    exact parked

include live in
theorem sysReceive_quiet (quiet : ((c.procs c.currentPid).irqPending && c.frame.a0.toNat == 0) = false)
    (h : sysReceive c = .ok c') : Quiet c c' := by
  unfold sysReceive at h
  dsimp only at h
  split at h
  · next pending => exact absurd (pending.symm.trans quiet) nofun
  split at h
  · next i found =>
    split at h
    · next sender =>
      cases h
      have sender : (c.procs i).state = .blockedSend := beq_iff_eq.mp sender
      have used : (c.procs i).state ≠ .free := by rw [sender]; nofun
      exact quiet_update rfl rfl (irqSlot_of_live used (by simp) rfl rfl)
    · cases h
      exact .refl c
  · exact quiet_park h rfl rfl live (by simp) rfl rfl

end Calls

/-! ### The whole kernel -/

omit [Platform] in
theorem irqSlot_live {p : Process} : p.irqSlot.live = true ↔ p.state ≠ .free := bne_iff_ne

theorem irqs_of_quiet (quiet : Quiet k.toCore k'.toCore) (plic : k'.plic = k.plic) : k'.irqs = k.irqs := by
  unfold Kernel.irqs
  rw [quiet.1, plic, funext quiet.2]

omit [Platform] in
theorem PolledCore.quiet (polled : Slot.PolledCore c c') : Quiet c c' := by
  obtain ⟨procs, rfl, woken⟩ := polled
  refine ⟨rfl, fun q => ?_⟩
  rcases woken q with same | ⟨blocked, v, same⟩
  · exact congrArg Process.irqSlot same
  · show (procs q).irqSlot = _
    rw [same]
    exact irqSlot_of_live (by rw [blocked]; nofun) (by simp) rfl rfl

section Network
variable {n : Net}

theorem deliver_plic (satp : Word) (bufVa : Nat) (bytes : List Byte) :
    (deliver k satp bufVa bytes).1.plic = k.plic := by
  unfold deliver
  split <;> rfl

theorem wakeOne_plic (h : wakeOne k pid = .ok k') : k'.plic = k.plic := by
  have turned := wakeOne_turned k pid
  rw [h] at turned
  cases turned with
  | left => rfl
  | ended => rfl
  | delivered net => exact deliver_plic (k := { k with net := some net }) ..

theorem wakeAll_plic {pids : List Nat} (h : pids.foldlM wakeOne k = .ok k') : k'.plic = k.plic := by
  induction pids generalizing k with
  | nil =>
    cases h
    rfl
  | cons pid pids ih =>
    rw [List.foldlM_cons] at h
    obtain ⟨k₁, first, rest⟩ := bind_ok h
    exact (ih rest).trans (wakeOne_plic first)

theorem pollAndWake_irqs (h : pollAndWake k n = .ok k') : k'.irqs = k.irqs :=
  irqs_of_quiet (PolledCore.quiet (Slot.pollAndWake_polled h)) (wakeAll_plic (k := { k with net := some (poll n (nowMs k)) }) h)

theorem handleRequest_irqs (live : (k.procs k.currentPid).state ≠ .free) (h : handleRequest k = .ok k') :
    k'.irqs = k.irqs := by
  cases handleRequest_ok h with
  | answered net v done =>
    rw [done]
    rfl
  | delivered net bytes recv space staged done =>
    refine irqs_of_quiet (by rw [done, Slot.deliver_setA0]; exact .refl _) ?_
    rw [done]
    exact deliver_plic (k := { k.advance with net := some net }) ..
  | parked net op socket bufVa bufLen c waits staged scheduled done =>
    rw [done]
    exact irqs_of_quiet (k := k) (quiet_park scheduled rfl rfl live (by simp) rfl rfl) rfl

end Network

/-! ### The events -/

omit [Platform] in
theorem irqSlots_update (procs : Nat → Process) (p : Process) :
    (fun q => (Function.update procs pid p q).irqSlot) = Function.update (fun q => (procs q).irqSlot) pid p.irqSlot := by
  funext q
  by_cases own : q = pid
  · rw [own, Function.update_self, Function.update_self]
  · rw [Function.update_of_ne own, Function.update_of_ne own]

omit [Platform] in
theorem wakeParent_quiet (code : Word) : Quiet c (wakeParent c pid code) := by
  unfold wakeParent
  split
  · exact .refl c
  · next i found =>
    have waiting := List.find?_some found
    rw [Bool.and_eq_true, beq_iff_eq] at waiting
    have used : (c.procs i).state ≠ .free := by rw [waiting.1]; nofun
    exact quiet_update rfl rfl (irqSlot_of_live used (by simp) rfl rfl)

theorem clearSlot_irqs (code : Word) :
    Kernel.irqs { k with toCore := clearSlot k.toCore pid code } = k.irqs.apply (.ended pid) := by
  unfold Kernel.irqs clearSlot
  simp only [Core.modify, irqSlots_update]
  rfl

theorem reap_irqs (code : Word) (quiet : Quiet (reap k.toCore pid code) k'.toCore) (plic : k'.plic = k.plic) :
    k'.irqs = k.irqs.apply (.ended pid) := by
  rw [← clearSlot_irqs code]
  exact irqs_of_quiet ((wakeParent_quiet code).trans quiet) plic

theorem sysExit_irqs : Kernel.irqs { k with toCore := sysExit k.toCore } = k.irqs.apply (.ended k.currentPid) := by
  refine reap_irqs k.frame.a0 ?_ rfl
  unfold sysExit
  dsimp only
  split
  · next next found => exact quiet_load (firstReady_some found).1
  · split <;> exact ⟨rfl, fun _ => rfl⟩

theorem killCurrent_irqs {code : Word} (h : k.onCore (fun c => killCurrent c code) = .ok k') :
    k'.irqs = k.irqs.apply (.ended k.currentPid) := by
  obtain ⟨c, killed, rfl⟩ := Slot.onCore_ok h
  refine reap_irqs code ?_ rfl
  unfold killCurrent at killed
  dsimp only at killed
  split at killed
  · cases killed
  split at killed
  · next next found =>
    cases killed
    exact quiet_load (firstReady_some found).1
  · split at killed
    · cases killed
      exact ⟨rfl, fun _ => rfl⟩
    · cases killed
      exact ⟨rfl, fun _ => rfl⟩

theorem sysIrqRegister_irqs :
    (sysIrqRegister k).irqs = k.irqs.apply (.register k.currentPid (k.frame.a0.toNat % 2 ^ 32)) := by
  unfold sysIrqRegister
  dsimp only
  split
  · next invalid =>
    rw [IrqTable.register_refused]
    · rfl
    · rintro ⟨valid, -⟩
      change (!isValidIrq (k.frame.a0.toNat % 2 ^ 32)) = true at invalid
      rw [valid] at invalid
      cases invalid
  · next valid =>
    split
    · next claimed =>
      rw [IrqTable.register_refused]
      · rfl
      · rintro ⟨-, free⟩
        exact claimed free
    · next free =>
      have valid : isValidIrq (k.frame.a0.toNat % 2 ^ 32) = true := by
        rwa [Bool.not_eq_true, Bool.not_eq_false'] at valid
      have accepted : k.irqs.Accepts (k.frame.a0.toNat % 2 ^ 32) := ⟨valid, not_not.mp free⟩
      rw [IrqTable.apply, if_pos accepted]
      unfold Kernel.irqs
      simp only [Kernel.setA0, irqSlots_update]
      rfl

theorem sysIrqAck_irqs : (sysIrqAck k).irqs = k.irqs.apply (.ack k.currentPid) := by
  unfold sysIrqAck
  dsimp only
  split
  · next none =>
    have none : (k.irqs.slot k.currentPid).num = 0 := none
    rw [IrqTable.apply, if_pos none]
    rfl
  · next some =>
    have some : (k.irqs.slot k.currentPid).num ≠ 0 := some
    rw [IrqTable.apply, if_neg some]
    rfl

theorem sysReceive_take (pending : ((k.procs k.currentPid).irqPending && k.frame.a0.toNat == 0) = true)
    (h : k.onCore sysReceive = .ok k') : k'.irqs = k.irqs.apply (.take k.currentPid) := by
  obtain ⟨c, received, rfl⟩ := Slot.onCore_ok h
  unfold sysReceive at received
  dsimp only at received
  split at received
  · cases received
    unfold Kernel.irqs
    simp only [Core.modify, irqSlots_update]
    rfl
  · next quiet => exact absurd pending quiet

/-- SYS_SPAWN starts a process in a free slot, or does nothing. -/
theorem sysSpawn_irqs (h : sysSpawn k = .ok k') :
    k'.irqs = k.irqs ∨ ∃ pid, (k.procs pid).state = .free ∧ pid ≠ 0 ∧ k'.irqs = k.irqs.apply (.spawned pid) := by
  rcases sysSpawn_ok h with rfl | ⟨info, pid, userRoot, v, slot, -, rfl⟩
  · exact .inl rfl
  · have free := Slot.firstFree_some slot
    refine .inr ⟨pid, free.1, Nat.one_le_iff_ne_zero.mp free.2.1, ?_⟩
    unfold Kernel.irqs
    simp only [Kernel.withChild, Kernel.setA0, irqSlots_update]
    rfl

theorem irqNotify_irqs (irq owner : Nat) :
    Kernel.irqs { k with toCore := irqNotify k.toCore irq owner } =
      if (k.procs owner).state = .blockedRecv then k.irqs
      else { k.irqs with slot := Function.update k.irqs.slot owner { k.irqs.slot owner with pending := true } } := by
  unfold irqNotify
  by_cases waiting : (k.procs owner).state = .blockedRecv
  · rw [if_pos waiting, if_pos (beq_iff_eq.mpr waiting)]
    have used : (k.procs owner).state ≠ .free := by rw [waiting]; nofun
    exact irqs_of_quiet (k := k) (quiet_update rfl rfl (irqSlot_of_live used (by simp) rfl rfl)) rfl
  · rw [if_neg waiting, if_neg (by simpa using waiting)]
    unfold Kernel.irqs
    simp only [Core.modify, irqSlots_update]
    rfl

theorem irqOwner_eq (irq : Nat) : irqOwner k irq = k.irqs.handler irq := by
  unfold irqOwner IrqTable.handler
  cases isValidIrq irq <;> rfl

omit [Platform] in
theorem scheduleFromIdle_quiet : Quiet c (scheduleFromIdle c) := by
  unfold scheduleFromIdle
  split
  · exact .refl c
  · next next found => exact quiet_load (firstReady_some found).1

theorem irqNotify_raised {irq : Nat} (some : irq ≠ 0) (owned : irqOwner k irq ≠ 0) :
    Kernel.irqs { k with toCore := irqNotify k.toCore irq (irqOwner k irq), plic := k.plic.claim irq } =
      k.irqs.apply (irqEvent k (.external irq)) := by
  have notified := irqNotify_irqs (k := { k with plic := k.plic.claim irq }) irq (irqOwner k irq)
  rw [irqEvent, IrqTable.raised_owned some (by rwa [← irqOwner_eq]), ← irqOwner_eq]
  refine Eq.trans notified ?_
  show (if (k.procs (irqOwner k irq)).state = .blockedRecv then _ else _) = _
  by_cases waiting : (k.procs (irqOwner k irq)).state = .blockedRecv
  · rw [if_pos waiting, if_pos (beq_iff_eq.mpr waiting)]
    rfl
  · rw [if_neg waiting, if_neg (by simpa using waiting)]
    rfl

theorem unowned_raised {irq : Nat} (some : irq ≠ 0) (unowned : irqOwner k irq = 0)
    (same : k'.irqs = { k.irqs with plic := (k.plic.claim irq).complete irq }) :
    k'.irqs = k.irqs.apply (irqEvent k (.external irq)) := by
  rw [same, irqEvent, IrqTable.raised_unowned some (by rwa [← irqOwner_eq])]
  rfl

theorem handleExternal_irqs {irq : Nat} (h : handleExternal k irq = .ok k') :
    k'.irqs = k.irqs.apply (irqEvent k (.external irq)) := by
  unfold handleExternal at h
  dsimp only at h
  split at h
  · next zero =>
    cases h
    subst zero
    rfl
  next some =>
  have owner : irqOwner { k with plic := k.plic.claim irq } irq = irqOwner k irq := rfl
  rw [owner] at h
  split at h
  · next owned =>
    have notified := irqNotify_raised some owned
    split at h
    · cases h
      rw [← notified]
      exact irqs_of_quiet scheduleFromIdle_quiet rfl
    · cases h
      exact notified
  next unowned =>
  have unowned := not_not.mp unowned
  split at h
  · cases h
    exact unowned_raised some unowned rfl
  split at h
  · split at h
    · obtain ⟨k₁, polled, h⟩ := bind_ok h
      cases h
      have same := pollAndWake_irqs polled
      apply unowned_raised some unowned
      exact congrArg (fun t : IrqTable => { t with plic := t.plic.complete irq }) same
    · cases h
      exact unowned_raised some unowned rfl
  · cases h
    exact unowned_raised some unowned rfl

theorem timerPoll_irqs (h : timerPoll k = .ok k') : k'.irqs = k.irqs := by
  unfold timerPoll at h
  split at h
  · split at h
    · exact pollAndWake_irqs h
    · cases h
      rfl
  · cases h
    rfl

omit [Platform] in
theorem preempt_quiet (live : c.currentPid ≠ 0 → (c.procs c.currentPid).state ≠ .free) : Quiet c (preempt c) := by
  unfold preempt
  dsimp only
  split
  · exact .refl c
  · next user =>
    split
    · exact .refl c
    · next next found =>
      have saved : Quiet c (c.modify c.currentPid fun p => { p with context := c.frame, state := .ready }) :=
        quiet_update rfl rfl (irqSlot_of_live (live user) (by simp) rfl rfl)
      refine saved.trans (quiet_load ?_)
      show (Function.update c.procs c.currentPid _ next).state = .ready
      by_cases own : next = c.currentPid
      · rw [own, Function.update_self]
      · rw [Function.update_of_ne own]
        exact (nextReady_some found).1

theorem handleTimer_irqs (live : k.inUser → (k.procs k.currentPid).state ≠ .free) (h : handleTimer k = .ok k') :
    k'.irqs = k.irqs := by
  unfold handleTimer at h
  obtain ⟨k₁, polled, h⟩ := bind_ok h
  have same : k₁.irqs = k.irqs := timerPoll_irqs (k := { k with ticks := k.ticks + 1 }) polled
  have slots : ∀ q, (k₁.procs q).irqSlot = (k.procs q).irqSlot := congrFun (congrArg IrqTable.slot same)
  obtain ⟨procs, core, -⟩ := Slot.timerPoll_polled polled
  dsimp only at h
  split at h
  · next mode =>
    cases h
    rw [← same]
    refine irqs_of_quiet (preempt_quiet fun _ => ?_) rfl
    have mode : k₁.inUser := by simpa [Core.inUser] using mode
    have pid : k₁.currentPid = k.currentPid := by rw [core]
    have frame : k₁.frame = k.frame := by rw [core]
    rw [← irqSlot_live, slots, pid, irqSlot_live]
    exact live (by unfold Core.inUser at mode ⊢; rwa [← frame])
  · cases h
    rw [← same]
    exact irqs_of_quiet scheduleFromIdle_quiet rfl

/-- The system calls that are events of their own. -/
def isIrqCall (number : Nat) : Bool :=
  number == sysExitNo || number == sysReceiveNo || number == sysIrqRegisterNo || number == sysIrqAckNo

theorem irqEvent_none (other : isIrqCall k.frame.a7.toNat = false) : irqEvent k .ecall = .none := by
  unfold irqEvent
  dsimp only
  split
  · next number => rw [number] at other; cases other
  · next number => rw [number] at other; cases other
  · next number => rw [number] at other; cases other
  · next number => rw [number] at other; cases other
  · rfl

theorem handleEcall_irqs (live : (k.procs k.currentPid).state ≠ .free) (h : handleEcall k = .ok k') :
    k'.irqs = k.irqs.apply (irqEvent k .ecall) ∨
      ∃ pid, (k.procs pid).state = .free ∧ pid ≠ 0 ∧ k'.irqs = k.irqs.apply (.spawned pid) := by
  have passing : ∀ n, k.frame.a7.toNat = n → isIrqCall n = false → k'.irqs = k.irqs →
      k'.irqs = k.irqs.apply (irqEvent k .ecall) := by
    intro n number other same
    rw [irqEvent_none (number.symm ▸ other)]
    exact same
  unfold handleEcall at h
  split at h <;> rename_i number
  · cases h
    exact .inl (passing 0 number rfl rfl)
  · cases h
    have event : irqEvent k .ecall = .ended k.currentPid := by simp only [irqEvent, number]
    exact .inl (event ▸ sysExit_irqs)
  · obtain ⟨c, handled, rfl⟩ := Slot.onCore_ok h
    exact .inl (passing 2 number rfl (irqs_of_quiet (sysSend_quiet live handled) rfl))
  · have event : irqEvent k .ecall =
        if (k.procs k.currentPid).irqPending && k.frame.a0.toNat == 0 then .take k.currentPid else .none := by
      simp only [irqEvent, number]
    rw [event]
    refine .inl ?_
    split
    · next pending => exact sysReceive_take pending h
    · next quiet =>
      obtain ⟨c, handled, rfl⟩ := Slot.onCore_ok h
      exact irqs_of_quiet (sysReceive_quiet live (Bool.eq_false_of_not_eq_true quiet) handled) rfl
  · refine .inl (passing 4 number rfl ?_)
    unfold sysCallEntry at h
    split at h
    · exact handleRequest_irqs live h
    · obtain ⟨c, handled, rfl⟩ := Slot.onCore_ok h
      exact irqs_of_quiet (sysCall_quiet live handled) rfl
  · obtain ⟨c, handled, rfl⟩ := Slot.onCore_ok h
    exact .inl (passing 5 number rfl (irqs_of_quiet (sysReply_quiet handled) rfl))
  · obtain ⟨v, a0, rfl⟩ := sysMap_answers h
    exact .inl (passing 6 number rfl rfl)
  · obtain ⟨v, a0, rfl⟩ := sysUnmap_answers h
    exact .inl (passing 7 number rfl rfl)
  · obtain ⟨v, a0, rfl⟩ := sysAllocPages_answers h
    exact .inl (passing 8 number rfl rfl)
  · obtain ⟨v, a0, rfl⟩ := sysFreePages_answers h
    exact .inl (passing 9 number rfl rfl)
  · rcases sysSpawn_irqs h with same | spawned
    · exact .inl (passing 10 number rfl same)
    · exact .inr spawned
  · obtain ⟨c, handled, rfl⟩ := Slot.onCore_ok h
    exact .inl (passing 11 number rfl (irqs_of_quiet (sysWait_quiet live handled) rfl))
  · cases h
    exact .inl (passing 12 number rfl rfl)
  · obtain ⟨c, handled, rfl⟩ := Slot.onCore_ok h
    exact .inl (passing 13 number rfl (irqs_of_quiet (sysYield_quiet live handled) rfl))
  · cases h
    have event : irqEvent k .ecall = .register k.currentPid (k.frame.a0.toNat % 2 ^ 32) := by
      simp only [irqEvent, number]
    exact .inl (event ▸ sysIrqRegister_irqs)
  · cases h
    have event : irqEvent k .ecall = .ack k.currentPid := by simp only [irqEvent, number]
    exact .inl (event ▸ sysIrqAck_irqs)
  · cases h
  · cases h
    refine .inl (passing _ rfl ?_ rfl)
    simp only [isIrqCall, Bool.or_eq_false_iff, beq_eq_false_iff_ne]
    exact ⟨⟨⟨‹_›, ‹_›⟩, ‹_›⟩, ‹_›⟩

theorem trapHandler_irqs {t : Trap} (cons : Consistent k.toCore) (mode : t = .ecall → k.inUser)
    (h : trapHandler k t = .ok k') :
    k'.irqs = k.irqs.apply (irqEvent k t) ∨
      (t = .ecall ∧ ∃ pid, (k.procs pid).state = .free ∧ pid ≠ 0 ∧ k'.irqs = k.irqs.apply (.spawned pid)) := by
  have live : k.inUser → (k.procs k.currentPid).state ≠ .free := by
    intro user
    rw [(cons.running user).1]
    nofun
  cases t with
  | timer => exact .inl (handleTimer_irqs live h)
  | external irq => exact .inl (handleExternal_irqs h)
  | unhandled code =>
    cases h
    exact .inl rfl
  | ecall =>
    rcases handleEcall_irqs (live (mode rfl)) h with same | spawned
    · exact .inl same
    · exact .inr ⟨rfl, spawned⟩
  | fault code =>
    simp only [trapHandler] at h
    split at h
    · exact .inl (killCurrent_irqs h)
    · cases h

end GooseOs
