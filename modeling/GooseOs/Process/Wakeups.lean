import GooseOs.Process.Endings
import GooseOs.Irq.Notices

/-!
No wakeup is lost, and every wakeup has its counterpart. A process stays blocked only while nobody
is there to meet it: a sender while its target does not want the message, a receiver while nobody
sends to it, a parent while its child lives. A blocking call ends in the same step as the call of
the other side.
-/

namespace GooseOs
open Slot Sched Ipc Lifecycle Trap Security
variable [Platform]

/-- Blocked with a message for its target. -/
def Offering (p : Process) : Prop := p.state = .blockedSend ∨ p.state = .blockedCall

/-- Whoever is blocked has to be. -/
structure NothingMissed (c : Core) : Prop where
  sender : ∀ p, Offering (c.procs p) → wantsFrom (c.procs (c.procs p).ipcTarget) p = false
  receiver : ∀ p, (c.procs p).state = .blockedRecv → findSender c.procs p (c.procs p).ipcTarget = none
  interrupt : ∀ p, (c.procs p).state = .blockedRecv → (c.procs p).ipcTarget = 0 → (c.procs p).irqPending = false
  waiter : ∀ p, (c.procs p).state = .blockedWait →
    (c.procs (c.procs p).ipcTarget).parent = p ∧ (c.procs (c.procs p).ipcTarget).state ≠ .free

section Meeting
variable {c : Core} {p t : Nat}

omit [Platform] in
theorem Offering.blocked {s : Process} (offers : Offering s) : Blocked s.state :=
  offers.elim Or.inl fun calls => Or.inr (Or.inr (Or.inl calls))

omit [Platform] in
theorem Kept.wants {s s' : Process} (kept : Kept s s') : wantsFrom s' p = wantsFrom s p := by
  rw [wantsFrom, wantsFrom, kept.state, kept.ipcTarget]

omit [Platform] in
theorem Kept.offers {s s' : Process} (kept : Kept s s') (offers : Offering s') : Offering s := by
  rwa [Offering, ← kept.state]

omit [Platform] in
/-- A process the receiver's scan would pick is one its receive admits. -/
theorem wanted_of_sender {i : Nat} (blocked : (c.procs t).state = .blockedRecv)
    (found : findSender c.procs t (c.procs t).ipcTarget = some i) :
    Offering (c.procs i) ∧ (c.procs i).ipcTarget = t ∧ wantsFrom (c.procs t) i = true := by
  have sender := List.find?_some found
  simp only [isSenderTo, Bool.and_eq_true, Bool.or_eq_true, beq_iff_eq] at sender
  obtain ⟨⟨state, target⟩, admits⟩ := sender
  refine ⟨state, target, ?_⟩
  simp only [wantsFrom, blocked, beq_self_eq_true, Bool.true_and, Bool.or_eq_true, beq_iff_eq]
  exact admits

end Meeting

namespace MachineRun
variable {r : MachineRun} {n p q t : Nat}

/-- A blocked process was blocked before the step, or the step is the call it is blocked in. -/
theorem parked_step (r : MachineRun) (bound : n < r.len) (blocked : Blocked ((r.state (n + 1)).procs q).state) :
    (Blocked ((r.state n).procs q).state ∧ Kept ((r.state n).procs q) ((r.state (n + 1)).procs q)) ∨
      (r.label n = .trap .ecall ∧ q = (r.state n).currentPid ∧
        Parks (r.state n).toCore ((r.state (n + 1)).procs q)) := by
  by_cases trap : ∃ t, r.label n = .trap t
  · obtain ⟨t, label⟩ := trap
    refine (traps_parked (r.traps bound label) blocked).imp id ?_
    rintro ⟨rfl, caller, parks⟩
    exact ⟨label, caller, parks⟩
  · have procs := (step_other (r.steps n bound) fun t same => trap ⟨t, same⟩).1
    rw [procs] at blocked ⊢
    exact Or.inl ⟨blocked, Kept.refl _⟩

/-- A SYS_SEND or SYS_CALL leaves its caller blocked only on a target that does not want it. -/
theorem offer_parked (bound : n < r.len) (label : r.label n = .trap .ecall)
    (parks : Parks (r.state n).toCore ((r.state (n + 1)).procs (r.state n).currentPid))
    (offers : Offering ((r.state (n + 1)).procs (r.state n).currentPid))
    (target : ((r.state (n + 1)).procs (r.state n).currentPid).ipcTarget = t) :
    t ≠ (r.state n).currentPid ∧ (wantsFrom ((r.state n).procs t) (r.state n).currentPid = true →
      ((r.state (n + 1)).procs t).state ≠ .blockedRecv) := by
  generalize slot : (r.state (n + 1)).procs (r.state n).currentPid = s at parks offers target
  cases parks with
  | send number valid busy =>
    obtain rfl : (r.state n).frame.a0.toNat = t := target
    refine ⟨(isValidIpcTarget_iff.mp valid).2.2, fun wanted => ?_⟩
    rw [busy] at wanted
    cases wanted
  | call number direct valid =>
    obtain rfl : (r.state n).frame.a0.toNat = t := target
    have call : r.CallAt n sysCallNo (r.state n).currentPid := ⟨bound, label, number, rfl⟩
    refine ⟨(isValidIpcTarget_iff.mp valid).2.2, fun wanted => ?_⟩
    obtain ⟨state, ran, after⟩ := sysCall_met (call.sysCall direct) valid wanted
    rw [after]
    rcases ran with rfl | rfl <;> nofun
  | receive | wait | net => rcases offers with state | state <;> cases state

/-- A step leaves no sender blocked on a process that wants its message. -/
theorem sender_step (bound : n < r.len)
    (before : ∀ p, Offering ((r.state n).procs p) →
      wantsFrom ((r.state n).procs ((r.state n).procs p).ipcTarget) p = false)
    (offers : Offering ((r.state (n + 1)).procs p)) :
    wantsFrom ((r.state (n + 1)).procs ((r.state (n + 1)).procs p).ipcTarget) p = false := by
  generalize target : ((r.state (n + 1)).procs p).ipcTarget = t
  by_contra wants
  have wanted : wantsFrom ((r.state (n + 1)).procs t) p = true := Bool.eq_true_of_not_eq_false wants
  have receiving := wantsFrom_state wanted
  rcases r.parked_step bound offers.blocked with ⟨-, kept⟩ | ⟨label, rfl, parks⟩
  · have waits := kept.offers offers
    rcases r.parked_step bound (q := t) (Or.inr (Or.inl receiving)) with ⟨-, still⟩ | ⟨label, caller, parks⟩
    · have missed := before p waits
      rw [← kept.ipcTarget, target, ← still.wants, wanted] at missed
      cases missed
    · -- The target has just blocked: its scan saw no sender, but `p` was there.
      have range := (r.consistent (Nat.le_of_lt bound)).range p waits.blocked.not_running.2.2
      subst caller
      generalize slot : (r.state (n + 1)).procs (r.state n).currentPid = s at parks receiving wanted
      cases parks with
      | receive number none =>
        have missed := List.find?_eq_none.mp none p (mem_pids.mpr range)
        rw [wantsFrom, Bool.and_eq_true] at wanted
        refine missed ?_
        rw [isSenderTo, Bool.and_eq_true, Bool.and_eq_true, wanted.2, ← kept.ipcTarget, target]
        refine ⟨⟨?_, beq_self_eq_true _⟩, rfl⟩
        rcases waits with state | state <;> rw [state] <;> rfl
      | send | call | wait | net => cases receiving
  · have parked := offer_parked bound label parks offers target
    rcases r.parked_step bound (q := t) (Or.inr (Or.inl receiving)) with ⟨-, still⟩ | ⟨-, caller, -⟩
    · rw [still.wants] at wanted
      exact parked.2 wanted receiving
    · exact parked.1 caller

/-- While a process is blocked in SYS_RECEIVE no interrupt is put aside for it. -/
theorem interrupt_step (bound : n < r.len) (blocked : ((r.state n).procs p).state = .blockedRecv)
    (clear : ((r.state n).procs p).irqPending = false) : ((r.state (n + 1)).procs p).irqPending = false := by
  obtain ⟨e, event, possible, same⟩ := r.event bound
  have slot : ((r.state n).irqs.slot p).pending = false := clear
  have live : ((r.state n).irqs.slot p).live = true := irqSlot_live.mpr (by rw [blocked]; nofun)
  suffices after : (((r.state n).irqs.apply e).slot p).pending = false by
    rw [← same] at after
    exact after
  cases e with
  | none => exact slot
  | register pid irq =>
    simp only [IrqTable.apply]
    split
    · by_cases own : p = pid
      · subst own
        simpa using slot
      · simpa [Function.update_of_ne own] using slot
    · exact slot
  | ack pid =>
    simp only [IrqTable.apply]
    split <;> exact slot
  | take pid =>
    by_cases own : p = pid
    · subst own
      simp [IrqTable.apply]
    · simpa [IrqTable.apply, Function.update_of_ne own] using slot
  | ended pid =>
    by_cases own : p = pid
    · subst own
      simpa [IrqTable.apply] using slot
    · simpa [IrqTable.apply, Function.update_of_ne own] using slot
  | spawned pid =>
    have other : p ≠ pid := by
      rintro rfl
      rw [possible.1] at live
      cases live
    simpa [IrqTable.apply, Function.update_of_ne other] using slot
  | raised irq waiting =>
    simp only [IrqTable.apply]
    split
    · exact slot
    split
    · split
      · exact slot
      · rename_i busy
        by_cases own : p = (r.state n).irqs.handler irq
        · -- The owner is blocked in SYS_RECEIVE, so the event says that it waits.
          have label := event.raised rfl
          rw [label] at event
          cases event with
          | trap =>
            rw [irqOwner_eq, ← own, blocked] at busy
            exact absurd rfl busy
        · exact (congrArg IrqSlot.pending (Function.update_of_ne own ..)).trans slot
    · exact slot

theorem nothingMissed_start (r : MachineRun) : NothingMissed (r.state 0).toCore := by
  have idle : ∀ q, ¬ Blocked ((r.state 0).procs q).state := by
    intro q blocked
    obtain ⟨b, _, since⟩ := r.blockedSince (Nat.zero_le _) blocked
    exact absurd since.before (Nat.not_lt_zero b)
  exact {
    sender := fun p offers => absurd offers.blocked (idle p)
    receiver := fun p blocked => absurd (Or.inr (Or.inl blocked)) (idle p)
    interrupt := fun p blocked => absurd (Or.inr (Or.inl blocked)) (idle p)
    waiter := fun p blocked => absurd (Or.inr (Or.inr (Or.inr blocked))) (idle p) }

theorem nothingMissed_step (bound : n < r.len) (before : NothingMissed (r.state n).toCore) :
    NothingMissed (r.state (n + 1)).toCore := by
  have sender := fun p => sender_step (p := p) bound before.sender
  refine ⟨sender, fun p blocked => ?_, fun p blocked anyone => ?_, r.waiters bound⟩
  · by_contra found
    obtain ⟨i, found⟩ := Option.ne_none_iff_exists'.mp found
    obtain ⟨offers, target, wanted⟩ := wanted_of_sender blocked found
    have missed := sender i offers
    rw [target, wanted] at missed
    cases missed
  · rcases r.parked_step bound (q := p) (Or.inr (Or.inl blocked)) with ⟨-, kept⟩ | ⟨label, rfl, parks⟩
    · have still := kept.state.symm.trans blocked
      exact interrupt_step bound still (before.interrupt p still (kept.ipcTarget.symm.trans anyone))
    · generalize slot : (r.state (n + 1)).procs (r.state n).currentPid = s at parks anyone
      have state : s.state = .blockedRecv := by
        rw [← slot]
        exact blocked
      cases parks with
      | receive number none =>
        have call : r.CallAt n sysReceiveNo (r.state n).currentPid := ⟨bound, label, number, rfl⟩
        obtain ⟨quiet, -, -⟩ := sysReceive_blocks call.sysReceive call.running.1 blocked
        exact Bool.eq_false_of_not_eq_true fun pending => quiet ⟨pending, anyone⟩
      | send | call | wait | net => cases state

/-- In every state of the run whoever is blocked still has to wait. -/
def NoLostWakeup (r : MachineRun) : Prop := ∀ n ≤ r.len, NothingMissed (r.state n).toCore

theorem noLostWakeup (r : MachineRun) : r.NoLostWakeup := by
  intro n
  induction n with
  | zero => exact fun _ => r.nothingMissed_start
  | succ n ih => exact fun bound => nothingMissed_step (by omega) (ih (by omega))

end MachineRun

/-! ### How blocking calls end -/

theorem sysCall_rejected {c : Core} (invalid : isValidIpcTarget c.frame.a0.toNat c.currentPid = false) :
    Ipc.sysCall c = .ok (c.advance.setA0 usizeMax) := by
  simp [Ipc.sysCall, invalid]

omit [Platform] in
theorem sysReply_rejected {c : Core} (invalid : isValidIpcTarget c.frame.a0.toNat c.currentPid = false) :
    sysReply c = .ok (c.advance.setA0 usizeMax) := by
  simp [sysReply, invalid]

/-- Made runnable again with these saved registers, everything else as it was. -/
def Resumed (p p' : Process) (f : TrapFrame) : Prop :=
  ∃ state, (state = .ready ∨ state = .running) ∧ p' = { p with context := f, state := state }

namespace MachineRun

/-- Step `n` gets process `q` out of the call it is blocked in. -/
structure Releases (r : MachineRun) (n q : Nat) : Prop where
  bound : n < r.len
  blocked : Blocked ((r.state n).procs q).state
  after : ¬ Blocked ((r.state (n + 1)).procs q).state

/-- The process that sends to `q` at step `n` and what `q` gets of it. -/
inductive Serving (r : MachineRun) (n p q : Nat) : Prop where
  | sent (call : r.CallAt n sysSendNo p) (answer : (r.state (n + 1)).frame = { (r.state n).frame.advance with a0 := 0 })
      (resumed : Resumed ((r.state n).procs q) ((r.state (n + 1)).procs q)
        { ((r.state n).procs q).context with a0 := (r.state n).frame.a1, a1 := BitVec.ofNat 64 p })
  | called (call : r.CallAt n sysCallNo p) (waits : ((r.state (n + 1)).procs p).state = .blockedCall)
      (target : ((r.state (n + 1)).procs p).ipcTarget = q)
      (resumed : Resumed ((r.state n).procs q) ((r.state (n + 1)).procs q)
        { ((r.state n).procs q).context with
          a0 := (r.state n).frame.a1, a1 := BitVec.ofNat 64 p, a2 := (r.state n).frame.a2, a3 := (r.state n).frame.a3 })

/-- A blocked call ends in the step in which the other side makes its own call, with both answers. -/
structure Handshakes (r : MachineRun) : Prop where
  send : ∀ n q, r.Releases n q → ((r.state n).procs q).state = .blockedSend →
    r.CallAt n sysReceiveNo ((r.state n).procs q).ipcTarget ∧
      (r.state (n + 1)).frame =
        { (r.state n).frame.advance with a0 := ((r.state n).procs q).ipcValue, a1 := BitVec.ofNat 64 q } ∧
      Resumed ((r.state n).procs q) ((r.state (n + 1)).procs q) { ((r.state n).procs q).context with a0 := 0 }
  call : ∀ n q, r.Releases n q → ((r.state n).procs q).state = .blockedCall →
    r.CallAt n sysReplyNo ((r.state n).procs q).ipcTarget ∧ (r.state n).frame.a0.toNat = q ∧
      (r.state (n + 1)).frame = { (r.state n).frame.advance with a0 := 0 } ∧
      Resumed ((r.state n).procs q) ((r.state (n + 1)).procs q)
        { ((r.state n).procs q).context with a0 := (r.state n).frame.a1 }
  receive : ∀ n q, r.Releases n q → ((r.state n).procs q).state = .blockedRecv →
    (∃ p, (((r.state n).procs q).ipcTarget = 0 ∨ ((r.state n).procs q).ipcTarget = p) ∧
        (r.state n).frame.a0.toNat = q ∧ r.Serving n p q) ∨
      ∃ irq, r.label n = .trap (.external irq) ∧ (r.state n).irqOwner irq = q ∧
        Resumed ((r.state n).procs q) ((r.state (n + 1)).procs q)
          { ((r.state n).procs q).context with a0 := BitVec.ofNat 64 irq, a1 := 0 }
  wait : ∀ n q, r.Releases n q → ((r.state n).procs q).state = .blockedWait →
    ∃ code, r.EndsAt n ((r.state n).procs q).ipcTarget code ∧
      Resumed ((r.state n).procs q) ((r.state (n + 1)).procs q) { ((r.state n).procs q).context with a0 := code }

variable {r : MachineRun} {n p q t : Nat}

theorem Releases.cause (released : r.Releases n q) :
    ∃ t f, r.label n = .trap t ∧ Wakes (r.state n).toCore t q f ∧
      Resumed ((r.state n).procs q) ((r.state (n + 1)).procs q) f := by
  rcases r.blocked_step released.bound released.blocked with kept | ⟨t, f, state, label, cause, running, after⟩
  · have still := released.blocked
    rw [← kept.state] at still
    exact absurd still released.after
  · exact ⟨t, f, label, cause, state, running, after⟩

/-- A step that only answers its caller releases nobody. -/
theorem Releases.not_answered (released : r.Releases n q) :
    (r.state (n + 1)).toCore ≠ (r.state n).toCore.advance.setA0 usizeMax := by
  intro same
  have after := released.after
  rw [same] at after
  exact after released.blocked

theorem Releases.serving (released : r.Releases n q) (label : r.label n = .trap .ecall)
    (wanted : wantsFrom ((r.state n).procs q) (r.state n).currentPid = true) (target : (r.state n).frame.a0.toNat = q)
    (number : (r.state n).frame.a7.toNat = sysSendNo ∨ ((r.state n).frame.a7.toNat = sysCallNo ∧
      ¬ (Platform.net = true ∧ (r.state n).frame.a0.toNat = NetServer.netServerPid))) :
    r.Serving n (r.state n).currentPid q := by
  subst target
  rcases number with number | ⟨number, direct⟩
  · have call : r.CallAt n sysSendNo (r.state n).currentPid := ⟨released.bound, label, number, rfl⟩
    have valid : isValidIpcTarget (r.state n).frame.a0.toNat (r.state n).currentPid = true := by
      by_contra invalid
      have refused := sysSend_rejected (c := (r.state n).toCore) (Bool.eq_false_of_not_eq_true invalid)
      exact released.not_answered (Except.ok.inj (call.sysSend.symm.trans refused))
    have after := sysSend_met call.sysSend valid wanted
    refine .sent call (by rw [after]; rfl) ⟨.ready, Or.inl rfl, ?_⟩
    rw [after, Core.setA0_procs, Core.modify_procs, Function.update_self]
    rfl
  · have call : r.CallAt n sysCallNo (r.state n).currentPid := ⟨released.bound, label, number, rfl⟩
    have handled := call.sysCall direct
    have valid : isValidIpcTarget (r.state n).frame.a0.toNat (r.state n).currentPid = true := by
      by_contra invalid
      have refused := sysCall_rejected (c := (r.state n).toCore) (Bool.eq_false_of_not_eq_true invalid)
      exact released.not_answered (Except.ok.inj (handled.symm.trans refused))
    have parked := sysCall_parked handled valid
    exact .called call (by rw [parked]) (by rw [parked]) (sysCall_met handled valid wanted)

theorem handshake_send (released : r.Releases n q) (sender : ((r.state n).procs q).state = .blockedSend) :
    r.CallAt n sysReceiveNo ((r.state n).procs q).ipcTarget ∧
      (r.state (n + 1)).frame =
        { (r.state n).frame.advance with a0 := ((r.state n).procs q).ipcValue, a1 := BitVec.ofNat 64 q } ∧
      Resumed ((r.state n).procs q) ((r.state (n + 1)).procs q) { ((r.state n).procs q).context with a0 := 0 } := by
  obtain ⟨t, f, label, cause, resumed⟩ := released.cause
  cases cause with
  | receive number quiet found =>
    have picked := List.find?_some found
    simp only [isSenderTo, Bool.and_eq_true, beq_iff_eq] at picked
    have call : r.CallAt n sysReceiveNo (r.state n).currentPid := ⟨released.bound, label, number, rfl⟩
    obtain ⟨-, frame, -⟩ := sysReceive_found call.sysReceive quiet found
    refine ⟨?_, frame, resumed⟩
    rw [picked.1.2]
    exact call
  | send _ _ wanted => exact absurd ((wantsFrom_state wanted).symm.trans sender) (by decide)
  | call _ _ _ wanted => exact absurd ((wantsFrom_state wanted).symm.trans sender) (by decide)
  | reply _ _ caller => exact absurd (caller.symm.trans sender) (by decide)
  | exit _ waiter => exact absurd (waiter.symm.trans sender) (by decide)
  | irq _ receiver => exact absurd (receiver.symm.trans sender) (by decide)

theorem handshake_call (released : r.Releases n q) (caller : ((r.state n).procs q).state = .blockedCall) :
    r.CallAt n sysReplyNo ((r.state n).procs q).ipcTarget ∧ (r.state n).frame.a0.toNat = q ∧
      (r.state (n + 1)).frame = { (r.state n).frame.advance with a0 := 0 } ∧
      Resumed ((r.state n).procs q) ((r.state (n + 1)).procs q)
        { ((r.state n).procs q).context with a0 := (r.state n).frame.a1 } := by
  obtain ⟨t, f, label, cause, resumed⟩ := released.cause
  cases cause with
  | reply number target _ waits =>
    have call : r.CallAt n sysReplyNo (r.state n).currentPid := ⟨released.bound, label, number, rfl⟩
    have frame : (r.state (n + 1)).frame = { (r.state n).frame.advance with a0 := 0 } := by
      subst target
      have valid : isValidIpcTarget (r.state n).frame.a0.toNat (r.state n).currentPid = true := by
        by_contra invalid
        have refused := sysReply_rejected (c := (r.state n).toCore) (Bool.eq_false_of_not_eq_true invalid)
        exact released.not_answered (Except.ok.inj (call.sysReply.symm.trans refused))
      rw [sysReply_accepted call.sysReply valid caller waits]
      rfl
    refine ⟨?_, target, frame, resumed⟩
    rw [waits]
    exact call
  | send _ _ wanted => exact absurd ((wantsFrom_state wanted).symm.trans caller) (by decide)
  | call _ _ _ wanted => exact absurd ((wantsFrom_state wanted).symm.trans caller) (by decide)
  | receive _ _ _ sender => exact absurd (sender.symm.trans caller) (by decide)
  | exit _ waiter => exact absurd (waiter.symm.trans caller) (by decide)
  | irq _ receiver => exact absurd (receiver.symm.trans caller) (by decide)

theorem handshake_receive (released : r.Releases n q) (receiver : ((r.state n).procs q).state = .blockedRecv) :
    (∃ p, (((r.state n).procs q).ipcTarget = 0 ∨ ((r.state n).procs q).ipcTarget = p) ∧
        (r.state n).frame.a0.toNat = q ∧ r.Serving n p q) ∨
      ∃ irq, r.label n = .trap (.external irq) ∧ (r.state n).irqOwner irq = q ∧
        Resumed ((r.state n).procs q) ((r.state (n + 1)).procs q)
          { ((r.state n).procs q).context with a0 := BitVec.ofNat 64 irq, a1 := 0 } := by
  obtain ⟨t, f, label, cause, resumed⟩ := released.cause
  have admits : wantsFrom ((r.state n).procs q) (r.state n).currentPid = true →
      ((r.state n).procs q).ipcTarget = 0 ∨ ((r.state n).procs q).ipcTarget = (r.state n).currentPid := by
    intro wanted
    simpa [wantsFrom, receiver] using wanted
  cases cause with
  | send number target wanted =>
    exact Or.inl ⟨_, admits wanted, target, released.serving label wanted target (Or.inl number)⟩
  | call number target direct wanted =>
    exact Or.inl ⟨_, admits wanted, target, released.serving label wanted target (Or.inr ⟨number, direct⟩)⟩
  | irq owner => exact Or.inr ⟨_, label, owner, resumed⟩
  | receive _ _ _ sender => exact absurd (sender.symm.trans receiver) (by decide)
  | reply _ _ caller => exact absurd (caller.symm.trans receiver) (by decide)
  | exit _ waiter => exact absurd (waiter.symm.trans receiver) (by decide)

theorem handshake_wait (released : r.Releases n q) (waiter : ((r.state n).procs q).state = .blockedWait) :
    ∃ code, r.EndsAt n ((r.state n).procs q).ipcTarget code ∧
      Resumed ((r.state n).procs q) ((r.state (n + 1)).procs q) { ((r.state n).procs q).context with a0 := code } := by
  obtain ⟨t, f, label, cause, resumed⟩ := released.cause
  cases cause with
  | exit ends _ waits =>
    refine ⟨_, ?_, resumed⟩
    rw [waits]
    exact r.endsAt_of_ends released.bound label ends
  | send _ _ wanted => exact absurd ((wantsFrom_state wanted).symm.trans waiter) (by decide)
  | call _ _ _ wanted => exact absurd ((wantsFrom_state wanted).symm.trans waiter) (by decide)
  | receive _ _ _ sender => exact absurd (sender.symm.trans waiter) (by decide)
  | reply _ _ caller => exact absurd (caller.symm.trans waiter) (by decide)
  | irq _ receiver => exact absurd (receiver.symm.trans waiter) (by decide)

theorem handshakes (r : MachineRun) : r.Handshakes where
  send _ _ := handshake_send
  call _ _ := handshake_call
  receive _ _ := handshake_receive
  wait _ _ := handshake_wait

end MachineRun
end GooseOs

namespace GooseOs
open Reference MachineRun
attribute [local instance] Reference.platform

/-- The caller still has to wait: nobody has asked for its message. -/
theorem noLostWakeup_answered :
    Offering ((answeredRun.state 2).procs 1) ∧ NothingMissed (answeredRun.state 2).toCore :=
  ⟨.inr (by decide), noLostWakeup answeredRun 2 (by decide)⟩

/-- The reply ends the call: the server gets 0 and the caller the value. -/
theorem handshakes_answered : answeredRun.Releases 5 1 ∧
    (answeredRun.state 6).frame = { (answeredRun.state 5).frame.advance with a0 := 0 } ∧
    Resumed ((answeredRun.state 5).procs 1) ((answeredRun.state 6).procs 1)
      { ((answeredRun.state 5).procs 1).context with a0 := 9 } := by
  have released : answeredRun.Releases 5 1 := by
    refine ⟨by decide, .inr (.inr (.inl (by decide))), fun blocked => ?_⟩
    have ready : ((answeredRun.state 6).procs 1).state = .ready := by decide
    rw [ready] at blocked
    exact absurd blocked (by simp [Blocked])
  obtain ⟨-, -, frame, resumed⟩ := (handshakes answeredRun).call 5 1 released (by decide)
  exact ⟨released, frame, resumed⟩

end GooseOs
