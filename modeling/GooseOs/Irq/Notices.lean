import GooseOs.Irq.Ownership
import GooseOs.Process.ExitCodes

/-!
Interrupt notifications over a run. Each claim of an interrupt becomes one notification of its
owner: pending in its slot, written to its saved registers, or returned by its SYS_RECEIVE.
-/

namespace GooseOs
open Slot Sched Ipc Trap Security

section Law
variable [Platform] {r : MachineRun} {n p q : Nat}

/-! ### One call, one interrupt -/

omit [Platform] in
theorem word_ne_zero {i : Nat} (nonzero : i ≠ 0) (small : i < 2 ^ 64) : BitVec.ofNat 64 i ≠ 0 := by
  intro zero
  have same := congrArg BitVec.toNat zero
  rw [BitVec.toNat_ofNat, Nat.mod_eq_of_lt small] at same
  exact nonzero same

omit [Platform] in
theorem pid_word (inside : 1 ≤ p ∧ p < maxProcs) : BitVec.ofNat 64 p ≠ 0 :=
  word_ne_zero (Nat.ne_of_gt inside.1) (inside.2.trans (by decide))

omit [Platform] in
theorem irq_word (nonzero : q ≠ 0) (valid : isValidIrq q = true) : BitVec.ofNat 64 q ≠ 0 := by
  have small : q < maxIrqs := by simpa [isValidIrq] using valid
  exact word_ne_zero nonzero (small.trans (by decide))

/-- SYS_RECEIVE collects the flag, meets a sender, or blocks. -/
theorem sysReceive_cases {c c' : Core} (h : sysReceive c = .ok c') (running : (c.procs c.currentPid).state = .running) :
    (c'.procs c.currentPid = { c.procs c.currentPid with irqPending := false } ∧
        (c.procs c.currentPid).irqPending = true ∧
        c'.frame = { c.frame.advance with a0 := BitVec.ofNat 64 (c.procs c.currentPid).irqNum, a1 := 0 }) ∨
      (c'.procs c.currentPid = c.procs c.currentPid ∧ c'.frame.a1 ≠ 0) ∨
      ((c'.procs c.currentPid).state = .blockedRecv ∧
        (c'.procs c.currentPid).irqPending = (c.procs c.currentPid).irqPending) := by
  unfold sysReceive at h
  dsimp only at h
  split at h
  · next pending =>
    cases h
    exact .inl ⟨by simp, (Bool.and_eq_true_iff.mp pending).1, rfl⟩
  split at h
  · next i found =>
    have found : findSender c.procs c.currentPid c.frame.a0.toNat = some i := found
    have sender := List.find?_some found
    have inside := mem_pids.mp (List.mem_of_find?_eq_some found)
    have other : c.currentPid ≠ i := by
      intro own
      rw [← own, isSenderTo, running] at sender
      cases sender
    have nonzero := pid_word inside
    refine .inr (.inl ?_)
    split at h
    · cases h
      exact ⟨by simp [Function.update_of_ne other], nonzero⟩
    · cases h
      exact ⟨rfl, nonzero⟩
  · have own := schedule_own h (by simp)
    exact .inr (.inr ⟨(congrArg Process.state own).trans (by simp), (congrArg Process.irqPending own).trans (by simp)⟩)

/-- An interrupt wakes an owner that is blocked in SYS_RECEIVE. -/
theorem external_wakes {k k' : Kernel} (h : handleExternal k q = .ok k') (nonzero : q ≠ 0)
    (valid : isValidIrq q = true) (owner : k.irqOwner q = p) (used : p ≠ 0)
    (blocked : (k.procs p).state = .blockedRecv) : (k'.procs p).state ≠ .blockedRecv := by
  have handed : Syscall.irqOwner { k with plic := k.plic.claim q } q = p := by
    unfold Syscall.irqOwner
    rw [if_neg (by rw [valid]; nofun), owner]
  have waits : ((k.procs p).state == .blockedRecv) = true := by
    rw [blocked]
    rfl
  unfold handleExternal at h
  dsimp only at h
  rw [if_neg nonzero, handed, if_pos used, irqNotify, if_pos waits] at h
  split at h
  · cases h
    unfold scheduleFromIdle
    split
    · simp
    · next next found =>
      by_cases own : p = next
      · subst own
        simp [load]
      · simp [load, Function.update_of_ne own]
  · cases h
    simp

theorem StepEvent.take {k : Kernel} {l : Label} {e : IrqEvent} (event : StepEvent k l e) (same : e = .take p) :
    l = .trap .ecall ∧ k.frame.a7.toNat = sysReceiveNo ∧ k.currentPid = p := by
  cases event with
  | trap t =>
    cases t with
    | timer | unhandled code | fault code | external irq => cases same
    | ecall =>
      unfold irqEvent at same
      dsimp only at same
      split at same
      · cases same
      · next number =>
        split at same
        · cases same
          exact ⟨rfl, number, rfl⟩
        · cases same
      · cases same
      · cases same
      · cases same
  | spawned | other => cases same

theorem StepEvent.raised {k : Kernel} {l : Label} {e : IrqEvent} {waiting : Bool} (event : StepEvent k l e)
    (same : e = .raised q waiting) : l = .trap (.external q) := by
  cases event with
  | trap t =>
    cases t with
    | timer | unhandled code | fault code => cases same
    | external irq =>
      cases same
      rfl
    | ecall =>
      unfold irqEvent at same
      dsimp only at same
      split at same
      · cases same
      · split at same <;> cases same
      · cases same
      · cases same
      · cases same
  | spawned | other => cases same

theorem StepEvent.ack {k : Kernel} {l : Label} {e : IrqEvent} (event : StepEvent k l e) (same : e = .ack p) :
    l = .trap .ecall ∧ k.frame.a7.toNat = sysIrqAckNo ∧ k.currentPid = p := by
  cases event with
  | trap t =>
    cases t with
    | timer | unhandled code | fault code | external irq => cases same
    | ecall =>
      unfold irqEvent at same
      dsimp only at same
      split at same
      · cases same
      · split at same <;> cases same
      · cases same
      · next number =>
        cases same
        exact ⟨rfl, number, rfl⟩
      · cases same
  | spawned | other => cases same

theorem sysIrqRegister_state {k : Kernel} : ((Syscall.sysIrqRegister k).procs p).state = (k.procs p).state := by
  unfold Syscall.sysIrqRegister
  dsimp only
  split
  · rfl
  split
  · rfl
  · show (Function.update k.procs k.currentPid _ p).state = _
    by_cases own : p = k.currentPid
    · rw [own, Function.update_self]
      rfl
    · rw [Function.update_of_ne own]

/-! ### Receives on a run -/

namespace MachineRun

/-- A SYS_RECEIVE of `p` has been made by state `n`, and `p` has not run since. -/
def InReceive (r : MachineRun) (n p : Nat) : Prop :=
  ∃ m, m < n ∧ r.CallAt m sysReceiveNo p ∧ ∀ i, m < i → i ≤ n → ((r.state i).procs p).state ≠ .running

/-- A SYS_RECEIVE of `p` returns at step `n`, at once or when `p` is loaded. -/
def Returns (r : MachineRun) (n p : Nat) : Prop :=
  ((r.state (n + 1)).procs p).state = .running ∧ (r.CallAt n sysReceiveNo p ∨ r.InReceive n p)

end MachineRun

/-- The registers say that interrupt `q` has been raised. -/
def Notice (f : TrapFrame) (q : Nat) : Prop := f.a0 = BitVec.ofNat 64 q ∧ f.a1 = 0

namespace MachineRun

def Notified (r : MachineRun) (n p q : Nat) : Prop := r.Returns n p ∧ Notice (r.state (n + 1)).frame q

/-- A notification lies in the saved registers of `p`, whose SYS_RECEIVE has not returned yet. -/
def Written (r : MachineRun) (n p q : Nat) : Prop :=
  r.InReceive n p ∧ ((r.state n).procs p).state = .ready ∧ Notice ((r.state n).procs p).context q

theorem inReceive_succ (bound : n < r.len) :
    r.InReceive (n + 1) p ↔
      (r.InReceive n p ∨ r.CallAt n sysReceiveNo p) ∧ ((r.state (n + 1)).procs p).state ≠ .running := by
  constructor
  · rintro ⟨m, before, call, away⟩
    refine ⟨?_, away (n + 1) before le_rfl⟩
    rcases Nat.lt_or_ge m n with earlier | now
    · exact .inl ⟨m, earlier, call, fun i above below => away i above (by omega)⟩
    · obtain rfl : m = n := by omega
      exact .inr call
  · rintro ⟨⟨m, before, call, away⟩ | call, parked⟩
    · refine ⟨m, by omega, call, fun i above below => ?_⟩
      rcases Nat.lt_or_ge n i with last | inner
      · obtain rfl : i = n + 1 := by omega
        exact parked
      · exact away i above inner
    · refine ⟨n, by omega, call, fun i above below => ?_⟩
      obtain rfl : i = n + 1 := by omega
      exact parked

theorem InReceive.parked (receives : r.InReceive n p) : ((r.state n).procs p).state ≠ .running := by
  obtain ⟨m, before, -, away⟩ := receives
  exact away n before le_rfl

theorem inReceive_of_blocked (bound : n ≤ r.len) (blocked : ((r.state n).procs p).state = .blockedRecv) :
    r.InReceive n p := by
  obtain ⟨b, slot, since⟩ := r.blockedSince bound (.inr (.inl blocked))
  have kept := (since.since n since.before le_rfl).state
  rw [blocked] at kept
  have parks := since.parks
  cases parks with
  | receive number =>
    refine ⟨b, since.before, ⟨since.bound, since.label, number, since.caller⟩, fun i above below => ?_⟩
    rw [(since.since i above below).state]
    nofun
  | send | call | wait | net => cases kept

/-- Until it returns the receiver is blocked, or ready with what it was sent. -/
theorem InReceive.state (bound : n ≤ r.len) (receives : r.InReceive n p) :
    ((r.state n).procs p).state = .blockedRecv ∨ ((r.state n).procs p).state = .ready := by
  induction n with
  | zero =>
    obtain ⟨m, before, -⟩ := receives
    omega
  | succ n ih =>
    obtain ⟨earlier | call, parked⟩ := (inReceive_succ (by omega)).mp receives
    · rcases ih (by omega) earlier with blocked | ready
      · rcases r.blocked_step (by omega) (.inr (.inl blocked)) with kept | ⟨t, f, state, -, -, woken, after⟩
        · exact .inl (kept.state.trans blocked)
        · rw [after] at parked ⊢
          exact .inr (woken.resolve_right parked)
      · exact .inr ((r.ready_step (by omega) ready).1.resolve_right parked)
    · rcases sysReceive_cases call.sysReceive (by rw [call.caller]; exact call.running.1) with
        ⟨same, -⟩ | ⟨same, -⟩ | ⟨blocked, -⟩
      · rw [call.caller] at same
        rw [same] at parked
        exact absurd call.running.1 parked
      · rw [call.caller] at same
        rw [same] at parked
        exact absurd call.running.1 parked
      · rw [call.caller] at blocked
        exact .inl blocked

/-- A receiver is woken by a process, or handed its own interrupt. -/
theorem woken_receiver (bound : n < r.len) (single : (r.state n).irqs.Single p q)
    (blocked : ((r.state n).procs p).state = .blockedRecv) (woken : ((r.state (n + 1)).procs p).state ≠ .blockedRecv) :
    (((r.state (n + 1)).procs p).state = .ready ∨ ((r.state (n + 1)).procs p).state = .running) ∧
      (((r.state (n + 1)).procs p).context.a1 ≠ 0 ∧ r.label n ≠ .trap (.external q) ∨
        (Notice ((r.state (n + 1)).procs p).context q ∧ r.label n = .trap (.external q))) := by
  rcases r.blocked_step bound (.inr (.inl blocked)) with kept | ⟨t, f, state, label, cause, runs, after⟩
  · exact absurd (kept.state.trans blocked) woken
  have cons := r.consistent (Nat.le_of_lt bound)
  have step := r.steps n bound
  rw [label] at step
  have user := (step_trap step).2
  rw [after]
  refine ⟨runs, ?_⟩
  cases cause with
  | send => exact .inl ⟨pid_word (cons.current_range (user rfl)), by rw [label]; nofun⟩
  | call => exact .inl ⟨pid_word (cons.current_range (user rfl)), by rw [label]; nofun⟩
  | receive _ _ _ sender => exact absurd (blocked.symm.trans sender) nofun
  | reply _ _ caller => exact absurd (blocked.symm.trans caller) nofun
  | exit _ waiter => exact absurd (blocked.symm.trans waiter) nofun
  | @irq _ irq owner =>
    by_cases zero : irq = 0
    · have handled := (step_trap step).1
      rw [zero] at handled
      have same : r.state n = r.state (n + 1) := Except.ok.inj handled
      rw [← same] at woken
      exact absurd blocked woken
    · obtain rfl := single.only irq zero owner
      exact .inr ⟨⟨rfl, rfl⟩, label⟩

theorem raised_flag (bound : n < r.len) (single : (r.state n).irqs.Single p q) (nonzero : q ≠ 0)
    (label : r.label n = .trap (.external q)) :
    (r.state (n + 1)).plic.claimed q = true ∧
      ((r.state (n + 1)).procs p).irqPending =
        if ((r.state n).procs p).state == .blockedRecv then ((r.state n).procs p).irqPending else true := by
  have sound := r.irqs_sound (Nat.le_of_lt bound)
  obtain ⟨e, event, -, same⟩ := r.event bound
  rw [label] at event
  have handed : Syscall.irqOwner (r.state n) q = p := by
    have valid := sound.valid q (by rw [single.owner]; exact single.used sound)
    unfold Syscall.irqOwner
    rw [if_neg (by rw [valid]; nofun)]
    exact single.owner
  cases event with
  | other quiet => exact absurd rfl (quiet _)
  | trap t =>
    have raised := single.raised sound nonzero (((r.state n).procs p).state == .blockedRecv)
    rw [irqEvent, handed] at same
    rw [← same] at raised
    exact raised

/-- Otherwise the flag stays, unless a SYS_RECEIVE of `p` collects it. -/
theorem kept_flag (bound : n < r.len) (single : (r.state n).irqs.Single p q)
    (quiet : r.label n ≠ .trap (.external q)) (busy : ¬ r.CallAt n sysReceiveNo p) :
    ((r.state (n + 1)).procs p).irqPending = ((r.state n).procs p).irqPending := by
  obtain ⟨e, event, possible, same⟩ := r.event bound
  have kept : ((r.state (n + 1)).irqs.slot p).pending = ((r.state n).irqs.slot p).pending := by
    rw [same]
    refine single.pending possible (fun taken => busy ?_) fun waiting raised => quiet (event.raised raised)
    obtain ⟨label, number, caller⟩ := event.take taken
    exact ⟨bound, label, number, caller⟩
  exact kept

/-- A process that is not in SYS_RECEIVE is notified of nothing. -/
theorem outside_receive (bound : n < r.len) (outside : ¬ r.InReceive n p) (uncalled : ¬ r.CallAt n sysReceiveNo p) :
    ¬ r.Notified n p q ∧ ¬ r.Written (n + 1) p q :=
  ⟨fun notified => notified.1.2.elim uncalled outside,
    fun later => ((inReceive_succ bound).mp later.1).1.elim outside uncalled⟩

theorem still_blocked (blocked : ((r.state (n + 1)).procs p).state = .blockedRecv) :
    ¬ r.Notified n p q ∧ ¬ r.Written (n + 1) p q := by
  refine ⟨fun notified => ?_, fun later => ?_⟩
  · have runs := notified.1.1
    rw [blocked] at runs
    cases runs
  · have ready := later.2.1
    rw [blocked] at ready
    cases ready

/-- A ready receiver keeps what it was sent until it is loaded, and returns with it. -/
theorem ready_receiver (bound : n < r.len) (receives : r.InReceive n p) (ready : ((r.state n).procs p).state = .ready)
    (nonzero : BitVec.ofNat 64 q ≠ 0)
    (unspoilt : ∀ o, r.CallAt n sysYieldNo o → nextReady (r.state n).procs o (maxProcs - 2) = some p →
      ¬ r.Written n p q) :
    once (r.Notified n p q) + once (r.Written (n + 1) p q) = once (r.Written n p q) := by
  obtain ⟨next, same⟩ := r.ready_step bound ready
  have written : r.Written n p q ↔ Notice ((r.state n).procs p).context q :=
    ⟨fun written => written.2.2, fun notice => ⟨receives, ready, notice⟩⟩
  rcases next with still | runs
  · have away : ((r.state (n + 1)).procs p).state ≠ .running := by rw [still]; nofun
    have kept : r.Written (n + 1) p q ↔ r.Written n p q := by
      rw [written, ← same]
      exact ⟨fun later => later.2.2, fun notice => ⟨(inReceive_succ bound).mpr ⟨.inl receives, away⟩, still, notice⟩⟩
    rw [once_neg fun notified => away notified.1.1, once_congr kept, Nat.zero_add]
  · have gone : ¬ r.Written (n + 1) p q := fun later => later.1.parked runs
    have returned : r.Notified n p q ↔ r.Written n p q := by
      rw [written]
      rcases r.loaded_frame bound receives.parked runs with loaded | ⟨spoilt, o, call, found⟩
      · rw [← same, ← loaded]
        exact ⟨fun notified => notified.2, fun notice => ⟨⟨runs, .inr receives⟩, notice⟩⟩
      · refine ⟨fun notified => ?_, fun notice => absurd (written.mpr notice) (unspoilt o call found)⟩
        have zero := notified.2.1
        rw [spoilt] at zero
        exact absurd zero.symm nonzero
    rw [once_neg gone, once_congr returned, Nat.add_zero]

/-- The interrupt of `p` becomes one notification: written, returned or flagged. -/
theorem external_notice (bound : n < r.len) (single : (r.state n).irqs.Single p q) (nonzero : q ≠ 0)
    (label : r.label n = .trap (.external q)) (unwritten : ¬ r.Written n p q)
    (clear : ((r.state n).procs p).irqPending = false) :
    once (r.Notified n p q) + once (r.Written (n + 1) p q) + once (((r.state (n + 1)).procs p).irqPending = true) =
      1 := by
  have sound := r.irqs_sound (Nat.le_of_lt bound)
  have uncalled : ∀ number o, ¬ r.CallAt n number o := by
    intro number o call
    rw [call.label] at label
    cases label
  have valid := sound.valid q (by rw [single.owner]; exact single.used sound)
  have flag := (raised_flag bound single nonzero label).2
  by_cases blocked : ((r.state n).procs p).state = .blockedRecv
  · rw [if_pos (by rw [blocked]; rfl), clear] at flag
    have receives := r.inReceive_of_blocked (Nat.le_of_lt bound) blocked
    have step := r.steps n bound
    rw [label] at step
    have woken := external_wakes (step_trap step).1 nonzero valid single.owner (single.used sound) blocked
    obtain ⟨runs, ⟨-, other⟩ | ⟨notice, -⟩⟩ := woken_receiver bound single blocked woken
    · exact absurd label other
    rw [once_neg (P := _ = true) (by rw [flag]; nofun), Nat.add_zero]
    rcases runs with ready | running
    · have away : ((r.state (n + 1)).procs p).state ≠ .running := by rw [ready]; nofun
      rw [once_neg fun notified => away notified.1.1,
        once_pos ⟨(inReceive_succ bound).mpr ⟨.inl receives, away⟩, ready, notice⟩]
    · have loaded : (r.state (n + 1)).frame = ((r.state (n + 1)).procs p).context := by
        refine (r.loaded_frame bound receives.parked running).resolve_right ?_
        rintro ⟨-, o, call, -⟩
        exact uncalled _ o call
      rw [once_pos ⟨⟨running, .inr receives⟩, by rw [loaded]; exact notice⟩,
        once_neg fun later => later.1.parked running]
  · rw [if_neg (by simpa using blocked)] at flag
    rw [once_pos flag]
    -- A receiver that is ready holds something else.
    have idle : once (r.Notified n p q) + once (r.Written (n + 1) p q) = 0 := by
      by_cases receives : r.InReceive n p
      · have ready := (receives.state (Nat.le_of_lt bound)).resolve_left blocked
        rw [ready_receiver bound receives ready (irq_word nonzero valid) fun o call => absurd call (uncalled _ o),
          once_neg unwritten]
      · obtain ⟨unnotified, gone⟩ := outside_receive bound receives (uncalled _ _)
        rw [once_neg unnotified, once_neg gone]
    omega

/-- Every other step moves a notification on, and neither makes nor loses one. -/
theorem other_notice (bound : n < r.len) (single : (r.state n).irqs.Single p q) (nonzero : q ≠ 0)
    (quiet : r.label n ≠ .trap (.external q))
    (unspoilt : ∀ o, r.CallAt n sysYieldNo o → nextReady (r.state n).procs o (maxProcs - 2) = some p →
      ¬ r.Written n p q) :
    once (r.Notified n p q) + once (r.Written (n + 1) p q) + once (((r.state (n + 1)).procs p).irqPending = true) =
      once (r.Written n p q) + once (((r.state n).procs p).irqPending = true) := by
  have sound := r.irqs_sound (Nat.le_of_lt bound)
  have valid := sound.valid q (by rw [single.owner]; exact single.used sound)
  by_cases call : r.CallAt n sysReceiveNo p
  · have running := call.running.1
    have outside : ¬ r.Written n p q := fun written => written.1.parked running
    rw [once_neg outside, Nat.zero_add]
    have cases := sysReceive_cases call.sysReceive (by rw [call.caller]; exact running)
    rw [call.caller] at cases
    rcases cases with ⟨slot, pending, frame⟩ | ⟨slot, sender⟩ | ⟨blocked, flag⟩
    · have runs : ((r.state (n + 1)).procs p).state = .running := by rw [slot]; exact running
      have notified : r.Notified n p q := by
        refine ⟨⟨runs, .inl call⟩, ?_, ?_⟩
        · rw [frame, show ((r.state n).procs p).irqNum = q from single.num]
        · rw [frame]
      rw [once_pos notified, once_neg fun later => later.1.parked runs, once_pos pending]
      exact congrArg (1 + 0 + ·) (once_neg (by rw [slot]; nofun))
    · have runs : ((r.state (n + 1)).procs p).state = .running := by rw [slot]; exact running
      rw [once_neg fun notified => sender notified.2.2, once_neg fun later => later.1.parked runs, slot]
      simp
    · obtain ⟨unnotified, gone⟩ := still_blocked (q := q) blocked
      rw [once_neg unnotified, once_neg gone, flag]
      simp
  · rw [kept_flag bound single quiet call]
    refine congrArg (· + once _) ?_
    by_cases receives : r.InReceive n p
    · rcases receives.state (Nat.le_of_lt bound) with blocked | ready
      · have unwritten : ¬ r.Written n p q := fun written => absurd (blocked.symm.trans written.2.1) nofun
        rw [once_neg unwritten]
        by_cases still : ((r.state (n + 1)).procs p).state = .blockedRecv
        · obtain ⟨unnotified, gone⟩ := still_blocked (q := q) still
          rw [once_neg unnotified, once_neg gone]
        · obtain ⟨runs, ⟨sender, -⟩ | ⟨-, label⟩⟩ := woken_receiver bound single blocked still
          · rw [once_neg, once_neg fun later => sender later.2.2.2]
            intro notified
            have answer := notified.2.2
            rcases r.loaded_frame bound receives.parked notified.1.1 with loaded | ⟨loaded, -⟩
            · rw [loaded] at answer
              exact sender answer
            · rw [loaded] at answer
              exact sender answer
          · exact absurd label quiet
      · exact ready_receiver bound receives ready (irq_word nonzero valid) unspoilt
    · obtain ⟨unnotified, gone⟩ := outside_receive bound receives call
      rw [once_neg unnotified, once_neg gone, once_neg fun written => receives written.1]

/-! ### Counting -/

/-- The notifications SYS_RECEIVEs of `p` have returned since step `b`. -/
noncomputable def returned (r : MachineRun) (b n p q : Nat) : Nat := between (fun i => r.Notified i p q) b n

/-- How often `q` has been claimed since step `b`. -/
noncomputable def claims (r : MachineRun) (b n q : Nat) : Nat :=
  between (fun i => r.label i = .trap (.external q)) b n

noncomputable def acks (r : MachineRun) (b n p : Nat) : Nat := between (fun i => r.CallAt i sysIrqAckNo p) b n

/-- Process `p` registers interrupt `q` at step `b` and nothing later, lives on, and acknowledges no
more notifications than it has received; the PLIC presents `q` only when it is completed. -/
structure Serves (r : MachineRun) (b p q : Nat) : Prop where
  registers : Registers r b p
  asks : askedIrq (r.state b) = q
  nonzero : q ≠ 0
  last : ∀ n, b < n → ¬ Registers r n p
  alive : ∀ n, b ≤ n → n ≤ r.len → ((r.state n).procs p).state ≠ .free
  answers : ∀ n, b < n → r.CallAt n sysIrqAckNo p → r.acks b n p < r.returned b n p q
  plic : ∀ n, b < n → n < r.len → r.label n = .trap (.external q) → (r.state n).plic.claimed q = false

/-- No notification is lost or made up. -/
def NoticesKept (r : MachineRun) (b p q : Nat) : Prop :=
  ∀ n, b < n → n ≤ r.len →
    r.returned b n p q + once (r.Written n p q) + once (((r.state n).procs p).irqPending = true) = r.claims b n q

/-- At its registration `p` owns no interrupt and none is pending for it, and no SYS_YIELD switches to
`p` while a notification lies in its saved registers. -/
structure Undisturbed (r : MachineRun) (b p q : Nat) : Prop where
  fresh : ∀ i, i ≠ 0 → (r.state b).irqOwner i ≠ p
  clear : ((r.state b).procs p).irqPending = false
  unspoilt : ∀ n o, b < n → r.CallAt n sysYieldNo o → nextReady (r.state n).procs o (maxProcs - 2) = some p →
    ¬ r.Written n p q

/-- The counts after the registration: at most one claim is not acknowledged, and that one is not completed. -/
structure Balanced (r : MachineRun) (b p q n : Nat) : Prop where
  single : (r.state n).irqs.Single p q
  kept : r.returned b n p q + once (r.Written n p q) + once (((r.state n).procs p).irqPending = true) = r.claims b n q
  answered : r.acks b n p ≤ r.returned b n p q
  outstanding : r.claims b n q ≤ r.acks b n p + 1
  claimed : r.acks b n p < r.claims b n q → (r.state n).plic.claimed q = true

variable {b : Nat} (serves : r.Serves b p q)
include serves

theorem Serves.start (undisturbed : r.Undisturbed b p q) : r.Balanced b p q (b + 1) := by
  have call := serves.registers.1
  have accepted : (r.state b).irqs.Accepts (askedIrq (r.state b)) := serves.registers.2
  have irqs := serves.registers.irqs
  rw [serves.asks] at accepted irqs
  have live : ((r.state (b + 1)).irqs.slot p).live = true := irqSlot_live.mpr (serves.alive _ (by omega) call.bound)
  have single : (r.state (b + 1)).irqs.Single p q := by
    refine ⟨live, ?_, ?_, fun i some owned => ?_⟩
    · rw [irqs, IrqTable.register_num accepted, if_pos rfl]
    · rw [irqs, IrqTable.register_owner accepted, if_pos rfl]
    · rw [irqs, IrqTable.register_owner accepted] at owned
      split at owned
      · assumption
      · exact absurd owned (undisturbed.fresh i some)
  have clear : ((r.state (b + 1)).irqs.slot p).pending = false := by
    rw [irqs, IrqTable.apply, if_pos accepted]
    exact (congrArg IrqSlot.pending (Function.update_self ..)).trans undisturbed.clear
  have clear : ((r.state (b + 1)).procs p).irqPending = false := clear
  have runs : ((r.state (b + 1)).procs p).state = .running := by
    rw [call.sysIrqRegister, sysIrqRegister_state]
    exact call.running.1
  have zero : r.claims b (b + 1) q = 0 := between_start
  refine ⟨single, ?_, ?_, ?_, fun more => ?_⟩
  · rw [returned, between_start, zero, once_neg fun written => written.1.parked runs, once_neg (by simp [clear])]
  · rw [acks, between_start]
    exact Nat.zero_le _
  · rw [zero]
    exact Nat.zero_le _
  · rw [zero] at more
    exact absurd more (Nat.not_lt_zero _)

theorem Serves.step (undisturbed : r.Undisturbed b p q) (after : b < n) (bound : n < r.len) 
    (balanced : r.Balanced b p q n) : r.Balanced b p q (n + 1) := by
  obtain ⟨single, kept, answered, outstanding, claimed⟩ := balanced
  have sound := r.irqs_sound (Nat.le_of_lt bound)
  obtain ⟨e, event, possible, same⟩ := r.event bound
  have single' : (r.state (n + 1)).irqs.Single p q := by
    rw [same]
    refine single.apply sound possible serves.nonzero ?_ fun i registered accepted => ?_
    · rw [← same]
      exact irqSlot_live.mpr (serves.alive _ (by omega) bound)
    · obtain ⟨label, number, caller, rfl⟩ := event.register registered
      exact serves.last n after ⟨⟨bound, label, number, caller⟩, accepted⟩
  have returnedSucc : r.returned b (n + 1) p q = r.returned b n p q + once (r.Notified n p q) := between_succ after
  have claimsSucc : r.claims b (n + 1) q = r.claims b n q + once (r.label n = .trap (.external q)) :=
    between_succ after
  have acksSucc : r.acks b (n + 1) p = r.acks b n p + once (r.CallAt n sysIrqAckNo p) := between_succ after
  by_cases label : r.label n = .trap (.external q)
  · -- The PLIC presents `q`: all earlier claims are acknowledged, and nothing is on its way.
    have settled : r.claims b n q ≤ r.acks b n p := by
      by_contra more
      have held := claimed (Nat.lt_of_not_le more)
      rw [serves.plic n after bound label] at held
      cases held
    have unwritten : ¬ r.Written n p q := by
      intro written
      rw [once_pos written] at kept
      omega
    have clear : ((r.state n).procs p).irqPending = false := by
      by_contra pending
      rw [once_pos (Bool.eq_true_of_not_eq_false pending)] at kept
      omega
    have delivered := external_notice bound single serves.nonzero label unwritten clear
    have uncalled : ¬ r.CallAt n sysIrqAckNo p := by
      intro call
      rw [call.label] at label
      cases label
    rw [once_neg unwritten, once_neg (by rw [clear]; nofun)] at kept
    rw [once_pos label] at claimsSucc
    rw [once_neg uncalled] at acksSucc
    refine ⟨single', ?_, ?_, ?_, fun _ => (raised_flag bound single serves.nonzero label).1⟩ <;> omega
  · have moved := other_notice bound single serves.nonzero label (undisturbed.unspoilt n · after)
    rw [once_neg label] at claimsSucc
    by_cases call : r.CallAt n sysIrqAckNo p
    · have owed := serves.answers n after call
      rw [once_pos call] at acksSucc
      refine ⟨single', ?_, ?_, ?_, fun more => ?_⟩ <;> omega
    · rw [once_neg call] at acksSucc
      refine ⟨single', ?_, ?_, ?_, fun more => ?_⟩
      · omega
      · omega
      · omega
      · rw [claimsSucc, acksSucc] at more
        have still := single.claimed sound possible serves.nonzero (claimed more) fun acked => call ?_
        · rw [← same] at still
          exact still
        · obtain ⟨label, number, caller⟩ := event.ack acked
          exact ⟨bound, label, number, caller⟩

/-- A process that serves one interrupt undisturbed is notified of every claim exactly once. -/
theorem noticesKept_of_undisturbed (undisturbed : r.Undisturbed b p q) : r.NoticesKept b p q := by
  have balanced : ∀ d, b + 1 + d ≤ r.len → r.Balanced b p q (b + 1 + d) := by
    intro d
    induction d with
    | zero => exact fun _ => serves.start undisturbed
    | succ d ih => exact fun below => serves.step (n := b + 1 + d) undisturbed (by omega) (by omega) (ih (by omega))
  intro n after bound
  obtain ⟨d, rfl⟩ := Nat.exists_eq_add_of_lt after
  have here := balanced d (by omega)
  rw [Nat.add_right_comm] at here
  exact here.kept

end MachineRun
end Law

section Reference
open Reference
attribute [local instance] Reference.platform

/-- PID 2 waits for its interrupt, which arrives while PID 1 runs; then PID 1 yields to it. -/
noncomputable def spoiltRun : MachineRun :=
  script [.user (calling sysYieldNo 0 0), .ecall, .user (calling sysIrqRegisterNo 5 0), .ecall,
    .user (calling sysReceiveNo 0 0), .ecall, .external 5, .user (calling sysYieldNo 0 0), .ecall]

theorem spoiltRun_serves : spoiltRun.Serves 3 2 5 := by
  have alive : ∀ i < 10, 3 ≤ i → ((spoiltRun.state i).procs 2).state ≠ .free := by decide
  have raised : ∀ i < spoiltRun.len, spoiltRun.label i = .trap (.external 5) → i = 6 := by decide
  refine ⟨⟨⟨by decide, rfl, by decide, rfl⟩, by decide, by decide⟩, by decide, by decide, fun n after again => ?_,
    fun n after bound => alive n (Nat.lt_succ_of_le bound) after, fun n _ call => ?_, fun n _ bound label => ?_⟩
  · obtain rfl := again.1.among (P := (· = 3)) (by decide)
    exact absurd after (Nat.lt_irrefl 3)
  · exact (call.among (P := fun _ => False) (by decide)).elim
  · obtain rfl := raised n bound label
    exact booted_plic starts.booted 5

/-- The yield writes its own answer over the notification. -/
theorem noticesKept_fails : spoiltRun.Serves 3 2 5 ∧ ¬ spoiltRun.NoticesKept 3 2 5 := by
  refine ⟨spoiltRun_serves, fun kept => ?_⟩
  have balance := kept 9 (by decide) (by decide)
  have claimed : spoiltRun.claims 3 9 5 = 1 := by
    have earlier : ∀ i < 6, spoiltRun.label i ≠ .trap (.external 5) := by decide
    have none : between (fun i => spoiltRun.label i = .trap (.external 5)) 3 6 = 0 :=
      between_none fun i _ below => earlier i below
    have raised : spoiltRun.label 6 = .trap (.external 5) := rfl
    have later : spoiltRun.label 7 ≠ .trap (.external 5) ∧ spoiltRun.label 8 ≠ .trap (.external 5) := ⟨nofun, nofun⟩
    rw [MachineRun.claims, between_succ (by decide), between_succ (by decide), between_succ (by decide), none,
      once_pos raised, once_neg later.1, once_neg later.2]
  have returned : spoiltRun.returned 3 9 2 5 = 0 := by
    refine between_none fun i above below notified => ?_
    have runs : ∀ i < 9, 3 < i → ((spoiltRun.state (i + 1)).procs 2).state = .running → i = 4 ∨ i = 8 := by decide
    rcases runs i below above notified.1.1 with rfl | rfl
    · rcases notified.1.2 with call | receives
      · cases call.label
      · exact receives.parked (by decide)
    · exact absurd notified.2.1 (by decide)
  have unwritten : ¬ spoiltRun.Written 9 2 5 := fun written => absurd written.2.1 (by decide)
  rw [claimed, returned, once_neg unwritten, once_neg (by decide)] at balance
  cases balance

/-- PID 1 is interrupted, collects the notification and acknowledges it. -/
noncomputable def servedRun : MachineRun :=
  script [.user (calling sysIrqRegisterNo 5 0), .ecall, .external 5, .user (calling sysReceiveNo 0 0), .ecall,
    .user (calling sysIrqAckNo 0 0), .ecall]

theorem servedRun_serves : servedRun.Serves 1 1 5 := by
  have alive : ∀ i < 8, 1 ≤ i → ((servedRun.state i).procs 1).state ≠ .free := by decide
  have raised : ∀ i < servedRun.len, servedRun.label i = .trap (.external 5) → i = 2 := by decide
  refine ⟨⟨⟨by decide, rfl, by decide, rfl⟩, by decide, by decide⟩, by decide, by decide, fun n after again => ?_,
    fun n after bound => alive n (Nat.lt_succ_of_le bound) after, fun n _ call => ?_, fun n _ bound label => ?_⟩
  · obtain rfl := again.1.among (P := (· = 1)) (by decide)
    exact absurd after (Nat.lt_irrefl 1)
  · obtain rfl := call.among (P := (· = 6)) (by decide)
    have none : servedRun.acks 1 6 1 = 0 := by
      refine between_none fun i _ below earlier => ?_
      obtain rfl := earlier.among (P := (· = 6)) (by decide)
      exact Nat.lt_irrefl 6 below
    have notified : servedRun.Notified 4 1 5 :=
      ⟨⟨by decide, .inl ⟨by decide, rfl, by decide, rfl⟩⟩, by decide, by decide⟩
    rw [none, MachineRun.returned, between_succ (by decide), between_succ (by decide), once_pos notified]
    omega
  · obtain rfl := raised n bound label
    exact booted_plic starts.booted 5

theorem noticesKept_served : servedRun.NoticesKept 1 1 5 := by
  refine MachineRun.noticesKept_of_undisturbed servedRun_serves ⟨fun i _ => ?_, rfl, fun n o after call => ?_⟩
  · show (0 : Nat) ≠ 1
    decide
  · exact (call.among (P := fun _ => False) (by decide)).elim

end Reference

end GooseOs
