import GooseOs.Process.Endings
import GooseOs.Machine.Reference

/-!
Waiting on the dead. A process blocked on another one names it by PID. The handlers do not look
whether the target's slot is used, and the cleanup of an ending process wakes only its SYS_WAIT
parent; so a sender, a caller or a receiver can be left waiting on a slot that the next spawn
hands to somebody else.
-/

namespace GooseOs
open Slot Sched Ipc Lifecycle Trap Security

/-- The slot waits on slot `t`: blocked in a send, a call or a wait, or in a receive from `t` only. -/
structure WaitsOn (p : Process) (t : Nat) : Prop where
  target : p.ipcTarget = t
  state : p.state = .blockedSend ∨ p.state = .blockedCall ∨ p.state = .blockedWait ∨ (p.state = .blockedRecv ∧ t ≠ 0)

theorem WaitsOn.blocked {p : Process} {t : Nat} (waits : WaitsOn p t) : Blocked p.state := by
  rcases waits.state with h | h | h | ⟨h, -⟩ <;> simp [Blocked, h]

theorem WaitsOn.kept {p p' : Process} {t : Nat} (waits : WaitsOn p t) (kept : Kept p p') : WaitsOn p' t :=
  ⟨kept.ipcTarget.trans waits.target, by rw [kept.state]; exact waits.state⟩

section Law
variable [Platform]

/-- The law on a run: whoever waits on `t` has waited since a call of its own, and slot `t` has held
one process since that call was made. -/
def NobodyWaitsOnDead (r : MachineRun) : Prop :=
  ∀ n q t, n ≤ r.len → WaitsOn ((r.state n).procs q) t →
    ∃ b number, b < n ∧ r.CallAt b number q ∧ (∀ i, b < i → i ≤ n → WaitsOn ((r.state i).procs q) t) ∧ r.Alive t b n

/-- A trap that leaves nobody waiting on the dead: a call that blocks names a used slot, and a
process ends only when nobody but its SYS_WAIT parent waits on it. -/
structure LeavesNoWaiter (c : Core) (t : Trap) : Prop where
  blocks : t = .ecall → ∀ p target, Parks c p → WaitsOn p target → (c.procs target).state ≠ .free
  ends : ∀ code, c.inUser → Ends c t code → ∀ q, WaitsOn (c.procs q) c.currentPid → (c.procs q).state = .blockedWait

theorem parks_waits {r : MachineRun} {n q t : Nat} {p : Process} (bound : n < r.len) (label : r.label n = .trap .ecall)
    (caller : (r.state n).currentPid = q) (parks : Parks (r.state n).toCore p) (waits : WaitsOn p t) :
    (r.state (n + 1)).procs q = p := by
  subst caller
  cases parks with
  | send number valid busy =>
    have call : r.CallAt n sysSendNo _ := ⟨bound, label, number, rfl⟩
    exact sysSend_parked call.sysSend valid busy
  | call number direct valid =>
    have call : r.CallAt n sysCallNo _ := ⟨bound, label, number, rfl⟩
    exact sysCall_parked (call.sysCall direct) valid
  | receive number none =>
    have call : r.CallAt n sysReceiveNo _ := ⟨bound, label, number, rfl⟩
    have given : (r.state n).frame.a0.toNat = t := waits.target
    rcases waits.state with h | h | h | ⟨-, used⟩
    · cases h
    · cases h
    · cases h
    · exact sysReceive_parked call.sysReceive (given ▸ used) none
  | wait number valid child alive =>
    have call : r.CallAt n sysWaitNo _ := ⟨bound, label, number, rfl⟩
    exact sysWait_parked call.sysWait valid child alive
  | net => rcases waits.state with h | h | h | ⟨h, -⟩ <;> cases h

section Ending
variable {r : MachineRun} {n q t : Nat}

/-- Whoever waits on a process that ends without its parent waiting is left behind. -/
theorem ends_leaves {code : Word} (ended : r.EndsAt n t code) (waits : WaitsOn ((r.state n).procs q) t)
    (other : ((r.state n).procs q).state ≠ .blockedWait) : WaitsOn ((r.state (n + 1)).procs q) t := by
  obtain ⟨cause, label, ends⟩ := ended.ends
  rcases r.blocked_step ended.bound waits.blocked with kept | ⟨trap, f, state, label', wakes, -, -⟩
  · exact waits.kept kept
  · obtain rfl : trap = cause := Label.trap.inj (label'.symm.trans label)
    have number : trap = .ecall → (r.state n).frame.a7.toNat = sysExitNo := by
      rintro rfl
      rcases ends with ⟨-, number, -⟩ | ⟨_, fault, -⟩
      · exact number
      · cases fault
    cases wakes with
    | exit _ waiter => exact absurd waiter other
    | send sent => exact absurd (sent.symm.trans (number rfl)) (by decide)
    | call called => exact absurd (called.symm.trans (number rfl)) (by decide)
    | receive received => exact absurd (received.symm.trans (number rfl)) (by decide)
    | reply replied => exact absurd (replied.symm.trans (number rfl)) (by decide)
    | irq => rcases ends with ⟨h, -⟩ | ⟨_, h, -⟩ <;> cases h

theorem waited_alive (safe : ∀ n cause, n < r.len → r.label n = .trap cause → LeavesNoWaiter (r.state n).toCore cause)
    (bound : n < r.len) (live : ((r.state n).procs t).state ≠ .free)
    (waits : WaitsOn ((r.state n).procs q) t) (still : WaitsOn ((r.state (n + 1)).procs q) t) :
    ((r.state (n + 1)).procs t).state ≠ .free := by
  rcases r.live_step bound live with ⟨alive, -⟩ | ⟨code, ended⟩
  · exact alive
  obtain ⟨cause, label, ends⟩ := ended.ends
  have current := ended.current
  -- Only a SYS_WAIT parent may wait on it now, and the exit wakes that one.
  have waiter : ((r.state n).procs q).state = .blockedWait :=
    (safe n cause bound label).ends code ended.user ends q (current ▸ waits)
  obtain ⟨state, ran, after⟩ := ended.waiter (r.waiters (Nat.le_of_lt bound)) waiter waits.target
  have blocked := still.blocked
  rw [after] at blocked
  rcases ran with rfl | rfl
  · exact absurd rfl blocked.not_running.2.1
  · exact absurd rfl blocked.not_running.1

end Ending

/-- Nobody waits on the dead in a run iff none of its steps leaves such a waiter. -/
theorem nobodyWaitsOnDead_iff (r : MachineRun) :
    NobodyWaitsOnDead r ↔ ∀ n cause, n < r.len → r.label n = .trap cause → LeavesNoWaiter (r.state n).toCore cause := by
  constructor
  · intro law n cause bound label
    refine ⟨fun call p t parks waits => ?_, fun code user ends q waits => ?_⟩
    · subst call
      have parked := parks_waits bound label rfl parks waits
      have user : (r.state n).inUser := by
        have step := r.steps n bound
        rw [label] at step
        exact (step_trap step).2 rfl
      obtain ⟨b, number, before, call, waited, alive⟩ :=
        law (n + 1) (r.state n).currentPid t bound (by rw [parked]; exact waits)
      rcases Nat.lt_or_ge b n with earlier | here
      · have blocked := (waited n earlier (by omega)).blocked
        exact absurd ((r.consistent (Nat.le_of_lt bound)).running user).1 blocked.not_running.1
      · exact alive n (by omega) (by omega)
    · by_contra other
      have ended : r.EndsAt n (r.state n).currentPid code := ⟨bound, user, rfl, cause, label, ends⟩
      obtain ⟨b, number, before, -, -, alive⟩ := law (n + 1) q _ bound (ends_leaves ended waits other)
      have free := alive (n + 1) (by omega) le_rfl
      rw [ended.own] at free
      exact free rfl
  · intro safe n q t bound waits
    obtain ⟨b, p, since⟩ := r.blockedSince bound waits.blocked
    have parked : WaitsOn p t := by
      have now := since.since n since.before le_rfl
      exact ⟨now.ipcTarget.symm.trans waits.target, by rw [← now.state]; exact waits.state⟩
    have waited : ∀ i, b < i → i ≤ n → WaitsOn ((r.state i).procs q) t := fun i above below =>
      parked.kept (since.since i above below)
    refine ⟨b, _, since.before, ⟨since.bound, since.label, rfl, since.caller⟩, waited, fun i above below => ?_⟩
    have first := (safe b .ecall since.bound since.label).blocks rfl p t since.parks parked
    induction i with
    | zero =>
      obtain rfl : b = 0 := by omega
      exact first
    | succ i ih =>
      rcases Nat.lt_or_ge b (i + 1) with later | same
      · have live := ih (by omega) (by omega)
        rcases Nat.lt_or_ge b i with inner | here
        · exact waited_alive safe (by omega) live (waited i inner (by omega)) (waited (i + 1) later below)
        · -- The blocking call itself ends nobody.
          obtain rfl : b = i := by omega
          rcases r.live_step since.bound live with ⟨alive, -⟩ | ⟨code, ended⟩
          · exact alive
          · obtain ⟨cause, label, ends⟩ := ended.ends
            obtain rfl : cause = .ecall := (Label.trap.inj (since.label.symm.trans label)).symm
            rcases ends with ⟨-, number, -⟩ | ⟨_, fault, -⟩
            · cases since.parks with
              | send sent => exact absurd (sent.symm.trans number) (by decide)
              | call called => exact absurd (called.symm.trans number) (by decide)
              | receive received => exact absurd (received.symm.trans number) (by decide)
              | wait asked => exact absurd (asked.symm.trans number) (by decide)
              | net called => exact absurd (called.symm.trans number) (by decide)
            · cases fault
      · obtain rfl : b = i + 1 := by omega
        exact first

end Law

section Reference
open Reference
attribute [local instance] Reference.platform

/-- PID 1 blocks sending to PID 2, which exits. -/
noncomputable def abandonedRun : MachineRun :=
  script [.user (calling sysSendNo 2 7), .ecall, .user (calling sysExitNo 0 0), .ecall]

/-- PID 1 is left waiting on a free slot. -/
theorem nobodyWaitsOnDead_fails : ¬ NobodyWaitsOnDead abandonedRun := by
  intro law
  have waits : WaitsOn ((abandonedRun.state 4).procs 1) 2 := ⟨rfl, Or.inl rfl⟩
  obtain ⟨b, number, before, -, -, alive⟩ := law 4 1 2 (by decide) waits
  exact absurd (rfl : ((abandonedRun.state 4).procs 2).state = .free) (alive 4 (by omega) le_rfl)

end Reference

end GooseOs
