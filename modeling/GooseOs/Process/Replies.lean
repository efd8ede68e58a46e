import GooseOs.Process.Delivery
import GooseOs.Machine.Reference

/-!
Replies. SYS_REPLY tests that its target is blocked in a SYS_CALL on the replier, not that the
call has been received: a reply before the receipt is accepted, and the message is lost.
-/

namespace GooseOs
open Slot Sched Ipc Trap Security

section Law
variable [Platform]

namespace MachineRun

section Definitions
variable (r : MachineRun)

/-- At step `n` a SYS_REPLY of `s` to `t` returns 0. -/
structure Replies (n s t : Nat) : Prop where
  call : r.CallAt n sysReplyNo s
  target : (r.state n).frame.a0.toNat = t
  success : (r.state (n + 1)).frame.a0 = 0

/-- The SYS_REPLY of step `n` passes the handler's test. -/
structure Accepts (n s t : Nat) : Prop where
  call : r.CallAt n sysReplyNo s
  target : (r.state n).frame.a0.toNat = t
  caller : ((r.state n).procs t).state = .blockedCall
  waits : ((r.state n).procs t).ipcTarget = s

end Definitions
end MachineRun

/-- The law on a run: a successful SYS_REPLY answers a call its process has received and not
answered, and no SYS_CALL returns before its message has been received. -/
structure RepliesAfterReceipt (r : MachineRun) : Prop where
  received : ∀ n s t, r.Replies n s t → ∃ m i, r.CallAt m sysCallNo t ∧ m < n ∧
    (∀ j, m < j → j ≤ n → ((r.state j).procs t).state = .blockedCall) ∧
    r.Delivered m i t s ∧ i < n ∧ r.Alive s i n ∧ ∀ j s', m < j → j < n → ¬ r.Replies j s' t
  answered : ∀ m j s t, r.Sends m t s → r.CallAt m sysCallNo t → m < j → j ≤ r.len → (r.state j).inUser →
    (r.state j).currentPid = t → ∃ i, i < j ∧ r.Delivered m i t s

namespace MachineRun
variable {r : MachineRun} {m n j s t : Nat}

theorem Replies.accepts (replies : r.Replies n s t) : r.Accepts n s t := by
  obtain ⟨call, target, success⟩ := replies
  have caller := call.caller
  subst target caller
  obtain ⟨-, blocked, waits⟩ := sysReply_refused call.sysReply (by rw [success]; decide)
  exact ⟨call, rfl, blocked, waits⟩

theorem Accepts.valid (accepts : r.Accepts n s t) : isValidIpcTarget t s = true := by
  have range := (r.consistent (Nat.le_of_lt accepts.call.bound)).range t (by rw [accepts.caller]; nofun)
  refine isValidIpcTarget_iff.mpr ⟨by omega, range.2, ?_⟩
  rintro rfl
  exact absurd (accepts.call.running.1.symm.trans accepts.caller) nofun

theorem Accepts.after (accepts : r.Accepts n s t) :
    (r.state (n + 1)).frame.a0 = 0 ∧ ((r.state (n + 1)).procs t).state = .ready := by
  have valid := accepts.valid
  obtain ⟨call, target, blocked, waits⟩ := accepts
  have caller := call.caller
  subst target caller
  have after := sysReply_accepted call.sysReply valid blocked waits
  refine ⟨(congrArg (fun c => c.frame.a0) after).trans rfl, ?_⟩
  rw [congrArg Core.procs after]
  simp

theorem Accepts.replies (accepts : r.Accepts n s t) : r.Replies n s t :=
  ⟨accepts.call, accepts.target, accepts.after.1⟩

theorem Sends.call_answered (sent : r.Sends m t s) (call : r.CallAt m sysCallNo t) (later : m < j) (bound : j ≤ r.len)
    (running : ((r.state j).procs t).state = .running) :
    ∃ n, m < n ∧ n < j ∧ r.Accepts n s t ∧ r.Pending m n t := by
  have parked : ((r.state (m + 1)).procs t).state = .blockedCall := by
    rcases sent.call with send | ⟨call, direct⟩
    · exact absurd (send.number.symm.trans call.number) (by decide)
    · have caller := call.caller
      subst caller
      have accepted := sent.target ▸ sent.accepted
      rw [sysCall_parked (call.sysCall direct) accepted]
  obtain ⟨n, lower, upper, stays, exit⟩ := exists_first_exit
    (P := fun i => ((r.state i).procs t).state = .blockedCall) (m := m + 1) (n := j) parked
    (by rw [running]; nofun) later
  have pending : r.Pending m n t := fun i above below => Or.inr (stays i above below)
  have here := stays n lower le_rfl
  have target : ((r.state n).procs t).ipcTarget = s := (sent.slot (by omega) lower pending).1
  rcases r.blocked_step (by omega) (Or.inr (Or.inr (Or.inl here))) with kept | ⟨trap, f, state, label, cause, -, -⟩
  · exact absurd (kept.state.trans here) exit
  refine ⟨n, lower, upper, ?_, pending⟩
  cases cause with
  | reply number replied caller waits =>
    exact ⟨⟨by omega, label, number, waits.symm.trans target⟩, replied, caller, target⟩
  | send _ _ wanted => exact absurd ((wantsFrom_state wanted).symm.trans here) nofun
  | call _ _ _ wanted => exact absurd ((wantsFrom_state wanted).symm.trans here) nofun
  | receive _ _ _ sender => exact absurd (sender.symm.trans here) nofun
  | exit _ waiter => exact absurd (waiter.symm.trans here) nofun
  | irq _ receiver => exact absurd (receiver.symm.trans here) nofun

end MachineRun

/-- The law holds of a run iff every SYS_REPLY to a process that is blocked in a SYS_CALL to the replier follows a
SYS_RECEIVE that returned this call. -/
theorem repliesAfterReceipt_iff (r : MachineRun) : RepliesAfterReceipt r ↔
    ∀ n s t, r.CallAt n sysReplyNo s → (r.state n).frame.a0.toNat = t → ((r.state n).procs t).state = .blockedCall →
      ((r.state n).procs t).ipcTarget = s → r.Received n s t := by
  constructor
  · intro law n s t reply target caller waits
    have accepts : r.Accepts n s t := ⟨reply, target, caller, waits⟩
    obtain ⟨m, i, -, -, blocked, delivered, earlier, alive, -⟩ := law.received n s t accepts.replies
    have order := delivered.order
    exact delivered.received reply earlier (fun j above below => blocked j (by omega) below) alive
  · intro received
    refine ⟨fun n s t replies => ?_, fun m j s t sent call later bound user back => ?_⟩
    · have accepts := replies.accepts
      obtain ⟨m, i, call, delivered, before, alive, blocked⟩ :=
        (received n s t accepts.call accepts.target accepts.caller accepts.waits).delivered (Nat.le_of_lt accepts.call.bound)
      refine ⟨m, i, call, Nat.lt_of_le_of_lt delivered.order before, blocked, delivered, before, alive,
        fun j s' above below earlier => ?_⟩
      -- An earlier reply would have made the caller ready.
      have ready := earlier.accepts.after.2
      exact absurd (ready.symm.trans (blocked (j + 1) (by omega) (by omega))) nofun
    · have running := ((r.consistent bound).running user).1
      rw [back] at running
      obtain ⟨n, lower, upper, accepts, pending⟩ := sent.call_answered call later bound running
      obtain ⟨m', i, -, delivered, before, -, blocked⟩ :=
        (received n s t accepts.call accepts.target accepts.caller accepts.waits).delivered (Nat.le_of_lt accepts.call.bound)
      have pending' : r.Pending m' n t := fun k above below => Or.inr (blocked k above below)
      obtain rfl := sent.latest delivered.sent lower (Nat.lt_of_le_of_lt delivered.order before) pending pending'
      exact ⟨i, by omega, delivered⟩

end Law

section Reference
open Reference
attribute [local instance] Reference.platform

/-- PID 1 calls PID 2, which replies without receiving. -/
noncomputable def repliedFirstRun : MachineRun :=
  script [.user (calling sysCallNo 2 7), .ecall, .user (calling sysReplyNo 1 9), .ecall]

/-- The reply is accepted, though nothing was received. -/
theorem repliesAfterReceipt_fails : ¬ RepliesAfterReceipt repliedFirstRun := by
  intro law
  have replies : repliedFirstRun.Replies 3 2 1 := ⟨⟨by decide, rfl, rfl, rfl⟩, rfl, rfl⟩
  obtain ⟨m, i, -, before, -, delivered, earlier, -, -⟩ := law.received 3 2 1 replies
  have unblocked : ∀ i < 3, ((repliedFirstRun.state i).procs 2).state ≠ .blockedRecv := by decide
  cases delivered.returned with
  | atOnce call => exact (call.among (P := fun _ => False) (by decide)).elim
  | woken _ waits => exact unblocked i earlier waits

theorem repliesAfterReceipt_answered : RepliesAfterReceipt answeredRun := by
  refine (repliesAfterReceipt_iff answeredRun).mpr fun n s t reply target _ _ => ?_
  obtain rfl := reply.among (P := (· = 5)) (by decide)
  obtain rfl : 2 = s := reply.caller
  obtain rfl : 1 = t := target
  have blocked : ∀ i < 6, 3 < i → ((answeredRun.state i).procs 1).state = .blockedCall := by decide
  have alive : ∀ i < 6, 4 ≤ i → ((answeredRun.state i).procs 2).state ≠ .free := by decide
  -- The SYS_RECEIVE of step 3 returns the call at once.
  refine ⟨3, 3, 4, ⟨⟨by decide, rfl, rfl, rfl⟩, by decide, fun i above below => by omega, by decide, ⟨rfl, rfl⟩,
    fun i above below => by omega, rfl, rfl⟩, by decide, fun i above below => blocked i (by omega) above,
    fun i lower upper => alive i (by omega) lower⟩

end Reference

end GooseOs
