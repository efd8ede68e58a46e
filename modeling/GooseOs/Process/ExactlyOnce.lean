import GooseOs.Process.Delivery
import GooseOs.Machine.Reference

/-!
Exactly-once delivery: no message is returned by two SYS_RECEIVEs, and SYS_SEND answers 0 only after one. A caller keeps
matching the scan of SYS_RECEIVE after delivery, and a SYS_YIELD overwrites the value a woken receiver has not fetched
yet; the law holds of a run exactly when nobody receives a caller a second time and no yield comes in between.
-/

namespace GooseOs
open Slot Sched Ipc Trap Security

section Law
variable [Platform]

/-- The law on a run. Deliveries are told apart by the step of the SYS_RECEIVE's return, and the
target stays one process between them. -/
structure ExactlyOnce (r : MachineRun) : Prop where
  once : ∀ m n n' s t, r.Delivered m n s t → r.Delivered m n' s t → n < n' → ¬ r.Alive t n n'
  sent : ∀ m j s t, r.CallAt m sysSendNo s → (r.state m).frame.a0.toNat = t → m < j → j ≤ r.len →
    (r.state j).inUser → (r.state j).currentPid = s →
    (∀ i, m < i → i < j → ¬ ((r.state i).inUser ∧ (r.state i).currentPid = s)) → (r.state j).frame.a0 = 0 →
    ∃ n, (n < j ∧ r.Delivered m n s t) ∧ ∀ n', n' < j → r.Delivered m n' s t → n' = n

namespace MachineRun

section Definitions
variable (r : MachineRun)

/-- The SYS_RECEIVE of step `n` by `t` asks for `s`, or for anyone while no interrupt is pending and nobody before `s` is
blocked on a message to `t`. -/
structure Admits (n t s : Nat) : Prop where
  call : r.CallAt n sysReceiveNo t
  asks : (r.state n).frame.a0.toNat = s ∨
    ((r.state n).frame.a0.toNat = 0 ∧ ((r.state n).procs t).irqPending = false ∧ ∀ q, 1 ≤ q → q < s →
      ¬ ((((r.state n).procs q).state = .blockedSend ∨ ((r.state n).procs q).state = .blockedCall) ∧
        ((r.state n).procs q).ipcTarget = t))

/-- The SYS_YIELD of step `y` switches to `t`, which the SYS_SEND of step `m` has woken with a value other than 0 and
which has not run since. -/
structure Spoils (m y t : Nat) : Prop where
  send : ∃ s, r.CallAt m sysSendNo s ∧ r.Meets m t s
  value : (r.state m).frame.a1 ≠ 0
  later : m < y
  yields : ∃ q, r.CallAt y sysYieldNo q ∧ nextReady (r.state y).procs q (maxProcs - 2) = some t
  away : r.Away m y t

end Definitions

variable {r : MachineRun} {m n j s t : Nat}

theorem CallAt.send_rejected (call : r.CallAt m sysSendNo s)
    (invalid : isValidIpcTarget (r.state m).frame.a0.toNat s = false) :
    (r.state (m + 1)).inUser ∧ (r.state (m + 1)).currentPid = s ∧ (r.state (m + 1)).frame.a0 = usizeMax := by
  have user := call.user
  have caller := call.caller
  subst caller
  have after := Except.ok.inj (call.sysSend.symm.trans (sysSend_rejected invalid))
  rw [after]
  exact ⟨user, rfl, rfl⟩

/-- A SYS_SEND that blocks is released by the one scan that picks it. -/
theorem CallAt.send_released (call : r.CallAt m sysSendNo s) (target : (r.state m).frame.a0.toNat = t)
    (accepted : isValidIpcTarget t s = true) (busy : wantsFrom ((r.state m).procs t) s = false) (later : m < j)
    (bound : j ≤ r.len) (running : ((r.state j).procs s).state = .running) :
    ∃ n, m < n ∧ n < j ∧ r.Picks n t s ∧ (∀ i, m < i → i ≤ n → ((r.state i).procs s).state = .blockedSend) ∧
      ((r.state (n + 1)).procs s).state ≠ .blockedSend ∧ ((r.state (n + 1)).procs s).state ≠ .blockedCall := by
  have sent : r.Sends m s t := ⟨Or.inl call, target, accepted⟩
  have parked : ((r.state (m + 1)).procs s).state = .blockedSend := by
    have caller := call.caller
    subst target caller
    rw [sysSend_parked call.sysSend accepted busy]
  obtain ⟨n, lower, upper, stays, exit⟩ := exists_first_exit
    (P := fun i => ((r.state i).procs s).state = .blockedSend) (m := m + 1) (n := j) parked
    (by rw [running]; nofun) later
  have blocked : ∀ i, m < i → i ≤ n → ((r.state i).procs s).state = .blockedSend := fun i above => stays i above
  have pending : r.Pending m n s := fun i above below => Or.inl (blocked i above below)
  have here := blocked n lower le_rfl
  rcases r.blocked_step (by omega) (Or.inl here) with kept | ⟨trap, f, state, label, cause, awake, after⟩
  · exact absurd (kept.state.trans here) exit
  refine ⟨n, lower, upper, ?_, blocked, exit, ?_⟩
  · -- Nothing but a scan wakes a plain sender, and the scan is its target's.
    have current : ((r.state n).procs s).ipcTarget = t := (sent.slot (by omega) lower pending).1
    cases cause with
    | receive number quiet found sender =>
      have own : (r.state n).currentPid = t := (findSender_some found).2.1.symm.trans current
      rw [own] at quiet found
      exact ⟨⟨by omega, label, number, own⟩, quiet, found⟩
    | send _ _ wanted => exact absurd ((wantsFrom_state wanted).symm.trans here) nofun
    | call _ _ _ wanted => exact absurd ((wantsFrom_state wanted).symm.trans here) nofun
    | reply _ _ caller => exact absurd (caller.symm.trans here) nofun
    | exit _ waiter => exact absurd (waiter.symm.trans here) nofun
    | irq _ receiver => exact absurd (receiver.symm.trans here) nofun
  · rw [after]
    rcases awake with rfl | rfl <;> nofun

/-- SYS_SEND answers 0 after exactly one delivery, if no SYS_YIELD spoils it. -/
theorem sent_once (unspoilt : ∀ m y t, ¬ r.Spoils m y t) (call : r.CallAt m sysSendNo s) (target : (r.state m).frame.a0.toNat = t) (later : m < j)
    (bound : j ≤ r.len) (user : (r.state j).inUser) (back : (r.state j).currentPid = s)
    (away : ∀ i, m < i → i < j → ¬ ((r.state i).inUser ∧ (r.state i).currentPid = s))
    (success : (r.state j).frame.a0 = 0) :
    ∃ n, (n < j ∧ r.Delivered m n s t) ∧ ∀ n', n' < j → r.Delivered m n' s t → n' = n := by
  have accepted : isValidIpcTarget t s = true := by
    by_contra invalid
    obtain ⟨user', back', error⟩ := call.send_rejected (by rw [target]; simpa using invalid)
    obtain rfl : j = m + 1 := by
      by_contra other
      exact away (m + 1) (by omega) (by omega) ⟨user', back'⟩
    rw [success] at error
    exact absurd error (by decide)
  have sent : r.Sends m s t := ⟨Or.inl call, target, accepted⟩
  cases wanted : wantsFrom ((r.state m).procs t) s with
  | true =>
    have meets : r.Meets m t s := ⟨sent, wanted⟩
    have delivered := meets.unspoilt fun value y q after yields chosen away =>
      unspoilt m y t ⟨⟨s, call, meets⟩, value, after, ⟨q, yields, chosen⟩, away⟩
    refine ⟨m, ⟨later, delivered⟩, fun n' _ again => ?_⟩
    rcases again.path with ⟨same, -⟩ | ⟨late, -⟩
    · exact same
    · have running := (meets.send_runs call).2.2
      rcases again.pending (m + 1) (by omega) late with h | h <;> exact absurd (running.symm.trans h) nofun
  | false =>
    have running := ((r.consistent bound).running user).1
    rw [back] at running
    obtain ⟨n, lower, upper, picks, blocked, notSend, notCall⟩ :=
      call.send_released target accepted wanted later bound running
    have pending : r.Pending m n s := fun i above below => Or.inl (blocked i above below)
    have value := (sent.slot (by omega) lower pending).2.1
    refine ⟨n, ⟨upper, sent, Nat.le_of_lt lower, pending, value ▸ picks.returned⟩, fun n' before again => ?_⟩
    rcases again.path with ⟨-, meets⟩ | ⟨late, picks'⟩
    · exact absurd (wanted.symm.trans meets.wanted) nofun
    · rcases Nat.lt_trichotomy n' n with earlier | same | after
      · have ready := picks'.released (blocked n' late (by omega))
        exact absurd (ready.symm.trans (blocked (n' + 1) (by omega) (by omega))) nofun
      · exact same
      · rcases again.pending (n + 1) (by omega) (by omega) with h | h
        · exact absurd h notSend
        · exact absurd h notCall

/-- A caller that has been received is picked by every SYS_RECEIVE that admits it. -/
theorem Received.picked (received : r.Received n t s) (admits : r.Admits n t s) : r.Picks n t s := by
  obtain ⟨call, asks⟩ := admits
  have bound := Nat.le_of_lt call.bound
  obtain ⟨m, i, -, delivered, before, -, blocked⟩ := received.delivered bound
  have sentBefore := Nat.lt_of_le_of_lt delivered.order before
  have caller := blocked n sentBefore le_rfl
  have range := (r.consistent bound).range s (by rw [caller]; nofun)
  have target : ((r.state n).procs s).ipcTarget = t :=
    (delivered.sent.slot bound sentBefore fun j above below => .inr (blocked j above below)).1
  refine ⟨call, ?_, findSender_eq_some.mpr ⟨?_, range, fun q low before => ?_⟩⟩
  · rintro ⟨pending, anyone⟩
    rcases asks with given | ⟨-, quiet, -⟩
    · omega
    · exact absurd (pending.symm.trans quiet) nofun
  · rcases asks with given | ⟨anyone, -, -⟩ <;> simp [isSenderTo, *]
  · rw [isSenderTo, Bool.eq_false_iff]
    intro other
    simp only [Bool.and_eq_true, Bool.or_eq_true, beq_iff_eq] at other
    obtain ⟨sends, given⟩ := other
    rcases asks with given' | ⟨-, -, first⟩
    · omega
    · exact first q low before sends

/-- A SYS_RECEIVE that picks a sender admits it. -/
theorem Picks.admits (picks : r.Picks n t s) : r.Admits n t s := by
  obtain ⟨call, quiet, found⟩ := picks
  refine ⟨call, ?_⟩
  obtain ⟨-, -, given, -⟩ := findSender_some found
  rcases given with anyone | given
  · refine .inr ⟨anyone, by simpa [anyone] using quiet, fun q low before sends => ?_⟩
    have first := (findSender_eq_some.mp found).2.2 q low before
    have matching : isSenderTo ((r.state n).procs q) q t (r.state n).frame.a0.toNat = true := by
      simpa [isSenderTo, anyone, sends.2] using sends.1
    rw [first] at matching
    cases matching
  · exact .inl given

end MachineRun

/-- Delivery is exactly once on a run iff no SYS_RECEIVE admits a caller that its process has already received, and no
SYS_YIELD overwrites the value of a SYS_SEND. -/
theorem exactlyOnce_iff (r : MachineRun) : ExactlyOnce r ↔
    (∀ n s t, r.Admits n t s → ¬ r.Received n t s) ∧ ∀ m y t, ¬ r.Spoils m y t := by
  constructor
  · intro exact
    refine ⟨fun n s t admits received => ?_, fun m y t spoils => ?_⟩
    · have picks := received.picked admits
      obtain ⟨m, i, -, delivered, before, alive, blocked⟩ := received.delivered (Nat.le_of_lt picks.call.bound)
      obtain ⟨m', earlier, again⟩ := picks.delivered
      have pending : r.Pending m n s := fun j above below => Or.inr (blocked j above below)
      obtain rfl := delivered.sent.latest again.sent (Nat.lt_of_le_of_lt delivered.order before) earlier pending
        again.pending
      exact exact.once m i n s t delivered again before alive
    · -- The sender has its 0, but `t` finds 0 in place of the value.
      obtain ⟨⟨s, send, meets⟩, value, later, ⟨q, call, chosen⟩, away⟩ := spoils
      obtain ⟨back, success, running⟩ := meets.send_runs send
      have user := ((r.consistent send.bound).only s running).2
      obtain ⟨n, ⟨before, delivered⟩, -⟩ := exact.sent m (m + 1) s t send meets.sent.target (Nat.lt_succ_self m) send.bound
        user back (fun i above below => by omega) success
      obtain rfl : n = m := by
        have := delivered.order
        omega
      obtain ⟨user', back', zero⟩ := call.yields chosen
      cases delivered.returned with
      | atOnce call' => exact absurd (send.number_eq call').1 (by decide)
      | woken _ waits _ _ _ found =>
        have first : r.Away n (y + 1) t := by
          intro i above below runs
          rcases Nat.lt_or_eq_of_le (Nat.le_of_lt_succ below) with early | rfl
          · exact away i above early runs
          · have ready := (nextReady_some chosen).1
            have running' := ((r.consistent (Nat.le_of_lt call.bound)).running runs.1).1
            rw [runs.2, ready] at running'
            cases running'
        exact value ((found (y + 1) (by omega) call.bound user' back' first).1.symm.trans zero)
  · rintro ⟨fresh, unspoilt⟩
    refine ⟨fun m n n' s t delivered again later alive => ?_, fun m j s t call target later bound user back away success =>
      MachineRun.sent_once unspoilt call target later bound user back away success⟩
    have before := Nat.lt_of_le_of_lt delivered.order later
    rcases again.path with ⟨same, -⟩ | ⟨-, picks⟩
    · omega
    have blocked := delivered.blockedCall later (Nat.le_of_lt picks.call.bound) again.pending
    exact fresh n' s t picks.admits (delivered.received picks.call later blocked alive)

end Law

section Reference
open Reference
attribute [local instance] Reference.platform

/-- PID 1 calls PID 2, which receives twice. -/
noncomputable def receivedTwiceRun : MachineRun :=
  script [.user (calling sysCallNo 2 7), .ecall, .user (calling sysReceiveNo 0 0), .ecall,
    .user (calling sysReceiveNo 0 0), .ecall]

/-- Both SYS_RECEIVEs return the message. -/
theorem exactlyOnce_fails : ¬ ExactlyOnce receivedTwiceRun := by
  intro exact
  have sent : receivedTwiceRun.Sends 1 1 2 :=
    ⟨Or.inr ⟨⟨by decide, rfl, rfl, rfl⟩, fun net => absurd net.1 (by decide)⟩, rfl, by decide⟩
  have calling : ∀ i < 6, 1 < i → ((receivedTwiceRun.state i).procs 1).state = .blockedCall := by decide
  have pending : ∀ n, n ≤ 5 → receivedTwiceRun.Pending 1 n 1 := fun n bound i lower upper =>
    Or.inr (calling i (Nat.lt_succ_of_le (Nat.le_trans upper bound)) lower)
  have first : receivedTwiceRun.Delivered 1 3 1 2 :=
    ⟨sent, by decide, pending 3 (by decide), .atOnce ⟨by decide, rfl, rfl, rfl⟩ rfl rfl rfl⟩
  have second : receivedTwiceRun.Delivered 1 5 1 2 :=
    ⟨sent, by decide, pending 5 (by decide), .atOnce ⟨by decide, rfl, rfl, rfl⟩ rfl rfl rfl⟩
  have alive : ∀ i < 6, 2 < i → ((receivedTwiceRun.state i).procs 2).state ≠ .free := by decide
  exact exact.once 1 3 5 1 2 first second (by decide) fun i lower upper => alive i (by omega) (by omega)

/-- PID 1 sends 5 to PID 2 before it receives and 6 while it waits, then calls it; PID 2 receives all three and replies. -/
noncomputable def deliveredRun : MachineRun :=
  script [.user (calling sysSendNo 2 5), .ecall, .user (calling sysReceiveNo 0 0), .ecall,
    .user (calling sysReceiveNo 0 0), .ecall, .user (calling sysSendNo 2 6), .ecall,
    .user (calling sysCallNo 2 7), .ecall, .user (calling sysReceiveNo 0 0), .ecall,
    .user (calling sysReplyNo 1 9), .ecall]

theorem exactlyOnce_delivered : ExactlyOnce deliveredRun := by
  refine (exactlyOnce_iff deliveredRun).mpr ⟨fun n s t admits received => ?_, fun m y t spoils => ?_⟩
  · have receives := admits.call.among (P := fun n => n = 3 ∨ n = 5 ∨ n = 11) (by decide)
    obtain ⟨b, k, j, finds, before, blocked, -⟩ := received
    have low := finds.order.1
    have high := finds.order.2.1
    have caller := blocked n (by omega) le_rfl
    have small := ((deliveredRun.consistent (Nat.le_of_lt admits.call.bound)).range s (by rw [caller]; nofun)).2
    -- Only PID 1 calls, from step 9 on, and PID 2 has left its second SYS_RECEIVE by then.
    have calls : ∀ i < 12, ∀ q < maxProcs, ((deliveredRun.state i).procs q).state = .blockedCall → q = 1 ∧ 9 < i := by decide
    have left : ((deliveredRun.state 8).procs 2).state ≠ .blockedRecv := by decide
    obtain ⟨-, late⟩ := calls n (by omega) s small caller
    obtain rfl : n = 11 := by omega
    obtain rfl : 2 = t := admits.call.caller
    have since := (calls (k + 1) (by omega) s small (blocked (k + 1) (by omega) (by omega))).2
    have asks := finds.call.among (P := fun b => b = 3 ∨ b = 5 ∨ b = 11) (by decide)
    exact left (finds.waits 8 (by omega) (by omega))
  · obtain ⟨q, call, -⟩ := spoils.yields
    exact call.among (P := fun _ => False) (by decide)

end Reference

end GooseOs
