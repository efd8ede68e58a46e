import GooseOs.Process.Returns

/-!
Message delivery. A message reaches its target on one of two paths: the target is already blocked
in SYS_RECEIVE, or a later SYS_RECEIVE of the target picks the blocked sender. A sender is released
by the delivery; a caller stays blocked for its reply, and nothing in its slot tells a call that
has been delivered from one that has not.
-/

namespace GooseOs
open Slot Sched Ipc Trap Security
variable [Platform]

namespace MachineRun

section Definitions
variable (r : MachineRun)

/-- Step `m` is a message from `s` to `t`: an accepted SYS_SEND, or an accepted SYS_CALL that the
network server does not intercept. -/
structure Sends (m s t : Nat) : Prop where
  call : r.CallAt m sysSendNo s ∨ (r.CallAt m sysCallNo s ∧
    ¬ (Platform.net = true ∧ (r.state m).frame.a0.toNat = NetServer.netServerPid))
  target : (r.state m).frame.a0.toNat = t
  accepted : isValidIpcTarget t s = true

/-- `s` has been blocked on the message of step `m` up to state `n`. -/
def Pending (m n s : Nat) : Prop :=
  ∀ i, m < i → i ≤ n → ((r.state i).procs s).state = .blockedSend ∨ ((r.state i).procs s).state = .blockedCall

/-- At step `n` a SYS_RECEIVE of `t` is answered with `value` and `sender`: at once, or after blocking; `t` finds them
in its registers when it runs again. -/
inductive Returned (n t : Nat) (value sender : Word) : Prop where
  | atOnce (call : r.CallAt n sysReceiveNo t) (runs : (r.state (n + 1)).currentPid = t)
      (a0 : (r.state (n + 1)).frame.a0 = value) (a1 : (r.state (n + 1)).frame.a1 = sender)
  | woken (bound : n < r.len) (waits : ((r.state n).procs t).state = .blockedRecv)
      (left : ((r.state (n + 1)).procs t).state ≠ .blockedRecv)
      (a0 : ((r.state (n + 1)).procs t).context.a0 = value) (a1 : ((r.state (n + 1)).procs t).context.a1 = sender)
      (found : ∀ j, n < j → j ≤ r.len → (r.state j).inUser → (r.state j).currentPid = t → r.Away n j t →
        (r.state j).frame.a0 = value ∧ (r.state j).frame.a1 = sender)

/-- The message `s` sent to `t` at step `m` is returned by a SYS_RECEIVE of `t` at step `n`. -/
structure Delivered (m n s t : Nat) : Prop where
  sent : r.Sends m s t
  order : m ≤ n
  pending : r.Pending m n s
  returned : r.Returned n t (r.state m).frame.a1 (BitVec.ofNat 64 s)

/-- The message of step `n` finds its receiver blocked. -/
structure Meets (n t s : Nat) : Prop where
  sent : r.Sends n s t
  wanted : wantsFrom ((r.state n).procs t) s = true

/-- The SYS_RECEIVE of step `n` picks the blocked sender `s`. -/
structure Picks (n t s : Nat) : Prop where
  call : r.CallAt n sysReceiveNo t
  quiet : ¬ (((r.state n).procs t).irqPending = true ∧ (r.state n).frame.a0.toNat = 0)
  found : findSender (r.state n).procs t (r.state n).frame.a0.toNat = some s

/-- The SYS_RECEIVE of step `b` by `t` is answered in step `k`, and `t` finds `value` and `sender` when it runs again,
in state `j`. -/
structure Finds (b k j t : Nat) (value sender : Word) : Prop where
  call : r.CallAt b sysReceiveNo t
  order : b ≤ k ∧ k < j ∧ j ≤ r.len
  waits : ∀ i, b < i → i ≤ k → ((r.state i).procs t).state = .blockedRecv
  answered : ((r.state (k + 1)).procs t).state ≠ .blockedRecv
  runs : (r.state j).inUser ∧ (r.state j).currentPid = t
  away : r.Away b j t
  a0 : (r.state j).frame.a0 = value
  a1 : (r.state j).frame.a1 = sender

/-- A SYS_RECEIVE of `t` that was answered since `s` is blocked in its SYS_CALL has returned the value of that call and
the PID of `s`. -/
def Received (n t s : Nat) : Prop :=
  ∃ b k j, r.Finds b k j t ((r.state n).procs s).ipcValue (BitVec.ofNat 64 s) ∧ j ≤ n ∧
    (∀ i, k < i → i ≤ n → ((r.state i).procs s).state = .blockedCall) ∧ r.Alive t j n

end Definitions

variable {r : MachineRun} {m n s t : Nat}

omit [Platform] in
theorem ofNat_pid_inj {i j : Nat} (small : i < maxProcs) (small' : j < maxProcs)
    (same : BitVec.ofNat 64 i = BitVec.ofNat 64 j) : i = j := by
  have equal := congrArg BitVec.toNat same
  simp only [BitVec.toNat_ofNat, maxProcs] at *
  omega

omit [Platform] in
theorem findSender_some {procs : Nat → Process} {current fromPid i : Nat}
    (found : findSender procs current fromPid = some i) :
    ((procs i).state = .blockedSend ∨ (procs i).state = .blockedCall) ∧ (procs i).ipcTarget = current ∧
      (fromPid = 0 ∨ fromPid = i) ∧ 1 ≤ i ∧ i < maxProcs := by
  have matching := List.find?_some found
  simp only [isSenderTo, Bool.and_eq_true, Bool.or_eq_true, beq_iff_eq] at matching
  exact ⟨matching.1.1, matching.1.2, matching.2, mem_pids.mp (List.mem_of_find?_eq_some found)⟩

omit [Platform] in
theorem findSender_eq_some {procs : Nat → Process} {current fromPid i : Nat} :
    findSender procs current fromPid = some i ↔ isSenderTo (procs i) i current fromPid = true ∧
      (1 ≤ i ∧ i < maxProcs) ∧ ∀ q, 1 ≤ q → q < i → isSenderTo (procs q) q current fromPid = false := by
  unfold findSender pids
  rw [List.find?_range'_eq_some, List.mem_range'_1]
  simp only [Bool.not_eq_true', maxProcs]

theorem Sends.running (sent : r.Sends m s t) : ((r.state m).procs s).state = .running :=
  sent.call.elim (fun call => call.running.1) fun call => call.1.running.1

theorem Sends.bound (sent : r.Sends m s t) : m < r.len :=
  sent.call.elim (fun call => call.bound) fun call => call.1.bound

theorem Sends.label (sent : r.Sends m s t) : r.label m = .trap .ecall :=
  sent.call.elim (fun call => call.label) fun call => call.1.label

theorem Sends.caller (sent : r.Sends m s t) : (r.state m).currentPid = s :=
  sent.call.elim (fun call => call.caller) fun call => call.1.caller

theorem Sends.range (sent : r.Sends m s t) : 1 ≤ s ∧ s < maxProcs :=
  sent.call.elim (fun call => call.range) fun call => call.1.range

theorem Sends.number (sent : r.Sends m s t) :
    (r.state m).frame.a7.toNat = sysSendNo ∨ (r.state m).frame.a7.toNat = sysCallNo :=
  sent.call.imp (fun call => call.number) fun call => call.1.number

/-! ### The two delivery paths -/

/-- A receiver that is met wakes with the message. -/
theorem Meets.wakes (meets : r.Meets m t s) :
    (((r.state (m + 1)).procs t).state = .ready ∨ ((r.state (m + 1)).procs t).state = .running) ∧
      ((r.state (m + 1)).procs t).context.a0 = (r.state m).frame.a1 ∧
      ((r.state (m + 1)).procs t).context.a1 = BitVec.ofNat 64 s := by
  obtain ⟨⟨call, target, accepted⟩, wanted⟩ := meets
  rcases call with call | ⟨call, direct⟩
  · have caller := call.caller
    subst target caller
    have after := congrArg Core.procs (sysSend_met call.sysSend accepted wanted)
    rw [after]
    simp
  · have caller := call.caller
    subst target caller
    obtain ⟨state, ran, after⟩ := sysCall_met (call.sysCall direct) accepted wanted
    rw [after]
    exact ⟨ran, rfl, rfl⟩

/-- The message is returned if the receiver finds it in its registers. -/
theorem Meets.delivered (meets : r.Meets m t s) (found : ∀ j, m < j → j ≤ r.len → (r.state j).inUser →
      (r.state j).currentPid = t → r.Away m j t →
      (r.state j).frame.a0 = (r.state m).frame.a1 ∧ (r.state j).frame.a1 = BitVec.ofNat 64 s) :
    r.Delivered m m s t := by
  obtain ⟨runs, a0, a1⟩ := meets.wakes
  have left : ((r.state (m + 1)).procs t).state ≠ .blockedRecv := by
    rcases runs with state | state <;> rw [state] <;> nofun
  exact ⟨meets.sent, le_rfl, fun i above below => by omega,
    .woken meets.sent.bound (wantsFrom_state meets.wanted) left a0 a1 found⟩

/-- Only a SYS_YIELD keeps the receiver from finding it. -/
theorem Meets.unspoilt (meets : r.Meets m t s) (clear : (r.state m).frame.a1 ≠ 0 → ∀ y q, m < y →
      r.CallAt y sysYieldNo q → nextReady (r.state y).procs q (maxProcs - 2) = some t → ¬ r.Away m y t) :
    r.Delivered m m s t := by
  refine meets.delivered fun j later bound user back away => ?_
  obtain ⟨woken, a0, a1⟩ := meets.wakes
  have parked : ((r.state m).procs t).state ≠ .running := by rw [wantsFrom_state meets.wanted]; nofun
  rcases returned_frame later bound parked woken user back away with same | ⟨zero, y, q, above, below, call, chosen, -⟩
  · rw [same]
    exact ⟨a0, a1⟩
  · have inner : m < y := by
      rcases Nat.lt_or_eq_of_le above with inner | rfl
      · exact inner
      · rcases meets.sent.number with number | number <;> exact absurd (number.symm.trans call.number) (by decide)
    have none : (r.state m).frame.a1 = 0 := by
      by_contra value
      exact clear value y q inner call chosen fun i above' below' => away i above' (by omega)
    rw [zero]
    exact ⟨none.symm, a1⟩

/-- A receiver that is no longer blocked is ready or runs. -/
theorem woken_of_left (bound : n < r.len) (waits : ((r.state n).procs t).state = .blockedRecv)
    (left : ((r.state (n + 1)).procs t).state ≠ .blockedRecv) :
    ((r.state (n + 1)).procs t).state = .ready ∨ ((r.state (n + 1)).procs t).state = .running := by
  rcases r.blocked_step bound (.inr (.inl waits)) with kept | ⟨_, _, state, _, _, runs, after⟩
  · exact absurd (kept.state.trans waits) left
  · rw [after]
    exact runs

/-- Only a message wakes a receiver with a sender, and the sender makes its call then. -/
theorem meets_of_woken (bound : n < r.len) (waits : ((r.state n).procs t).state = .blockedRecv)
    (left : ((r.state (n + 1)).procs t).state ≠ .blockedRecv) (small : 1 ≤ s ∧ s < maxProcs)
    (a1 : ((r.state (n + 1)).procs t).context.a1 = BitVec.ofNat 64 s) : r.Meets n t s := by
  have notIrq : BitVec.ofNat 64 s ≠ 0 := fun zero => by
    have := ofNat_pid_inj small.2 (by decide : 0 < maxProcs) zero
    omega
  rcases r.blocked_step bound (Or.inr (Or.inl waits)) with kept | ⟨trap, f, state, label, cause, -, after⟩
  · exact absurd (kept.state.trans waits) left
  rw [after] at a1
  have mode : trap = .ecall → (r.state n).inUser := by
    have step := r.steps n bound
    rw [label] at step
    exact (step_trap step).2
  have target : trap = .ecall → isValidIpcTarget t (r.state n).currentPid = true := by
    intro call
    have range := (r.consistent (Nat.le_of_lt bound)).range t (by rw [waits]; nofun)
    refine isValidIpcTarget_iff.mpr ⟨range.1, range.2, ?_⟩
    rintro rfl
    have running := ((r.consistent (Nat.le_of_lt bound)).running (mode call)).1
    exact absurd (running.symm.trans waits) nofun
  have sender : trap = .ecall → BitVec.ofNat 64 (r.state n).currentPid = BitVec.ofNat 64 s → (r.state n).currentPid = s :=
    fun call same => ofNat_pid_inj ((r.consistent (Nat.le_of_lt bound)).current_range (mode call)).2 small.2 same
  cases cause with
  | send number aim wanted =>
    have same := sender rfl a1
    have valid := target rfl
    rw [same] at wanted valid
    exact ⟨⟨.inl ⟨bound, label, number, same⟩, aim, valid⟩, wanted⟩
  | call number aim direct wanted =>
    have same := sender rfl a1
    have valid := target rfl
    rw [same] at wanted valid
    exact ⟨⟨.inr ⟨⟨bound, label, number, same⟩, direct⟩, aim, valid⟩, wanted⟩
  | receive _ _ _ sender => rw [sender] at waits; cases waits
  | reply _ _ caller => rw [caller] at waits; cases waits
  | exit _ waiter => rw [waiter] at waits; cases waits
  | irq => exact absurd a1.symm notIrq

/-- A process blocked on a message was parked by sending it. -/
theorem sends_of_blocked (r : MachineRun) (bound : n ≤ r.len)
    (blocked : ((r.state n).procs s).state = .blockedSend ∨ ((r.state n).procs s).state = .blockedCall) :
    ∃ m, m < n ∧ r.Sends m s ((r.state n).procs s).ipcTarget ∧ (r.state m).frame.a1 = ((r.state n).procs s).ipcValue ∧
      (((r.state n).procs s).state = .blockedCall → r.CallAt m sysCallNo s) ∧
      ∀ i, m < i → i ≤ n → ((r.state i).procs s).state = ((r.state n).procs s).state := by
  obtain ⟨m, p, since⟩ := r.blockedSince bound (q := s) (by rcases blocked with h | h <;> simp [Blocked, h])
  have now := since.since n since.before le_rfl
  have steady : ∀ i, m < i → i ≤ n → ((r.state i).procs s).state = ((r.state n).procs s).state :=
    fun i above below => (since.since i above below).state.trans now.state.symm
  have caller := since.caller
  refine ⟨m, since.before, ?_, ?_, fun call => ?_, steady⟩
  · rw [now.ipcTarget]
    have state := now.state
    cases since.parks with
    | send number valid => exact ⟨Or.inl ⟨since.bound, since.label, number, caller⟩, rfl, caller ▸ valid⟩
    | call number direct valid =>
      exact ⟨Or.inr ⟨⟨since.bound, since.label, number, caller⟩, direct⟩, rfl, caller ▸ valid⟩
    | _ => rw [state] at blocked; rcases blocked with h | h <;> cases h
  · rw [now.ipcValue]
    have state := now.state
    cases since.parks with
    | send => rfl
    | call => rfl
    | _ => rw [state] at blocked; rcases blocked with h | h <;> cases h
  · have state := now.state.symm.trans call
    cases since.parks with
    | call number => exact ⟨since.bound, since.label, number, caller⟩
    | _ => cases state

theorem Picks.returned (picks : r.Picks n t s) :
    r.Returned n t ((r.state n).procs s).ipcValue (BitVec.ofNat 64 s) := by
  obtain ⟨call, quiet, found⟩ := picks
  have caller := call.caller
  subst caller
  obtain ⟨runs, frame, -⟩ := sysReceive_found call.sysReceive quiet found
  exact .atOnce call runs (by rw [frame]) (by rw [frame])

theorem Picks.released (picks : r.Picks n t s) (sender : ((r.state n).procs s).state = .blockedSend) :
    ((r.state (n + 1)).procs s).state = .ready := by
  obtain ⟨call, quiet, found⟩ := picks
  have caller := call.caller
  subst caller
  rw [(sysReceive_found call.sysReceive quiet found).2.2, if_pos sender, Function.update_self]

theorem Picks.delivered (picks : r.Picks n t s) : ∃ m, m < n ∧ r.Delivered m n s t := by
  obtain ⟨blocked, target, -, -⟩ := findSender_some picks.found
  obtain ⟨m, before, sent, value, -, steady⟩ := r.sends_of_blocked (Nat.le_of_lt picks.call.bound) blocked
  rw [target] at sent
  refine ⟨m, before, sent, Nat.le_of_lt before, fun i above below => ?_, value ▸ picks.returned⟩
  rw [steady i above below]
  exact blocked

/-- A SYS_RECEIVE that answers at once with a sender has picked it. -/
theorem picks_of_returned (call : r.CallAt n sysReceiveNo t) (runs : (r.state (n + 1)).currentPid = t)
    (small : 1 ≤ s ∧ s < maxProcs) (a1 : (r.state (n + 1)).frame.a1 = BitVec.ofNat 64 s) : r.Picks n t s := by
  have notIrq : BitVec.ofNat 64 s ≠ 0 := fun zero => by
    have := ofNat_pid_inj small.2 (by decide : 0 < maxProcs) zero
    omega
  have caller := call.caller
  subst caller
  rcases sysReceive_answer call.sysReceive call.running.2 runs with irq | ⟨quiet, i, found⟩
  · exact absurd (a1.symm.trans irq) notIrq
  · have frame := (sysReceive_found call.sysReceive quiet found).2.1
    rw [frame] at a1
    obtain rfl := ofNat_pid_inj (findSender_some found).2.2.2.2 small.2 a1
    exact ⟨call, quiet, found⟩

theorem Delivered.path (delivered : r.Delivered m n s t) : (n = m ∧ r.Meets m t s) ∨ (m < n ∧ r.Picks n t s) := by
  obtain ⟨sent, order, pending, returned⟩ := delivered
  cases returned with
  | atOnce call runs _ a1 =>
    rcases Nat.lt_or_eq_of_le order with later | rfl
    · exact Or.inr ⟨later, picks_of_returned call runs sent.range a1⟩
    · rcases sent.number with number | number <;> exact absurd (number.symm.trans call.number) (by decide)
  | woken bound waits left _ a1 _ =>
    have meets := meets_of_woken bound waits left sent.range a1
    rcases Nat.lt_or_eq_of_le order with later | rfl
    · rcases pending n later le_rfl with h | h <;> exact absurd (meets.sent.running.symm.trans h) nofun
    · exact Or.inl ⟨rfl, sent, meets.wanted⟩

/-! ### Pending messages -/

theorem Sends.latest {m' t' : Nat} (sent : r.Sends m s t) (sent' : r.Sends m' s t') (before : m < n) (before' : m' < n)
    (pending : r.Pending m n s) (pending' : r.Pending m' n s) : m = m' := by
  rcases Nat.lt_trichotomy m m' with earlier | same | later
  · rcases pending m' earlier (Nat.le_of_lt before') with h | h <;> exact absurd (sent'.running.symm.trans h) nofun
  · exact same
  · rcases pending' m later (Nat.le_of_lt before) with h | h <;> exact absurd (sent.running.symm.trans h) nofun

/-- What the slot of a sender says while its message is pending. -/
theorem Sends.slot (sent : r.Sends m s t) (bound : n ≤ r.len) (before : m < n) (pending : r.Pending m n s) :
    ((r.state n).procs s).ipcTarget = t ∧ (r.state m).frame.a1 = ((r.state n).procs s).ipcValue ∧
      (((r.state n).procs s).state = .blockedCall → r.CallAt m sysCallNo s) ∧
      ∀ i, m < i → i ≤ n → ((r.state i).procs s).state = ((r.state n).procs s).state := by
  obtain ⟨m', before', sent', value, call, steady⟩ := r.sends_of_blocked bound (pending n before le_rfl)
  have pending' : r.Pending m' n s := fun i above below => by
    rw [steady i above below]
    exact pending n before le_rfl
  obtain rfl := sent.latest sent' before before' pending pending'
  exact ⟨sent'.target.symm.trans sent.target, value, call, steady⟩

/-- A plain sender that meets its receiver does not block. -/
theorem Meets.send_runs (meets : r.Meets m t s) (call : r.CallAt m sysSendNo s) :
    (r.state (m + 1)).currentPid = s ∧ (r.state (m + 1)).frame.a0 = 0 ∧
      ((r.state (m + 1)).procs s).state = .running := by
  obtain ⟨⟨-, target, accepted⟩, wanted⟩ := meets
  have caller := call.caller
  subst target caller
  have other := (isValidIpcTarget_iff.mp accepted).2.2
  have after := sysSend_met call.sysSend accepted wanted
  refine ⟨(congrArg Core.currentPid after).trans rfl, (congrArg (fun c => c.frame.a0) after).trans rfl, ?_⟩
  rw [congrArg Core.procs after]
  simpa [Function.update_of_ne other.symm] using call.running.1

/-- Only a caller can still be blocked on a message that has been delivered. -/
theorem Delivered.blockedCall {n' : Nat} (delivered : r.Delivered m n s t) (later : n < n') (bound : n' ≤ r.len)
    (pending : r.Pending m n' s) : ∀ j, n < j → j ≤ n' → ((r.state j).procs s).state = .blockedCall := by
  have before : m < n' := Nat.lt_of_le_of_lt delivered.order later
  obtain ⟨-, -, -, steady⟩ := delivered.sent.slot bound before pending
  have call : ((r.state n').procs s).state = .blockedCall := by
    rcases delivered.path with ⟨rfl, meets⟩ | ⟨sentBefore, picks⟩
    · rcases delivered.sent.call with send | ⟨call, direct⟩
      · have running := (meets.send_runs send).2.2
        rcases pending (n + 1) (by omega) (by omega) with h | h <;> exact absurd (running.symm.trans h) nofun
      · have caller := call.caller
        subst caller
        have accepted := delivered.sent.target ▸ delivered.sent.accepted
        rw [← steady (n + 1) (by omega) (by omega), sysCall_parked (call.sysCall direct) accepted]
    · rcases delivered.pending n sentBefore le_rfl with sender | caller
      · have ready := picks.released sender
        rcases pending (n + 1) (by omega) (by omega) with h | h <;> exact absurd (ready.symm.trans h) nofun
      · rw [← steady n sentBefore (by omega), caller]
  intro j above below
  rw [steady j (by have := delivered.order; omega) below, call]

/-! ### What a process has received -/

/-- A SYS_RECEIVE that is answered in its own step has returned to its caller behind it. -/
theorem CallAt.receive_returns (call : r.CallAt n sysReceiveNo t)
    (answered : ((r.state (n + 1)).procs t).state ≠ .blockedRecv) :
    (r.state (n + 1)).inUser ∧ (r.state (n + 1)).currentPid = t := by
  have mode := call.user
  have caller := call.caller
  subst caller
  obtain ⟨same, spp⟩ := sysReceive_unblocked call.sysReceive answered
  exact ⟨spp.trans mode, same⟩

/-- A process that has received a call has been delivered the message of that call. -/
theorem Received.delivered (received : r.Received n t s) (bound : n ≤ r.len) :
    ∃ m i, r.CallAt m sysCallNo s ∧ r.Delivered m i s t ∧ i < n ∧ r.Alive t i n ∧
      ∀ j, m < j → j ≤ n → ((r.state j).procs s).state = .blockedCall := by
  obtain ⟨b, k, j, finds, before, blocked, alive⟩ := received
  obtain ⟨call, ⟨from_, later, last⟩, waits, answered, ⟨user, back⟩, away, a0, a1⟩ := finds
  have caller := blocked n (by omega) le_rfl
  have small := (r.consistent bound).range s (by rw [caller]; nofun)
  -- The message is that of the call `s` is blocked in.
  obtain ⟨m, sentBefore, sent, value, isCall, steady⟩ := r.sends_of_blocked bound (.inr caller)
  have waiting : ∀ i, m < i → i ≤ n → ((r.state i).procs s).state = .blockedCall := fun i above below =>
    (steady i above below).trans caller
  have notLater : m ≤ k := by
    by_contra late
    exact absurd (sent.running.symm.trans (blocked m (by omega) (by omega))) nofun
  suffices delivered : r.Delivered m k s t ∧ r.Alive t k j from
    ⟨m, k, isCall caller, delivered.1, by omega, delivered.2.trans alive, waiting⟩
  rcases Nat.lt_or_eq_of_le from_ with inner | rfl
  · have here := waits k inner le_rfl
    have away' : r.Away k j t := fun i above below => away i (by omega) below
    have woken := woken_of_left (by omega) here answered
    have a1' : ((r.state (k + 1)).procs t).context.a1 = BitVec.ofNat 64 s := by
      rcases returned_frame later last (by rw [here]; nofun) woken user back away' with same | ⟨same, -⟩ <;>
        (rw [same] at a1; exact a1)
    have meets := meets_of_woken (by omega) here answered small a1'
    obtain rfl : m = k := by
      by_contra other
      exact absurd (meets.sent.running.symm.trans (waiting k (by omega) (by omega))) nofun
    refine ⟨meets.delivered fun i above below user' back' first => ?_, fun i lower upper => ?_⟩
    · -- `j` is the first state in which `t` runs again.
      obtain rfl : i = j := by
        rcases Nat.lt_trichotomy i j with early | same | late
        · exact absurd ⟨user', back'⟩ (away' i above early)
        · exact same
        · exact absurd ⟨user, back⟩ (first j later late)
      exact ⟨a0.trans value.symm, a1⟩
    · rcases Nat.lt_or_ge m i with inside | start
      · rcases Nat.lt_or_eq_of_le upper with early | rfl
        · rw [(ready_until last woken away' i inside early).1]
          nofun
        · exact alive i le_rfl (by omega)
      · obtain rfl : i = m := by omega
        rw [here]
        nofun
  · obtain ⟨user', back'⟩ := call.receive_returns answered
    obtain rfl : j = b + 1 := by
      by_contra other
      exact away (b + 1) (by omega) (by omega) ⟨user', back'⟩
    have picks := picks_of_returned call back' small a1
    obtain ⟨m', earlier, delivered⟩ := picks.delivered
    have pending : r.Pending m (b + 1) s := fun i above below => .inr (waiting i above (by omega))
    have pending' : r.Pending m' (b + 1) s := by
      intro i above below
      rcases Nat.lt_or_eq_of_le below with old | rfl
      · exact delivered.pending i above (by omega)
      · exact .inr (blocked (b + 1) (by omega) (by omega))
    obtain rfl := sent.latest delivered.sent (by omega) (by omega) pending pending'
    refine ⟨delivered, fun i lower upper => ?_⟩
    rcases Nat.lt_or_eq_of_le upper with early | rfl
    · obtain rfl : i = b := by omega
      rw [call.running.1]
      nofun
    · exact alive (b + 1) le_rfl (by omega)

/-- A process that makes a call after it was delivered the message of a caller, and still lives, has received it. -/
theorem Delivered.received {number i : Nat} (delivered : r.Delivered m i s t) (call : r.CallAt n number t) (later : i < n)
    (blocked : ∀ j, i < j → j ≤ n → ((r.state j).procs s).state = .blockedCall) (alive : r.Alive t i n) :
    r.Received n t s := by
  have bound := Nat.le_of_lt call.bound
  have caller := blocked n later le_rfl
  have path := delivered.path
  obtain ⟨sent, order, pending, returned⟩ := delivered
  have pending' : r.Pending m n s := by
    intro j above below
    rcases Nat.lt_or_ge i j with late | early
    · exact .inr (blocked j late below)
    · exact pending j above early
  have value : (r.state m).frame.a1 = ((r.state n).procs s).ipcValue := (sent.slot bound (by omega) pending').2.1
  rw [value] at returned
  cases returned with
  | atOnce call' runs a0 a1 =>
    have open_ : ((r.state (i + 1)).procs t).state ≠ .blockedRecv := by
      rw [← runs]
      rcases (r.consistent (by omega : i + 1 ≤ r.len)).toSettled.cases with state | state <;> rw [state] <;> nofun
    obtain ⟨user, back⟩ := call'.receive_returns open_
    refine ⟨i, i, i + 1, ⟨call', ⟨le_rfl, Nat.lt_succ_self i, by omega⟩, fun j above below => by omega, open_, ⟨user, back⟩,
      fun j above below => by omega, a0, a1⟩, later, blocked, fun j lower upper => alive j (by omega) upper⟩
  | woken _ waits left a0 a1 found =>
    obtain ⟨b, p, since⟩ := r.blockedSince (q := t) (by omega) (.inr (.inl waits))
    have parked : p.state = .blockedRecv := (since.since i since.before le_rfl).state.symm.trans waits
    have call' : r.CallAt b sysReceiveNo t := by
      cases since.parks with
      | receive number => exact ⟨since.bound, since.label, number, since.caller⟩
      | _ => cases parked
    have waiting : ∀ l, b < l → l ≤ i → ((r.state l).procs t).state = .blockedRecv := fun l above below =>
      (since.since l above below).state.trans parked
    -- `t` runs again at the first state from here to its call.
    have again : ∃ j, i < j ∧ (r.state j).inUser ∧ (r.state j).currentPid = t := ⟨n, later, call.user, call.caller⟩
    classical
    obtain ⟨after, user, back⟩ := Nat.find_spec again
    have early : Nat.find again ≤ n := Nat.find_min' again ⟨later, call.user, call.caller⟩
    have away : r.Away b (Nat.find again) t := by
      intro l above below runs
      rcases Nat.lt_or_ge i l with late | old
      · exact Nat.find_min again below ⟨late, runs⟩
      · have running := ((r.consistent (by omega)).running runs.1).1
        rw [runs.2, waiting l above old] at running
        cases running
    obtain ⟨value', sender⟩ := found _ after (by omega) user back fun l above below => away l (by
      have := since.before
      omega) below
    exact ⟨b, i, Nat.find again, ⟨call', ⟨Nat.le_of_lt since.before, after, by omega⟩, waiting, left, ⟨user, back⟩, away,
      value', sender⟩, early, blocked, fun l lower upper => alive l (by omega) upper⟩

end MachineRun
end GooseOs
