import GooseOs.Process.Calls
import GooseOs.Machine.Reference

/-!
Rendezvous in both orders: a receiver that blocks before the message is sent, and a sender that
blocks before the message is received. SYS_SEND gives the receiver the same registers in both
orders; SYS_CALL hands over `a2` and `a3` on the first path only.
-/

namespace GooseOs.Rendezvous
open Sched Ipc Security

section Law
variable [Platform]

/-- The two ways to send a message. -/
inductive Sender where
  | send | call
  deriving DecidableEq

def Sender.handler : Sender → Core → Result Core
  | .send => sysSend
  | .call => Ipc.sysCall

/-- The state its message blocks a sender in. -/
def Sender.blocks : Sender → ProcessState
  | .send => .blockedSend
  | .call => .blockedCall

/-- A slot as it is once its process is off the processor: running counts as ready, with the
registers of the frame. -/
def view (k : Core) (q : Nat) : Process :=
  if (k.procs q).state = .running then { k.procs q with state := .ready, context := k.frame } else k.procs q

/-- Equal up to which runnable process is the running one. -/
def SameProcesses (k l : Core) : Prop := ∀ q, view k q = view l q

/-- The process that makes the next call. -/
structure Runs (k : Core) (p : Nat) : Prop where
  consistent : Consistent k
  user : k.inUser
  current : k.currentPid = p

/-- Both orders of a message from `c` to `s`, from one set of processes. In `k₁ … k₄` the server
`s` blocks in SYS_RECEIVE before `c` sends; in `l₁ … l₄` the sender blocks first. -/
structure Orders (kind : Sender) (s c : Nat) (k₁ k₂ k₃ k₄ l₁ l₂ l₃ l₄ : Core) : Prop where
  server : Runs k₁ s
  wants : k₁.frame.a0.toNat = 0 ∨ k₁.frame.a0.toNat = c
  received : sysReceive k₁ = .ok k₂
  waits : (k₂.procs s).state = .blockedRecv
  switch : SameProcesses k₂ k₃
  sender : Runs k₃ c
  target : k₃.frame.a0.toNat = s
  sent : kind.handler k₃ = .ok k₄
  same : SameProcesses k₁ l₁
  sender' : Runs l₁ c
  sent' : kind.handler l₁ = .ok l₂
  switch' : SameProcesses l₂ l₃
  server' : Runs l₃ s
  received' : sysReceive l₃ = .ok l₄

/-- The server gets the same registers in both orders, and both processes end in the same states. -/
structure Agree (s c : Nat) (k l : Core) : Prop where
  a0 : (view k s).context.a0 = (view l s).context.a0
  a1 : (view k s).context.a1 = (view l s).context.a1
  a2 : (view k s).context.a2 = (view l s).context.a2
  a3 : (view k s).context.a3 = (view l s).context.a3
  server : (view k s).state = (view l s).state
  sender : (view k c).state = (view l c).state

section View
variable {k k' l : Core} {q p : Nat}

omit [Platform] in
theorem view_of_not_running (other : (k.procs q).state ≠ .running) : view k q = k.procs q := if_neg other

omit [Platform] in
theorem Runs.view (runs : Runs k p) : view k p = { k.procs p with state := .ready, context := k.frame } := by
  have running := (runs.consistent.running runs.user).1
  rw [runs.current] at running
  exact if_pos running

omit [Platform] in
theorem Runs.other (runs : Runs k p) (apart : q ≠ p) : Rendezvous.view k q = k.procs q :=
  view_of_not_running fun running => apart ((runs.consistent.only q running).1.trans runs.current)

omit [Platform] in
theorem procs_of_view {x : ProcessState} (state : (view k q).state = x) (blocked : x ≠ .ready) :
    k.procs q = view k q := by
  unfold view at state ⊢
  split
  · rename_i running
    rw [if_pos running] at state
    exact absurd state.symm blocked
  · rfl

/-- Scheduling the caller away does not change the other processes. -/
theorem schedule_view (h : schedule k p = .ok k') (apart : q ≠ p) (other : (k.procs q).state ≠ .running) :
    view k' q = k.procs q := by
  rcases schedule_ok h with ⟨next, found, rfl⟩ | ⟨-, rfl⟩
  · by_cases chosen : q = next
    · subst chosen
      have ready := (nextReady_some found).1
      simp only [Core.modify_procs, Function.update_of_ne apart] at ready
      simp [view, load, Function.update_of_ne apart, ← ready]
    · rw [view, if_neg]
      · simp [load, Function.update_of_ne chosen, Function.update_of_ne apart]
      · simpa [load, Function.update_of_ne chosen, Function.update_of_ne apart] using other
  · rw [view, if_neg]
    · simp [Function.update_of_ne apart]
    · simpa [Function.update_of_ne apart] using other

end View

/-! ### The scan in both orders -/

omit [Platform] in
/-- Only blocked slots are senders, and those are their own view. -/
theorem isSenderTo_view (k : Core) (i current fromPid : Nat) :
    isSenderTo (k.procs i) i current fromPid = isSenderTo (view k i) i current fromPid := by
  unfold view
  split
  · rename_i running
    simp only [isSenderTo, running]
    rfl
  · rfl

omit [Platform] in
theorem findSender_only {procs : Nat → Process} {current fromPid c : Nat} (range : 1 ≤ c ∧ c < maxProcs)
    (sender : isSenderTo (procs c) c current fromPid = true)
    (only : ∀ i, i ≠ c → isSenderTo (procs i) i current fromPid = false) : findSender procs current fromPid = some c := by
  unfold findSender
  cases found : pids.find? fun i => isSenderTo (procs i) i current fromPid with
  | none => exact absurd sender (List.find?_eq_none.mp found c (mem_pids.mpr range))
  | some i =>
    by_contra other
    have matching := List.find?_some found
    rw [only i fun same => other (by rw [same])] at matching
    cases matching

section Orders
variable {kind : Sender} {s c : Nat} {k₁ k₂ k₃ k₄ l₁ l₂ l₃ l₄ : Core}
  (orders : Orders kind s c k₁ k₂ k₃ k₄ l₁ l₂ l₃ l₄)
include orders

theorem Orders.blocks :
    ¬ ((k₁.procs s).irqPending = true ∧ k₁.frame.a0.toNat = 0) ∧ findSender k₁.procs s k₁.frame.a0.toNat = none ∧
      schedule (k₁.advance.modify s fun p => { p with ipcTarget := k₁.frame.a0.toNat, state := .blockedRecv }) s = .ok k₂ := by
  obtain ⟨⟨cons, user, rfl⟩, -, received, waits, -⟩ := orders
  exact sysReceive_blocks received (cons.running user).1 waits

theorem Orders.server_slot :
    k₃.procs s = { k₁.procs s with
      ipcTarget := k₁.frame.a0.toNat, state := .blockedRecv, context := k₁.frame.advance } := by
  have slot : k₂.procs s = _ := schedule_own orders.blocks.2.2 (by simp)
  simp only [Core.modify_procs, Core.advance_procs, Core.modify_frame, Core.advance_frame, Function.update_self] at slot
  have seen : view k₃ s = k₂.procs s := by
    rw [← orders.switch s]
    exact view_of_not_running (by rw [slot]; nofun)
  rw [procs_of_view (x := .blockedRecv) (by rw [seen, slot]) nofun, seen, slot]

theorem Orders.apart : s ≠ c := by
  intro same
  have running := (orders.sender.consistent.running orders.sender.user).1
  rw [orders.sender.current, ← same, orders.server_slot] at running
  cases running

theorem Orders.valid : isValidIpcTarget s c = true := by
  have range := orders.server.consistent.current_range orders.server.user
  rw [orders.server.current] at range
  exact isValidIpcTarget_iff.mpr ⟨range.1, range.2, orders.apart⟩

theorem Orders.sender_frame : l₁.frame = k₃.frame := by
  have before : view k₁ c = k₁.procs c := orders.server.other orders.apart.symm
  have idle : (k₁.procs c).state ≠ .running := by
    intro running
    exact orders.apart ((orders.server.consistent.only c running).1.trans orders.server.current).symm
  have after : view k₂ c = k₁.procs c := by
    have kept := schedule_view orders.blocks.2.2 orders.apart.symm
    simp only [Core.modify_procs, Core.advance_procs, Function.update_of_ne orders.apart.symm] at kept
    exact kept idle
  have both : view l₁ c = view k₃ c := by
    rw [← orders.same c, before, ← after, orders.switch c]
  rw [orders.sender'.view, orders.sender.view] at both
  exact congrArg Process.context both

theorem Orders.server_first :
    view k₄ s = { k₁.procs s with
      ipcTarget := k₁.frame.a0.toNat
      state := .ready
      context := { k₁.frame.advance with
        a0 := k₃.frame.a1
        a1 := BitVec.ofNat 64 c
        a2 := if kind = .call then k₃.frame.a2 else k₁.frame.a2
        a3 := if kind = .call then k₃.frame.a3 else k₁.frame.a3 } } ∧
      (view k₄ c).state = if kind = .call then .blockedCall else .ready := by
  have slot := orders.server_slot
  have valid := orders.valid
  have apart := orders.apart
  have wanted : wantsFrom (k₃.procs s) c = true := by
    rw [slot]
    rcases orders.wants with any | only
    · simp [wantsFrom, any]
    · simp [wantsFrom, only]
  have current := orders.sender.current
  have running := (orders.sender.consistent.running orders.sender.user).1
  have target := orders.target
  have sent := orders.sent
  rw [current] at running
  rw [← target, ← current] at valid wanted apart
  cases kind with
  | send =>
    have after : k₄ = _ := sysSend_met sent valid wanted
    rw [target, current] at after
    rw [target, current] at apart
    subst after
    refine ⟨?_, ?_⟩
    · rw [view_of_not_running (by simp)]
      simp [slot]
    · simp [view, Function.update_of_ne apart.symm, running]
  | call =>
    have scheduled := sysCall_schedules sent valid
    rw [if_pos wanted, target, current] at scheduled
    rw [target, current] at apart
    have woken := schedule_view scheduled apart (by simp [Function.update_of_ne apart])
    have parked := schedule_own scheduled (by simp)
    refine ⟨?_, ?_⟩
    · rw [woken]
      simp [slot, Function.update_of_ne apart]
    · rw [view_of_not_running (by rw [parked]; simp), parked]
      simp

/-- The server as the sender-first order finds it: ready, with the registers of its SYS_RECEIVE. -/
theorem Orders.server_ready : l₁.procs s = { k₁.procs s with state := .ready, context := k₁.frame } := by
  have server : view l₁ s = { k₁.procs s with state := .ready, context := k₁.frame } := by
    rw [← orders.same s]
    exact orders.server.view
  exact (orders.sender'.other orders.apart).symm.trans server

/-- Sender first: the sender blocks, and nobody else changes. -/
theorem Orders.sender_blocked :
    (l₂.procs c).state = kind.blocks ∧ (l₂.procs c).ipcTarget = s ∧ (l₂.procs c).ipcValue = k₃.frame.a1 ∧
      ∀ q, q ≠ c → view l₂ q = l₁.procs q := by
  have valid := orders.valid
  have frame := orders.sender_frame
  have current := orders.sender'.current
  have target : l₁.frame.a0.toNat = s := by rw [frame]; exact orders.target
  have busy : wantsFrom (l₁.procs s) c = false := by
    rw [orders.server_ready]
    rfl
  have others : ∀ q, q ≠ c → (l₁.procs q).state ≠ .running := fun q apart running =>
    apart ((orders.sender'.consistent.only q running).1.trans current)
  have sent := orders.sent'
  rw [← frame]
  rw [← target, ← current] at valid busy
  cases kind with
  | send =>
    have scheduled := sysSend_schedules sent valid busy
    rw [target, current] at scheduled
    have parked : l₂.procs c = _ := schedule_own scheduled (by simp)
    refine ⟨by rw [parked]; simp [Sender.blocks], by rw [parked]; simp, by rw [parked]; simp, fun q apart => ?_⟩
    have kept := schedule_view scheduled apart (by simpa [Function.update_of_ne apart] using others q apart)
    simpa [Function.update_of_ne apart] using kept
  | call =>
    have scheduled := sysCall_schedules sent valid
    rw [if_neg (by rw [busy]; nofun), target, current] at scheduled
    have parked : l₂.procs c = _ := schedule_own scheduled (by simp)
    refine ⟨by rw [parked]; simp [Sender.blocks], by rw [parked]; simp, by rw [parked]; simp, fun q apart => ?_⟩
    have kept := schedule_view scheduled apart (by simpa [Function.update_of_ne apart] using others q apart)
    simpa [Function.update_of_ne apart] using kept

/-- Sender first: the server's scan finds the sender blocked. -/
theorem Orders.sender_first :
    (view l₄ s).state = .ready ∧
      (view l₄ s).context = { k₁.frame.advance with a0 := k₃.frame.a1, a1 := BitVec.ofNat 64 c } ∧
      (view l₄ c).state = if kind = .call then .blockedCall else .ready := by
  obtain ⟨blocked, target, value, others⟩ := orders.sender_blocked
  have apart := orders.apart
  have quiet := orders.blocks.1
  have ready := orders.server_ready
  have current := orders.server'.current
  have running := (orders.server'.consistent.running orders.server'.user).1
  rw [current] at running
  have range := orders.sender.consistent.current_range orders.sender.user
  rw [orders.sender.current] at range
  -- The server resumes with the registers of its SYS_RECEIVE.
  have server : view l₃ s = l₁.procs s := by rw [← orders.switch' s]; exact others s apart
  have frame : l₃.frame = k₁.frame := by
    have both := orders.server'.view.symm.trans (server.trans ready)
    exact congrArg Process.context both
  have pending : (l₃.procs s).irqPending = (k₁.procs s).irqPending := by
    have both := congrArg Process.irqPending (orders.server'.view.symm.trans (server.trans ready))
    exact both
  -- The sender is still blocked.
  have notReady : kind.blocks ≠ .ready := by cases kind <;> decide
  have notRunning : kind.blocks ≠ .running := by cases kind <;> decide
  have sender : l₃.procs c = l₂.procs c := by
    have seen : view l₃ c = l₂.procs c := by
      rw [← orders.switch' c]
      exact view_of_not_running (by rw [blocked]; exact notRunning)
    rw [procs_of_view (x := kind.blocks) (by rw [seen, blocked]) notReady, seen]
  -- It is the only one the scan can pick: the server found nobody before.
  have found : findSender l₃.procs s l₃.frame.a0.toNat = some c := by
    rw [frame]
    refine findSender_only range ?_ fun i other => ?_
    · rw [sender]
      have from' : k₁.frame.a0.toNat = 0 ∨ k₁.frame.a0.toNat = c := orders.wants
      cases kind <;> rcases from' with h | h <;> simp [isSenderTo, blocked, target, h, Sender.blocks]
    · rw [isSenderTo_view, ← orders.switch' i, others i other]
      by_cases own : i = s
      · rw [own, ready]
        rfl
      · have none := List.find?_eq_none.mp orders.blocks.2.1
        by_cases small : i ∈ pids
        · have missed := none i small
          rw [isSenderTo_view, orders.same i, orders.sender'.other other] at missed
          simpa using missed
        · have free : (l₁.procs i).state = .free := by
            by_contra live
            exact small (mem_pids.mpr (orders.sender'.consistent.range i live))
          simp [isSenderTo, free]
  rw [← frame, ← pending] at quiet
  rw [← current] at quiet found
  obtain ⟨stays, registers, procs⟩ := sysReceive_found orders.received' quiet found
  have own : (l₄.procs s).state = .running := by
    rw [procs]
    split
    · rw [Function.update_of_ne apart, running]
    · exact running
  have server' : view l₄ s = { l₄.procs s with state := .ready, context := l₄.frame } := if_pos own
  refine ⟨by rw [server'], ?_, ?_⟩
  · rw [server']
    change l₄.frame = _
    rw [registers, frame, sender, value]
  · rw [sender, blocked] at procs
    cases kind with
    | send =>
      have state : (l₄.procs c).state = .ready := by
        rw [procs, if_pos (show Sender.send.blocks = .blockedSend from rfl), Function.update_self]
      rw [view_of_not_running (by rw [state]; decide), state]
      rfl
    | call =>
      have state : (l₄.procs c).state = .blockedCall := by
        rw [procs, if_neg (show Sender.call.blocks ≠ .blockedSend by decide), sender, blocked]
        rfl
      rw [view_of_not_running (by rw [state]; decide), state]
      rfl

end Orders

/-- The order does not matter for SYS_SEND, and for SYS_CALL exactly when the server's own `a2` and
`a3` already equal the caller's. -/
theorem agree_iff {kind : Sender} {s c : Nat} {k₁ k₂ k₃ k₄ l₁ l₂ l₃ l₄ : Core}
    (orders : Orders kind s c k₁ k₂ k₃ k₄ l₁ l₂ l₃ l₄) :
    Agree s c k₄ l₄ ↔ (kind = .call → k₁.frame.a2 = k₃.frame.a2 ∧ k₁.frame.a3 = k₃.frame.a3) := by
  obtain ⟨first, firstSender⟩ := orders.server_first
  obtain ⟨state, context, sender⟩ := orders.sender_first
  constructor
  · rintro agree rfl
    have a2 := agree.a2
    have a3 := agree.a3
    rw [first, context] at a2 a3
    exact ⟨a2.symm, a3.symm⟩
  · intro extra
    refine ⟨?_, ?_, ?_, ?_, ?_, firstSender.trans sender.symm⟩
    · rw [first, context]
    · rw [first, context]
    · rw [first, context]
      split
      · exact (extra ‹_›).1.symm
      · rfl
    · rw [first, context]
      split
      · exact (extra ‹_›).2.symm
      · rfl
    · rw [first, state]

end Law

section Reference
open Reference Trap
attribute [local instance] Reference.platform

/-- PID 2 is about to call PID 1 with 5 in `a2`, and PID 1 to receive. -/
def readyScript : List Action :=
  [.timer, .user { calling sysCallNo 1 7 with a2 := 5 }, .timer, .user (calling sysReceiveNo 0 0)]

/-- PID 1 receives first. -/
noncomputable def receiverFirstRun : MachineRun := script (readyScript ++ [.ecall, .ecall])

/-- PID 1 is preempted, and PID 2 calls first. -/
noncomputable def senderFirstRun : MachineRun := script (readyScript ++ [.timer, .ecall, .ecall])

theorem orders_call : Orders .call 1 2 (receiverFirstRun.state 4).toCore (receiverFirstRun.state 5).toCore
    (receiverFirstRun.state 5).toCore (receiverFirstRun.state 6).toCore (senderFirstRun.state 5).toCore
    (senderFirstRun.state 6).toCore (senderFirstRun.state 6).toCore (senderFirstRun.state 7).toCore where
  server := ⟨receiverFirstRun.consistent (by decide), by unfold Core.inUser; rfl, rfl⟩
  wants := Or.inl rfl
  received := rfl
  waits := rfl
  switch _ := rfl
  sender := ⟨receiverFirstRun.consistent (by decide), by unfold Core.inUser; rfl, rfl⟩
  target := rfl
  sent := rfl
  same q := by rcases q with _ | _ | _ | q <;> rfl
  sender' := ⟨senderFirstRun.consistent (by decide), by unfold Core.inUser; rfl, rfl⟩
  sent' := rfl
  switch' _ := rfl
  server' := ⟨senderFirstRun.consistent (by decide), by unfold Core.inUser; rfl, rfl⟩
  received' := rfl

/-- The receiver gets 5 in `a2` in one order only. -/
theorem agree_fails : ¬ ∀ kind s c k₁ k₂ k₃ k₄ l₁ l₂ l₃ l₄, Orders kind s c k₁ k₂ k₃ k₄ l₁ l₂ l₃ l₄ → Agree s c k₄ l₄ := by
  intro law
  have agree := law _ _ _ _ _ _ _ _ _ _ _ orders_call
  exact absurd agree.a2 (by decide)

theorem agree_iff_call : Agree 1 2 (receiverFirstRun.state 6).toCore (senderFirstRun.state 7).toCore ↔
    (Sender.call = .call → (receiverFirstRun.state 4).frame.a2 = (receiverFirstRun.state 5).frame.a2 ∧
      (receiverFirstRun.state 4).frame.a3 = (receiverFirstRun.state 5).frame.a3) :=
  agree_iff orders_call

end Reference

end GooseOs.Rendezvous
