import GooseOs.Process.Consistency

/-!
The IPC calls on a run: what each of them leaves behind, how a blocked process comes out of its
call and how it came to be blocked.
-/

namespace GooseOs
open Slot Sched Ipc Lifecycle Trap Security

/-- A state only another process or an interrupt leads out of. -/
def Blocked (s : ProcessState) : Prop := s = .blockedSend ∨ s = .blockedRecv ∨ s = .blockedCall ∨ s = .blockedWait

/-- Equal up to the interrupt fields. -/
def Kept (p p' : Process) : Prop := ∃ irqNum irqPending, p' = { p with irqNum := irqNum, irqPending := irqPending }

theorem Blocked.not_running {s : ProcessState} (blocked : Blocked s) : s ≠ .running ∧ s ≠ .ready ∧ s ≠ .free := by
  rcases blocked with rfl | rfl | rfl | rfl <;> exact ⟨nofun, nofun, nofun⟩

namespace Kept
variable {p p' p'' : Process}

theorem refl (p : Process) : Kept p p := ⟨p.irqNum, p.irqPending, rfl⟩

theorem trans (first : Kept p p') (second : Kept p' p'') : Kept p p'' := by
  obtain ⟨_, _, rfl⟩ := first
  obtain ⟨irqNum, irqPending, rfl⟩ := second
  exact ⟨irqNum, irqPending, rfl⟩

theorem state (kept : Kept p p') : p'.state = p.state := by
  obtain ⟨_, _, rfl⟩ := kept
  rfl

theorem context (kept : Kept p p') : p'.context = p.context := by
  obtain ⟨_, _, rfl⟩ := kept
  rfl

theorem ipcTarget (kept : Kept p p') : p'.ipcTarget = p.ipcTarget := by
  obtain ⟨_, _, rfl⟩ := kept
  rfl

theorem ipcValue (kept : Kept p p') : p'.ipcValue = p.ipcValue := by
  obtain ⟨_, _, rfl⟩ := kept
  rfl

theorem parent (kept : Kept p p') : p'.parent = p.parent := by
  obtain ⟨_, _, rfl⟩ := kept
  rfl

theorem exitCode (kept : Kept p p') : p'.exitCode = p.exitCode := by
  obtain ⟨_, _, rfl⟩ := kept
  rfl

end Kept

variable [Platform]

/-! ### Scheduling away -/

section Schedule
variable {c c' : Core} {pid : Nat}

/-- A caller that is not ready stays where it is, with its registers saved. -/
theorem schedule_own (h : schedule c pid = .ok c') (parked : (c.procs pid).state ≠ .ready) :
    c'.procs pid = { c.procs pid with context := c.frame } := by
  rcases schedule_ok h with ⟨next, found, rfl⟩ | ⟨-, rfl⟩
  · have ready := (nextReady_some found).1
    have other : pid ≠ next := by
      rintro rfl
      simp only [Core.modify_procs, Function.update_self] at ready
      exact parked ready
    simp [load, Function.update_of_ne other]
  · simp

theorem schedule_current (h : schedule c pid = .ok c') (parked : (c.procs pid).state ≠ .ready) (used : pid ≠ 0) :
    c'.currentPid ≠ pid := by
  rcases schedule_ok h with ⟨next, found, rfl⟩ | ⟨-, rfl⟩
  · have ready := (nextReady_some found).1
    intro same
    rw [show next = pid from same, Core.modify_procs, Function.update_self] at ready
    exact parked ready
  · exact used.symm

theorem schedule_other (h : schedule c pid = .ok c') {q : Nat} (other : q ≠ pid) :
    c'.procs q = c.procs q ∨ ((c.procs q).state = .ready ∧ c'.procs q = { c.procs q with state := .running }) := by
  rcases schedule_ok h with ⟨next, found, rfl⟩ | ⟨-, rfl⟩
  · by_cases chosen : q = next
    · subst chosen
      have ready := (nextReady_some found).1
      simp only [Core.modify_procs, Function.update_of_ne other] at ready
      exact Or.inr ⟨ready, by simp [load, Function.update_of_ne other]⟩
    · exact Or.inl (by simp [load, Function.update_of_ne chosen, Function.update_of_ne other])
  · exact Or.inl (by simp [Function.update_of_ne other])

end Schedule

/-! ### What the IPC handlers do -/

section Handlers
variable {c c' : Core}

theorem sysSend_rejected (invalid : isValidIpcTarget c.frame.a0.toNat c.currentPid = false) :
    sysSend c = .ok (c.advance.setA0 usizeMax) := by
  simp [sysSend, invalid]

/-- SYS_SEND to a blocked receiver hands it the message and answers 0. -/
theorem sysSend_met (h : sysSend c = .ok c') (valid : isValidIpcTarget c.frame.a0.toNat c.currentPid = true)
    (wanted : wantsFrom (c.procs c.frame.a0.toNat) c.currentPid = true) :
    c' = (c.advance.modify c.frame.a0.toNat fun p =>
      { p with
        context := { p.context with a0 := c.frame.a1, a1 := BitVec.ofNat 64 c.currentPid }
        state := .ready }).setA0 0 := by
  simp only [sysSend, Core.advance_frame, Core.advance_currentPid, Core.advance_procs, TrapFrame.advance_a0,
    TrapFrame.advance_a1, valid, wanted] at h
  cases h
  rfl

/-- SYS_SEND to anyone else schedules, its caller blocked. -/
theorem sysSend_schedules (h : sysSend c = .ok c') (valid : isValidIpcTarget c.frame.a0.toNat c.currentPid = true)
    (busy : wantsFrom (c.procs c.frame.a0.toNat) c.currentPid = false) :
    schedule (c.advance.modify c.currentPid fun p =>
      { p with ipcTarget := c.frame.a0.toNat, ipcValue := c.frame.a1, state := .blockedSend }) c.currentPid = .ok c' := by
  simp only [sysSend, Core.advance_frame, Core.advance_currentPid, Core.advance_procs, TrapFrame.advance_a0,
    TrapFrame.advance_a1, valid, busy] at h
  exact h

theorem sysSend_parked (h : sysSend c = .ok c') (valid : isValidIpcTarget c.frame.a0.toNat c.currentPid = true)
    (busy : wantsFrom (c.procs c.frame.a0.toNat) c.currentPid = false) :
    c'.procs c.currentPid = { c.procs c.currentPid with
      ipcTarget := c.frame.a0.toNat, ipcValue := c.frame.a1, state := .blockedSend, context := c.frame.advance } :=
  (schedule_own (sysSend_schedules h valid busy) (by simp)).trans (by simp)

/-- SYS_CALL with a valid target always schedules, its caller blocked. -/
theorem sysCall_schedules (h : Ipc.sysCall c = .ok c') (valid : isValidIpcTarget c.frame.a0.toNat c.currentPid = true) :
    schedule ((if wantsFrom (c.procs c.frame.a0.toNat) c.currentPid then
        c.advance.modify c.frame.a0.toNat fun p =>
          { p with
            context := { p.context with
              a0 := c.frame.a1, a1 := BitVec.ofNat 64 c.currentPid, a2 := c.frame.a2, a3 := c.frame.a3 }
            state := .ready }
      else c.advance).modify c.currentPid fun p =>
        { p with
          ipcTarget := c.frame.a0.toNat, ipcValue := c.frame.a1, ipcArg2 := c.frame.a2, ipcArg3 := c.frame.a3,
          state := .blockedCall }) c.currentPid = .ok c' := by
  unfold Ipc.sysCall at h
  dsimp only at h
  split at h
  · rename_i invalid
    exact absurd valid (by simpa using invalid)
  · split at h <;> rename_i wanted
    · rw [if_pos (show wantsFrom (c.procs c.frame.a0.toNat) c.currentPid = true from wanted)]
      exact h
    · rw [if_neg (show ¬ wantsFrom (c.procs c.frame.a0.toNat) c.currentPid = true from wanted)]
      exact h

/-- SYS_CALL to a blocked receiver hands it the message and two extra arguments. -/
theorem sysCall_met (h : Ipc.sysCall c = .ok c') (valid : isValidIpcTarget c.frame.a0.toNat c.currentPid = true)
    (wanted : wantsFrom (c.procs c.frame.a0.toNat) c.currentPid = true) :
    ∃ state, (state = .ready ∨ state = .running) ∧
      c'.procs c.frame.a0.toNat = { c.procs c.frame.a0.toNat with
        context := { (c.procs c.frame.a0.toNat).context with
          a0 := c.frame.a1, a1 := BitVec.ofNat 64 c.currentPid, a2 := c.frame.a2, a3 := c.frame.a3 }
        state := state } := by
  have other := (isValidIpcTarget_iff.mp valid).2.2
  have scheduled := sysCall_schedules h valid
  rw [if_pos wanted] at scheduled
  rcases schedule_other scheduled other with same | ⟨-, ran⟩
  · refine ⟨.ready, Or.inl rfl, same.trans ?_⟩
    simp [Function.update_of_ne other]
  · refine ⟨.running, Or.inr rfl, ran.trans ?_⟩
    simp [Function.update_of_ne other]

theorem sysCall_parked (h : Ipc.sysCall c = .ok c') (valid : isValidIpcTarget c.frame.a0.toNat c.currentPid = true) :
    c'.procs c.currentPid = { c.procs c.currentPid with
      ipcTarget := c.frame.a0.toNat, ipcValue := c.frame.a1, ipcArg2 := c.frame.a2, ipcArg3 := c.frame.a3,
      state := .blockedCall, context := c.frame.advance } := by
  have other := (isValidIpcTarget_iff.mp valid).2.2
  refine (schedule_own (sysCall_schedules h valid) (by simp)).trans ?_
  split <;> simp [Function.update_of_ne other.symm]

omit [Platform] in
/-- SYS_REPLY to a caller blocked on us releases it and answers 0. -/
theorem sysReply_accepted (h : sysReply c = .ok c') (valid : isValidIpcTarget c.frame.a0.toNat c.currentPid = true)
    (caller : (c.procs c.frame.a0.toNat).state = .blockedCall)
    (waits : (c.procs c.frame.a0.toNat).ipcTarget = c.currentPid) :
    c' = (c.advance.modify c.frame.a0.toNat fun p =>
      { p with context := { p.context with a0 := c.frame.a1 }, state := .ready }).setA0 0 := by
  unfold sysReply at h
  dsimp only at h
  split at h
  · rename_i invalid
    exact absurd valid (by simpa using invalid)
  split at h
  · cases h
    rfl
  · rename_i refused
    exact absurd (And.intro caller waits) (by simpa using refused)

omit [Platform] in
theorem sysReply_refused (h : sysReply c = .ok c') (accepts : c'.frame.a0 ≠ usizeMax) :
    isValidIpcTarget c.frame.a0.toNat c.currentPid = true ∧
      (c.procs c.frame.a0.toNat).state = .blockedCall ∧ (c.procs c.frame.a0.toNat).ipcTarget = c.currentPid := by
  unfold sysReply at h
  dsimp only at h
  split at h
  · cases h
    exact absurd rfl accepts
  rename_i valid
  split at h
  · rename_i pending
    exact ⟨by simpa using valid, by simpa using pending⟩
  · cases h
    exact absurd rfl accepts

/-- SYS_RECEIVE that picks a blocked sender returns its message and releases a plain sender. -/
theorem sysReceive_found {i : Nat} (h : sysReceive c = .ok c')
    (quiet : ¬ ((c.procs c.currentPid).irqPending = true ∧ c.frame.a0.toNat = 0))
    (found : findSender c.procs c.currentPid c.frame.a0.toNat = some i) :
    c'.currentPid = c.currentPid ∧ c'.frame = { c.frame.advance with a0 := (c.procs i).ipcValue, a1 := BitVec.ofNat 64 i } ∧
      c'.procs = if (c.procs i).state = .blockedSend then
          Function.update c.procs i { c.procs i with state := .ready, context := { (c.procs i).context with a0 := 0 } }
        else c.procs := by
  unfold sysReceive at h
  dsimp only at h
  split at h
  · rename_i pending
    exact absurd (by simpa using pending) quiet
  split at h
  · rename_i j other
    obtain rfl := Option.some.inj (other.symm.trans found)
    split at h <;> rename_i sender
    · cases h
      exact ⟨rfl, rfl, (if_pos (by simpa using sender)).symm⟩
    · cases h
      exact ⟨rfl, rfl, (if_neg (by simpa using sender)).symm⟩
  · rename_i none
    exact absurd (none.symm.trans found) nofun

theorem sysReceive_answer (h : sysReceive c = .ok c') (used : c.currentPid ≠ 0) (runs : c'.currentPid = c.currentPid) :
    c'.frame.a1 = 0 ∨
      (¬ ((c.procs c.currentPid).irqPending = true ∧ c.frame.a0.toNat = 0) ∧
        ∃ i, findSender c.procs c.currentPid c.frame.a0.toNat = some i) := by
  unfold sysReceive at h
  dsimp only at h
  split at h
  · cases h
    exact Or.inl rfl
  rename_i quiet
  split at h
  · rename_i i found
    exact Or.inr ⟨by simpa using quiet, i, found⟩
  · exact absurd runs (schedule_current h (by simp) used)

/-- A SYS_RECEIVE that does not block returns to its caller. -/
theorem sysReceive_unblocked (h : sysReceive c = .ok c') (open_ : (c'.procs c.currentPid).state ≠ .blockedRecv) :
    c'.currentPid = c.currentPid ∧ c'.frame.spp = c.frame.spp := by
  unfold sysReceive at h
  dsimp only at h
  split at h
  · cases h
    exact ⟨rfl, rfl⟩
  split at h
  · split at h <;> (cases h; exact ⟨rfl, rfl⟩)
  · exact absurd (congrArg Process.state (schedule_own h (by simp))) (by simpa using open_)

/-- SYS_RECEIVE from a given process that has sent nothing blocks. -/
theorem sysReceive_parked (h : sysReceive c = .ok c') (given : c.frame.a0.toNat ≠ 0)
    (none : findSender c.procs c.currentPid c.frame.a0.toNat = none) :
    c'.procs c.currentPid = { c.procs c.currentPid with
      ipcTarget := c.frame.a0.toNat, state := .blockedRecv, context := c.frame.advance } := by
  simp only [sysReceive, Core.advance_frame, Core.advance_currentPid, Core.advance_procs, TrapFrame.advance_a0,
    beq_eq_false_iff_ne.mpr given, Bool.and_false, Bool.false_eq_true, if_false, none] at h
  exact (schedule_own h (by simp)).trans (by simp)

/-- A SYS_RECEIVE that blocks found neither an interrupt nor a sender. -/
theorem sysReceive_blocks (h : sysReceive c = .ok c') (running : (c.procs c.currentPid).state = .running)
    (blocked : (c'.procs c.currentPid).state = .blockedRecv) :
    ¬ ((c.procs c.currentPid).irqPending = true ∧ c.frame.a0.toNat = 0) ∧
      findSender c.procs c.currentPid c.frame.a0.toNat = none ∧
      schedule (c.advance.modify c.currentPid fun p =>
        { p with ipcTarget := c.frame.a0.toNat, state := .blockedRecv }) c.currentPid = .ok c' := by
  unfold sysReceive at h
  dsimp only at h
  split at h
  · cases h
    simp [running] at blocked
  rename_i quiet
  split at h
  · rename_i i found
    have other : i ≠ c.currentPid := by
      rintro rfl
      have sender := List.find?_some (show findSender c.procs c.currentPid c.frame.a0.toNat = _ from found)
      simp [isSenderTo, running] at sender
    split at h <;> (cases h; simp [Function.update_of_ne other.symm, running] at blocked)
  · rename_i none
    exact ⟨by simpa using quiet, none, h⟩

theorem sysWait_parked (h : Lifecycle.sysWait c = .ok c') (valid : isValidIpcTarget c.frame.a0.toNat c.currentPid = true)
    (child : (c.procs c.frame.a0.toNat).parent = c.currentPid) (alive : (c.procs c.frame.a0.toNat).state ≠ .free) :
    c'.procs c.currentPid = { c.procs c.currentPid with
      ipcTarget := c.frame.a0.toNat, state := .blockedWait, context := c.frame.advance } := by
  simp only [Lifecycle.sysWait, Core.advance_frame, Core.advance_currentPid, Core.advance_procs,
    TrapFrame.advance_a0, valid, child, alive, Bool.not_true, Bool.false_eq_true, ne_eq, not_true_eq_false,
    if_false] at h
  exact (schedule_own h (by simp)).trans (by simp)

/-- SYS_WAIT for an exited child returns the code its slot keeps. -/
theorem sysWait_exited (h : Lifecycle.sysWait c = .ok c') (valid : isValidIpcTarget c.frame.a0.toNat c.currentPid = true)
    (child : (c.procs c.frame.a0.toNat).parent = c.currentPid) (gone : (c.procs c.frame.a0.toNat).state = .free) :
    c' = c.advance.setA0 (c.procs c.frame.a0.toNat).exitCode := by
  simp only [Lifecycle.sysWait, Core.advance_frame, Core.advance_currentPid, Core.advance_procs,
    TrapFrame.advance_a0, valid, child, gone, Bool.not_true, Bool.false_eq_true, ne_eq, not_true_eq_false,
    if_false, if_true] at h
  cases h
  rfl

theorem sysWait_refused (h : Lifecycle.sysWait c = .ok c')
    (stranger : (c.procs c.frame.a0.toNat).parent ≠ c.currentPid) : c' = c.advance.setA0 usizeMax := by
  unfold Lifecycle.sysWait at h
  dsimp only at h
  split at h
  · cases h
    rfl
  split at h
  · cases h
    rfl
  · rename_i child
    exact absurd (by simpa using child) stranger

end Handlers

/-! ### The calls -/

namespace MachineRun
variable {r : MachineRun} {n number p q : Nat}

theorem CallAt.running (call : r.CallAt n number p) : ((r.state n).procs p).state = .running ∧ p ≠ 0 := by
  have running := (r.consistent (Nat.le_of_lt call.bound)).running call.user
  rw [call.caller] at running
  exact running

theorem CallAt.range (call : r.CallAt n number p) : 1 ≤ p ∧ p < maxProcs :=
  (r.consistent (Nat.le_of_lt call.bound)).range p (by rw [call.running.1]; nofun)

theorem CallAt.handled (call : r.CallAt n number p) : handleEcall (r.state n) = .ok (r.state (n + 1)) := by
  have step := r.steps n call.bound
  rw [call.label] at step
  exact (step_trap step).1

/-- A call the dispatch table gives to a process-level handler. -/
theorem CallAt.onCore {f : Core → Result Core} (call : r.CallAt n number p)
    (entry : handleEcall (r.state n) = (r.state n).onCore f) : f (r.state n).toCore = .ok (r.state (n + 1)).toCore := by
  have handled := call.handled
  rw [entry] at handled
  obtain ⟨c, ran, after⟩ := onCore_ok handled
  rw [ran, after]

theorem CallAt.sysSend (call : r.CallAt n sysSendNo p) :
    Ipc.sysSend (r.state n).toCore = .ok (r.state (n + 1)).toCore :=
  call.onCore (by rw [handleEcall, call.number]; rfl)

theorem CallAt.sysReceive (call : r.CallAt n sysReceiveNo p) :
    Ipc.sysReceive (r.state n).toCore = .ok (r.state (n + 1)).toCore :=
  call.onCore (by rw [handleEcall, call.number]; rfl)

theorem CallAt.sysReply (call : r.CallAt n sysReplyNo p) :
    Ipc.sysReply (r.state n).toCore = .ok (r.state (n + 1)).toCore :=
  call.onCore (by rw [handleEcall, call.number]; rfl)

theorem CallAt.sysWait (call : r.CallAt n sysWaitNo p) :
    Lifecycle.sysWait (r.state n).toCore = .ok (r.state (n + 1)).toCore :=
  call.onCore (by rw [handleEcall, call.number]; rfl)

theorem CallAt.sysCall (call : r.CallAt n sysCallNo p)
    (direct : ¬ (Platform.net = true ∧ (r.state n).frame.a0.toNat = NetServer.netServerPid)) :
    Ipc.sysCall (r.state n).toCore = .ok (r.state (n + 1)).toCore :=
  call.onCore (by rw [handleEcall, call.number]; exact if_neg direct)

end MachineRun

/-! ### Blocked processes -/

section Blocked
variable {c c' : Core} {t : Trap} {q : Nat}

/-- One trap on a blocked process: nothing but its interrupt fields change, or it is woken. -/
theorem traps_blocked (traps : Traps c t c') (cons : Consistent c) (blocked : Blocked (c.procs q).state) :
    Kept (c.procs q) (c'.procs q) ∨
      ∃ f state, Wakes c t q f ∧ (state = .ready ∨ state = .running) ∧
        c'.procs q = { c.procs q with context := f, state := state } := by
  obtain ⟨mid, changes, dispatch⟩ := traps
  have other : q ≠ c.currentPid := by
    rintro rfl
    rcases cons.toSettled.cases with state | state
    · exact blocked.not_running.1 state
    · exact blocked.not_running.2.2 state
  have change := changes q
  have later := Consistent.dispatch_procs dispatch q
  generalize mid q = p at change later
  cases change with
  | stay irqNum irqPending =>
    rcases later with same | ⟨ready, -⟩
    · exact Or.inl ⟨irqNum, irqPending, same⟩
    · exact absurd ready blocked.not_running.2.1
  | wake _ cause =>
    rcases later with same | ⟨-, ran⟩
    · exact Or.inr ⟨_, .ready, cause, Or.inl rfl, same⟩
    · exact Or.inr ⟨_, .running, cause, Or.inr rfl, ran⟩
  | netWake waiting => rw [waiting] at blocked; rcases blocked with h | h | h | h <;> cases h
  | park own => exact absurd own other
  | preempted own => exact absurd own other
  | yielded own => exact absurd own other
  | terminated own => exact absurd own other
  | spawned free => exact absurd free blocked.not_running.2.2

/-- A process that a trap leaves blocked was blocked before, or has just been parked. -/
theorem traps_parked (traps : Traps c t c') (blocked : Blocked (c'.procs q).state) :
    (Blocked (c.procs q).state ∧ Kept (c.procs q) (c'.procs q)) ∨
      (t = .ecall ∧ q = c.currentPid ∧ Parks c (c'.procs q)) := by
  obtain ⟨mid, changes, dispatch⟩ := traps
  have same : c'.procs q = mid q := by
    rcases Consistent.dispatch_procs dispatch q with same | ⟨-, ran⟩
    · exact same
    · rw [ran] at blocked
      exact absurd rfl blocked.not_running.1
  have change := changes q
  rw [same] at blocked ⊢
  generalize mid q = p at change blocked ⊢
  cases change with
  | stay irqNum irqPending => exact Or.inl ⟨blocked, irqNum, irqPending, rfl⟩
  | park own call cause => exact Or.inr ⟨call, own, cause⟩
  | terminated => exact absurd rfl blocked.not_running.2.2
  | _ => exact absurd rfl blocked.not_running.2.1

end Blocked

namespace MachineRun
variable {r : MachineRun} {n p q : Nat}

theorem blocked_step (r : MachineRun) (bound : n < r.len) (blocked : Blocked ((r.state n).procs q).state) :
    Kept ((r.state n).procs q) ((r.state (n + 1)).procs q) ∨
      ∃ t f state, r.label n = .trap t ∧ Wakes (r.state n).toCore t q f ∧ (state = .ready ∨ state = .running) ∧
        (r.state (n + 1)).procs q = { (r.state n).procs q with context := f, state := state } := by
  by_cases trap : ∃ t, r.label n = .trap t
  · obtain ⟨t, label⟩ := trap
    refine (traps_blocked (r.traps bound label) (r.consistent (by omega)) blocked).imp id ?_
    rintro ⟨f, state, cause, running, after⟩
    exact ⟨t, f, state, label, cause, running, after⟩
  · have procs := (step_other (r.steps n bound) fun t same => trap ⟨t, same⟩).1
    rw [procs]
    exact Or.inl (Kept.refl _)

/-- Process `q` has been blocked since its system call at step `b`, which left its slot as `p`. -/
structure BlockedSince (r : MachineRun) (b n q : Nat) (p : Process) : Prop where
  before : b < n
  bound : b < r.len
  label : r.label b = .trap .ecall
  caller : (r.state b).currentPid = q
  parks : Parks (r.state b).toCore p
  since : ∀ i, b < i → i ≤ n → Kept p ((r.state i).procs q)

/-- A blocked process has been blocked since some call of its own. -/
theorem blockedSince (r : MachineRun) (bound : n ≤ r.len) (blocked : Blocked ((r.state n).procs q).state) :
    ∃ b p, r.BlockedSince b n q p := by
  induction n with
  | zero =>
    have started := Boot.booted_started r.start
    by_cases own : q = 1
    · obtain ⟨_, _, _, first, -⟩ := started.first
      rw [own, first] at blocked
      exact absurd rfl blocked.not_running.1
    · rcases started.others q own with empty | ⟨-, _, _, _, created⟩
      · rw [empty] at blocked
        exact absurd rfl blocked.not_running.2.2
      · rw [created] at blocked
        exact absurd rfl blocked.not_running.2.1
  | succ n ih =>
    have extend : Blocked ((r.state n).procs q).state → Kept ((r.state n).procs q) ((r.state (n + 1)).procs q) →
        ∃ b p, r.BlockedSince b (n + 1) q p := by
      intro earlier kept
      obtain ⟨b, p, since⟩ := ih (by omega) earlier
      refine ⟨b, p, by have := since.before; omega, since.bound, since.label, since.caller, since.parks,
        fun i above below => ?_⟩
      rcases Nat.lt_or_ge n i with last | inner
      · obtain rfl : i = n + 1 := by omega
        exact (since.since n since.before le_rfl).trans kept
      · exact since.since i above inner
    by_cases trap : ∃ t, r.label n = .trap t
    · obtain ⟨t, label⟩ := trap
      rcases traps_parked (r.traps (by omega) label) blocked with ⟨earlier, kept⟩ | ⟨rfl, caller, parks⟩
      · exact extend earlier kept
      · refine ⟨n, _, by omega, by omega, label, caller.symm, parks, fun i above below => ?_⟩
        obtain rfl : i = n + 1 := by omega
        exact Kept.refl _
    · have procs := (step_other (r.steps n (by omega)) fun t same => trap ⟨t, same⟩).1
      rw [procs] at blocked extend
      exact extend blocked (Kept.refl _)

end MachineRun
end GooseOs
