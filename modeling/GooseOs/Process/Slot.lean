import GooseOs.Kernel.Outcomes

/-!
The life of a process slot. Every trap acts on the process table in two stages: each slot changes
in one of a few ways, then the scheduler resumes the interrupted process, loads another one or
goes idle. This is the automaton all process-level results are read from.
-/

namespace GooseOs.Slot
open Sched Ipc Lifecycle Syscall Trap Security
variable [Platform]

/-- Why a trap wakes slot `q`, and the registers it wakes with. -/
inductive Wakes (c : Core) : Trap → Nat → TrapFrame → Prop where
  | send {q : Nat} (number : c.frame.a7.toNat = sysSendNo) (target : c.frame.a0.toNat = q)
      (wanted : wantsFrom (c.procs q) c.currentPid = true) :
      Wakes c .ecall q
        { (c.procs q).context with a0 := c.frame.a1, a1 := BitVec.ofNat 64 c.currentPid }
  | call {q : Nat} (number : c.frame.a7.toNat = sysCallNo) (target : c.frame.a0.toNat = q)
      (direct : ¬ (Platform.net = true ∧ c.frame.a0.toNat = NetServer.netServerPid))
      (wanted : wantsFrom (c.procs q) c.currentPid = true) :
      Wakes c .ecall q
        { (c.procs q).context with
          a0 := c.frame.a1, a1 := BitVec.ofNat 64 c.currentPid, a2 := c.frame.a2, a3 := c.frame.a3 }
  | receive {q : Nat} (number : c.frame.a7.toNat = sysReceiveNo)
      (quiet : ¬ ((c.procs c.currentPid).irqPending = true ∧ c.frame.a0.toNat = 0))
      (found : findSender c.procs c.currentPid c.frame.a0.toNat = some q)
      (sender : (c.procs q).state = .blockedSend) : Wakes c .ecall q { (c.procs q).context with a0 := 0 }
  | reply {q : Nat} (number : c.frame.a7.toNat = sysReplyNo) (target : c.frame.a0.toNat = q)
      (caller : (c.procs q).state = .blockedCall) (waits : (c.procs q).ipcTarget = c.currentPid) :
      Wakes c .ecall q { (c.procs q).context with a0 := c.frame.a1 }
  | exit {q : Nat} {t : Trap} {code : Word} (ends : (t = .ecall ∧ c.frame.a7.toNat = sysExitNo ∧ code = c.frame.a0) ∨
        ∃ cause, t = .fault cause ∧ code = BitVec.ofNat 64 (128 + cause))
      (waiter : (c.procs q).state = .blockedWait) (waits : (c.procs q).ipcTarget = c.currentPid) :
      Wakes c t q { (c.procs q).context with a0 := code }
  | irq {q irq : Nat} (owner : c.irqOwner irq = q) (receiver : (c.procs q).state = .blockedRecv) :
      Wakes c (.external irq) q { (c.procs q).context with a0 := BitVec.ofNat 64 irq, a1 := 0 }

/-- How a system call parks its caller. -/
inductive Parks (c : Core) : Process → Prop where
  | send (number : c.frame.a7.toNat = sysSendNo) (valid : isValidIpcTarget c.frame.a0.toNat c.currentPid = true)
      (busy : wantsFrom (c.procs c.frame.a0.toNat) c.currentPid = false) :
      Parks c { c.procs c.currentPid with
        ipcTarget := c.frame.a0.toNat, ipcValue := c.frame.a1, state := .blockedSend, context := c.frame.advance }
  | call (number : c.frame.a7.toNat = sysCallNo)
      (direct : ¬ (Platform.net = true ∧ c.frame.a0.toNat = NetServer.netServerPid))
      (valid : isValidIpcTarget c.frame.a0.toNat c.currentPid = true) :
      Parks c { c.procs c.currentPid with
        ipcTarget := c.frame.a0.toNat, ipcValue := c.frame.a1, ipcArg2 := c.frame.a2, ipcArg3 := c.frame.a3,
        state := .blockedCall, context := c.frame.advance }
  | receive (number : c.frame.a7.toNat = sysReceiveNo)
      (none : findSender c.procs c.currentPid c.frame.a0.toNat = none) :
      Parks c { c.procs c.currentPid with
        ipcTarget := c.frame.a0.toNat, state := .blockedRecv, context := c.frame.advance }
  | wait (number : c.frame.a7.toNat = sysWaitNo) (valid : isValidIpcTarget c.frame.a0.toNat c.currentPid = true)
      (child : (c.procs c.frame.a0.toNat).parent = c.currentPid)
      (alive : (c.procs c.frame.a0.toNat).state ≠ .free) :
      Parks c { c.procs c.currentPid with
        ipcTarget := c.frame.a0.toNat, state := .blockedWait, context := c.frame.advance }
  | net {op : NetOp} {socket bufVa bufLen : Nat} (number : c.frame.a7.toNat = sysCallNo)
      (server : c.frame.a0.toNat = NetServer.netServerPid) :
      Parks c { c.procs c.currentPid with
        netOp := op, netSocket := socket, netBufVa := bufVa, netBufLen := bufLen, state := .blockedNet,
        context := c.frame.advance }

/-- The state of a terminated slot. -/
def cleared (p : Process) (code : Word) : Process :=
  { p with
    state := .free, exitCode := code, irqNum := 0, netOp := .none, netSocket := 0, netBufVa := 0, netBufLen := 0 }

/-- What one trap does to slot `q`, before the scheduler acts. -/
inductive Change (c : Core) (t : Trap) (q : Nat) : Process → Prop where
  | stay (irqNum : Nat) (irqPending : Bool) :
      Change c t q { c.procs q with irqNum := irqNum, irqPending := irqPending }
  | wake {f : TrapFrame} (other : q ≠ c.currentPid) (cause : Wakes c t q f) :
      Change c t q { c.procs q with context := f, state := .ready }
  | netWake {v : Word} (blocked : (c.procs q).state = .blockedNet) (cause : t ≠ .ecall) :
      Change c t q { c.procs q with
        context := { (c.procs q).context with a0 := v }, netOp := .none, state := .ready }
  | park {p : Process} (own : q = c.currentPid) (call : t = .ecall) (cause : Parks c p) : Change c t q p
  | preempted (own : q = c.currentPid) (timer : t = .timer) (mode : c.inUser) :
      Change c t q { c.procs q with context := c.frame, state := .ready }
  | yielded {next : Nat} (own : q = c.currentPid) (call : t = .ecall) (number : c.frame.a7.toNat = sysYieldNo)
      (chosen : nextReady c.procs c.currentPid (maxProcs - 2) = some next) :
      Change c t q { c.procs q with context := c.frame.advance, state := .ready }
  | terminated {code : Word} (own : q = c.currentPid)
      (ends : (t = .ecall ∧ c.frame.a7.toNat = sysExitNo ∧ code = c.frame.a0) ∨
        ∃ cause, t = .fault cause ∧ code = BitVec.ofNat 64 (128 + cause)) :
      Change c t q (cleared (c.procs q) code)
  | spawned {satp entry sp : Word} (free : (c.procs q).state = .free) (call : t = .ecall)
      (number : c.frame.a7.toNat = sysSpawnNo) (range : 1 ≤ q ∧ q < maxProcs) :
      Change c t q (newProcess q c.currentPid satp entry sp)

/-- The frames an interrupted process can be resumed with directly. -/
inductive Resumes (c : Core) : Trap → TrapFrame → Prop where
  | interrupted {t : Trap} (cause : t ≠ .ecall) : Resumes c t c.frame
  | returned (v : Word) (yields : c.frame.a7.toNat = sysYieldNo → v = 0) :
      Resumes c .ecall { c.frame.advance with a0 := v }
  | received (number : c.frame.a7.toNat = sysReceiveNo) (v sender : Word) :
      Resumes c .ecall { c.frame.advance with a0 := v, a1 := sender }

/-- The scheduler's part of a trap, from the changed slots `mid`. -/
inductive Dispatch (c : Core) (t : Trap) (mid : Nat → Process) : Core → Prop where
  | resume {f : TrapFrame} {owners : Nat → Nat}
      (stays : (c.procs c.currentPid).state = .running → (mid c.currentPid).state = .running)
      (frame : Resumes c t f) : Dispatch c t mid { c with procs := mid, frame := f, irqOwner := owners }
  | switch {next : Nat} {f : TrapFrame} {owners : Nat → Nat} (ready : (mid next).state = .ready)
      (range : 1 ≤ next ∧ next < maxProcs) (left : (mid c.currentPid).state ≠ .running)
      (frame : f = (mid next).context ∨
        (t = .ecall ∧ c.frame.a7.toNat = sysYieldNo ∧ nextReady c.procs c.currentPid (maxProcs - 2) = some next ∧
          f = { (mid next).context with a0 := 0 })) :
      Dispatch c t mid
        { c with
          procs := Function.update mid next { mid next with state := .running }
          currentPid := next, satp := (mid next).satp, frame := f, irqOwner := owners }
  | idle {f : TrapFrame} {pid : Nat} {owners : Nat → Nat} (mode : f.spp = true)
      (left : (mid c.currentPid).state ≠ .running) (rest : pid = 0 ∨ (mid pid).state = .free) :
      Dispatch c t mid
        { c with procs := mid, currentPid := pid, satp := c.kernelSatp, frame := f, irqOwner := owners }

/-- A trap: each slot changes, then the scheduler acts. -/
def Traps (c : Core) (t : Trap) (c' : Core) : Prop :=
  ∃ mid : Nat → Process, (∀ q, Change c t q (mid q)) ∧ Dispatch c t mid c'

variable {c c' : Core} {t : Trap}

omit [Platform] in
theorem wantsFrom_state {p : Process} {sender : Nat} (wanted : wantsFrom p sender = true) : p.state = .blockedRecv := by
  rw [wantsFrom, Bool.and_eq_true, beq_iff_eq] at wanted
  exact wanted.1

/-- Only a process blocked in IPC or SYS_WAIT is woken by another's trap. -/
theorem Wakes.state {q : Nat} {f : TrapFrame} (cause : Wakes c t q f) :
    (c.procs q).state = .blockedSend ∨ (c.procs q).state = .blockedRecv ∨ (c.procs q).state = .blockedCall ∨
      (c.procs q).state = .blockedWait := by
  cases cause with
  | send _ _ wanted => exact Or.inr (Or.inl (wantsFrom_state wanted))
  | call _ _ _ wanted => exact Or.inr (Or.inl (wantsFrom_state wanted))
  | receive _ _ _ sender => exact Or.inl sender
  | reply _ _ caller _ => exact Or.inr (Or.inr (Or.inl caller))
  | exit _ waiter _ => exact Or.inr (Or.inr (Or.inr waiter))
  | irq _ receiver => exact Or.inr (Or.inl receiver)

theorem Wakes.not_free {q : Nat} {f : TrapFrame} (cause : Wakes c t q f) : (c.procs q).state ≠ .free := by
  rcases cause.state with state | state | state | state <;> rw [state] <;> nofun

theorem Wakes.not_ready {q : Nat} {f : TrapFrame} (cause : Wakes c t q f) : (c.procs q).state ≠ .ready := by
  rcases cause.state with state | state | state | state <;> rw [state] <;> nofun

theorem change_keep {q : Nat} : Change c t q (c.procs q) := .stay (c.procs q).irqNum (c.procs q).irqPending

theorem change_update {p : Process} {q₀ : Nat} (change : Change c t q₀ p) (q : Nat) :
    Change c t q (Function.update c.procs q₀ p q) := by
  by_cases own : q = q₀
  · subst own
    rw [Function.update_self]
    exact change
  · rw [Function.update_of_ne own]
    exact change_keep

theorem change_update₂ {p p' : Process} {q₀ q₁ : Nat} (first : Change c t q₀ p) (second : Change c t q₁ p') (q : Nat) :
    Change c t q (Function.update (Function.update c.procs q₀ p) q₁ p' q) := by
  by_cases own : q = q₁
  · subst own
    rw [Function.update_self]
    exact second
  · rw [Function.update_of_ne own]
    exact change_update first q

/-- A handler that answers at once, possibly after changing slots. -/
theorem traps_resume {mid : Nat → Process} {f : TrapFrame} {owners : Nat → Nat} (changes : ∀ q, Change c t q (mid q))
    (stays : (c.procs c.currentPid).state = .running → (mid c.currentPid).state = .running) (frame : Resumes c t f) :
    Traps c t { c with procs := mid, frame := f, irqOwner := owners } :=
  ⟨mid, changes, .resume stays frame⟩

theorem traps_answer (v : Word) (yields : c.frame.a7.toNat = sysYieldNo → v = 0) :
    Traps c .ecall (c.advance.setA0 v) :=
  traps_resume (fun _ => change_keep) id (.returned v yields)

omit [Platform] in
theorem not_yield {n : Nat} {v : Word} (number : c.frame.a7.toNat = n) (other : n ≠ sysYieldNo) :
    c.frame.a7.toNat = sysYieldNo → v = 0 := fun yields => absurd (number.symm.trans yields) other

theorem traps_load {mid : Nat → Process} {f : TrapFrame} {owners : Nat → Nat} {next : Nat}
    (changes : ∀ q, Change c t q (mid q)) (ready : (mid next).state = .ready ∧ 1 ≤ next ∧ next < maxProcs)
    (left : (mid c.currentPid).state ≠ .running) :
    Traps c t (load { c with procs := mid, frame := f, irqOwner := owners } next) :=
  ⟨mid, changes, .switch ready.1 ready.2 left (Or.inl rfl)⟩

/-- Between traps the current slot runs in user mode, or is unused while the kernel idles. -/
structure Settled (c : Core) : Prop where
  running : c.inUser → (c.procs c.currentPid).state = .running ∧ c.currentPid ≠ 0
  idle : c.frame.spp = true → (c.procs c.currentPid).state = .free

omit [Platform] in
theorem Settled.cases (settled : Settled c) :
    (c.procs c.currentPid).state = .running ∨ (c.procs c.currentPid).state = .free := by
  cases mode : c.frame.spp with
  | false => exact Or.inl (settled.running mode).1
  | true => exact Or.inr (settled.idle mode)

theorem idle_spp (f : TrapFrame) : ({ f with sstatus := 0x120, sepc := Platform.kernelIdle } : TrapFrame).spp = true := by
  change BitVec.getLsbD 0x120#64 8 = true
  decide

theorem traps_idle {mid : Nat → Process} {f : TrapFrame} {owners : Nat → Nat}
    (changes : ∀ q, Change c t q (mid q)) (left : (mid c.currentPid).state ≠ .running) :
    Traps c t (enterIdle { c with procs := mid, frame := f, irqOwner := owners }) :=
  ⟨mid, changes, .idle (idle_spp f) left (Or.inl rfl)⟩

/-- A blocking handler: `schedule` saves the caller's registers and dispatches. -/
theorem traps_schedule {procs : Nat → Process} {f : TrapFrame}
    (changes : ∀ q, Change c t q (Function.update procs c.currentPid { procs c.currentPid with context := f } q))
    (left : (procs c.currentPid).state ≠ .running)
    (h : schedule { c with procs := procs, frame := f } c.currentPid = .ok c') : Traps c t c' := by
  have left' : (Function.update procs c.currentPid { procs c.currentPid with context := f } c.currentPid).state ≠
      .running := by
    rw [Function.update_self]
    exact left
  rcases schedule_ok h with ⟨next, found, rfl⟩ | ⟨-, rfl⟩
  · exact traps_load changes (nextReady_some found) left'
  · exact traps_idle changes left'

end GooseOs.Slot
