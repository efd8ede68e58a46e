import GooseOs.Kernel.Ipc

/-!
`lifecycle.rs`: exit, fault-kill and wait. `sys_exit` and `kill_current` are two copies of one
cleanup; the shared part is `reap`, and each keeps its own ending.
-/

namespace GooseOs.Lifecycle
open Security Sched
variable [Platform]

/-- Clear a terminated slot and release its interrupt. -/
def clearSlot (c : Core) (current : Nat) (exitCode : Word) : Core :=
  let irq := (c.procs current).irqNum
  let owners :=
    if irq ≠ 0 ∧ isValidIrq irq then Function.update c.irqOwner irq 0 else c.irqOwner
  { c.modify current fun p =>
      { p with
        state := .free
        exitCode := exitCode
        irqNum := 0
        netOp := .none
        netSocket := 0
        netBufVa := 0
        netBufLen := 0 } with
    irqOwner := owners }

/-- The first process blocked in SYS_WAIT on `current`. -/
def findWaiter (procs : Nat → Process) (current : Nat) : Option Nat :=
  pids.find? fun i => (procs i).state == .blockedWait && (procs i).ipcTarget == current

/-- Deliver the exit code to a waiting parent. -/
def wakeParent (c : Core) (current : Nat) (exitCode : Word) : Core :=
  match findWaiter c.procs current with
  | none => c
  | some i =>
    c.modify i fun p => { p with context := { p.context with a0 := exitCode }, state := .ready }

/-- The cleanup common to `sys_exit` and `kill_current`. -/
def reap (c : Core) (current : Nat) (exitCode : Word) : Core :=
  wakeParent (clearSlot c current exitCode) current exitCode

/-- SYS_EXIT(code). When every process has finished, CURRENT_PID keeps its value. -/
def sysExit (c : Core) : Core :=
  let current := c.currentPid
  let c := reap c current c.frame.a0
  match firstReady c.procs with
  | some next => load c next
  | none =>
    if anyAlive c.procs then enterIdle c
    else
      { c with
        satp := c.kernelSatp
        frame := { c.frame with
          sstatus := c.frame.sstatus ||| 0x100 ||| 0x20
          sepc := Platform.postProcessExit } }

/-- Termination of the running process by a fault. -/
def killCurrent (c : Core) (exitCode : Word) : Result Core :=
  let current := c.currentPid
  if current = 0 then .error .noProcessToKill
  else
    let c := reap c current exitCode
    match firstReady c.procs with
    | some next => .ok (load c next)
    | none =>
      if anyAlive c.procs then .ok (enterIdle c)
      else
        .ok { c with
          satp := c.kernelSatp
          currentPid := 0
          frame := { c.frame with sstatus := 0x120, sepc := Platform.postProcessExit } }

/-- SYS_WAIT(child): the stored code of an exited child, or block until it exits. -/
def sysWait (c : Core) : Result Core :=
  let c := c.advance
  let current := c.currentPid
  let childPid := c.frame.a0.toNat
  if !isValidIpcTarget childPid current then .ok (c.setA0 usizeMax)
  else if (c.procs childPid).parent ≠ current then .ok (c.setA0 usizeMax)
  else if (c.procs childPid).state = .free then .ok (c.setA0 (c.procs childPid).exitCode)
  else
    let c := c.modify current fun p => { p with ipcTarget := childPid, state := .blockedWait }
    schedule c current

end GooseOs.Lifecycle
