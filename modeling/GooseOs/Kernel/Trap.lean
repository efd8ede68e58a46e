import GooseOs.Kernel.Syscall
import GooseOs.Kernel.Net

/-!
`trap.rs` and `handlers.rs`: system-call dispatch, the interrupt handlers and the trap handler.
-/

namespace GooseOs
namespace Trap
open Sched Ipc Lifecycle Syscall NetServer
variable [Platform]

/-! ### System-call numbers (`abi.rs`) -/

abbrev sysPutcharNo : Nat := 0
abbrev sysExitNo : Nat := 1
abbrev sysSendNo : Nat := 2
abbrev sysReceiveNo : Nat := 3
abbrev sysCallNo : Nat := 4
abbrev sysReplyNo : Nat := 5
abbrev sysMapNo : Nat := 6
abbrev sysUnmapNo : Nat := 7
abbrev sysAllocPagesNo : Nat := 8
abbrev sysFreePagesNo : Nat := 9
abbrev sysSpawnNo : Nat := 10
abbrev sysWaitNo : Nat := 11
abbrev sysGetpidNo : Nat := 12
abbrev sysYieldNo : Nat := 13
abbrev sysIrqRegisterNo : Nat := 14
abbrev sysIrqAckNo : Nat := 15
abbrev sysRebootNo : Nat := 16

/-- `handlers::sys_putchar`; the console is not part of the state. -/
def sysPutchar (k : Kernel) : Kernel := (k.setA0 0).advance

/-- `process::sys_getpid`. -/
def sysGetpid (k : Kernel) : Kernel := k.advance.setA0 (BitVec.ofNat 64 k.currentPid)

/-- `handlers::sys_unknown`. -/
def sysUnknown (k : Kernel) : Kernel := (k.setA0 usizeMax).advance

/-- `handlers::sys_call`: SYS_CALL with the network-server intercept. -/
def sysCallEntry (k : Kernel) : Result Kernel :=
  if Platform.net ∧ k.frame.a0.toNat = netServerPid then handleRequest k else k.onCore Ipc.sysCall

/-- `handle_ecall`: the dispatch table. -/
def handleEcall (k : Kernel) : Result Kernel :=
  match k.frame.a7.toNat with
  | 0 => .ok (sysPutchar k)
  | 1 => .ok { k with toCore := sysExit k.toCore }
  | 2 => k.onCore sysSend
  | 3 => k.onCore sysReceive
  | 4 => sysCallEntry k
  | 5 => k.onCore sysReply
  | 6 => sysMap k
  | 7 => sysUnmap k
  | 8 => sysAllocPages k
  | 9 => sysFreePages k
  | 10 => sysSpawn k
  | 11 => k.onCore sysWait
  | 12 => .ok (sysGetpid k)
  | 13 => k.onCore sysYield
  | 14 => .ok (sysIrqRegister k)
  | 15 => .ok (sysIrqAck k)
  | 16 => .error .reset
  | _ => .ok (sysUnknown k)

/-- The network poll of `handle_timer`, every tenth tick. -/
def timerPoll (k : Kernel) : Result Kernel :=
  match k.net with
  | some n => if k.ticks.toNat % 10 = 0 then pollAndWake k n else .ok k
  | none => .ok k

/-- `handle_timer`: count, poll the network, then preempt or leave idle. -/
def handleTimer (k : Kernel) : Result Kernel := do
  let k ← timerPoll { k with ticks := k.ticks + 1 }
  if !k.frame.spp then return { k with toCore := preempt k.toCore }
  else return { k with toCore := scheduleFromIdle k.toCore }

/-- `handle_external` after the PLIC handed out `irq`; 0 is a spurious claim. -/
def handleExternal (k : Kernel) (irq : Nat) : Result Kernel :=
  if irq = 0 then .ok k
  else
    let k := { k with plic := k.plic.claim irq }
    let owner := irqOwner k irq
    if owner ≠ 0 then
      let c := irqNotify k.toCore irq owner
      if k.frame.spp then .ok { k with toCore := scheduleFromIdle c } else .ok { k with toCore := c }
    else if irq = uart0Irq then .ok { k with plic := k.plic.complete irq }
    else match k.net with
      | some n =>
        if irq = n.virtioIrq then do
          let k ← pollAndWake k n
          return { k with plic := k.plic.complete irq }
        else .ok { k with plic := k.plic.complete irq }
      | none => .ok { k with plic := k.plic.complete irq }

end Trap

/-- The causes of a trap: `scause`, with the interrupt the PLIC hands out for an external one. -/
inductive Trap where
  | timer
  | external (irq : Nat)
  | unhandled (code : Nat)
  | ecall
  | fault (code : Nat)
  deriving DecidableEq

namespace Trap
variable [Platform]

/-- `trap_handler`: what one trap does to the kernel, or why the machine stops. -/
def trapHandler (k : Kernel) : Trap → Result Kernel
  | .timer => handleTimer k
  | .external irq => handleExternal k irq
  | .unhandled _ => .ok k
  | .ecall => handleEcall k
  | .fault code =>
    if !k.frame.spp then k.onCore fun c => Lifecycle.killCurrent c (BitVec.ofNat 64 (128 + code))
    else .error .kernelException

end Trap
end GooseOs
