import GooseOs.Kernel.Lifecycle
import GooseOs.Kernel.Kvm

/-!
The whole kernel state: the process-level core with physical memory, the tick counter, the PLIC
and the network stack. Kernel statics are fields here, not bytes of `Memory`: what a user program stores to their
addresses does not reach them.
-/

namespace GooseOs

/-- The PLIC: enable bits, and the interrupts claimed and not yet completed. -/
structure Plic where
  enabled : Nat → Bool
  claimed : Nat → Bool

namespace Plic

def enableIrq (p : Plic) (irq : Nat) : Plic := { p with enabled := Function.update p.enabled irq true }

def claim (p : Plic) (irq : Nat) : Plic := { p with claimed := Function.update p.claimed irq true }

/-- Completion of an interrupt that is not enabled is ignored by the device. -/
def complete (p : Plic) (irq : Nat) : Plic :=
  if p.enabled irq then { p with claimed := Function.update p.claimed irq false } else p

end Plic

/-- The globals of `net.rs` and `virtio.rs`, present once both are initialised. -/
structure Net [Smoltcp] where
  stack : Smoltcp.Stack
  tcpHandles : Nat → Option Nat
  udpHandles : Nat → Option Nat
  tcpAllocCount : Nat
  udpAllocCount : Nat
  /-- Frames in the receive ring. -/
  rx : List (List Byte)
  virtioIrq : Nat

structure Kernel [Platform] extends Core where
  vm : Vm
  ticks : Word
  plic : Plic
  net : Option Net

namespace Kernel
variable [Platform]

def advance (k : Kernel) : Kernel := { k with frame := k.frame.advance }

def setA0 (k : Kernel) (v : Word) : Kernel := { k with frame := { k.frame with a0 := v } }

/-- Run a process-level handler. -/
def onCore (f : Core → Result Core) (k : Kernel) : Result Kernel := do
  let c ← f k.toCore
  return { k with toCore := c }

/-- The running process. -/
def current (k : Kernel) : Process := k.procs k.currentPid

end Kernel

/-- Hardware translation: a canonical address, then the page walk. The kernel builds 4K leaves
only, so the walker's rejection of superpages is not felt. -/
def translate (m : Memory) (satp : Word) (va : Nat) : Option WalkResult :=
  if va < 2 ^ 38 ∨ 2 ^ 64 - 2 ^ 38 ≤ va ∧ va < 2 ^ 64 then walk (satpToRoot satp) va m.read64 else none

end GooseOs
