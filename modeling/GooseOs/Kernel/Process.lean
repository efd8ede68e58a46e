import GooseOs.Kernel.Security
import Mathlib.Logic.Function.Basic
import Mathlib.Data.List.Basic

/-!
`trap.rs::TrapFrame` and `process.rs`: the register frame, the process control block and the
process-level part of the kernel's globals. `Core` holds what the scheduler and the IPC
handlers can reach; memory, the PLIC and the network stack live in `Kernel`.
-/

namespace GooseOs

/-- The saved register file: 31 general registers, `sstatus` and `sepc`. -/
structure TrapFrame where
  ra : Word := 0
  sp : Word := 0
  gp : Word := 0
  tp : Word := 0
  t0 : Word := 0
  t1 : Word := 0
  t2 : Word := 0
  s0 : Word := 0
  s1 : Word := 0
  a0 : Word := 0
  a1 : Word := 0
  a2 : Word := 0
  a3 : Word := 0
  a4 : Word := 0
  a5 : Word := 0
  a6 : Word := 0
  a7 : Word := 0
  s2 : Word := 0
  s3 : Word := 0
  s4 : Word := 0
  s5 : Word := 0
  s6 : Word := 0
  s7 : Word := 0
  s8 : Word := 0
  s9 : Word := 0
  s10 : Word := 0
  s11 : Word := 0
  t3 : Word := 0
  t4 : Word := 0
  t5 : Word := 0
  t6 : Word := 0
  sstatus : Word := 0
  sepc : Word := 0
  deriving DecidableEq

namespace TrapFrame

/-- `TrapFrame::zero()`. -/
def zero : TrapFrame := {}

/-- `sstatus.SPP` (bit 8): set when the trap came from, or returns to, S-mode. -/
def spp (f : TrapFrame) : Bool := f.sstatus.getLsbD 8

/-- `frame.sepc += 4`. -/
def advance (f : TrapFrame) : TrapFrame := { f with sepc := f.sepc + 4 }

@[simp] theorem advance_a0 (f : TrapFrame) : f.advance.a0 = f.a0 := rfl
@[simp] theorem advance_a1 (f : TrapFrame) : f.advance.a1 = f.a1 := rfl
@[simp] theorem advance_a2 (f : TrapFrame) : f.advance.a2 = f.a2 := rfl
@[simp] theorem advance_a3 (f : TrapFrame) : f.advance.a3 = f.a3 := rfl
@[simp] theorem advance_spp (f : TrapFrame) : f.advance.spp = f.spp := rfl

end TrapFrame

inductive ProcessState where
  | free | ready | running | blockedSend | blockedRecv | blockedCall | blockedWait | blockedNet
  deriving DecidableEq

inductive NetOp where
  | none | recv | connect
  deriving DecidableEq

/-- The process control block; `Process::empty()` is the default value. -/
structure Process where
  pid : Nat := 0
  state : ProcessState := .free
  satp : Word := 0
  context : TrapFrame := .zero
  ipcTarget : Nat := 0
  ipcValue : Word := 0
  ipcArg2 : Word := 0
  ipcArg3 : Word := 0
  parent : Nat := 0
  exitCode : Word := 0
  irqNum : Nat := 0
  irqPending : Bool := false
  netOp : NetOp := .none
  netSocket : Nat := 0
  netBufVa : Nat := 0
  netBufLen : Nat := 0
  deriving DecidableEq

/-- Why a trap handler does not return. -/
inductive Halt where
  | deadlock
  | noProcessToKill
  | kernelException
  | outOfMemory
  | branchExpected
  | sliceOutOfRange
  | bootFailed
  | reset
  deriving DecidableEq

/-- A handler returns a new state, or the machine stops. -/
abbrev Result := Except Halt

theorem bind_ok {ε α β : Type} {x : Except ε α} {f : α → Except ε β} {b : β} (h : x >>= f = .ok b) :
    ∃ a, x = .ok a ∧ f a = .ok b := by
  cases x with
  | error e => cases h
  | ok a => exact ⟨a, rfl, h⟩

theorem map_ok {ε α β : Type} {x : Except ε α} {f : α → β} {b : β} (h : x.map f = .ok b) : ∃ a, x = .ok a ∧ b = f a := by
  cases x with
  | error e => cases h
  | ok a =>
    cases h
    exact ⟨a, rfl, rfl⟩

theorem error_bind {ε α β : Type} {e : ε} {f : α → Except ε β} : ((.error e : Except ε α) >>= f) = .error e := rfl

theorem ok_bind {ε α β : Type} {a : α} {f : α → Except ε β} : ((.ok a : Except ε α) >>= f) = f a := rfl

/-- The process-level globals (`PROCS`, `CURRENT_PID`, `IRQ_OWNER`, `KERNEL_SATP`), the trap
frame on the kernel stack and the `satp` register. Between traps `frame` is the register file
of whoever runs: a process in U-mode or the kernel's idle loop in S-mode. -/
structure Core where
  procs : Nat → Process
  currentPid : Nat
  irqOwner : Nat → Nat
  frame : TrapFrame
  satp : Word
  kernelSatp : Word

/-- The process slots `1..MAX_PROCS`, in scan order. -/
def pids : List Nat := List.range' 1 (maxProcs - 1)

namespace Core

/-- Update one slot of the process table. -/
def modify (c : Core) (pid : Nat) (f : Process → Process) : Core :=
  { c with procs := Function.update c.procs pid (f (c.procs pid)) }

/-- Advance `sepc` past the `ecall`. -/
def advance (c : Core) : Core := { c with frame := c.frame.advance }

/-- Write the result register of the interrupted process. -/
def setA0 (c : Core) (v : Word) : Core := { c with frame := { c.frame with a0 := v } }

section Frame
variable (c : Core) (pid : Nat) (f : Process → Process) (v : Word)

@[simp] theorem modify_procs : (c.modify pid f).procs = Function.update c.procs pid (f (c.procs pid)) := rfl
@[simp] theorem modify_frame : (c.modify pid f).frame = c.frame := rfl
@[simp] theorem modify_currentPid : (c.modify pid f).currentPid = c.currentPid := rfl
@[simp] theorem advance_procs : c.advance.procs = c.procs := rfl
@[simp] theorem advance_frame : c.advance.frame = c.frame.advance := rfl
@[simp] theorem advance_currentPid : c.advance.currentPid = c.currentPid := rfl
@[simp] theorem setA0_procs : (c.setA0 v).procs = c.procs := rfl
@[simp] theorem setA0_currentPid : (c.setA0 v).currentPid = c.currentPid := rfl

end Frame

/-- The machine is in user mode between traps. -/
def inUser (c : Core) : Prop := c.frame.spp = false

/-- `process::current_satp`. -/
def currentSatp (c : Core) : Word := if c.currentPid = 0 then 0 else (c.procs c.currentPid).satp

end Core

theorem mem_pids {i : Nat} : i ∈ pids ↔ 1 ≤ i ∧ i < maxProcs := by
  simp [pids, maxProcs, List.mem_range'_1]

end GooseOs
