import GooseOs.Kernel.Boot
import GooseOs.Lib.Run

/-!
The machine: user execution, the idle loop, frame arrival and traps, in any order. A user program makes any calls
and stores wherever its table lets it, except that a store to the kernel's statics, which a table can show it once it
has been tampered with, has no effect here. A run starts where the boot path enters PID 1.
-/

namespace GooseOs
variable [Platform]

/-- A byte user mode may store to: the process's table maps it with U and W. -/
def UserWritable (k : Kernel) (pa : Nat) : Prop :=
  ∃ va w, translate k.vm.mem k.satp va = some w ∧ w.flags.contains .user = true ∧
    w.flags.contains .write = true ∧ w.phys = pa

inductive Label where
  | user
  | idle
  | frame
  | trap (t : Trap)
  deriving DecidableEq, Inhabited

/-- One step of the machine. A trap whose handler halts has no step. -/
inductive Step : Kernel → Label → Kernel → Prop where
  /-- A user program runs: any registers, and stores where its table lets it store. -/
  | user {k : Kernel} {f : TrapFrame} {m : Memory} (mode : k.inUser) (after : f.spp = false)
      (stores : ∀ pa, m pa ≠ k.vm.mem pa → UserWritable k pa) :
      Step k .user { k with frame := f, vm := { k.vm with mem := m } }
  /-- The idle loop, or the loop after the last process has exited, runs in S-mode. -/
  | idle {k : Kernel} {f : TrapFrame} (mode : k.frame.spp = true) (after : f.spp = true) :
      Step k .idle { k with frame := f }
  /-- The device puts a frame into the receive ring. -/
  | frame {k : Kernel} {n : Net} {bytes : List Byte} (up : k.net = some n) :
      Step k .frame { k with net := some { n with rx := n.rx ++ [bytes] } }
  | timer {k k' : Kernel} (handled : Trap.trapHandler k .timer = .ok k') : Step k (.trap .timer) k'
  /-- The PLIC hands out an enabled interrupt, or 0. -/
  | external {k k' : Kernel} {irq : Nat} (raised : irq = 0 ∨ k.plic.enabled irq = true)
      (handled : Trap.trapHandler k (.external irq) = .ok k') : Step k (.trap (.external irq)) k'
  | unhandled {k k' : Kernel} {code : Nat} (handled : Trap.trapHandler k (.unhandled code) = .ok k') :
      Step k (.trap (.unhandled code)) k'
  /-- `ecall` traps with this cause from user mode only. -/
  | ecall {k k' : Kernel} (mode : k.inUser) (handled : Trap.trapHandler k .ecall = .ok k') :
      Step k (.trap .ecall) k'
  | fault {k k' : Kernel} {code : Nat} (handled : Trap.trapHandler k (.fault code) = .ok k') :
      Step k (.trap (.fault code)) k'

/-- The step may end the running process: a SYS_EXIT or a fault. -/
def Label.mayEnd (k : Kernel) : Label → Bool
  | .trap .ecall => k.frame.a7.toNat == Trap.sysExitNo
  | .trap (.fault _) => true
  | _ => false

/-- A run of the machine from boot. -/
abbrev MachineRun := Run Boot.Booted Step

namespace MachineRun

/-- Step `n` is system call `number` by process `p`. -/
structure CallAt (r : MachineRun) (n number p : Nat) : Prop where
  bound : n < r.len
  label : r.label n = .trap .ecall
  number : (r.state n).frame.a7.toNat = number
  caller : (r.state n).currentPid = p

/-- Slot `p` holds the same process from state `m` to state `n`: it is never free there. -/
def Alive (r : MachineRun) (p m n : Nat) : Prop :=
  ∀ i, m ≤ i → i ≤ n → ((r.state i).procs p).state ≠ .free

variable {r : MachineRun} {n number number' p q : Nat}

theorem CallAt.number_eq (call : r.CallAt n number p) (call' : r.CallAt n number' q) : number = number' ∧ p = q :=
  ⟨call.number.symm.trans call'.number, call.caller.symm.trans call'.caller⟩

theorem Alive.trans {m i : Nat} (first : r.Alive p m i) (second : r.Alive p i n) : r.Alive p m n :=
  fun j lower upper => (Nat.le_total j i).elim (first j lower) fun above => second j above upper

theorem CallAt.user (call : r.CallAt n number p) : (r.state n).inUser := by
  have step := r.steps n call.bound
  rw [call.label] at step
  cases step with
  | ecall mode => exact mode

/-- Where a run makes a system call, from a look at its steps. -/
theorem CallAt.among {P : Nat → Prop} (call : r.CallAt n number p)
    (checked : ∀ i < r.len, r.label i = .trap .ecall ∧ (r.state i).frame.a7.toNat = number → P i) : P n :=
  checked n call.bound ⟨call.label, call.number⟩

end MachineRun

end GooseOs
