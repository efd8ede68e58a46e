import GooseOs.Kernel.Platform
import Mathlib.Data.List.Find

/-!
`sched.rs`: process selection and context switching.
-/

namespace GooseOs.Sched

/-- The first `Ready` slot in the round-robin order after `start`, over `count` offsets. -/
def nextReady (procs : Nat → Process) (start count : Nat) : Option Nat :=
  ((List.range' 1 count).map fun offset => (start - 1 + offset) % (maxProcs - 1) + 1).find?
    fun i => (procs i).state == .ready

/-- The first `Ready` slot from PID 1 up. -/
def firstReady (procs : Nat → Process) : Option Nat := pids.find? fun i => (procs i).state == .ready

def anyAlive (procs : Nat → Process) : Bool := pids.any fun i => (procs i).state != .free

/-- Load a process: its context becomes the frame, its slot `Running`, its table current. -/
def load (c : Core) (next : Nat) : Core :=
  { c with
    frame := (c.procs next).context
    procs := Function.update c.procs next { c.procs next with state := .running }
    currentPid := next
    satp := (c.procs next).satp }

theorem nextReady_some {procs : Nat → Process} {start count next : Nat}
    (h : nextReady procs start count = some next) : (procs next).state = .ready ∧ 1 ≤ next ∧ next < maxProcs := by
  have ready := List.find?_some h
  obtain ⟨offset, -, rfl⟩ := List.mem_map.mp (List.mem_of_find?_eq_some h)
  refine ⟨by simpa using ready, by omega, ?_⟩
  simp only [maxProcs]
  omega

theorem firstReady_some {procs : Nat → Process} {next : Nat} (h : firstReady procs = some next) :
    (procs next).state = .ready ∧ 1 ≤ next ∧ next < maxProcs := by
  have ready := List.find?_some h
  exact ⟨by simpa using ready, mem_pids.mp (List.mem_of_find?_eq_some h)⟩

theorem firstReady_none {procs : Nat → Process} (h : firstReady procs = none) {i : Nat} (low : 1 ≤ i)
    (high : i < maxProcs) : (procs i).state ≠ .ready := by
  have none := List.find?_eq_none.mp h i (mem_pids.mpr ⟨low, high⟩)
  simpa using none

/-- The short round skips the caller, so its own slot does not matter. -/
theorem nextReady_congr {procs procs' : Nat → Process} {start : Nat} (range : 1 ≤ start ∧ start < maxProcs)
    (same : ∀ q, q ≠ start → (procs' q).state = (procs q).state) :
    nextReady procs' start (maxProcs - 2) = nextReady procs start (maxProcs - 2) := by
  refine List.find?_congr fun q member => ?_
  obtain ⟨offset, inside, rfl⟩ := List.mem_map.mp member
  obtain ⟨low, high⟩ := List.mem_range'_1.mp inside
  rw [same]
  simp only [maxProcs] at *
  omega

/-- The full round of `schedule` extends the short one of `sys_yield` and `preempt`. -/
theorem nextReady_full {procs : Nat → Process} {start next : Nat}
    (found : nextReady procs start (maxProcs - 2) = some next) : nextReady procs start (maxProcs - 1) = some next := by
  unfold nextReady at found ⊢
  have round : List.range' 1 (maxProcs - 1) = List.range' 1 (maxProcs - 2) ++ [maxProcs - 1] := by decide
  rw [round, List.map_append, List.find?_append, found]
  rfl

variable [Platform]

/-- Leave the frame describing the kernel's idle loop, in S-mode on the kernel's table. -/
def enterIdle (c : Core) : Core :=
  { c with
    currentPid := 0
    satp := c.kernelSatp
    frame := { c.frame with sstatus := 0x120, sepc := Platform.kernelIdle } }

@[simp] theorem enterIdle_procs (c : Core) : (enterIdle c).procs = c.procs := rfl
@[simp] theorem enterIdle_kernelSatp (c : Core) : (enterIdle c).kernelSatp = c.kernelSatp := rfl

/-- Save the caller's context and switch to the next ready process, or idle. -/
def schedule (c : Core) (blockedPid : Nat) : Result Core :=
  let c := c.modify blockedPid fun p => { p with context := c.frame }
  match nextReady c.procs blockedPid (maxProcs - 1) with
  | some next => .ok (load c next)
  | none => if anyAlive c.procs then .ok (enterIdle c) else .error .deadlock

/-- SYS_YIELD. The last line of the source writes `frame.a0` after the switch. -/
def sysYield (c : Core) : Result Core :=
  let c := c.advance
  let current := c.currentPid
  if current = 0 then .ok c
  else match nextReady c.procs current (maxProcs - 2) with
    | none => .ok (c.setA0 0)
    | some _ => do
      let c ← schedule (c.modify current fun p => { p with state := .ready }) current
      return c.setA0 0

/-- Timer preemption of the running process. -/
def preempt (c : Core) : Core :=
  let current := c.currentPid
  if current = 0 then c
  else match nextReady c.procs current (maxProcs - 2) with
    | none => c
    | some next =>
      load (c.modify current fun p => { p with context := c.frame, state := .ready }) next

/-- Leave the idle loop for the first ready process, if there is one. -/
def scheduleFromIdle (c : Core) : Core :=
  match firstReady c.procs with
  | none => c
  | some next => load c next

/-- `schedule` loads a ready process or leaves the machine idle. -/
theorem schedule_ok {c c' : Core} {blockedPid : Nat} (h : schedule c blockedPid = .ok c') :
    let saved := c.modify blockedPid fun p => { p with context := c.frame }
    (∃ next, nextReady saved.procs blockedPid (maxProcs - 1) = some next ∧ c' = load saved next) ∨
      (nextReady saved.procs blockedPid (maxProcs - 1) = none ∧ c' = enterIdle saved) := by
  unfold schedule at h
  dsimp only at h ⊢
  split at h
  · rename_i next found
    cases h
    exact Or.inl ⟨next, found, rfl⟩
  · rename_i none
    split at h
    · cases h
      exact Or.inr ⟨none, rfl⟩
    · cases h

end GooseOs.Sched
