import GooseOs.Process.Consistency
import GooseOs.Machine.Reference
import GooseOs.Memory.Images

/-!
What the scheduler guarantees at every trap exit: one running slot with its own table in user mode,
or the idle loop on the kernel's table. A process that blocks leaves its slot used, so `schedule`
always finds somebody alive; and a fault in user mode always has a process to kill.
-/

namespace GooseOs
open Slot Sched Ipc Lifecycle Syscall NetServer Trap Security Kvm

section Handlers
variable [Platform] {c : Core} {k : Kernel} {pid : Nat}

omit [Platform] in
theorem loadByte_calm (satp : Word) (m : Memory) (va : Word) : Calm (loadByte satp m va) := by
  unfold loadByte
  split
  · split
    · exact calm_ok _
    · exact calm_error nofun nofun
  · exact calm_error nofun nofun

theorem sysSpawn_calm : Calm (sysSpawn k) := by
  unfold sysSpawn
  dsimp only
  split
  · exact calm_ok _
  refine calm_bind (Elf.parse_calm fun off => loadByte_calm _ _ _) fun parsed _ => ?_
  split
  · exact calm_ok _
  split
  · exact calm_ok _
  · exact calm_bind (loadElf_calm fun m off => loadByte_calm _ _ _) fun _ _ => calm_ok _

theorem sysMap_calm : Calm (sysMap k) := by
  by_cases passes : MapPasses k
  · rw [sysMap_passes passes]
    exact calm_map mapPage_calm
  · rw [sysMap_refuses passes]
    exact calm_ok _

/-! ### Rescheduling -/

/-- A process that leaves its slot used can always be switched away from. -/
theorem schedule_returns (pid : Nat) (range : 1 ≤ pid ∧ pid < maxProcs) (live : (c.procs pid).state ≠ .free) :
    ∃ c', schedule c pid = .ok c' := by
  unfold schedule
  dsimp only
  split
  · exact ⟨_, rfl⟩
  · have alive : anyAlive (c.modify pid fun p => { p with context := c.frame }).procs = true := by
      refine List.any_eq_true.mpr ⟨pid, mem_pids.mpr range, ?_⟩
      simpa using live
    rw [if_pos alive]
    exact ⟨_, rfl⟩

variable (range : 1 ≤ c.currentPid ∧ c.currentPid < maxProcs)
include range

theorem sysSend_returns : ∃ c', sysSend c = .ok c' := by
  unfold sysSend
  dsimp only
  split
  · exact ⟨_, rfl⟩
  split
  · exact ⟨_, rfl⟩
  · exact schedule_returns _ range (by simp)

theorem sysCall_returns : ∃ c', Ipc.sysCall c = .ok c' := by
  unfold Ipc.sysCall
  dsimp only
  split
  · exact ⟨_, rfl⟩
  · exact schedule_returns _ range (by simp)

theorem sysReceive_returns : ∃ c', sysReceive c = .ok c' := by
  unfold sysReceive
  dsimp only
  split
  · exact ⟨_, rfl⟩
  split
  · exact ⟨_, rfl⟩
  · exact schedule_returns _ range (by simp)

theorem sysWait_returns : ∃ c', sysWait c = .ok c' := by
  unfold sysWait
  dsimp only
  split
  · exact ⟨_, rfl⟩
  split
  · exact ⟨_, rfl⟩
  split
  · exact ⟨_, rfl⟩
  · exact schedule_returns _ range (by simp)

theorem sysYield_returns : ∃ c', sysYield c = .ok c' := by
  unfold sysYield
  dsimp only
  split
  · exact ⟨_, rfl⟩
  split
  · exact ⟨_, rfl⟩
  · obtain ⟨c', scheduled⟩ := schedule_returns
      (c := c.advance.modify c.advance.currentPid fun p => { p with state := .ready }) c.advance.currentPid range (by simp)
    rw [scheduled]
    exact ⟨_, rfl⟩

omit range [Platform] in
theorem sysReply_returns : ∃ c', sysReply c = .ok c' := by
  unfold sysReply
  dsimp only
  split
  · exact ⟨_, rfl⟩
  split <;> exact ⟨_, rfl⟩

end Handlers

section Network
variable [Platform] {k : Kernel} {n : Net} {pid : Nat}

theorem wakeOne_calm : Calm (wakeOne k pid) := by
  have turned := wakeOne_turned k pid
  generalize wakeOne k pid = result at turned
  cases turned with
  | left => exact calm_ok _
  | ended => exact calm_ok _
  | delivered => exact calm_ok _
  | panicked => exact calm_error nofun nofun

theorem wakeAll_calm {pids : List Nat} : Calm (pids.foldlM wakeOne k) := by
  induction pids generalizing k with
  | nil => exact calm_ok _
  | cons pid rest ih =>
    rw [List.foldlM_cons]
    exact calm_bind wakeOne_calm fun _ _ => ih

theorem pollAndWake_calm : Calm (pollAndWake k n) := wakeAll_calm

variable (range : 1 ≤ k.currentPid ∧ k.currentPid < maxProcs)
include range

theorem park_returns {op : NetOp} {socket bufVa bufLen : Nat} : ∃ result, park k op socket bufVa bufLen = .ok result := by
  unfold park Kernel.onCore
  obtain ⟨c', scheduled⟩ := schedule_returns k.currentPid
    (c := k.toCore.modify k.currentPid fun p =>
      { p with netOp := op, netSocket := socket, netBufVa := bufVa, netBufLen := bufLen, state := .blockedNet })
    range (by simp)
  dsimp only
  rw [scheduled]
  exact ⟨_, rfl⟩

theorem dispatch_returns : ∃ result, NetServer.dispatch k n = .ok result := by
  have result := dispatch_dispatched k n
  generalize NetServer.dispatch k n = r at result
  cases result with
  | answered => exact ⟨_, rfl⟩
  | delivered => exact ⟨_, rfl⟩
  | parked =>
    apply park_returns
    exact range

theorem handleRequest_returns : ∃ k', handleRequest k = .ok k' := by
  unfold handleRequest
  dsimp only
  split
  · exact ⟨_, rfl⟩
  · rename_i n up
    obtain ⟨⟨k', outcome⟩, dispatched⟩ := dispatch_returns (k := k.advance) (n := n) range
    rw [dispatched]
    cases outcome <;> exact ⟨_, rfl⟩

end Network

/-! ### Every trap -/

section Traps
variable [Platform] {k : Kernel} {t : Trap}

theorem onCore_returns {f : Core → Result Core} (returns : ∃ c, f k.toCore = .ok c) : ∃ k', k.onCore f = .ok k' := by
  obtain ⟨c, same⟩ := returns
  rw [Kernel.onCore, same]
  exact ⟨_, rfl⟩

/-- The system calls that only the memory they ask for, or the reset they ask for, can stop. -/
theorem handleEcall_returns (range : 1 ≤ k.currentPid ∧ k.currentPid < maxProcs) (map : k.frame.a7.toNat ≠ sysMapNo)
    (spawn : k.frame.a7.toNat ≠ sysSpawnNo) (reboot : k.frame.a7.toNat ≠ sysRebootNo) :
    ∃ k', handleEcall k = .ok k' := by
  unfold handleEcall
  split
  · exact ⟨_, rfl⟩
  · exact ⟨_, rfl⟩
  · exact onCore_returns (sysSend_returns range)
  · exact onCore_returns (sysReceive_returns range)
  · unfold sysCallEntry
    split
    · exact handleRequest_returns range
    · exact onCore_returns (sysCall_returns range)
  · exact onCore_returns sysReply_returns
  · exact absurd ‹_› map
  · rcases sysUnmap_cases k with refused | ⟨-, v, -, done⟩
    · exact ⟨_, refused⟩
    · exact ⟨_, done⟩
  · rcases sysAllocPages_cases k with refused | ⟨-, phys, alloc, -, done⟩
    · exact ⟨_, refused⟩
    · exact ⟨_, done⟩
  · rcases sysFreePages_cases k with refused | ⟨-, alloc, -, done⟩
    · exact ⟨_, refused⟩
    · exact ⟨_, done⟩
  · exact absurd ‹_› spawn
  · exact onCore_returns (sysWait_returns range)
  · exact ⟨_, rfl⟩
  · exact onCore_returns (sysYield_returns range)
  · exact ⟨_, rfl⟩
  · exact ⟨_, rfl⟩
  · exact absurd ‹_› reboot
  · exact ⟨_, rfl⟩

theorem handleEcall_calm (range : 1 ≤ k.currentPid ∧ k.currentPid < maxProcs) : Calm (handleEcall k) := by
  by_cases map : k.frame.a7.toNat = sysMapNo
  · unfold handleEcall
    rw [map]
    exact sysMap_calm
  by_cases spawn : k.frame.a7.toNat = sysSpawnNo
  · unfold handleEcall
    rw [spawn]
    exact sysSpawn_calm
  by_cases reboot : k.frame.a7.toNat = sysRebootNo
  · unfold handleEcall
    rw [reboot]
    exact calm_error nofun nofun
  · obtain ⟨k', returned⟩ := handleEcall_returns range map spawn reboot
    rw [returned]
    exact calm_ok k'

theorem handleTimer_calm : Calm (handleTimer k) := by
  refine calm_bind ?_ fun _ _ => ?_
  · unfold timerPoll
    split
    · split
      · exact pollAndWake_calm
      · exact calm_ok _
    · exact calm_ok _
  · split <;> exact calm_ok _

theorem handleExternal_calm {irq : Nat} : Calm (handleExternal k irq) := by
  unfold handleExternal
  dsimp only
  split
  · exact calm_ok _
  split
  · split <;> exact calm_ok _
  split
  · exact calm_ok _
  split
  · split
    · exact calm_bind pollAndWake_calm fun _ _ => calm_ok _
    · exact calm_ok _
  · exact calm_ok _

/-- No trap reaches the panics of `schedule` and `kill_current`. -/
theorem trapHandler_calm (cons : Consistent k.toCore) (mode : t = .ecall → k.inUser) : Calm (trapHandler k t) := by
  cases t with
  | timer => exact handleTimer_calm
  | external irq => exact handleExternal_calm
  | unhandled code => exact calm_ok k
  | ecall => exact handleEcall_calm (cons.current_range (mode rfl))
  | fault code =>
    unfold trapHandler
    dsimp only
    split
    · rename_i user
      have range := cons.current_range (by simpa [Core.inUser] using user)
      refine calm_bind ?_ fun _ _ => calm_ok _
      unfold killCurrent
      dsimp only
      split
      · omega
      split
      · exact calm_ok _
      split <;> exact calm_ok _
    · exact calm_error (by decide) (by decide)

end Traps

/-! ### The invariant -/

section Invariant
variable [Platform]

/-- The scheduler's invariant at trap exit. -/
structure Scheduled (k : Kernel) : Prop where
  one : ∀ p q, (k.procs p).state = .running → (k.procs q).state = .running → p = q
  running : ∀ p, (k.procs p).state = .running → p = k.currentPid ∧ k.satp = (k.procs p).satp ∧ k.frame.spp = false
  idle : (∀ p, (k.procs p).state ≠ .running) → k.satp = k.kernelSatp ∧ k.frame.spp = true
  saved : ∀ p, (k.procs p).state ≠ .free → (k.procs p).state ≠ .running → (k.procs p).context.spp = false
  panics : ∀ t, (t = .ecall → k.inUser) →
    trapHandler k t ≠ .error .deadlock ∧ trapHandler k t ≠ .error .noProcessToKill

/-- In S-mode the kernel's own table is in use. -/
def IdleOnKernelTable (c : Core) : Prop := c.frame.spp = true → c.satp = c.kernelSatp

theorem idleOnKernelTable_traps {c c' : Core} {t : Trap} (cons : Consistent c) (mode : t = .ecall → c.inUser)
    (traps : Traps c t c') (before : IdleOnKernelTable c) : IdleOnKernelTable c' := by
  have after := cons.traps mode traps
  obtain ⟨mid, changes, dispatch⟩ := traps
  cases dispatch with
  | resume stays resumes => exact fun idle => before ((Consistent.resumes_spp resumes).symm.trans idle)
  | switch ready range left frame =>
    rename_i next f owners
    intro idle
    have user : f.spp = false := by
      have saved := cons.change_saved mode (changes next) (by rw [ready]; nofun)
      rcases frame with rfl | ⟨-, -, -, rfl⟩ <;> exact saved
    exact absurd (user.symm.trans idle) nofun
  | idle => exact fun _ => rfl

theorem MachineRun.idleOnKernelTable (r : MachineRun) {n : Nat} (bound : n ≤ r.len) :
    IdleOnKernelTable (r.state n).toCore := by
  refine r.invariant_of_steps (P := fun k => IdleOnKernelTable k.toCore) (fun k booted idle => ?_)
    (fun n bound before => ?_) n bound
  · exact absurd ((Boot.booted_started booted).user.symm.trans idle) nofun
  have step := r.steps n bound
  by_cases trap : ∃ t, r.label n = .trap t
  · obtain ⟨t, label⟩ := trap
    rw [label] at step
    exact idleOnKernelTable_traps (r.consistent (Nat.le_of_lt bound)) (step_trap step).2 (r.traps bound label) before
  · obtain ⟨-, -, satp, -, kernel, spp, -, -⟩ := step_other step fun t same => trap ⟨t, same⟩
    intro idle
    rw [satp, kernel]
    exact before (spp.symm.trans idle)

/-- Every state of a run satisfies the invariant. -/
theorem scheduled (r : MachineRun) {n : Nat} (bound : n ≤ r.len) : Scheduled (r.state n) := by
  have cons := r.consistent bound
  refine ⟨fun p q first second => ?_, fun p state => ?_, fun nobody => ?_, fun p live _ => cons.saved p live,
    fun t mode => trapHandler_calm cons mode⟩
  · exact (cons.only p first).1.trans (cons.only q second).1.symm
  · obtain ⟨own, user⟩ := cons.only p state
    exact ⟨own, own ▸ cons.table user, user⟩
  · have idle : (r.state n).frame.spp = true := by
      by_contra user
      exact nobody _ (cons.running (by simpa [Core.inUser] using user)).1
    exact ⟨r.idleOnKernelTable bound idle, idle⟩

end Invariant

section Reference
open Reference
attribute [local instance] Reference.platform

theorem scheduled_after_timer : Scheduled ((script [.timer]).state 1) := scheduled _ (by decide)

end Reference
end GooseOs
