import GooseOs.Process.ExitCodes
import GooseOs.Memory.Answers
import GooseOs.Machine.Networked

/-!
The PID of the virtual network server. The dispatcher takes every SYS_CALL to PID 3 away from the
IPC handler, and SYS_SPAWN gives slot 3 to a process when it is the lowest free one.
-/

namespace GooseOs
open Slot Sched Ipc Syscall Trap Security NetServer

section Law
variable [Platform]

/-- The law on a run: a SYS_CALL that names another live process is made by the IPC handler, and no
process is spawned under the intercepted PID. -/
structure CallsReachTarget (r : MachineRun) : Prop where
  handled : ∀ n p t, r.CallAt n sysCallNo p → (r.state n).frame.a0.toNat = t → t ≠ p →
    ((r.state n).procs t).state ≠ .free → (r.state n).onCore Ipc.sysCall = .ok (r.state (n + 1))
  spared : ∀ n p, ¬ r.SpawnsAt n p netServerPid

theorem sysSpawn_fills {k k' : Kernel} (h : sysSpawn k = .ok k') :
    k'.procs = k.procs ∨ ∃ info pid, Spawns k info pid ∧ ∀ q, q ≠ pid → k'.procs q = k.procs q := by
  rw [sysSpawn_with, sysSpawnWith] at h
  split at h
  · next size =>
    obtain ⟨answer, parsed, h⟩ := bind_ok h
    cases answer with
    | error e =>
      cases h
      exact .inl rfl
    | ok info =>
      unfold spawnParsed at h
      dsimp only at h
      split at h
      · cases h
        exact .inl rfl
      · next pid slot =>
        obtain ⟨built, -, h⟩ := bind_ok h
        cases h
        refine .inr ⟨info, pid, ⟨size, parsed, slot⟩, fun q other => ?_⟩
        exact Function.update_of_ne other ..
  · cases h
    exact .inl rfl

namespace MachineRun
variable {r : MachineRun} {n p k : Nat}

theorem CallAt.sysSpawn (call : r.CallAt n sysSpawnNo p) : Syscall.sysSpawn (r.state n) = .ok (r.state (n + 1)) := by
  have handled := call.handled
  rw [handleEcall, call.number] at handled
  exact handled

/-- A process is created in slot `k` exactly if the call is accepted while `k` is the lowest free slot. -/
theorem spawnsAt_iff : r.SpawnsAt n p k ↔ r.CallAt n sysSpawnNo p ∧ ∃ info, Spawns (r.state n) info k := by
  constructor
  · rintro ⟨call, free, created⟩
    refine ⟨call, ?_⟩
    rcases sysSpawn_fills call.sysSpawn with same | ⟨info, pid, spawns, others⟩
    · rw [same] at created
      exact absurd free created
    · by_cases filled : k = pid
      · exact filled ▸ ⟨info, spawns⟩
      · rw [others k filled] at created
        exact absurd free created
  · rintro ⟨call, info, spawns⟩
    have handled := call.sysSpawn
    rw [sysSpawn_eq spawns] at handled
    obtain ⟨built, -, after⟩ := bind_ok handled
    refine ⟨call, (firstFree_some spawns.slot).1, ?_⟩
    rw [← Except.ok.inj after]
    have filled : ∀ child : Process, Function.update (r.state n).procs k child k = child := fun child =>
      Function.update_self ..
    simp only [Kernel.setA0, filled]
    nofun

theorem free_of_spared (late : k ≠ 1 ∧ k ≠ 2) (spared : ∀ n p, ¬ r.SpawnsAt n p k) (bound : n ≤ r.len) :
    ((r.state n).procs k).state = .free := by
  induction n with
  | zero =>
    rcases (Boot.booted_started r.start).others k late.1 with empty | ⟨low, -⟩
    · rw [empty]
    · rcases low with first | second
      · exact absurd first late.1
      · exact absurd second late.2
  | succ n ih =>
    by_contra created
    obtain ⟨p, spawned⟩ := spawnsAt_of_created (by omega) (ih (by omega)) created
    exact spared n p spawned

end MachineRun

/-- Calls reach the processes they name exactly if no SYS_SPAWN is accepted while the intercepted slot
is the lowest free one. -/
theorem callsReachTarget_iff (r : MachineRun) :
    CallsReachTarget r ↔ ∀ n p info, r.CallAt n sysSpawnNo p → ¬ Spawns (r.state n) info netServerPid := by
  constructor
  · intro reach n p info call spawns
    exact reach.spared n p (MachineRun.spawnsAt_iff.mpr ⟨call, info, spawns⟩)
  · intro elsewhere
    have spared : ∀ n p, ¬ r.SpawnsAt n p netServerPid := by
      intro n p spawned
      obtain ⟨call, info, spawns⟩ := MachineRun.spawnsAt_iff.mp spawned
      exact elsewhere n p info call spawns
    refine ⟨fun n p t call target other live => ?_, spared⟩
    have free := MachineRun.free_of_spared (by decide) spared (Nat.le_of_lt call.bound)
    have direct : ¬ (Platform.net = true ∧ (r.state n).frame.a0.toNat = netServerPid) := by
      rintro ⟨-, server⟩
      rw [← target, server] at live
      exact live free
    have handled := call.handled
    rw [handleEcall, call.number] at handled
    change sysCallEntry (r.state n) = _ at handled
    rwa [sysCallEntry, if_neg direct] at handled

end Law

/-! ### On the reference board, with the network feature -/

section Reference
open Reference
attribute [local instance] Reference.platform

/-- PID 1 has spawned its child into slot 3 and calls it. -/
noncomputable def callingChild : Kernel := { parentKernel with frame := calling sysCallNo 3 0 }

theorem callingChild_step : Step parentKernel .user callingChild :=
  .user (k := parentKernel) (m := children.vm.mem) rfl (calling_mode ..) fun _ differ => absurd rfl differ

theorem image_spawns : Spawns (running imageVm spawnCall) imageInfo 3 := imageVm_loads.spawns rfl rfl rfl rfl

end Reference

section Networked
open Reference

@[reducible] def networked : Platform := Reference.platform.withNet

attribute [local instance] networked

/-- The dispatcher answers in the child's place: there is no network. -/
theorem callingChild_handled : trapHandler (@Kernel.withNet Reference.platform callingChild) .ecall =
    .ok ((@Kernel.withNet Reference.platform callingChild).advance.setA0 usizeMax) := rfl

theorem spawning_step : Step (@Kernel.withNet Reference.platform (running imageVm spawnCall)) (.trap .ecall)
    (@Kernel.withNet Reference.platform parentKernel) := by
  have passes := @sysSpawn_withNet Reference.platform _ _ _ _ image_spawns (children_spawned.first _ rfl rfl rfl rfl)
  have number : (@Kernel.withNet Reference.platform (running imageVm spawnCall)).frame.a7.toNat = sysSpawnNo :=
    calling_number _ (by decide) ..
  refine .ecall (calling_mode ..) ?_
  rw [trapHandler, handleEcall, number]
  exact passes

/-- PID 1 spawns a child and calls it. -/
noncomputable def calledChildRun : MachineRun :=
  Run.ofTrace (@Kernel.withNet Reference.platform setup.kernel)
    (@booted_withNet Reference.platform _ rfl rfl starts.booted)
    [(.user, @Kernel.withNet Reference.platform (running imageVm spawnCall)),
      (.trap .ecall, @Kernel.withNet Reference.platform parentKernel),
      (.user, @Kernel.withNet Reference.platform callingChild),
      (.trap .ecall, (@Kernel.withNet Reference.platform callingChild).advance.setA0 usizeMax)]
    ⟨@user_withNet Reference.platform _ _ image_step, spawning_step, @user_withNet Reference.platform _ _ callingChild_step,
      .ecall (calling_mode ..) callingChild_handled, trivial⟩

/-- The child of PID 1 is live in slot 3, and a call to it returns an error. -/
theorem callsReachTarget_fails : ¬ CallsReachTarget calledChildRun := by
  intro reach
  have called : calledChildRun.CallAt 3 sysCallNo 1 := ⟨by decide, rfl, calling_number _ (by decide) .., rfl⟩
  have handled := reach.handled 3 1 3 called rfl (by decide) nofun
  obtain ⟨c, accepted, after⟩ := onCore_ok handled
  have parked := sysCall_parked accepted (by decide)
  have blocked : ((calledChildRun.state 4).procs 1).state = .blockedCall := by
    rw [after]
    exact congrArg Process.state parked
  cases blocked

end Networked
end GooseOs
