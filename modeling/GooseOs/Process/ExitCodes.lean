import GooseOs.Process.Endings
import GooseOs.Process.Returns
import GooseOs.Machine.Spawning

/-!
Exit codes. SYS_WAIT reads the code from the child's slot, or sleeps until the child ends. The
slot is free from the exit on, and the next spawn into it replaces both the code and the recorded
parent; so the law needs that no slot is spawned into again before its parent has waited.
-/

namespace GooseOs
open Slot Sched Ipc Lifecycle Syscall Trap Security

section Law
variable [Platform]

namespace MachineRun

section Definitions
variable (r : MachineRun)

/-- Step `n` is a SYS_SPAWN by `p` that creates a process in slot `k`. -/
structure SpawnsAt (n p k : Nat) : Prop where
  call : r.CallAt n sysSpawnNo p
  free : ((r.state n).procs k).state = .free
  created : ((r.state (n + 1)).procs k).state ≠ .free

/-- The process of slot `k` at step `n`, or the last one before, was spawned by `p` as it is now. -/
def ChildAt (n p k : Nat) : Prop :=
  ∃ b, b < n ∧ r.SpawnsAt b p k ∧ r.Alive p b n ∧ ∀ i q, b < i → i < n → ¬ r.SpawnsAt i q k

/-- The SYS_WAIT of step `w` by `p` for slot `k`. -/
structure WaitsFor (w p k : Nat) : Prop where
  call : r.CallAt w sysWaitNo p
  target : (r.state w).frame.a0.toNat = k

end Definitions
end MachineRun

/-- The law on a run: the first SYS_WAIT for a spawned child returns the code that very child ended
with, and a SYS_WAIT for anyone else's child is an error. -/
structure WaitReturnsOwnCode (r : MachineRun) : Prop where
  own : ∀ b w j p k, r.SpawnsAt b p k → b < w → r.WaitsFor w p k → r.Alive p b w →
    (∀ i, b < i → i < w → ¬ r.WaitsFor i p k) → w < j → j ≤ r.len → (r.state j).inUser →
    (r.state j).currentPid = p → r.Away w j p →
    ∃ e, b < e ∧ e < j ∧ r.EndsAt e k (r.state j).frame.a0 ∧ r.Alive k (b + 1) e
  other : ∀ w p k, r.WaitsFor w p k → ¬ r.ChildAt w p k →
    (r.state (w + 1)).currentPid = p ∧ (r.state (w + 1)).frame.a0 = usizeMax

/-- A SYS_WAIT that finds in slot `k` what its caller means by it: the caller's child is the last
process spawned there, and a process that records the caller as parent is its child. -/
structure AsksOwn (r : MachineRun) (w p k : Nat) : Prop where
  latest : ∀ b, r.SpawnsAt b p k → b < w → r.Alive p b w → (∀ i, b < i → i < w → ¬ r.WaitsFor i p k) →
    ∀ i q, b < i → i < w → ¬ r.SpawnsAt i q k
  parent : ((r.state w).procs k).parent = p → r.ChildAt w p k

/-- A SYS_YIELD that does not switch to a process whose SYS_WAIT has been answered with a code other
than 0. -/
def YieldsClear (r : MachineRun) (n : Nat) : Prop :=
  ∀ q w next, r.CallAt n sysYieldNo q → nextReady (r.state n).procs q (maxProcs - 2) = some next → w < n →
    r.CallAt w sysWaitNo next → r.Away w n next → ((r.state n).procs next).context.a0 = 0

namespace MachineRun
variable {r : MachineRun} {b n w j p q k : Nat} {code : Word}

/-! ### Spawned slots -/

theorem SpawnsAt.slot (spawned : r.SpawnsAt b p k) :
    ((r.state (b + 1)).procs k).parent = p ∧ 1 ≤ k ∧ k < maxProcs ∧ k ≠ p := by
  obtain ⟨call, free, created⟩ := spawned
  have caller := call.caller
  have range := (r.consistent call.bound).range k created
  have other : k ≠ p := by
    rintro rfl
    exact absurd (call.running.1.symm.trans free) nofun
  refine ⟨?_, range.1, range.2, other⟩
  obtain ⟨mid, changes, dispatch⟩ := r.traps call.bound call.label
  have same : ((r.state (b + 1)).procs k).parent = (mid k).parent ∧
      ((mid k).state = .free → ((r.state (b + 1)).procs k).state = .free) := by
    rcases Consistent.dispatch_procs dispatch k with same | ⟨ready, ran⟩
    · rw [same]
      exact ⟨rfl, id⟩
    · rw [ran]
      exact ⟨rfl, fun gone => absurd (ready.symm.trans gone) nofun⟩
  have change := changes k
  rw [same.1]
  have gone := same.2
  generalize mid k = slot at change gone
  cases change with
  | stay => exact absurd (gone free) created
  | wake _ cause => exact absurd free cause.not_free
  | netWake blocked => exact absurd (blocked.symm.trans free) nofun
  | park own => exact absurd (own.trans caller) other
  | preempted own => exact absurd (own.trans caller) other
  | yielded own => exact absurd (own.trans caller) other
  | terminated own => exact absurd (own.trans caller) other
  | spawned => exact caller

theorem spawnsAt_of_created (bound : n < r.len) (free : ((r.state n).procs k).state = .free)
    (created : ((r.state (n + 1)).procs k).state ≠ .free) : ∃ p, r.SpawnsAt n p k := by
  by_cases trap : ∃ cause, r.label n = .trap cause
  · obtain ⟨cause, label⟩ := trap
    obtain ⟨mid, changes, dispatch⟩ := r.traps bound label
    have live : (mid k).state ≠ .free := by
      rcases Consistent.dispatch_procs dispatch k with same | ⟨ready, -⟩
      · exact same ▸ created
      · rw [ready]
        nofun
    have mode : cause = .ecall → (r.state n).inUser := by
      have step := r.steps n bound
      rw [label] at step
      exact (step_trap step).2
    rcases (r.consistent (Nat.le_of_lt bound)).change_live mode (changes k) live with before | ⟨rfl, number⟩
    · exact absurd free before
    · exact ⟨_, ⟨bound, label, number, rfl⟩, free, created⟩
  · have procs := (step_other (r.steps n bound) fun cause same => trap ⟨cause, same⟩).1
    rw [procs] at created
    exact absurd free created

/-- A free slot that is not spawned into keeps its exit code and parent. -/
theorem free_step (bound : n < r.len) (free : ((r.state n).procs k).state = .free)
    (still : ((r.state (n + 1)).procs k).state = .free) : Kept ((r.state n).procs k) ((r.state (n + 1)).procs k) := by
  by_cases trap : ∃ cause, r.label n = .trap cause
  · obtain ⟨cause, label⟩ := trap
    obtain ⟨mid, changes, dispatch⟩ := r.traps bound label
    have same : (r.state (n + 1)).procs k = mid k := by
      rcases Consistent.dispatch_procs dispatch k with same | ⟨-, ran⟩
      · exact same
      · rw [ran] at still
        cases still
    have change := changes k
    rw [same] at still ⊢
    generalize mid k = slot at change still ⊢
    cases change with
    | stay irqNum irqPending => exact ⟨irqNum, irqPending, rfl⟩
    | park _ _ cause => cases cause <;> cases still
    | terminated own ends =>
      have running := (r.endsAt_of_ends bound label ends).running
      rw [← own, free] at running
      cases running
    | _ => cases still
  · have procs := (step_other (r.steps n bound) fun cause same => trap ⟨cause, same⟩).1
    rw [procs]
    exact Kept.refl _

/-- From its spawn on, and while nobody else is spawned there, a slot holds the child or its code. -/
theorem SpawnsAt.child (spawned : r.SpawnsAt b p k) (later : b < n) (bound : n ≤ r.len)
    (latest : ∀ i q, b < i → i < n → ¬ r.SpawnsAt i q k) :
    ((r.state n).procs k).parent = p ∧
      (r.Alive k (b + 1) n ∨
        (((r.state n).procs k).state = .free ∧
          ∃ e, b < e ∧ e < n ∧ r.EndsAt e k ((r.state n).procs k).exitCode ∧ r.Alive k (b + 1) e)) := by
  induction n with
  | zero => omega
  | succ n ih =>
    rcases Nat.lt_or_ge b n with inner | last
    · obtain ⟨parent, alive | ⟨free, e, lower, upper, ended, alive⟩⟩ :=
        ih inner (by omega) fun i q above below => latest i q above (by omega)
      · rcases r.live_step (by omega) (alive n (by omega) le_rfl) with ⟨still, same⟩ | ⟨code, ended⟩
        · refine ⟨same.trans parent, Or.inl fun i above below => ?_⟩
          rcases Nat.lt_or_ge n i with new | old
          · obtain rfl : i = n + 1 := by omega
            exact still
          · exact alive i above old
        · have own := ended.own
          refine ⟨(congrArg Process.parent own).trans parent,
            Or.inr ⟨congrArg Process.state own, n, inner, by omega, ?_, alive⟩⟩
          rw [own]
          exact ended
      · have still : ((r.state (n + 1)).procs k).state = .free := by
          by_contra created
          obtain ⟨q, again⟩ := spawnsAt_of_created (by omega) free created
          exact latest n q inner (by omega) again
        have kept := free_step (by omega) free still
        refine ⟨kept.parent.trans parent, Or.inr ⟨still, e, lower, by omega, ?_, alive⟩⟩
        rw [kept.exitCode]
        exact ended
    · obtain rfl : b = n := by omega
      refine ⟨spawned.slot.1, Or.inl fun i above below => ?_⟩
      obtain rfl : i = b + 1 := by omega
      exact spawned.created

/-! ### From the call to the return -/

/-- SYS_WAIT for a live child returns when that child ends, with its code. -/
theorem WaitsFor.live (waits : r.WaitsFor w p k) (valid : isValidIpcTarget k p = true)
    (parent : ((r.state w).procs k).parent = p) (live : ((r.state w).procs k).state ≠ .free)
    (clear : ∀ n, YieldsClear r n) (later : w < j) (bound : j ≤ r.len) (user : (r.state j).inUser)
    (back : (r.state j).currentPid = p) (away : r.Away w j p) :
    ∃ e, w < e ∧ e < j ∧ r.EndsAt e k (r.state j).frame.a0 ∧ r.Alive k w e := by
  obtain ⟨call, target⟩ := waits
  have parked : ((r.state (w + 1)).procs p).state = .blockedWait ∧ ((r.state (w + 1)).procs p).ipcTarget = k := by
    have caller := call.caller
    subst target caller
    rw [sysWait_parked call.sysWait valid parent live]
    exact ⟨rfl, rfl⟩
  have running := ((r.consistent bound).running user).1
  rw [back] at running
  obtain ⟨n, lower, upper, stays, exit⟩ := exists_first_exit
    (P := fun i => ((r.state i).procs p).state = .blockedWait ∧ ((r.state i).procs p).ipcTarget = k)
    (m := w + 1) (n := j) parked (by rw [running]; exact fun h => nomatch h.1) later
  have here := stays n lower (Nat.le_refl n)
  have alive : r.Alive k w n := fun i above below => by
    rcases Nat.lt_or_ge w i with inner | first
    · have waiting := stays i inner below
      exact waiting.2 ▸ (r.waiters (by omega) p waiting.1).2
    · obtain rfl : i = w := by omega
      exact live
  rcases r.blocked_step (by omega) (Or.inr (Or.inr (Or.inr here.1))) with kept | ⟨trap, f, state, label, cause, ran, after⟩
  · exact absurd ⟨kept.state.trans here.1, kept.ipcTarget.trans here.2⟩ exit
  -- Only the end of the child wakes its parent.
  obtain ⟨code, ends, own, rfl⟩ : ∃ code, GooseOs.Ends (r.state n).toCore trap code ∧ (r.state n).currentPid = k ∧
      f = { ((r.state n).procs p).context with a0 := code } := by
    cases cause with
    | exit ends waiter waits => exact ⟨_, ends, waits.symm.trans here.2, rfl⟩
    | send _ _ wanted => exact absurd ((wantsFrom_state wanted).symm.trans here.1) nofun
    | call _ _ _ wanted => exact absurd ((wantsFrom_state wanted).symm.trans here.1) nofun
    | receive _ _ _ sender => exact absurd (sender.symm.trans here.1) nofun
    | reply _ _ caller => exact absurd (caller.symm.trans here.1) nofun
    | irq _ receiver => exact absurd (receiver.symm.trans here.1) nofun
  have notYield : ∀ q, ¬ r.CallAt n sysYieldNo q := by
    intro q yields
    obtain rfl := Label.trap.inj (label.symm.trans yields.label)
    rcases ends with ⟨-, number, -⟩ | ⟨_, fault, -⟩
    · exact absurd (number.symm.trans yields.number) (by decide)
    · cases fault
  have result : (r.state j).frame.a0 = code := by
    refine answered_returns (fun i q above below yields found => ?_) upper bound (by rw [here.1]; nofun) ?_ ?_ user back
      (fun i above below => away i (by omega) below) notYield
    · exact clear i q w p yields found (by omega) call fun l above' below' => away l above' (by omega)
    · rw [after]
      exact ran
    · rw [after]
  rw [result]
  exact ⟨n, lower, upper, own ▸ r.endsAt_of_ends (by omega) label ends, alive⟩

end MachineRun

/-- In a run whose SYS_WAITs find their own children, and whose SYS_YIELDs do not overwrite their
answers, SYS_WAIT returns the code of the child that was spawned. -/
theorem waitReturnsOwnCode_of_asksOwn (r : MachineRun) (asks : ∀ w p k, r.WaitsFor w p k → AsksOwn r w p k)
    (clear : ∀ n, YieldsClear r n) : WaitReturnsOwnCode r := by
  refine ⟨fun b w j p k spawned before waits alive first later bound user back away => ?_, fun w p k waits stranger => ?_⟩
  · have latest := (asks w p k waits).latest b spawned before alive first
    obtain ⟨-, low, high, other⟩ := spawned.slot
    have valid : isValidIpcTarget k p = true := isValidIpcTarget_iff.mpr ⟨low, high, other⟩
    obtain ⟨parent, lived | ⟨gone, e, lower, upper, ended, lived⟩⟩ :=
      spawned.child before (Nat.le_of_lt waits.call.bound) latest
    · obtain ⟨e, lower, upper, ended, still⟩ :=
        waits.live valid parent (lived w before (Nat.le_refl w)) clear later bound user back away
      refine ⟨e, by omega, upper, ended, fun i above below => ?_⟩
      rcases Nat.lt_or_ge w i with inner | early
      · exact still i (Nat.le_of_lt inner) below
      · exact lived i above early
    · -- The child has ended: SYS_WAIT answers at once, from its slot.
      have caller := waits.call.caller
      have target := waits.target
      have mode := waits.call.user
      subst target caller
      have after := sysWait_exited waits.call.sysWait valid parent gone
      obtain rfl : j = w + 1 := by
        by_contra later'
        refine away (w + 1) (by omega) (by omega) ?_
        rw [after]
        exact ⟨mode, rfl⟩
      refine ⟨e, lower, by omega, ?_, lived⟩
      rw [after]
      exact ended
  · have parent : ((r.state w).procs k).parent ≠ p := fun same => stranger ((asks w p k waits).parent same)
    have caller := waits.call.caller
    have target := waits.target
    subst target caller
    have after := sysWait_refused waits.call.sysWait parent
    rw [after]
    exact ⟨rfl, rfl⟩

end Law

section Reference
open Reference
attribute [local instance] Reference.platform

/-! ### On the reference board -/

/-- PID 2 lets the child run, which exits with 7. -/
def childEnds : List Action :=
  [.user (calling sysYieldNo 0 0), .ecall, .user (calling sysYieldNo 0 0), .ecall, .user (calling sysExitNo 7 0), .ecall]

/-- PID 1 asks for its child, which exits with 9. -/
def parentWaits : List Action :=
  [.user (calling sysWaitNo 3 0), .ecall, .user (calling sysYieldNo 0 0), .ecall, .user (calling sysExitNo 9 0), .ecall]

/-- The first child has ended, and PID 1 is about to spawn again. -/
noncomputable def childlessKernel : Kernel :=
  { Run.stateAt parentKernel (follow parentKernel childEnds) 6 with frame := spawnCall }

noncomputable def parentAgainKernel : Kernel := spawned childlessKernel 3 children.satp' children.vm'

theorem childless_step : Step (Run.stateAt parentKernel (follow parentKernel childEnds) 6) .user childlessKernel :=
  .user (k := Run.stateAt parentKernel (follow parentKernel childEnds) 6) (m := children.vm.mem) rfl (calling_mode ..)
    fun _ differ => absurd rfl differ

theorem parentAgain_step : Step childlessKernel (.trap .ecall) parentAgainKernel := by
  have passes : sysSpawn childlessKernel = .ok parentAgainKernel := children_spawned.second _ rfl rfl rfl rfl
  have number : childlessKernel.frame.a7.toNat = sysSpawnNo := calling_number _ (by decide) ..
  refine .ecall (calling_mode ..) ?_
  rw [trapHandler, handleEcall, number]
  exact passes

/-- PID 1 spawns a second child where the first one was, and waits for it. -/
noncomputable def respawnedRun : MachineRun :=
  Run.ofTrace setup.kernel starts.booted
    ((.user, running imageVm spawnCall) :: (.trap .ecall, parentKernel) :: (follow parentKernel childEnds ++
      (.user, childlessKernel) :: (.trap .ecall, parentAgainKernel) :: follow parentAgainKernel parentWaits))
    ⟨image_step, parent_step, (follow_linked parentKernel childEnds).append
      ⟨childless_step, parentAgain_step, follow_linked parentAgainKernel parentWaits⟩⟩

/-- SYS_WAIT returns 9, with which another child ended. -/
theorem waitReturnsOwnCode_fails : ¬ WaitReturnsOwnCode respawnedRun := by
  intro law
  have spawned : respawnedRun.SpawnsAt 1 1 3 := ⟨⟨by decide, rfl, calling_number _ (by decide) .., rfl⟩, rfl, nofun⟩
  have waits : respawnedRun.WaitsFor 11 1 3 := ⟨⟨by decide, rfl, rfl, rfl⟩, rfl⟩
  have alive : ∀ i < 12, 1 ≤ i → ((respawnedRun.state i).procs 1).state ≠ .free := by decide
  have first : ∀ i, 1 < i → i < 11 → ¬ respawnedRun.WaitsFor i 1 3 := by
    intro i lower upper again
    obtain rfl := again.call.among (P := (· = 11)) (by decide)
    omega
  have away : respawnedRun.Away 11 16 1 := .of_currentPid (by decide)
  obtain ⟨e, lower, upper, ended, alive⟩ :=
    law.own 1 11 16 1 3 spawned (by decide) waits (fun i lower upper => alive i (by omega) lower) first (by decide)
      (by decide) rfl rfl away
  rcases Nat.lt_or_ge e 8 with early | late
  · -- The first child ended with 7.
    obtain rfl := (ended.among (P := fun i => i = 7 ∨ 8 ≤ i) (by decide)).resolve_right (Nat.not_le_of_lt early)
    obtain ⟨cause, label, ⟨-, -, code⟩ | ⟨fault, same, -⟩⟩ := ended.ends
    · exact absurd code (by decide)
    · rw [same] at label
      cases label
  · exact alive 8 (by decide) late rfl

/-- PID 1 waits for its child, which exits with 7. -/
noncomputable def waitedRun : MachineRun :=
  spawnScript [.user (calling sysWaitNo 3 0), .ecall, .user (calling sysYieldNo 0 0), .ecall,
    .user (calling sysExitNo 7 0), .ecall]

theorem waitedRun_waits {w p : Nat} (call : waitedRun.CallAt w sysWaitNo p) : w = 3 :=
  call.among (P := (· = 3)) (by decide)

theorem waitReturnsOwnCode_waited : WaitReturnsOwnCode waitedRun := by
  refine waitReturnsOwnCode_of_asksOwn waitedRun (fun w p k waits => ?_) fun n q w next call found before waits _ => ?_
  · obtain rfl := waitedRun_waits waits.call
    obtain rfl : 1 = p := waits.call.caller
    obtain rfl : 3 = k := waits.target
    have alive : ∀ i < 4, 1 ≤ i → ((waitedRun.state i).procs 1).state ≠ .free := by decide
    have once : ∀ i q, waitedRun.SpawnsAt i q 3 → i = 1 := fun i q spawned =>
      spawned.call.among (P := (· = 1)) (by decide)
    refine ⟨fun b spawned before _ _ i q after below again => ?_, fun _ =>
      ⟨1, by decide, ⟨⟨by decide, rfl, calling_number _ (by decide) .., rfl⟩, rfl, nofun⟩,
        fun i lower upper => alive i (by omega) lower, fun i q after below again => ?_⟩⟩
    · have first := once b _ spawned
      have only := once i q again
      omega
    · have only := once i q again
      omega
  · -- The SYS_YIELD of PID 2 switches to the child, which does not wait.
    obtain rfl := waitedRun_waits waits
    obtain rfl : 1 = next := waits.caller
    obtain rfl := call.among (P := (· = 5)) (by decide)
    obtain rfl : 2 = q := call.caller
    exact absurd found (by decide)

end Reference

end GooseOs
