import GooseOs.Process.Calls

/-!
Threads of control: a process that runs or is ready goes on with the registers it was interrupted with, whatever
happens in between. Only its own system calls change them, and only a fault of its own ends it.
-/

namespace GooseOs
open Slot Sched Ipc Lifecycle Trap Security

/-- The registers with which process `p` runs, or is ready to run. -/
inductive Active (c : Core) (p : Nat) (f : TrapFrame) : Prop where
  | running (mode : c.inUser) (pid : c.currentPid = p) (frame : c.frame = f)
  | ready (state : (c.procs p).state = .ready) (saved : (c.procs p).context = f)

variable {c c' : Core} {t : Trap} {p : Nat} {f g : TrapFrame}

theorem Active.state (cons : Consistent c) (active : Active c p f) :
    (c.procs p).state = .running ∨ (c.procs p).state = .ready := by
  cases active with
  | running mode pid => exact .inl (pid ▸ (cons.running mode).1)
  | ready state => exact .inr state

/-- A process has one thread. -/
theorem Active.frame_eq (cons : Consistent c) (active : Active c p f) (mode : c.inUser) (pid : c.currentPid = p) :
    f = c.frame := by
  cases active with
  | running _ _ frame => exact frame.symm
  | ready state =>
    subst pid
    rw [(cons.running mode).1] at state
    cases state

theorem Active.congr (active : Active c p f) (procs : c'.procs = c.procs) (pid : c'.currentPid = c.currentPid)
    (frame : c.inUser → c.currentPid = p → c'.frame = c.frame) : Active c' p f := by
  cases active with
  | running mode own same =>
    have kept := frame mode own
    exact .running (by rw [Core.inUser, kept]; exact mode) (pid.trans own) (kept.trans same)
  | ready state saved => exact .ready (by rw [procs]; exact state) (by rw [procs]; exact saved)

/-- A slot the first stage of a trap makes ready is left to run with its saved registers. -/
theorem active_of_ready {mid : Nat → Process} (dispatch : Dispatch c t mid c') (ready : (mid p).state = .ready)
    (user : (mid p).context.spp = false) (calm : t = .ecall → c.frame.a7.toNat ≠ sysYieldNo) :
    Active c' p (mid p).context := by
  cases dispatch with
  | resume => exact .ready ready rfl
  | switch chosen range left frame =>
    rename_i next f owners
    by_cases own : p = next
    · subst own
      rcases frame with rfl | ⟨call, number, -⟩
      · exact .running user rfl rfl
      · exact absurd number (calm call)
    · exact .ready (by simpa [Function.update_of_ne own] using ready) (by simp [Function.update_of_ne own])
  | idle => exact .ready ready rfl

variable [Platform]

/-- What an interrupt, or a system call of another process, does to a thread. -/
theorem Active.traps (cons : Consistent c) (mode : t = .ecall → c.inUser) (traps : Traps c t c') (active : Active c p f)
    (other : t = .ecall → p ≠ c.currentPid ∧ c.frame.a7.toNat ≠ sysYieldNo) :
    Active c' p f ∨ ((∃ code, t = .fault code) ∧ p = c.currentPid ∧ (c'.procs p).state = .free) := by
  obtain ⟨mid, changes, dispatch⟩ := traps
  have calm : t = .ecall → c.frame.a7.toNat ≠ sysYieldNo := fun call => (other call).2
  have goes : (mid p).state = .ready → (mid p).context = f → Active c' p f := by
    intro ready saved
    subst saved
    exact active_of_ready dispatch ready (cons.change_saved mode (changes p) (by rw [ready]; nofun)) calm
  have alive := active.state cons
  have change := changes p
  generalize slot : mid p = s at change goes
  cases change with
  | stay irqNum irqPending =>
    cases active with
    | ready state saved => exact .inl (goes state saved)
    | running user pid frame =>
      subst pid frame
      have runs : (mid c.currentPid).state = .running := by
        rw [slot]
        exact (cons.running user).1
      cases dispatch with
      | resume _ resumes =>
        cases resumes with
        | interrupted => exact .inl (.running user rfl rfl)
        | returned | received => exact absurd rfl (other rfl).1
      | switch _ _ left => exact absurd runs left
      | idle _ left => exact absurd runs left
  | wake _ cause =>
    rcases alive with running | ready
    · rcases cause.state with state | state | state | state <;> exact absurd (running.symm.trans state) nofun
    · exact absurd ready cause.not_ready
  | netWake blocked => rcases alive with state | state <;> exact absurd (state.symm.trans blocked) nofun
  | park own call => exact absurd own (other call).1
  | preempted own _ user =>
    refine .inl (goes rfl ?_)
    cases active with
    | running _ _ frame => exact frame
    | ready state =>
      rw [own, (cons.running user).1] at state
      cases state
  | yielded own call => exact absurd own (other call).1
  | terminated own ends =>
    refine .inr ⟨?_, own, ?_⟩
    · rcases ends with ⟨call, -⟩ | ⟨cause, fault, -⟩
      · exact absurd own (other call).1
      · exact ⟨cause, fault⟩
    · rcases Consistent.dispatch_procs dispatch p with same | ⟨ready, -⟩
      · rw [same, slot]
        rfl
      · rw [slot] at ready
        cases ready
  | spawned free => rcases alive with state | state <;> exact absurd (state.symm.trans free) nofun

/-- A blocked process stays as it is but for its interrupt fields, or is woken to run. -/
theorem traps_woken (cons : Consistent c) (mode : t = .ecall → c.inUser) (traps : Traps c t c')
    (blocked : Blocked (c.procs p).state) (calm : t = .ecall → c.frame.a7.toNat ≠ sysYieldNo) :
    Kept (c.procs p) (c'.procs p) ∨ ∃ f, Wakes c t p f ∧ Active c' p f := by
  have kept := traps_blocked traps cons blocked
  obtain ⟨mid, changes, dispatch⟩ := traps
  rcases kept with kept | ⟨f, state, cause, running, after⟩
  · exact .inl kept
  · refine .inr ⟨f, cause, ?_⟩
    have ready : (mid p).state = .ready := by
      rcases Consistent.dispatch_procs dispatch p with same | ⟨ready, -⟩
      · rcases running with rfl | rfl
        · rw [← same, after]
        · -- Only the interrupted slot can be running before the scheduler acts.
          have runs : (mid p).state = .running := by rw [← same, after]
          have before := change_running (changes p) runs
          exact absurd before blocked.not_running.1
      · exact ready
    have saved : (mid p).context = f := by
      rcases Consistent.dispatch_procs dispatch p with same | ⟨-, ran⟩
      · rw [← same, after]
      · have context : (c'.procs p).context = (mid p).context := by rw [ran]
        rw [← context, after]
    subst saved
    exact active_of_ready dispatch ready (cons.change_saved mode (changes p) (by rw [ready]; nofun)) calm

/-- How a process comes out of its own system call, other than SYS_YIELD. -/
inductive Answered (c c' : Core) : Prop where
  | returned (v : Word) (active : Active c' c.currentPid { c.frame.advance with a0 := v })
  | received (number : c.frame.a7.toNat = sysReceiveNo)
  | parked (number : c.frame.a7.toNat = sysSendNo ∨ c.frame.a7.toNat = sysReceiveNo ∨ c.frame.a7.toNat = sysCallNo ∨
      c.frame.a7.toNat = sysWaitNo)
  | ended (number : c.frame.a7.toNat = sysExitNo) (free : (c'.procs c.currentPid).state = .free)

theorem traps_answered (cons : Consistent c) (mode : c.inUser) (traps : Traps c .ecall c')
    (calm : c.frame.a7.toNat ≠ sysYieldNo) : Answered c c' := by
  obtain ⟨mid, changes, dispatch⟩ := traps
  have running := (cons.running mode).1
  have change := changes c.currentPid
  have later := Consistent.dispatch_procs dispatch c.currentPid
  generalize slot : mid c.currentPid = s at change later
  cases change with
  | stay irqNum irqPending =>
    have runs : (mid c.currentPid).state = .running := by
      rw [slot]
      exact running
    cases dispatch with
    | resume _ resumes =>
      cases resumes with
      | interrupted no => exact absurd rfl no
      | returned v => exact .returned v (.running mode rfl rfl)
      | received number => exact .received number
    | switch _ _ left => exact absurd runs left
    | idle _ left => exact absurd runs left
  | wake other => exact absurd rfl other
  | netWake blocked => exact absurd (running.symm.trans blocked) nofun
  | park _ _ parks =>
    cases parks with
    | send number => exact .parked (.inl number)
    | receive number => exact .parked (.inr (.inl number))
    | call number | net number => exact .parked (.inr (.inr (.inl number)))
    | wait number => exact .parked (.inr (.inr (.inr number)))
  | preempted _ timer => cases timer
  | yielded _ _ number => exact absurd number calm
  | terminated _ ends =>
    rcases ends with ⟨-, number, -⟩ | ⟨_, fault, -⟩
    · rcases later with same | ⟨ready, -⟩
      · exact .ended number (by rw [same]; rfl)
      · cases ready
    · cases fault
  | spawned free => exact absurd (running.symm.trans free) nofun

/-- A slot that is free stays free but for a SYS_SPAWN. -/
theorem traps_free (cons : Consistent c) (mode : t = .ecall → c.inUser) (traps : Traps c t c')
    (none : t = .ecall → c.frame.a7.toNat ≠ sysSpawnNo) (free : (c.procs p).state = .free) : (c'.procs p).state = .free := by
  obtain ⟨mid, changes, dispatch⟩ := traps
  have unused : (mid p).state = .free := by
    by_contra live
    rcases cons.change_live mode (changes p) live with used | ⟨call, number⟩
    · exact used free
    · exact none call number
  rcases Consistent.dispatch_procs dispatch p with same | ⟨ready, -⟩
  · rw [same]
    exact unused
  · rw [unused] at ready
    cases ready

/-- No trap but SYS_SPAWN gives a slot another page table. -/
theorem traps_satp (traps : Traps c t c') (live : (c.procs p).state ≠ .free) : (c'.procs p).satp = (c.procs p).satp := by
  obtain ⟨mid, changes, dispatch⟩ := traps
  have same := Consistent.change_satp (changes p) live
  rcases Consistent.dispatch_procs dispatch p with later | ⟨-, later⟩
  · rw [later, same]
  · rw [later]
    exact same

end GooseOs
