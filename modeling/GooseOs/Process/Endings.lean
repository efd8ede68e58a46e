import GooseOs.Process.Calls

/-!
How processes end and what SYS_WAIT sees of it. A process ends by its own SYS_EXIT or fault; its
slot keeps the exit code until the next spawn, and the process waiting for it wakes with the code.
A waiter always waits for a live child of its own.
-/

namespace GooseOs
open Slot Sched Ipc Lifecycle Trap Security
variable [Platform]

/-- The trap ends the running process with this exit code. -/
def Ends (c : Core) (t : Trap) (code : Word) : Prop :=
  (t = .ecall ∧ c.frame.a7.toNat = sysExitNo ∧ code = c.frame.a0) ∨
    ∃ cause, t = .fault cause ∧ code = BitVec.ofNat 64 (128 + cause)

/-! ### The cleanup -/

section Reap
variable {c c' : Core} {code : Word} {q : Nat}

omit [Platform] in
theorem reap_own (c : Core) (code : Word) :
    (reap c c.currentPid code).procs c.currentPid = cleared (c.procs c.currentPid) code := by
  unfold reap wakeParent
  have own : (clearSlot c c.currentPid code).procs c.currentPid = cleared (c.procs c.currentPid) code := by
    simp [clearSlot, cleared]
  split
  · exact own
  · rename_i i found
    have waiting := List.find?_some found
    rw [Bool.and_eq_true, beq_iff_eq, beq_iff_eq] at waiting
    have other : c.currentPid ≠ i := by
      rintro rfl
      rw [own] at waiting
      exact absurd waiting.1 (by simp [cleared])
    simp only [Core.modify_procs, Function.update_of_ne other, own]

omit [Platform] in
theorem reap_waiter (code : Word) (range : 1 ≤ q ∧ q < maxProcs) (other : q ≠ c.currentPid)
    (waiter : (c.procs q).state = .blockedWait) (waits : (c.procs q).ipcTarget = c.currentPid)
    (only : ∀ i, (c.procs i).state = .blockedWait → (c.procs i).ipcTarget = c.currentPid → i = q) :
    (reap c c.currentPid code).procs q =
      { c.procs q with context := { (c.procs q).context with a0 := code }, state := .ready } := by
  have kept : ∀ i, i ≠ c.currentPid → (clearSlot c c.currentPid code).procs i = c.procs i := fun i apart => by
    simp [clearSlot, Function.update_of_ne apart]
  unfold reap wakeParent
  split
  · rename_i none
    have missed := List.find?_eq_none.mp none q (mem_pids.mpr range)
    rw [kept q other] at missed
    exact absurd (by simp [waiter, waits]) missed
  · rename_i i found
    have waiting := List.find?_some found
    rw [Bool.and_eq_true, beq_iff_eq, beq_iff_eq] at waiting
    have apart : i ≠ c.currentPid := by
      rintro rfl
      simp [clearSlot] at waiting
    rw [kept i apart] at waiting
    obtain rfl := only i waiting.1 waiting.2
    simp [kept i apart]

/-- After the cleanup the scheduler loads a ready process or none. -/
theorem sysExit_procs (c : Core) (q : Nat) :
    let reaped := reap c c.currentPid c.frame.a0
    (sysExit c).procs q = reaped.procs q ∨
      ((reaped.procs q).state = .ready ∧ (sysExit c).procs q = { reaped.procs q with state := .running }) := by
  unfold sysExit
  dsimp only
  split
  · rename_i next found
    by_cases chosen : q = next
    · subst chosen
      exact Or.inr ⟨(firstReady_some found).1, by simp [load]⟩
    · exact Or.inl (by simp [load, Function.update_of_ne chosen])
  · split <;> exact Or.inl rfl

theorem killCurrent_procs (h : killCurrent c code = .ok c') (q : Nat) :
    let reaped := reap c c.currentPid code
    c'.procs q = reaped.procs q ∨
      ((reaped.procs q).state = .ready ∧ c'.procs q = { reaped.procs q with state := .running }) := by
  unfold killCurrent at h
  dsimp only at h ⊢
  split at h
  · cases h
  split at h
  · rename_i next found
    cases h
    by_cases chosen : q = next
    · subst chosen
      exact Or.inr ⟨(firstReady_some found).1, by simp [load]⟩
    · exact Or.inl (by simp [load, Function.update_of_ne chosen])
  · split at h <;> (cases h; exact Or.inl rfl)

end Reap

namespace MachineRun
variable {r : MachineRun} {n p q t : Nat} {code : Word}

/-- Step `n` ends process `p` with this exit code. -/
structure EndsAt (r : MachineRun) (n p : Nat) (code : Word) : Prop where
  bound : n < r.len
  user : (r.state n).inUser
  current : (r.state n).currentPid = p
  ends : ∃ t, r.label n = .trap t ∧ GooseOs.Ends (r.state n).toCore t code

/-- Where a run ends a process, from a look at its steps. -/
theorem EndsAt.among {P : Nat → Prop} {code : Word} (ended : r.EndsAt n p code)
    (checked : ∀ i < r.len, (r.label i).mayEnd (r.state i) = true → P i) : P n := by
  obtain ⟨t, label, ⟨rfl, number, -⟩ | ⟨cause, rfl, -⟩⟩ := ended.ends
  · exact checked n ended.bound (by rw [label, Label.mayEnd, number]; rfl)
  · exact checked n ended.bound (by rw [label]; rfl)

theorem endsAt_of_ends (r : MachineRun) {cause : Trap} (bound : n < r.len) (label : r.label n = .trap cause)
    (ends : GooseOs.Ends (r.state n).toCore cause code) : r.EndsAt n (r.state n).currentPid code := by
  have step := r.steps n bound
  rw [label] at step
  obtain ⟨handled, mode⟩ := step_trap step
  refine ⟨bound, ?_, rfl, cause, label, ends⟩
  rcases ends with ⟨call, -⟩ | ⟨code, rfl, -⟩
  · exact mode call
  · unfold trapHandler at handled
    dsimp only at handled
    split at handled
    · rename_i user
      simpa [Core.inUser] using user
    · cases handled

theorem EndsAt.running (ended : r.EndsAt n p code) : ((r.state n).procs p).state = .running := by
  have running := ((r.consistent (Nat.le_of_lt ended.bound)).running ended.user).1
  rw [ended.current] at running
  exact running

theorem EndsAt.procs (ended : r.EndsAt n p code) (q : Nat) :
    let reaped := reap (r.state n).toCore p code
    (r.state (n + 1)).procs q = reaped.procs q ∨
      ((reaped.procs q).state = .ready ∧ (r.state (n + 1)).procs q = { reaped.procs q with state := .running }) := by
  obtain ⟨bound, user, rfl, t, label, ends⟩ := ended
  have step := r.steps n bound
  rw [label] at step
  have handled := (step_trap step).1
  rcases ends with ⟨rfl, number, rfl⟩ | ⟨cause, rfl, rfl⟩
  · have after : handleEcall (r.state n) = .ok (r.state (n + 1)) := handled
    rw [handleEcall, number] at after
    rw [← Except.ok.inj after]
    exact sysExit_procs _ q
  · unfold trapHandler at handled
    dsimp only at handled
    split at handled
    · obtain ⟨c, killed, after⟩ := onCore_ok handled
      rw [after]
      exact killCurrent_procs killed q
    · cases handled

/-- The slot of an ended process is free and keeps the exit code. -/
theorem EndsAt.own (ended : r.EndsAt n p code) : (r.state (n + 1)).procs p = cleared ((r.state n).procs p) code := by
  have current := ended.current
  have reaped := reap_own (r.state n).toCore code
  rw [current] at reaped
  rcases ended.procs p with same | ⟨ready, -⟩
  · exact same.trans reaped
  · rw [reaped] at ready
    cases ready

/-- What a step does to a live process: it stays live, with its parent, or ends. -/
theorem live_step (r : MachineRun) (bound : n < r.len) (live : ((r.state n).procs t).state ≠ .free) :
    (((r.state (n + 1)).procs t).state ≠ .free ∧ ((r.state (n + 1)).procs t).parent = ((r.state n).procs t).parent) ∨
      ∃ code, r.EndsAt n t code := by
  by_cases trap : ∃ cause, r.label n = .trap cause
  · obtain ⟨cause, label⟩ := trap
    obtain ⟨mid, changes, dispatch⟩ := r.traps bound label
    have after : ((r.state (n + 1)).procs t).parent = (mid t).parent ∧
        ((mid t).state ≠ .free → ((r.state (n + 1)).procs t).state ≠ .free) := by
      rcases Consistent.dispatch_procs dispatch t with same | ⟨-, ran⟩
      · rw [same]
        exact ⟨rfl, id⟩
      · rw [ran]
        exact ⟨rfl, fun _ => nofun⟩
    rw [after.1]
    have later := after.2
    have change := changes t
    generalize mid t = p at change later
    cases change with
    | stay => exact Or.inl ⟨later live, rfl⟩
    | park own call cause =>
      refine Or.inl ⟨later ?_, ?_⟩
      · cases cause <;> nofun
      · subst own
        cases cause <;> rfl
    | terminated own ends =>
      rename_i code
      exact Or.inr ⟨code, own ▸ r.endsAt_of_ends bound label ends⟩
    | spawned free => exact absurd free live
    | _ => exact Or.inl ⟨later nofun, rfl⟩
  · have procs := (step_other (r.steps n bound) fun cause same => trap ⟨cause, same⟩).1
    rw [procs]
    exact Or.inl ⟨live, rfl⟩

end MachineRun

/-! ### Waiters -/

/-- Whoever is blocked in SYS_WAIT waits for a live process that has it as parent. -/
def Waiters (c : Core) : Prop :=
  ∀ q, (c.procs q).state = .blockedWait →
    (c.procs (c.procs q).ipcTarget).parent = q ∧ (c.procs (c.procs q).ipcTarget).state ≠ .free

namespace MachineRun
variable {r : MachineRun} {n p q t : Nat} {code : Word}

/-- The waiter of an ended process wakes with its exit code. -/
theorem EndsAt.waiter (ended : r.EndsAt n p code) (waiters : Waiters (r.state n).toCore)
    (waiter : ((r.state n).procs q).state = .blockedWait) (waits : ((r.state n).procs q).ipcTarget = p) :
    ∃ state, (state = .ready ∨ state = .running) ∧ (r.state (n + 1)).procs q =
      { (r.state n).procs q with context := { ((r.state n).procs q).context with a0 := code }, state := state } := by
  have range := (r.consistent (Nat.le_of_lt ended.bound)).range q (by rw [waiter]; nofun)
  have running := ended.running
  have current := ended.current
  subst current
  have other : q ≠ (r.state n).currentPid := by
    rintro rfl
    exact absurd (running.symm.trans waiter) nofun
  have only : ∀ i, ((r.state n).procs i).state = .blockedWait →
      ((r.state n).procs i).ipcTarget = (r.state n).currentPid → i = q := by
    intro i waiter' waits'
    have parent := (waiters q waiter).1
    have parent' := (waiters i waiter').1
    rw [waits] at parent
    rw [waits'] at parent'
    exact parent'.symm.trans parent
  have reaped := reap_waiter code range other waiter waits only
  rcases ended.procs q with same | ⟨-, ran⟩
  · exact ⟨.ready, Or.inl rfl, same.trans reaped⟩
  · refine ⟨.running, Or.inr rfl, ran.trans ?_⟩
    rw [reaped]

theorem waiters (r : MachineRun) (bound : n ≤ r.len) : Waiters (r.state n).toCore := by
  induction n with
  | zero =>
    intro q waiter
    obtain ⟨b, p, since⟩ := r.blockedSince bound (q := q) (Or.inr (Or.inr (Or.inr waiter)))
    exact absurd since.before (Nat.not_lt_zero b)
  | succ n ih =>
    have before := ih (by omega)
    intro q waiter
    -- `q` waits for a live child of its own at `n`, and the child does not end at this step.
    have child : ∃ t, ((r.state (n + 1)).procs q).ipcTarget = t ∧ ((r.state n).procs t).parent = q ∧
        ((r.state n).procs t).state ≠ .free ∧ ∀ code, ¬ r.EndsAt n t code := by
      obtain ⟨b, p, since⟩ := r.blockedSince bound (q := q) (Or.inr (Or.inr (Or.inr waiter)))
      have now := since.since (n + 1) since.before le_rfl
      rcases Nat.lt_or_ge b n with earlier | last
      · have kept := since.since n earlier (by omega)
        have waiting : ((r.state n).procs q).state = .blockedWait :=
          kept.state.trans (now.state.symm.trans waiter)
        have target : ((r.state (n + 1)).procs q).ipcTarget = ((r.state n).procs q).ipcTarget :=
          now.ipcTarget.trans kept.ipcTarget.symm
        refine ⟨_, target, (before q waiting).1, (before q waiting).2, fun code ended => ?_⟩
        obtain ⟨state, ran, after⟩ := ended.waiter before waiting rfl
        rw [after] at waiter
        rcases ran with rfl | rfl <;> cases waiter
      · obtain rfl : b = n := by have := since.before; omega
        have state := now.state.symm.trans waiter
        have target := now.ipcTarget
        have caller := since.caller
        have label := since.label
        cases since.parks with
        | wait number valid parent alive =>
          subst caller
          refine ⟨_, target, parent, alive, fun code ended => ?_⟩
          exact (isValidIpcTarget_iff.mp valid).2.2 ended.current.symm
        | _ => cases state
    obtain ⟨t, target, parent, live, stays⟩ := child
    rw [target]
    rcases r.live_step (by omega) live with ⟨still, same⟩ | ⟨code, ended⟩
    · exact ⟨same.trans parent, still⟩
    · exact absurd ended (stays code)

end MachineRun
end GooseOs
