import GooseOs.Process.Calls

/-!
From the answer to the return. A process that has been woken waits for the scheduler with its answer among its saved
registers; a SYS_YIELD that switches to it puts 0 into `a0`.
-/

namespace GooseOs
open Slot Sched Ipc Trap
variable [Platform]

namespace MachineRun

/-- `p` has not run since step `w`. -/
def Away (r : MachineRun) (w n p : Nat) : Prop := ∀ i, w < i → i < n → ¬ ((r.state i).inUser ∧ (r.state i).currentPid = p)

variable {r : MachineRun} {n j p q : Nat} {code : Word}

theorem Away.of_currentPid {w : Nat} (others : ∀ i < n, w < i → (r.state i).currentPid ≠ p) : r.Away w n p :=
  fun i above below runs => others i below above runs.2

/-- A ready process stays ready with its registers until it is loaded. -/
theorem ready_step (r : MachineRun) (bound : n < r.len) (ready : ((r.state n).procs p).state = .ready) :
    (((r.state (n + 1)).procs p).state = .ready ∨ ((r.state (n + 1)).procs p).state = .running) ∧
      ((r.state (n + 1)).procs p).context = ((r.state n).procs p).context := by
  by_cases trap : ∃ cause, r.label n = .trap cause
  · obtain ⟨cause, label⟩ := trap
    obtain ⟨mid, changes, dispatch⟩ := r.traps bound label
    have other : p ≠ (r.state n).currentPid := by
      rintro rfl
      rcases (r.consistent (Nat.le_of_lt bound)).toSettled.cases with state | state <;>
        (rw [ready] at state; cases state)
    have change := changes p
    have later := Consistent.dispatch_procs dispatch p
    generalize mid p = slot at change later
    cases change with
    | stay =>
      rcases later with same | ⟨-, ran⟩
      · rw [same]
        exact ⟨Or.inl ready, rfl⟩
      · rw [ran]
        exact ⟨Or.inr rfl, rfl⟩
    | wake _ cause => exact absurd ready cause.not_ready
    | netWake blocked => exact absurd (blocked.symm.trans ready) nofun
    | park own => exact absurd own other
    | preempted own => exact absurd own other
    | yielded own => exact absurd own other
    | terminated own => exact absurd own other
    | spawned free => exact absurd (free.symm.trans ready) nofun
  · have procs := (step_other (r.steps n bound) fun cause same => trap ⟨cause, same⟩).1
    rw [procs]
    exact ⟨Or.inl ready, rfl⟩

/-- Whoever is loaded gets its saved registers, with `a0 = 0` from a SYS_YIELD. -/
theorem loaded_frame (r : MachineRun) (bound : n < r.len) (parked : ((r.state n).procs p).state ≠ .running)
    (runs : ((r.state (n + 1)).procs p).state = .running) :
    (r.state (n + 1)).frame = ((r.state (n + 1)).procs p).context ∨
      ((r.state (n + 1)).frame = { ((r.state (n + 1)).procs p).context with a0 := 0 } ∧
        ∃ q, r.CallAt n sysYieldNo q ∧ nextReady (r.state n).procs q (maxProcs - 2) = some p) := by
  obtain ⟨current, user⟩ := (r.consistent bound).only p runs
  by_cases trap : ∃ cause, r.label n = .trap cause
  · obtain ⟨cause, label⟩ := trap
    obtain ⟨mid, changes, dispatch⟩ := r.traps bound label
    generalize (r.state (n + 1)).toCore = after at *
    cases dispatch with
    | resume => exact absurd (change_running (changes p) runs) parked
    | switch ready range left frame =>
      obtain rfl : p = _ := current
      simp only [Function.update_self]
      rcases frame with rfl | ⟨rfl, number, found, rfl⟩
      · exact Or.inl rfl
      · exact Or.inr ⟨rfl, _, ⟨bound, label, number, rfl⟩, found⟩
    | idle => exact absurd (change_running (changes p) runs) parked
  · have procs := (step_other (r.steps n bound) fun cause same => trap ⟨cause, same⟩).1
    rw [procs] at runs
    exact absurd runs parked

/-- A SYS_YIELD that finds a ready process loads it, and leaves 0 in its `a0`. -/
theorem CallAt.yields (call : r.CallAt n sysYieldNo q)
    (chosen : nextReady (r.state n).procs q (maxProcs - 2) = some p) :
    (r.state (n + 1)).inUser ∧ (r.state (n + 1)).currentPid = p ∧ (r.state (n + 1)).frame.a0 = 0 := by
  have caller := call.caller
  have range := call.range
  subst caller
  have handled : sysYield (r.state n).toCore = .ok (r.state (n + 1)).toCore :=
    call.onCore (by rw [handleEcall, call.number]; rfl)
  have after := sysYield_switched range chosen handled
  have running : ((r.state (n + 1)).procs p).state = .running := by
    rw [congrArg Core.procs after]
    simp [load]
  refine ⟨((r.consistent call.bound).only p running).2, ?_, ?_⟩
  · rw [congrArg Core.currentPid after]
    rfl
  · rw [congrArg (fun c => c.frame.a0) after]
    rfl

/-- Until it runs again, a woken process is ready with the registers it was woken with. -/
theorem ready_until (bound : j ≤ r.len)
    (woken : ((r.state (n + 1)).procs p).state = .ready ∨ ((r.state (n + 1)).procs p).state = .running)
    (away : r.Away n j p) : ∀ i, n < i → i < j →
      ((r.state i).procs p).state = .ready ∧ ((r.state i).procs p).context = ((r.state (n + 1)).procs p).context := by
  have idle : ∀ i, n < i → i < j → ((r.state i).procs p).state ≠ .running := by
    intro i above below running
    obtain ⟨current, mode⟩ := (r.consistent (by omega)).only p running
    exact away i above below ⟨mode, current.symm⟩
  intro i above below
  induction i with
  | zero => omega
  | succ i ih =>
    rcases Nat.lt_or_ge n i with inner | first
    · obtain ⟨ready, same⟩ := ih inner (by omega)
      obtain ⟨state, context⟩ := r.ready_step (by omega) ready
      exact ⟨state.resolve_right (idle (i + 1) above below), context.trans same⟩
    · obtain rfl : i = n := by omega
      exact ⟨woken.resolve_right (idle (i + 1) above below), rfl⟩

/-- A woken process returns with the registers it was woken with, but for a SYS_YIELD that switches to it. -/
theorem returned_frame (later : n < j) (bound : j ≤ r.len) (parked : ((r.state n).procs p).state ≠ .running)
    (woken : ((r.state (n + 1)).procs p).state = .ready ∨ ((r.state (n + 1)).procs p).state = .running)
    (user : (r.state j).inUser) (back : (r.state j).currentPid = p) (away : r.Away n j p) :
    (r.state j).frame = ((r.state (n + 1)).procs p).context ∨
      ((r.state j).frame = { ((r.state (n + 1)).procs p).context with a0 := 0 } ∧
        ∃ i q, n ≤ i ∧ i < j ∧ r.CallAt i sysYieldNo q ∧ nextReady (r.state i).procs q (maxProcs - 2) = some p ∧
          (n < i → ((r.state i).procs p).context = ((r.state (n + 1)).procs p).context)) := by
  have waiting := ready_until bound woken away
  obtain ⟨i, rfl⟩ : ∃ i, j = i + 1 := ⟨j - 1, by omega⟩
  have running := ((r.consistent bound).running user).1
  rw [back] at running
  have absent : ((r.state i).procs p).state ≠ .running := by
    rcases Nat.lt_or_ge n i with inner | first
    · rw [(waiting i inner (Nat.lt_succ_self i)).1]
      nofun
    · obtain rfl : i = n := by omega
      exact parked
  have same : ((r.state (i + 1)).procs p).context = ((r.state (n + 1)).procs p).context := by
    rcases Nat.lt_or_ge n i with inner | first
    · obtain ⟨ready, context⟩ := waiting i inner (Nat.lt_succ_self i)
      exact (r.ready_step bound ready).2.trans context
    · obtain rfl : i = n := by omega
      rfl
  rw [← same]
  refine (r.loaded_frame bound absent running).imp id ?_
  rintro ⟨frame, q, call, found⟩
  refine ⟨frame, i, q, by omega, Nat.lt_succ_self i, call, found, fun inner => ?_⟩
  rw [same]
  exact (waiting i inner (Nat.lt_succ_self i)).2

/-- An answered process returns with its answer, if no SYS_YIELD overwrites it. -/
theorem answered_returns (clear : ∀ i q, n ≤ i → i < j → r.CallAt i sysYieldNo q →
      nextReady (r.state i).procs q (maxProcs - 2) = some p → ((r.state i).procs p).context.a0 = 0)
    (later : n < j) (bound : j ≤ r.len) (parked : ((r.state n).procs p).state ≠ .running)
    (woken : ((r.state (n + 1)).procs p).state = .ready ∨ ((r.state (n + 1)).procs p).state = .running)
    (answer : ((r.state (n + 1)).procs p).context.a0 = code) (user : (r.state j).inUser)
    (back : (r.state j).currentPid = p) (away : r.Away n j p) (number : ∀ q, ¬ r.CallAt n sysYieldNo q) :
    (r.state j).frame.a0 = code := by
  rcases returned_frame later bound parked woken user back away with same | ⟨zero, i, q, above, below, call, found, kept⟩
  · rw [same]
    exact answer
  · have inner : n < i := by
      rcases Nat.lt_or_eq_of_le above with inner | rfl
      · exact inner
      · exact absurd call (number q)
    have cleared := clear i q above below call found
    rw [kept inner, answer] at cleared
    rw [zero]
    exact cleared.symm

end MachineRun
end GooseOs
