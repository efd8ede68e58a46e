import GooseOs.Process.Consistency
import GooseOs.Machine.Reference

/-!
Register preservation: a process gets its registers back as it left them, up to the documented
results of the system call it made. Two handlers break this law: `sys_yield` writes `a0` after the
switch, and `sys_call` hands two extra registers to a receiver that expects only `a0` and `a1`.
-/

namespace GooseOs
open Slot Sched Ipc Syscall Trap Security

section Law
variable [Platform]

/-- `g` is what the caller with registers `f` gets back from system call `number`: `sepc` moved past
the `ecall`, and only the documented result registers changed. -/
def ResultOf (number : Nat) (f g : TrapFrame) : Prop :=
  g = { f.advance with a0 := g.a0, a1 := if number = sysReceiveNo then g.a1 else f.a1 }

/-- What a process interrupted by `t` with registers `f` may be resumed with. -/
structure Restored (t : Trap) (f g : TrapFrame) : Prop where
  call : t = .ecall → ResultOf f.a7.toNat f g ∧ (f.a7.toNat = sysYieldNo → g.a0 = 0)
  interrupt : t ≠ .ecall → g = f

/-- The law on a run: whoever traps is resumed with its own registers, and whoever is switched to
finds its saved ones. -/
structure RegistersKept (r : MachineRun) : Prop where
  restored : ∀ i j p t, i < j → j ≤ r.len → r.label i = .trap t → (r.state i).inUser →
    (r.state i).currentPid = p → (r.state j).inUser → (r.state j).currentPid = p →
    (∀ n, i < n → n < j → ¬ ((r.state n).inUser ∧ (r.state n).currentPid = p)) →
    (∀ n, i < n → n ≤ j → ((r.state n).procs p).state ≠ .free) →
    Restored t (r.state i).frame (r.state j).frame
  switched : ∀ n t, n < r.len → r.label n = .trap t → (r.state (n + 1)).inUser →
    (r.state (n + 1)).currentPid ≠ (r.state n).currentPid →
    (r.state (n + 1)).frame = ((r.state (n + 1)).procs (r.state (n + 1)).currentPid).context

/-- A system call that takes neither faulty path: a SYS_YIELD that switches does so between
processes whose `a0` is already 0, and a SYS_CALL that finds its receiver blocked finds it with
the caller's own `a2` and `a3`. -/
structure Harmless (c : Core) : Prop where
  yield : c.frame.a7.toNat = sysYieldNo → ∀ next, nextReady c.procs c.currentPid (maxProcs - 2) = some next →
    c.frame.a0 = 0 ∧ (c.procs next).context.a0 = 0
  call : c.frame.a7.toNat = sysCallNo → ¬ (Platform.net = true ∧ c.frame.a0.toNat = NetServer.netServerPid) →
    wantsFrom (c.procs c.frame.a0.toNat) c.currentPid = true →
    (c.procs c.frame.a0.toNat).context.a2 = c.frame.a2 ∧ (c.procs c.frame.a0.toNat).context.a3 = c.frame.a3

variable {c c' : Core} {t : Trap}

/-- Blocked in system call `number`, with no result yet. -/
inductive BlockedIn (number : Nat) : ProcessState → Prop where
  | send (made : number = sysSendNo) : BlockedIn number .blockedSend
  | receive (made : number = sysReceiveNo) : BlockedIn number .blockedRecv
  | call (made : number = sysCallNo) : BlockedIn number .blockedCall
  | wait (made : number = sysWaitNo) : BlockedIn number .blockedWait
  | net (made : number = sysCallNo) : BlockedIn number .blockedNet

/-- The slot of a process parked by a trap with registers `f`: ready with restored registers, or
blocked in the system call it made. -/
inductive Awaits (t : Trap) (f : TrapFrame) (p : Process) : Prop where
  | ready (state : p.state = .ready) (restored : Restored t f p.context)
  | blocked (call : t = .ecall) (saved : p.context = f.advance) (made : BlockedIn f.a7.toNat p.state)

/-- What became of process `p` after a trap it made with registers `f`. -/
inductive After (t : Trap) (f : TrapFrame) (p : Nat) (c : Core) : Prop where
  | resumed (mode : c.inUser) (current : c.currentPid = p) (restored : Restored t f c.frame)
  | parked (awaits : Awaits t f (c.procs p))
  | ended (free : (c.procs p).state = .free)

section Results
variable {f : TrapFrame} {n : Nat}

omit [Platform] in
theorem restored_a0 {v : Word} (number : f.a7.toNat = n) (other : n ≠ sysYieldNo) :
    Restored .ecall f { f.advance with a0 := v } := by
  refine ⟨fun _ => ⟨?_, fun yields => absurd (number.symm.trans yields) other⟩, fun h => absurd rfl h⟩
  simp [ResultOf]

omit [Platform] in
theorem restored_receive {v s : Word} (number : f.a7.toNat = sysReceiveNo) :
    Restored .ecall f { f.advance with a0 := v, a1 := s } := by
  refine ⟨fun _ => ⟨?_, fun yields => ?_⟩, fun h => absurd rfl h⟩
  · simp [ResultOf, number]
  · exact absurd (number.symm.trans yields) (by decide)

omit [Platform] in
theorem restored_resumes {f : TrapFrame} (resumes : Resumes c t f) : Restored t c.frame f := by
  cases resumes with
  | interrupted cause => exact ⟨fun call => absurd call cause, fun _ => rfl⟩
  | returned v yields =>
    refine ⟨fun _ => ⟨?_, yields⟩, fun other => absurd rfl other⟩
    simp [ResultOf]
  | received number v sender => exact restored_receive number

end Results

omit [Platform] in
theorem BlockedIn.not_running {number : Nat} {state : ProcessState} (made : BlockedIn number state) :
    state ≠ .ready ∧ state ≠ .running ∧ state ≠ .free := by
  cases made <;> exact ⟨nofun, nofun, nofun⟩

omit [Platform] in
theorem Awaits.not_running {f : TrapFrame} {p : Process} (awaits : Awaits t f p) :
    p.state ≠ .running ∧ p.state ≠ .free := by
  cases awaits with
  | ready state => rw [state]; exact ⟨nofun, nofun⟩
  | blocked _ _ made => exact made.not_running.2

/-- A parked system call is blocked in the call that was made, past its `ecall`. -/
theorem parks_blocked {p : Process} (parks : Parks c p) :
    p.context = c.frame.advance ∧ BlockedIn c.frame.a7.toNat p.state := by
  cases parks with
  | send number => exact ⟨rfl, .send number⟩
  | call number => exact ⟨rfl, .call number⟩
  | receive number => exact ⟨rfl, .receive number⟩
  | wait number => exact ⟨rfl, .wait number⟩
  | net number => exact ⟨rfl, .net number⟩

/-- A woken process finds the results of the call it blocked in. -/
theorem wakes_restored {q : Nat} {f g : TrapFrame} (safe : t = .ecall → Harmless c)
    (awaits : Awaits .ecall f (c.procs q)) (wakes : Wakes c t q g) : Restored .ecall f g := by
  have blocked : (c.procs q).context = f.advance ∧ BlockedIn f.a7.toNat (c.procs q).state := by
    cases awaits with
    | blocked _ saved made => exact ⟨saved, made⟩
    | ready state => exact absurd state wakes.not_ready
  obtain ⟨saved, made⟩ := blocked
  cases wakes with
  | send _ _ wanted =>
    rw [wantsFrom_state wanted] at made
    cases made with
    | receive number => exact saved ▸ restored_receive number
  | call number target direct wanted =>
    have payload := (safe rfl).call number direct (target ▸ wanted)
    rw [target, saved] at payload
    rw [wantsFrom_state wanted] at made
    cases made with
    | receive number =>
      rw [saved, ← payload.1, ← payload.2]
      exact restored_receive number
  | receive _ _ _ sender =>
    rw [sender] at made
    cases made with
    | send number => exact saved ▸ restored_a0 number (by decide)
  | reply _ _ caller _ =>
    rw [caller] at made
    cases made with
    | call number => exact saved ▸ restored_a0 number (by decide)
  | exit _ waiter _ =>
    rw [waiter] at made
    cases made with
    | wait number => exact saved ▸ restored_a0 number (by decide)
  | irq _ receiver =>
    rw [receiver] at made
    cases made with
    | receive number => exact saved ▸ restored_receive number

/-- Being changed, but not by itself, leaves a parked process parked. -/
theorem change_awaits {q : Nat} {f : TrapFrame} {t' : Trap} {p : Process} (safe : t' = .ecall → Harmless c)
    (other : q ≠ c.currentPid) (awaits : Awaits t f (c.procs q)) (change : Change c t' q p) : Awaits t f p := by
  cases change with
  | stay =>
    cases awaits with
    | ready state restored => exact .ready state restored
    | blocked call saved made => exact .blocked call saved made
  | wake _ cause =>
    obtain rfl : t = .ecall := by
      cases awaits with
      | blocked call => exact call
      | ready state => exact absurd state cause.not_ready
    exact .ready rfl (wakes_restored safe awaits cause)
  | netWake blocked =>
    cases awaits with
    | ready state => rw [blocked] at state; cases state
    | blocked call saved made =>
      rw [blocked] at made
      cases made with
      | net number =>
        subst call
        exact .ready rfl (saved ▸ restored_a0 number (by decide))
  | park own => exact absurd own other
  | preempted own => exact absurd own other
  | yielded own => exact absurd own other
  | terminated own => exact absurd own other
  | spawned free => exact absurd free awaits.not_running.2

/-- A slot found ready keeps its registers through the first stage of a trap, unless it is the
caller's own. -/
theorem change_context {q : Nat} {p : Process} (ready : (c.procs q).state = .ready)
    (other : q ≠ c.currentPid) (change : Change c t q p) : p.context = (c.procs q).context := by
  cases change with
  | stay => rfl
  | wake _ cause => exact absurd ready cause.not_ready
  | netWake blocked => rw [blocked] at ready; cases ready
  | park own => exact absurd own other
  | preempted own => exact absurd own other
  | yielded own => exact absurd own other
  | terminated own => exact absurd own other
  | spawned free => rw [ready] at free; cases free

section Traps
variable {mid : Nat → Process} {f : TrapFrame} {p : Nat} {t₀ : Trap}
  (cons : Consistent c) (mode : t = .ecall → c.inUser) (safe : t = .ecall → Harmless c)
  (changes : ∀ q, Change c t q (mid q))
include cons safe changes

/-- Without the late write of SYS_YIELD, whoever is loaded gets its saved registers. -/
theorem switch_frame {next : Nat} {g : TrapFrame}
    (frame : g = (mid next).context ∨
      (t = .ecall ∧ c.frame.a7.toNat = sysYieldNo ∧ nextReady c.procs c.currentPid (maxProcs - 2) = some next ∧
        g = { (mid next).context with a0 := 0 })) : g = (mid next).context := by
  rcases frame with same | ⟨call, number, found, rfl⟩
  · exact same
  · have ready := (nextReady_some found).1
    have other : next ≠ c.currentPid := by
      rintro rfl
      rcases cons.toSettled.cases with state | state <;> rw [ready] at state <;> cases state
    have zero := ((safe call).yield number next found).2
    rw [← change_context ready other (changes next)] at zero
    rw [← zero]

include mode in
/-- A process left parked by the first stage of a trap is loaded with its registers, or stays. -/
theorem dispatch_after (dispatch : Dispatch c t mid c') (awaits : Awaits t₀ f (mid p)) : After t₀ f p c' := by
  cases dispatch with
  | resume => exact .parked awaits
  | switch ready range left frame =>
    rename_i next g owners
    have same := switch_frame cons safe changes frame
    by_cases chosen : p = next
    · subst chosen
      have user : g.spp = false := same ▸ cons.change_saved mode (changes p) (by rw [ready]; nofun)
      cases awaits with
      | ready _ restored => exact .resumed user rfl (same ▸ restored)
      | blocked _ _ made => exact absurd ready made.not_running.1
    · refine .parked ?_
      simp only [Function.update_of_ne chosen]
      exact awaits
  | idle => exact .parked awaits

end Traps

/-- The first stage of a trap, on the process that makes it. -/
theorem change_own {p : Process} (running : (c.procs c.currentPid).state = .running) (safe : t = .ecall → Harmless c)
    (change : Change c t c.currentPid p) : p.state = .running ∨ Awaits t c.frame p ∨ p.state = .free := by
  cases change with
  | stay => exact Or.inl running
  | wake other => exact absurd rfl other
  | netWake blocked => rw [running] at blocked; cases blocked
  | park _ call cause =>
    obtain ⟨saved, made⟩ := parks_blocked cause
    exact Or.inr (Or.inl (.blocked call saved made))
  | preempted _ timer =>
    have restored : Restored t c.frame c.frame := ⟨fun call => absurd (timer.symm.trans call) nofun, fun _ => rfl⟩
    exact Or.inr (Or.inl (.ready rfl restored))
  | yielded _ call number chosen =>
    subst call
    have zero := ((safe rfl).yield number _ chosen).1
    have restored : Restored .ecall c.frame c.frame.advance :=
      ⟨fun _ => ⟨by rw [ResultOf, number]; rfl, fun _ => zero⟩, fun other => absurd rfl other⟩
    exact Or.inr (Or.inl (.ready rfl restored))
  | terminated => exact Or.inr (Or.inr rfl)
  | spawned free => rw [running] at free; cases free

theorem traps_after (cons : Consistent c) (user : c.inUser) (safe : t = .ecall → Harmless c)
    (traps : Traps c t c') : After t c.frame c.currentPid c' := by
  obtain ⟨mid, changes, dispatch⟩ := traps
  have running := (cons.running user).1
  rcases change_own running safe (changes c.currentPid) with stays | awaits | free
  · cases dispatch with
    | resume _ resumes => exact .resumed ((Consistent.resumes_spp resumes).trans user) rfl (restored_resumes resumes)
    | switch _ _ left => exact absurd stays left
    | idle _ left => exact absurd stays left
  · exact dispatch_after cons (fun _ => user) safe changes dispatch awaits
  · refine .ended ?_
    cases dispatch with
    | resume => exact free
    | switch ready range left frame =>
      rename_i next g owners
      have other : c.currentPid ≠ next := by
        rintro rfl
        rw [ready] at free
        cases free
      simp only [Function.update_of_ne other]
      exact free
    | idle => exact free

theorem awaits_after {t₀ : Trap} {f : TrapFrame} {p : Nat} (cons : Consistent c) (mode : t = .ecall → c.inUser)
    (safe : t = .ecall → Harmless c) (traps : Traps c t c') (awaits : Awaits t₀ f (c.procs p)) : After t₀ f p c' := by
  obtain ⟨mid, changes, dispatch⟩ := traps
  have other : p ≠ c.currentPid := by
    rintro rfl
    rcases cons.toSettled.cases with state | state
    · exact awaits.not_running.1 state
    · exact awaits.not_running.2 state
  exact dispatch_after cons mode safe changes dispatch (change_awaits safe other awaits (changes p))

theorem traps_switched (cons : Consistent c) (safe : t = .ecall → Harmless c) (traps : Traps c t c')
    (user : c'.inUser) (switched : c'.currentPid ≠ c.currentPid) :
    c'.frame = (c'.procs c'.currentPid).context := by
  obtain ⟨mid, changes, dispatch⟩ := traps
  cases dispatch with
  | resume => exact absurd rfl switched
  | switch _ _ _ frame =>
    simp only [Function.update_self]
    exact switch_frame cons safe changes frame
  | idle idle =>
    rw [Core.inUser] at user
    simp only [idle] at user
    cases user

section Run
variable (r : MachineRun) (safe : ∀ n, n < r.len → r.label n = .trap .ecall → Harmless (r.state n).toCore)
include safe

theorem harmless_at {n : Nat} (bound : n < r.len) (label : r.label n = .trap t) :
    t = .ecall → Harmless (r.state n).toCore := by
  rintro rfl
  exact safe n bound label

/-- One step keeps a parked process parked, unless it resumes it or the process has ended. -/
theorem step_after {p n : Nat} {f : TrapFrame} (bound : n < r.len) (awaits : Awaits t f ((r.state n).procs p)) :
    After t f p (r.state (n + 1)).toCore := by
  have step := r.steps n bound
  by_cases trap : ∃ t', r.label n = .trap t'
  · obtain ⟨t', label⟩ := trap
    rw [label] at step
    exact awaits_after (r.consistent (by omega)) (step_trap step).2 (harmless_at r safe bound label)
      (r.traps bound label) awaits
  · have procs := (step_other step fun t' same => trap ⟨t', same⟩).1
    refine .parked ?_
    rw [procs]
    exact awaits

/-- Until it runs again, a process that trapped stays parked. -/
theorem run_after {i j : Nat} (bound : i < r.len) (label : r.label i = .trap t) (user : (r.state i).inUser)
    (later : i < j) (last : j ≤ r.len)
    (away : ∀ n, i < n → n < j → ¬ ((r.state n).inUser ∧ (r.state n).currentPid = (r.state i).currentPid))
    (alive : ∀ n, i < n → n ≤ j → ((r.state n).procs (r.state i).currentPid).state ≠ .free) :
    After t (r.state i).frame (r.state i).currentPid (r.state j).toCore := by
  induction j with
  | zero => omega
  | succ j ih =>
    by_cases first : j = i
    · subst first
      exact traps_after (r.consistent (by omega)) user (harmless_at r safe bound label) (r.traps bound label)
    · have before := ih (by omega) (by omega) (fun n above below => away n above (by omega))
        fun n above below => alive n above (by omega)
      cases before with
      | resumed mode current => exact absurd ⟨mode, current⟩ (away j (by omega) (by omega))
      | parked awaits => exact step_after r safe (by omega) awaits
      | ended free => exact absurd free (alive j (by omega) (by omega))

/-- Runs that avoid the two faulty paths keep everybody's registers. -/
theorem registersKept_of_harmless : RegistersKept r := by
  refine ⟨fun i j p t later last label user current back again away alive => ?_, fun n t bound label user switched => ?_⟩
  · subst current
    cases run_after r safe (by omega) label user later last away alive with
    | resumed _ _ restored => exact restored
    | parked awaits =>
      have running := ((r.consistent last).running back).1
      rw [again] at running
      exact absurd running awaits.not_running.1
    | ended free => exact absurd free (alive j later (by omega))
  · exact traps_switched (r.consistent (by omega)) (harmless_at r safe bound label) (r.traps bound label) user switched

end Run
end Law

/-! ### On the reference board -/

section Reference
open Reference
attribute [local instance] Reference.platform

/-- PID 1 is preempted with 5 in `a0`, and PID 2 yields to it. -/
noncomputable def preemptedRun : MachineRun :=
  script [.user (calling 0 5 0), .timer, .user (calling sysYieldNo 0 0), .ecall]

/-- PID 1 gets 0 back in `a0`. -/
theorem registersKept_fails : ¬ RegistersKept preemptedRun := by
  intro kept
  have others : ∀ n < 4, 1 < n → (preemptedRun.state n).currentPid ≠ 1 := by decide
  have away : ∀ n, 1 < n → n < 4 → ¬ ((preemptedRun.state n).inUser ∧ (preemptedRun.state n).currentPid = 1) :=
    fun n lower upper runs => others n upper lower runs.2
  have live : ∀ n < 5, 1 < n → ((preemptedRun.state n).procs 1).state ≠ .free := by decide
  have alive : ∀ n, 1 < n → n ≤ 4 → ((preemptedRun.state n).procs 1).state ≠ .free :=
    fun n lower upper => live n (Nat.lt_succ_of_le upper) lower
  have restored := kept.restored 1 4 1 .timer (by decide) (by decide) rfl rfl rfl rfl rfl away alive
  exact absurd (congrArg TrapFrame.a0 (restored.interrupt nofun)) (by decide)

/-- PID 1 yields to PID 2, both with 0 in `a0`. -/
theorem registersKept_yield : RegistersKept (script [.user (calling sysYieldNo 0 0), .ecall]) := by
  refine registersKept_of_harmless _ fun n bound label => ?_
  have last : n < 2 := bound
  rcases (by omega : n = 0 ∨ n = 1) with rfl | rfl
  · cases label
  · refine ⟨fun _ next found => ?_, fun number => absurd number (by decide)⟩
    obtain rfl : 2 = next := Option.some.inj found
    exact ⟨by decide, by decide⟩

end Reference

end GooseOs
