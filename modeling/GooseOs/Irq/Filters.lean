import GooseOs.Irq.Notices
import GooseOs.Process.Delivery

/-!
The sender filter of SYS_RECEIVE. The scan and the two rendezvous tests honour it; an interrupt is
handed to its owner in any receive, whoever the owner waits for.
-/

namespace GooseOs
open Slot Sched Ipc Trap Security

section Law
variable [Platform]

/-- The interrupt is written to the saved registers of a receiver, which is woken. -/
structure Handed (irq : Nat) (p p' : Process) : Prop where
  context : p'.context = { p.context with a0 := BitVec.ofNat 64 irq, a1 := 0 }
  woken : p'.state = .ready ∨ p'.state = .running
  flag : p'.irqPending = p.irqPending

/-- The interrupt waits in the flag; at most the process is loaded. -/
structure Flagged (p p' : Process) : Prop where
  flag : p'.irqPending = true
  context : p'.context = p.context
  state : p'.state = p.state ∨ (p.state = .ready ∧ p'.state = .running)

/-- `p` has been blocked in a SYS_RECEIVE from `k` since it made the call. -/
def MachineRun.WaitsFrom (r : MachineRun) (n p : Nat) (k : Word) : Prop :=
  ∃ i, i < n ∧ r.CallAt i sysReceiveNo p ∧ (r.state i).frame.a0 = k ∧
    ∀ j, i < j → j ≤ n → ((r.state j).procs p).state = .blockedRecv

/-- The law on a run: a SYS_RECEIVE from a given process returns that process as the sender; an
interrupt is handed to a SYS_RECEIVE from anyone, and otherwise stays pending for the next one. -/
structure FilterHonoured (r : MachineRun) : Prop where
  sender : ∀ i j p, r.CallAt i sysReceiveNo p → (r.state i).frame.a0 ≠ 0 → i < j → j ≤ r.len →
    (r.state j).inUser → (r.state j).currentPid = p → r.Away i j p → (r.state j).frame.a1 = (r.state i).frame.a0
  handed : ∀ n irq p, n < r.len → r.label n = .trap (.external irq) → irq ≠ 0 →
    Syscall.irqOwner (r.state n) irq = p → p ≠ 0 → r.WaitsFrom n p 0 →
    Handed irq ((r.state n).procs p) ((r.state (n + 1)).procs p)
  flagged : ∀ n irq p, n < r.len → r.label n = .trap (.external irq) → irq ≠ 0 →
    Syscall.irqOwner (r.state n) irq = p → p ≠ 0 → ¬ r.WaitsFrom n p 0 →
    Flagged ((r.state n).procs p) ((r.state (n + 1)).procs p)
  kept : ∀ n p, n < r.len → ((r.state n).procs p).irqPending = true → ((r.state n).procs p).state ≠ .free →
    (r.CallAt n sysReceiveNo p → (r.state n).frame.a0 ≠ 0) → ((r.state (n + 1)).procs p).irqPending = true
  collected : ∀ n p, r.CallAt n sysReceiveNo p → (r.state n).frame.a0 = 0 → ((r.state n).procs p).irqPending = true →
    (r.state (n + 1)).currentPid = p ∧ (r.state (n + 1)).frame.a1 = 0 ∧
      ((r.state (n + 1)).procs p).irqPending = false

/-- No interrupt finds its owner blocked in a SYS_RECEIVE from a given process. -/
def NoticesWelcome (r : MachineRun) : Prop :=
  ∀ n irq, n < r.len → r.label n = .trap (.external irq) → irq ≠ 0 →
    ((r.state n).procs (Syscall.irqOwner (r.state n) irq)).state = .blockedRecv →
    ((r.state n).procs (Syscall.irqOwner (r.state n) irq)).ipcTarget = 0

/-! ### The interrupt -/

section External
variable {k k' : Kernel} {irq p : Nat}

/-- An owned interrupt is notified, and the idle loop may then load a process. -/
theorem external_notifies (h : handleExternal k irq = .ok k') (nonzero : irq ≠ 0)
    (owner : Syscall.irqOwner k irq = p) (used : p ≠ 0) :
    let notified := (irqNotify k.toCore irq p).procs p
    k'.procs p = notified ∨ (notified.state = .ready ∧ k'.procs p = { notified with state := .running }) := by
  have handed : Syscall.irqOwner { k with plic := k.plic.claim irq } irq = p := owner
  unfold handleExternal at h
  dsimp only at h ⊢
  rw [if_neg nonzero, handed, if_pos used] at h
  have same : irqNotify ({ k with plic := k.plic.claim irq } : Kernel).toCore irq p = irqNotify k.toCore irq p := rfl
  rw [same] at h
  split at h
  · cases h
    unfold scheduleFromIdle
    split
    · exact .inl rfl
    · next next found =>
      by_cases own : p = next
      · subst own
        exact .inr ⟨(firstReady_some found).1, by simp [load]⟩
      · exact .inl (by simp [load, Function.update_of_ne own])
  · cases h
    exact .inl rfl

omit [Platform] in
theorem irqNotify_blocked {c : Core} (blocked : (c.procs p).state = .blockedRecv) :
    (irqNotify c irq p).procs p =
      { c.procs p with context := { (c.procs p).context with a0 := BitVec.ofNat 64 irq, a1 := 0 }, state := .ready } := by
  simp [irqNotify, blocked]

omit [Platform] in
theorem irqNotify_busy {c : Core} (busy : (c.procs p).state ≠ .blockedRecv) :
    (irqNotify c irq p).procs p = { c.procs p with irqPending := true } := by
  simp [irqNotify, busy]

theorem external_handed (h : handleExternal k irq = .ok k') (nonzero : irq ≠ 0)
    (owner : Syscall.irqOwner k irq = p) (used : p ≠ 0) (blocked : (k.procs p).state = .blockedRecv) :
    Handed irq (k.procs p) (k'.procs p) := by
  have notified := external_notifies h nonzero owner used
  rw [irqNotify_blocked blocked] at notified
  rcases notified with same | ⟨-, same⟩
  · rw [same]
    exact ⟨rfl, .inl rfl, rfl⟩
  · rw [same]
    exact ⟨rfl, .inr rfl, rfl⟩

theorem external_flagged (h : handleExternal k irq = .ok k') (nonzero : irq ≠ 0)
    (owner : Syscall.irqOwner k irq = p) (used : p ≠ 0) (busy : (k.procs p).state ≠ .blockedRecv) :
    Flagged (k.procs p) (k'.procs p) := by
  have notified := external_notifies h nonzero owner used
  rw [irqNotify_busy busy] at notified
  rcases notified with same | ⟨ready, same⟩
  · rw [same]
    exact ⟨rfl, rfl, .inl rfl⟩
  · rw [same]
    exact ⟨rfl, rfl, .inr ⟨ready, rfl⟩⟩

/-- SYS_RECEIVE from anyone collects a pending interrupt at once. -/
theorem sysReceive_collects {c c' : Core} (h : sysReceive c = .ok c') (anyone : c.frame.a0.toNat = 0)
    (pending : (c.procs c.currentPid).irqPending = true) :
    c'.currentPid = c.currentPid ∧ c'.frame.a1 = 0 ∧ (c'.procs c.currentPid).irqPending = false := by
  unfold sysReceive at h
  dsimp only at h
  split at h
  · cases h
    exact ⟨rfl, rfl, by simp⟩
  · next quiet => exact absurd (by simp [pending, anyone]) quiet

end External

namespace IrqTable
variable {s : IrqTable} {e : IrqEvent} {pid : Nat}

omit [Platform] in
/-- A pending flag stays until the process collects it or its slot is filled anew. -/
theorem pending_kept (pending : (s.slot pid).pending = true) (taken : e ≠ .take pid) (spawned : e ≠ .spawned pid) :
    ((s.apply e).slot pid).pending = true := by
  cases e with
  | none => exact pending
  | register p q =>
    by_cases accepted : s.Accepts q
    · rw [apply, if_pos accepted]
      by_cases own : pid = p
      · subst own
        simpa using pending
      · simpa [Function.update_of_ne own] using pending
    · rw [register_refused accepted]
      exact pending
  | ack p =>
    simp only [apply]
    split <;> exact pending
  | take p =>
    have other : pid ≠ p := fun own => taken (own ▸ rfl)
    simpa [apply, Function.update_of_ne other] using pending
  | ended p =>
    by_cases own : pid = p
    · subst own
      simpa [apply] using pending
    · simpa [apply, Function.update_of_ne own] using pending
  | spawned p =>
    have other : pid ≠ p := fun own => spawned (own ▸ rfl)
    simpa [apply, Function.update_of_ne other] using pending
  | raised q waiting =>
    by_cases zero : q = 0
    · rw [apply, if_pos zero]
      exact pending
    by_cases owned : s.handler q ≠ 0
    · rw [raised_owned zero owned]
      cases waiting
      · by_cases own : pid = s.handler q
        · subst own
          simp
        · simpa [Function.update_of_ne own] using pending
      · exact pending
    · rw [raised_unowned zero (not_not.mp owned)]
      exact pending

end IrqTable

theorem StepEvent.take_anyone {k : Kernel} {l : Label} {e : IrqEvent} {p : Nat} (event : StepEvent k l e)
    (same : e = .take p) : k.frame.a0 = 0 := by
  cases event with
  | trap t =>
    cases t with
    | timer | unhandled code | fault code | external irq => cases same
    | ecall =>
      unfold irqEvent at same
      dsimp only at same
      split at same
      · cases same
      · split at same
        · next pending =>
          rw [Bool.and_eq_true, beq_iff_eq] at pending
          exact BitVec.eq_of_toNat_eq pending.2
        · cases same
      · cases same
      · cases same
      · cases same
  | spawned | other => cases same

namespace MachineRun
variable {r : MachineRun} {n p irq : Nat}

theorem external_at (bound : n < r.len) (label : r.label n = .trap (.external irq)) :
    handleExternal (r.state n) irq = .ok (r.state (n + 1)) := by
  have step := r.steps n bound
  rw [label] at step
  exact (step_trap step).1

/-! ### The call behind a blocked receiver -/

theorem waitsFrom_of_blocked (bound : n ≤ r.len) (blocked : ((r.state n).procs p).state = .blockedRecv) :
    ∃ k, r.WaitsFrom n p k ∧ k.toNat = ((r.state n).procs p).ipcTarget := by
  obtain ⟨b, slot, since⟩ := r.blockedSince bound (.inr (.inl blocked))
  have now := since.since n since.before le_rfl
  have state := now.state
  have target := now.ipcTarget
  have parks := since.parks
  rw [blocked] at state
  cases parks with
  | receive number =>
    refine ⟨(r.state b).frame.a0, ⟨b, since.before, ⟨since.bound, since.label, number, since.caller⟩, rfl, ?_⟩, target.symm⟩
    intro j above below
    exact (since.since j above below).state
  | send | call | wait | net => cases state

theorem WaitsFrom.unique {k k' : Word} (waits : r.WaitsFrom n p k) (waits' : r.WaitsFrom n p k') :
    k = k' := by
  obtain ⟨i, before, call, rfl, since⟩ := waits
  obtain ⟨i', before', call', rfl, since'⟩ := waits'
  rcases Nat.lt_trichotomy i i' with earlier | rfl | later
  · have blocked := since i' earlier (by omega)
    rw [call'.running.1] at blocked
    cases blocked
  · rfl
  · have blocked := since' i later (by omega)
    rw [call.running.1] at blocked
    cases blocked

theorem WaitsFrom.blocked {k : Word} (waits : r.WaitsFrom n p k) : ((r.state n).procs p).state = .blockedRecv := by
  obtain ⟨i, before, -, -, since⟩ := waits
  exact since n before le_rfl

/-! ### A receive from a given process -/

/-- What a SYS_RECEIVE from `k` has come to: still blocked, answered by `k`, or returned from. -/
inductive Owed (r : MachineRun) (n p : Nat) (k : Word) : Prop where
  | blocked (state : ((r.state n).procs p).state = .blockedRecv) (target : ((r.state n).procs p).ipcTarget = k.toNat)
  | answered (state : ((r.state n).procs p).state = .ready) (sender : ((r.state n).procs p).context.a1 = k)
  | returned (state : ((r.state n).procs p).state = .running) (sender : (r.state n).frame.a1 = k)

/-- The call itself: a blocked sender answers at once, or the caller blocks. -/
theorem CallAt.owed (call : r.CallAt n sysReceiveNo p) (given : (r.state n).frame.a0 ≠ 0) :
    r.Owed (n + 1) p (r.state n).frame.a0 := by
  have received := call.sysReceive
  have running := call.running.1
  have caller := call.caller
  subst caller
  have given : (r.state n).frame.a0.toNat ≠ 0 := fun zero => given (BitVec.eq_of_toNat_eq zero)
  have quiet : ¬ (((r.state n).procs (r.state n).currentPid).irqPending = true ∧ (r.state n).frame.a0.toNat = 0) :=
    fun pending => given pending.2
  cases found : findSender (r.state n).procs (r.state n).currentPid (r.state n).frame.a0.toNat with
  | some i =>
    obtain ⟨-, frame, procs⟩ := sysReceive_found received quiet found
    obtain ⟨sender, -, named, -⟩ := findSender_some found
    have other : (r.state n).currentPid ≠ i := by
      rintro same
      rw [← same, running] at sender
      rcases sender with h | h <;> cases h
    refine .returned ?_ ?_
    · rw [procs]
      split
      · rw [Function.update_of_ne other]
        exact running
      · exact running
    · rw [frame, ← named.resolve_left given]
      simp
  | none =>
    have parked := sysReceive_parked received given found
    exact .blocked (congrArg Process.state parked) (congrArg Process.ipcTarget parked)

theorem woken_by (welcome : NoticesWelcome r) (bound : n < r.len) {k : Word} (given : k ≠ 0)
    (blocked : ((r.state n).procs p).state = .blockedRecv) (target : ((r.state n).procs p).ipcTarget = k.toNat)
    {t : Trap} {f : TrapFrame} (label : r.label n = .trap t) (cause : Wakes (r.state n).toCore t p f)
    (left : ((r.state (n + 1)).procs p).state ≠ .blockedRecv) : f.a1 = k := by
  have given : k.toNat ≠ 0 := fun zero => given (BitVec.eq_of_toNat_eq zero)
  have named : ∀ s, wantsFrom ((r.state n).procs p) s = true → BitVec.ofNat 64 s = k := by
    intro s wanted
    simp only [wantsFrom, Bool.and_eq_true, Bool.or_eq_true, beq_iff_eq, target] at wanted
    rw [← wanted.2.resolve_left given]
    simp
  cases cause with
  | send _ _ wanted => exact named _ wanted
  | call _ _ _ wanted => exact named _ wanted
  | receive _ _ _ sender => exact absurd (blocked.symm.trans sender) (by decide)
  | reply _ _ caller => exact absurd (blocked.symm.trans caller) (by decide)
  | exit _ waiter => exact absurd (blocked.symm.trans waiter) (by decide)
  | @irq _ irq owner =>
    exfalso
    have live : ((r.state n).procs p).state ≠ .free := by rw [blocked]; decide
    have used := ((r.consistent (Nat.le_of_lt bound)).range p live).1
    have valid := (r.irqs_sound (Nat.le_of_lt bound)).valid irq (by
      show (r.state n).irqOwner irq ≠ 0
      rw [owner]
      omega)
    have owned : Syscall.irqOwner (r.state n) irq = p := by
      rw [Syscall.irqOwner, if_neg (by simp [valid]), owner]
    by_cases zero : irq = 0
    · have handled := external_at bound label
      rw [zero] at handled
      have same : r.state n = r.state (n + 1) := Except.ok.inj handled
      rw [← same] at left
      exact left blocked
    · have open' := welcome n irq bound label zero (by rw [owned]; exact blocked)
      rw [owned, target] at open'
      exact given open'

/-- Until the process runs again, its call stays owed to `k`. -/
theorem Owed.step (welcome : NoticesWelcome r) (bound : n < r.len) {k : Word} (given : k ≠ 0) (owed : r.Owed n p k)
    (away : ((r.state n).procs p).state ≠ .running) : r.Owed (n + 1) p k := by
  have loaded : ((r.state (n + 1)).procs p).state = .running →
      (r.state (n + 1)).frame.a1 = ((r.state (n + 1)).procs p).context.a1 := by
    intro runs
    rcases r.loaded_frame bound away runs with same | ⟨same, -⟩ <;> rw [same]
  cases owed with
  | returned state => exact absurd state away
  | answered state sender =>
    obtain ⟨ready | runs, context⟩ := r.ready_step bound state
    · exact .answered ready (by rw [context, sender])
    · exact .returned runs (by rw [loaded runs, context, sender])
  | blocked state target =>
    rcases r.blocked_step bound (.inr (.inl state)) with kept | ⟨t, f, next, label, cause, runs, after⟩
    · exact .blocked (kept.state.trans state) (kept.ipcTarget.trans target)
    · have left : ((r.state (n + 1)).procs p).state ≠ .blockedRecv := by
        rw [after]
        rcases runs with rfl | rfl <;> nofun
      have sender := woken_by welcome bound given state target label cause left
      rcases runs with rfl | rfl
      · exact .answered (by rw [after]) (by rw [after]; exact sender)
      · have running : ((r.state (n + 1)).procs p).state = .running := by rw [after]
        refine .returned running ?_
        rw [loaded running, after]
        exact sender

theorem CallAt.owed_until (welcome : NoticesWelcome r) {i j : Nat} (call : r.CallAt i sysReceiveNo p)
    (given : (r.state i).frame.a0 ≠ 0) (later : i < j) (last : j ≤ r.len) (away : r.Away i j p) :
    r.Owed j p (r.state i).frame.a0 := by
  induction j with
  | zero => omega
  | succ j ih =>
    by_cases first : j = i
    · exact first ▸ call.owed given
    · have before := ih (by omega) (by omega) fun n above below => away n above (by omega)
      refine before.step welcome (by omega) given fun running => ?_
      obtain ⟨current, user⟩ := (r.consistent (by omega : j ≤ r.len)).only p running
      exact away j (by omega) (by omega) ⟨user, current.symm⟩

end MachineRun

/-- The filter holds on a run exactly if no interrupt finds its owner waiting for somebody else. -/
theorem filterHonoured_iff (r : MachineRun) : FilterHonoured r ↔ NoticesWelcome r := by
  constructor
  · intro honoured n irq bound label nonzero blocked
    by_contra given
    have live : ((r.state n).procs (Syscall.irqOwner (r.state n) irq)).state ≠ .free := by rw [blocked]; decide
    have used := ((r.consistent (Nat.le_of_lt bound)).range _ live).1
    obtain ⟨k, waits, target⟩ := MachineRun.waitsFrom_of_blocked (Nat.le_of_lt bound) blocked
    have other : ¬ r.WaitsFrom n (Syscall.irqOwner (r.state n) irq) 0 := by
      intro anyone
      rw [← target, waits.unique anyone] at given
      exact given rfl
    have flagged := (honoured.flagged n irq _ bound label nonzero rfl (by omega) other).state
    rw [blocked] at flagged
    have woken := (external_handed (MachineRun.external_at bound label) nonzero rfl (by omega) blocked).woken
    rcases flagged with same | ⟨ready, -⟩
    · rw [same] at woken
      rcases woken with h | h <;> cases h
    · cases ready
  · intro welcome
    refine ⟨fun i j p call given later last user current away => ?_, fun n irq p bound label nonzero owner used waits => ?_,
      fun n irq p bound label nonzero owner used other => ?_, fun n p bound pending live uncalled => ?_,
      fun n p call anyone pending => ?_⟩
    · have running := ((r.consistent last).running user).1
      rw [current] at running
      cases call.owed_until welcome given later last away with
      | blocked state => rw [running] at state; cases state
      | answered state => rw [running] at state; cases state
      | returned _ sender => exact sender
    · exact external_handed (MachineRun.external_at bound label) nonzero owner used waits.blocked
    · refine external_flagged (MachineRun.external_at bound label) nonzero owner used fun blocked => ?_
      obtain ⟨k, waits, target⟩ := MachineRun.waitsFrom_of_blocked (Nat.le_of_lt bound) blocked
      subst owner
      rw [welcome n irq bound label nonzero blocked] at target
      obtain rfl : k = 0 := BitVec.eq_of_toNat_eq target
      exact other waits
    · obtain ⟨e, event, possible, same⟩ := r.event bound
      have flag : ((r.state n).irqs.slot p).pending = true := pending
      have stays : ((r.state (n + 1)).irqs.slot p).pending = true := by
        rw [same]
        refine IrqTable.pending_kept flag (fun taken => ?_) fun spawned => ?_
        · obtain ⟨label, number, caller⟩ := event.take taken
          have given := uncalled ⟨bound, label, number, caller⟩
          exact given (event.take_anyone taken)
        · rw [spawned] at possible
          have dead := possible.1
          have alive : ((r.state n).irqs.slot p).live = true := irqSlot_live.mpr live
          rw [alive] at dead
          cases dead
      exact stays
    · have caller := call.caller
      subst caller
      exact sysReceive_collects call.sysReceive (by rw [anyone]; rfl) pending

end Law

section Reference
open Reference
attribute [local instance] Reference.platform

/-- PID 1 registers interrupt 5 and waits for a message of PID 2; the interrupt arrives instead, and
PID 2 yields. -/
noncomputable def interruptedRun : MachineRun :=
  script [.user (calling sysIrqRegisterNo 5 0), .ecall, .user (calling sysReceiveNo 2 0), .ecall, .external 5,
    .user (calling sysYieldNo 0 0), .ecall]

/-- SYS_RECEIVE(2) returns sender 0. -/
theorem filterHonoured_fails : ¬ FilterHonoured interruptedRun := by
  intro honoured
  have away : interruptedRun.Away 3 7 1 := .of_currentPid (by decide)
  have call : interruptedRun.CallAt 3 sysReceiveNo 1 := ⟨by decide, rfl, by decide, rfl⟩
  have sender := honoured.sender 3 7 1 call (by decide) (by decide) (by decide) rfl (by decide) away
  exact absurd sender (by decide)

end Reference
end GooseOs
