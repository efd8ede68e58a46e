import GooseOs.Process.ExitCodes

/-!
Fairness of the scheduler. Four of its selection loops go round from the running process and so
come nearer to whoever waits; the loops of SYS_EXIT and of the fault-kill start at PID 1.
-/

namespace GooseOs
open Slot Sched Ipc Lifecycle Syscall NetServer Trap Security

/-! ### The round -/

/-- How many places after `start` slot `p` comes in the round. -/
def distance (start p : Nat) : Nat := if start < p then p - start else p + (maxProcs - 1) - start

theorem distance_step {start next p : Nat} (range : start < maxProcs)
    (first : distance start next < distance start p) (nextRange : 1 ≤ next ∧ next < maxProcs)
    (inside : 1 ≤ p ∧ p < maxProcs) : distance next p < distance start p := by
  unfold distance maxProcs at *
  split at first <;> split at first <;> split <;> omega

theorem distance_slot {start offset : Nat} (range : 1 ≤ start ∧ start < maxProcs)
    (inside : 1 ≤ offset ∧ offset < maxProcs) :
    distance start ((start - 1 + offset) % (maxProcs - 1) + 1) = offset := by
  unfold distance maxProcs at *
  split <;> omega

theorem slot_distance {start p : Nat} (range : 1 ≤ start ∧ start < maxProcs) (inside : 1 ≤ p ∧ p < maxProcs) :
    (start - 1 + distance start p) % (maxProcs - 1) + 1 = p := by
  unfold distance maxProcs at *
  split <;> omega

theorem distance_range {start p : Nat} (range : start < maxProcs) (inside : 1 ≤ p ∧ p < maxProcs) :
    1 ≤ distance start p ∧ distance start p < maxProcs := by
  unfold distance maxProcs at *
  split <;> omega

theorem nextReady_iff {procs : Nat → Process} {start next : Nat} (range : 1 ≤ start ∧ start < maxProcs) :
    nextReady procs start (maxProcs - 1) = some next ↔
      (1 ≤ next ∧ next < maxProcs) ∧ (procs next).state = .ready ∧
        ∀ p, 1 ≤ p → p < maxProcs → (procs p).state = .ready → distance start next ≤ distance start p := by
  constructor
  · intro found
    obtain ⟨ready, inside⟩ := nextReady_some found
    refine ⟨inside, ready, fun p low high other => ?_⟩
    unfold nextReady at found
    rw [List.find?_map, Option.map_eq_some_iff] at found
    obtain ⟨offset, found, rfl⟩ := found
    obtain ⟨-, member, before⟩ := List.find?_range'_eq_some.mp found
    rw [List.mem_range'_1] at member
    rw [distance_slot range (by simp only [maxProcs] at *; omega)]
    by_contra nearer
    have skipped := before (distance start p) (distance_range range.2 ⟨low, high⟩).1 (by omega)
    rw [Function.comp_apply, slot_distance range ⟨low, high⟩, other] at skipped
    cases skipped
  · rintro ⟨inside, ready, first⟩
    unfold nextReady
    rw [List.find?_map, Option.map_eq_some_iff]
    have bounds := distance_range range.2 inside
    refine ⟨distance start next, List.find?_range'_eq_some.mpr ⟨?_, ?_, fun offset low before => ?_⟩,
      slot_distance range inside⟩
    · rw [Function.comp_apply, slot_distance range inside, ready]
      rfl
    · rw [List.mem_range'_1]
      simp only [maxProcs] at *
      omega
    · have place := @distance_slot start offset range ⟨low, by omega⟩
      rw [Function.comp_apply, Bool.not_eq_true', beq_eq_false_iff_ne]
      intro other
      have nearest := first _ (by omega) (by simp only [maxProcs]; omega) other
      omega

theorem nextReady_none {procs : Nat → Process} {start p : Nat} (none : nextReady procs start (maxProcs - 1) = none)
    (range : 1 ≤ start ∧ start < maxProcs) (inside : 1 ≤ p ∧ p < maxProcs) : (procs p).state ≠ .ready := by
  have bounds := distance_range range.2 inside
  have absent := List.find?_eq_none.mp none p (List.mem_map.mpr ⟨distance start p, ?_, slot_distance range inside⟩)
  · simpa using absent
  · rw [List.mem_range'_1]
    simp only [maxProcs] at *
    omega

section Law
variable [Platform] {c c' d : Core} {k k' : Kernel}

/-! ### Handlers -/

/-- The processor stays with its process, goes to the nearest ready one, or nobody is ready. -/
inductive Passes (c c' : Core) : Prop where
  | stays (same : c'.currentPid = c.currentPid) (mode : c'.frame.spp = c.frame.spp)
  | turn (runs : (c'.procs c'.currentPid).state = .running)
      (first : ∀ p, 1 ≤ p → p < maxProcs → (c'.procs p).state = .ready →
        distance c.currentPid c'.currentPid < distance c.currentPid p)
  | nobody (none : ∀ p, 1 ≤ p → p < maxProcs → (c'.procs p).state ≠ .ready)

omit [Platform] in
/-- Only the two running processes, their modes and the slots afterwards matter. -/
theorem Passes.congr {b : Core} (passes : Passes c d) (from_pid : b.currentPid = c.currentPid)
    (from_mode : b.frame.spp = c.frame.spp) (pid : c'.currentPid = d.currentPid) (mode : c'.frame.spp = d.frame.spp)
    (procs : c'.procs = d.procs) : Passes b c' := by
  cases passes with
  | stays same mode' => exact .stays (pid.trans (same.trans from_pid.symm)) (mode.trans (mode'.trans from_mode.symm))
  | turn runs first =>
    refine .turn (by rw [procs, pid]; exact runs) ?_
    rw [procs, pid, from_pid]
    exact first
  | nobody none =>
    refine .nobody ?_
    rw [procs]
    exact none

section Handlers
variable (range : 1 ≤ c.currentPid ∧ c.currentPid < maxProcs)
include range

omit [Platform] in
theorem passes_load {next : Nat} (found : nextReady d.procs c.currentPid (maxProcs - 1) = some next) :
    Passes c (load d next) := by
  obtain ⟨inside, ready, first⟩ := (nextReady_iff range).mp found
  refine .turn ?_ fun p low high waits => ?_
  · show (Function.update d.procs next _ next).state = .running
    rw [Function.update_self]
  · replace waits : (Function.update d.procs next { d.procs next with state := .running } p).state = .ready := waits
    have other : p ≠ next := by
      intro same
      rw [same, Function.update_self] at waits
      cases waits
    rw [Function.update_of_ne other] at waits
    refine Nat.lt_of_le_of_ne (first p low high waits) fun same => other ?_
    rw [← slot_distance range ⟨low, high⟩, ← slot_distance range inside]
    show _ = (c.currentPid - 1 + distance c.currentPid (load d next).currentPid) % _ + 1
    rw [same]

theorem schedule_passes (h : schedule d c.currentPid = .ok c') : Passes c c' := by
  rcases schedule_ok h with ⟨next, found, rfl⟩ | ⟨none, rfl⟩
  · exact passes_load range found
  · exact .nobody fun p low high => nextReady_none none range ⟨low, high⟩

theorem sysSend_passes (h : sysSend c = .ok c') : Passes c c' := by
  unfold sysSend at h
  dsimp only at h
  split at h
  · cases h
    exact .stays rfl rfl
  split at h
  · cases h
    exact .stays rfl rfl
  · exact schedule_passes range h

theorem sysCall_passes (h : Ipc.sysCall c = .ok c') : Passes c c' := by
  unfold Ipc.sysCall at h
  dsimp only at h
  split at h
  · cases h
    exact .stays rfl rfl
  · split at h <;> exact schedule_passes range h

theorem sysReceive_passes (h : sysReceive c = .ok c') : Passes c c' := by
  unfold sysReceive at h
  dsimp only at h
  split at h
  · cases h
    exact .stays rfl rfl
  split at h
  · split at h <;> (cases h; exact .stays rfl rfl)
  · exact schedule_passes range h

theorem sysWait_passes (h : Lifecycle.sysWait c = .ok c') : Passes c c' := by
  unfold Lifecycle.sysWait at h
  dsimp only at h
  split at h
  · cases h
    exact .stays rfl rfl
  split at h
  · cases h
    exact .stays rfl rfl
  split at h
  · cases h
    exact .stays rfl rfl
  · exact schedule_passes range h

theorem sysYield_passes (h : sysYield c = .ok c') : Passes c c' := by
  unfold sysYield at h
  dsimp only at h
  split at h
  · cases h
    exact .stays rfl rfl
  split at h
  · cases h
    exact .stays rfl rfl
  · obtain ⟨d, scheduled, h⟩ := bind_ok h
    cases h
    -- The switch comes first; the answer is written into the frame it loads.
    have passes : Passes c d := schedule_passes range scheduled
    exact passes.congr rfl rfl rfl rfl rfl

omit range [Platform] in
theorem sysReply_passes (h : sysReply c = .ok c') : Passes c c' := by
  unfold sysReply at h
  dsimp only at h
  split at h
  · cases h
    exact .stays rfl rfl
  split at h <;> (cases h; exact .stays rfl rfl)

omit [Platform] in
theorem preempt_passes (same : d.currentPid = c.currentPid) (mode : d.frame.spp = c.frame.spp) :
    Passes c (preempt d) := by
  unfold preempt
  dsimp only
  split
  · exact .stays same mode
  split
  · exact .stays same mode
  · next found =>
    rw [same] at found ⊢
    refine passes_load range (nextReady_full ((nextReady_congr range fun q other => ?_).trans found))
    rw [Core.modify_procs, Function.update_of_ne other]

end Handlers

/-! ### Endings -/

/-- The slots that are ready once the running process has ended: a parent waiting for it is woken. -/
def ReadyAfter (c : Core) (q : Nat) : Prop := (c.procs q).state = .ready ∨ findWaiter c.procs c.currentPid = some q

/-- The slots that will be ready do not lie on both sides of the ending process. -/
def OneSided (c : Core) : Prop := ∀ a b, a < c.currentPid → c.currentPid < b → ReadyAfter c a → ¬ ReadyAfter c b

section Endings
variable {code : Word} {q next : Nat}

omit [Platform] in
theorem reap_ready (running : (c.procs c.currentPid).state = .running)
    (ready : ((reap c c.currentPid code).procs q).state = .ready) : q ≠ c.currentPid ∧ ReadyAfter c q := by
  have cleared : ∀ i, i ≠ c.currentPid → (clearSlot c c.currentPid code).procs i = c.procs i := by
    intro i other
    simp [clearSlot, Function.update_of_ne other]
  have scan : findWaiter (clearSlot c c.currentPid code).procs c.currentPid = findWaiter c.procs c.currentPid := by
    refine List.find?_congr fun i _ => ?_
    by_cases own : i = c.currentPid
    · rw [own, running]
      simp [clearSlot]
      rfl
    · rw [cleared i own]
  have other : q ≠ c.currentPid := by
    intro own
    rw [own, reap_own] at ready
    cases ready
  refine ⟨other, ?_⟩
  unfold reap wakeParent at ready
  rw [scan] at ready
  split at ready
  · rw [cleared q other] at ready
    exact .inl ready
  · next i waiter =>
    by_cases woken : q = i
    · exact .inr (woken ▸ waiter)
    · rw [Core.modify_procs, Function.update_of_ne woken, cleared q other] at ready
      exact .inl ready

omit [Platform] in
/-- The two endings scan from PID 1 up; with the ready slots on one side that is the round. -/
theorem nextReady_of_firstReady {procs : Nat → Process} {start : Nat} (range : 1 ≤ start ∧ start < maxProcs)
    (sided : ∀ a b, a < start → start < b → (procs a).state = .ready → (procs b).state ≠ .ready)
    (gone : (procs start).state ≠ .ready) (found : firstReady procs = some next) :
    nextReady procs start (maxProcs - 1) = some next := by
  obtain ⟨ready, inside⟩ := firstReady_some found
  refine (nextReady_iff range).mpr ⟨inside, ready, fun p low high waits => ?_⟩
  obtain ⟨-, -, lower⟩ := List.find?_range'_eq_some.mp found
  have least : next ≤ p := by
    by_contra below
    have skipped := lower p low (by omega)
    rw [waits] at skipped
    cases skipped
  have apart : p ≠ start ∧ next ≠ start := ⟨fun same => gone (same ▸ waits), fun same => gone (same ▸ ready)⟩
  have same : ¬ (next < start ∧ start < p) := fun split => sided next p split.1 split.2 ready waits
  unfold distance maxProcs at *
  split <;> split <;> omega

omit [Platform] in
theorem passes_reap (range : 1 ≤ c.currentPid ∧ c.currentPid < maxProcs)
    (running : (c.procs c.currentPid).state = .running) (sided : OneSided c)
    (found : firstReady (reap c c.currentPid code).procs = some next) :
    Passes c (load (reap c c.currentPid code) next) := by
  refine passes_load range (nextReady_of_firstReady range (fun a b below above first second => ?_) ?_ found)
  · exact sided a b below above (reap_ready running first).2 (reap_ready running second).2
  · rw [reap_own]
    nofun

theorem sysExit_passes (range : 1 ≤ c.currentPid ∧ c.currentPid < maxProcs)
    (running : (c.procs c.currentPid).state = .running) (sided : OneSided c) : Passes c (sysExit c) := by
  unfold sysExit
  dsimp only
  split
  · next found => exact passes_reap range running sided found
  · next none =>
    split <;> exact .nobody fun p low high => firstReady_none none low high

theorem killCurrent_passes (range : 1 ≤ c.currentPid ∧ c.currentPid < maxProcs)
    (running : (c.procs c.currentPid).state = .running) (sided : OneSided c) (h : killCurrent c code = .ok c') :
    Passes c c' := by
  unfold killCurrent at h
  dsimp only at h
  split at h
  · cases h
  split at h
  · next found =>
    cases h
    exact passes_reap range running sided found
  · next none =>
    split at h <;> (cases h; exact .nobody fun p low high => firstReady_none none low high)

end Endings

/-! ### The network server -/

section Network
variable (range : 1 ≤ k.currentPid ∧ k.currentPid < maxProcs)
include range

theorem handleRequest_passes (h : handleRequest k = .ok k') : Passes k.toCore k'.toCore := by
  cases handleRequest_ok h with
  | answered net v done =>
    rw [done]
    exact .stays rfl rfl
  | delivered net bytes recv space staged done =>
    rw [done, deliver_setA0]
    exact .stays rfl rfl
  | parked net op socket bufVa bufLen c waits staged scheduled done =>
    rw [done]
    exact (schedule_passes range scheduled).congr rfl rfl rfl rfl rfl

end Network

/-! ### Every trap -/

section Traps
variable (user : k.inUser) (range : 1 ≤ k.currentPid ∧ k.currentPid < maxProcs)
  (running : (k.procs k.currentPid).state = .running)

omit [Platform] in
theorem passes_answer {v : Word} (same : c' = c.advance.setA0 v) : Passes c c' := by
  rw [same]
  exact .stays rfl rfl

include range running in
theorem handleEcall_passes (sided : k.frame.a7.toNat = sysExitNo → OneSided k.toCore) (h : handleEcall k = .ok k') :
    Passes k.toCore k'.toCore := by
  unfold handleEcall at h
  split at h <;> rename_i number
  · cases h
    exact .stays rfl rfl
  · cases h
    exact sysExit_passes range running (sided number)
  · obtain ⟨c, handled, rfl⟩ := onCore_ok h
    exact sysSend_passes range handled
  · obtain ⟨c, handled, rfl⟩ := onCore_ok h
    exact sysReceive_passes range handled
  · unfold sysCallEntry at h
    split at h
    · exact handleRequest_passes range h
    · obtain ⟨c, handled, rfl⟩ := onCore_ok h
      exact sysCall_passes range handled
  · obtain ⟨c, handled, rfl⟩ := onCore_ok h
    exact sysReply_passes handled
  · obtain ⟨v, a0, rfl⟩ := sysMap_answers h
    exact .stays rfl rfl
  · obtain ⟨v, a0, rfl⟩ := sysUnmap_answers h
    exact .stays rfl rfl
  · obtain ⟨v, a0, rfl⟩ := sysAllocPages_answers h
    exact .stays rfl rfl
  · obtain ⟨v, a0, rfl⟩ := sysFreePages_answers h
    exact .stays rfl rfl
  · rcases sysSpawn_ok h with rfl | ⟨info, pid, userRoot, v, -, -, rfl⟩
    · exact .stays rfl rfl
    · exact .stays rfl rfl
  · obtain ⟨c, handled, rfl⟩ := onCore_ok h
    exact sysWait_passes range handled
  · cases h
    exact .stays rfl rfl
  · obtain ⟨c, handled, rfl⟩ := onCore_ok h
    exact sysYield_passes range handled
  · cases h
    unfold sysIrqRegister
    dsimp only
    split
    · exact .stays rfl rfl
    split <;> exact .stays rfl rfl
  · cases h
    obtain ⟨v, same⟩ := sysIrqAck_core (k := k)
    exact passes_answer same
  · cases h
  · cases h
    exact .stays rfl rfl

/-- The trap ends the running process. -/
def EndsCurrent (k : Kernel) (t : Trap) : Prop :=
  (t = .ecall ∧ k.frame.a7.toNat = sysExitNo) ∨ ∃ code, t = .fault code

include user range running in
/-- Every trap from user mode keeps to the round, an ending if the ready slots are on one side. -/
theorem trapHandler_passes {t : Trap} (sided : EndsCurrent k t → OneSided k.toCore) (h : trapHandler k t = .ok k') :
    Passes k.toCore k'.toCore := by
  have mode : k.frame.spp = false := user
  cases t with
  | timer =>
    obtain ⟨k₁, polled, h⟩ := bind_ok h
    have woken : PolledCore k.toCore k₁.toCore := timerPoll_polled (k := { k with ticks := k.ticks + 1 }) polled
    obtain ⟨procs, same, -⟩ := woken
    have unmoved : k₁.frame = k.frame ∧ k₁.currentPid = k.currentPid := by
      rw [same]
      exact ⟨rfl, rfl⟩
    rw [unmoved.1, mode] at h
    cases h
    exact preempt_passes range unmoved.2 (by rw [unmoved.1])
  | external irq =>
    unfold trapHandler handleExternal at h
    dsimp only at h
    rw [mode] at h
    split at h
    · cases h
      exact .stays rfl rfl
    split at h
    · cases h
      unfold irqNotify
      split <;> exact .stays rfl rfl
    split at h
    · cases h
      exact .stays rfl rfl
    split at h
    · split at h
      · obtain ⟨k₁, polled, h⟩ := bind_ok h
        cases h
        have woken : PolledCore k.toCore k₁.toCore :=
          pollAndWake_polled (k := { k with plic := k.plic.claim irq }) polled
        obtain ⟨procs, same, -⟩ := woken
        refine .stays ?_ ?_
        · show k₁.currentPid = _
          rw [same]
        · show k₁.frame.spp = _
          rw [same]
      · cases h
        exact .stays rfl rfl
    · cases h
      exact .stays rfl rfl
  | unhandled code =>
    cases h
    exact .stays rfl rfl
  | ecall => exact handleEcall_passes range running (fun number => sided (.inl ⟨rfl, number⟩)) h
  | fault code =>
    simp only [trapHandler] at h
    split at h
    · obtain ⟨c, handled, rfl⟩ := onCore_ok h
      exact killCurrent_passes range running (sided (.inr ⟨code, rfl⟩)) handled
    · cases h

end Traps

/-! ### Runs -/

namespace MachineRun

/-- Step `n` selects process `q` to run. -/
def Selected (r : MachineRun) (n q : Nat) : Prop :=
  ((r.state n).procs q).state ≠ .running ∧ ((r.state (n + 1)).procs q).state = .running

variable {r : MachineRun} {n p q : Nat}

/-- While `p` waits the machine stays in user mode, and comes nearer to `p` with each switch. -/
theorem round_step (sided : ∀ t, r.label n = .trap t → EndsCurrent (r.state n) t → OneSided (r.state n).toCore)
    (bound : n < r.len) (user : (r.state n).inUser) (waits : ((r.state (n + 1)).procs p).state = .ready) :
    (r.state (n + 1)).inUser ∧ ((r.state (n + 1)).currentPid = (r.state n).currentPid ∨
      distance (r.state (n + 1)).currentPid p < distance (r.state n).currentPid p) := by
  have cons := r.consistent (Nat.le_of_lt bound)
  have after := r.consistent (n := n + 1) bound
  have range := cons.current_range user
  have inside := after.range p (by rw [waits]; nofun)
  by_cases trap : ∃ t, r.label n = .trap t
  · obtain ⟨t, label⟩ := trap
    have step := r.steps n bound
    rw [label] at step
    have passes := trapHandler_passes user range (cons.running user).1 (sided t label) (step_trap step).1
    cases passes with
    | stays same mode => exact ⟨mode.trans user, .inl same⟩
    | turn runs first =>
      refine ⟨(after.only _ runs).2, .inr ?_⟩
      exact distance_step range.2 (first p inside.1 inside.2 waits) (after.range _ (by rw [runs]; nofun)) inside
    | nobody none => exact absurd waits (none p inside.1 inside.2)
  · obtain ⟨-, pid, -, -, -, spp, -, -⟩ := step_other (r.steps n bound) fun t same => trap ⟨t, same⟩
    exact ⟨spp.trans user, .inl pid⟩

/-- No process is overtaken twice: between two selections of `q` every other process is at some time
not ready. -/
def NotOvertaken (r : MachineRun) : Prop :=
  ∀ p q i j, q ≠ p → i < j → j < r.len → r.Selected i q → r.Selected j q →
    ∃ m, i < m ∧ m ≤ j ∧ ((r.state m).procs p).state ≠ .ready

/-- A run in which no process ends between ready ones overtakes nobody twice. -/
theorem notOvertaken_of_oneSided (r : MachineRun)
    (sided : ∀ n t, n < r.len → r.label n = .trap t → EndsCurrent (r.state n) t → OneSided (r.state n).toCore) :
    r.NotOvertaken := by
  intro p q i j other before bound first second
  by_contra always
  have waits : ∀ m, i < m → m ≤ j → ((r.state m).procs p).state = .ready := by
    intro m above below
    by_contra ready
    exact always ⟨m, above, below, ready⟩
  obtain ⟨start, user⟩ := (r.consistent (n := i + 1) (by omega)).only q first.2
  -- As long as `p` waits, `q` has kept running or the machine has come nearer to `p`.
  have nearer : ∀ d, i + 1 + d ≤ j → (r.state (i + 1 + d)).inUser ∧
      ((r.state (i + 1 + d)).currentPid = q ∨ distance (r.state (i + 1 + d)).currentPid p < distance q p) := by
    intro d
    induction d with
    | zero => exact fun _ => ⟨user, .inl start.symm⟩
    | succ d ih =>
      intro below
      obtain ⟨user, place⟩ := ih (by omega)
      obtain ⟨user', moved⟩ :=
        round_step (sided _ · (by omega)) (by omega) user (waits (i + 1 + d + 1) (by omega) below)
      refine ⟨user', ?_⟩
      rw [← Nat.add_assoc]
      rcases moved with same | closer
      · rw [same]
        exact place
      · rcases place with own | close
        · rw [own] at closer
          exact .inr closer
        · exact .inr (closer.trans close)
  obtain ⟨userAt, place⟩ := nearer (j - (i + 1)) (by omega)
  rw [show i + 1 + (j - (i + 1)) = j by omega] at userAt place
  have running := ((r.consistent (Nat.le_of_lt bound)).running userAt).1
  have close : distance (r.state j).currentPid p < distance q p := by
    refine place.resolve_left fun own => second.1 ?_
    rw [own] at running
    exact running
  have current := ((r.consistent (n := j + 1) bound).only q second.2).1
  have still : ((r.state (j + 1)).procs p).state = .ready := by
    refine (ready_step r bound (waits j before le_rfl)).1.resolve_right fun ran => other ?_
    exact current.trans ((r.consistent (n := j + 1) bound).only p ran).1.symm
  have moved := (round_step (sided j · bound) bound userAt still).2
  rw [← current] at moved
  rcases moved with same | closer
  · rw [← same] at close
    exact Nat.lt_irrefl _ close
  · exact Nat.lt_irrefl _ (closer.trans close)

end MachineRun

end Law

section Reference
open Reference
attribute [local instance] Reference.platform

/-- PID 3 gives way to PID 1, which gives way to PID 2, which exits. -/
noncomputable def overtakingRun : MachineRun :=
  spawnScript [.user (calling sysYieldNo 0 0), .ecall, .user (calling sysYieldNo 0 0), .ecall,
    .user (calling sysYieldNo 0 0), .ecall, .user (calling sysYieldNo 0 0), .ecall,
    .user (calling sysExitNo 0 0), .ecall]

theorem notOvertaken_fails : ¬ ∀ r : MachineRun, r.NotOvertaken := by
  intro law
  obtain ⟨m, above, below, busy⟩ := law overtakingRun 3 1 7 11 (by decide) (by decide) (by decide)
    ⟨by decide, by decide⟩ ⟨by decide, by decide⟩
  have waiting : ∀ i < 12, 7 < i → ((overtakingRun.state i).procs 3).state = .ready := by decide
  exact busy (waiting m (by omega) above)

/-- PID 1 gives way to PID 2, which gives way to PID 3, which exits. -/
noncomputable def takingTurnsRun : MachineRun :=
  spawnScript [.user (calling sysYieldNo 0 0), .ecall, .user (calling sysYieldNo 0 0), .ecall,
    .user (calling sysExitNo 0 0), .ecall]

theorem notOvertaken_takingTurns : takingTurnsRun.NotOvertaken := by
  refine MachineRun.notOvertaken_of_oneSided _ fun n t bound label ends a b below above first second => ?_
  have ending : ∀ i < takingTurnsRun.len, (takingTurnsRun.label i).mayEnd (takingTurnsRun.state i) = true → i = 7 := by decide
  obtain rfl : n = 7 := by
    refine ending n bound ?_
    rcases ends with ⟨rfl, number⟩ | ⟨code, rfl⟩
    · rw [label, Label.mayEnd, number]
      rfl
    · rw [label]
      rfl
  -- Nobody waits for PID 3, and the slots above it are unused.
  have unawaited : findWaiter (takingTurnsRun.state 7).procs (takingTurnsRun.state 7).currentPid = none := by decide
  have current : (takingTurnsRun.state 7).currentPid = 3 := by decide
  rw [current] at above
  rcases second with ready | waiter
  · have inside := (takingTurnsRun.consistent (n := 7) (by decide)).range b (by rw [ready]; decide)
    rw [maxProcs] at inside
    have unused : ∀ i < 8, 3 < i → ((takingTurnsRun.state 7).procs i).state ≠ .ready := by decide
    exact unused b (by omega) above ready
  · rw [unawaited] at waiter
    cases waiter

end Reference

end GooseOs
