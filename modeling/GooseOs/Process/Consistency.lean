import GooseOs.Process.Handlers
import GooseOs.Machine.Run

/-!
Scheduler consistency: in user mode exactly the current slot runs, on its own page table; in the
idle loop nobody runs. It holds in every reachable state, and with it every trap of a run is a
step of the slot automaton.
-/

namespace GooseOs
open Slot Syscall
variable [Platform]

structure Consistent (c : Core) : Prop extends Settled c where
  /-- Only the slots `1..MAX_PROCS` are ever used. -/
  range : ∀ q, (c.procs q).state ≠ .free → 1 ≤ q ∧ q < maxProcs
  only : ∀ q, (c.procs q).state = .running → q = c.currentPid ∧ c.inUser
  /-- Saved registers return to user mode. -/
  saved : ∀ q, (c.procs q).state ≠ .free → (c.procs q).context.spp = false
  table : c.inUser → c.satp = (c.procs c.currentPid).satp

variable {c c' : Core} {t : Trap}

namespace Consistent

omit [Platform] in
theorem current_range (cons : Consistent c) (mode : c.inUser) : 1 ≤ c.currentPid ∧ c.currentPid < maxProcs :=
  cons.range _ (by rw [(cons.running mode).1]; nofun)

section Change
variable (cons : Consistent c) (mode : t = .ecall → c.inUser) {q : Nat} {p : Process} (change : Change c t q p)
include cons mode change

/-- A slot that is used after the changes was used before, or has just been spawned into. -/
theorem change_range (live : p.state ≠ .free) : 1 ≤ q ∧ q < maxProcs := by
  cases change with
  | stay => exact cons.range q live
  | wake other cause => exact cons.range q cause.not_free
  | netWake blocked => exact cons.range q (by rw [blocked]; nofun)
  | park own call => exact own ▸ cons.current_range (mode call)
  | preempted own _ user => exact own ▸ cons.current_range user
  | yielded own call => exact own ▸ cons.current_range (mode call)
  | terminated => exact absurd rfl live
  | spawned _ _ _ range => exact range

/-- Whatever parks or wakes a process, its saved registers return to user mode. -/
theorem change_saved (live : p.state ≠ .free) : p.context.spp = false := by
  cases change with
  | stay => exact cons.saved q live
  | wake other cause =>
    have before := cons.saved q cause.not_free
    cases cause <;> exact before
  | netWake blocked => exact cons.saved q (by rw [blocked]; nofun)
  | park own call cause =>
    have user : c.frame.spp = false := mode call
    cases cause <;> exact user
  | preempted own timer user => exact user
  | yielded own call => exact mode call
  | terminated => exact absurd rfl live
  | spawned =>
    change BitVec.getLsbD (1#64 <<< 5) 8 = false
    decide

omit cons in
theorem change_free (idle : c.frame.spp = true) (free : (c.procs q).state = .free) : p.state = .free := by
  have apart : ¬ c.inUser := fun user => by rw [Core.inUser, idle] at user; cases user
  cases change with
  | stay => exact free
  | wake other cause => exact absurd free cause.not_free
  | netWake blocked => rw [blocked] at free; cases free
  | park own call => exact absurd (mode call) apart
  | preempted own timer user => exact absurd user apart
  | yielded own call => exact absurd (mode call) apart
  | terminated => rfl
  | spawned _ call => exact absurd (mode call) apart

omit cons mode in
theorem change_satp (live : (c.procs q).state ≠ .free) : p.satp = (c.procs q).satp := by
  cases change with
  | park own call cause =>
    subst own
    cases cause <;> rfl
  | spawned free => exact absurd free live
  | _ => rfl

include cons mode in
/-- A slot used after the first stage of a trap was used before, unless it was spawned into. -/
theorem change_live (live : p.state ≠ .free) :
    (c.procs q).state ≠ .free ∨ (t = .ecall ∧ c.frame.a7.toNat = Trap.sysSpawnNo) := by
  have current : c.inUser → (c.procs c.currentPid).state ≠ .free := by
    intro user
    rw [(cons.running user).1]
    nofun
  cases change with
  | stay => exact Or.inl live
  | wake _ cause => exact Or.inl cause.not_free
  | netWake blocked => exact Or.inl (by rw [blocked]; nofun)
  | park own call => exact Or.inl (own ▸ current (mode call))
  | preempted own _ user => exact Or.inl (own ▸ current user)
  | yielded own call => exact Or.inl (own ▸ current (mode call))
  | terminated => exact absurd rfl live
  | spawned _ call number => exact Or.inr ⟨call, number⟩

end Change

omit [Platform] in
/-- The scheduler changes a slot only by making a ready one run. -/
theorem dispatch_procs {mid : Nat → Process} (dispatch : Dispatch c t mid c') (q : Nat) :
    c'.procs q = mid q ∨ ((mid q).state = .ready ∧ c'.procs q = { mid q with state := .running }) := by
  cases dispatch with
  | resume => exact Or.inl rfl
  | switch ready range left frame =>
    rename_i next f owners
    by_cases own : q = next
    · subst own
      exact Or.inr ⟨ready, Function.update_self ..⟩
    · exact Or.inl (Function.update_of_ne own ..)
  | idle => exact Or.inl rfl

omit [Platform] in
theorem resumes_spp {f : TrapFrame} (resumes : Resumes c t f) : f.spp = c.frame.spp := by
  cases resumes <;> rfl

/-- A trap preserves consistency. -/
theorem traps (cons : Consistent c) (mode : t = .ecall → c.inUser) (traps : Traps c t c') : Consistent c' := by
  obtain ⟨mid, changes, dispatch⟩ := traps
  have midRange : ∀ q, (mid q).state ≠ .free → 1 ≤ q ∧ q < maxProcs := fun q => cons.change_range mode (changes q)
  have midSaved : ∀ q, (mid q).state ≠ .free → (mid q).context.spp = false :=
    fun q => cons.change_saved mode (changes q)
  have midOnly : ∀ q, (mid q).state = .running → q = c.currentPid ∧ c.inUser :=
    fun q state => cons.only q (change_running (changes q) state)
  cases dispatch with
  | resume stays resumes =>
    have same := resumes_spp resumes
    refine ⟨⟨fun user => ?_, fun idle => ?_⟩, midRange, fun q state => ?_, midSaved, fun user => ?_⟩
    · have running := cons.running (same.symm.trans user)
      exact ⟨stays running.1, running.2⟩
    · have idle := same.symm.trans idle
      exact change_free mode (changes _) idle (cons.idle idle)
    · exact ⟨(midOnly q state).1, same.trans (midOnly q state).2⟩
    · have user : c.inUser := same.symm.trans user
      have live : (c.procs c.currentPid).state ≠ .free := by rw [(cons.running user).1]; nofun
      exact (cons.table user).trans (change_satp (changes _) live).symm
  | switch ready range left frame =>
    rename_i next f owners
    have user : f.spp = false := by
      have saved := midSaved next (by rw [ready]; nofun)
      rcases frame with rfl | ⟨-, -, -, rfl⟩ <;> exact saved
    refine ⟨⟨fun _ => ⟨?_, ?_⟩, fun idle => ?_⟩, fun q live => ?_, fun q state => ⟨?_, user⟩, fun q live => ?_,
      fun _ => ?_⟩
    · simp
    · simp only
      omega
    · rw [user] at idle
      cases idle
    · by_cases own : q = next
      · exact own ▸ range
      · simp only [Function.update_of_ne own] at live
        exact midRange q live
    · by_cases own : q = next
      · exact own
      · simp only [Function.update_of_ne own] at state
        exact absurd ((midOnly q state).1 ▸ state) left
    · by_cases own : q = next
      · subst own
        simp only [Function.update_self]
        exact midSaved q (by rw [ready]; nofun)
      · simp only [Function.update_of_ne own] at live ⊢
        exact midSaved q live
    · simp
  | idle mode' left rest =>
    rename_i f pid owners
    have apart : f.spp ≠ false := by rw [mode']; nofun
    refine ⟨⟨fun user => absurd user apart, fun _ => ?_⟩, midRange, fun q state => ?_, midSaved,
      fun user => absurd user apart⟩
    · rcases rest with rfl | free
      · by_contra live
        have := midRange 0 live
        omega
      · exact free
    · exact absurd ((midOnly q state).1 ▸ state) left

end Consistent

/-- The cause of a trap step, and that `ecall` comes from user mode. -/
theorem step_trap {k k' : Kernel} {t : Trap} (step : Step k (.trap t) k') :
    Trap.trapHandler k t = .ok k' ∧ (t = .ecall → k.inUser) := by
  cases step with
  | ecall mode handled => exact ⟨handled, fun _ => mode⟩
  | timer handled => exact ⟨handled, nofun⟩
  | external _ handled => exact ⟨handled, nofun⟩
  | unhandled handled => exact ⟨handled, nofun⟩
  | fault handled => exact ⟨handled, nofun⟩

/-- Outside traps the process table, the running process and the page tables in use stay. -/
theorem step_other {k k' : Kernel} {l : Label} (step : Step k l k') (other : ∀ t, l ≠ .trap t) :
    k'.procs = k.procs ∧ k'.currentPid = k.currentPid ∧ k'.satp = k.satp ∧ k'.irqOwner = k.irqOwner ∧
      k'.kernelSatp = k.kernelSatp ∧ k'.frame.spp = k.frame.spp ∧ (l ≠ .frame → k'.net = k.net) ∧
      (k.frame.spp = true → k'.vm = k.vm) := by
  cases step with
  | user mode after stores =>
    refine ⟨rfl, rfl, rfl, rfl, rfl, after.trans mode.symm, fun _ => rfl, fun idle => ?_⟩
    rw [show k.frame.spp = false from mode] at idle
    cases idle
  | idle mode after => exact ⟨rfl, rfl, rfl, rfl, rfl, after.trans mode.symm, fun _ => rfl, fun _ => rfl⟩
  | frame up => exact ⟨rfl, rfl, rfl, rfl, rfl, rfl, fun h => absurd rfl h, fun _ => rfl⟩
  | _ => exact absurd rfl (other _)

theorem Consistent.step {k k' : Kernel} {l : Label} (cons : Consistent k.toCore) (step : Step k l k') :
    Consistent k'.toCore := by
  by_cases trap : ∃ t, l = .trap t
  · obtain ⟨t, rfl⟩ := trap
    obtain ⟨handled, mode⟩ := step_trap step
    exact cons.traps mode (trapHandler_traps cons.toSettled mode cons.current_range handled)
  · obtain ⟨procs, pid, satp, -, -, spp, -, -⟩ := step_other step fun t same => trap ⟨t, same⟩
    refine ⟨⟨fun user => ?_, fun idle => ?_⟩, fun q live => ?_, fun q state => ?_, fun q live => ?_, fun user => ?_⟩
    · rw [procs, pid]
      exact cons.running (spp.symm.trans user)
    · rw [procs, pid]
      exact cons.idle (spp.symm.trans idle)
    · rw [procs] at live
      exact cons.range q live
    · rw [procs] at state
      rw [pid]
      exact ⟨(cons.only q state).1, spp.trans (cons.only q state).2⟩
    · rw [procs] at live ⊢
      exact cons.saved q live
    · rw [satp, procs, pid]
      exact cons.table (spp.symm.trans user)

/-! ### Boot -/

namespace Boot

/-- A slot as the boot path leaves it: unused, or created with parent 0. -/
def Created (procs : Nat → Process) (q : Nat) : Prop :=
  procs q = {} ∨ ((q = 1 ∨ q = 2) ∧ ∃ satp entry sp, procs q = newProcess q 0 satp entry sp)

/-- Creating a process at process level. -/
def Creates (c c' : Core) (pid : Nat) : Prop :=
  ∃ satp entry sp, c' = { c with procs := Function.update c.procs pid (newProcess pid 0 satp entry sp) }

/-- The boot-time slots on top of an otherwise unchanged core. -/
def Slots (c₀ c : Core) : Prop := (∃ procs, c = { c₀ with procs := procs }) ∧ ∀ q, Created c.procs q

omit [Platform] in
theorem slots_creates {c₀ c c' : Core} {pid : Nat} (low : pid = 1 ∨ pid = 2) (slots : Slots c₀ c)
    (creates : Creates c c' pid) : Slots c₀ c' := by
  obtain ⟨⟨procs, rfl⟩, created⟩ := slots
  obtain ⟨satp, entry, sp, rfl⟩ := creates
  refine ⟨⟨_, rfl⟩, fun q => ?_⟩
  by_cases own : q = pid
  · subst own
    exact Or.inr ⟨low, satp, entry, sp, Function.update_self ..⟩
  · simp only [Created, Function.update_of_ne own]
    exact created q

/-- PID 1 has been created. -/
def First (c : Core) : Prop := ∃ satp entry sp, c.procs 1 = newProcess 1 0 satp entry sp

omit [Platform] in
theorem first_creates {c c' : Core} (creates : Creates c c' 1) : First c' := by
  obtain ⟨satp, entry, sp, rfl⟩ := creates
  exact ⟨satp, entry, sp, by simp⟩

omit [Platform] in
theorem first_creates_second {c c' : Core} (first : First c) (creates : Creates c c' 2) : First c' := by
  obtain ⟨satp, entry, sp, same⟩ := first
  obtain ⟨_, _, _, rfl⟩ := creates
  exact ⟨satp, entry, sp, by simpa using same⟩

variable {k k' : Kernel}

theorem createProcess_creates {pid : Nat} {code : Nat × Nat} (h : createProcess k pid code = .ok k') :
    Creates k.toCore k'.toCore pid := by
  unfold createProcess at h
  obtain ⟨⟨userCode, vm₁⟩, -, h⟩ := bind_ok h
  obtain ⟨⟨userStack, vm₂⟩, -, h⟩ := bind_ok h
  obtain ⟨⟨userRoot, vm₃⟩, -, h⟩ := bind_ok h
  obtain ⟨vm₄, -, h⟩ := bind_ok h
  obtain ⟨vm₅, -, h⟩ := bind_ok h
  obtain ⟨vm₆, -, h⟩ := bind_ok h
  cases h
  exact ⟨_, _, _, rfl⟩

theorem createProcessFromElf_creates {pid : Nat} {info : Elf.ElfInfo} {elfStart : Nat}
    (h : createProcessFromElf k pid info elfStart = .ok k') : Creates k.toCore k'.toCore pid := by
  unfold createProcessFromElf at h
  obtain ⟨⟨userRoot, vm⟩, -, h⟩ := bind_ok h
  cases h
  exact ⟨_, _, _, rfl⟩

theorem launchTest_creates (h : launchTest k = .ok k') :
    Creates k.toCore k'.toCore 1 ∨ (k' = k ∧ ¬ Platform.securityTest) := by
  unfold launchTest at h
  split at h
  · exact Or.inl (createProcess_creates h)
  · rename_i off
    cases h
    exact Or.inr ⟨rfl, off⟩

theorem launchRust_creates (h : launchRust k = .ok k') :
    Creates k.toCore k'.toCore 1 ∨ (k' = k ∧ ¬ Platform.rustUser) := by
  unfold launchRust at h
  split at h
  · obtain ⟨parsed, -, h⟩ := bind_ok h
    split at h
    · cases h
    · exact Or.inl (createProcessFromElf_creates h)
  · rename_i off
    cases h
    exact Or.inr ⟨rfl, off⟩

theorem launchDefault_creates (h : launchDefault k = .ok k') :
    (k' = k ∧ (Platform.securityTest ∨ Platform.rustUser)) ∨
      ∃ c, Creates k.toCore c 1 ∧ Creates c k'.toCore 2 := by
  unfold launchDefault at h
  split at h
  · rename_i on
    cases h
    exact Or.inl ⟨rfl, by simpa using on⟩
  · obtain ⟨k₁, init, h⟩ := bind_ok h
    obtain ⟨k₂, server, h⟩ := bind_ok h
    obtain ⟨vm, -, h⟩ := bind_ok h
    cases h
    have second : Creates k₁.toCore k₂.toCore 2 := createProcess_creates server
    exact Or.inr ⟨k₁.toCore, createProcess_creates init, second⟩

theorem createProcesses_slots (empty : ∀ q, k.procs q = {}) (h : createProcesses k = .ok k') :
    Slots k.toCore k'.toCore ∧ First k'.toCore := by
  unfold createProcesses at h
  obtain ⟨k₁, tested, h⟩ := bind_ok h
  obtain ⟨k₂, rust, h⟩ := bind_ok h
  have start : Slots k.toCore k.toCore := ⟨⟨k.procs, rfl⟩, fun q => Or.inl (empty q)⟩
  have middle : Slots k.toCore k₁.toCore := by
    rcases launchTest_creates tested with creates | ⟨rfl, -⟩
    · exact slots_creates (Or.inl rfl) start creates
    · exact start
  have before : Slots k.toCore k₂.toCore := by
    rcases launchRust_creates rust with creates | ⟨rfl, -⟩
    · exact slots_creates (Or.inl rfl) middle creates
    · exact middle
  rcases launchDefault_creates h with ⟨rfl, on⟩ | ⟨c, first, second⟩
  · refine ⟨before, ?_⟩
    rcases launchRust_creates rust with creates | ⟨rfl, off⟩
    · exact first_creates creates
    · rcases launchTest_creates tested with creates | ⟨rfl, off'⟩
      · exact first_creates creates
      · rcases on with on | on
        · exact absurd on off'
        · exact absurd on off
  · exact ⟨slots_creates (Or.inr rfl) (slots_creates (Or.inl rfl) before first) second,
      first_creates_second (first_creates first) second⟩

/-- The process-level state at the first entry to user mode. -/
structure Started (c : Core) : Prop where
  user : c.inUser
  pid : c.currentPid = 1
  owners : ∀ irq, c.irqOwner irq = 0
  first : ∃ satp entry sp, c.procs 1 = { newProcess 1 0 satp entry sp with state := .running } ∧ c.satp = satp
  others : ∀ q, q ≠ 1 → Created c.procs q

theorem booted_started (booted : Booted k) : Started k.toCore := by
  obtain ⟨env, -, h⟩ := booted
  unfold boot at h
  obtain ⟨alloc, -, h⟩ := bind_ok h
  obtain ⟨alloc', -, h⟩ := bind_ok h
  obtain ⟨⟨rootPt, vm⟩, -, h⟩ := bind_ok h
  obtain ⟨k₁, created, h⟩ := bind_ok h
  cases h
  obtain ⟨⟨⟨procs, core⟩, slots⟩, satp, entry, sp, first⟩ := createProcesses_slots (fun _ => rfl) created
  refine ⟨?_, rfl, fun irq => ?_, ⟨satp, entry, sp, ?_, ?_⟩, fun q other => ?_⟩
  · change BitVec.getLsbD ((env.frame.sstatus &&& ~~~0x100) ||| 0x20) 8 = false
    simp
  · change k₁.toCore.irqOwner irq = 0
    rw [core]
    rfl
  · change Function.update k₁.procs 1 { k₁.procs 1 with state := .running } 1 = _
    rw [Function.update_self, first]
  · change (k₁.procs 1).satp = satp
    rw [first]
    rfl
  · change Created (Function.update k₁.procs 1 _) q
    rw [Created, Function.update_of_ne other]
    exact slots q

omit [Platform] in
theorem Started.consistent {c : Core} (started : Started c) : Consistent c := by
  obtain ⟨user, pid, -, ⟨satp, entry, sp, first, table⟩, others⟩ := started
  have live : ∀ q, q ≠ 1 → (c.procs q).state ≠ .free →
      q = 2 ∧ ∃ satp entry sp, c.procs q = newProcess q 0 satp entry sp := by
    intro q other live
    rcases others q other with empty | ⟨low, created⟩
    · rw [empty] at live
      exact absurd rfl live
    · exact ⟨low.resolve_left other, created⟩
  refine ⟨⟨fun _ => ⟨?_, ?_⟩, fun idle => ?_⟩, fun q used => ?_, fun q state => ⟨?_, user⟩, fun q used => ?_,
    fun _ => ?_⟩
  · rw [pid, first]
  · omega
  · rw [show c.frame.spp = false from user] at idle
    cases idle
  · by_cases own : q = 1
    · subst own
      decide
    · obtain ⟨rfl, -⟩ := live q own used
      decide
  · rw [pid]
    by_contra other
    obtain ⟨-, _, _, _, created⟩ := live q other (by rw [state]; nofun)
    rw [created] at state
    cases state
  · by_cases own : q = 1
    · subst own
      rw [first]
      change BitVec.getLsbD (1#64 <<< 5) 8 = false
      decide
    · obtain ⟨-, _, _, _, created⟩ := live q own used
      rw [created]
      change BitVec.getLsbD (1#64 <<< 5) 8 = false
      decide
  · rw [pid, first]
    exact table

end Boot

theorem MachineRun.consistent (r : MachineRun) {n : Nat} (bound : n ≤ r.len) : Consistent (r.state n).toCore :=
  r.invariant (P := fun k => Consistent k.toCore) (fun _ booted => (Boot.booted_started booted).consistent)
    (fun _ _ _ cons step => cons.step step) n bound

/-- A trap step of a run is a step of the slot automaton. -/
theorem MachineRun.traps (r : MachineRun) {n : Nat} {t : Trap} (bound : n < r.len) (label : r.label n = .trap t) :
    Traps (r.state n).toCore t (r.state (n + 1)).toCore := by
  have step := r.steps n bound
  rw [label] at step
  obtain ⟨handled, mode⟩ := step_trap step
  have cons := r.consistent (Nat.le_of_lt bound)
  exact trapHandler_traps cons.toSettled mode cons.current_range handled

end GooseOs
