import GooseOs.Memory.Ownership
import GooseOs.Machine.Scenarios
import GooseOs.Machine.Spawning
import GooseOs.Process.Calls

/-!
The pages of a process when it ends. Ending a process returns nothing to the allocator, so the bitmap
accounts for the live processes only as long as every page of a process has been given to
SYS_FREE_PAGES by the time it ends, its page tables included.
-/

namespace GooseOs
open Kvm Trap

section Law
variable [Platform]

namespace MachineRun
variable (r : MachineRun)

/-- Step `m` takes pages for process `p`: it creates the process, or is a system call of its own. -/
def TakesFor (m p : Nat) : Prop :=
  (m < r.len ∧ ((r.state m).procs p).state = .free ∧ ((r.state (m + 1)).procs p).state ≠ .free) ∨
    ∃ number, r.CallAt m number p ∧ number ≠ sysSpawnNo

/-- Page `x` was taken for the process in slot `p`, and has been neither freed nor outlived it. -/
def PageOf (n p x : Nat) : Prop := ∃ m, UsedSince r m n x ∧ r.TakesFor m p ∧ r.Alive p (m + 1) n

/-- Step `n` ends process `p`. -/
structure Ends (n p : Nat) : Prop where
  bound : n < r.len
  live : ((r.state n).procs p).state ≠ .free
  free : ((r.state (n + 1)).procs p).state = .free

/-- The allocated pages are those of the boot and those of the live processes. -/
def Accounted (n : Nat) : Prop :=
  ∀ x, Used (r.state n).vm.alloc x ↔ (∀ i, i ≤ n → Used (r.state i).vm.alloc x) ∨ ∃ p, r.PageOf n p x

/-- Step `m` takes page `x` for the process in slot `p`, which lives up to state `n`. -/
structure Takes (m n p x : Nat) : Prop where
  fresh : ¬ Used (r.state m).vm.alloc x
  used : Used (r.state (m + 1)).vm.alloc x
  takes : r.TakesFor m p
  alive : r.Alive p (m + 1) n

/-- Between steps `m` and `n` some SYS_FREE_PAGES for page `x` passes its checks. -/
def Freed (m n x : Nat) : Prop :=
  ∃ i q, m < i ∧ i < n ∧ r.CallAt i sysFreePagesNo q ∧ FreePasses (r.state i) ∧ (r.state i).frame.a0.toNat = x * pageSize

/-- No page taken for a process stays marked past its end, and every allocated page is accounted for. -/
structure PagesReturn : Prop where
  freed : ∀ m n p x, r.Ends n p → m < n → r.Takes m n p x → ¬ UsedSince r m (n + 1) x
  accounted : ∀ n, n ≤ r.len → r.Accounted n

end MachineRun

variable {r : MachineRun} {n m p x : Nat}

theorem MachineRun.Ends.alloc (ends : r.Ends n p) : (r.state (n + 1)).vm.alloc = (r.state n).vm.alloc := by
  obtain ⟨bound, live, free⟩ := ends
  have stays : ∀ {v : Word}, (r.state (n + 1)).toCore = (r.state n).toCore.advance.setA0 v → False := by
    intro v core
    rw [core] at free
    exact live free
  by_cases trap : ∃ t, r.label n = .trap t
  · obtain ⟨t, label⟩ := trap
    cases r.effect bound label with
    | quiet alloc => exact alloc
    | map _ _ _ _ _ _ core => exact (stays core).elim
    | unmap _ _ _ _ core => exact (stays core).elim
    | grant _ _ _ _ core => exact (stays core).elim
    | release _ _ _ _ _ _ core => exact (stays core).elim
    | spawn call number unused range builds core =>
      rename_i pid root entry sp
      rw [core] at free
      by_cases own : p = pid
      · subst own
        exact absurd unused live
      · simp only [Function.update_of_ne own] at free
        exact absurd free live
  · have procs := (step_other (r.steps n bound) fun t same => trap ⟨t, same⟩).1
    rw [procs] at free
    exact absurd free live

/-- A step that is no trap leaves the allocator alone. -/
theorem step_alloc {k k' : Kernel} {l : Label} (step : Step k l k') (other : ¬ ∃ t, l = .trap t) :
    k'.vm.alloc = k.vm.alloc := by
  cases step with
  | user => rfl
  | idle => rfl
  | frame => rfl
  | _ => exact absurd ⟨_, rfl⟩ other

/-- A page that a step newly uses is taken for a process, which is live after it. -/
theorem MachineRun.takes_fresh (bound : n < r.len) (unused : ¬ Used (r.state n).vm.alloc x)
    (used : Used (r.state (n + 1)).vm.alloc x) :
    ∃ p, r.TakesFor n p ∧ ((r.state (n + 1)).procs p).state ≠ .free := by
  have cons := r.consistent (Nat.le_of_lt bound)
  have calls : ∀ {v : Word} {number}, r.label n = .trap .ecall → (r.state n).frame.a7.toNat = number →
      number ≠ sysSpawnNo → (r.state (n + 1)).toCore = (r.state n).toCore.advance.setA0 v →
      ∃ p, r.TakesFor n p ∧ ((r.state (n + 1)).procs p).state ≠ .free := by
    intro v number label same other core
    have call : r.CallAt n number (r.state n).currentPid := ⟨bound, label, same, rfl⟩
    refine ⟨_, .inr ⟨number, call, other⟩, ?_⟩
    rw [core]
    show ((r.state n).procs (r.state n).currentPid).state ≠ .free
    rw [(cons.running call.user).1]
    nofun
  by_cases trap : ∃ t, r.label n = .trap t
  · obtain ⟨t, label⟩ := trap
    cases r.effect bound label with
    | quiet alloc => exact absurd (alloc ▸ used) unused
    | map call number _ _ _ _ core => exact calls (call ▸ label) number (by decide) core
    | unmap call number _ _ core => exact calls (call ▸ label) number (by decide) core
    | grant call number _ _ core => exact calls (call ▸ label) number (by decide) core
    | release call number _ _ _ _ core => exact calls (call ▸ label) number (by decide) core
    | spawn call number free range builds core =>
      rename_i pid root entry sp
      have live : ((r.state (n + 1)).procs pid).state ≠ .free := by
        rw [core]
        simp only [Function.update_self]
        nofun
      exact ⟨pid, .inl ⟨bound, free, live⟩, live⟩
  · rw [step_alloc (r.steps n bound) trap] at used
    exact absurd used unused

/-- As long as no process ends with pages of its own, every page is accounted for. -/
theorem MachineRun.accounted_of_returned (returned : ∀ n p x, r.Ends n p → ¬ r.PageOf n p x) (bound : n ≤ r.len) :
    r.Accounted n := by
  intro x
  constructor
  · intro used
    induction n with
    | zero =>
      refine .inl fun i first => ?_
      rwa [Nat.le_zero.mp first]
    | succ n ih =>
      by_cases before : Used (r.state n).vm.alloc x
      · rcases ih (by omega) before with boot | ⟨p, m, since, takes, alive⟩
        · refine .inl fun i below => ?_
          rcases Nat.lt_or_ge n i with last | inner
          · rwa [show i = n + 1 by omega]
          · exact boot i inner
        · by_cases ended : ((r.state (n + 1)).procs p).state = .free
          · have live := alive n (Nat.succ_le_of_lt since.before) le_rfl
            exact absurd ⟨m, since, takes, alive⟩ (returned n p x ⟨by omega, live, ended⟩)
          · refine .inr ⟨p, m, since.extend used, takes, fun i lower upper => ?_⟩
            rcases Nat.lt_or_ge n i with last | inner
            · rwa [show i = n + 1 by omega]
            · exact alive i lower inner
      · obtain ⟨p, takes, live⟩ := MachineRun.takes_fresh (by omega) before used
        refine .inr ⟨p, n, ⟨Nat.lt_succ_self n, before, fun i lower upper => ?_⟩, takes, fun i lower upper => ?_⟩
        · rwa [show i = n + 1 by omega]
        · rwa [show i = n + 1 by omega]
  · rintro (boot | ⟨p, m, since, -⟩)
    · exact boot n le_rfl
    · exact since.used n since.before le_rfl

theorem MachineRun.freed_step (bound : n < r.len) (used : Used (r.state n).vm.alloc x)
    (unused : ¬ Used (r.state (n + 1)).vm.alloc x) :
    ∃ q, r.CallAt n sysFreePagesNo q ∧ FreePasses (r.state n) ∧ (r.state n).frame.a0.toNat = x * pageSize := by
  by_cases trap : ∃ t, r.label n = .trap t
  · obtain ⟨t, label⟩ := trap
    obtain ⟨rfl, number, passes, phys⟩ :=
      (r.effect bound label).unmarks (r.managed (Nat.le_of_lt bound)) used unused
    exact ⟨_, ⟨bound, label, number, rfl⟩, passes, phys⟩
  · rw [step_alloc (r.steps n bound) trap] at unused
    exact absurd used unused

/-- A page that is not given to SYS_FREE_PAGES stays marked. -/
theorem MachineRun.Takes.since (takes : r.Takes m n p x) (later : m < n) (bound : n ≤ r.len) (kept : ¬ r.Freed m n x) :
    UsedSince r m n x := by
  refine ⟨later, takes.fresh, fun i lower => ?_⟩
  induction i, lower using Nat.le_induction with
  | base => exact fun _ => takes.used
  | succ i lower ih =>
    intro upper
    by_contra unused
    obtain ⟨q, call, passes, phys⟩ := MachineRun.freed_step (by omega) (ih (by omega)) unused
    exact kept ⟨i, q, lower, upper, call, passes, phys⟩

/-- A page that is given to SYS_FREE_PAGES has not stayed marked. -/
theorem MachineRun.Freed.broken (freed : r.Freed m n x) : ¬ UsedSince r m n x := by
  obtain ⟨i, q, lower, upper, call, passes, phys⟩ := freed
  intro since
  have managed := r.managed (Nat.le_of_lt call.bound)
  obtain ⟨alloc, freed⟩ := BitmapAllocator.free_of_allocated passes.allocated
  obtain ⟨y, page, releases⟩ := free_releases managed freed
  obtain rfl : x = y := Nat.eq_of_mul_eq_mul_right (by decide) (phys.symm.trans page)
  have handled := call.handled
  rw [handleEcall, call.number] at handled
  have after := Except.ok.inj ((sysFreePages_releases passes freed).symm.trans handled)
  have used := since.used (i + 1) (by omega) upper
  rw [← after] at used
  exact ((releases.used x).mp used).1 rfl

/-- The root page of a spawned process is taken for it. -/
theorem MachineRun.takes_root (bound : m < r.len) (free : ((r.state m).procs p).state = .free)
    (later : m < n) (alive : r.Alive p (m + 1) n) :
    r.Takes m n p (rootOf ((r.state (m + 1)).procs p).satp) := by
  have live := alive (m + 1) le_rfl later
  have process : p ≠ 0 := by
    have range := (r.consistent (Nat.succ_le_of_lt bound)).range p live
    omega
  obtain ⟨-, root, builds, roots⟩ := born_builds bound free live
  have own : (r.state (m + 1)).roots p = some root := by rw [roots, Function.update_self]
  rw [Core.roots_live process live] at own
  rw [Option.some.inj own]
  exact ⟨builds.fresh root Radix.table_root, builds.space.used root Radix.table_root, .inl ⟨bound, free, live⟩, alive⟩

theorem pagesReturn_of_freed : r.PagesReturn ↔ ∀ m n p x, r.Ends n p → m < n → r.Takes m n p x → r.Freed m n x := by
  constructor
  · intro law m n p x ends later takes
    by_contra kept
    have since := takes.since later (Nat.le_of_lt ends.bound) kept
    refine law.freed m n p x ends later takes (since.extend ?_)
    rw [ends.alloc]
    exact since.used n later le_rfl
  · intro returned
    have gone : ∀ n p x, r.Ends n p → ¬ r.PageOf n p x := by
      rintro n p x ends ⟨m, since, takes, alive⟩
      have later := since.before
      have freed := returned m n p x ends later ⟨since.free, since.used (m + 1) (Nat.lt_succ_self m) later, takes, alive⟩
      exact freed.broken since
    refine ⟨fun m n p x ends later takes since => ?_, fun n bound => MachineRun.accounted_of_returned gone bound⟩
    exact gone n p x ends ⟨m, ⟨later, since.free, fun i lower upper => since.used i lower (by omega)⟩, takes.takes, takes.alive⟩

/-- Pages come back exactly when every page taken for a process is given to a SYS_FREE_PAGES before the process ends:
for a process that was spawned never, unless somebody frees its root table while it lives. -/
theorem pagesReturn_iff (r : MachineRun) :
    (r.PagesReturn ↔ ∀ m n p x, r.Ends n p → m < n → r.Takes m n p x → r.Freed m n x) ∧
      ∀ m n p, r.Ends n p → m < n → ((r.state m).procs p).state = .free → r.Alive p (m + 1) n →
        ¬ r.Freed m n (rootOf ((r.state (m + 1)).procs p).satp) → ¬ r.PagesReturn := by
  refine ⟨pagesReturn_of_freed, fun m n p ends later free alive kept law => kept ?_⟩
  have bound := ends.bound
  exact pagesReturn_of_freed.mp law m n p _ ends later (MachineRun.takes_root (by omega) free later alive)

end Law

section Reference
open Reference
attribute [local instance] Reference.platform

/-- PID 1 gives way to PID 2, which gives way to the spawned PID 3, which exits. -/
noncomputable def spawnedExitRun : MachineRun :=
  spawnScript [.user (calling sysYieldNo 0 0), .ecall, .user (calling sysYieldNo 0 0), .ecall,
    .user (calling sysExitNo 0 0), .ecall]

theorem pagesReturn_fails : ¬ ∀ r : MachineRun, r.PagesReturn := by
  intro law
  have ends : spawnedExitRun.Ends 7 3 := ⟨by decide, by decide, by decide⟩
  have lives : ∀ i < 8, 2 ≤ i → ((spawnedExitRun.state i).procs 3).state ≠ .free := by decide
  have alive : spawnedExitRun.Alive 3 2 7 := fun i lower upper => lives i (by omega) lower
  have takes := MachineRun.takes_root (m := 1) (by decide) (by decide) (by decide : 1 < 7) alive
  obtain ⟨i, q, -, -, call, -⟩ := pagesReturn_of_freed.mp (law spawnedExitRun) 1 7 3 _ ends (by decide) takes
  exact call.among (P := fun _ => False) (by decide)

/-- A page PID 1 gets and gives back, and memory after either call. -/
structure Loan where
  page : Nat
  granted : Vm
  freed : Vm

structure Loan.Made (l : Loan) : Prop where
  granted : Granted l.page l.granted
  handled : Exchange.Handled ⟨freeCall l.page, l.freed, 0⟩ l.granted
  releases : Releases l.granted.alloc l.freed.alloc l.page

theorem exists_loan : ∃ l : Loan, l.Made := by
  obtain ⟨n, v, granted⟩ := exists_granted
  have held : Used v.alloc n := (granted.grants.used n).mpr (.inl rfl)
  obtain ⟨w, handled, -, releases⟩ := free_handled granted.grants.managed held
  exact ⟨⟨n, v, w⟩, granted, handled, releases⟩

noncomputable def loan : Loan := exists_loan.choose

theorem loan_made : loan.Made := exists_loan.choose_spec

noncomputable def loanCalls : List Exchange :=
  [⟨allocCall, loan.granted, pageArg loan.page⟩, ⟨freeCall loan.page, loan.freed, 0⟩]

theorem loanCalls_handled : AllHandled loanCalls setup.vm :=
  ⟨loan_made.granted.handled, loan_made.handled, trivial⟩

/-- PID 1 has given its page back. -/
noncomputable def repaidKernel : Kernel := (running loan.granted (freeCall loan.page)).answer loan.freed 0

/-- PID 1 gets a page, gives it back and exits. -/
noncomputable def returnedRun : MachineRun :=
  Run.ofTrace setup.kernel starts.booted
    (exchanges loanCalls setup.vm ++ follow repaidKernel [.user (calling sysExitNo 0 0), .ecall])
    ((exchanges_linked (f := setup.kernel.frame) rfl loanCalls_handled).append
      (follow_linked repaidKernel [.user (calling sysExitNo 0 0), .ecall]))

theorem pagesReturn_returned : returnedRun.Ends 5 1 ∧ returnedRun.Takes 1 5 1 loan.page ∧ returnedRun.PagesReturn := by
  have grants := loan_made.granted.grants
  have held : Used loan.granted.alloc loan.page := (grants.used _).mpr (.inl rfl)
  have allocates := calling_number sysAllocPagesNo (by decide) 1 0
  have frees := calling_number sysFreePagesNo (by decide) (pageArg loan.page) 1
  have arg : (pageArg loan.page).toNat = loan.page * pageSize := pageArg_toNat grants.managed held
  have lives : ∀ i < 6, ∀ q < maxProcs, 1 ≤ q → ((returnedRun.state i).procs q).state ≠ .free →
      ((returnedRun.state (i + 1)).procs q).state = .free → i = 5 := by decide
  have alive : ∀ i < 6, ((returnedRun.state i).procs 1).state ≠ .free := by decide
  refine ⟨⟨by decide, by decide, by decide⟩, ⟨grants.fresh, held, .inr ⟨_, ⟨by decide, rfl, allocates, rfl⟩, by decide⟩,
    fun i _ upper => alive i (by omega)⟩, (pagesReturn_iff returnedRun).1.mpr fun m n p x ends later takes => ?_⟩
  have range := (returnedRun.consistent (Nat.le_of_lt ends.bound)).range p ends.live
  obtain rfl := lives n ends.bound p range.2 range.1 ends.live ends.free
  have fresh := takes.fresh
  have used := takes.used
  have spawnless : ∀ i < 6, ∀ q < maxProcs, ((returnedRun.state i).procs q).state = .free →
      ((returnedRun.state (i + 1)).procs q).state = .free := by decide
  have calls : ∀ i < 5, returnedRun.label i = .trap .ecall → i = 1 ∨ i = 3 := by decide
  have first : m = 1 := by
    rcases takes.takes with ⟨bound, free, live⟩ | ⟨number, call, -⟩
    · exact absurd (spawnless m bound p range.2 free) live
    · rcases calls m later call.label with rfl | rfl
      · rfl
      · exact absurd ((loan_made.releases.used x).mp used).2 fresh
  subst first
  obtain rfl : x = loan.page := ((grants.used x).mp used).resolve_right fresh
  have call : returnedRun.CallAt 3 sysFreePagesNo 1 := ⟨by decide, rfl, frees, rfl⟩
  exact ⟨3, 1, by decide, by decide, call, free_passes grants.managed held, arg⟩

end Reference

end GooseOs
