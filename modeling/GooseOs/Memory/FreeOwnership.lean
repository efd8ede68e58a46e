import GooseOs.Memory.Ownership
import GooseOs.Machine.Scenarios

/-!
SYS_FREE_PAGES and ownership. The handler asks whether the page is allocated, not whose it is. In
runs where it names none of the pages it cannot tell apart, it frees pages of its caller only, and
no system call touches the tables or the loaded pages of another process.
-/

namespace GooseOs
open Kvm Trap Syscall

section Law
variable [Platform]

/-- What system call `n` leaves alone: every table stays allocated and keeps its bytes, but for the
caller's own tables in SYS_MAP and SYS_UNMAP; so do the code, data and stack pages of every other
process, but for bytes a network call receives; and every other table translates as before. -/
structure Protects (r : MachineRun) (n : Nat) : Prop where
  tables : ∀ o root x, (r.state n).roots o = some root → IsTable (r.state n).vm root x →
    Used (r.state (n + 1)).vm.alloc x ∧
      (o ≠ (r.state n).currentPid ∨ ((r.state n).frame.a7.toNat ≠ sysMapNo ∧ (r.state n).frame.a7.toNat ≠ sysUnmapNo) →
        ∀ b, b / pageSize = x → (r.state (n + 1)).vm.mem b = (r.state n).vm.mem b)
  loaded : ∀ q x, q ≠ (r.state n).currentPid → Loaded r n q x → Used (r.state (n + 1)).vm.alloc x ∧
    ((r.state n).frame.a7.toNat ≠ sysCallNo → ∀ b, b / pageSize = x →
      (r.state (n + 1)).vm.mem b = (r.state n).vm.mem b)
  walks : ∀ o root va, o ≠ (r.state n).currentPid → (r.state n).roots o = some root →
    walk (root * pageSize) va (r.state (n + 1)).vm.mem.read64 = walk (root * pageSize) va (r.state n).vm.mem.read64

/-- The law: SYS_FREE_PAGES frees its caller's pages, and no system call harms another's. -/
structure FreesOwnPages (r : MachineRun) : Prop where
  own : ∀ n p, r.CallAt n sysFreePagesNo p → (r.state (n + 1)).frame.a0 = 0 →
    ∃ x, (r.state n).frame.a0.toNat = x * pageSize ∧ Owns r n p x
  protects : ∀ n, n < r.len → r.label n = .trap .ecall → Protects r n

/-- An accepted SYS_FREE_PAGES names neither a page the kernel took for itself, nor one another
process allocated, nor one mapped by a live process; an accepted SYS_MAP makes no table writable. -/
structure FreesKnown (r : MachineRun) (n : Nat) : Prop where
  free : ∀ p, r.CallAt n sysFreePagesNo p → FreePasses (r.state n) → ∀ x,
    (r.state n).frame.a0.toNat = x * pageSize →
    ¬ KernelPage r n x ∧ ¬ OthersPage r n p x ∧ ¬ Mapped (r.state n).vm (r.state n).roots x
  map : ∀ p, r.CallAt n sysMapNo p → MapPasses (r.state n) → (r.state n).frame.a2.toNat = 0 → ∀ x,
    (r.state n).frame.a0.toNat = x * pageSize → ¬ Tabled (r.state n).vm (r.state n).roots x

section Run
variable {r : MachineRun} (known : ∀ n, n < r.len → FreesKnown r n)
include known

/-- Tables are kernel pages, so SYS_FREE_PAGES never meets one. -/
theorem FreesKnown.tame {n : Nat} (bound : n ≤ r.len) :
    ∀ m, m < n → r.label m = .trap .ecall → Tame Pte.writable (r.state m) := by
  induction n with
  | zero => nofun
  | succ n ih =>
    intro m below label
    have earlier := ih (by omega)
    rcases Nat.lt_or_ge m n with inner | last
    · exact earlier m inner label
    · obtain rfl : m = n := by omega
      have here := known m bound
      have careful : Careful (r.state m) := by
        refine ⟨fun number passes write x phys => here.map _ ⟨bound, label, number, rfl⟩ passes write x phys,
          fun number passes x phys => ?_⟩
        obtain ⟨notKernel, -, unmapped⟩ := here.free _ ⟨bound, label, number, rfl⟩ passes x phys
        exact ⟨fun table => notKernel (tabled_kernelPage guardsWrites_writable earlier (by omega) table), unmapped⟩
      exact careful.tame (r.managed (by omega))

theorem frees_own {n p x : Nat} (call : r.CallAt n sysFreePagesNo p) (passes : FreePasses (r.state n))
    (phys : (r.state n).frame.a0.toNat = x * pageSize) : Owns r n p x := by
  obtain ⟨m, same, used⟩ := (isAllocated_used (r.managed (Nat.le_of_lt call.bound))).mp passes.allocated
  obtain rfl : x = m := Nat.eq_of_mul_eq_mul_right (by decide) (phys.symm.trans same)
  obtain ⟨notKernel, notOthers, -⟩ := (known n call.bound).free p call passes x phys
  exact ((owner_cases r p used).resolve_left notKernel).resolve_left notOthers

theorem kernelPage_kept {n x : Nat} (bound : n < r.len) (page : KernelPage r n x) (used : Used (r.state n).vm.alloc x)
    (frame : SpaceFrame (r.state n) (r.label n) (r.state (n + 1))) : Used (r.state (n + 1)).vm.alloc x := by
  rcases frame.used x used with kept | ⟨label, frees⟩
  · exact kept
  · have call : r.CallAt n sysFreePagesNo (r.state n).currentPid := ⟨bound, label, frees.number, rfl⟩
    exact absurd page ((known n bound).free _ call frees.passes x frees.phys).1

theorem protects_step {n : Nat} (bound : n < r.len) (label : r.label n = .trap .ecall) : Protects r n := by
  have tame := FreesKnown.tame known (Nat.succ_le_of_lt bound)
  have earlier : ∀ m, m < n → r.label m = .trap .ecall → Tame Pte.writable (r.state m) :=
    fun m below => tame m (Nat.lt_succ_of_lt below)
  have frame := r.frame guardsWrites_writable (fun m below => tame m (Nat.lt_succ_of_le below)) bound
  have spaces := r.spaces guardsWrites_writable earlier (Nat.le_of_lt bound)
  refine ⟨fun o root x own table => ⟨?_, fun away b page => ?_⟩, fun q x other loaded => ?_, fun o root va other own => ?_⟩
  · exact kernelPage_kept known bound
      (tabled_kernelPage guardsWrites_writable earlier (Nat.le_of_lt bound) ⟨o, root, own, table⟩)
      ((spaces.space own).used x table) frame
  · subst page
    rcases frame.tables o root b own table with same | ⟨-, mine, builds⟩
    · exact same
    · rcases away with other | ⟨notMap, notUnmap⟩
      · exact absurd mine other
      · exact absurd builds (not_or.mpr ⟨notMap, notUnmap⟩)
  · obtain ⟨kernel, plain⟩ := loaded.kernelPage (Nat.le_of_lt bound) earlier
    have used : Used (r.state n).vm.alloc x := by
      obtain ⟨b, -, -, -, first, -, -, -, -, -, -, -, used⟩ := loaded
      exact used n first (Nat.le_refl n)
    refine ⟨kernelPage_kept known bound kernel used frame, fun notCall b page => ?_⟩
    subst page
    by_contra differ
    rcases frame.bytes label notCall b differ with table | unused | frees
    · exact plain table
    · exact unused used
    · have call : r.CallAt n sysFreePagesNo (r.state n).currentPid := ⟨bound, label, frees.number, rfl⟩
      exact ((known n bound).free _ call frees.passes _ frees.phys).1 kernel
  · rw [walk_eq, walk_eq]
    rcases frame.leaves o root va own with same | ⟨-, mine, -⟩
    · rw [same]
    · exact absurd mine other

/-- Runs whose SYS_FREE_PAGES calls name no page of the kernel or of another process and no mapped
page, and whose SYS_MAP calls make no table writable, free own pages only. -/
theorem freesOwnPages_of_known : FreesOwnPages r := by
  refine ⟨fun n p call accepted => ?_, fun n bound label => protects_step known bound label⟩
  have wrong : ∀ {n'}, (r.state n).frame.a7.toNat = n' → n' ≠ sysFreePagesNo → False :=
    fun same other => other (same.symm.trans call.number)
  cases r.effect call.bound call.label with
  | quiet _ _ _ failed =>
    have core := failed rfl (by rw [call.number]; decide) (by rw [call.number]; decide)
    rw [core] at accepted
    have result : usizeMax = 0 := accepted
    exact absurd result (by decide)
  | map _ number => exact (wrong number (by decide)).elim
  | unmap _ number => exact (wrong number (by decide)).elim
  | grant _ number => exact (wrong number (by decide)).elim
  | release _ _ phys passes => exact ⟨_, phys, frees_own known call passes phys⟩
  | spawn _ number => exact (wrong number (by decide)).elim

end Run
end Law

section Reference
open Reference
attribute [local instance] Reference.platform

/-- PID 1 frees the root table of PID 2. -/
theorem freesOwnPages_fails : ∃ r : MachineRun, ¬ FreesOwnPages r := by
  have spaces : Spaces (fun _ => true) setup.vm setup.kernel.roots := Boot.booted_spaces starts.booted
  have used : Used setup.vm.alloc rootOf₂ := (spaces.space own₂).used _ Radix.table_root
  obtain ⟨v, handled, -⟩ := free_handled spaces.managed used
  refine ⟨exchangeRun [⟨freeCall rootOf₂, v, 0⟩] ⟨handled, trivial⟩, fun law => ?_⟩
  generalize run : exchangeRun [⟨freeCall rootOf₂, v, 0⟩] ⟨handled, trivial⟩ = r at law
  have frees := calling_number sysFreePagesNo (by decide) (pageArg rootOf₂) 1
  have call : r.CallAt 1 sysFreePagesNo 1 := by rw [← run]; exact ⟨Nat.one_lt_two, rfl, frees, rfl⟩
  obtain ⟨x, -, m, since, alloc, -, -⟩ := law.own 1 1 call (by rw [← run]; rfl)
  have before := since.before
  obtain rfl : m = 0 := by omega
  have label := alloc.label
  rw [← run] at label
  cases label

/-- PID 1 frees the page it allocated. -/
theorem freesOwnPages_granted : ∃ r : MachineRun, r.len = 4 ∧ FreesOwnPages r := by
  obtain ⟨n, v, granted⟩ := exists_granted
  have held : Used v.alloc n := (granted.grants.used n).mpr (Or.inl rfl)
  obtain ⟨w, handled, -, -⟩ := free_handled granted.grants.managed held
  have arg : (pageArg n).toNat = n * pageSize := pageArg_toNat granted.grants.managed held
  have allocates := calling_number sysAllocPagesNo (by decide) 1 0
  have frees := calling_number sysFreePagesNo (by decide) (pageArg n) 1
  refine ⟨exchangeRun [⟨allocCall, v, pageArg n⟩, ⟨freeCall n, w, 0⟩] ⟨granted.handled, handled, trivial⟩, rfl,
    freesOwnPages_of_known fun m bound => ⟨fun p call passes x phys => ?_, fun p call => ?_⟩⟩
  · rcases exchangeRun_call call with ⟨-, number⟩ | ⟨rfl, -⟩
    · exact absurd (allocates.symm.trans number) (by decide)
    obtain rfl : n = x := Nat.eq_of_mul_eq_mul_right (by decide) (arg.symm.trans phys)
    have own : p = 1 := call.caller.symm
    have owns := owns_granted granted handled
    exact ⟨owns.not_kernelPage, own ▸ owns.not_othersPage, granted.unmapped⟩
  · rcases exchangeRun_call call with ⟨-, number⟩ | ⟨-, number⟩
    · exact absurd (allocates.symm.trans number) (by decide)
    · exact absurd (frees.symm.trans number) (by decide)

end Reference

end GooseOs
