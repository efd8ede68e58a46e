import GooseOs.Memory.Isolation
import GooseOs.Machine.Scenarios

/-!
Dangling mappings: user leaves that outlive the allocation of their page. SYS_FREE_PAGES consults
the bitmap only, so a page that is still mapped can be freed; and a page table mapped writable lets
its process write any leaf at all. Without these two calls no mapping dangles.
-/

namespace GooseOs
open Kvm Trap

section Law
variable [Platform]

/-- Every user leaf of a live process into the allocator's region leads to an allocated page, so the
page the allocator hands out next is mapped nowhere. -/
structure NoDangling (k : Kernel) : Prop where
  backed : ∀ p va w, (k.procs p).state ≠ .free →
    walk (satpToRoot (k.procs p).satp) va k.vm.mem.read64 = some w → w.flags.contains .user = true →
    isUserHeapPa w.phys = true → k.vm.alloc.isAllocated (pageDown w.phys) = true
  fresh : ∀ phys alloc, k.vm.alloc.alloc = .ok (phys, alloc) → ∀ p va w, (k.procs p).state ≠ .free →
    walk (satpToRoot (k.procs p).satp) va k.vm.mem.read64 = some w → w.flags.contains .user = true →
    pageDown w.phys ≠ phys

/-- An accepted SYS_MAP makes no page table writable, and an accepted SYS_FREE_PAGES frees neither a
page table nor a page under a user leaf of a live process. -/
structure Careful (k : Kernel) : Prop where
  map : k.frame.a7.toNat = sysMapNo → MapPasses k → k.frame.a2.toNat = 0 → ∀ n, k.frame.a0.toNat = n * pageSize →
    ¬ Tabled k.vm k.roots n
  free : k.frame.a7.toNat = sysFreePagesNo → FreePasses k → ∀ n, k.frame.a0.toNat = n * pageSize →
    ¬ Tabled k.vm k.roots n ∧ ¬ Mapped k.vm k.roots n

omit [Platform] in
theorem guardsWrites_writable : GuardsWrites Pte.writable := fun _ write => write

variable {k : Kernel}

theorem Careful.tame (managed : Managed k.vm.alloc) (careful : Careful k) : Tame Pte.writable k := by
  refine ⟨fun number passes n phys write => careful.map number passes ?_ n phys, careful.free⟩
  by_contra other
  obtain ⟨m, same, used⟩ := (isAllocated_used managed).mp passes.allocated
  obtain rfl : n = m := Nat.eq_of_mul_eq_mul_right (by decide) (phys.symm.trans same)
  have bound := used_range managed used
  have rx : IsPermission userRx := isPermission_user.1
  rw [if_neg other, Pte.writable, Pte.new_flags (by omega) rx.small] at write
  exact absurd write (by decide)

/-- A walk of a live process's table ends in a leaf of its space. -/
theorem walk_live {p va : Nat} {w : WalkResult} (cons : Consistent k.toCore) (live : (k.procs p).state ≠ .free)
    (walked : walk (satpToRoot (k.procs p).satp) va k.vm.mem.read64 = some w) :
    ∃ root pte, k.roots p = some root ∧ leafAt k.vm.mem root va = some pte ∧ w.flags = pte.flags ∧
      pte.page = w.phys / pageSize := by
  rw [satpToRoot_eq] at walked
  obtain ⟨pte, leaf, flags, phys⟩ := walk_leaf walked
  have range := cons.range p live
  have small : va % pageSize < pageSize := Nat.mod_lt _ (by decide)
  refine ⟨_, pte, Core.roots_live (by omega) live, leaf, flags, ?_⟩
  rw [phys]
  exact (page_inside (Nat.le_add_right ..) (by omega)).symm

theorem Spaces.noDangling {guard : Pte → Bool} (cons : Consistent k.toCore) (spaces : Spaces guard k.vm k.roots) :
    NoDangling k := by
  have down : ∀ x, pageDown x = x / pageSize * pageSize := fun _ => rfl
  have backed : ∀ p va w, (k.procs p).state ≠ .free →
      walk (satpToRoot (k.procs p).satp) va k.vm.mem.read64 = some w → w.flags.contains .user = true →
      InHeap (w.phys / pageSize) → Used k.vm.alloc (w.phys / pageSize) := by
    intro p va w live walked user heap
    obtain ⟨root, pte, own, leaf, flags, page⟩ := walk_live cons live walked
    rw [← page] at heap ⊢
    exact spaces.backed own leaf (by rw [Pte.user, ← flags, user]) heap
  refine ⟨fun p va w live walked user heap => ?_, fun phys alloc granted p va w live walked user same => ?_⟩
  · rw [isUserHeapPa, Bool.and_eq_true, decide_eq_true_eq, decide_eq_true_eq] at heap
    have aligned := Platform.heapStart_aligned
    have inside : InHeap (w.phys / pageSize) := by
      simp only [InHeap, pageSize] at *
      omega
    exact (isAllocated_used spaces.managed).mpr ⟨_, down _, backed p va w live walked user inside⟩
  · obtain ⟨n, rfl, grants⟩ := alloc_grants spaces.managed granted
    rw [down] at same
    have page : w.phys / pageSize = n := Nat.eq_of_mul_eq_mul_right (by decide) same
    have heap : InHeap n := used_inHeap grants.managed ((grants.used n).mpr (Or.inl rfl))
    rw [← page] at heap
    exact grants.fresh (page ▸ backed p va w live walked user heap)

/-- Careful runs leave no dangling mapping. -/
theorem noDangling_of_careful (r : MachineRun)
    (careful : ∀ n, n < r.len → r.label n = .trap .ecall → Careful (r.state n)) {n : Nat} (bound : n ≤ r.len) :
    NoDangling (r.state n) := by
  have tame : ∀ m, m < n → r.label m = .trap .ecall → Tame Pte.writable (r.state m) :=
    fun m before call => (careful m (by omega) call).tame (r.managed (by omega))
  have spaces := r.spaces guardsWrites_writable tame bound
  exact spaces.noDangling (r.consistent bound)

end Law

section Reference
open Reference
attribute [local instance] Reference.platform

/-- PID 1 allocates a page, maps it and frees it. -/
theorem noDangling_fails : ∃ (r : MachineRun) (n : Nat), n ≤ r.len ∧ ¬ NoDangling (r.state n) := by
  obtain ⟨n, v, v', placed⟩ := exists_placed
  obtain ⟨w, freed, zeroed, releases⟩ := free_handled placed.managed placed.used
  refine ⟨exchangeRun [⟨allocCall, v, pageArg n⟩, ⟨mapCall n, v', 0⟩, ⟨freeCall n, w, 0⟩]
    ⟨placed.handled, placed.mapped, freed, trivial⟩, 6, le_rfl, fun law => ?_⟩
  have leaf : leafAt w.mem rootOf₁ 0x5000_0000 = some (.new (n * pageSize) userRw) := by
    rw [← placed.leaf]
    refine leafAt_congr (v := v') (fun x table => ?_) _
    have other : x / pageSize ≠ n := fun same => placed.bare (same ▸ table)
    rw [zeroed, Memory.fill_apply_outside (page_apart other)]
  have low : n < 2 ^ 44 := by
    have := used_range placed.managed placed.used
    omega
  have permission := isPermission_user.2.1
  have walked : walk (satpToRoot setup.satp₁) 0x5000_0000 w.mem.read64 = some ⟨n * pageSize, userRw⟩ := by
    rw [satpToRoot_eq, walk_eq, leaf, Option.map_some, Pte.new_physAddr (by omega) permission.small,
      Pte.new_flags (by omega) permission.small, show 0x5000_0000 % pageSize = 0 from rfl, Nat.add_zero]
  have user : userRw.contains .user = true := by decide
  have heap := heap_page placed.managed placed.used
  have backed := law.backed 1 0x5000_0000 ⟨n * pageSize, userRw⟩ nofun walked user heap
  change w.alloc.isAllocated (pageDown (n * pageSize)) = true at backed
  obtain ⟨m, same, used⟩ := (isAllocated_used releases.managed).mp backed
  rw [pageDown, Nat.mul_div_cancel n (by decide)] at same
  obtain rfl : n = m := Nat.eq_of_mul_eq_mul_right (by decide) same
  exact ((releases.used n).mp used).1 rfl

/-- PID 1 allocates a page and maps it. -/
theorem noDangling_placed : ∃ r : MachineRun, r.len = 4 ∧ NoDangling (r.state 4) := by
  obtain ⟨n, v, v', placed⟩ := exists_placed
  refine ⟨exchangeRun [⟨allocCall, v, pageArg n⟩, ⟨mapCall n, v', 0⟩] ⟨placed.handled, placed.mapped, trivial⟩, rfl,
    noDangling_of_careful _ (fun m bound label => ?_) le_rfl⟩
  rcases exchangeRun_call ⟨bound, label, rfl, rfl⟩ with ⟨rfl, -⟩ | ⟨rfl, -⟩
  · have other := calling_number sysAllocPagesNo (by decide) 1 0
    exact ⟨fun number => absurd (other.symm.trans number) (by decide),
      fun number => absurd (other.symm.trans number) (by decide)⟩
  · have other := calling_number sysMapNo (by decide) (pageArg n) 0x5000_0000
    refine ⟨fun _ _ _ x phys => ?_, fun number => absurd (other.symm.trans number) (by decide)⟩
    have arg : (pageArg n).toNat = n * pageSize :=
      pageArg_toNat placed.grants.managed ((placed.grants.used n).mpr (Or.inl rfl))
    obtain rfl : n = x := Nat.eq_of_mul_eq_mul_right (by decide) (arg.symm.trans phys)
    exact placed.plain

end Reference

end GooseOs
