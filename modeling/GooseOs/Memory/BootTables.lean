import GooseOs.Memory.Demand
import GooseOs.Memory.Regions
import GooseOs.Memory.UserCopy

/-!
The kernel's part of every page table, exactly: what the boot code and the process loader map where, and
that the two translate alike.
-/

namespace GooseOs
open Kvm BitmapAllocator

section Law
variable [Platform]

/-! ### The loop of `map_range` -/

omit [Platform] in
theorem mapWhile_mapFrom {v : Vm} {root stop count : Nat} {addr : Word} {flags : PteFlags}
    (aligned : addr.toNat % pageSize = 0) (stopAligned : stop % pageSize = 0) (inside : stop < 2 ^ 64)
    (pages : count = (stop - addr.toNat) / pageSize) :
    mapWhile root stop flags (count + 1) v addr = some (mapFrom v root addr.toNat flags count) := by
  induction count generalizing v addr with
  | zero =>
    have done : ¬ addr.toNat < stop := by
      simp only [pageSize] at *
      omega
    rw [mapWhile, if_neg done, mapFrom]
  | succ count ih =>
    have more : addr.toNat < stop := by
      simp only [pageSize] at *
      omega
    have next : (addr + BitVec.ofNat 64 pageSize).toNat = addr.toNat + pageSize := by
      rw [BitVec.toNat_add, BitVec.toNat_ofNat]
      simp only [pageSize] at *
      omega
    rw [mapWhile, if_pos more, mapFrom]
    cases mapped : mapPage v root addr.toNat addr.toNat flags with
    | error e => rfl
    | ok v₁ =>
      rw [← next]
      refine ih ?_ ?_
      · simp only [pageSize] at *
        omega
      · simp only [pageSize] at *
        omega

/-! ### Exact tables -/

/-- The address translates to itself, with these permissions. -/
def MapsItself (m : Memory) (satp : Word) (va : Nat) (read write execute : Bool) : Prop :=
  ∃ flags, translate m satp va = some ⟨va, flags⟩ ∧ flags.contains .read = read ∧ flags.contains .write = write ∧
    flags.contains .execute = execute

/-- The table maps the kernel's sections and the device windows to themselves with their permissions,
nothing to user mode, and nothing else. -/
structure ExactTable (m : Memory) (satp : Word) : Prop where
  text : ∀ va, Covers Platform.textStart Platform.textEnd va → MapsItself m satp va true false true
  rodata : ∀ va, Covers Platform.rodataStart Platform.rodataEnd va → MapsItself m satp va true false false
  data : ∀ va, Covers Platform.dataStart Platform.dataEnd va → MapsItself m satp va true true false
  bss : ∀ va, Covers Platform.bssStart Platform.bssEnd va → MapsItself m satp va true true false
  heap : ∀ va, Covers Platform.heapStart Platform.heapEnd va → MapsItself m satp va true true false
  stack : ∀ va, Covers Platform.heapEnd Platform.stackTop va → MapsItself m satp va true true false
  uart : ∀ va, Covers uartBase (uartBase + pageSize) va → MapsItself m satp va true true false
  plic : ∀ va, Covers plicBase (plicBase + plicMapSize) va → MapsItself m satp va true true false
  virtio : Platform.qemu = true → ∀ va,
    Covers virtioMmioBase (virtioMmioBase + virtioMmioSlots * virtioMmioStride) va → MapsItself m satp va true true false
  plain : ∀ va pte, leafAt m (rootOf satp) va = some pte → pte.user = false
  unmapped : ∀ va, ¬ Covers Platform.textStart Platform.textEnd va → ¬ Covers Platform.rodataStart Platform.rodataEnd va →
    ¬ Covers Platform.dataStart Platform.dataEnd va → ¬ Covers Platform.bssStart Platform.bssEnd va →
    ¬ Covers Platform.heapStart Platform.stackTop va → ¬ Covers uartBase (uartBase + pageSize) va →
    ¬ Covers plicBase (plicBase + plicMapSize) va →
    ¬ (Platform.qemu = true ∧ Covers virtioMmioBase (virtioMmioBase + virtioMmioSlots * virtioMmioStride) va) →
    translate m satp va = none

/-- The leaves below `root` are those of the kernel's ranges. -/
def KernelLeaves (m : Memory) (root : Nat) : Prop :=
  ∀ va, (∃ region ∈ kernelRegions, Covered region (vpn va) ∧
      leafAt m root va = some (.new (vpn va * pageSize) region.2.2)) ∨
    ((∀ region ∈ kernelRegions, ¬ Covered region (vpn va)) ∧ leafAt m root va = none)

section Leaves
variable {m m' : Memory} {satp satp' : Word} {va : Nat}

theorem KernelLeaves.maps (leaves : KernelLeaves m (rootOf satp)) {start stop : Nat} {flags : PteFlags}
    (member : (start, stop, flags) ∈ kernelRegions) (covers : Covers start stop va) :
    translate m satp va = some ⟨va, flags⟩ := by
  have low := (kernelRegions_spec member).2.1
  have covered : Covered (start, stop, flags) (vpn va) :=
    (@covers_iff (start, stop, flags) va low (covers.canonical low)).mp covers
  rcases leaves va with ⟨region, member', covered', leaf⟩ | ⟨outside, -⟩
  · obtain rfl := kernelRegions_apart member member' covered covered'
    exact translate_covered member covers leaf
  · exact absurd covered (outside _ member)

theorem mem_kernelRegions {region : Nat × Nat × PteFlags} : region ∈ kernelRegions ↔
    region = (Platform.textStart, Platform.textEnd, kernelRx) ∨
      region = (Platform.rodataStart, Platform.rodataEnd, kernelRo) ∨
      region = (Platform.dataStart, Platform.dataEnd, kernelRw) ∨
      region = (Platform.bssStart, Platform.bssEnd, kernelRw) ∨
      region = (Platform.heapStart, Platform.stackTop, kernelRw) ∨
      region = (uartBase, uartBase + pageSize, kernelMmio) ∨
      region = (plicBase, plicBase + plicMapSize, kernelMmio) ∨ (Platform.qemu = true ∧
        region = (virtioMmioBase, virtioMmioBase + virtioMmioSlots * virtioMmioStride, kernelMmio)) := by
  unfold kernelRegions
  cases Platform.qemu <;> simp only [List.mem_append, List.mem_cons, List.not_mem_nil, or_false, or_assoc, if_true, true_and,
    Bool.false_eq_true, if_false, false_and]

theorem covers_split : Covers Platform.heapStart Platform.stackTop va ↔
    Covers Platform.heapStart Platform.heapEnd va ∨ Covers Platform.heapEnd Platform.stackTop va := by
  have order := Platform.heap_le
  have split := Platform.heapEnd_aligned
  simp only [Covers, pageUp, pageDown, pageSize] at *
  omega

theorem KernelLeaves.exact (leaves : KernelLeaves m (rootOf satp)) : ExactTable m satp := by
  have maps : ∀ {start stop flags}, (start, stop, flags) ∈ kernelRegions → ∀ va, Covers start stop va →
      MapsItself m satp va (flags.contains .read) (flags.contains .write) (flags.contains .execute) :=
    fun member _ covers => ⟨_, leaves.maps member covers, rfl, rfl, rfl⟩
  have text := maps (mem_kernelRegions.mpr (.inl rfl))
  have rodata := maps (mem_kernelRegions.mpr (.inr (.inl rfl)))
  have data := maps (mem_kernelRegions.mpr (.inr (.inr (.inl rfl))))
  have bss := maps (mem_kernelRegions.mpr (.inr (.inr (.inr (.inl rfl)))))
  have rest := maps (mem_kernelRegions.mpr (.inr (.inr (.inr (.inr (.inl rfl))))))
  have uart := maps (mem_kernelRegions.mpr (.inr (.inr (.inr (.inr (.inr (.inl rfl)))))))
  have plic := maps (mem_kernelRegions.mpr (.inr (.inr (.inr (.inr (.inr (.inr (.inl rfl))))))))
  have virtio : Platform.qemu = true → _ := fun board =>
    maps (mem_kernelRegions.mpr (.inr (.inr (.inr (.inr (.inr (.inr (.inr ⟨board, rfl⟩))))))))
  refine ⟨text, rodata, data, bss, fun va covers => rest va (covers_split.mpr (.inl covers)),
    fun va covers => rest va (covers_split.mpr (.inr covers)), uart, plic, virtio, fun va pte leaf => ?_,
    fun va text rodata data bss ram uart plic virtio => ?_⟩
  · rcases leaves va with ⟨⟨start, stop, flags⟩, member, covered, leaf'⟩ | ⟨-, none⟩
    · obtain ⟨-, low, permission, plain⟩ := kernelRegions_spec member
      have bound : vpn va < 2 ^ 52 := Nat.lt_trans (covered.vpn low).1 (by decide)
      rw [leaf'] at leaf
      cases leaf
      rw [Pte.user, Pte.new_flags bound permission.small]
      exact plain
    · rw [none] at leaf
      cases leaf
  · by_cases canonical : va < 2 ^ 38 ∨ 2 ^ 64 - 2 ^ 38 ≤ va ∧ va < 2 ^ 64
    · rcases leaves va with ⟨region, member, covered, -⟩ | ⟨-, none⟩
      · have covers := (covers_iff (kernelRegions_spec member).2.1 canonical).mpr covered
        rcases mem_kernelRegions.mp member with rfl | rfl | rfl | rfl | rfl | rfl | rfl | ⟨board, rfl⟩
        · exact absurd covers text
        · exact absurd covers rodata
        · exact absurd covers data
        · exact absurd covers bss
        · exact absurd covers ram
        · exact absurd covers uart
        · exact absurd covers plic
        · exact absurd ⟨board, covers⟩ virtio
      · rw [translate_eq canonical, none]
        rfl
    · rw [translate, if_neg canonical]

theorem KernelLeaves.same (leaves : KernelLeaves m (rootOf satp)) (leaves' : KernelLeaves m' (rootOf satp')) (va : Nat) :
    translate m' satp' va = translate m satp va := by
  have same : leafAt m' (rootOf satp') va = leafAt m (rootOf satp) va := by
    rcases leaves va with ⟨region, member, covered, leaf⟩ | ⟨outside, none⟩
    · rcases leaves' va with ⟨region', member', covered', leaf'⟩ | ⟨outside', -⟩
      · rw [leaf, leaf', kernelRegions_apart member member' covered covered']
      · exact absurd covered (outside' region member)
    · rcases leaves' va with ⟨region', member', covered', -⟩ | ⟨-, none'⟩
      · exact absurd covered' (outside region' member')
      · rw [none, none']
  by_cases canonical : va < 2 ^ 38 ∨ 2 ^ 64 - 2 ^ 38 ≤ va ∧ va < 2 ^ 64
  · rw [translate_eq canonical, translate_eq canonical, same]
  · rw [translate, translate, if_neg canonical, if_neg canonical]

end Leaves

/-! ### Building -/

/-- The pages the kernel's part of a table takes: the root, and the tables of its ranges. -/
def tableDemand : Nat := 1 + (regionPaths kernelRegions).card

/-- With enough pages the kernel's part is built, on any root. -/
theorem mapKernelRegions_leaves {v : Vm} (managed : Managed v.alloc) (enough : tableDemand ≤ v.alloc.freePages) :
    ∃ n v₁ v', allocZeroedPage v = .ok (n * pageSize, v₁) ∧ mapKernelRegions v₁ (n * pageSize) = .ok v' ∧
      ∀ asid, KernelLeaves v'.mem (rootOf (makeSatp (n * pageSize) asid)) := by
  rw [tableDemand] at enough
  obtain ⟨n, v₁, allocated, grants, zeroed, count⟩ := allocZeroedPage_within managed (by omega)
  obtain ⟨builds, empty⟩ := Builds.of_root (.refl managed) grants zeroed
  have bound : n < 2 ^ 44 := by
    have range := used_range grants.managed ((grants.used n).mpr (.inl rfl))
    omega
  rcases Syscall.mapKernelRegions_spends (Syscall.root_budget managed grants zeroed) with ⟨v', mapped, -⟩ | ⟨-, short⟩
  · refine ⟨n, v₁, v', allocated, mapped, fun asid va => ?_⟩
    rw [rootOf_makeSatp bound]
    have written := mapRegions_leaves (fun _ _ _ => kernelRegions_spec) grants.managed builds.space mapped va
    exact written.imp_right fun ⟨outside, leaf⟩ => ⟨outside, leaf.trans (empty va)⟩
  · omega

/-- The loop of `map_range` ends on every range of the kernel. -/
theorem mapWhile_mapRange {start stop : Nat} {flags : PteFlags} (member : (start, stop, flags) ∈ kernelRegions) (v : Vm)
    (root : Nat) : ∃ fuel,
      mapWhile root (pageUp stop) flags fuel v (BitVec.ofNat 64 (pageDown start)) =
        some (mapRange v root start stop flags) := by
  obtain ⟨order, low, -⟩ := kernelRegions_spec member
  have first : (BitVec.ofNat 64 (pageDown start)).toNat = pageDown start := by
    rw [BitVec.toNat_ofNat]
    simp only [pageDown, pageSize]
    omega
  refine ⟨(pageUp stop - pageDown start) / pageSize + 1, ?_⟩
  rw [@mapWhile_mapFrom v root (pageUp stop) _ (BitVec.ofNat 64 (pageDown start)), first, mapRange]
  · rw [first]
    simp only [pageDown, pageSize]
    omega
  · simp only [pageUp, pageDown, pageSize]
    omega
  · simp only [pageUp, pageDown, pageSize]
    omega
  · rw [first]

/-- Given the pages for it, `init` and `map_kernel_regions` both build an exact table, and the two translate alike. -/
theorem bootTables_exact {v u : Vm} (managed : Managed v.alloc) (enough : tableDemand ≤ v.alloc.freePages)
    (managed' : Managed u.alloc) (enough' : tableDemand ≤ u.alloc.freePages) (asid : BitVec 16) :
    (∃ root v' root' u₁ u', Kvm.init v = .ok (root, v') ∧
      allocZeroedPage u = .ok (root', u₁) ∧ mapKernelRegions u₁ root' = .ok u' ∧
      ExactTable v'.mem (makeSatp root 0) ∧ ExactTable u'.mem (makeSatp root' asid) ∧
      ∀ va, translate u'.mem (makeSatp root' asid) va = translate v'.mem (makeSatp root 0) va) ∧
    ∀ start stop flags, (start, stop, flags) ∈ bootRegions ∨ (start, stop, flags) ∈ kernelRegions → ∀ v root, ∃ fuel,
      mapWhile root (pageUp stop) flags fuel v (BitVec.ofNat 64 (pageDown start)) =
        some (mapRange v root start stop flags) := by
  obtain ⟨n, v₁, v', allocated, mapped, leaves⟩ := mapKernelRegions_leaves managed enough
  obtain ⟨n', u₁, u', allocated', mapped', leaves'⟩ := mapKernelRegions_leaves managed' enough'
  have boot : Kvm.init v = .ok (n * pageSize, v') := by
    rw [Kvm.init, allocated, ok_bind]
    dsimp only
    rw [mapRegions_boot, mapped]
    rfl
  refine ⟨⟨_, _, _, _, _, boot, allocated', mapped', (leaves 0).exact, (leaves' asid).exact,
    (leaves 0).same (leaves' asid)⟩, ?_⟩
  intro start stop flags member v root
  exact mapWhile_mapRange (member.elim id id) v root

/-- The demand is at most the cost of the ranges taken one by one. -/
theorem tableDemand_le {v : Vm} (managed : Managed v.alloc) (enough : 1 + regionsCost kernelRegions ≤ v.alloc.freePages) :
    tableDemand ≤ v.alloc.freePages := by
  obtain ⟨n, v₁, -, grants, zeroed, count⟩ := allocZeroedPage_within managed (by omega)
  have budget := Syscall.root_budget managed grants zeroed
  obtain ⟨v', mapped, -⟩ := kernelRegions_within budget.formed (by omega)
  rcases Syscall.mapKernelRegions_spends budget with ⟨v'', -, budget'⟩ | ⟨failed, -⟩
  · have fits := budget'.fits
    rw [tableDemand]
    omega
  · rw [mapped] at failed
    cases failed

end Law

section Witness
open Reference
attribute [local instance] Reference.platform

theorem bootTables_exact_setup : ∃ root v', Kvm.init setup.vm = .ok (root, v') ∧ ExactTable v'.mem (makeSatp root 0) := by
  have spaces : Spaces (fun _ => true) setup.vm setup.kernel.roots := Boot.booted_spaces starts.booted
  have pages := starts.pages
  have enough : tableDemand ≤ setup.vm.alloc.freePages := by
    refine tableDemand_le spaces.managed ?_
    rw [regions_cost]
    omega
  obtain ⟨⟨root, v', _, _, _, built, -, -, exactly, -⟩, -⟩ :=
    bootTables_exact spaces.managed enough spaces.managed enough 1
  exact ⟨root, v', built, exactly⟩

end Witness
end GooseOs
