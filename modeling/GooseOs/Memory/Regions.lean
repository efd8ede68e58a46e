import GooseOs.Memory.Effects

/-!
The kernel's ranges in a page table. They are rounded to pages and written one after another; since no
two of them meet in a page, each page has the permissions of its own range.
-/

namespace GooseOs
open Kvm

section Law
variable [Platform]

/-! ### The leaves of a list of ranges -/

/-- The pages of a range, rounded outwards. -/
def Covered (region : Nat × Nat × PteFlags) (n : Nat) : Prop :=
  region.1 / pageSize ≤ n ∧ n < (region.2.1 + (pageSize - 1)) / pageSize

omit [Platform] in
theorem Covered.vpn {region : Nat × Nat × PteFlags} {n : Nat} (covered : Covered region n) (low : region.2.1 ≤ 2 ^ 38) :
    n < 2 ^ 27 ∧ vpn (n * pageSize) = n := by
  obtain ⟨-, upper⟩ := covered
  have bound : n < 2 ^ 27 := by
    simp only [pageSize] at upper
    omega
  exact ⟨bound, (vpn_page n).trans (Nat.mod_eq_of_lt bound)⟩

/-- Every page of a range maps to itself with the permissions of such a range; the rest is as before. -/
theorem mapRegions_leaves {regions : List (Nat × Nat × PteFlags)} {v v' : Vm} {root : Nat}
    (spec : ∀ start stop flags, (start, stop, flags) ∈ regions →
      start ≤ stop ∧ stop ≤ 2 ^ 38 ∧ IsPermission flags ∧ flags.contains .user = false)
    (managed : Managed v.alloc) (space : Space v root) (h : mapRegions v (root * pageSize) regions = .ok v') (va : Nat) :
    (∃ region ∈ regions, Covered region (vpn va) ∧
        leafAt v'.mem root va = some (.new (vpn va * pageSize) region.2.2)) ∨
      ((∀ region ∈ regions, ¬ Covered region (vpn va)) ∧ leafAt v'.mem root va = leafAt v.mem root va) := by
  induction regions generalizing v with
  | nil =>
    cases h
    exact .inr ⟨nofun, rfl⟩
  | cons region rest ih =>
    obtain ⟨start, stop, flags⟩ := region
    obtain ⟨v₁, first, later⟩ := bind_ok h
    obtain ⟨order, low, permission, -⟩ := spec start stop flags (List.mem_cons_self ..)
    obtain ⟨space₁, grown₁, leaf₁⟩ := mapRange_ok permission low order managed space first
    have after := ih (fun start stop flags member => spec start stop flags (List.mem_cons_of_mem _ member))
      grown₁.managed space₁ later
    rcases after with ⟨region, member, covered, leaf⟩ | ⟨outside, kept⟩
    · exact .inl ⟨region, List.mem_cons_of_mem _ member, covered, leaf⟩
    · rw [kept]
      rcases leaf₁ va with ⟨n, lower, upper, same, leaf⟩ | ⟨away, kept⟩
      · have covered : Covered (start, stop, flags) n := ⟨lower, upper⟩
        rw [(covered.vpn low).2] at same
        subst same
        exact .inl ⟨_, List.mem_cons_self .., covered, leaf⟩
      · refine .inr ⟨fun region member covered => ?_, kept⟩
        rcases List.mem_cons.mp member with rfl | behind
        · exact away _ covered.1 covered.2 (covered.vpn low).2.symm
        · exact outside region behind covered

/-! ### The kernel's ranges -/

/-- The first range ends before the second starts, and that start is a page's. -/
def Before (a b : Nat × Nat × PteFlags) : Prop := a.2.1 ≤ b.1 ∧ b.1 % pageSize = 0

omit [Platform] in
theorem Before.apart {a b : Nat × Nat × PteFlags} {n : Nat} (before : Before a b)
    (here : Covered a n) : ¬ Covered b n := by
  simp only [Before, Covered, pageSize] at *
  omega

def ramRegions : List (Nat × Nat × PteFlags) :=
  [(Platform.textStart, Platform.textEnd, kernelRx), (Platform.rodataStart, Platform.rodataEnd, kernelRo),
    (Platform.dataStart, Platform.dataEnd, kernelRw), (Platform.bssStart, Platform.bssEnd, kernelRw),
    (Platform.heapStart, Platform.stackTop, kernelRw)]

def deviceRegions : List (Nat × Nat × PteFlags) :=
  [(uartBase, uartBase + pageSize, kernelMmio), (plicBase, plicBase + plicMapSize, kernelMmio)] ++
    if Platform.qemu then [(virtioMmioBase, virtioMmioBase + virtioMmioSlots * virtioMmioStride, kernelMmio)] else []

theorem kernelRegions_eq : kernelRegions = ramRegions ++ deviceRegions := rfl

theorem mem_deviceRegions {region : Nat × Nat × PteFlags} (member : region ∈ deviceRegions) :
    region = (uartBase, uartBase + pageSize, kernelMmio) ∨ region = (plicBase, plicBase + plicMapSize, kernelMmio) ∨
      region = (virtioMmioBase, virtioMmioBase + virtioMmioSlots * virtioMmioStride, kernelMmio) := by
  simp only [deviceRegions, List.mem_append, List.mem_cons, List.not_mem_nil, or_false] at member
  rcases member with (uart | plic) | virtio
  · exact .inl uart
  · exact .inr (.inl plic)
  · split at virtio
    · exact .inr (.inr (List.mem_singleton.mp virtio))
    · cases virtio

theorem ramRegions_ordered : ramRegions.Pairwise Before ∧
    ∀ region ∈ ramRegions, Platform.textStart ≤ region.1 ∧ region.2.1 ≤ Platform.stackTop ∧ region.1 % pageSize = 0 := by
  have text := Platform.text_le
  have rodata := Platform.rodata_le
  have data := Platform.data_le
  have bss := Platform.bss_le
  have heap := Platform.heap_le
  constructor
  · simp [ramRegions, Before, Platform.rodata_aligned, Platform.data_aligned, Platform.bss_aligned,
      Platform.heapStart_aligned]
    omega
  · simp [ramRegions, Platform.text_aligned, Platform.rodata_aligned, Platform.data_aligned, Platform.bss_aligned,
      Platform.heapStart_aligned]
    omega

/-- Of two ranges of the kernel one comes before the other. -/
theorem kernelRegions_ordered : kernelRegions.Pairwise fun a b => Before a b ∨ Before b a := by
  obtain ⟨ordered, inside⟩ := ramRegions_ordered
  have apart := Platform.mmio_apart
  rw [kernelRegions_eq, List.pairwise_append]
  refine ⟨ordered.imp Or.inl, ?_, fun a first b second => ?_⟩
  · unfold deviceRegions
    cases Platform.qemu <;>
      simp [Before, uartBase, plicBase, plicMapSize, virtioMmioBase, virtioMmioSlots, virtioMmioStride, pageSize]
  · obtain ⟨lower, upper, aligned⟩ := inside a first
    simp only [Before, uartBase, plicBase, plicMapSize, virtioMmioBase, virtioMmioStride, virtioMmioSlots, pageSize] at *
    rcases mem_deviceRegions second with rfl | rfl | rfl
    · simp only [uartBase, pageSize, and_true]
      omega
    · simp only [plicBase, plicMapSize, and_true]
      omega
    · simp only [virtioMmioBase, virtioMmioStride, virtioMmioSlots, and_true]
      omega

theorem kernelRegions_apart {a b : Nat × Nat × PteFlags} {n : Nat} (first : a ∈ kernelRegions)
    (second : b ∈ kernelRegions) (here : Covered a n) (there : Covered b n) : a = b := by
  have ordered : ∀ ⦃a⦄, a ∈ kernelRegions → ∀ ⦃b⦄, b ∈ kernelRegions → a = b ∨ Before a b ∨ Before b a :=
    (kernelRegions_ordered.imp Or.inr).forall_of_forall_of_flip (fun _ _ => .inl rfl)
      (kernelRegions_ordered.imp fun either => .inr either.symm)
  by_contra other
  rcases (ordered first second).resolve_left other with before | before
  · exact before.apart here there
  · exact before.apart there here

/-! ### Addresses of a range -/

/-- The addresses in the pages of a range. -/
def Covers (start stop va : Nat) : Prop := pageDown start ≤ va ∧ va < pageUp stop

omit [Platform] in
theorem covers_iff {region : Nat × Nat × PteFlags} {va : Nat} (low : region.2.1 ≤ 2 ^ 38)
    (canonical : va < 2 ^ 38 ∨ 2 ^ 64 - 2 ^ 38 ≤ va ∧ va < 2 ^ 64) :
    Covers region.1 region.2.1 va ↔ Covered region (vpn va) := by
  simp only [Covers, Covered, pageDown, pageUp, vpn, pageSize]
  omega

omit [Platform] in
theorem Covers.canonical {start stop : Nat} (covers : Covers start stop va) (low : stop ≤ 2 ^ 38) :
    va < 2 ^ 38 ∨ 2 ^ 64 - 2 ^ 38 ≤ va ∧ va < 2 ^ 64 := by
  simp only [Covers, pageUp, pageDown, pageSize] at covers
  omega

/-- A leaf of a range maps its addresses to themselves. -/
theorem translate_covered {start stop va : Nat} {flags : PteFlags} {m : Memory} {satp : Word}
    (member : (start, stop, flags) ∈ kernelRegions) (covers : Covers start stop va)
    (leaf : leafAt m (rootOf satp) va = some (.new (vpn va * pageSize) flags)) : translate m satp va = some ⟨va, flags⟩ := by
  obtain ⟨-, low, permission, -⟩ := kernelRegions_spec member
  have canonical := covers.canonical low
  have covered : Covered (start, stop, flags) (vpn va) := (@covers_iff (start, stop, flags) va low canonical).mp covers
  have bound : vpn va < 2 ^ 52 := Nat.lt_trans (covered.vpn low).1 (by decide)
  have place : vpn va * pageSize + va % pageSize = va := by
    simp only [Covers, pageUp, pageDown, vpn, pageSize] at *
    omega
  rw [translate_eq canonical, leaf, Option.map_some, Pte.new_physAddr bound permission.small,
    Pte.new_flags bound permission.small, place]

/-- In the table of a boot-time process a page that is not allocated, so neither its code nor its stack, is mapped as
in the kernel's. -/
theorem createProcess_kernel {k k' : Kernel} {pid va : Nat} {code : Nat × Nat} (fits : code.2 ≤ pageSize)
    (managed : Managed k.vm.alloc) (h : Boot.createProcess k pid code = .ok k') {region : Nat × Nat × PteFlags}
    (member : region ∈ kernelRegions) (covered : Covered region (vpn va)) (free : ¬ Used k'.vm.alloc (vpn va)) :
    leafAt k'.vm.mem (rootOf (k'.procs pid).satp) va = some (.new (vpn va * pageSize) region.2.2) := by
  obtain ⟨v₁, v₂, root, c, s, entry, builds₁, ⟨v₀, managed₀, space₀, regions⟩, -, -, taken, codeMapped, stackMapped, same⟩ :=
    Boot.createProcess_maps fits managed h
  have bound : ∀ {n}, n = c ∨ n = s → n < 2 ^ 26 := fun page => (used_range builds₁.managed (taken _ page).2.1).2.2
  have codeBound := bound (.inl rfl)
  have stackBound := bound (.inr rfl)
  obtain ⟨space₂, grown₂, code₂⟩ :=
    mapPage_ok builds₁.managed builds₁.space (isPermission_user.1.new_isLeaf (by omega)) codeMapped
  obtain ⟨-, grown₃, stack₃⟩ := mapPage_ok grown₂.managed space₂ (isPermission_user.2.1.new_isLeaf (by omega)) stackMapped
  have away : ∀ n, n = c ∨ n = s → vpn va ≠ vpn (n * pageSize) := by
    intro n page here
    have small := bound page
    rw [vpn_page, Nat.mod_eq_of_lt (by omega)] at here
    exact free (here ▸ grown₃.keeps n (grown₂.keeps n (taken n page).2.1))
  have rootEq : rootOf (k'.procs pid).satp = root := by
    rw [same]
    simp only [Function.update_self]
    exact rootOf_makeSatp (Nat.lt_trans (used_range builds₁.managed (builds₁.space.used root ⟨[], rfl⟩)).2.2 (by decide))
  rw [rootEq, stack₃, if_neg (away s (.inr rfl)), code₂, if_neg (away c (.inl rfl))]
  rcases mapRegions_leaves (fun _ _ _ => kernelRegions_spec) managed₀ space₀ regions va with
    ⟨region', member', covered', leaf⟩ | ⟨outside, -⟩
  · obtain rfl := kernelRegions_apart member member' covered covered'
    exact leaf
  · exact absurd covered (outside region member)

end Law
end GooseOs
