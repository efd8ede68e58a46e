import GooseOs.Memory.Loading

/-!
Building succeeds when enough pages are left: two for each two-megabyte region a mapping enters.
-/

namespace GooseOs
open BitmapAllocator Kvm

/-- The tables page `n` needs are there. -/
def Reached (v : Vm) (root n : Nat) : Prop :=
  (Radix.follow (entry v.mem) root [(vaParts (n * pageSize)).1, (vaParts (n * pageSize)).2.1]).isSome

section Regions
variable {v : Vm} {root n count : Nat} {f : PteFlags}

theorem reached_region {n' : Nat} (same : n' / 512 = n / 512) : Reached v root n' ↔ Reached v root n := by
  have first : (vaParts (n' * pageSize)).1 = (vaParts (n * pageSize)).1 := by
    rw [Fin.ext_iff, vaParts_fst_val, vaParts_fst_val]
    simp only [pageSize]
    omega
  have second : (vaParts (n' * pageSize)).2.1 = (vaParts (n * pageSize)).2.1 := by
    rw [Fin.ext_iff, vaParts_snd_val, vaParts_snd_val]
    simp only [pageSize]
    omega
  rw [Reached, Reached, first, second]

theorem tablesMissing_le (m : Memory) (root va : Nat) : tablesMissing m root va ≤ 2 := by
  have first := childMissing_le m root [(vaParts va).1]
  have second := childMissing_le m root [(vaParts va).1, (vaParts va).2.1]
  rw [tablesMissing]
  omega

theorem tablesMissing_of_reached (reached : Reached v root n) : tablesMissing v.mem root (n * pageSize) = 0 := by
  have above : (Radix.follow (entry v.mem) root [(vaParts (n * pageSize)).1]).isSome := by
    have path := reached
    rw [Reached, show [(vaParts (n * pageSize)).1, (vaParts (n * pageSize)).2.1] =
      [(vaParts (n * pageSize)).1] ++ [(vaParts (n * pageSize)).2.1] from rfl, Radix.follow_snoc] at path
    cases middle : Radix.follow (entry v.mem) root [(vaParts (n * pageSize)).1] with
    | none => rw [middle] at path; cases path
    | some t => rfl
  rw [Reached] at reached
  rw [tablesMissing, childMissing, childMissing, if_pos above, if_pos reached]

/-- The pages a mapping of `count` pages from `n` on may take for tables. -/
def regionCost (n count : Nat) : Nat := if count = 0 then 0 else 2 * ((n + count - 1) / 512 - n / 512 + 1)

/-- Mapping consecutive pages succeeds within its cost; a first region that is there is free. -/
theorem mapFrom_within (permission : IsPermission f) (bound : n + count ≤ 2 ^ 44) (formed : WellFormed v root) :
    (regionCost n count ≤ v.alloc.freePages → ∃ v', mapFrom v (root * pageSize) (n * pageSize) f count = .ok v' ∧
      WellFormed v' root ∧ v.alloc.freePages ≤ v'.alloc.freePages + regionCost n count) ∧
    (Reached v root n → regionCost n count ≤ v.alloc.freePages + 2 →
      ∃ v', mapFrom v (root * pageSize) (n * pageSize) f count = .ok v' ∧
        WellFormed v' root ∧ v.alloc.freePages + 2 ≤ v'.alloc.freePages + max 2 (regionCost n count)) := by
  induction count generalizing v n with
  | zero => exact ⟨fun _ => ⟨v, rfl, formed, by simp⟩, fun _ _ => ⟨v, rfl, formed, by simp⟩⟩
  | succ count ih =>
    have next : n * pageSize + pageSize = (n + 1) * pageSize := by rw [Nat.add_mul, Nat.one_mul]
    have leaf := permission.new_isLeaf (n := n) (by omega)
    have atLeast : 2 ≤ regionCost n (count + 1) := by
      rw [regionCost, if_neg (by omega)]
      omega
    -- One page from any state that can pay for it; then its region is there.
    have one : tablesMissing v.mem root (n * pageSize) ≤ v.alloc.freePages →
        ∃ v₁, mapPage v (root * pageSize) (n * pageSize) (n * pageSize) f = .ok v₁ ∧ WellFormed v₁ root ∧
          v₁.alloc.freePages + tablesMissing v.mem root (n * pageSize) = v.alloc.freePages ∧ Reached v₁ root n := by
      intro enough
      rcases mapPage_maps (n * pageSize) formed leaf with ⟨-, v₁, mapped, maps⟩ | ⟨short, -⟩
      · exact ⟨v₁, mapped, maps.wellFormed, maps.taken, maps.path⟩
      · omega
    have rest : ∀ v₁ : Vm, WellFormed v₁ root → Reached v₁ root n → regionCost n (count + 1) ≤ v₁.alloc.freePages + 2 →
        ∃ v', mapFrom v₁ (root * pageSize) ((n + 1) * pageSize) f count = .ok v' ∧ WellFormed v' root ∧
          v₁.alloc.freePages + 2 ≤ v'.alloc.freePages + regionCost n (count + 1) := by
      intro v₁ formed₁ there enough
      rcases Nat.eq_zero_or_pos count with rfl | positive
      · exact ⟨v₁, rfl, formed₁, by omega⟩
      obtain ⟨fresh, reached⟩ := ih (n := n + 1) (by omega) formed₁
      by_cases same : (n + 1) / 512 = n / 512
      · have cost : regionCost (n + 1) count = regionCost n (count + 1) := by
          rw [regionCost, regionCost, if_neg (by omega), if_neg (by omega), same,
            show n + 1 + count - 1 = n + (count + 1) - 1 by omega]
        obtain ⟨v', mapped, formed', left⟩ := reached ((reached_region same).mpr there) (by omega)
        exact ⟨v', mapped, formed', by omega⟩
      · have cost : regionCost (n + 1) count + 2 = regionCost n (count + 1) := by
          rw [regionCost, regionCost, if_neg (by omega), if_neg (by omega)]
          omega
        obtain ⟨v', mapped, formed', left⟩ := fresh (by omega)
        exact ⟨v', mapped, formed', by omega⟩
    have missing := tablesMissing_le v.mem root (n * pageSize)
    refine ⟨fun enough => ?_, fun there enough => ?_⟩
    · obtain ⟨v₁, mapped, formed₁, taken, there⟩ := one (by omega)
      obtain ⟨v', mapped', formed', left⟩ := rest v₁ formed₁ there (by omega)
      refine ⟨v', ?_, formed', by omega⟩
      rw [mapFrom, mapped, ← mapped', ← next]
      rfl
    · have none := tablesMissing_of_reached there
      obtain ⟨v₁, mapped, formed₁, taken, there'⟩ := one (by omega)
      obtain ⟨v', mapped', formed', left⟩ := rest v₁ formed₁ there' (by omega)
      refine ⟨v', ?_, formed', by omega⟩
      rw [mapFrom, mapped, ← mapped', ← next]
      rfl

/-- The cost of an identity-mapped range. -/
def rangeCost (start stop : Nat) : Nat :=
  regionCost (start / pageSize) ((pageUp stop - pageDown start) / pageSize)

theorem mapRange_within {start stop : Nat} (permission : IsPermission f) (low : start ≤ 2 ^ 38) (high : stop ≤ 2 ^ 38)
    (formed : WellFormed v root) (enough : rangeCost start stop ≤ v.alloc.freePages) :
    ∃ v', mapRange v (root * pageSize) start stop f = .ok v' ∧ WellFormed v' root ∧
      v.alloc.freePages ≤ v'.alloc.freePages + rangeCost start stop := by
  refine (mapFrom_within permission ?_ formed).1 enough
  simp only [pageUp, pageDown, pageSize]
  omega

/-- The cost of a list of regions. -/
def regionsCost : List (Nat × Nat × PteFlags) → Nat
  | [] => 0
  | (start, stop, _) :: rest => rangeCost start stop + regionsCost rest

theorem mapRegions_within {regions : List (Nat × Nat × PteFlags)}
    (low : ∀ region ∈ regions, IsPermission region.2.2 ∧ region.1 ≤ 2 ^ 38 ∧ region.2.1 ≤ 2 ^ 38)
    (formed : WellFormed v root) (enough : regionsCost regions ≤ v.alloc.freePages) :
    ∃ v', mapRegions v (root * pageSize) regions = .ok v' ∧ WellFormed v' root ∧
      v.alloc.freePages ≤ v'.alloc.freePages + regionsCost regions := by
  induction regions generalizing v with
  | nil => exact ⟨v, rfl, formed, by simp⟩
  | cons region rest ih =>
    obtain ⟨start, stop, flags⟩ := region
    obtain ⟨permission, first, second⟩ := low (start, stop, flags) (List.mem_cons_self ..)
    have first : start ≤ 2 ^ 38 := first
    have second : stop ≤ 2 ^ 38 := second
    simp only [regionsCost] at enough
    obtain ⟨v₁, mapped, formed₁, left₁⟩ := mapRange_within permission first second formed (by omega)
    obtain ⟨v', mapped', formed', left'⟩ :=
      ih (fun region member => low region (List.mem_cons_of_mem _ member)) formed₁ (by omega)
    refine ⟨v', ?_, formed', by simp only [regionsCost]; omega⟩
    rw [mapRegions, mapped]
    exact mapped'

end Regions

section Building
variable [Platform] {v v₁ : Vm} {k : Kernel} {root : Nat}

theorem Managed.pages {a : BitmapAllocator} (managed : Managed a) : a.Pages := by
  have base := managed.base
  have total := managed.total
  have heap := Platform.heap_le
  have low := Platform.stack_low
  refine ⟨managed.aligned, ?_⟩
  simp only [pageSize] at *
  omega

theorem Space.wellFormed (managed : Managed v.alloc) (space : Space v root) : WellFormed v root := by
  refine ⟨space.tree, managed.pages, fun t table free => ?_⟩
  obtain ⟨i, inside, place, clear⟩ := free
  obtain ⟨j, -, place', marked⟩ := (used_iff managed).mp (space.used t table)
  obtain rfl : i = j := by omega
  exact clear marked

theorem kernelRegions_within (formed : WellFormed v root) (enough : regionsCost kernelRegions ≤ v.alloc.freePages) :
    ∃ v', mapKernelRegions v (root * pageSize) = .ok v' ∧ WellFormed v' root ∧
      v.alloc.freePages ≤ v'.alloc.freePages + regionsCost kernelRegions := by
  refine mapRegions_within (fun region member => ?_) formed enough
  obtain ⟨start, stop, flags⟩ := region
  obtain ⟨order, low, permission, -⟩ := kernelRegions_spec member
  exact ⟨permission, Nat.le_trans order low, low⟩

omit [Platform] in
theorem mapPage_within (va : Nat) {pa : Nat} {flags : PteFlags} (leaf : (Pte.new pa flags).isLeaf = true)
    (formed : WellFormed v root) (enough : 2 ≤ v.alloc.freePages) :
    ∃ v', mapPage v (root * pageSize) va pa flags = .ok v' ∧ WellFormed v' root ∧
      v.alloc.freePages ≤ v'.alloc.freePages + 2 := by
  have missing := tablesMissing_le v.mem root va
  rcases mapPage_maps va formed leaf with ⟨-, v', mapped, maps⟩ | ⟨short, -⟩
  · have taken := maps.taken
    exact ⟨v', mapped, maps.wellFormed, by omega⟩
  · omega

theorem allocZeroedPage_within (managed : Managed v.alloc) (some : 0 < v.alloc.freePages) :
    ∃ n v', allocZeroedPage v = .ok (n * pageSize, v') ∧ Grants v.alloc v'.alloc n ∧
      v'.mem = v.mem.fill (n * pageSize) pageSize 0 ∧ v'.alloc.freePages + 1 = v.alloc.freePages := by
  rcases alloc_hands managed.pages with ⟨n, a', handed, hands⟩ | ⟨-, none⟩
  · have allocated : allocZeroedPage v = .ok (n * pageSize, zeroPage { v with alloc := a' } (n * pageSize)) := by
      unfold allocZeroedPage
      rw [handed]
    obtain ⟨m, same, grants, zeroed⟩ := allocZeroedPage_ok managed allocated
    obtain rfl : n = m := Nat.eq_of_mul_eq_mul_right (by decide) same
    exact ⟨n, _, allocated, grants, zeroed, hands.count⟩
  · omega

/-- What a boot-time process costs: code, stack and root, the kernel regions, and two mappings. -/
def processCost : Nat := 3 + regionsCost kernelRegions + 4

theorem createProcess_eq {pid userCode userStack userRoot : Nat} {code : Nat × Nat} {v₂ v₃ v₄ v₅ v₆ : Vm}
    (first : allocZeroedPage k.vm = .ok (userCode, v₁))
    (second : allocZeroedPage { v₁ with mem := Boot.copyCode v₁.mem userCode code.1 code.2 } = .ok (userStack, v₂))
    (third : allocZeroedPage v₂ = .ok (userRoot, v₃)) (regions : mapKernelRegions v₃ userRoot = .ok v₄)
    (codeMapped : mapRange v₄ userRoot userCode (userCode + pageSize) userRx = .ok v₅)
    (stackMapped : mapRange v₅ userRoot userStack (userStack + pageSize) userRw = .ok v₆) :
    Boot.createProcess k pid code = .ok { k with
      procs := Function.update k.procs pid (Syscall.newProcess pid 0 (makeSatp userRoot (BitVec.ofNat 16 pid))
        (BitVec.ofNat 64 userCode) (BitVec.ofNat 64 (userStack + pageSize)))
      vm := v₆ } := by
  rw [Boot.createProcess, first, ok_bind]
  dsimp only
  rw [second, ok_bind]
  dsimp only
  rw [third, ok_bind]
  dsimp only
  rw [regions, ok_bind, codeMapped, ok_bind, stackMapped, ok_bind]
  rfl

theorem createProcess_within (pid : Nat) (code : Nat × Nat) (managed : Managed k.vm.alloc)
    (enough : processCost ≤ k.vm.alloc.freePages) :
    ∃ k', Boot.createProcess k pid code = .ok k' ∧
      k.vm.alloc.freePages ≤ k'.vm.alloc.freePages + processCost := by
  simp only [processCost] at enough ⊢
  obtain ⟨c, v₁, first, grants₁, -, count₁⟩ := allocZeroedPage_within managed (by omega)
  generalize filled : ({ v₁ with mem := Boot.copyCode v₁.mem (c * pageSize) code.1 code.2 } : Vm) = u₁
  have same : u₁.alloc = v₁.alloc := by rw [← filled]
  rw [← same] at grants₁ count₁
  obtain ⟨s, v₂, second, grants₂, -, count₂⟩ := allocZeroedPage_within grants₁.managed (by omega)
  obtain ⟨n, v₃, third, grants₃, zeroed, count₃⟩ := allocZeroedPage_within grants₂.managed (by omega)
  have fresh : Space v₃ n := (Builds.of_root (.refl grants₂.managed) grants₃ zeroed).1.space
  obtain ⟨v₄, regions, formed₄, count₄⟩ := kernelRegions_within (fresh.wellFormed grants₃.managed) (by omega)
  have low : ∀ {m}, Used v₂.alloc m → m < 2 ^ 52 := fun used => by
    have := used_range grants₂.managed used
    omega
  obtain ⟨v₅, codeMapped, formed₅, count₅⟩ := mapPage_within (c * pageSize)
    (isPermission_user.1.new_isLeaf (low ((grants₂.used c).mpr (Or.inr ((grants₁.used c).mpr (Or.inl rfl))))))
    formed₄ (by omega)
  obtain ⟨v₆, stackMapped, -, count₆⟩ := mapPage_within (s * pageSize)
    (isPermission_user.2.1.new_isLeaf (low ((grants₂.used s).mpr (Or.inl rfl)))) formed₅ (by omega)
  rw [← Boot.mapRange_page] at codeMapped stackMapped
  refine ⟨_, createProcess_eq first (filled ▸ second) third regions codeMapped stackMapped, ?_⟩
  change _ ≤ v₆.alloc.freePages + _
  omega

end Building
end GooseOs
