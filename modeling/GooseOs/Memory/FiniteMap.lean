import GooseOs.Memory.Trees

/-!
Page tables as a finite map. On a well-formed tree `map_page` and `unmap_page` update the map from
pages to leaves at one page, and the walk reads it; on any table memory at all `unmap_page` and the
walk agree about what is mapped.
-/

namespace GooseOs
open BitmapAllocator Kvm

/-- Flags a leaf can carry: in the ten flag bits, with V and one of R, W and X. -/
structure IsPermission (f : PteFlags) : Prop where
  small : f.bits.toNat < 1024
  valid : f.bits.toNat % 2 = 1
  leaf : f.isLeaf = true

theorem IsPermission.new_isLeaf {f : PteFlags} {n : Nat} (permission : IsPermission f) (bound : n < 2 ^ 52) :
    (Pte.new (n * pageSize) f).isLeaf = true :=
  Pte.new_isLeaf bound permission.small permission.valid permission.leaf

/-- The translation of one page is replaced and every other one is kept. -/
def Replaces (m m' : Memory) (root va : Nat) (page : Option (Nat × PteFlags)) : Prop :=
  ∀ va', va' < 2 ^ 39 → walk (root * pageSize) va' m'.read64 =
    if va' / pageSize = va / pageSize then page.map fun leaf => ⟨leaf.1 + va' % pageSize, leaf.2⟩
    else walk (root * pageSize) va' m.read64

section Tree
variable {v v' : Vm} {root va : Nat}

theorem vpn_eq_iff {va va' : Nat} (low : va < 2 ^ 39) (low' : va' < 2 ^ 39) :
    vpn va' = vpn va ↔ va' / pageSize = va / pageSize := by
  simp only [vpn, pageSize]
  omega

theorem maps_replaces {pa : Nat} {flags : PteFlags} (low : va < 2 ^ 39) (aligned : pa % pageSize = 0)
    (bound : pa < 2 ^ 56) (permission : IsPermission flags) (maps : Maps v v' root va pa flags) :
    Replaces v.mem v'.mem root va (some (pa, flags)) := by
  intro va' low'
  obtain ⟨n, rfl⟩ : ∃ n, pa = n * pageSize := ⟨pa / pageSize, by simp only [pageSize] at *; omega⟩
  have small : n < 2 ^ 52 := by simp only [pageSize] at bound; omega
  rw [walk_eq, walk_eq, maps.leaf]
  by_cases here : vpn va' = vpn va
  · rw [if_pos here, if_pos ((vpn_eq_iff low low').mp here)]
    simp only [Option.map_some, Pte.new_physAddr small permission.small, Pte.new_flags small permission.small]
  · rw [if_neg here, if_neg fun same => here ((vpn_eq_iff low low').mpr same)]

theorem readPte_entry (m : Memory) (t : Nat) (i : Fin ptEntries) : entryOf (readPte m (t * pageSize) i) = entry m t i :=
  rfl

theorem entry_isBranch {pte : Pte} (branch : ¬ (!pte.isValid || !pte.isBranch) = true) :
    pte.physAddr = pte.page * pageSize ∧ entryOf pte = .branch pte.page := by
  simp only [Bool.not_eq_true, Bool.or_eq_false_iff, Bool.not_eq_false'] at branch
  refine ⟨Pte.physAddr_eq pte, ?_⟩
  rw [entryOf, if_pos branch.1, Pte.isLeaf_eq _ branch.1, branch.2]
  rfl

theorem unmapPage_found (h : unmapPage v (root * pageSize) va = some v') :
    ∃ t, Radix.follow (entry v.mem) root [(vaParts va).1, (vaParts va).2.1] = some t ∧
      v' = writePte v (t * pageSize) (vaParts va).2.2.1 .invalid := by
  unfold unmapPage at h
  dsimp only at h
  split at h
  · cases h
  rename_i branch2
  obtain ⟨level1, child1⟩ := entry_isBranch branch2
  rw [readPte_entry] at child1
  rw [level1] at h
  generalize (readPte v.mem (root * pageSize) (vaParts va).1).page = t₁ at *
  split at h
  · cases h
  rename_i branch1
  obtain ⟨level0, child0⟩ := entry_isBranch branch1
  rw [readPte_entry] at child0
  rw [level0] at h
  generalize (readPte v.mem (t₁ * pageSize) (vaParts va).2.1).page = t₀ at *
  split at h
  · cases h
  cases h
  refine ⟨t₀, ?_, rfl⟩
  rw [Radix.follow, child1, Entry.branch?, Option.bind_some, Radix.follow, child0]
  rfl

/-- Unmapping keeps the tree well-formed and clears one page. -/
theorem unmapPage_replaces (formed : WellFormed v root) (low : va < 2 ^ 39)
    (h : unmapPage v (root * pageSize) va = some v') :
    WellFormed v' root ∧ Replaces v.mem v'.mem root va none := by
  obtain ⟨t, path, rfl⟩ := unmapPage_found h
  have flat : (entryOf .invalid).branch? = none := rfl
  obtain ⟨formed', -, lookups⟩ := writePte_bottom (i := (vaParts va).2.2.1) formed path rfl flat
  refine ⟨formed', fun va' low' => ?_⟩
  rw [walk_eq, walk_eq, leafAt, lookups, if_congr vaParts_iff rfl rfl]
  by_cases here : vpn va' = vpn va
  · rw [if_pos here, if_pos ((vpn_eq_iff low low').mp here)]
    rfl
  · rw [if_neg here, if_neg fun same => here ((vpn_eq_iff low low').mpr same)]
    rfl

end Tree

/-- On any memory, `unmap_page` finds a leaf exactly where the walk does. -/
theorem unmapPage_iff_walk (v : Vm) (root va : Nat) :
    (unmapPage v root va).isSome ↔ (walk root va v.mem.read64).isSome := by
  have read : ∀ t (i : Fin ptEntries), (⟨v.mem.read64 (t + i * 8)⟩ : Pte) = readPte v.mem t i := fun _ _ => rfl
  unfold unmapPage walk
  simp only [walkFrom, read, List.isEmpty_cons, List.isEmpty_nil, Bool.false_eq_true, if_false, if_true]
  generalize readPte v.mem root (vaParts va).1 = l2
  cases valid2 : l2.isValid
  · simp
  rw [Pte.isLeaf_eq _ valid2]
  cases branch2 : l2.isBranch
  · simp
  generalize readPte v.mem l2.physAddr (vaParts va).2.1 = l1
  cases valid1 : l1.isValid
  · simp
  rw [Pte.isLeaf_eq _ valid1]
  cases branch1 : l1.isBranch
  · simp
  generalize readPte v.mem l1.physAddr (vaParts va).2.2.1 = l0
  cases valid0 : l0.isValid
  · simp
  cases leaf0 : l0.isLeaf <;> simp

/-- `map_page` and `unmap_page` refine the updates of a finite map, and the walk its lookups. The
allocator has the pages the mapping needs, all of them outside the tree. -/
theorem pageTables_refine_map {v : Vm} {root va : Nat} (formed : WellFormed v root) (low : va < 2 ^ 39) :
    (∀ pa flags, pa % pageSize = 0 → pa < 2 ^ 56 → IsPermission flags →
      tablesMissing v.mem root va ≤ v.alloc.freePages →
      ∃ v', mapPage v (root * pageSize) va pa flags = .ok v' ∧ WellFormed v' root ∧
        Replaces v.mem v'.mem root va (some (pa, flags))) ∧
    ((unmapPage v (root * pageSize) va).isSome ↔ (walk (root * pageSize) va v.mem.read64).isSome) ∧
    (∀ v', unmapPage v (root * pageSize) va = some v' → WellFormed v' root ∧ Replaces v.mem v'.mem root va none) ∧
    (∀ (w : Vm) (root' va' : Nat), (unmapPage w root' va').isSome ↔ (walk root' va' w.mem.read64).isSome) := by
  refine ⟨fun pa flags aligned bound permission enough => ?_, unmapPage_iff_walk v _ va,
    fun v' => unmapPage_replaces formed low, unmapPage_iff_walk⟩
  have leaf : (Pte.new pa flags).isLeaf = true := by
    obtain ⟨n, rfl⟩ : ∃ n, pa = n * pageSize := ⟨pa / pageSize, by simp only [pageSize] at *; omega⟩
    exact Pte.new_isLeaf (by simp only [pageSize] at bound; omega) permission.small permission.valid permission.leaf
  rcases mapPage_maps va formed leaf with ⟨-, v', mapped, maps⟩ | ⟨short, -⟩
  · exact ⟨v', mapped, maps.wellFormed, maps_replaces low aligned bound permission maps⟩
  · omega

/-- A zeroed root page, with sixteen pages to hand out. -/
def blankVm : Vm := ⟨Memory.fill (fun _ => 0) (0x80000 * pageSize) pageSize 0, .new 0x8020_0000 16⟩

theorem blank_wellFormed : WellFormed blankVm 0x80000 := by
  have empty : ∀ i, entry blankVm.mem 0x80000 i = .empty := fun i => entry_fill (fun _ => 0) 0x80000 i
  refine ⟨.of_empty empty, ⟨by decide, by decide⟩, fun t table free => ?_⟩
  obtain rfl := (Radix.table_of_empty empty).mp table
  obtain ⟨i, -, place, -⟩ := free
  have base : blankVm.alloc.baseAddr / pageSize = 0x80200 := by decide
  omega

/-- A page of the user range is mapped there, and found. -/
theorem pageTables_refine_map_blank :
    ∃ v', mapPage blankVm (0x80000 * pageSize) 0x5000_0000 0x8030_0000 userRw = .ok v' ∧ WellFormed v' 0x80000 ∧
      Replaces blankVm.mem v'.mem 0x80000 0x5000_0000 (some (0x8030_0000, userRw)) := by
  have missing : tablesMissing blankVm.mem 0x80000 0x5000_0000 ≤ blankVm.alloc.freePages := by
    have first := childMissing_le blankVm.mem 0x80000 [(vaParts 0x5000_0000).1]
    have second := childMissing_le blankVm.mem 0x80000 [(vaParts 0x5000_0000).1, (vaParts 0x5000_0000).2.1]
    have free : blankVm.alloc.freePages = 16 := by decide
    rw [tablesMissing]
    omega
  exact (pageTables_refine_map blank_wellFormed (by decide)).1 _ _ (by decide) (by decide)
    ⟨by decide, by decide, by decide⟩ missing

end GooseOs
