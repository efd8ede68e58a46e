import GooseOs.Memory.FiniteMap

/-!
Page tables as the kernel builds them. The allocator is read as a set of used page numbers, and the
table operations as updates of one address space: a tree whose tables are used pages. Every other
page keeps its bytes.
-/

namespace GooseOs
variable [Platform]

/-- The allocator manages the heap the linker reserved. -/
structure Managed (a : BitmapAllocator) : Prop where
  base : a.baseAddr = Platform.heapStart
  total : a.totalPages = (Platform.heapEnd - Platform.heapStart) / pageSize

omit [Platform] in
/-- Page number `n` is allocated. -/
def Used (a : BitmapAllocator) (n : Nat) : Prop := a.Allocated (n * pageSize)

/-- `a'` is `a` with page `n` handed out. -/
structure Grants (a a' : BitmapAllocator) (n : Nat) : Prop where
  managed : Managed a'
  fresh : ¬ Used a n
  used : ∀ m, Used a' m ↔ m = n ∨ Used a m

/-- `a'` is `a` with page `n` taken back. -/
structure Releases (a a' : BitmapAllocator) (n : Nat) : Prop where
  managed : Managed a'
  held : Used a n
  used : ∀ m, Used a' m ↔ m ≠ n ∧ Used a m

section Allocator
variable {a a' : BitmapAllocator} (managed : Managed a)
include managed

theorem Managed.aligned : a.baseAddr % pageSize = 0 := managed.base ▸ Platform.heapStart_aligned

theorem used_iff {n : Nat} :
    Used a n ↔ ∃ i, i < a.totalPages ∧ n = a.baseAddr / pageSize + i ∧ a.Marked i := by
  have aligned := managed.aligned
  simp only [Used, BitmapAllocator.Allocated, pageSize] at *
  constructor
  · rintro ⟨i, bound, place, marked⟩
    exact ⟨i, bound, by omega, marked⟩
  · rintro ⟨i, bound, place, marked⟩
    exact ⟨i, bound, by omega, marked⟩

/-- Used pages lie in the heap, well below the page numbers an entry can hold. -/
theorem used_range {n : Nat} (used : Used a n) :
    Platform.heapStart ≤ n * pageSize ∧ n * pageSize < Platform.heapEnd ∧ n < 2 ^ 26 := by
  obtain ⟨i, bound, place, -⟩ := used
  have total := managed.total
  have base := managed.base
  have heap := Platform.heap_le
  have low := Platform.stack_low
  simp only [pageSize] at *
  omega

theorem alloc_grants {addr : Nat} (h : a.alloc = .ok (addr, a')) :
    ∃ n, addr = n * pageSize ∧ Grants a a' n := by
  obtain ⟨i, rfl, grows⟩ := BitmapAllocator.alloc_ok h
  have managed' : Managed a' := ⟨grows.base.trans managed.base, grows.total.trans managed.total⟩
  have aligned := managed.aligned
  refine ⟨a.baseAddr / pageSize + i, ?_, managed', ?_, fun m => ?_⟩
  · simp only [pageSize] at *
    omega
  · rw [used_iff managed]
    rintro ⟨j, -, same, marked⟩
    obtain rfl : i = j := by omega
    exact grows.fresh marked
  · rw [used_iff managed, used_iff managed', grows.base, grows.total]
    constructor
    · rintro ⟨j, bound, rfl, marked⟩
      rcases (grows.marked j).mp marked with rfl | before
      · exact Or.inl rfl
      · exact Or.inr ⟨j, bound, rfl, before⟩
    · rintro (rfl | ⟨j, bound, rfl, marked⟩)
      · exact ⟨i, grows.bound, rfl, (grows.marked i).mpr (Or.inl rfl)⟩
      · exact ⟨j, bound, rfl, (grows.marked j).mpr (Or.inr marked)⟩

theorem free_releases {addr : Nat} (h : a.free addr = .ok a') :
    ∃ n, addr = n * pageSize ∧ Releases a a' n := by
  obtain ⟨i, rfl, shrinks⟩ := BitmapAllocator.free_ok managed.aligned h
  have managed' : Managed a' := ⟨shrinks.base.trans managed.base, shrinks.total.trans managed.total⟩
  have aligned := managed.aligned
  refine ⟨a.baseAddr / pageSize + i, ?_, managed', ?_, fun m => ?_⟩
  · simp only [pageSize] at *
    omega
  · rw [used_iff managed]
    exact ⟨i, shrinks.bound, rfl, shrinks.held⟩
  · rw [used_iff managed, used_iff managed', shrinks.base, shrinks.total]
    constructor
    · rintro ⟨j, bound, rfl, marked⟩
      obtain ⟨other, before⟩ := (shrinks.marked j).mp marked
      exact ⟨by omega, j, bound, rfl, before⟩
    · rintro ⟨other, j, bound, rfl, marked⟩
      exact ⟨j, bound, rfl, (shrinks.marked j).mpr ⟨by omega, marked⟩⟩

theorem isAllocated_used {addr : Nat} : a.isAllocated addr = true ↔ ∃ n, addr = n * pageSize ∧ Used a n := by
  rw [BitmapAllocator.isAllocated_iff managed.aligned]
  have aligned := managed.aligned
  constructor
  · rintro ⟨i, bound, rfl, marked⟩
    refine ⟨a.baseAddr / pageSize + i, ?_, (used_iff managed).mpr ⟨i, bound, rfl, marked⟩⟩
    simp only [pageSize] at *
    omega
  · rintro ⟨n, rfl, used⟩
    exact used

end Allocator

/-! ### Address spaces -/

/-- An address space: a tree of depth two whose tables are allocated pages. -/
structure Space (v : Vm) (root : Nat) : Prop where
  tree : Radix.Tree (entry v.mem) root 2
  used : ∀ t, Radix.Table (entry v.mem) root t → Used v.alloc t

/-- What building in the space below `root` leaves alone: used pages stay used, only tables are
added, and every byte outside its tables is kept. -/
structure Extends (v v' : Vm) (root : Nat) : Prop where
  managed : Managed v'.alloc
  keeps : ∀ n, Used v.alloc n → Used v'.alloc n
  only : ∀ n, Used v'.alloc n → Used v.alloc n ∨ IsTable v' root n
  fresh : ∀ n, IsTable v' root n → IsTable v root n ∨ ¬ Used v.alloc n
  paths : ∀ p t, Radix.follow (entry v.mem) root p = some t → Radix.follow (entry v'.mem) root p = some t
  frame : ∀ x, ¬ IsTable v' root (x / pageSize) → v'.mem x = v.mem x

namespace Extends
variable {v v' v'' : Vm} {root : Nat}

theorem refl (managed : Managed v.alloc) : Extends v v root :=
  ⟨managed, fun _ used => used, fun _ used => Or.inl used, fun _ table => Or.inl table, fun _ _ path => path,
    fun _ _ => rfl⟩

theorem tables (grown : Extends v v' root) {n : Nat} (table : IsTable v root n) : IsTable v' root n := by
  obtain ⟨p, path⟩ := table
  exact ⟨p, grown.paths p n path⟩

theorem trans (first : Extends v v' root) (second : Extends v' v'' root) : Extends v v'' root := by
  refine ⟨second.managed, fun n used => second.keeps n (first.keeps n used), fun n used => ?_, fun n table => ?_,
    fun p t path => second.paths p t (first.paths p t path), fun x outside => ?_⟩
  · rcases second.only n used with before | table
    · rcases first.only n before with before | table
      · exact Or.inl before
      · exact Or.inr (second.tables table)
    · exact Or.inr table
  · rcases second.fresh n table with before | unused
    · exact first.fresh n before
    · exact Or.inr fun used => unused (first.keeps n used)
  · rw [second.frame x outside, first.frame x fun table => outside (second.tables table)]

end Extends

section Frame
variable {v v' : Vm} {root : Nat} (same : ∀ x, IsTable v root (x / pageSize) → v'.mem x = v.mem x)
include same

omit [Platform] in
/-- A space does not see pages that hold none of its tables. -/
theorem Space.congr (space : Space v root) (keeps : ∀ n, IsTable v root n → Used v'.alloc n) : Space v' root :=
  ⟨space.tree.congr (entries_congr same), fun n table => keeps n ((isTable_congr same).mp table)⟩

end Frame

namespace Kvm
variable {v v' : Vm} {root t : Nat} {p : List (Fin ptEntries)} {i : Fin ptEntries}

theorem allocZeroedPage_ok {addr : Nat} (managed : Managed v.alloc) (h : allocZeroedPage v = .ok (addr, v')) :
    ∃ n, addr = n * pageSize ∧ Grants v.alloc v'.alloc n ∧ v'.mem = v.mem.fill (n * pageSize) pageSize 0 := by
  unfold allocZeroedPage at h
  split at h
  · cases h
  · rename_i page alloc granted
    cases h
    obtain ⟨n, rfl, grants⟩ := alloc_grants managed granted
    exact ⟨n, rfl, grants, rfl⟩

/-- The child behind an entry: it is there, or a fresh page is hung into the empty entry. -/
theorem walkOrCreate_cases {addr : Nat} (managed : Managed v.alloc) (h : walkOrCreate v (t * pageSize) i = .ok (addr, v')) :
    ∃ u, addr = u * pageSize ∧ (v' = v ∧ entry v.mem t i = .branch u ∨
      entry v.mem t i = .empty ∧ Grants v.alloc v'.alloc u ∧
        v'.mem = (v.mem.fill (u * pageSize) pageSize 0).write64 (t * pageSize + i * 8) (Pte.branch (u * pageSize)).bits) := by
  have found : readPte v.mem (t * pageSize) i = ⟨v.mem.read64 (t * pageSize + i * 8)⟩ := rfl
  unfold walkOrCreate at h
  simp only [found] at h
  split at h
  · rename_i valid
    split at h
    · rename_i branch
      cases h
      refine ⟨_, Pte.physAddr_eq _, .inl ⟨rfl, ?_⟩⟩
      rw [entry, entryOf, if_pos valid, Pte.isLeaf_eq _ valid, branch]
      rfl
    · cases h
  · rename_i invalid
    obtain ⟨⟨newTable, v₁⟩, allocated, h⟩ := bind_ok h
    cases h
    obtain ⟨n, rfl, grants, zeroed⟩ := allocZeroedPage_ok managed allocated
    refine ⟨n, rfl, .inr ⟨by rw [entry, entryOf, if_neg invalid], grants, ?_⟩⟩
    rw [← zeroed]
    rfl

omit [Platform] in
/-- The entry a fresh table is hung into. -/
theorem entry_hung {m : Memory} {n : Nat} (bound : n < 2 ^ 52) :
    entry ((m.fill (n * pageSize) pageSize 0).write64 (t * pageSize + i * 8) (Pte.branch (n * pageSize)).bits) =
      Radix.set (entry (m.fill (n * pageSize) pageSize 0)) t i (.branch n) := by
  rw [← entryOf_branch bound]
  exact entry_write64 _ t i _

/-- The child behind an entry above the last level: found, or grafted on a fresh page. -/
theorem walkOrCreate_ok {addr : Nat} (managed : Managed v.alloc) (space : Space v root)
    (path : Radix.follow (entry v.mem) root p = some t) (above : p.length < 2)
    (h : walkOrCreate v (t * pageSize) i = .ok (addr, v')) :
    ∃ u, addr = u * pageSize ∧ Space v' root ∧ Extends v v' root ∧
      Radix.follow (entry v'.mem) root (p ++ [i]) = some u ∧
      ∀ q j, Radix.lookup (entry v'.mem) root q j = Radix.lookup (entry v.mem) root q j := by
  obtain ⟨n, rfl, ⟨rfl, child⟩ | ⟨vacant, grants, memory⟩⟩ := walkOrCreate_cases managed h
  · refine ⟨n, rfl, space, .refl managed, ?_, fun _ _ => rfl⟩
    rw [Radix.follow_snoc, path, Option.bind_some, child]
    rfl
  · have bound := used_range grants.managed ((grants.used n).mpr (Or.inl rfl))
    have fresh : ¬ IsTable v root n := fun table => grants.fresh (space.used n table)
    have written : entry v'.mem = Radix.set (entry (v.mem.fill (n * pageSize) pageSize 0)) t i (.branch n) := by
      rw [memory]
      exact entry_hung (by omega)
    obtain ⟨tree, tables, follows, lookups⟩ := graft_tree space.tree path above vacant fresh written
    refine ⟨n, rfl, ⟨tree, fun m table => ?_⟩, ⟨grants.managed, fun m held => ?_, fun m held => ?_, fun m table => ?_,
      fun q m reached => follow_grafted path vacant follows reached, fun x away => ?_⟩, ?_, lookups⟩
    · rcases (tables m).mp table with rfl | before
      · exact (grants.used m).mpr (Or.inl rfl)
      · exact (grants.used m).mpr (Or.inr (space.used m before))
    · exact (grants.used m).mpr (Or.inr held)
    · rcases (grants.used m).mp held with rfl | before
      · exact Or.inr ((tables m).mpr (Or.inl rfl))
      · exact Or.inl before
    · rcases (tables m).mp table with rfl | before
      · exact Or.inr grants.fresh
      · exact Or.inl before
    · rw [tables, not_or] at away
      have other : x / pageSize ≠ t := fun same => away.2 (same ▸ ⟨p, path⟩)
      let filled : Vm := { v with mem := v.mem.fill (n * pageSize) pageSize 0 }
      have kept : (writePte filled (t * pageSize) i (.branch (n * pageSize))).mem x = filled.mem x := writePte_apply other
      rw [memory]
      exact kept.trans (Memory.fill_apply_outside (page_apart away.1))
    · rw [follows, if_pos rfl]

theorem writePte_last {pte : Pte} (managed : Managed v.alloc) (space : Space v root)
    (path : Radix.follow (entry v.mem) root p = some t) (bottom : p.length = 2) (flat : (entryOf pte).branch? = none) :
    Space (writePte v (t * pageSize) i pte) root ∧ Extends v (writePte v (t * pageSize) i pte) root ∧
      ∀ q j, Radix.lookup (entry (writePte v (t * pageSize) i pte).mem) root q j =
        if q = p ∧ j = i then (entryOf pte).leaf? else Radix.lookup (entry v.mem) root q j := by
  obtain ⟨tree, follows, lookups⟩ := writePte_tree (i := i) space.tree path bottom flat
  have tables : ∀ n, IsTable (writePte v (t * pageSize) i pte) root n ↔ IsTable v root n := fun n => isTable_of_follow follows
  refine ⟨⟨tree, fun n table => space.used n ((tables n).mp table)⟩, ⟨managed, fun _ used => used,
    fun _ used => Or.inl used, fun n table => Or.inl ((tables n).mp table), fun q n reached => ?_, fun x away => ?_⟩, lookups⟩
  · rw [follows, reached]
  · rw [tables] at away
    exact writePte_apply fun same => away (same ▸ ⟨p, path⟩)

end Kvm

namespace Kvm
variable {v v' : Vm} {root va pa : Nat} {flags : PteFlags}

/-- Mapping a page changes the translation of that page only. -/
theorem mapPage_ok (managed : Managed v.alloc) (space : Space v root) (leaf : (Pte.new pa flags).isLeaf = true)
    (h : mapPage v (root * pageSize) va pa flags = .ok v') :
    Space v' root ∧ Extends v v' root ∧
      ∀ va', leafAt v'.mem root va' = if vpn va' = vpn va then some (.new pa flags) else leafAt v.mem root va' := by
  unfold mapPage at h
  dsimp only at h
  obtain ⟨⟨level1, v₁⟩, first, h⟩ := bind_ok h
  obtain ⟨⟨level0, v₂⟩, second, h⟩ := bind_ok h
  cases h
  obtain ⟨t₁, rfl, space₁, grown₁, path₁, lookup₁⟩ :=
    walkOrCreate_ok (p := []) managed space rfl (by simp) first
  obtain ⟨t₀, rfl, space₂, grown₂, path₂, lookup₂⟩ :=
    walkOrCreate_ok grown₁.managed space₁ path₁ (by simp) second
  have flat : (entryOf (.new pa flags)).branch? = none := by rw [entryOf_of_isLeaf leaf]; rfl
  obtain ⟨space₃, grown₃, lookup₃⟩ := writePte_last grown₂.managed space₂ path₂ rfl flat
  refine ⟨space₃, (grown₁.trans grown₂).trans grown₃, fun va' => ?_⟩
  rw [leafAt, lookup₃, lookup₂, lookup₁, entryOf_of_isLeaf leaf]
  exact if_congr vaParts_iff rfl rfl

omit [Platform] in
theorem entryOf_invalid_branch : (entryOf .invalid).branch? = none := rfl

/-- Unmapping clears the translation of one page, which it had. -/
theorem unmapPage_some (managed : Managed v.alloc) (space : Space v root)
    (h : unmapPage v (root * pageSize) va = some v') :
    Space v' root ∧ Extends v v' root ∧ v'.alloc = v.alloc ∧
      ∀ va', leafAt v'.mem root va' = if vpn va' = vpn va then none else leafAt v.mem root va' := by
  obtain ⟨t, path, rfl⟩ := unmapPage_found h
  obtain ⟨space', grown, lookup⟩ := writePte_last (i := (vaParts va).2.2.1) managed space path rfl entryOf_invalid_branch
  refine ⟨space', grown, rfl, fun va' => ?_⟩
  rw [leafAt, lookup]
  exact if_congr vaParts_iff rfl rfl

omit [Platform] in
theorem isPermission_user : IsPermission userRx ∧ IsPermission userRw ∧ IsPermission userMmio := by
  refine ⟨⟨?_, ?_, ?_⟩, ⟨?_, ?_, ?_⟩, ?_, ?_, ?_⟩ <;> decide

omit [Platform] in
theorem vpn_page (n : Nat) : vpn (n * pageSize) = n % 2 ^ 27 := by
  simp only [vpn, pageSize]
  omega

theorem mapFrom_ok {n count : Nat} (permission : IsPermission flags) (bound : n + count ≤ 2 ^ 52)
    (managed : Managed v.alloc) (space : Space v root)
    (h : mapFrom v (root * pageSize) (n * pageSize) flags count = .ok v') :
    Space v' root ∧ Extends v v' root ∧ ∀ va',
      (∃ j, n ≤ j ∧ j < n + count ∧ vpn va' = vpn (j * pageSize) ∧
        leafAt v'.mem root va' = some (.new (j * pageSize) flags)) ∨
      ((∀ j, n ≤ j → j < n + count → vpn va' ≠ vpn (j * pageSize)) ∧
        leafAt v'.mem root va' = leafAt v.mem root va') := by
  induction count generalizing v n with
  | zero =>
    cases h
    exact ⟨space, .refl managed, fun va' => Or.inr ⟨fun j lower upper => by omega, rfl⟩⟩
  | succ count ih =>
    obtain ⟨v₁, first, rest⟩ := bind_ok h
    obtain ⟨space₁, grown₁, leaf₁⟩ := mapPage_ok managed space (permission.new_isLeaf (by omega)) first
    have next : n * pageSize + pageSize = (n + 1) * pageSize := by rw [Nat.add_mul, Nat.one_mul]
    rw [next] at rest
    obtain ⟨space₂, grown₂, leaf₂⟩ := ih (by omega) grown₁.managed space₁ rest
    refine ⟨space₂, grown₁.trans grown₂, fun va' => ?_⟩
    rcases leaf₂ va' with ⟨j, lower, upper, same, leaf⟩ | ⟨outside, kept⟩
    · exact Or.inl ⟨j, by omega, by omega, same, leaf⟩
    · rw [kept, leaf₁]
      by_cases here : vpn va' = vpn (n * pageSize)
      · exact Or.inl ⟨n, by omega, by omega, here, if_pos here⟩
      · refine Or.inr ⟨fun j lower upper => ?_, if_neg here⟩
        rcases Nat.eq_or_lt_of_le lower with rfl | later
        · exact here
        · exact outside j later (by omega)

end Kvm
end GooseOs
