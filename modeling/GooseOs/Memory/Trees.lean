import GooseOs.Kernel.Kvm
import GooseOs.Memory.PageSet

/-!
The table operations on any well-formed tree: which pages they take from the allocator, when they
run out of them, and what they do to the translation. Nothing is assumed of the tree but that none
of its tables is a page the allocator may still hand out.
-/

namespace GooseOs

/-- Page `n` holds a table of the tree below `root`. -/
abbrev IsTable (v : Vm) (root n : Nat) : Prop := Radix.Table (entry v.mem) root n

theorem page_apart {n x : Nat} (other : x / pageSize ≠ n) : x < n * pageSize ∨ n * pageSize + pageSize ≤ x := by
  simp only [pageSize] at *
  omega

theorem page_inside {n x : Nat} (lower : n * pageSize ≤ x) (upper : x < n * pageSize + pageSize) :
    x / pageSize = n := by
  simp only [pageSize] at *
  omega

section Frame
variable {v v' : Vm} {root : Nat} (same : ∀ x, IsTable v root (x / pageSize) → v'.mem x = v.mem x)
include same

theorem entries_congr (n : Nat) (table : IsTable v root n) : entry v'.mem n = entry v.mem n :=
  entry_congr fun _ lower upper => same _ ((page_inside lower upper).symm ▸ table)

theorem isTable_congr {n : Nat} : IsTable v' root n ↔ IsTable v root n := Radix.table_congr (entries_congr same)

theorem leafAt_congr (va : Nat) : leafAt v'.mem root va = leafAt v.mem root va :=
  Radix.lookup_congr (entries_congr same) _ _

end Frame

/-! ### Free pages -/

namespace BitmapAllocator

/-- The allocator manages whole pages that an entry can name. -/
structure Pages (a : BitmapAllocator) : Prop where
  aligned : a.baseAddr % pageSize = 0
  bound : a.baseAddr + a.totalPages * pageSize ≤ 2 ^ 56

/-- Page number `n` can be handed out. -/
def Free (a : BitmapAllocator) (n : Nat) : Prop := ∃ i, i < a.totalPages ∧ n = a.baseAddr / pageSize + i ∧ ¬ a.Marked i

/-- The number of pages left. -/
def freePages (a : BitmapAllocator) : Nat := ((Finset.range a.totalPages).filter fun i => ¬ a.Marked i).card

/-- `a'` is `a` with page number `n` handed out. -/
structure Hands (a a' : BitmapAllocator) (n : Nat) : Prop where
  pages : a'.Pages
  free : a.Free n
  bound : n < 2 ^ 44
  rest : ∀ m, a'.Free m ↔ a.Free m ∧ m ≠ n
  count : a'.freePages + 1 = a.freePages

theorem hands_of_grows {a a' : BitmapAllocator} {i : Nat} (pages : a.Pages) (grows : a.Grows a' i) :
    a.Hands a' (a.baseAddr / pageSize + i) := by
  have aligned := pages.aligned
  have bound := pages.bound
  have small := grows.bound
  refine ⟨⟨?_, ?_⟩, ⟨i, small, rfl, grows.fresh⟩, ?_, fun m => ?_, ?_⟩
  · rw [grows.base]
    exact aligned
  · rw [grows.base, grows.total]
    exact bound
  · simp only [pageSize] at *
    omega
  · unfold Free
    rw [grows.base, grows.total]
    constructor
    · rintro ⟨j, inside, rfl, clear⟩
      rw [grows.marked, not_or] at clear
      exact ⟨⟨j, inside, rfl, clear.2⟩, by omega⟩
    · rintro ⟨⟨j, inside, rfl, clear⟩, other⟩
      refine ⟨j, inside, rfl, ?_⟩
      rw [grows.marked, not_or]
      exact ⟨by omega, clear⟩
  · have removed : ((Finset.range a'.totalPages).filter fun j => ¬ a'.Marked j) =
        ((Finset.range a.totalPages).filter fun j => ¬ a.Marked j).erase i := by
      ext j
      simp only [Finset.mem_filter, Finset.mem_range, Finset.mem_erase, grows.total, grows.marked, not_or]
      exact ⟨fun h => ⟨h.2.1, h.1, h.2.2⟩, fun h => ⟨h.2.1, h.1, h.2.2⟩⟩
    have member : i ∈ (Finset.range a.totalPages).filter fun j => ¬ a.Marked j := by
      rw [Finset.mem_filter, Finset.mem_range]
      exact ⟨small, grows.fresh⟩
    rw [freePages, freePages, removed, Finset.card_erase_of_mem member]
    have positive := Finset.card_pos.mpr ⟨i, member⟩
    omega

/-- `alloc` hands out a free page as long as there is one. -/
theorem alloc_hands {a : BitmapAllocator} (pages : a.Pages) :
    (∃ n a', a.alloc = .ok (n * pageSize, a') ∧ a.Hands a' n) ∨ (a.alloc = .error .outOfMemory ∧ a.freePages = 0) := by
  rcases a.alloc_spec with ⟨i, a', found, grows, -⟩ | ⟨none, all⟩
  · refine Or.inl ⟨_, a', ?_, hands_of_grows pages grows⟩
    rw [found, Nat.add_mul, Nat.div_mul_cancel (Nat.dvd_of_mod_eq_zero pages.aligned)]
  · refine Or.inr ⟨none, Finset.card_eq_zero.mpr (Finset.filter_eq_empty_iff.mpr fun i member => ?_)⟩
    exact not_not.mpr (all i (Finset.mem_range.mp member))

end BitmapAllocator

open BitmapAllocator

/-- A well-formed tree of tables that the allocator leaves alone. -/
structure WellFormed (v : Vm) (root : Nat) : Prop where
  tree : Radix.Tree (entry v.mem) root 2
  pages : v.alloc.Pages
  apart : ∀ t, IsTable v root t → ¬ v.alloc.Free t

namespace Kvm
variable {v v' : Vm} {root t u : Nat} {p : List (Fin ptEntries)} {i : Fin ptEntries}

/-- A step that grows the tree: what was reached and found before still is. -/
structure Grows (v v' : Vm) (root : Nat) : Prop where
  wellFormed : WellFormed v' root
  lookups : ∀ q j, Radix.lookup (entry v'.mem) root q j = Radix.lookup (entry v.mem) root q j
  paths : ∀ q t, Radix.follow (entry v.mem) root q = some t → Radix.follow (entry v'.mem) root q = some t

theorem writePte_apply {x : Nat} {pte : Pte} (other : x / pageSize ≠ t) :
    (writePte v (t * pageSize) i pte).mem x = v.mem x := by
  have small := i.isLt
  simp only [writePte]
  rw [Memory.write64_apply_of_disjoint]
  simp only [pageSize, ptEntries] at *
  omega

theorem walkOrCreate_found (branch : entry v.mem t i = .branch u) :
    walkOrCreate v (t * pageSize) i = .ok (u * pageSize, v) := by
  have found : readPte v.mem (t * pageSize) i = ⟨v.mem.read64 (t * pageSize + i * 8)⟩ := rfl
  unfold walkOrCreate
  simp only [found]
  rw [entry, entryOf] at branch
  generalize (⟨v.mem.read64 (t * pageSize + i * 8)⟩ : Pte) = pte at *
  split at branch
  · rename_i valid
    split at branch
    · cases branch
    · rename_i inner
      have isBranch : pte.isBranch = true := by
        rw [Pte.isLeaf_eq _ valid] at inner
        simpa using inner
      rw [if_pos valid, if_pos isBranch, Pte.physAddr_eq]
      cases branch
      rfl
  · cases branch

/-- An empty entry takes one free page, zeroed, for a new table. -/
theorem walkOrCreate_empty (pages : v.alloc.Pages) (vacant : entry v.mem t i = .empty) :
    (∃ n v', walkOrCreate v (t * pageSize) i = .ok (n * pageSize, v') ∧ v.alloc.Hands v'.alloc n ∧
      entry v'.mem = Radix.set (entry (v.mem.fill (n * pageSize) pageSize 0)) t i (.branch n)) ∨
    (walkOrCreate v (t * pageSize) i = .error .outOfMemory ∧ v.alloc.freePages = 0) := by
  have invalid : (readPte v.mem (t * pageSize) i).isValid = false := by
    have found : readPte v.mem (t * pageSize) i = ⟨v.mem.read64 (t * pageSize + i * 8)⟩ := rfl
    rw [entry, entryOf, ← found] at vacant
    by_contra valid
    rw [if_pos (by simpa using valid)] at vacant
    split at vacant <;> cases vacant
  unfold walkOrCreate allocZeroedPage
  simp only [invalid, Bool.false_eq_true, if_false]
  rcases alloc_hands pages with ⟨n, a', handed, hands⟩ | ⟨none, empty⟩
  · rw [handed]
    refine Or.inl ⟨n, writePte (zeroPage { v with alloc := a' } (n * pageSize)) (t * pageSize) i (.branch (n * pageSize)),
      rfl, hands, ?_⟩
    have bound := hands.bound
    rw [← entryOf_branch (by omega)]
    exact entry_write64 _ t i _
  · rw [none]
    exact Or.inr ⟨rfl, empty⟩

/-- A blank page hung into an empty entry above the last level grows the tree by one table. -/
theorem graft_tree {n : Nat} (tree : Radix.Tree (entry v.mem) root 2) (path : Radix.follow (entry v.mem) root p = some t)
    (above : p.length < 2) (vacant : entry v.mem t i = .empty) (fresh : ¬ IsTable v root n)
    (written : entry v'.mem = Radix.set (entry (v.mem.fill (n * pageSize) pageSize 0)) t i (.branch n)) :
    Radix.Tree (entry v'.mem) root 2 ∧ (∀ m, IsTable v' root m ↔ m = n ∨ IsTable v root m) ∧
      (∀ q, Radix.follow (entry v'.mem) root q = if q = p ++ [i] then some n else Radix.follow (entry v.mem) root q) ∧
      ∀ q j, Radix.lookup (entry v'.mem) root q j = Radix.lookup (entry v.mem) root q j := by
  -- Zeroing the new page does not touch the tree; then the branch is grafted.
  generalize zeroed : ({ v with mem := v.mem.fill (n * pageSize) pageSize 0 } : Vm) = v₁
  have memory : v₁.mem = v.mem.fill (n * pageSize) pageSize 0 := by rw [← zeroed]
  rw [← memory] at written
  have outside : ∀ x, IsTable v root (x / pageSize) → v₁.mem x = v.mem x := by
    intro x table
    have other : x / pageSize ≠ n := fun same => fresh (same ▸ table)
    rw [memory, Memory.fill_apply_outside (page_apart other)]
  have entries := entries_congr outside
  have tree₁ := tree.congr entries
  have path₁ : Radix.follow (entry v₁.mem) root p = some t := (Radix.follow_congr entries p).trans path
  have vacant₁ : entry v₁.mem t i = .empty := by rw [entries t ⟨p, path⟩, vacant]
  have fresh₁ : ¬ IsTable v₁ root n := fun table => fresh ((isTable_congr outside).mp table)
  have blank : ∀ j, entry v₁.mem n j = .empty := fun j => by rw [memory]; exact entry_fill v.mem n j
  refine ⟨?_, fun m => ?_, fun q => ?_, fun q j => ?_⟩
  · rw [written]
    exact tree₁.graft path₁ above vacant₁ fresh₁ blank
  · rw [IsTable, written, Radix.table_graft tree₁ path₁ vacant₁ fresh₁ blank]
    exact or_congr_right (isTable_congr outside)
  · rw [written, Radix.follow_graft tree₁ path₁ vacant₁ fresh₁ blank, Radix.follow_congr entries]
  · rw [written, Radix.lookup_graft tree₁ path₁ vacant₁ fresh₁ blank, Radix.lookup_congr entries]

/-- What was reached before the graft still is. -/
theorem follow_grafted {n m : Nat} {q : List (Fin ptEntries)} (path : Radix.follow (entry v.mem) root p = some t)
    (vacant : entry v.mem t i = .empty)
    (follows : ∀ q, Radix.follow (entry v'.mem) root q = if q = p ++ [i] then some n else Radix.follow (entry v.mem) root q)
    (reached : Radix.follow (entry v.mem) root q = some m) : Radix.follow (entry v'.mem) root q = some m := by
  rw [follows, if_neg, reached]
  rintro rfl
  rw [Radix.follow_snoc, path, Option.bind_some, vacant] at reached
  cases reached

/-- Above the last level the new table is grafted onto the tree. -/
theorem walkOrCreate_graft (formed : WellFormed v root) (path : Radix.follow (entry v.mem) root p = some t)
    (above : p.length < 2) (vacant : entry v.mem t i = .empty) :
    (∃ n v', walkOrCreate v (t * pageSize) i = .ok (n * pageSize, v') ∧ v.alloc.Hands v'.alloc n ∧ Grows v v' root ∧
      (∀ q, Radix.follow (entry v'.mem) root q =
        if q = p ++ [i] then some n else Radix.follow (entry v.mem) root q)) ∨
    (walkOrCreate v (t * pageSize) i = .error .outOfMemory ∧ v.alloc.freePages = 0) := by
  refine (walkOrCreate_empty formed.pages vacant).imp_left ?_
  rintro ⟨n, v', made, hands, written⟩
  have fresh : ¬ IsTable v root n := fun table => formed.apart n table hands.free
  obtain ⟨tree, tables, follows, lookups⟩ := graft_tree formed.tree path above vacant fresh written
  refine ⟨n, v', made, hands, ⟨⟨tree, hands.pages, fun m table => ?_⟩, lookups, fun q m reached =>
    follow_grafted path vacant follows reached⟩, follows⟩
  rw [hands.rest]
  rcases (tables m).mp table with rfl | before
  · exact fun free => free.2 rfl
  · exact fun free => formed.apart m before free.1

/-- Writing an entry of the last level that is not a branch changes that leaf of the tree. -/
theorem writePte_tree {pte : Pte} (tree : Radix.Tree (entry v.mem) root 2)
    (path : Radix.follow (entry v.mem) root p = some t) (bottom : p.length = 2) (flat : (entryOf pte).branch? = none) :
    Radix.Tree (entry (writePte v (t * pageSize) i pte).mem) root 2 ∧
      (∀ q, Radix.follow (entry (writePte v (t * pageSize) i pte).mem) root q = Radix.follow (entry v.mem) root q) ∧
      ∀ q j, Radix.lookup (entry (writePte v (t * pageSize) i pte).mem) root q j =
        if q = p ∧ j = i then (entryOf pte).leaf? else Radix.lookup (entry v.mem) root q j := by
  have written : entry (writePte v (t * pageSize) i pte).mem = Radix.set (entry v.mem) t i (entryOf pte) :=
    entry_write64 v.mem t i pte
  rw [written]
  exact ⟨tree.set_leaf path bottom flat, Radix.follow_set_leaf tree path bottom flat,
    Radix.lookup_set_leaf tree path bottom flat⟩

/-- The tables are those that can be reached. -/
theorem isTable_of_follow (same : ∀ q, Radix.follow (entry v'.mem) root q = Radix.follow (entry v.mem) root q) {n : Nat} :
    IsTable v' root n ↔ IsTable v root n := exists_congr fun q => by rw [same]

theorem writePte_bottom {pte : Pte} (formed : WellFormed v root) (path : Radix.follow (entry v.mem) root p = some t)
    (bottom : p.length = 2) (flat : (entryOf pte).branch? = none) :
    WellFormed (writePte v (t * pageSize) i pte) root ∧
      (∀ q, Radix.follow (entry (writePte v (t * pageSize) i pte).mem) root q = Radix.follow (entry v.mem) root q) ∧
      ∀ q j, Radix.lookup (entry (writePte v (t * pageSize) i pte).mem) root q j =
        if q = p ∧ j = i then (entryOf pte).leaf? else Radix.lookup (entry v.mem) root q j := by
  obtain ⟨tree, follows, lookups⟩ := writePte_tree (i := i) formed.tree path bottom flat
  exact ⟨⟨tree, formed.pages, fun n table => formed.apart n ((isTable_of_follow follows).mp table)⟩, follows, lookups⟩

/-- Whether the child at `p ++ [i]` is still to be made. -/
def childMissing (m : Memory) (root : Nat) (path : List (Fin ptEntries)) : Nat :=
  if (Radix.follow (entry m) root path).isSome then 0 else 1

theorem childMissing_le (m : Memory) (root : Nat) (path : List (Fin ptEntries)) : childMissing m root path ≤ 1 := by
  unfold childMissing
  split <;> omega

/-- One level of a mapping: it takes a page iff the child is missing, and fails iff none is left. -/
theorem walkOrCreate_level (formed : WellFormed v root) (path : Radix.follow (entry v.mem) root p = some t)
    (above : p.length < 2) :
    (childMissing v.mem root (p ++ [i]) ≤ v.alloc.freePages ∧
      ∃ u v', walkOrCreate v (t * pageSize) i = .ok (u * pageSize, v') ∧ Grows v v' root ∧
        v'.alloc.freePages + childMissing v.mem root (p ++ [i]) = v.alloc.freePages ∧
        Radix.follow (entry v'.mem) root (p ++ [i]) = some u ∧
        ∀ q, q ≠ p ++ [i] → Radix.follow (entry v'.mem) root q = Radix.follow (entry v.mem) root q) ∨
    (v.alloc.freePages < childMissing v.mem root (p ++ [i]) ∧
      walkOrCreate v (t * pageSize) i = .error .outOfMemory) := by
  have next : Radix.follow (entry v.mem) root (p ++ [i]) = (entry v.mem t i).branch? := by
    rw [Radix.follow_snoc, path, Option.bind_some]
  cases found : entry v.mem t i with
  | leaf l => exact absurd found (formed.tree.inner p t i l path above)
  | branch u =>
    have there : Radix.follow (entry v.mem) root (p ++ [i]) = some u := by rw [next, found]; rfl
    have need : childMissing v.mem root (p ++ [i]) = 0 := by rw [childMissing, there]; rfl
    exact Or.inl ⟨by omega, u, v, walkOrCreate_found found, ⟨formed, fun _ _ => rfl, fun _ _ reached => reached⟩,
      by omega, there, fun _ _ => rfl⟩
  | empty =>
    have absent : Radix.follow (entry v.mem) root (p ++ [i]) = none := by rw [next, found]; rfl
    have need : childMissing v.mem root (p ++ [i]) = 1 := by rw [childMissing, absent]; rfl
    rcases walkOrCreate_graft formed path above found with ⟨n, v', made, hands, grows, follows⟩ | ⟨failed, none⟩
    · have count := hands.count
      exact Or.inl ⟨by omega, n, v', made, grows, by omega, by rw [follows, if_pos rfl], fun q other => by
        rw [follows, if_neg other]⟩
    · exact Or.inr ⟨by omega, failed⟩

/-- The tables a mapping of `va` has to make. -/
def tablesMissing (m : Memory) (root va : Nat) : Nat :=
  childMissing m root [(vaParts va).1] + childMissing m root [(vaParts va).1, (vaParts va).2.1]

end Kvm

/-- The page number of a virtual address, as far as the tables see it. -/
def vpn (va : Nat) : Nat := va / pageSize % 2 ^ 27

theorem vaParts_iff {va va' : Nat} :
    ([(vaParts va').1, (vaParts va').2.1] = [(vaParts va).1, (vaParts va).2.1] ∧
      (vaParts va').2.2.1 = (vaParts va).2.2.1) ↔ vpn va' = vpn va := by
  simp only [List.cons.injEq, and_true, Fin.ext_iff, vaParts_fst_val, vaParts_snd_val, vaParts_trd_val, vpn, pageSize]
  omega

namespace Kvm
variable {v v' : Vm} {root va pa : Nat} {flags : PteFlags}

/-- What a successful mapping does. -/
structure Maps (v v' : Vm) (root va pa : Nat) (flags : PteFlags) : Prop where
  wellFormed : WellFormed v' root
  taken : v'.alloc.freePages + tablesMissing v.mem root va = v.alloc.freePages
  leaf : ∀ va', leafAt v'.mem root va' = if vpn va' = vpn va then some (.new pa flags) else leafAt v.mem root va'
  path : (Radix.follow (entry v'.mem) root [(vaParts va).1, (vaParts va).2.1]).isSome
  paths : ∀ q, (Radix.follow (entry v.mem) root q).isSome → (Radix.follow (entry v'.mem) root q).isSome
  only : ∀ q, (Radix.follow (entry v'.mem) root q).isSome → (Radix.follow (entry v.mem) root q).isSome ∨
    q = [(vaParts va).1] ∨ q = [(vaParts va).1, (vaParts va).2.1]

/-- A mapping succeeds iff the pages left suffice for the tables it misses. -/
theorem mapPage_maps (va : Nat) (formed : WellFormed v root) (leaf : (Pte.new pa flags).isLeaf = true) :
    (tablesMissing v.mem root va ≤ v.alloc.freePages ∧
      ∃ v', mapPage v (root * pageSize) va pa flags = .ok v' ∧ Maps v v' root va pa flags) ∨
    (v.alloc.freePages < tablesMissing v.mem root va ∧
      mapPage v (root * pageSize) va pa flags = .error .outOfMemory) := by
  unfold mapPage tablesMissing
  dsimp only
  have atRoot : Radix.follow (entry v.mem) root [] = some root := rfl
  rcases walkOrCreate_level (i := (vaParts va).1) formed atRoot (by simp) with
    ⟨enough, t₁, v₁, made₁, grows₁, taken₁, path₁, others₁⟩ | ⟨short, failed⟩
  · rw [List.nil_append] at enough taken₁ path₁ others₁
    rw [made₁]
    -- The level-1 child of the middle table is missing after this level iff it was before.
    have same : childMissing v₁.mem root [(vaParts va).1, (vaParts va).2.1] =
        childMissing v.mem root [(vaParts va).1, (vaParts va).2.1] := by
      rw [childMissing, childMissing, others₁ _ (by simp)]
    rcases walkOrCreate_level (i := (vaParts va).2.1) grows₁.wellFormed path₁ (by simp) with
      ⟨enough₂, t₀, v₂, made₂, grows₂, taken₂, path₂, others₂⟩ | ⟨short, failed⟩
    · rw [List.singleton_append] at enough₂ taken₂ path₂ others₂
      rw [same] at enough₂ taken₂
      refine Or.inl ⟨by omega, writePte v₂ (t₀ * pageSize) (vaParts va).2.2.1 (.new pa flags), ?_, ?_⟩
      · change (walkOrCreate v₁ (t₁ * pageSize) (vaParts va).2.1 >>= _) = _
        rw [made₂]
        rfl
      have flat : (entryOf (.new pa flags)).branch? = none := by rw [entryOf_of_isLeaf leaf]; rfl
      obtain ⟨formed₃, follows₃, lookups₃⟩ :=
        writePte_bottom (i := (vaParts va).2.2.1) grows₂.wellFormed path₂ (by simp) flat
      refine ⟨formed₃, ?_, fun va' => ?_, ?_, fun q reached => ?_, fun q reached => ?_⟩
      · change v₂.alloc.freePages + _ = _
        rw [tablesMissing]
        omega
      · rw [leafAt, lookups₃, grows₂.lookups, grows₁.lookups, entryOf_of_isLeaf leaf]
        exact if_congr vaParts_iff rfl rfl
      · rw [follows₃, path₂]
        rfl
      · obtain ⟨t, before⟩ := Option.isSome_iff_exists.mp reached
        rw [follows₃, grows₂.paths q t (grows₁.paths q t before)]
        rfl
      · rw [follows₃] at reached
        by_cases bottom : q = [(vaParts va).1, (vaParts va).2.1]
        · exact Or.inr (Or.inr bottom)
        by_cases middle : q = [(vaParts va).1]
        · exact Or.inr (Or.inl middle)
        · rw [others₂ q bottom, others₁ q middle] at reached
          exact Or.inl reached
    · rw [List.singleton_append, same] at short
      refine Or.inr ⟨by omega, ?_⟩
      change (walkOrCreate v₁ (t₁ * pageSize) (vaParts va).2.1 >>= _) = _
      rw [failed]
      rfl
  · rw [List.nil_append] at short
    refine Or.inr ⟨by omega, ?_⟩
    rw [failed]
    rfl

end Kvm
end GooseOs
