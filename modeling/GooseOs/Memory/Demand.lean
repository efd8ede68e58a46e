import GooseOs.Memory.Supply
import Mathlib.Algebra.Order.BigOperators.Group.Finset

/-!
The exact page demand of a new address space: one page for the root, one for each page of the image
and for the stack, and one for every table on the way to a mapped page, each counted once.
-/

namespace GooseOs
open BitmapAllocator Kvm

/-! ### Tables by path -/

/-- The tables the page of `va` needs below the root, named by the indices that lead to them. -/
def tablePaths (va : Nat) : Finset (List (Fin ptEntries)) := {[(vaParts va).1], [(vaParts va).1, (vaParts va).2.1]}

/-- The tables that `count` pages from page `n` on need. -/
def fromPaths (n : Nat) : Nat → Finset (List (Fin ptEntries))
  | 0 => ∅
  | count + 1 => tablePaths (n * pageSize) ∪ fromPaths (n + 1) count

def rangePaths (start stop : Nat) : Finset (List (Fin ptEntries)) :=
  fromPaths (start / pageSize) ((pageUp stop - pageDown start) / pageSize)

def regionPaths : List (Nat × Nat × PteFlags) → Finset (List (Fin ptEntries))
  | [] => ∅
  | (start, stop, _) :: rest => rangePaths start stop ∪ regionPaths rest

theorem tablePaths_congr {va va' : Nat} (same : va / 2 ^ 21 = va' / 2 ^ 21) : tablePaths va = tablePaths va' := by
  have second : (vaParts va).2.1 = (vaParts va').2.1 := by
    rw [← Fin.val_inj, vaParts_snd_val, vaParts_snd_val, same]
  have first : (vaParts va).1 = (vaParts va').1 := by
    rw [← Fin.val_inj, vaParts_fst_val, vaParts_fst_val]
    omega
  rw [tablePaths, tablePaths, first, second]

theorem card_tablePaths (va : Nat) : (tablePaths va).card ≤ 2 := Finset.card_le_two

theorem mem_fromPaths {n count : Nat} {q : List (Fin ptEntries)} (member : q ∈ fromPaths n count) :
    ∃ k, n ≤ k ∧ k < n + count ∧ q ∈ tablePaths (k * pageSize) := by
  induction count generalizing n with
  | zero => exact absurd member (Finset.notMem_empty q)
  | succ count ih =>
    rcases Finset.mem_union.mp member with first | later
    · exact ⟨n, Nat.le_refl n, by omega, first⟩
    · obtain ⟨k, low, high, there⟩ := ih later
      exact ⟨k, by omega, by omega, there⟩

theorem card_fromPaths (n count : Nat) : (fromPaths n count).card ≤ (count / 512 + 2) * 2 := by
  have blocks : fromPaths n count ⊆ (Finset.range (count / 512 + 2)).biUnion fun b => tablePaths ((n / 512 + b) * 2 ^ 21) := by
    intro q member
    obtain ⟨k, low, high, there⟩ := mem_fromPaths member
    refine Finset.mem_biUnion.mpr ⟨k / 512 - n / 512, Finset.mem_range.mpr (by omega), ?_⟩
    have block : k * pageSize / 2 ^ 21 = (n / 512 + (k / 512 - n / 512)) * 2 ^ 21 / 2 ^ 21 := by
      simp only [pageSize]
      omega
    rwa [← tablePaths_congr block]
  have count_ := Finset.card_biUnion_le_card_mul (Finset.range (count / 512 + 2))
    (fun b => tablePaths ((n / 512 + b) * 2 ^ 21)) 2 fun b _ => card_tablePaths _
  rw [Finset.card_range] at count_
  exact (Finset.card_le_card blocks).trans count_

theorem card_regionPaths (regions : List (Nat × Nat × PteFlags)) : (regionPaths regions).card ≤
    (regions.map fun region => ((pageUp region.2.1 - pageDown region.1) / pageSize / 512 + 2) * 2).sum := by
  induction regions with
  | nil => exact Nat.le_refl 0
  | cons region rest ih =>
    rw [List.map_cons, List.sum_cons]
    exact (Finset.card_union_le _ _).trans (Nat.add_le_add (card_fromPaths _ _) ih)

/-- Below `root` there are the tables of `paths` and no others; they, the pages left and `taken` other
pages are `total` pages. -/
structure Budget (v : Vm) (root : Nat) (paths : Finset (List (Fin ptEntries))) (taken total : Nat) : Prop where
  formed : WellFormed v root
  tables : ∀ q, q ≠ [] → ((Radix.follow (entry v.mem) root q).isSome ↔ q ∈ paths)
  count : v.alloc.freePages + paths.card + taken = total

/-- The outcome of building these tables and taking these pages: done if there are enough, out of
memory otherwise. -/
def Spends (result : Result Vm) (root : Nat) (paths : Finset (List (Fin ptEntries))) (taken total : Nat) : Prop :=
  (∃ v, result = .ok v ∧ Budget v root paths taken total) ∨ (result = .error .outOfMemory ∧ total < paths.card + taken)

section Budget
variable {v : Vm} {root n count taken total : Nat} {paths more : Finset (List (Fin ptEntries))} {f : PteFlags}
  {result : Result Vm}

theorem Budget.fits (budget : Budget v root paths taken total) : paths.card + taken ≤ total := by
  have count := budget.count
  omega

theorem Budget.done (budget : Budget v root paths taken total) : Spends (.ok v) root paths taken total :=
  Or.inl ⟨v, rfl, budget⟩

theorem Spends.bind {next : Vm → Result Vm} {later : Nat} (spends : Spends result root paths taken total)
    (grown : paths ⊆ more) (order : taken ≤ later)
    (step : ∀ v, result = .ok v → Budget v root paths taken total → Spends (next v) root more later total) :
    Spends (result >>= next) root more later total := by
  rcases spends with ⟨v, rfl, budget⟩ | ⟨rfl, short⟩
  · exact step v rfl budget
  · have card := Finset.card_le_card grown
    exact Or.inr ⟨rfl, by omega⟩

theorem childMissing_eq (budget : Budget v root paths taken total) {q : List (Fin ptEntries)} (below : q ≠ []) :
    childMissing v.mem root q = if q ∈ paths then 0 else 1 := by
  rw [childMissing, if_congr (budget.tables q below) rfl rfl]

/-- A mapping misses the tables of its page that are not there. -/
theorem Budget.missing (budget : Budget v root paths taken total) (va : Nat) :
    (paths ∪ tablePaths va).card = paths.card + tablesMissing v.mem root va := by
  have first := childMissing_eq budget (q := [(vaParts va).1]) (by simp)
  have second := childMissing_eq budget (q := [(vaParts va).1, (vaParts va).2.1]) (by simp)
  have apart : [(vaParts va).1, (vaParts va).2.1] ≠ [(vaParts va).1] := by simp
  rw [tablesMissing, first, second, tablePaths, Finset.union_insert, Finset.union_singleton]
  generalize [(vaParts va).1, (vaParts va).2.1] = bottom at *
  generalize [(vaParts va).1] = middle at *
  by_cases below : bottom ∈ paths
  · rw [if_pos below, Finset.insert_eq_of_mem below]
    by_cases above : middle ∈ paths
    · rw [if_pos above, Finset.insert_eq_of_mem above, Nat.add_zero]
    · rw [if_neg above, Finset.card_insert_of_notMem above]
  · rw [if_neg below, Finset.card_insert_eq_ite, if_congr (Finset.mem_insert.trans (or_iff_right apart.symm)) rfl rfl,
      Finset.card_insert_of_notMem below]
    split <;> omega

theorem Budget.mapPage {va pa : Nat} (budget : Budget v root paths taken total)
    (leaf : (Pte.new pa f).isLeaf = true) :
    Spends (mapPage v (root * pageSize) va pa f) root (paths ∪ tablePaths va) taken total := by
  have missing := budget.missing va
  have count := budget.count
  rcases mapPage_maps va budget.formed leaf with ⟨enough, v', mapped, maps⟩ | ⟨short, failed⟩
  · have left := maps.taken
    refine Or.inl ⟨v', mapped, maps.wellFormed, fun q below => ⟨fun there => ?_, fun member => ?_⟩, by omega⟩
    · rw [Finset.mem_union, tablePaths, Finset.mem_insert, Finset.mem_singleton]
      exact (maps.only q there).imp_left (budget.tables q below).mp
    · rw [Finset.mem_union, tablePaths, Finset.mem_insert, Finset.mem_singleton] at member
      rcases member with before | rfl | rfl
      · exact maps.paths q ((budget.tables q below).mpr before)
      · have path := maps.path
        rw [show [(vaParts va).1, (vaParts va).2.1] = [(vaParts va).1] ++ [(vaParts va).2.1] from rfl,
          Radix.follow_snoc] at path
        cases middle : Radix.follow (entry v'.mem) root [(vaParts va).1] with
        | none => rw [middle] at path; cases path
        | some t => rfl
      · exact maps.path
  · exact Or.inr ⟨failed, by omega⟩

theorem Budget.mapFrom (budget : Budget v root paths taken total) (permission : IsPermission f)
    (bound : n + count ≤ 2 ^ 44) :
    Spends (mapFrom v (root * pageSize) (n * pageSize) f count) root (paths ∪ fromPaths n count) taken total := by
  induction count generalizing v n paths with
  | zero =>
    rw [fromPaths, Finset.union_empty]
    exact budget.done
  | succ count ih =>
    have next : n * pageSize + pageSize = (n + 1) * pageSize := by rw [Nat.add_mul, Nat.one_mul]
    rw [fromPaths, ← Finset.union_assoc, mapFrom, next]
    refine (budget.mapPage (permission.new_isLeaf (by omega))).bind Finset.subset_union_left le_rfl fun v' _ budget' => ?_
    exact ih budget' (by omega)

theorem Budget.mapRange {start stop : Nat} (budget : Budget v root paths taken total) (permission : IsPermission f)
    (low : start ≤ 2 ^ 38) (high : stop ≤ 2 ^ 38) :
    Spends (mapRange v (root * pageSize) start stop f) root (paths ∪ rangePaths start stop) taken total := by
  refine budget.mapFrom permission ?_
  simp only [pageUp, pageDown, pageSize]
  omega

theorem Budget.mapRegions {regions : List (Nat × Nat × PteFlags)}
    (low : ∀ region ∈ regions, IsPermission region.2.2 ∧ region.1 ≤ 2 ^ 38 ∧ region.2.1 ≤ 2 ^ 38)
    (budget : Budget v root paths taken total) :
    Spends (mapRegions v (root * pageSize) regions) root (paths ∪ regionPaths regions) taken total := by
  induction regions generalizing v paths with
  | nil =>
    rw [regionPaths, Finset.union_empty]
    exact budget.done
  | cons region rest ih =>
    obtain ⟨start, stop, flags⟩ := region
    obtain ⟨permission, first, second⟩ := low (start, stop, flags) (List.mem_cons_self ..)
    rw [regionPaths, ← Finset.union_assoc, Kvm.mapRegions]
    refine (budget.mapRange permission first second).bind Finset.subset_union_left le_rfl fun v' _ budget' => ?_
    exact ih (fun region member => low region (List.mem_cons_of_mem _ member)) budget'

end Budget

/-! ### Images -/

namespace Syscall

/-- Where the copy for the page at `va` reads: the first image offset, and how many bytes. -/
def copySource (seg : Elf.LoadSegment) (va : Word) : Word × Nat :=
  let start := if seg.vaddr > va then seg.vaddr else va
  let stop := if seg.vaddr + seg.filesz < va + 4096 then seg.vaddr + seg.filesz else va + 4096
  (seg.fileOffset + (start - seg.vaddr), if start < stop then (stop - start).toNat else 0)

/-- The virtual address of a segment's page `p`. -/
def segmentVa (seg : Elf.LoadSegment) (p : Nat) : Word := Elf.pageFloor seg.vaddr + BitVec.ofNat 64 p * 4096

/-- The image offsets that loading copies from. -/
def Copied (segments : List Elf.LoadSegment) (off : Word) : Prop :=
  ∃ seg ∈ segments, ∃ p, p < Elf.pagesNeeded seg.memsz seg.vaddr ∧
    ∃ i, i < (copySource seg (segmentVa seg p)).2 ∧ off = (copySource seg (segmentVa seg p)).1 + BitVec.ofNat 64 i

/-- The tables of a segment's pages, from page `p` on. -/
def pagePaths (seg : Elf.LoadSegment) : (count p : Nat) → Finset (List (Fin ptEntries))
  | 0, _ => ∅
  | count + 1, p => tablePaths (segmentVa seg p).toNat ∪ pagePaths seg count (p + 1)

def segmentPaths : List Elf.LoadSegment → Finset (List (Fin ptEntries))
  | [] => ∅
  | seg :: rest => pagePaths seg (Elf.pagesNeeded seg.memsz seg.vaddr) 0 ∪ segmentPaths rest

/-- The pages the segments of an image fill. -/
def imagePages : List Elf.LoadSegment → Nat
  | [] => 0
  | seg :: rest => Elf.pagesNeeded seg.memsz seg.vaddr + imagePages rest

theorem card_pagePaths (seg : Elf.LoadSegment) (count p : Nat) : (pagePaths seg count p).card ≤ 2 * count := by
  induction count generalizing p with
  | zero => exact Nat.le_refl 0
  | succ count ih =>
    have later := ih (p + 1)
    have first := card_tablePaths (segmentVa seg p).toNat
    have both := Finset.card_union_le (tablePaths (segmentVa seg p).toNat) (pagePaths seg count (p + 1))
    rw [pagePaths]
    omega

theorem card_segmentPaths (segments : List Elf.LoadSegment) : (segmentPaths segments).card ≤ 2 * imagePages segments := by
  induction segments with
  | nil => exact Nat.le_refl 0
  | cons seg rest ih =>
    have first := card_pagePaths seg (Elf.pagesNeeded seg.memsz seg.vaddr) 0
    have both := Finset.card_union_le (pagePaths seg (Elf.pagesNeeded seg.memsz seg.vaddr) 0) (segmentPaths rest)
    rw [segmentPaths, imagePages]
    omega

section Loading
variable [Platform] {load : Memory → Word → Result Byte} {v v₀ v₁ : Vm} {root taken total : Nat}
  {paths : Finset (List (Fin ptEntries))}

/-- What the space of an image costs: the root, its pages, the stack, and all its tables. -/
def demand (segments : List Elf.LoadSegment) : Nat :=
  2 + imagePages segments + (regionPaths kernelRegions ∪ segmentPaths segments ∪ tablePaths stackVa).card

/-- The demand is at most that of the regions and pages taken one by one. -/
theorem demand_le (segments : List Elf.LoadSegment) : demand segments ≤ 4 + 3 * imagePages segments +
    (kernelRegions.map fun region => ((pageUp region.2.1 - pageDown region.1) / pageSize / 512 + 2) * 2).sum := by
  have regions := card_regionPaths kernelRegions
  have pages := card_segmentPaths segments
  have stack := card_tablePaths stackVa
  have first := Finset.card_union_le (regionPaths kernelRegions) (segmentPaths segments)
  have second := Finset.card_union_le (regionPaths kernelRegions ∪ segmentPaths segments) (tablePaths stackVa)
  rw [demand]
  omega
/-- The image byte at `off` can be loaded, and stays so while pages that are free in `v` are filled. -/
def Readable (load : Memory → Word → Result Byte) (v : Vm) (off : Word) : Prop :=
  ∀ m : Memory, (∀ x, Used v.alloc (x / pageSize) → m x = v.mem x) → ∃ b, load m off = .ok b

omit [Platform] in
theorem copyBytes_passes {m : Memory} {dst n : Nat} {src : Word}
    (readable : ∀ i, i < n → Readable load v (src + BitVec.ofNat 64 i))
    (same : ∀ x, Used v.alloc (x / pageSize) → m x = v.mem x)
    (fresh : ∀ x, dst ≤ x → x < dst + n → ¬ Used v.alloc (x / pageSize)) :
    ∃ m', copyBytes load m dst src n = .ok m' := by
  induction n generalizing m dst src with
  | zero => exact ⟨m, rfl⟩
  | succ n ih =>
    obtain ⟨b, loaded⟩ := readable 0 (by omega) m same
    rw [BitVec.add_zero] at loaded
    rw [copyBytes, loaded, ok_bind]
    refine ih (fun i below => ?_) (fun x used => ?_) fun x lower upper => fresh x (by omega) (by omega)
    · have next := readable (i + 1) (by omega)
      rwa [BitVec.ofNat_add, BitVec.add_comm (BitVec.ofNat 64 i), ← BitVec.add_assoc] at next
    · rw [Memory.write8_apply_ne, same x used]
      rintro rfl
      exact fresh _ (Nat.le_refl _) (by omega) used

omit [Platform] in
/-- A segment copy is a byte copy that stays inside its page. -/
theorem copyPage_eq (load : Memory → Word → Result Byte) (seg : Elf.LoadSegment) (va : Word) (page : Nat) (m : Memory) :
    ∃ dst, copyPage load seg va page m = copyBytes load m dst (copySource seg va).1 (copySource seg va).2 ∧
      page ≤ dst ∧ dst + (copySource seg va).2 ≤ page + pageSize := by
  have lower := ite_start seg.vaddr va
  have upper := ite_stop (seg.vaddr + seg.filesz) (va + 4096)
  unfold copyPage copySource
  dsimp only
  generalize (if seg.vaddr > va then seg.vaddr else va) = start at *
  generalize (if seg.vaddr + seg.filesz < va + 4096 then seg.vaddr + seg.filesz else va + 4096) = stop at *
  by_cases overlap : start < stop
  · have inside := copy_inside lower upper overlap
    rw [if_pos overlap, if_pos overlap]
    exact ⟨_, rfl, by omega, by omega⟩
  · rw [if_neg overlap, if_neg overlap]
    exact ⟨page, rfl, by omega, by omega⟩

theorem take_budget {v₂ : Vm} (budget : Budget v₀ root paths taken total) (builds : Builds v v₀ root)
    (takes : Takes v₀ v₂) (count : v₂.alloc.freePages + 1 = v₀.alloc.freePages) :
    Budget v₂ root paths (taken + 1) total := by
  have same : ∀ x, IsTable v₀ root (x / pageSize) → v₂.mem x = v₀.mem x := by
    intro x table
    by_contra differ
    exact (takes.frame x differ).1 (builds.space.used _ table)
  have before := budget.count
  refine ⟨(builds.take takes).1.space.wellFormed takes.managed, fun q below => ?_, by omega⟩
  rw [Radix.follow_congr (entries_congr same)]
  exact budget.tables q below

theorem place_spends {va : Nat} {flags : PteFlags} (fill : Nat → Memory → Result Memory) (permission : IsPermission flags)
    (builds : Builds v v₀ root) (budget : Budget v₀ root paths taken total)
    (fills : ∀ n (v₁ : Vm), Grants v₀.alloc v₁.alloc n → v₁.mem = v₀.mem.fill (n * pageSize) pageSize 0 →
      ∃ m, fill (n * pageSize) v₁.mem = .ok m ∧ ∀ x, x / pageSize ≠ n → m x = v₁.mem x) :
    Spends (allocZeroedPage v₀ >>= fun page => fill page.1 page.2.mem >>= fun m =>
      mapPage { page.2 with mem := m } (root * pageSize) va page.1 flags) root (paths ∪ tablePaths va) (taken + 1) total := by
  have grown : paths.card ≤ (paths ∪ tablePaths va).card := Finset.card_le_card Finset.subset_union_left
  rcases Nat.eq_zero_or_pos v₀.alloc.freePages with none | some
  · have count := budget.count
    rcases alloc_hands builds.managed.pages with ⟨n, a', handed, hands⟩ | ⟨failed, -⟩
    · have positive := hands.count
      omega
    · refine Or.inr ⟨?_, by omega⟩
      rw [allocZeroedPage, failed]
      rfl
  obtain ⟨n, v₁, allocated, grants, zeroed, count⟩ := allocZeroedPage_within builds.managed some
  obtain ⟨m, filled, frame⟩ := fills n v₁ grants zeroed
  have takes : Takes v₀ { v₁ with mem := m } := by
    refine .of_grants grants fun x other => ?_
    rw [show ({ v₁ with mem := m } : Vm).mem x = v₁.mem x from frame x other, zeroed,
      Memory.fill_apply_outside (page_apart other)]
  have leaf : (Pte.new (n * pageSize) flags).isLeaf = true := by
    have range := used_range grants.managed ((grants.used n).mpr (Or.inl rfl))
    exact permission.new_isLeaf (by omega)
  rw [allocated, ok_bind]
  dsimp only
  rw [filled, ok_bind]
  exact (take_budget budget builds takes count).mapPage leaf

theorem loadPage_spends {seg : Elf.LoadSegment} {p : Nat} (builds : Builds v v₀ root)
    (budget : Budget v₀ root paths taken total)
    (readable : ∀ i, i < (copySource seg (segmentVa seg p)).2 →
      Readable load v ((copySource seg (segmentVa seg p)).1 + BitVec.ofNat 64 i)) :
    Spends (loadPage load (root * pageSize) seg v₀ p) root (paths ∪ tablePaths (segmentVa seg p).toNat) (taken + 1)
      total := by
  refine place_spends (copyPage load seg (segmentVa seg p)) (segment_permission seg.executable).1 builds budget
    fun n v₁ grants zeroed => ?_
  have fresh : ¬ Used v.alloc n := fun used => grants.fresh (builds.keeps n used)
  obtain ⟨dst, copy, lower, upper⟩ :=
    copyPage_eq load seg (segmentVa seg p) (n * pageSize) v₁.mem
  have takes : Takes v₀ v₁ := .of_grants grants fun x other => by
    rw [zeroed, Memory.fill_apply_outside (page_apart other)]
  have same : ∀ x, Used v.alloc (x / pageSize) → v₁.mem x = v.mem x := by
    intro x used
    by_contra differ
    exact ((builds.takes.trans takes).frame x differ).1 used
  have ⟨m, copied⟩ : ∃ m, copyBytes load v₁.mem dst _ _ = .ok m := copyBytes_passes readable same fun x below above used =>
    fresh (page_inside (n := n) (x := x) (by omega) (by omega) ▸ used)
  rw [← copy] at copied
  exact ⟨m, copied, fun x => copyPage_frame copied⟩

theorem loadPages_spends {seg : Elf.LoadSegment} {count p : Nat} (builds : Builds v v₀ root)
    (budget : Budget v₀ root paths taken total)
    (readable : ∀ j, p ≤ j → j < p + count → ∀ i, i < (copySource seg (segmentVa seg j)).2 →
      Readable load v ((copySource seg (segmentVa seg j)).1 + BitVec.ofNat 64 i)) :
    Spends (loadPages load (root * pageSize) seg count p v₀) root (paths ∪ pagePaths seg count p) (taken + count) total := by
  induction count generalizing v₀ p paths taken with
  | zero =>
    rw [pagePaths, Finset.union_empty]
    exact budget.done
  | succ count ih =>
    rw [pagePaths, ← Finset.union_assoc, loadPages, show taken + (count + 1) = taken + 1 + count by omega]
    refine (loadPage_spends builds budget (readable p (by omega) (by omega))).bind Finset.subset_union_left (by omega)
      fun v' loaded budget' => ?_
    exact ih (loadPage_ok builds loaded).1 budget' fun j lower upper => readable j (by omega) (by omega)

theorem loadSegments_spends {segments : List Elf.LoadSegment} (builds : Builds v v₀ root)
    (budget : Budget v₀ root paths taken total) (readable : ∀ off, Copied segments off → Readable load v off) :
    Spends (loadSegments load (root * pageSize) segments v₀) root (paths ∪ segmentPaths segments)
      (taken + imagePages segments) total := by
  induction segments generalizing v₀ paths taken with
  | nil =>
    rw [segmentPaths, Finset.union_empty]
    exact budget.done
  | cons seg rest ih =>
    rw [segmentPaths, imagePages, ← Finset.union_assoc, loadSegments, ← Nat.add_assoc]
    refine (loadPages_spends builds budget fun j _ upper i below => readable _
      ⟨seg, List.mem_cons_self .., j, by omega, i, below, rfl⟩).bind Finset.subset_union_left (by omega)
      fun v' loaded budget' => ?_
    exact ih (loadPages_ok builds loaded).1 budget' fun off ⟨seg', member, inside⟩ =>
      readable off ⟨seg', List.mem_cons_of_mem _ member, inside⟩

theorem root_budget {n : Nat} (managed : Managed v.alloc) (grants : Grants v.alloc v₁.alloc n)
    (zeroed : v₁.mem = v.mem.fill (n * pageSize) pageSize 0) : Budget v₁ n ∅ 0 v₁.alloc.freePages := by
  have empty : ∀ i, entry v₁.mem n i = .empty := fun i => by rw [zeroed]; exact entry_fill v.mem n i
  refine ⟨(Builds.of_root (.refl managed) grants zeroed).1.space.wellFormed grants.managed, fun q below => ?_, rfl⟩
  rcases q with _ | ⟨i, rest⟩
  · exact absurd rfl below
  · rw [Radix.follow, empty]
    exact iff_of_false (by simp [Entry.branch?]) (Finset.notMem_empty _)

theorem mapKernelRegions_spends {n : Nat} (budget : Budget v₁ n ∅ 0 total) :
    Spends (mapKernelRegions v₁ (n * pageSize)) n (regionPaths kernelRegions) 0 total := by
  have regions : Spends (mapKernelRegions v₁ (n * pageSize)) n (∅ ∪ regionPaths kernelRegions) 0 total := by
    refine budget.mapRegions fun region member => ?_
    obtain ⟨start, stop, flags⟩ := region
    obtain ⟨order, low, permission, -⟩ := kernelRegions_spec member
    exact ⟨permission, Nat.le_trans order low, low⟩
  rwa [Finset.empty_union] at regions

/-- Once the root is there, an image is loaded in three steps. -/
theorem loadElf_eq {info : Elf.ElfInfo} {userRoot : Nat} (allocated : allocZeroedPage v = .ok (userRoot, v₁)) :
    loadElf load info v = (mapKernelRegions v₁ userRoot >>= fun v => loadSegments load userRoot info.segments v >>= fun v =>
      allocZeroedPage v >>= fun page => mapPage page.2 userRoot stackVa page.1 userRw) >>= fun v => pure (userRoot, v) := by
  rw [loadElf, allocated, ok_bind]
  simp only [bind_assoc]

/-- An image whose file bytes can be read is loaded when its demand can be met, and not otherwise. -/
theorem loadElf_spends (load : Memory → Word → Result Byte) (info : Elf.ElfInfo) (managed : Managed v.alloc)
    (readable : ∀ off, Copied info.segments off → Readable load v off) :
    (∃ userRoot v', loadElf load info v = .ok (userRoot, v') ∧
      v'.alloc.freePages + demand info.segments = v.alloc.freePages) ∨
    (loadElf load info v = .error .outOfMemory ∧ v.alloc.freePages < demand info.segments) := by
  rcases Nat.eq_zero_or_pos v.alloc.freePages with none | some
  · rcases alloc_hands managed.pages with ⟨n, a', handed, hands⟩ | ⟨failed, -⟩
    · have positive := hands.count
      omega
    · refine Or.inr ⟨?_, by rw [none, demand]; omega⟩
      rw [loadElf, allocZeroedPage, failed]
      rfl
  obtain ⟨n, v₁, allocated, grants, zeroed, count⟩ := allocZeroedPage_within managed some
  obtain ⟨builds₁, none⟩ := Builds.of_root (.refl managed) grants zeroed
  have budget₁ := root_budget managed grants zeroed
  generalize v₁.alloc.freePages = total at *
  have spends : Spends (mapKernelRegions v₁ (n * pageSize) >>= fun v =>
      loadSegments load (n * pageSize) info.segments v >>= fun v =>
        allocZeroedPage v >>= fun page => mapPage page.2 (n * pageSize) stackVa page.1 userRw) n
      (regionPaths kernelRegions ∪ segmentPaths info.segments ∪ tablePaths stackVa) (0 + imagePages info.segments + 1)
      total := by
    refine (mapKernelRegions_spends budget₁).bind (Finset.subset_union_left.trans Finset.subset_union_left) (by omega) fun v₂ mapped budget₂ => ?_
    obtain ⟨space₂, grown₂, leaves₂⟩ := mapKernelRegions_ok builds₁.managed builds₁.space mapped
    have builds₂ : Builds v v₂ n := builds₁.extend space₂ grown₂ fun va pte leaf user => by
      rcases leaves₂ va pte leaf with plain | before
      · rw [plain] at user
        cases user
      · exact Or.inl before
    refine (loadSegments_spends builds₂ budget₂ readable).bind Finset.subset_union_left (by omega)
      fun v₃ loaded budget₃ => ?_
    exact place_spends (fun _ m => .ok m) isPermission_user.2.1 (loadSegments_ok builds₂ loaded).1 budget₃
      fun n v₁ _ _ => ⟨v₁.mem, rfl, fun _ _ => rfl⟩
  rw [loadElf_eq allocated, demand]
  rcases spends with ⟨v', done, budget⟩ | ⟨failed, short⟩
  · have left := budget.count
    rw [done]
    exact Or.inl ⟨n * pageSize, v', rfl, by omega⟩
  · rw [failed]
    exact Or.inr ⟨rfl, by omega⟩

end Loading
end Syscall
end GooseOs
