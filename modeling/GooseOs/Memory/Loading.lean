import GooseOs.Memory.Tables
import GooseOs.Kernel.Boot

/-!
Building a new address space: root, kernel regions, program pages and stack. Whatever the image
asks for, the builder writes to pages that were free, and the user leaves of the new space lead to
pages allocated for it.
-/

namespace GooseOs
open Kvm
variable [Platform]

def Pte.user (p : Pte) : Bool := p.flags.contains .user

namespace Kvm
variable {v v' : Vm} {root : Nat}

/-- The regions every table maps end low and give user mode nothing. -/
theorem kernelRegions_spec {start stop : Nat} {flags : PteFlags} (member : (start, stop, flags) ∈ kernelRegions) :
    start ≤ stop ∧ stop ≤ 2 ^ 38 ∧ IsPermission flags ∧ flags.contains .user = false := by
  have mmio := Platform.mmio_apart
  have text := Platform.text_le
  have rodata := Platform.rodata_le
  have data := Platform.data_le
  have bss := Platform.bss_le
  have heap := Platform.heap_le
  have low := Platform.stack_low
  have rx : IsPermission kernelRx ∧ kernelRx.contains .user = false := ⟨⟨by decide, by decide, by decide⟩, by decide⟩
  have ro : IsPermission kernelRo ∧ kernelRo.contains .user = false := ⟨⟨by decide, by decide, by decide⟩, by decide⟩
  have rw' : IsPermission kernelRw ∧ kernelRw.contains .user = false := ⟨⟨by decide, by decide, by decide⟩, by decide⟩
  have io : IsPermission kernelMmio ∧ kernelMmio.contains .user = false :=
    ⟨⟨by decide, by decide, by decide⟩, by decide⟩
  simp only [kernelRegions, List.mem_append, List.mem_cons, Prod.mk.injEq, List.not_mem_nil, or_false] at member
  simp only [uartBase, plicBase, plicMapSize, virtioMmioBase, virtioMmioStride, virtioMmioSlots, pageSize] at *
  rcases member with (⟨rfl, rfl, rfl⟩ | ⟨rfl, rfl, rfl⟩ | ⟨rfl, rfl, rfl⟩ | ⟨rfl, rfl, rfl⟩ | ⟨rfl, rfl, rfl⟩ |
    ⟨rfl, rfl, rfl⟩ | ⟨rfl, rfl, rfl⟩) | extra
  · exact ⟨by omega, by omega, rx⟩
  · exact ⟨by omega, by omega, ro⟩
  · exact ⟨by omega, by omega, rw'⟩
  · exact ⟨by omega, by omega, rw'⟩
  · exact ⟨by omega, by omega, rw'⟩
  · exact ⟨by omega, by omega, io⟩
  · exact ⟨by omega, by omega, io⟩
  · split at extra
    · simp only [List.mem_singleton, Prod.mk.injEq] at extra
      obtain ⟨rfl, rfl, rfl⟩ := extra
      exact ⟨by omega, by omega, io⟩
    · cases extra

theorem mapRange_ok {start stop : Nat} {flags : PteFlags} (permission : IsPermission flags) (low : stop ≤ 2 ^ 38)
    (order : start ≤ stop) (managed : Managed v.alloc) (space : Space v root)
    (h : mapRange v (root * pageSize) start stop flags = .ok v') :
    Space v' root ∧ Extends v v' root ∧ ∀ va,
      (∃ j, start / pageSize ≤ j ∧ j < (stop + (pageSize - 1)) / pageSize ∧ vpn va = vpn (j * pageSize) ∧
        leafAt v'.mem root va = some (.new (j * pageSize) flags)) ∨
      ((∀ j, start / pageSize ≤ j → j < (stop + (pageSize - 1)) / pageSize → vpn va ≠ vpn (j * pageSize)) ∧
        leafAt v'.mem root va = leafAt v.mem root va) := by
  have pages : (pageUp stop - pageDown start) / pageSize = (stop + (pageSize - 1)) / pageSize - start / pageSize := by
    simp only [pageUp, pageDown, pageSize]
    omega
  rw [mapRange, pages, pageDown] at h
  have count : start / pageSize + ((stop + (pageSize - 1)) / pageSize - start / pageSize) =
      (stop + (pageSize - 1)) / pageSize := by
    simp only [pageSize]
    omega
  have bound : (stop + (pageSize - 1)) / pageSize ≤ 2 ^ 52 := by
    simp only [pageSize]
    omega
  have mapped := mapFrom_ok permission (by rw [count]; exact bound) managed space h
  rw [count] at mapped
  exact mapped

theorem mapRegions_ok {regions : List (Nat × Nat × PteFlags)}
    (spec : ∀ start stop flags, (start, stop, flags) ∈ regions →
      start ≤ stop ∧ stop ≤ 2 ^ 38 ∧ IsPermission flags ∧ flags.contains .user = false)
    (managed : Managed v.alloc) (space : Space v root) (h : mapRegions v (root * pageSize) regions = .ok v') :
    Space v' root ∧ Extends v v' root ∧ ∀ va pte, leafAt v'.mem root va = some pte →
      pte.user = false ∨ leafAt v.mem root va = some pte := by
  induction regions generalizing v with
  | nil =>
    cases h
    exact ⟨space, .refl managed, fun _ _ leaf => Or.inr leaf⟩
  | cons region regions ih =>
    obtain ⟨start, stop, flags⟩ := region
    obtain ⟨v₁, first, rest⟩ := bind_ok h
    obtain ⟨order, low, permission, plain⟩ := spec start stop flags (List.mem_cons_self ..)
    obtain ⟨space₁, grown₁, leaf₁⟩ := mapRange_ok permission low order managed space first
    obtain ⟨space₂, grown₂, leaf₂⟩ :=
      ih (fun start stop flags member => spec start stop flags (List.mem_cons_of_mem _ member)) grown₁.managed space₁ rest
    refine ⟨space₂, grown₁.trans grown₂, fun va pte leaf => ?_⟩
    rcases leaf₂ va pte leaf with kernel | before
    · exact Or.inl kernel
    · rcases leaf₁ va with ⟨j, -, upper, -, new⟩ | ⟨-, kept⟩
      · rw [new] at before
        cases before
        have bound : j < 2 ^ 52 := by simp only [pageSize] at *; omega
        rw [Pte.user, Pte.new_flags bound permission.small]
        exact Or.inl plain
      · exact Or.inr (kept ▸ before)

theorem mapKernelRegions_ok (managed : Managed v.alloc) (space : Space v root)
    (h : mapKernelRegions v (root * pageSize) = .ok v') :
    Space v' root ∧ Extends v v' root ∧ ∀ va pte, leafAt v'.mem root va = some pte →
      pte.user = false ∨ leafAt v.mem root va = some pte :=
  mapRegions_ok (fun _ _ _ => kernelRegions_spec) managed space h

end Kvm

/-- `v'` is `v` with a new space below `root`, built on pages that were free in `v`: its tables, the
targets of its user leaves, and every byte written. -/
structure Builds (v v' : Vm) (root : Nat) : Prop where
  managed : Managed v'.alloc
  keeps : ∀ n, Used v.alloc n → Used v'.alloc n
  space : Space v' root
  fresh : ∀ n, IsTable v' root n → ¬ Used v.alloc n
  frame : ∀ x, v'.mem x ≠ v.mem x → ¬ Used v.alloc (x / pageSize) ∧ Used v'.alloc (x / pageSize)
  user : ∀ va pte, leafAt v'.mem root va = some pte → pte.user = true →
    ¬ Used v.alloc pte.page ∧ Used v'.alloc pte.page ∧ ¬ IsTable v' root pte.page

/-- Pages taken and filled before a space exists. -/
structure Takes (v v' : Vm) : Prop where
  managed : Managed v'.alloc
  keeps : ∀ n, Used v.alloc n → Used v'.alloc n
  frame : ∀ x, v'.mem x ≠ v.mem x → ¬ Used v.alloc (x / pageSize) ∧ Used v'.alloc (x / pageSize)

namespace Takes
variable {v v₁ v₂ : Vm}

theorem refl (managed : Managed v.alloc) : Takes v v := ⟨managed, fun _ used => used, fun _ differ => absurd rfl differ⟩

theorem trans (first : Takes v v₁) (second : Takes v₁ v₂) : Takes v v₂ := by
  refine ⟨second.managed, fun n used => second.keeps n (first.keeps n used), fun x differ => ?_⟩
  by_cases later : v₂.mem x = v₁.mem x
  · obtain ⟨unused, used⟩ := first.frame x (later ▸ differ)
    exact ⟨unused, second.keeps _ used⟩
  · obtain ⟨unused, used⟩ := second.frame x later
    exact ⟨fun before => unused (first.keeps _ before), used⟩

theorem of_grants {n : Nat} (grants : Grants v.alloc v₁.alloc n)
    (frame : ∀ x, x / pageSize ≠ n → v₁.mem x = v.mem x) : Takes v v₁ := by
  refine ⟨grants.managed, fun m used => (grants.used m).mpr (Or.inr used), fun x differ => ?_⟩
  have own : x / pageSize = n := by
    by_contra other
    exact differ (frame x other)
  rw [own]
  exact ⟨grants.fresh, (grants.used n).mpr (Or.inl rfl)⟩

end Takes

namespace Builds
variable {v v₁ v₂ : Vm} {root : Nat}

theorem takes (builds : Builds v v₁ root) : Takes v v₁ := ⟨builds.managed, builds.keeps, builds.frame⟩

theorem of_root {n : Nat} (takes : Takes v v₁) (grants : Grants v₁.alloc v₂.alloc n)
    (zeroed : v₂.mem = v₁.mem.fill (n * pageSize) pageSize 0) : Builds v v₂ n ∧ ∀ va, leafAt v₂.mem n va = none := by
  have empty : ∀ i, entry v₂.mem n i = .empty := fun i => by rw [zeroed]; exact entry_fill v₁.mem n i
  have tables : ∀ m, IsTable v₂ n m ↔ m = n := fun m => Radix.table_of_empty empty
  have leaves : ∀ va, leafAt v₂.mem n va = none := fun va => Radix.lookup_of_empty empty
  have all := takes.trans (.of_grants grants fun x other => by rw [zeroed, Memory.fill_apply_outside (page_apart other)])
  refine ⟨⟨all.managed, all.keeps, ⟨.of_empty empty, fun m table => ?_⟩, fun m table used => ?_, all.frame,
    fun va pte leaf => ?_⟩, leaves⟩
  · rw [(tables m).mp table]
    exact (grants.used n).mpr (Or.inl rfl)
  · obtain rfl := (tables m).mp table
    exact grants.fresh (takes.keeps m used)
  · rw [leaves] at leaf
    cases leaf

/-- Pages taken besides the tables do not change the space. -/
theorem take (builds : Builds v v₁ root) (takes : Takes v₁ v₂) :
    Builds v v₂ root ∧ (∀ n, IsTable v₂ root n ↔ IsTable v₁ root n) ∧
      ∀ va, leafAt v₂.mem root va = leafAt v₁.mem root va := by
  have same : ∀ x, IsTable v₁ root (x / pageSize) → v₂.mem x = v₁.mem x := by
    intro x table
    by_contra differ
    exact (takes.frame x differ).1 (builds.space.used _ table)
  have all := builds.takes.trans takes
  have tables : ∀ n, IsTable v₂ root n ↔ IsTable v₁ root n := fun n => isTable_congr same
  have leaves := leafAt_congr same
  refine ⟨⟨all.managed, all.keeps, builds.space.congr same fun n table => takes.keeps n (builds.space.used n table),
    fun n table => builds.fresh n ((tables n).mp table), all.frame, fun va pte leaf user => ?_⟩, tables, leaves⟩
  rw [leaves] at leaf
  obtain ⟨unused, used, apart⟩ := builds.user va pte leaf user
  exact ⟨unused, takes.keeps _ used, fun table => apart ((tables _).mp table)⟩

/-- Mapping adds tables on free pages; new user leaves must lead to pages taken for the space. -/
theorem extend (builds : Builds v v₁ root) (space : Space v₂ root) (grown : Extends v₁ v₂ root)
    (leaves : ∀ va pte, leafAt v₂.mem root va = some pte → pte.user = true →
      leafAt v₁.mem root va = some pte ∨
        (¬ Used v.alloc pte.page ∧ Used v₁.alloc pte.page ∧ ¬ IsTable v₁ root pte.page)) : Builds v v₂ root := by
  have fresh : ∀ n, IsTable v₂ root n → ¬ Used v.alloc n := by
    intro n table
    rcases grown.fresh n table with before | unused
    · exact builds.fresh n before
    · exact fun used => unused (builds.keeps n used)
  refine ⟨grown.managed, fun n used => grown.keeps n (builds.keeps n used), space, fresh, fun x differ => ?_,
    fun va pte leaf user => ?_⟩
  · by_cases later : v₂.mem x = v₁.mem x
    · obtain ⟨unused, used⟩ := builds.frame x (later ▸ differ)
      exact ⟨unused, grown.keeps _ used⟩
    · have table : IsTable v₂ root (x / pageSize) := by
        by_contra outside
        exact later (grown.frame x outside)
      exact ⟨fresh _ table, space.used _ table⟩
  · have taken : ¬ Used v.alloc pte.page ∧ Used v₁.alloc pte.page ∧ ¬ IsTable v₁ root pte.page :=
      (leaves va pte leaf user).elim (fun before => builds.user va pte before user) id
    refine ⟨taken.1, grown.keeps _ taken.2.1, fun table => ?_⟩
    rcases grown.fresh _ table with before | unused
    · exact taken.2.2 before
    · exact unused taken.2.1

end Builds

/-! ### Program images -/

namespace Syscall
variable {v v₀ v₁ v₂ : Vm} {root : Nat} {load : Memory → Word → Result Byte}

omit [Platform] in
theorem copyBytes_frame {m m' : Memory} {dst n : Nat} {src : Word} (h : copyBytes load m dst src n = .ok m') {x : Nat}
    (outside : x < dst ∨ dst + n ≤ x) : m' x = m x := by
  induction n generalizing m dst src with
  | zero =>
    cases h
    rfl
  | succ n ih =>
    obtain ⟨b, -, rest⟩ := bind_ok h
    rw [ih rest (by omega), Memory.write8_apply_ne (by omega)]

omit [Platform] in
/-- The overlap of the file data with one page stays inside the page. -/
theorem copy_inside {va start stop : Word} (lower : start = va ∨ va < start) (upper : stop = va + 4096 ∨ stop < va + 4096)
    (some : start < stop) : (start - va).toNat + (stop - start).toNat ≤ pageSize := by
  have top : (va + 4096).toNat = (va.toNat + 4096) % 2 ^ 64 := BitVec.toNat_add ..
  rw [BitVec.lt_def] at some
  have low : va.toNat ≤ start.toNat := by
    rcases lower with rfl | below
    · exact Nat.le_refl _
    · exact Nat.le_of_lt (BitVec.lt_def.mp below)
  have high : stop.toNat ≤ (va.toNat + 4096) % 2 ^ 64 := by
    rcases upper with rfl | below
    · exact Nat.le_of_eq top
    · exact top ▸ Nat.le_of_lt (BitVec.lt_def.mp below)
  have first : (start - va).toNat = start.toNat - va.toNat := BitVec.toNat_sub_of_le (BitVec.le_def.mpr low)
  have second : (stop - start).toNat = stop.toNat - start.toNat :=
    BitVec.toNat_sub_of_le (BitVec.le_def.mpr (Nat.le_of_lt some))
  have bound := va.isLt
  rw [first, second]
  simp only [pageSize]
  omega

omit [Platform] in
theorem ite_start (start va : Word) : (if start > va then start else va) = va ∨ va < (if start > va then start else va) := by
  split
  · rename_i later
    exact Or.inr later
  · exact Or.inl rfl

omit [Platform] in
theorem ite_stop (stop limit : Word) :
    (if stop < limit then stop else limit) = limit ∨ (if stop < limit then stop else limit) < limit := by
  split
  · rename_i earlier
    exact Or.inr earlier
  · exact Or.inl rfl

/-- The virtual page of a segment's page `p`. -/
def segmentPage (seg : Elf.LoadSegment) (p : Nat) : Nat :=
  (Elf.pageFloor seg.vaddr + BitVec.ofNat 64 p * 4096).toNat

omit [Platform] in
theorem segment_permission (executable : Bool) :
    IsPermission (if executable then userRx else userRw) ∧
      (if executable then userRx else userRw).contains .user = true := by
  cases executable
  · exact ⟨isPermission_user.2.1, by decide⟩
  · exact ⟨isPermission_user.1, by decide⟩

/-- What loading pages does to the leaves of the space: those in `pages` become user leaves. -/
def UserLeaves (v v' : Vm) (root : Nat) (pages : Nat → Prop) : Prop :=
  ∀ va, (pages (vpn va) ∧ ∃ pte, leafAt v'.mem root va = some pte ∧ pte.user = true) ∨
    (¬ pages (vpn va) ∧ leafAt v'.mem root va = leafAt v.mem root va)

omit [Platform] in
theorem UserLeaves.trans {pages pages' : Nat → Prop} (first : UserLeaves v₀ v₁ root pages)
    (second : UserLeaves v₁ v₂ root pages') : UserLeaves v₀ v₂ root fun w => pages w ∨ pages' w := by
  intro va
  rcases second va with ⟨inside, leaf⟩ | ⟨outside, kept⟩
  · exact Or.inl ⟨Or.inr inside, leaf⟩
  · rw [kept]
    rcases first va with ⟨inside, leaf⟩ | ⟨outside', kept'⟩
    · exact Or.inl ⟨Or.inl inside, leaf⟩
    · exact Or.inr ⟨fun either => either.elim outside' outside, kept'⟩

omit [Platform] in
theorem UserLeaves.congr {pages pages' : Nat → Prop} (leaves : UserLeaves v₀ v₁ root pages)
    (same : ∀ w, pages w ↔ pages' w) : UserLeaves v₀ v₁ root pages' := by
  obtain rfl : pages = pages' := funext fun w => propext (same w)
  exact leaves

theorem map_user {n va : Nat} {flags : PteFlags} (builds : Builds v v₁ root) (permission : IsPermission flags)
    (plain : flags.contains .user = true) (taken : ¬ Used v.alloc n ∧ Used v₁.alloc n ∧ ¬ IsTable v₁ root n)
    (h : mapPage v₁ (root * pageSize) va (n * pageSize) flags = .ok v₂) :
    Builds v v₂ root ∧ Extends v₁ v₂ root ∧ UserLeaves v₁ v₂ root (· = vpn va) := by
  have bound : n < 2 ^ 52 := by
    have := used_range builds.managed taken.2.1
    omega
  obtain ⟨space, grown, leaf⟩ := mapPage_ok builds.managed builds.space (permission.new_isLeaf bound) h
  have user : (Pte.new (n * pageSize) flags).user = true := by
    rw [Pte.user, Pte.new_flags bound permission.small, plain]
  refine ⟨builds.extend space grown fun va' pte reached _ => ?_, grown, fun va' => ?_⟩
  · rw [leaf] at reached
    split at reached
    · cases reached
      rw [Pte.new_page bound permission.small]
      exact Or.inr taken
    · exact Or.inl reached
  · rw [leaf]
    by_cases here : vpn va' = vpn va
    · exact Or.inl ⟨here, _, if_pos here, user⟩
    · exact Or.inr ⟨here, if_neg here⟩

/-- Allocating a page, filling it and mapping it as a user page. -/
theorem place_page {va addr : Nat} {flags : PteFlags} {m : Memory} (builds : Builds v v₀ root)
    (permission : IsPermission flags) (plain : flags.contains .user = true)
    (allocated : allocZeroedPage v₀ = .ok (addr, v₁)) (fill : ∀ x, x / pageSize ≠ addr / pageSize → m x = v₁.mem x)
    (h : mapPage { v₁ with mem := m } (root * pageSize) va addr flags = .ok v₂) :
    Builds v v₂ root ∧ UserLeaves v₀ v₂ root (· = vpn va) := by
  obtain ⟨n, rfl, grants, zeroed⟩ := allocZeroedPage_ok builds.managed allocated
  rw [show n * pageSize / pageSize = n by simp only [pageSize]; omega] at fill
  have takes : Takes v₀ { v₁ with mem := m } := by
    refine .of_grants grants fun x other => ?_
    rw [show ({ v₁ with mem := m } : Vm).mem x = v₁.mem x from fill x other, zeroed,
      Memory.fill_apply_outside (page_apart other)]
  obtain ⟨builds₁, tables, leaves⟩ := builds.take takes
  have taken : ¬ Used v.alloc n ∧ Used v₁.alloc n ∧ ¬ IsTable { v₁ with mem := m } root n :=
    ⟨fun used => grants.fresh (builds.keeps n used), (grants.used n).mpr (Or.inl rfl),
      fun table => grants.fresh (builds.space.used n ((tables n).mp table))⟩
  obtain ⟨builds₂, -, user⟩ := map_user builds₁ permission plain taken h
  refine ⟨builds₂, fun va' => ?_⟩
  rw [← leaves va']
  exact user va'

omit [Platform] in
theorem copyPage_frame {seg : Elf.LoadSegment} {va : Word} {n : Nat} {m m' : Memory}
    (h : copyPage load seg va (n * pageSize) m = .ok m') {x : Nat} (other : x / pageSize ≠ n) : m' x = m x := by
  have lower := ite_start seg.vaddr va
  have upper := ite_stop (seg.vaddr + seg.filesz) (va + 4096)
  unfold copyPage at h
  dsimp only at h
  generalize (if seg.vaddr > va then seg.vaddr else va) = start at h lower
  generalize (if seg.vaddr + seg.filesz < va + 4096 then seg.vaddr + seg.filesz else va + 4096) = stop at h upper
  split at h
  · rename_i overlap
    have inside := copy_inside lower upper overlap
    refine copyBytes_frame h ?_
    have apart := page_apart other
    generalize n * pageSize = page at *
    omega
  · cases h
    rfl

theorem loadPage_ok {seg : Elf.LoadSegment} {p : Nat} (builds : Builds v v₀ root)
    (h : loadPage load (root * pageSize) seg v₀ p = .ok v₁) :
    Builds v v₁ root ∧ UserLeaves v₀ v₁ root (· = vpn (segmentPage seg p)) := by
  unfold loadPage at h
  obtain ⟨⟨page, v₂⟩, allocated, h⟩ := bind_ok h
  obtain ⟨mem, copied, h⟩ := bind_ok h
  obtain ⟨n, rfl, -, -⟩ := allocZeroedPage_ok builds.managed allocated
  obtain ⟨permission, plain⟩ := segment_permission seg.executable
  refine place_page builds permission plain allocated (fun x other => copyPage_frame copied ?_) h
  rwa [Nat.mul_div_cancel n (by decide)] at other

theorem loadPages_ok {seg : Elf.LoadSegment} {count p : Nat} (builds : Builds v v₀ root)
    (h : loadPages load (root * pageSize) seg count p v₀ = .ok v₁) :
    Builds v v₁ root ∧
      UserLeaves v₀ v₁ root fun w => ∃ j, p ≤ j ∧ j < p + count ∧ w = vpn (segmentPage seg j) := by
  induction count generalizing v₀ p with
  | zero =>
    cases h
    refine ⟨builds, fun va => Or.inr ⟨?_, rfl⟩⟩
    rintro ⟨j, lower, upper, -⟩
    omega
  | succ count ih =>
    obtain ⟨v₂, first, rest⟩ := bind_ok h
    obtain ⟨builds₁, leaves₁⟩ := loadPage_ok builds first
    obtain ⟨builds₂, leaves₂⟩ := ih builds₁ rest
    refine ⟨builds₂, (leaves₁.trans leaves₂).congr fun w => ?_⟩
    constructor
    · rintro (rfl | ⟨j, lower, upper, rfl⟩)
      · exact ⟨p, by omega, by omega, rfl⟩
      · exact ⟨j, by omega, by omega, rfl⟩
    · rintro ⟨j, lower, upper, rfl⟩
      rcases Nat.eq_or_lt_of_le lower with rfl | later
      · exact Or.inl rfl
      · exact Or.inr ⟨j, by omega, by omega, rfl⟩

/-- The virtual pages the segments of an image ask for. -/
def SegmentPage (segments : List Elf.LoadSegment) (w : Nat) : Prop :=
  ∃ seg ∈ segments, ∃ p, p < Elf.pagesNeeded seg.memsz seg.vaddr ∧ w = vpn (segmentPage seg p)

theorem loadSegments_ok {segments : List Elf.LoadSegment} (builds : Builds v v₀ root)
    (h : loadSegments load (root * pageSize) segments v₀ = .ok v₁) :
    Builds v v₁ root ∧ UserLeaves v₀ v₁ root (SegmentPage segments) := by
  induction segments generalizing v₀ with
  | nil =>
    cases h
    refine ⟨builds, fun va => Or.inr ⟨?_, rfl⟩⟩
    rintro ⟨seg, member, -⟩
    cases member
  | cons seg segments ih =>
    obtain ⟨v₂, first, rest⟩ := bind_ok h
    obtain ⟨builds₁, leaves₁⟩ := loadPages_ok builds first
    obtain ⟨builds₂, leaves₂⟩ := ih builds₁ rest
    refine ⟨builds₂, (leaves₁.trans leaves₂).congr fun w => ?_⟩
    constructor
    · rintro (⟨j, -, upper, rfl⟩ | ⟨seg', member, rest⟩)
      · exact ⟨seg, List.mem_cons_self .., j, by omega, rfl⟩
      · exact ⟨seg', List.mem_cons_of_mem _ member, rest⟩
    · rintro ⟨seg', member, j, upper, rfl⟩
      rcases List.mem_cons.mp member with rfl | later
      · exact Or.inl ⟨j, by omega, by omega, rfl⟩
      · exact Or.inr ⟨seg', later, j, upper, rfl⟩

/-- Loading an image builds a space: the kernel regions, and over them the segments and the stack. -/
theorem loadElf_ok {info : Elf.ElfInfo} {addr : Nat} (managed : Managed v.alloc)
    (h : loadElf load info v = .ok (addr, v₂)) :
    ∃ v₀ v₁ n, addr = n * pageSize ∧ allocZeroedPage v = .ok (n * pageSize, v₀) ∧
      mapKernelRegions v₀ (n * pageSize) = .ok v₁ ∧ Builds v v₂ n ∧
      (∀ va pte, leafAt v₁.mem n va = some pte → pte.user = false) ∧
      UserLeaves v₁ v₂ n fun w => SegmentPage info.segments w ∨ w = vpn stackVa := by
  unfold loadElf at h
  obtain ⟨⟨userRoot, v₀⟩, allocated, h⟩ := bind_ok h
  obtain ⟨v₁, regions, h⟩ := bind_ok h
  obtain ⟨v₃, segments, h⟩ := bind_ok h
  obtain ⟨⟨userStack, v₄⟩, stack, h⟩ := bind_ok h
  obtain ⟨v₅, mapped, h⟩ := bind_ok h
  cases h
  obtain ⟨n, rfl, grants, zeroed⟩ := allocZeroedPage_ok managed allocated
  obtain ⟨builds₀, none⟩ := Builds.of_root (.refl managed) grants zeroed
  obtain ⟨space₁, grown₁, leaves₁⟩ := mapKernelRegions_ok builds₀.managed builds₀.space regions
  have kernel : ∀ va pte, leafAt v₁.mem n va = some pte → pte.user = false := by
    intro va pte leaf
    rcases leaves₁ va pte leaf with plain | before
    · exact plain
    · rw [none] at before
      cases before
  have builds₁ : Builds v v₁ n := builds₀.extend space₁ grown₁ fun va pte leaf user => by
    rw [kernel va pte leaf] at user
    cases user
  obtain ⟨builds₂, leaves₂⟩ := loadSegments_ok builds₁ segments
  have rw_user : userRw.contains .user = true := by decide
  obtain ⟨builds₃, leaves₃⟩ := place_page (m := v₄.mem) builds₂ isPermission_user.2.1 rw_user stack (fun _ _ => rfl)
    mapped
  exact ⟨v₀, v₁, n, rfl, allocated, regions, builds₃, kernel, leaves₂.trans leaves₃⟩

end Syscall

/-! ### Boot-time processes -/

namespace Boot
open Syscall
variable {k k' : Kernel} {v v₁ v₂ : Vm} {root pid : Nat}

omit [Platform] in
theorem copyCode_frame {m : Memory} {dst src n x : Nat} (outside : x < dst ∨ dst + n ≤ x) :
    copyCode m dst src n x = m x := by
  induction n generalizing m dst src with
  | zero => rfl
  | succ n ih => rw [copyCode, ih (by omega), Memory.write8_apply_ne (by omega)]

omit [Platform] in
theorem mapRange_page {n : Nat} {flags : PteFlags} :
    mapRange v root (n * pageSize) (n * pageSize + pageSize) flags =
      mapPage v root (n * pageSize) (n * pageSize) flags := by
  have count : (pageUp (n * pageSize + pageSize) - pageDown (n * pageSize)) / pageSize = 1 := by
    simp only [pageUp, pageDown, pageSize]
    omega
  have start : pageDown (n * pageSize) = n * pageSize := by
    simp only [pageDown, pageSize]
    omega
  rw [mapRange, count, start, mapFrom]
  simp only [mapFrom]
  cases mapPage v root (n * pageSize) (n * pageSize) flags <;> rfl

theorem takes_page {addr : Nat} {m : Memory} (managed : Managed v.alloc) (allocated : allocZeroedPage v = .ok (addr, v₁))
    (fill : ∀ x, x / pageSize ≠ addr / pageSize → m x = v₁.mem x) :
    ∃ n, addr = n * pageSize ∧ Takes v { v₁ with mem := m } ∧ ¬ Used v.alloc n ∧ Used v₁.alloc n := by
  obtain ⟨n, rfl, grants, zeroed⟩ := allocZeroedPage_ok managed allocated
  rw [Nat.mul_div_cancel n (by decide)] at fill
  refine ⟨n, rfl, .of_grants grants fun x other => ?_, grants.fresh, (grants.used n).mpr (Or.inl rfl)⟩
  rw [show ({ v₁ with mem := m } : Vm).mem x = v₁.mem x from fill x other, zeroed,
    Memory.fill_apply_outside (page_apart other)]

/-- The code page and the stack page of a boot-time process, taken before its root and mapped over the kernel regions. -/
theorem createProcess_maps {code : Nat × Nat} (fits : code.2 ≤ pageSize) (managed : Managed k.vm.alloc)
    (h : createProcess k pid code = .ok k') :
    ∃ v₁ v₂ root c s entry, Builds k.vm v₁ root ∧
      (∃ v₀, Managed v₀.alloc ∧ Space v₀ root ∧ mapKernelRegions v₀ (root * pageSize) = .ok v₁) ∧
      (∀ va pte, leafAt v₁.mem root va = some pte → pte.user = false) ∧ c ≠ s ∧
      (∀ n, n = c ∨ n = s → ¬ Used k.vm.alloc n ∧ Used v₁.alloc n ∧ ¬ IsTable v₁ root n) ∧
      mapPage v₁ (root * pageSize) (c * pageSize) (c * pageSize) userRx = .ok v₂ ∧
      mapPage v₂ (root * pageSize) (s * pageSize) (s * pageSize) userRw = .ok k'.vm ∧
      k' = { k with
        procs := Function.update k.procs pid (newProcess pid 0 (makeSatp (root * pageSize) (BitVec.ofNat 16 pid)) entry
          (BitVec.ofNat 64 (s * pageSize + pageSize)))
        vm := k'.vm } := by
  unfold createProcess at h
  obtain ⟨⟨userCode, v₁⟩, first, h⟩ := bind_ok h
  obtain ⟨⟨userStack, v₂⟩, second, h⟩ := bind_ok h
  obtain ⟨⟨userRoot, v₃⟩, third, h⟩ := bind_ok h
  obtain ⟨v₄, regions, h⟩ := bind_ok h
  obtain ⟨v₅, codeMapped, h⟩ := bind_ok h
  obtain ⟨v₆, stackMapped, h⟩ := bind_ok h
  cases h
  obtain ⟨c, rfl, takes₁, freshCode, usedCode⟩ := takes_page (m := copyCode v₁.mem userCode code.1 code.2) managed first
    fun x other => copyCode_frame (by
      obtain ⟨n, rfl, -, -⟩ := allocZeroedPage_ok managed first
      rw [Nat.mul_div_cancel n (by decide)] at other
      have apart := page_apart other
      generalize n * pageSize = page at *
      omega)
  obtain ⟨s, rfl, takes₂, freshStack, usedStack⟩ := takes_page (m := v₂.mem) takes₁.managed second fun _ _ => rfl
  obtain ⟨n, rfl, grants, zeroed⟩ := allocZeroedPage_ok takes₂.managed third
  obtain ⟨builds₃, none⟩ := Builds.of_root (takes₁.trans takes₂) grants zeroed
  obtain ⟨space₄, grown₄, leaves₄⟩ := mapKernelRegions_ok builds₃.managed builds₃.space regions
  have kernel : ∀ va pte, leafAt v₄.mem n va = some pte → pte.user = false := by
    intro va pte leaf
    rcases leaves₄ va pte leaf with plain | before
    · exact plain
    · rw [none] at before
      cases before
  have builds₄ : Builds k.vm v₄ n := builds₃.extend space₄ grown₄ fun va pte leaf user => by
    rw [kernel va pte leaf] at user
    cases user
  -- Code and stack were taken before the root, so they hold none of its tables.
  have plain : ∀ m, Used v₂.alloc m → ¬ IsTable v₄ n m := by
    intro m used table
    rcases grown₄.fresh m table with before | unused
    · have root : m = n := (Radix.table_of_empty fun i => by rw [zeroed]; exact entry_fill v₂.mem n i).mp before
      exact grants.fresh (root ▸ used)
    · exact unused ((grants.used m).mpr (Or.inr used))
  have usedLater : ∀ m, Used v₂.alloc m → Used v₄.alloc m := fun m used =>
    grown₄.keeps m ((grants.used m).mpr (Or.inr used))
  have usedCode₂ : Used v₂.alloc c := takes₂.keeps c usedCode
  rw [mapRange_page] at codeMapped stackMapped
  refine ⟨v₄, v₅, n, c, s, _, builds₄, ⟨v₃, builds₃.managed, builds₃.space, regions⟩, kernel, ?_, ?_, codeMapped, stackMapped,
    rfl⟩
  · rintro rfl
    exact freshStack usedCode
  · rintro m (rfl | rfl)
    · exact ⟨freshCode, usedLater m usedCode₂, plain m usedCode₂⟩
    · exact ⟨fun used => freshStack (takes₁.keeps m used), usedLater m usedStack, plain m usedStack⟩

/-- A boot-time process: its space, with the stack page mapped where it lies. -/
theorem createProcess_ok {code : Nat × Nat} (fits : code.2 ≤ pageSize) (managed : Managed k.vm.alloc)
    (h : createProcess k pid code = .ok k') :
    ∃ root entry stack, Builds k.vm k'.vm root ∧ ¬ Used k.vm.alloc stack ∧ Used k'.vm.alloc stack ∧
      leafAt k'.vm.mem root (stack * pageSize) = some (.new (stack * pageSize) userRw) ∧
      k' = { k with
        procs := Function.update k.procs pid (newProcess pid 0 (makeSatp (root * pageSize) (BitVec.ofNat 16 pid)) entry
          (BitVec.ofNat 64 (stack * pageSize + pageSize)))
        vm := k'.vm } := by
  obtain ⟨v₁, v₂, root, c, s, entry, builds₁, -, -, -, taken, codeMapped, stackMapped, same⟩ := createProcess_maps fits managed h
  have rx : userRx.contains .user = true := by decide
  have rw' : userRw.contains .user = true := by decide
  obtain ⟨builds₂, grown₂, -⟩ := map_user builds₁ isPermission_user.1 rx (taken c (.inl rfl)) codeMapped
  obtain ⟨fresh, used, plain⟩ := taken s (.inr rfl)
  have plain₂ : ¬ IsTable v₂ root s := by
    intro table
    rcases grown₂.fresh s table with before | unused
    · exact plain before
    · exact unused used
  have used₂ : Used v₂.alloc s := grown₂.keeps s used
  obtain ⟨builds₃, grown₃, -⟩ := map_user builds₂ isPermission_user.2.1 rw' ⟨fresh, used₂, plain₂⟩ stackMapped
  have bound : s < 2 ^ 52 := by
    have := used_range builds₂.managed used₂
    omega
  obtain ⟨-, -, leaf⟩ := mapPage_ok builds₂.managed builds₂.space (isPermission_user.2.1.new_isLeaf bound) stackMapped
  refine ⟨root, entry, s, builds₃, fresh, grown₃.keeps s used₂, ?_, same⟩
  rw [leaf, if_pos rfl]

theorem createProcessFromElf_ok {info : Elf.ElfInfo} {elfStart : Nat} (managed : Managed k.vm.alloc)
    (h : createProcessFromElf k pid info elfStart = .ok k') :
    ∃ root, Builds k.vm k'.vm root ∧
      k' = { k with
        procs := Function.update k.procs pid (newProcess pid 0 (makeSatp (root * pageSize) (BitVec.ofNat 16 pid)) info.entry
          (BitVec.ofNat 64 (stackVa + pageSize)))
        vm := k'.vm } := by
  unfold createProcessFromElf at h
  obtain ⟨⟨userRoot, v⟩, loaded, h⟩ := bind_ok h
  cases h
  obtain ⟨-, -, n, rfl, -, -, builds, -⟩ := loadElf_ok managed loaded
  exact ⟨n, builds, rfl⟩

end Boot
end GooseOs
