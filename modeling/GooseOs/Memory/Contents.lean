import GooseOs.Memory.Segments
import GooseOs.Machine.Spawning

/-!
What a loaded image leaves in memory. Every page of a segment is a fresh one that holds the overlap of
the page with the segment's file part and zeros elsewhere, and takes the place of whatever an earlier
segment had mapped there. So each address shows the last segment with a page at it.
-/

namespace GooseOs
open Kvm Syscall

/-- The byte user mode reads at `a` through the tables below `root`. -/
def shown (v : Vm) (root a : Nat) : Option Byte :=
  match leafAt v.mem root a with
  | some pte =>
    if pte.user && pte.flags.contains .read then some (v.mem (pte.page * pageSize + a % pageSize)) else none
  | none => none

/-- `m` is the memory of `v` but for bytes of free pages. -/
def FillsFree [Platform] (v : Vm) (m : Memory) : Prop :=
  ∀ x, m x ≠ v.mem x → InHeap (x / pageSize) ∧ ¬ Used v.alloc (x / pageSize)

namespace Elf.LoadSegment

/-- The segment's range has the address `a`. -/
def Covers (seg : LoadSegment) (a : Nat) : Prop := seg.vaddr.toNat ≤ a ∧ a < seg.vaddr.toNat + seg.memsz.toNat

/-- One of the segment's pages is the page of `a`. -/
def Maps (seg : LoadSegment) (a : Nat) : Prop :=
  ∃ p < pagesNeeded seg.memsz seg.vaddr, vpn a = vpn (segmentPage seg p)

/-- What the segment puts at `a`: a file byte, or zero. -/
def byteAt (seg : LoadSegment) (file : Word → Byte) (a : Nat) : Byte :=
  if seg.vaddr.toNat ≤ a ∧ a < seg.vaddr.toNat + seg.filesz.toNat then
    file (seg.fileOffset + BitVec.ofNat 64 (a - seg.vaddr.toNat))
  else 0

/-- The sums of the loader do not wrap, unless there is nothing to copy. -/
def Fits (seg : LoadSegment) : Prop :=
  seg.filesz.toNat = 0 ∨
    seg.filesz.toNat ≤ seg.memsz.toNat ∧ seg.vaddr.toNat + seg.memsz.toNat ≤ stackVa

end Elf.LoadSegment

namespace Syscall
variable {seg : Elf.LoadSegment} {va : Word} {load : Memory → Word → Result Byte} {m m' : Memory}

/-! ### One page -/

theorem copySource_eq (room : seg.vaddr.toNat + seg.filesz.toNat < 2 ^ 64) (top : va.toNat + 4096 < 2 ^ 64) :
    copySource seg va =
      (seg.fileOffset + BitVec.ofNat 64 (max seg.vaddr.toNat va.toNat - seg.vaddr.toNat),
        min (seg.vaddr.toNat + seg.filesz.toNat) (va.toNat + 4096) - max seg.vaddr.toNat va.toNat) ∧
    ∀ (load : Memory → Word → Result Byte) page m, copyPage load seg va page m =
      copyBytes load m (page + (max seg.vaddr.toNat va.toNat - va.toNat)) (copySource seg va).1 (copySource seg va).2 := by
  have start : (if seg.vaddr > va then seg.vaddr else va).toNat = max seg.vaddr.toNat va.toNat := by
    split
    · bv_omega
    · bv_omega
  have stop : (if seg.vaddr + seg.filesz < va + 4096 then seg.vaddr + seg.filesz else va + 4096).toNat =
      min (seg.vaddr.toNat + seg.filesz.toNat) (va.toNat + 4096) := by
    split
    · bv_omega
    · bv_omega
  unfold copyPage copySource
  dsimp only
  generalize (if seg.vaddr > va then seg.vaddr else va) = first at *
  generalize (if seg.vaddr + seg.filesz < va + 4096 then seg.vaddr + seg.filesz else va + 4096) = last at *
  have offset : first - seg.vaddr = BitVec.ofNat 64 (first.toNat - seg.vaddr.toNat) := by
    apply BitVec.eq_of_toNat_eq
    bv_omega
  rw [← start, ← stop, offset]
  by_cases overlap : first < last
  · have len : (last - first).toNat = last.toNat - first.toNat := by bv_omega
    have dst : (first - va).toNat = first.toNat - va.toNat := by bv_omega
    simp only [if_pos overlap, len, dst, implies_true, and_self]
  · have none : last.toNat - first.toNat = 0 := by bv_omega
    simp only [if_neg overlap, none, copyBytes, implies_true, and_self]

/-- The copying loop stores what it loads, when its stores do not change what is loaded later. -/
theorem copyBytes_content {dst n : Nat} {src : Word} {bytes : Nat → Byte} (h : copyBytes load m dst src n = .ok m')
    (source : ∀ m₁ : Memory, (∀ x, x < dst ∨ dst + n ≤ x → m₁ x = m x) → ∀ i < n,
      load m₁ (src + BitVec.ofNat 64 i) = .ok (bytes i)) : ∀ i < n, m' (dst + i) = bytes i := by
  induction n generalizing m dst src bytes with
  | zero => exact fun i below => absurd below (Nat.not_lt_zero i)
  | succ n ih =>
    obtain ⟨b, loaded, rest⟩ := bind_ok h
    have first := source m (fun _ _ => rfl) 0 (by omega)
    rw [BitVec.add_zero, loaded] at first
    have later : ∀ i < n, m' (dst + 1 + i) = bytes (i + 1) := ih rest fun m₁ same i below => by
      have next := source m₁ (fun x outside => ?_) (i + 1) (by omega)
      · rwa [BitVec.ofNat_add, BitVec.add_comm (BitVec.ofNat 64 i), ← BitVec.add_assoc] at next
      · rw [same x (by omega), Memory.write8_apply_ne (by omega)]
    intro i below
    cases i with
    | zero =>
      rw [Nat.add_zero, copyBytes_frame rest (by omega), Memory.write8, Function.update_self]
      exact Except.ok.inj first
    | succ i =>
      rw [show dst + (i + 1) = dst + 1 + i by omega]
      exact later i (by omega)

/-- A blank page holds the segment's bytes after the copy. -/
theorem copyPage_content {n : Nat} {file : Word → Byte} (h : copyPage load seg va (n * pageSize) m = .ok m')
    (room : seg.filesz.toNat = 0 ∨ seg.vaddr.toNat + seg.filesz.toNat < 2 ^ 64 ∧ va.toNat + 4096 < 2 ^ 64)
    (blank : ∀ x, x / pageSize = n → m x = 0)
    (source : ∀ m₁ : Memory, (∀ x, x / pageSize ≠ n → m₁ x = m x) → ∀ i < (copySource seg va).2,
      load m₁ ((copySource seg va).1 + BitVec.ofNat 64 i) = .ok (file ((copySource seg va).1 + BitVec.ofNat 64 i))) :
    ∀ i < pageSize, m' (n * pageSize + i) = seg.byteAt file (va.toNat + i) := by
  intro i below
  have inside : (n * pageSize + i) / pageSize = n := by
    simp only [pageSize] at *
    omega
  rcases room with nothing | ⟨room, top⟩
  · obtain ⟨dst, copy, -, -⟩ := copyPage_eq load seg va (n * pageSize) m
    have none : (copySource seg va).2 = 0 := by
      unfold copySource
      dsimp only
      rw [if_neg]
      split <;> split <;> bv_omega
    rw [copy, none] at h
    cases h
    rw [blank _ inside, Elf.LoadSegment.byteAt, if_neg (by omega)]
  · obtain ⟨range, copy⟩ := copySource_eq room top
    rw [copy] at h
    have len : (copySource seg va).2 =
        min (seg.vaddr.toNat + seg.filesz.toNat) (va.toNat + 4096) - max seg.vaddr.toNat va.toNat := by rw [range]
    have src : (copySource seg va).1 =
        seg.fileOffset + BitVec.ofNat 64 (max seg.vaddr.toNat va.toNat - seg.vaddr.toNat) := by rw [range]
    have copied := copyBytes_content h fun m₁ same j short => source m₁ (fun x other => same x ?_) j short
    · by_cases held : seg.vaddr.toNat ≤ va.toNat + i ∧ va.toNat + i < seg.vaddr.toNat + seg.filesz.toNat
      · have here := copied (va.toNat + i - max seg.vaddr.toNat va.toNat) (by simp only [pageSize] at *; omega)
        have place : max seg.vaddr.toNat va.toNat - va.toNat + (va.toNat + i - max seg.vaddr.toNat va.toNat) = i := by omega
        have off : max seg.vaddr.toNat va.toNat - seg.vaddr.toNat + (va.toNat + i - max seg.vaddr.toNat va.toNat) =
            va.toNat + i - seg.vaddr.toNat := by omega
        rw [src, BitVec.add_assoc, ← BitVec.ofNat_add, Nat.add_assoc, place, off] at here
        rw [Elf.LoadSegment.byteAt, if_pos held]
        exact here
      · rw [Elf.LoadSegment.byteAt, if_neg held, copyBytes_frame h (by omega), blank _ inside]
    · have apart := page_apart other
      rw [len]
      generalize n * pageSize = page at *
      simp only [pageSize] at *
      omega

/-! ### What the new space shows -/

section Shows
variable [Platform] {v v₀ v₁ v₂ : Vm} {root p : Nat} {file : Word → Byte} {segments : List Elf.LoadSegment}

/-- A page that `place_page` maps shows what it was filled with; what other pages show stays. -/
theorem place_page_shows {va addr : Nat} {flags : PteFlags} {m : Memory} (builds : Builds v v₀ root)
    (permission : IsPermission flags) (user : flags.contains .user = true) (read : flags.contains .read = true)
    (allocated : allocZeroedPage v₀ = .ok (addr, v₁)) (fill : ∀ x, x / pageSize ≠ addr / pageSize → m x = v₁.mem x)
    (h : mapPage { v₁ with mem := m } (root * pageSize) va addr flags = .ok v₂) :
    (∀ a, vpn a = vpn va → shown v₂ root a = some (m (addr + a % pageSize))) ∧
      ∀ a, vpn a ≠ vpn va → shown v₂ root a = shown v₀ root a := by
  obtain ⟨built, -⟩ := place_page builds permission user allocated fill h
  obtain ⟨n, rfl, grants, zeroed⟩ := allocZeroedPage_ok builds.managed allocated
  rw [Nat.mul_div_cancel n (by decide)] at fill
  have takes : Takes v₀ { v₁ with mem := m } := by
    refine .of_grants grants fun x other => ?_
    rw [show ({ v₁ with mem := m } : Vm).mem x = v₁.mem x from fill x other, zeroed,
      Memory.fill_apply_outside (page_apart other)]
  obtain ⟨builds₁, tables, leaves⟩ := builds.take takes
  have bound : n < 2 ^ 52 := by
    have := used_range builds₁.managed ((grants.used n).mpr (Or.inl rfl))
    omega
  obtain ⟨-, grown, leaf⟩ := mapPage_ok builds₁.managed builds₁.space (permission.new_isLeaf bound) h
  constructor
  · intro a here
    have reached : leafAt v₂.mem root a = some (.new (n * pageSize) flags) := by rw [leaf, if_pos here]
    have flagged := Pte.new_flags bound permission.small
    have page := Pte.new_page bound permission.small
    have mapped : (Pte.new (n * pageSize) flags).user = true := by rw [Pte.user, flagged, user]
    have plain := (built.user a _ reached mapped).2.2
    rw [page] at plain
    have inside : (n * pageSize + a % pageSize) / pageSize = n := by
      simp only [pageSize]
      omega
    rw [shown, reached]
    dsimp only
    rw [mapped, flagged, read, page, grown.frame _ (inside.symm ▸ plain)]
    rfl
  · intro a other
    have kept : leafAt v₂.mem root a = leafAt v₀.mem root a := by rw [leaf, if_neg other, leaves]
    rw [shown, shown, kept]
    cases reached : leafAt v₀.mem root a with
    | none => rfl
    | some pte =>
      dsimp only
      by_cases mapped : pte.user = true
      · have inside : (pte.page * pageSize + a % pageSize) / pageSize = pte.page := by
          simp only [pageSize]
          omega
        have plain := (built.user a pte (kept.trans reached) mapped).2.2
        have held := (builds.user a pte reached mapped).2.1
        rw [grown.frame _ (inside.symm ▸ plain)]
        have same : m (pte.page * pageSize + a % pageSize) = v₀.mem (pte.page * pageSize + a % pageSize) := by
          by_contra differ
          exact (takes.frame _ differ).1 (inside.symm ▸ held)
        dsimp only
        rw [same]
      · rw [Bool.not_eq_true] at mapped
        rw [mapped]
        rfl

/-- Whatever free pages are filled with, `load` gives the bytes of `file` to the loader. -/
def ReadsFile (load : Memory → Word → Result Byte) (v : Vm) (file : Word → Byte) (segments : List Elf.LoadSegment) : Prop :=
  ∀ m, FillsFree v m → ∀ off, Copied segments off → load m off = .ok (file off)

theorem loadPage_shows {seg : Elf.LoadSegment} (builds : Builds v v₀ root) (fits : seg.Fits)
    (below : p < Elf.pagesNeeded seg.memsz seg.vaddr)
    (reads : ∀ m, FillsFree v m → ∀ i < (copySource seg (segmentVa seg p)).2,
      load m ((copySource seg (segmentVa seg p)).1 + BitVec.ofNat 64 i) =
        .ok (file ((copySource seg (segmentVa seg p)).1 + BitVec.ofNat 64 i)))
    (h : loadPage load (root * pageSize) seg v₀ p = .ok v₁) :
    (∀ a, a < 2 ^ 38 → vpn a = vpn (segmentPage seg p) → shown v₁ root a = some (seg.byteAt file a)) ∧
      ∀ a, vpn a ≠ vpn (segmentPage seg p) → shown v₁ root a = shown v₀ root a := by
  unfold loadPage at h
  obtain ⟨⟨page, v₂⟩, allocated, h⟩ := bind_ok h
  obtain ⟨mem, copied, h⟩ := bind_ok h
  obtain ⟨n, rfl, grants, zeroed⟩ := allocZeroedPage_ok builds.managed allocated
  obtain ⟨permission, user⟩ := segment_permission seg.executable
  have read : (if seg.executable then userRx else userRw).contains .read = true := by
    cases seg.executable <;> decide
  obtain ⟨new, kept⟩ := place_page_shows builds permission user read allocated
    (fun x other => copyPage_frame copied (by rwa [Nat.mul_div_cancel n (by decide)] at other)) h
  refine ⟨fun a low here => ?_, kept⟩
  have blank : ∀ x, x / pageSize = n → v₂.mem x = 0 := by
    intro x inside
    rw [zeroed, Memory.fill_apply_inside]
    · simp only [pageSize] at *
      omega
  have source : ∀ m₁ : Memory, (∀ x, x / pageSize ≠ n → m₁ x = v₂.mem x) → FillsFree v m₁ := by
    intro m₁ same x differ
    by_cases own : x / pageSize = n
    · rw [own]
      exact ⟨used_inHeap grants.managed ((grants.used n).mpr (.inl rfl)), fun used => grants.fresh (builds.keeps n used)⟩
    · have takes := builds.takes.trans (.of_grants grants fun x other => by
        rw [zeroed, Memory.fill_apply_outside (page_apart other)])
      rw [same x own] at differ
      obtain ⟨unused, used⟩ := takes.frame x differ
      exact ⟨used_inHeap grants.managed used, unused⟩
  have filled : copyPage load seg (segmentVa seg p) (n * pageSize) v₂.mem = .ok mem := copied
  rw [new a here]
  rcases fits with nothing | ⟨order, low'⟩
  · have content := copyPage_content filled (.inl nothing) blank fun m₁ same => reads m₁ (source m₁ same)
    rw [content (a % pageSize) (Nat.mod_lt _ (by decide)), Elf.LoadSegment.byteAt, Elf.LoadSegment.byteAt,
      if_neg (by omega), if_neg (by omega)]
  · simp only [stackVa] at low'
    have start := Elf.segmentVa_toNat (by omega) below
    have count : Elf.pagesNeeded seg.memsz seg.vaddr = _ := Elf.pagesNeeded_eq (by omega)
    have content := copyPage_content filled (.inr ⟨by omega, by omega⟩) blank fun m₁ same => reads m₁ (source m₁ same)
    have page : segmentPage seg p = (segmentVa seg p).toNat := rfl
    have same : a / pageSize = (segmentVa seg p).toNat / pageSize := page ▸ (vpn_eq_iff (by omega) (by omega)).mp here
    have place : (segmentVa seg p).toNat + a % pageSize = a := by
      rw [start] at same ⊢
      simp only [pageSize] at same ⊢
      omega
    rw [content (a % pageSize) (Nat.mod_lt _ (by decide)), place]

theorem loadPages_shows {seg : Elf.LoadSegment} {count : Nat} (builds : Builds v v₀ root) (fits : seg.Fits)
    (all : p + count = Elf.pagesNeeded seg.memsz seg.vaddr) (reads : ReadsFile load v file [seg])
    (h : loadPages load (root * pageSize) seg count p v₀ = .ok v₁) {a : Nat} (low : a < 2 ^ 38) :
    (∃ j, p ≤ j ∧ j < p + count ∧ vpn a = vpn (segmentPage seg j)) ∧ shown v₁ root a = some (seg.byteAt file a) ∨
      (∀ j, p ≤ j → j < p + count → vpn a ≠ vpn (segmentPage seg j)) ∧ shown v₁ root a = shown v₀ root a := by
  induction count generalizing v₀ p with
  | zero =>
    cases h
    exact Or.inr ⟨fun j lower upper => by omega, rfl⟩
  | succ count ih =>
    obtain ⟨v₂, first, rest⟩ := bind_ok h
    have builds₂ := (loadPage_ok builds first).1
    obtain ⟨new, kept⟩ := loadPage_shows builds fits (by omega)
      (fun m fills i below => reads m fills _ ⟨seg, List.mem_singleton_self seg, p, by omega, i, below, rfl⟩) first
    rcases ih builds₂ (by omega) rest with ⟨⟨j, lower, upper, here⟩, shows⟩ | ⟨away, same⟩
    · exact Or.inl ⟨⟨j, by omega, by omega, here⟩, shows⟩
    · rw [same]
      by_cases here : vpn a = vpn (segmentPage seg p)
      · exact Or.inl ⟨⟨p, by omega, by omega, here⟩, new a low here⟩
      · refine Or.inr ⟨fun j lower upper => ?_, kept a here⟩
        rcases Nat.eq_or_lt_of_le lower with rfl | later
        · exact here
        · exact away j later (by omega)

/-- The segment that fills the page of `a` last. -/
def LastAt : List Elf.LoadSegment → Nat → Elf.LoadSegment → Prop
  | [], _, _ => False
  | seg :: rest, a, last => LastAt rest a last ∨ seg = last ∧ seg.Maps a ∧ ∀ other ∈ rest, ¬ other.Maps a

omit [Platform] in
theorem LastAt.maps {a : Nat} {last : Elf.LoadSegment}
    (lastAt : LastAt segments a last) : last ∈ segments ∧ last.Maps a := by
  induction segments with
  | nil => exact lastAt.elim
  | cons seg rest ih =>
    rcases lastAt with later | ⟨rfl, maps, -⟩
    · exact ⟨List.mem_cons_of_mem _ (ih later).1, (ih later).2⟩
    · exact ⟨List.mem_cons_self .., maps⟩

/-- Each address shows what the last segment with a page at it puts there. -/
theorem loadSegments_shows (builds : Builds v v₀ root) (fits : ∀ seg ∈ segments, seg.Fits)
    (reads : ReadsFile load v file segments) (h : loadSegments load (root * pageSize) segments v₀ = .ok v₁) {a : Nat}
    (low : a < 2 ^ 38) :
    (∃ last, LastAt segments a last ∧ shown v₁ root a = some (last.byteAt file a)) ∨
      (∀ seg ∈ segments, ¬ seg.Maps a) ∧ shown v₁ root a = shown v₀ root a := by
  induction segments generalizing v₀ with
  | nil =>
    cases h
    exact Or.inr ⟨fun _ member => absurd member List.not_mem_nil, rfl⟩
  | cons seg rest ih =>
    obtain ⟨v₂, first, later⟩ := bind_ok h
    have builds₂ := (loadPages_ok builds first).1
    have reads₁ : ReadsFile load v file [seg] := by
      rintro m fills off ⟨seg', member, copied⟩
      rw [List.mem_singleton.mp member] at copied
      exact reads m fills off ⟨seg, List.mem_cons_self .., copied⟩
    have reads₂ : ReadsFile load v file rest := by
      rintro m fills off ⟨seg', member, copied⟩
      exact reads m fills off ⟨seg', List.mem_cons_of_mem _ member, copied⟩
    rcases ih builds₂ (fun seg' member => fits seg' (List.mem_cons_of_mem _ member)) reads₂ later with
      ⟨last, lastAt, shows⟩ | ⟨away, same⟩
    · exact Or.inl ⟨last, Or.inl lastAt, shows⟩
    · rw [same]
      rcases loadPages_shows builds (fits seg (List.mem_cons_self ..)) (Nat.zero_add _) reads₁ first low with
        ⟨⟨j, -, upper, here⟩, shows⟩ | ⟨away', same'⟩
      · exact Or.inl ⟨seg, Or.inr ⟨rfl, ⟨j, by omega, here⟩, away⟩, shows⟩
      · refine Or.inr ⟨fun seg' member => ?_, same'⟩
        rcases List.mem_cons.mp member with rfl | inRest
        · rintro ⟨j, below, here⟩
          exact away' j (Nat.zero_le j) (by omega) here
        · exact away seg' inRest

/-- A loaded image: below the stack, an address with a segment's page shows what the last such segment puts there. -/
theorem loadElf_shows {info : Elf.ElfInfo} {addr : Nat} (managed : Managed v.alloc)
    (fits : ∀ seg ∈ info.segments, seg.Fits)
    (reads : ReadsFile load v file info.segments) (h : loadElf load info v = .ok (addr, v₂)) :
    ∃ n, addr = n * pageSize ∧ n < 2 ^ 44 ∧ ∀ a < stackVa, (∃ seg ∈ info.segments, seg.Maps a) →
      ∃ last, LastAt info.segments a last ∧ shown v₂ n a = some (last.byteAt file a) := by
  obtain ⟨-, -, -, -, -, -, whole, -⟩ := loadElf_ok managed h
  unfold loadElf at h
  obtain ⟨⟨userRoot, v₀⟩, allocated, h⟩ := bind_ok h
  obtain ⟨v₁, regions, h⟩ := bind_ok h
  obtain ⟨v₃, segments, h⟩ := bind_ok h
  obtain ⟨⟨userStack, v₄⟩, stack, h⟩ := bind_ok h
  obtain ⟨v₅, mapped, h⟩ := bind_ok h
  cases h
  obtain ⟨n, rfl, grants, zeroed⟩ := allocZeroedPage_ok managed allocated
  obtain ⟨builds₀, none⟩ := Builds.of_root (.refl managed) grants zeroed
  obtain ⟨space₁, grown₁, leaves₁⟩ := mapKernelRegions_ok builds₀.managed builds₀.space regions
  have builds₁ : Builds v v₁ n := builds₀.extend space₁ grown₁ fun va pte leaf user => by
    rcases leaves₁ va pte leaf with plain | before
    · rw [plain] at user
      cases user
    · exact Or.inl before
  have builds₂ := (loadSegments_ok builds₁ segments).1
  have flags : userRw.contains .user = true ∧ userRw.contains .read = true := by decide
  obtain ⟨-, kept⟩ := place_page_shows (m := v₄.mem) builds₂ isPermission_user.2.1 flags.1 flags.2 stack (fun _ _ => rfl) mapped
  refine ⟨n, rfl, builds_bound builds₂, fun a below maps => ?_⟩
  have apart : vpn a ≠ vpn stackVa := by
    simp only [stackVa, vpn, pageSize] at *
    omega
  rw [kept a apart]
  rcases loadSegments_shows builds₁ fits reads segments (a := a) (by simp only [stackVa] at below; omega) with
    found | ⟨away, -⟩
  · exact found
  · obtain ⟨seg, member, here⟩ := maps
    exact absurd here (away seg member)

end Shows
end Syscall

/-! ### Described images -/

/-- The segments are laid out as a linker does it. -/
structure Laid (segments : List Elf.LoadSegment) : Prop where
  inside : ∀ seg ∈ segments, ∀ a, seg.Covers a → 0x5000_0000 ≤ a ∧ a < stackVa
  order : ∀ seg ∈ segments, seg.filesz.toNat ≤ seg.memsz.toNat
  apart : segments.Pairwise fun early late => ∀ a, early.Covers a → ¬ late.Covers a

/-- Reading memory gives the image: the file part of each segment, and zeros after it. -/
def ImageIn (file : Word → Byte) (segments : List Elf.LoadSegment) (read : Nat → Option Byte) : Prop :=
  ∀ seg ∈ segments, ∀ i < seg.memsz.toNat, read (seg.vaddr.toNat + i) =
    some (if i < seg.filesz.toNat then file (seg.fileOffset + BitVec.ofNat 64 i) else 0)

/-- No page of a later segment is the page of a file byte of an earlier one, unless that byte is zero. -/
def Unhidden (file : Word → Byte) (segments : List Elf.LoadSegment) : Prop :=
  segments.Pairwise fun early late => ∀ i < early.filesz.toNat, late.Maps (early.vaddr.toNat + i) →
    file (early.fileOffset + BitVec.ofNat 64 i) = 0

section Images
variable {segments rest : List Elf.LoadSegment} {seg : Elf.LoadSegment} {file : Word → Byte} {a : Nat}

theorem Laid.fits (laid : Laid segments) (member : seg ∈ segments) : seg.Fits := by
  have order := laid.order seg member
  rcases Nat.eq_zero_or_pos seg.memsz.toNat with none | some
  · exact Or.inl (by omega)
  · have top := laid.inside seg member (seg.vaddr.toNat + seg.memsz.toNat - 1) ⟨by omega, by omega⟩
    exact Or.inr ⟨order, by omega⟩

theorem Laid.tail (laid : Laid (seg :: rest)) : Laid rest :=
  ⟨fun other member => laid.inside other (List.mem_cons_of_mem _ member),
    fun other member => laid.order other (List.mem_cons_of_mem _ member), laid.apart.of_cons⟩

theorem Laid.maps (laid : Laid segments) (member : seg ∈ segments) (covers : seg.Covers a) : seg.Maps a := by
  have top := laid.inside seg member (seg.vaddr.toNat + seg.memsz.toNat - 1)
    ⟨by have := covers.1; have := covers.2; omega, by have := covers.1; have := covers.2; omega⟩
  simp only [stackVa] at top
  have room : seg.vaddr.toNat + seg.memsz.toNat + 4095 < 2 ^ 64 := by omega
  obtain ⟨p, below, low, high⟩ := Elf.pages_cover room covers.1 covers.2
  rw [Elf.segmentVa_toNat room below] at low high
  refine ⟨p, below, ?_⟩
  rw [show segmentPage seg p = (segmentVa seg p).toNat from rfl, Elf.segmentVa_toNat room below]
  simp only [vpn, pageSize] at *
  omega

theorem Elf.LoadSegment.byteAt_outside (order : seg.filesz.toNat ≤ seg.memsz.toNat) (outside : ¬ seg.Covers a) :
    seg.byteAt file a = 0 := by
  rw [byteAt, if_neg]
  rintro ⟨low, high⟩
  exact outside ⟨low, by omega⟩

theorem Elf.LoadSegment.byteAt_offset (seg : LoadSegment) (file : Word → Byte) (i : Nat) :
    seg.byteAt file (seg.vaddr.toNat + i) = if i < seg.filesz.toNat then file (seg.fileOffset + BitVec.ofNat 64 i) else 0 := by
  rw [byteAt, Nat.add_sub_cancel_left]
  exact if_congr (by omega) rfl rfl

/-- Where each address shows what the last segment there puts, the image is found exactly if no file byte is hidden. -/
theorem imageIn_iff_unhidden {read : Nat → Option Byte} (laid : Laid segments)
    (shows : ∀ a < stackVa, (∃ seg ∈ segments, seg.Maps a) →
      ∃ last, LastAt segments a last ∧ read a = some (last.byteAt file a)) :
    ImageIn file segments read ↔ Unhidden file segments := by
  induction segments with
  | nil => exact iff_of_true (fun _ member => absurd member List.not_mem_nil) .nil
  | cons seg rest ih =>
    have below : ∀ i < seg.memsz.toNat, seg.vaddr.toNat + i < stackVa := fun i short =>
      (laid.inside seg (List.mem_cons_self ..) _ ⟨by omega, by omega⟩).2
    have order := laid.order seg (List.mem_cons_self ..)
    -- What a later segment shows inside this one's range is zero.
    have later : ∀ i < seg.memsz.toNat, (∃ other ∈ rest, other.Maps (seg.vaddr.toNat + i)) →
        (∃ last ∈ rest, last.Maps (seg.vaddr.toNat + i)) ∧ read (seg.vaddr.toNat + i) = some 0 := by
      rintro i short ⟨other, member, maps⟩
      obtain ⟨last, lastAt | ⟨-, -, away⟩, shown⟩ :=
        shows _ (below i short) ⟨other, List.mem_cons_of_mem _ member, maps⟩
      · obtain ⟨inRest, lastMaps⟩ := lastAt.maps
        have apart := List.rel_of_pairwise_cons laid.apart inRest (seg.vaddr.toNat + i) ⟨by omega, by omega⟩
        rw [Elf.LoadSegment.byteAt_outside (laid.order last (List.mem_cons_of_mem _ inRest)) apart] at shown
        exact ⟨⟨last, inRest, lastMaps⟩, shown⟩
      · exact absurd maps (away other member)
    have tail := ih laid.tail fun a low found => by
      obtain ⟨other, member, maps⟩ := found
      obtain ⟨last, lastAt | ⟨-, -, away⟩, shown⟩ := shows a low ⟨other, List.mem_cons_of_mem _ member, maps⟩
      · exact ⟨last, lastAt, shown⟩
      · exact absurd maps (away other member)
    rw [ImageIn, List.forall_mem_cons, Unhidden, List.pairwise_cons]
    refine and_congr ⟨fun image late member i short maps => ?_, fun unhidden i short => ?_⟩ tail
    · have here := image i (by omega)
      rw [(later i (by omega) ⟨late, member, maps⟩).2, if_pos short] at here
      exact (Option.some.inj here).symm
    · by_cases hidden : ∃ other ∈ rest, other.Maps (seg.vaddr.toNat + i)
      · obtain ⟨other, member, maps⟩ := hidden
        rw [(later i short ⟨other, member, maps⟩).2]
        split
        · rename_i inFile
          rw [unhidden other member i inFile maps]
        · rfl
      · have maps : seg.Maps (seg.vaddr.toNat + i) :=
          laid.maps (List.mem_cons_self ..) ⟨Nat.le_add_right .., Nat.add_lt_add_left short _⟩
        obtain ⟨last, lastAt | ⟨rfl, -, -⟩, shown⟩ := shows _ (below i short) ⟨seg, List.mem_cons_self .., maps⟩
        · exact absurd ⟨last, lastAt.maps⟩ hidden
        · rw [shown, Elf.LoadSegment.byteAt_offset]

end Images

/-! ### The law -/

section Law
variable [Platform] {k k' : Kernel} {pid a : Nat} {info : Elf.ElfInfo} {load : Memory → Word → Result Byte}
  {file : Word → Byte}

/-- The byte process `pid` reads at `a` in user mode. -/
def userRead (k : Kernel) (pid a : Nat) : Option Byte :=
  match translate k.vm.mem (k.procs pid).satp a with
  | some w => if w.flags.contains .user && w.flags.contains .read then some (k.vm.mem w.phys) else none
  | none => none

theorem userRead_eq (low : a < 2 ^ 38) : userRead k pid a = shown k.vm (rootOf (k.procs pid).satp) a := by
  rw [userRead, shown, translate_eq (Or.inl low)]
  cases leafAt k.vm.mem (rootOf (k.procs pid).satp) a with
  | none => rfl
  | some pte =>
    rw [Option.map_some, Pte.physAddr_eq]
    rfl

/-- A state in which the kernel loads images: one of a run, or the boot path before `HELLO_ELF`. -/
inductive LoaderState : Kernel → Prop where
  | run (r : MachineRun) {n : Nat} (bound : n ≤ r.len) : LoaderState (r.state n)
  | boot {env : Boot.Environment} {blank alloc : BitmapAllocator} {rootPt : Nat} {vm : Vm} {k : Kernel}
      (created : Boot.pageAllocInit = .ok blank) (tested : Boot.selfTest blank = .ok alloc)
      (paged : Kvm.init ⟨env.mem, alloc⟩ = .ok (rootPt, vm))
      (launched : Boot.launchTest (Boot.pagedKernel env rootPt vm) = .ok k) : LoaderState k

/-- Process `pid` is created from the image that `load` reads: by SYS_SPAWN, or by the boot path. -/
inductive CreatedFrom (k k' : Kernel) (pid : Nat) (info : Elf.ElfInfo) : (Memory → Word → Result Byte) → Prop where
  | spawn (spawns : Spawns k info pid) (done : sysSpawn k = .ok k') : CreatedFrom k k' pid info (callerLoad k)
  | boot {elfStart elfLen : Nat}
      (parsed : Elf.parse ⟨elfLen, fun off => .ok (k.vm.mem (elfStart + off.toNat))⟩ = .ok (.ok info))
      (done : Boot.createProcessFromElf k pid info elfStart = .ok k') :
      CreatedFrom k k' pid info fun m off => .ok (m (elfStart + off.toNat))

theorem LoaderState.managed (state : LoaderState k) : Managed k.vm.alloc := by
  cases state with
  | run r bound => exact r.managed bound
  | @boot env _ _ _ _ _ created tested paged launched =>
    have managed := Boot.selfTest_managed (Boot.pageAllocInit_managed created) tested
    have spaces : Spaces (fun _ => true) k.vm k.roots :=
      Boot.launchTest_spaces (Boot.init_spaces env managed paged) launched
    exact spaces.managed

theorem CreatedFrom.loads (created : CreatedFrom k k' pid info load) :
    ∃ userRoot, loadElf load info k.vm = .ok (userRoot, k'.vm) ∧
      (k'.procs pid).satp = makeSatp userRoot (BitVec.ofNat 16 pid) := by
  cases created with
  | spawn spawns done =>
    rw [sysSpawn_eq spawns] at done
    obtain ⟨⟨userRoot, vm⟩, loaded, done⟩ := bind_ok done
    cases done
    refine ⟨userRoot, loaded, ?_⟩
    change (Function.update k.procs pid _ pid).satp = _
    rw [Function.update_self]
    rfl
  | boot parsed done =>
    unfold Boot.createProcessFromElf at done
    obtain ⟨⟨userRoot, vm⟩, loaded, done⟩ := bind_ok done
    cases done
    refine ⟨userRoot, loaded, ?_⟩
    change (Function.update k.procs pid _ pid).satp = _
    rw [Function.update_self]
    rfl

theorem CreatedFrom.imageIn (managed : Managed k.vm.alloc) (created : CreatedFrom k k' pid info load)
    (reads : ReadsFile load k.vm file info.segments) (laid : Laid info.segments) :
    ImageIn file info.segments (userRead k' pid) ↔ Unhidden file info.segments := by
  obtain ⟨userRoot, loaded, satp⟩ := created.loads
  obtain ⟨n, rfl, bound, shows⟩ := loadElf_shows managed (fun _ member => laid.fits member) reads loaded
  refine imageIn_iff_unhidden laid fun a low maps => ?_
  obtain ⟨last, lastAt, here⟩ := shows a low maps
  rw [userRead_eq (by simp only [stackVa] at low; omega), satp, rootOf_makeSatp bound]
  exact ⟨last, lastAt, here⟩

/-- A process finds its image in its memory exactly when no page of a later segment hides a file byte. -/
theorem imageLoaded_iff (state : LoaderState k) (created : CreatedFrom k k' pid info load)
    (reads : ReadsFile load k.vm file info.segments) (laid : Laid info.segments) :
    ImageIn file info.segments (userRead k' pid) ↔ Unhidden file info.segments :=
  created.imageIn state.managed reads laid

end Law

section Reference
open Reference Security Trap
attribute [local instance] Reference.platform

/-- An executable of 176 bytes with two segments in one page: its first byte at the start of the page, and a byte
of memory half-way. -/
def pairFile : Nat → Byte
  | 0 => 0x7F | 1 => 0x45 | 2 => 0x4C | 3 => 0x46
  | 4 => 2 | 5 => 1
  | 16 => 2 | 18 => 0xF3
  | 27 => 0x50
  | 32 => 64 | 54 => 56 | 56 => 2
  | 64 => 1 | 68 => 6
  | 83 => 0x50
  | 96 => 1 | 104 => 1
  | 120 => 1 | 124 => 6
  | 137 => 0x08 | 139 => 0x50
  | 160 => 1
  | _ => 0

def pairInfo : Elf.ElfInfo := ⟨0x5000_0000, [⟨0, 0x5000_0000, 1, 1, false⟩, ⟨0, 0x5000_0800, 0, 1, false⟩]⟩

/-- The executable alone. -/
def pairImage : Elf.Image :=
  ⟨176, fun off => if off.toNat < 176 then .ok (pairFile off.toNat) else .error .kernelException⟩

theorem parse_pair : Elf.parse pairImage = .ok (.ok pairInfo) := by decide +kernel

theorem pair_copied {off : Word} (copied : Copied pairInfo.segments off) : off = 0 := by
  obtain ⟨seg, member, p, below, i, inside, rfl⟩ := copied
  have first : seg = ⟨0, 0x5000_0000, 1, 1, false⟩ ∨ seg = ⟨0, 0x5000_0800, 0, 1, false⟩ := by
    simpa [pairInfo] using member
  rcases first with rfl | rfl
  · have one : p < 1 := below
    obtain rfl : p = 0 := by omega
    have byte : i < 1 := inside
    obtain rfl : i = 0 := by omega
    rfl
  · have one : p < 1 := below
    obtain rfl : p = 0 := by omega
    exact absurd inside (Nat.not_lt_zero i)

theorem pair_laid : Laid pairInfo.segments := by
  refine ⟨fun seg member a covers => ?_, fun seg member => ?_, ?_⟩
  · have cases : seg = ⟨0, 0x5000_0000, 1, 1, false⟩ ∨ seg = ⟨0, 0x5000_0800, 0, 1, false⟩ := by
      simpa [pairInfo] using member
    rcases cases with rfl | rfl
    all_goals
      simp [Elf.LoadSegment.Covers] at covers
      simp only [stackVa]
      omega
  · revert seg
    decide
  · refine .cons (fun late member a first second => ?_) (.cons (fun _ member => absurd member List.not_mem_nil) .nil)
    rw [List.mem_singleton.mp member] at second
    simp [Elf.LoadSegment.Covers] at first second
    omega

/-- PID 1 has the executable in its stack page and is about to spawn it. -/
noncomputable def pairKernel : Kernel := running (placedVm pairFile) (calling sysSpawnNo (pageArg setup.stack) 176)

noncomputable def pairRun : MachineRun :=
  Run.ofTrace setup.kernel starts.booted [(.user, pairKernel)] ⟨placed_step pairFile (calling_mode ..), trivial⟩

theorem pair_hasFile : HasFile pairFile pairKernel.vm := placed_hasFile pairFile (Boot.booted_spaces starts.booted)

theorem pair_spawns : Spawns pairKernel pairInfo 3 := by
  refine ⟨(by decide : isValidElfSize (176 : Word).toNat = true), ?_, rfl⟩
  have len : pairKernel.frame.a1.toNat = pairImage.len := by
    have a1 : pairKernel.frame.a1 = 176 := rfl
    rw [a1]
    decide
  have ptr : pairKernel.frame.a0 = pageArg setup.stack := rfl
  have satp : pairKernel.satp = setup.satp₁ := rfl
  rw [len, ptr, satp]
  have loads : ∀ off, Follows (pairImage.load off) (loadByte setup.satp₁ pairKernel.vm.mem (pageArg setup.stack + off)) := by
    intro off b found
    rw [pairImage] at found
    dsimp only at found
    split at found
    · rw [pair_hasFile.load (by simp only [pageSize]; omega), found]
    · cases found
  have follows : Follows (Elf.parse pairImage)
      (Elf.parse ⟨pairImage.len, fun off => loadByte setup.satp₁ pairKernel.vm.mem (pageArg setup.stack + off)⟩) := by
    refine Elf.parse_follows (Eq.refl pairImage.len) fun off => ?_
    dsimp only
    exact loads off
  exact follows _ parse_pair

/-- The one byte that is copied, in any memory in which the used pages are as before. -/
theorem pair_load {m : Memory} {off : Word}
    (same : ∀ x, Used pairKernel.vm.alloc (x / pageSize) → m x = pairKernel.vm.mem x)
    (copied : Copied pairInfo.segments off) : callerLoad pairKernel m off = .ok (pairFile off.toNat) := by
  have hasFile : HasFile pairFile { pairKernel.vm with mem := m } :=
    pair_hasFile.keeps pair_hasFile.managed (fun _ used => used) same
  rw [pair_copied copied]
  exact hasFile.load (by decide)

theorem pair_reads : ReadsFile (callerLoad pairKernel) pairKernel.vm (fun off => pairFile off.toNat) pairInfo.segments := by
  refine fun m fills off copied => pair_load (fun x used => ?_) copied
  by_contra differ
  exact (fills x differ).2 used

theorem pair_passes : ∃ k', sysSpawn pairKernel = .ok k' := by
  have pages : 185 ≤ pairKernel.vm.alloc.freePages := starts.pages
  have demand : demand pairInfo.segments ≤ 46 := demand_le pairInfo.segments
  rcases loadElf_spends (callerLoad pairKernel) pairInfo pair_hasFile.managed
    (fun off copied m same => ⟨_, pair_load same copied⟩) with ⟨userRoot, v', loaded, -⟩ | ⟨-, short⟩
  · rw [sysSpawn_eq pair_spawns]
    exact ⟨_, congrArg (· >>= _) loaded⟩
  · omega

/-- The first byte of the executable is not in the child's memory: the page of the second segment took its place. -/
theorem imageLoaded_fails : ∃ (r : MachineRun) (n : Nat) (k' : Kernel) (pid : Nat) (info : Elf.ElfInfo) (file : Word → Byte),
    n ≤ r.len ∧ (r.state n).inUser ∧ Spawns (r.state n) info pid ∧ sysSpawn (r.state n) = .ok k' ∧
      ReadsFile (callerLoad (r.state n)) (r.state n).vm file info.segments ∧ Laid info.segments ∧
        ¬ ImageIn file info.segments (userRead k' pid) := by
  obtain ⟨k', done⟩ := pair_passes
  refine ⟨pairRun, 1, k', 3, pairInfo, _, le_rfl, calling_mode .., pair_spawns, done, pair_reads, pair_laid, fun image => ?_⟩
  have unhidden := ((CreatedFrom.spawn pair_spawns done).imageIn pair_hasFile.managed pair_reads pair_laid).mp image
  have byte := List.rel_of_pairwise_cons unhidden (List.mem_singleton_self _) 0 (by decide) ⟨0, by decide, by decide⟩
  exact absurd byte (by decide)

theorem imageLoaded_iff_pair : ∃ k', sysSpawn pairKernel = .ok k' ∧
    (ImageIn (fun off => pairFile off.toNat) pairInfo.segments (userRead k' 3) ↔
      Unhidden (fun off => pairFile off.toNat) pairInfo.segments) := by
  obtain ⟨k', done⟩ := pair_passes
  exact ⟨k', done, imageLoaded_iff (.run pairRun (n := 1) le_rfl) (.spawn pair_spawns done) pair_reads pair_laid⟩

end Reference
end GooseOs
