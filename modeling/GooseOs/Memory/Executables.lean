import GooseOs.Lib.Records
import GooseOs.Memory.Contents

/-!
ELF executables from the side of the linker: the ELF header, any program headers behind it, and the contents of the
file. The parser reads back what was written, or refuses it for its segments alone.
-/

namespace GooseOs.Elf
open Security Syscall

theorem Slice.field_eq (s : Slice) {off n : Nat} : s.field off n = leValue ((s.bytes.drop off).take n) := by
  induction n generalizing off with
  | zero => rfl
  | succ n ih =>
    rw [Slice.field, ih]
    by_cases inside : off < s.bytes.length
    · rw [List.drop_eq_getElem_cons inside, List.take_succ_cons, leValue]
      simp [inside]
    · rw [List.drop_eq_nil_of_le (by omega), List.drop_eq_nil_of_le (by omega)]
      simp [leValue, Nat.le_of_not_lt inside]

/-- A program header of ELF64. -/
structure ProgramHeader where
  type : BitVec 32
  flags : BitVec 32
  offset : Word
  vaddr : Word
  paddr : Word
  filesz : Word
  memsz : Word
  align : Word

namespace ProgramHeader

def record (h : ProgramHeader) : List (Nat × Nat) :=
  [(4, h.type.toNat), (4, h.flags.toNat), (8, h.offset.toNat), (8, h.vaddr.toNat), (8, h.paddr.toNat),
    (8, h.filesz.toNat), (8, h.memsz.toNat), (8, h.align.toNat)]

theorem size_record (h : ProgramHeader) : recordSize h.record = 56 := by simp [record, recordSize]

/-- Where the fields start that the kernel reads. -/
theorem offsets (h : ProgramHeader) : recordSize (h.record.take 1) = 4 ∧ recordSize (h.record.take 2) = 8 ∧
    recordSize (h.record.take 3) = 16 ∧ recordSize (h.record.take 5) = 32 ∧ recordSize (h.record.take 6) = 40 := by
  simp [record, recordSize]

/-- The header is one of PT_LOAD. -/
def isLoad (h : ProgramHeader) : Bool := h.type.toNat == ptLoad

def segment (h : ProgramHeader) : LoadSegment where
  fileOffset := h.offset
  vaddr := h.vaddr
  filesz := h.filesz
  memsz := h.memsz
  executable := h.flags.toNat &&& pfX != 0

end ProgramHeader

/-- A RISC-V executable. `contents` is what follows the program headers, and the fields the kernel does not read are
arbitrary. -/
structure Executable where
  /-- `e_ident` from EI_VERSION on. -/
  ident : BitVec 80
  version : BitVec 32
  entry : Word
  shoff : Word
  flags : BitVec 32
  ehsize : BitVec 16
  shentsize : BitVec 16
  shnum : BitVec 16
  shstrndx : BitVec 16
  headers : List ProgramHeader
  contents : List Byte
  count : headers.length < 2 ^ 16
  short : 64 + 56 * headers.length + contents.length < 2 ^ 63

namespace Executable
variable (x : Executable)

def headerRecord : List (Nat × Nat) :=
  [(1, 0x7F), (1, 0x45), (1, 0x4C), (1, 0x46), (1, elfClass64), (1, elfData2Lsb), (10, x.ident.toNat), (2, etExec),
    (2, emRiscv), (4, x.version.toNat), (8, x.entry.toNat), (8, 64), (8, x.shoff.toNat), (4, x.flags.toNat),
    (2, x.ehsize.toNat), (2, 56), (2, x.headers.length), (2, x.shentsize.toNat), (2, x.shnum.toNat),
    (2, x.shstrndx.toNat)]

def record : List (Nat × Nat) := x.headerRecord ++ x.headers.flatMap ProgramHeader.record

def bytes : List Byte := recordBytes x.record ++ x.contents

theorem size_header : recordSize x.headerRecord = 64 := by simp [headerRecord, recordSize]

theorem size_headers {headers : List ProgramHeader} :
    recordSize (headers.flatMap ProgramHeader.record) = 56 * headers.length := by
  induction headers with
  | nil => rfl
  | cons h headers ih =>
    rw [List.flatMap_cons, recordSize_append, ih, ProgramHeader.size_record, List.length_cons]
    omega

theorem length_bytes : x.bytes.length = 64 + 56 * x.headers.length + x.contents.length := by
  rw [bytes, List.length_append, length_recordBytes, record, recordSize_append, size_headers,
    size_header]

/-- The file. -/
def file : Slice where
  bytes := x.bytes
  fits := x.length_bytes ▸ x.short

theorem file_bytes : x.file.bytes = x.bytes := rfl

theorem bytes_short : x.bytes.length < 2 ^ 63 := x.file.fits

/-- The segments to load, in the order of their headers. -/
def loads (headers : List ProgramHeader) : List LoadSegment :=
  (headers.filter ProgramHeader.isLoad).map ProgramHeader.segment

def info : ElfInfo := ⟨x.entry, loads x.headers⟩

/-- The kernel has room for the segments, and all of them end inside the file, by the sum the kernel forms. -/
structure Loadable : Prop where
  few : x.info.segments.length ≤ maxSegments
  inside : ∀ seg ∈ x.info.segments, (seg.fileOffset + seg.filesz).toNat ≤ x.bytes.length

/-! ### The fields of the file -/

section Fields
variable {x} {before after : List (Nat × Nat)} {width val off : Nat} {l r : List ProgramHeader}
  {h : ProgramHeader}

theorem field_of (split : x.record = before ++ (width, val) :: after) (small : val < 256 ^ width) :
    x.file.field (recordSize before) width = val := by
  rw [Slice.field_eq, file_bytes, bytes, split, record_field small]

/-- Field `k` of the ELF header. -/
theorem header_field (k : Nat) (there : x.headerRecord.drop k = (width, val) :: after)
    (size : recordSize (x.headerRecord.take k) = off) (small : val < 256 ^ width) : x.file.field off width = val := by
  have header : x.headerRecord = x.headerRecord.take k ++ (width, val) :: after := by
    rw [← there, List.take_append_drop]
  subst size
  have whole : x.record = x.headerRecord.take k ++
      (width, val) :: (after ++ x.headers.flatMap ProgramHeader.record) := by
    calc x.record = x.headerRecord.take k ++ (width, val) :: after ++ x.headers.flatMap ProgramHeader.record :=
          congrArg (· ++ _) header
      _ = _ := by rw [List.append_assoc, List.cons_append]
  exact field_of whole small

/-- Field `k` of the program header behind the headers `l`. -/
theorem program_field (k : Nat) (split : x.headers = l ++ h :: r) (there : h.record.drop k = (width, val) :: after)
    (size : recordSize (h.record.take k) = off) (small : val < 256 ^ width) :
    x.file.field (64 + 56 * l.length + off) width = val := by
  have program : h.record = h.record.take k ++ (width, val) :: after := by
    rw [← there, List.take_append_drop]
  have whole : x.record = (x.headerRecord ++ l.flatMap ProgramHeader.record ++ h.record.take k) ++
      (width, val) :: (after ++ r.flatMap ProgramHeader.record) := by
    calc x.record = x.headerRecord ++ (l.flatMap ProgramHeader.record ++
          ((h.record.take k ++ (width, val) :: after) ++ r.flatMap ProgramHeader.record)) := by
          rw [record, split, List.flatMap_append, List.flatMap_cons, ← program]
      _ = _ := by simp
  have place : recordSize (x.headerRecord ++ l.flatMap ProgramHeader.record ++ h.record.take k) =
      64 + 56 * l.length + off := by
    rw [recordSize_append, recordSize_append, size_header, size_headers, size]
  rw [← place]
  exact field_of whole small

theorem file_phoff : x.file.phoff = 64 := by
  have field : x.file.field 32 8 = 64 := header_field 11 rfl (by simp [headerRecord, recordSize]) (by decide)
  rw [Slice.phoff, field]
  rfl

theorem file_phentsize : x.file.phentsize = 56 := by
  have field : x.file.field 54 2 = 56 := header_field 15 rfl (by simp [headerRecord, recordSize]) (by decide)
  rw [Slice.phentsize, field]
  rfl

theorem file_phnum : x.file.phnum = x.headers.length := header_field 16 rfl (by simp [headerRecord, recordSize]) x.count

theorem file_recognised : x.file.Recognised where
  long := by
    have length := x.length_bytes
    rw [file_bytes]
    omega
  magic := rfl
  elf64 := header_field 4 rfl (by simp [headerRecord, recordSize]) (by decide)
  littleEndian := header_field 5 rfl (by simp [headerRecord, recordSize]) (by decide)
  executable := header_field 7 rfl (by simp [headerRecord, recordSize]) (by decide)
  riscV := header_field 8 rfl (by simp [headerRecord, recordSize]) (by decide)

theorem file_headerAt {i : Nat} (small : i < 2 ^ 16) : (x.file.headerAt i).toNat = 64 + 56 * i := by
  rw [Slice.headerAt, file_phoff, file_phentsize, BitVec.toNat_add, BitVec.toNat_mul, BitVec.toNat_ofNat]
  simp
  omega

theorem file_segment (split : x.headers = l ++ h :: r) : x.file.segment l.length = h.segment := by
  have count := x.count
  have place : (x.file.headerAt l.length).toNat = 64 + 56 * l.length := by
    refine file_headerAt ?_
    rw [split, List.length_append] at count
    omega
  obtain ⟨at₁, at₂, at₃, at₅, at₆⟩ := h.offsets
  have word : ∀ off (w : Word), x.file.field (64 + 56 * l.length + off) 8 = w.toNat →
      x.file.headerWord l.length off = w := by
    intro off w field
    rw [Slice.headerWord, place, field, BitVec.ofNat_toNat, BitVec.setWidth_eq]
  have flags : x.file.field (64 + 56 * l.length + 4) 4 = h.flags.toNat := program_field 1 split rfl at₁ h.flags.isLt
  have offset := word 8 h.offset (program_field 2 split rfl at₂ h.offset.isLt)
  have vaddr := word 16 h.vaddr (program_field 3 split rfl at₃ h.vaddr.isLt)
  have filesz := word 32 h.filesz (program_field 5 split rfl at₅ h.filesz.isLt)
  have memsz := word 40 h.memsz (program_field 6 split rfl at₆ h.memsz.isLt)
  rw [Slice.segment, place, flags, offset, vaddr, filesz, memsz]
  rfl

theorem file_isLoad (split : x.headers = l ++ h :: r) : x.file.IsLoad l.length ↔ h.isLoad = true := by
  have count := x.count
  have place : (x.file.headerAt l.length).toNat = 64 + 56 * l.length + 0 := by
    refine file_headerAt ?_
    rw [split, List.length_append] at count
    omega
  have type : x.file.field (64 + 56 * l.length + 0) 4 = h.type.toNat := program_field 0 split rfl rfl h.type.isLt
  rw [Slice.IsLoad, place, type, ProgramHeader.isLoad, beq_iff_eq]

theorem file_headerInside {i : Nat} (below : i < x.headers.length) :
    (x.file.headerAt i).toNat + 56 ≤ x.file.bytes.length := by
  have length := x.length_bytes
  have place := file_headerAt (x := x) (below.trans x.count)
  rw [file_bytes]
  omega

end Fields

/-! ### The parser on the file -/

section Parser
variable {x} {l r : List ProgramHeader} (outside : Word → Result Byte)

/-- With `found` taken, the kernel takes the segments of the headers `r` too. -/
def Takes (x : Executable) (found : List LoadSegment) (r : List ProgramHeader) : Prop :=
  found.length + (loads r).length ≤ maxSegments ∧
    ∀ seg ∈ loads r, (seg.fileOffset + seg.filesz).toNat ≤ x.bytes.length

theorem loadable_iff : x.Loadable ↔ x.Takes [] x.headers := by
  rw [Takes, List.length_nil, Nat.zero_add]
  exact ⟨fun ⟨few, inside⟩ => ⟨few, inside⟩, fun ⟨few, inside⟩ => ⟨few, inside⟩⟩

theorem loads_cons {h : ProgramHeader} : loads (h :: r) = if h.isLoad then h.segment :: loads r else loads r := by
  rw [loads, List.filter_cons]
  split <;> rfl

/-- The header loop on the headers that are left. -/
theorem headersOf_file (found : List LoadSegment) (split : x.headers = l ++ r) (few : found.length ≤ maxSegments) :
    (x.Takes found r → headersOf x.file outside r.length l.length found = .ok (.ok (found ++ loads r))) ∧
      (¬ x.Takes found r → ∃ e, headersOf x.file outside r.length l.length found = .ok (.error e)) := by
  induction r generalizing l found with
  | nil =>
    refine ⟨fun _ => ?_, fun refused => absurd ⟨few, fun seg member => absurd member List.not_mem_nil⟩ refused⟩
    rw [show loads [] = [] from rfl, List.append_nil]
    rfl
  | cons h r ih =>
    have below : l.length < x.headers.length := by
      rw [split, List.length_append, List.length_cons]
      omega
    have next : x.headers = (l ++ [h]) ++ r := by
      rw [split, List.append_assoc, List.singleton_append]
    have length : (l ++ [h]).length = l.length + 1 := List.length_append
    rw [List.length_cons, headersOf_inside (file_headerInside below), file_segment split, ← length]
    by_cases load : h.isLoad = true
    · have shown : x.file.field (x.file.headerAt l.length).toNat 4 = ptLoad := (file_isLoad split).mpr load
      rw [if_neg (not_not.mpr shown), Takes, loads_cons, if_pos load, List.length_cons, List.forall_mem_cons]
      by_cases full : found.length ≥ maxSegments
      · rw [if_pos full]
        exact ⟨fun takes => absurd takes.1 (by omega), fun _ => ⟨_, rfl⟩⟩
      rw [if_neg full, file_bytes]
      by_cases beyond : (h.segment.fileOffset + h.segment.filesz).toNat > x.bytes.length
      · rw [if_pos beyond]
        exact ⟨fun takes => absurd takes.2.1 (Nat.not_le.mpr beyond), fun _ => ⟨_, rfl⟩⟩
      rw [if_neg beyond]
      have length' : (found ++ [h.segment]).length = found.length + 1 := List.length_append
      obtain ⟨takes, refuses⟩ := ih (found ++ [h.segment]) next (by omega)
      rw [Takes, length'] at takes refuses
      constructor
      · rintro ⟨room, -, inside⟩
        rw [takes ⟨by omega, inside⟩, List.append_assoc, List.singleton_append]
      · intro refused
        exact refuses fun ⟨room, inside⟩ => refused ⟨by omega, Nat.le_of_not_lt beyond, inside⟩
    · have other : x.file.field (x.file.headerAt l.length).toNat 4 ≠ ptLoad := fun shown =>
        load ((file_isLoad split).mp shown)
      rw [if_pos other, Takes, loads_cons, if_neg load]
      exact ih found next few

theorem parse_file : (x.Loadable → parse (x.file.image outside) = .ok (.ok x.info)) ∧
    (¬ x.Loadable → ∃ e, parse (x.file.image outside) = .ok (.error e)) := by
  have entry : x.file.field 24 8 = x.entry.toNat := header_field 10 rfl (by simp [headerRecord, recordSize]) x.entry.isLt
  have start : x.headers = [] ++ x.headers := rfl
  obtain ⟨takes, refuses⟩ := headersOf_file outside [] start (Nat.zero_le maxSegments)
  rw [parse_recognised file_recognised, file_phnum, entry, BitVec.ofNat_toNat, BitVec.setWidth_eq]
  constructor
  · intro loadable
    rw [show (0 : Nat) = ([] : List ProgramHeader).length from rfl, takes (loadable_iff.mp loadable)]
    rfl
  · intro refused
    obtain ⟨e, stops⟩ := refuses fun taken => refused (loadable_iff.mpr taken)
    rw [show (0 : Nat) = ([] : List ProgramHeader).length from rfl, stops]
    exact ⟨e, rfl⟩

end Parser

/-! ### From the linker to memory -/

/-- The bytes of the file, by their offset. -/
def byte (x : Executable) (off : Word) : Byte := x.bytes.getD off.toNat 0

/-- Laid out by a linker: the file parts lie in the file, the segments below the stack, and no segment has a page
with an address of a later one. -/
structure Linked (x : Executable) : Prop where
  few : x.info.segments.length ≤ maxSegments
  file : ∀ seg ∈ x.info.segments, seg.fileOffset.toNat + seg.filesz.toNat ≤ x.bytes.length
  filled : ∀ seg ∈ x.info.segments, 0 < seg.memsz.toNat
  laid : Laid x.info.segments
  pages : x.info.segments.Pairwise fun early late => ∀ a, early.Covers a → ¬ late.Maps a

/-- `load` reads the file, whatever free pages are filled with. -/
def Holds (x : Executable) (load : Memory → Word → Result Byte) (v : Vm) [Platform] : Prop :=
  ∀ m, FillsFree v m → ∀ off : Word, off.toNat < x.bytes.length → load m off = .ok (x.byte off)

section Loading
variable {x}

theorem Linked.loadable (linked : x.Linked) : x.Loadable where
  few := linked.few
  inside seg member := by
    have file := linked.file seg member
    have short := x.bytes_short
    rwa [BitVec.toNat_add, Nat.mod_eq_of_lt (by omega)]

theorem Linked.sound (linked : x.Linked) {seg : LoadSegment} (member : seg ∈ x.info.segments) :
    seg.Sound x.bytes.length := by
  have file := linked.file seg member
  have filled := linked.filled seg member
  have short := x.bytes_short
  have top := (linked.laid.inside seg member (seg.vaddr.toNat + seg.memsz.toNat - 1) ⟨by omega, by omega⟩).2
  simp only [stackVa] at top
  have plain : seg.Plain := ⟨by omega, linked.laid.order seg member, by omega⟩
  exact plain.sound (linked.loadable.inside seg member)

theorem Linked.unhidden (linked : x.Linked) : Unhidden x.byte x.info.segments := by
  refine List.Pairwise.imp_of_mem (fun early _ apart i inFile maps => ?_) linked.pages
  have order := linked.laid.order _ early
  exact absurd maps (apart _ ⟨Nat.le_add_right .., by omega⟩)

variable [Platform] {load : Memory → Word → Result Byte} {v : Vm}

theorem Linked.reads (linked : x.Linked) (holds : x.Holds load v) : ReadsFile load v x.byte x.info.segments := by
  rintro m fills off ⟨seg, member, p, page, i, below, rfl⟩
  exact holds m fills _ ((linked.sound member).copies p page i below)

theorem Holds.image (holds : x.Holds load v) : ⟨x.bytes.length, load v.mem⟩ = x.file.image (load v.mem) := by
  refine congrArg (Image.mk _) (funext fun off => ?_)
  split
  · next inside =>
    rw [holds v.mem (fun a differ => absurd rfl differ) off inside]
    simp [byte, file_bytes, show off.toNat < x.bytes.length from inside]
  · rfl

end Loading

/-- What the linker wrote is what the kernel reads, and what a spawned process finds in its memory. -/
structure ReadBack (x : Executable) : Prop where
  accepted : x.Loadable → ∀ outside, parse (x.file.image outside) = .ok (.ok x.info)
  refused : ¬ x.Loadable → ∀ outside, ∃ e, parse (x.file.image outside) = .ok (.error e)
  vouched : x.Loadable → (Vouched x.file x.info ↔ ∀ seg ∈ x.info.segments, seg.Plain)
  /-- SYS_SPAWN of a linked executable, with a free slot: the child starts at the entry, with the image in memory. -/
  spawned : x.Linked → ∀ [Platform] (k k' : Kernel) (pid : Nat), LoaderState k → k.frame.a1.toNat = x.bytes.length →
    isValidElfSize x.bytes.length = true → x.Holds (callerLoad k) k.vm → firstFree k.procs = some pid →
    sysSpawn k = .ok k' → (k'.procs pid).state = .ready ∧ (k'.procs pid).context.sepc = x.entry ∧
      ImageIn x.byte x.info.segments (userRead k' pid)

section Results
variable {x} [Platform] {k k' : Kernel} {pid : Nat}

omit [Platform] in
theorem Loadable.vouched_iff (loadable : x.Loadable) :
    Vouched x.file x.info ↔ ∀ seg ∈ x.info.segments, seg.Plain := by
  refine ⟨fun vouched seg member => (vouched.segments seg member).plain x.file.fits, fun plain => ?_⟩
  have sound : ∀ seg ∈ x.info.segments, seg.Sound x.file.bytes.length := fun seg member =>
    (plain seg member).sound (loadable.inside seg member)
  exact ⟨(parse_file _).1 loadable, sound, fun platform load v => loadElf_only sound load v⟩

theorem Linked.spawns (linked : x.Linked) (length : k.frame.a1.toNat = x.bytes.length)
    (size : isValidElfSize x.bytes.length = true) (holds : x.Holds (callerLoad k) k.vm)
    (slot : firstFree k.procs = some pid) : Spawns k x.info pid := by
  have parsed : parse ⟨k.frame.a1.toNat, callerLoad k k.vm.mem⟩ = .ok (.ok x.info) := by
    rw [length, holds.image]
    exact (parse_file _).1 linked.loadable
  exact ⟨length ▸ size, parsed, slot⟩

theorem Linked.spawned (linked : x.Linked) (state : LoaderState k)
    (length : k.frame.a1.toNat = x.bytes.length) (size : isValidElfSize x.bytes.length = true)
    (holds : x.Holds (callerLoad k) k.vm) (slot : firstFree k.procs = some pid) (done : sysSpawn k = .ok k') :
    (k'.procs pid).state = .ready ∧ (k'.procs pid).context.sepc = x.entry ∧
      ImageIn x.byte x.info.segments (userRead k' pid) := by
  have spawns := linked.spawns length size holds slot
  have image := ((CreatedFrom.spawn spawns done).imageIn state.managed (linked.reads holds) linked.laid).mpr linked.unhidden
  rw [sysSpawn_eq spawns] at done
  obtain ⟨built, -, made⟩ := bind_ok done
  have child : k'.procs pid = newProcess pid k.currentPid (makeSatp built.1 (BitVec.ofNat 16 pid)) x.entry
      (BitVec.ofNat 64 (stackVa + pageSize)) := by
    cases made
    exact Function.update_self ..
  rw [child]
  exact ⟨rfl, rfl, image⟩

end Results

/-- One segment, which holds its own program header. -/
def small : Executable where
  ident := 1
  version := 1
  entry := 0x60000000
  shoff := 0
  flags := 0
  ehsize := 64
  shentsize := 0
  shnum := 0
  shstrndx := 0
  headers := [{
    type := 1, flags := 5, offset := 64, vaddr := 0x60000000, paddr := 0x60000000, filesz := 56, memsz := 4096
    align := 4096 }]
  contents := []
  count := by decide
  short := by decide

theorem small_length : small.bytes.length = 120 := length_bytes _

theorem small_linked : small.Linked := by
  have only : small.info.segments = [⟨64, 0x60000000, 56, 4096, true⟩] := by decide +kernel
  constructor
  · rw [only]
    decide
  · rw [only, small_length]
    exact List.forall_mem_singleton.mpr (by decide)
  · rw [only]
    exact List.forall_mem_singleton.mpr (by decide)
  · rw [only]
    refine ⟨List.forall_mem_singleton.mpr ?_, List.forall_mem_singleton.mpr (by decide), List.pairwise_singleton ..⟩
    rintro a ⟨low, high⟩
    exact ⟨le_trans (by decide) low, lt_trans high (by decide)⟩
  · rw [only]
    exact List.pairwise_singleton ..

section Reference
open Reference Trap
attribute [local instance] Reference.platform

def smallFile (i : Nat) : Byte := small.bytes.getD i 0

/-- PID 1 has it in its stack page and is about to spawn it. -/
noncomputable def smallKernel : Kernel := running (placedVm smallFile) (calling sysSpawnNo (pageArg setup.stack) 120)

noncomputable def smallRun : MachineRun :=
  Run.ofTrace setup.kernel starts.booted [(.user, smallKernel)] ⟨placed_step smallFile (calling_mode ..), trivial⟩

theorem small_hasFile : HasFile smallFile smallKernel.vm := placed_hasFile smallFile (Boot.booted_spaces starts.booted)

theorem small_load {m : Memory} {off : Word} (same : ∀ x, Used smallKernel.vm.alloc (x / pageSize) → m x = smallKernel.vm.mem x)
    (inside : off.toNat < small.bytes.length) : callerLoad smallKernel m off = .ok (small.byte off) := by
  rw [small_length] at inside
  have kept : HasFile smallFile { smallKernel.vm with mem := m } :=
    small_hasFile.keeps small_hasFile.managed (fun _ used => used) same
  exact kept.load (by simp only [pageSize]; omega)

theorem small_holds : small.Holds (callerLoad smallKernel) smallKernel.vm := by
  refine fun m fills off inside => small_load (fun x used => ?_) inside
  by_contra differ
  exact (fills x differ).2 used

theorem small_passes : ∃ k', sysSpawn smallKernel = .ok k' := by
  have spawns : Spawns smallKernel small.info 3 := small_linked.spawns small_length.symm (by rw [small_length]; decide) small_holds rfl
  have pages : 185 ≤ smallKernel.vm.alloc.freePages := starts.pages
  have demand : demand small.info.segments ≤ 43 := demand_le small.info.segments
  have inside : ∀ off, Copied small.info.segments off → off.toNat < small.bytes.length := by
    rintro off ⟨seg, member, p, page, i, below, rfl⟩
    exact (small_linked.sound member).copies p page i below
  rcases loadElf_spends (callerLoad smallKernel) small.info small_hasFile.managed
    (fun off copied m same => ⟨_, small_load same (inside off copied)⟩) with ⟨userRoot, v', loaded, -⟩ | ⟨-, short⟩
  · rw [sysSpawn_eq spawns]
    exact ⟨_, congrArg (· >>= _) loaded⟩
  · omega

end Reference

end Executable

end GooseOs.Elf
