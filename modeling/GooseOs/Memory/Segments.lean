import GooseOs.Memory.Images

/-!
Which images the parser vouches for. Three sums are formed from header fields and compared after they may
have wrapped; where none of them wraps and no segment holds more file than memory, an accepted image is
read inside its bytes only, by the parser and by the loader.
-/

namespace GooseOs.Elf
open Syscall

/-- A byte slice: the length of a Rust slice is at most `isize::MAX`. -/
structure Slice where
  bytes : List Byte
  fits : bytes.length < 2 ^ 63

namespace Slice

/-- The slice in its surroundings: a load past its end gives whatever lies there. -/
def image (s : Slice) (outside : Word → Result Byte) : Image :=
  { len := s.bytes.length
    load := fun off => if inside : off.toNat < s.bytes.length then .ok s.bytes[off.toNat] else outside off }

/-- The slice on its own: every load past its end faults. -/
def guarded (s : Slice) : Image := s.image fun _ => .error .kernelException

/-- The little-endian field of `n` bytes at `off`. -/
def field (s : Slice) (off : Nat) : (n : Nat) → Nat
  | 0 => 0
  | n + 1 => (s.bytes.getD off 0).toNat + 256 * s.field (off + 1) n

def phoff (s : Slice) : Word := BitVec.ofNat 64 (s.field 32 8)

def phentsize (s : Slice) : Word := BitVec.ofNat 64 (s.field 54 2)

def phnum (s : Slice) : Nat := s.field 56 2

/-- Where the parser looks for program header `i`. -/
def headerAt (s : Slice) (i : Nat) : Word := s.phoff + BitVec.ofNat 64 i * s.phentsize

/-- The 64-bit field at `off` in program header `i`. -/
def headerWord (s : Slice) (i off : Nat) : Word := BitVec.ofNat 64 (s.field ((s.headerAt i).toNat + off) 8)

/-- Program header `i` describes a segment to load. -/
def IsLoad (s : Slice) (i : Nat) : Prop := s.field (s.headerAt i).toNat 4 = ptLoad

/-- The segment program header `i` describes. -/
def segment (s : Slice) (i : Nat) : LoadSegment :=
  { fileOffset := s.headerWord i 8
    vaddr := s.headerWord i 16
    filesz := s.headerWord i 32
    memsz := s.headerWord i 40
    executable := s.field ((s.headerAt i).toNat + 4) 4 &&& pfX != 0 }

end Slice

namespace LoadSegment

/-- The sums of the segment's fields stay below 2^64, and its file part is no longer than its memory. -/
structure Plain (seg : LoadSegment) : Prop where
  file : seg.fileOffset.toNat + seg.filesz.toNat < 2 ^ 64
  order : seg.filesz.toNat ≤ seg.memsz.toNat
  memory : seg.vaddr.toNat + seg.memsz.toNat + 4095 < 2 ^ 64

/-- What `LoadSegment` promises of a segment of `len` bytes of file. -/
structure Sound (len : Nat) (seg : LoadSegment) : Prop where
  file : seg.fileOffset.toNat + seg.filesz.toNat ≤ len
  order : seg.filesz.toNat ≤ seg.memsz.toNat
  memory : seg.vaddr.toNat + seg.memsz.toNat + 4095 < 2 ^ 64
  covers : ∀ a, seg.vaddr.toNat ≤ a → a < seg.vaddr.toNat + seg.memsz.toNat →
    ∃ p < pagesNeeded seg.memsz seg.vaddr, (segmentVa seg p).toNat ≤ a ∧ a < (segmentVa seg p).toNat + pageSize
  copies : ∀ p < pagesNeeded seg.memsz seg.vaddr, ∀ i < (copySource seg (segmentVa seg p)).2,
    ((copySource seg (segmentVa seg p)).1 + BitVec.ofNat 64 i).toNat < len

end LoadSegment

/-- Header `i` lies where its bound was tested, and a segment it describes is plain. -/
def HeaderPlain (s : Slice) (i : Nat) : Prop :=
  (s.headerAt i).toNat + 56 < 2 ^ 64 ∧ (s.IsLoad i → (s.segment i).Plain)

/-! ### Pages of a segment -/

theorem pageFloor_eq (x : Word) : pageFloor x = x >>> 12 <<< 12 := by
  apply BitVec.eq_of_getLsbD_eq
  intro i bound
  have mask : (0xFFF : Word).getLsbD i = decide (i < 12) := by
    rw [show (0xFFF : Word) = BitVec.ofNat 64 (2 ^ 12 - 1) from rfl, BitVec.getLsbD_ofNat, Nat.testBit_two_pow_sub_one]
    simp [bound]
  simp only [pageFloor, BitVec.getLsbD_and, BitVec.getLsbD_not, BitVec.getLsbD_shiftLeft, BitVec.getLsbD_ushiftRight,
    mask]
  by_cases low : i < 12
  · simp [low]
  · simp [low, bound, show 12 + (i - 12) = i by omega]

theorem pageFloor_toNat (x : Word) : (pageFloor x).toNat = x.toNat / 4096 * 4096 := by
  have bound := x.isLt
  rw [pageFloor_eq, BitVec.toNat_shiftLeft, BitVec.toNat_ushiftRight, Nat.shiftLeft_eq, Nat.shiftRight_eq_div_pow]
  omega

section Pages
variable {seg : LoadSegment} (room : seg.vaddr.toNat + seg.memsz.toNat + 4095 < 2 ^ 64)
include room

/-- Without wrapping, `pages_needed` counts the pages from the one of `vaddr` to the one of the last byte. -/
theorem pagesNeeded_eq :
    pagesNeeded seg.memsz seg.vaddr = (seg.vaddr.toNat + seg.memsz.toNat + 4095) / 4096 - seg.vaddr.toNat / 4096 := by
  have stop : (seg.vaddr + seg.memsz + 4096 - 1).toNat = seg.vaddr.toNat + seg.memsz.toNat + 4095 := by bv_omega
  have last := pageFloor_toNat (seg.vaddr + seg.memsz + 4096 - 1)
  have first := pageFloor_toNat seg.vaddr
  rw [stop] at last
  have order : pageFloor seg.vaddr ≤ pageFloor (seg.vaddr + seg.memsz + 4096 - 1) := by
    rw [BitVec.le_def, last, first]
    omega
  rw [pagesNeeded, BitVec.toNat_sub_of_le order, last, first, pageSize]
  omega

theorem segmentVa_toNat {p : Nat} (below : p < pagesNeeded seg.memsz seg.vaddr) :
    (segmentVa seg p).toNat = (seg.vaddr.toNat / 4096 + p) * 4096 := by
  rw [pagesNeeded_eq room] at below
  have scaled : (BitVec.ofNat 64 p * 4096).toNat = p * 4096 := by
    rw [BitVec.toNat_mul, BitVec.toNat_ofNat]
    simp
    omega
  rw [segmentVa, BitVec.toNat_add, pageFloor_toNat, scaled]
  omega

theorem pages_cover {a : Nat} (above : seg.vaddr.toNat ≤ a) (below : a < seg.vaddr.toNat + seg.memsz.toNat) :
    ∃ p < pagesNeeded seg.memsz seg.vaddr,
      (segmentVa seg p).toNat ≤ a ∧ a < (segmentVa seg p).toNat + pageSize := by
  have page : a / 4096 - seg.vaddr.toNat / 4096 < pagesNeeded seg.memsz seg.vaddr := by
    rw [pagesNeeded_eq room]
    omega
  refine ⟨_, page, ?_⟩
  rw [segmentVa_toNat room page, pageSize]
  omega

end Pages

/-- The copy of a page reads the file part of its segment. -/
theorem copySource_inside {seg : LoadSegment} {va : Word} {i : Nat}
    (file : seg.fileOffset.toNat + seg.filesz.toNat < 2 ^ 64) (memory : seg.vaddr.toNat + seg.filesz.toNat < 2 ^ 64)
    (below : i < (copySource seg va).2) :
    ((copySource seg va).1 + BitVec.ofNat 64 i).toNat < seg.fileOffset.toNat + seg.filesz.toNat := by
  have upper : (if seg.vaddr + seg.filesz < va + 4096 then seg.vaddr + seg.filesz else va + 4096) ≤
      seg.vaddr + seg.filesz := by
    split
    · exact BitVec.le_refl _
    · bv_omega
  have first : seg.vaddr ≤ if seg.vaddr > va then seg.vaddr else va := by
    split
    · exact BitVec.le_refl _
    · bv_omega
  unfold copySource at below ⊢
  dsimp only at below ⊢
  generalize (if seg.vaddr > va then seg.vaddr else va) = start at *
  generalize (if seg.vaddr + seg.filesz < va + 4096 then seg.vaddr + seg.filesz else va + 4096) = stop at *
  split at below
  · bv_omega
  · omega

theorem LoadSegment.Plain.sound {seg : LoadSegment} {len : Nat} (plain : seg.Plain)
    (inside : (seg.fileOffset + seg.filesz).toNat ≤ len) : seg.Sound len := by
  have file := plain.file
  have order := plain.order
  have memory := plain.memory
  have ends : seg.fileOffset.toNat + seg.filesz.toNat ≤ len := by
    rwa [BitVec.toNat_add, Nat.mod_eq_of_lt file] at inside
  refine ⟨ends, order, memory, fun a above below => pages_cover memory above below, fun p _ i below => ?_⟩
  have copied := copySource_inside file (by omega) below
  omega

theorem LoadSegment.Sound.plain {seg : LoadSegment} {len : Nat} (sound : seg.Sound len) (short : len < 2 ^ 63) :
    seg.Plain := by
  have file := sound.file
  exact ⟨by omega, sound.order, sound.memory⟩

/-! ### Reading the slice -/

section Reading
variable {s : Slice} {outside : Word → Result Byte}

theorem image_load {off : Word} (inside : off.toNat < s.bytes.length) :
    (s.image outside).load off = .ok (s.bytes.getD off.toNat 0) := by
  simp [Slice.image, inside]

theorem image_loadLe {off : Word} {n : Nat} (inside : off.toNat + n ≤ s.bytes.length) :
    (s.image outside).loadLe off n = .ok (s.field off.toNat n) := by
  induction n generalizing off with
  | zero => rfl
  | succ n ih =>
    have short := s.fits
    have next : (off + 1).toNat = off.toNat + 1 := by bv_omega
    rw [Image.loadLe, image_load (by omega), ok_bind, ih (by omega), ok_bind, next]
    rfl

theorem image_headerWord {i off : Nat} (inside : (s.headerAt i).toNat + 56 ≤ s.bytes.length) (small : off ≤ 48) :
    (s.image outside).loadLe (s.headerAt i + BitVec.ofNat 64 off) 8 = .ok (s.field ((s.headerAt i).toNat + off) 8) := by
  have short := s.fits
  have sum : (s.headerAt i + BitVec.ofNat 64 off).toNat = (s.headerAt i).toNat + off := by bv_omega
  rw [image_loadLe (by omega), sum]

/-- The header loop of `parse` on a slice. -/
abbrev headersOf (s : Slice) (outside : Word → Result Byte) (left i : Nat) (segments : List LoadSegment) :=
  parseHeaders (s.image outside) s.phoff s.phentsize left i segments

/-- One round of the header loop whose header lies inside the slice. -/
theorem headersOf_inside {left i : Nat} {segments : List LoadSegment}
    (inside : (s.headerAt i).toNat + 56 ≤ s.bytes.length) :
    headersOf s outside (left + 1) i segments =
      if s.field (s.headerAt i).toNat 4 ≠ ptLoad then headersOf s outside left (i + 1) segments
      else if segments.length ≥ maxSegments then .ok (.error .tooManySegments)
      else if ((s.segment i).fileOffset + (s.segment i).filesz).toNat > s.bytes.length then
        .ok (.error .segmentOutOfBounds)
      else headersOf s outside left (i + 1) (segments ++ [s.segment i]) := by
  have short := s.fits
  have bound : ¬ (s.headerAt i + 56).toNat > (s.image outside).len := by
    rw [Slice.image]
    bv_omega
  have flags : (s.headerAt i + 4).toNat = (s.headerAt i).toNat + 4 := by bv_omega
  rw [headersOf, parseHeaders]
  rw [Slice.headerAt] at bound
  rw [if_neg bound, show s.phoff + BitVec.ofNat 64 i * s.phentsize = s.headerAt i from rfl, image_loadLe (by omega),
    ok_bind]
  split
  · rfl
  split
  · rfl
  rw [show (8 : Word) = BitVec.ofNat 64 8 from rfl, show (32 : Word) = BitVec.ofNat 64 32 from rfl,
    image_headerWord inside (by omega), ok_bind, image_headerWord inside (by omega), ok_bind]
  refine ite_congr rfl (fun _ => rfl) fun _ => ?_
  rw [show (16 : Word) = BitVec.ofNat 64 16 from rfl, show (40 : Word) = BitVec.ofNat 64 40 from rfl,
    image_headerWord inside (by omega), ok_bind, image_headerWord inside (by omega), ok_bind, image_loadLe (by omega),
    ok_bind, flags]
  rfl

/-- What an accepted round of the header loop did, unless the end of its header wrapped. -/
theorem headersOf_round {left i : Nat} {segments out : List LoadSegment}
    (accepted : headersOf s outside (left + 1) i segments = .ok (.ok out))
    (fits : (s.headerAt i).toNat + 56 < 2 ^ 64) :
    ∃ more, (more = segments ∧ ¬ s.IsLoad i ∨ more = segments ++ [s.segment i] ∧ s.IsLoad i ∧
        ((s.segment i).fileOffset + (s.segment i).filesz).toNat ≤ s.bytes.length) ∧
      ∀ outside', headersOf s outside' (left + 1) i segments = headersOf s outside' left (i + 1) more := by
  by_cases inside : (s.headerAt i).toNat + 56 ≤ s.bytes.length
  · by_cases load : s.field (s.headerAt i).toNat 4 = ptLoad
    · rw [headersOf_inside inside, if_neg (not_not.mpr load)] at accepted
      split at accepted
      · simp at accepted
      next room =>
      split at accepted
      · simp at accepted
      next inFile =>
      refine ⟨_, .inr ⟨rfl, load, Nat.le_of_not_lt inFile⟩, fun outside' => ?_⟩
      rw [headersOf_inside inside, if_neg (not_not.mpr load), if_neg room, if_neg inFile]
    · refine ⟨segments, .inl ⟨rfl, load⟩, fun outside' => ?_⟩
      rw [headersOf_inside inside, if_pos load]
  · have beyond : (s.headerAt i + 56).toNat > (s.image outside).len := by
      rw [Slice.image]
      bv_omega
    rw [Slice.headerAt] at beyond
    rw [headersOf, parseHeaders, if_pos beyond] at accepted
    simp [pure, Except.pure] at accepted

/-- On its own, a slice is not accepted when the end of a header wraps. -/
theorem guarded_fits {left i : Nat} {segments out : List LoadSegment}
    (accepted : parseHeaders s.guarded s.phoff s.phentsize (left + 1) i segments = .ok (.ok out)) :
    (s.headerAt i).toNat + 56 < 2 ^ 64 := by
  by_contra wraps
  have short := s.fits
  have faults : s.guarded.loadLe (s.headerAt i) 4 = .error .kernelException := by
    have outside : ¬ (s.headerAt i).toNat < s.bytes.length := by omega
    have load : s.guarded.load (s.headerAt i) = .error .kernelException := by
      simp [Slice.guarded, Slice.image, outside]
    rw [Image.loadLe, load]
    rfl
  rw [parseHeaders] at accepted
  split at accepted
  · simp [pure, Except.pure] at accepted
  · rw [show s.phoff + BitVec.ofNat 64 i * s.phentsize = s.headerAt i from rfl, faults] at accepted
    simp [bind, Except.bind] at accepted

end Reading

section Headers
variable {s : Slice} {outside outside' : Word → Result Byte} {left i : Nat} {segments out : List LoadSegment}

/-- The header loop on plain headers: it never leaves the slice, and gives sound segments. -/
theorem headersOf_sound (plain : ∀ j, i ≤ j → j < i + left → HeaderPlain s j)
    (accepted : headersOf s outside left i segments = .ok (.ok out)) :
    headersOf s outside' left i segments = .ok (.ok out) ∧
      ∀ seg ∈ out, seg ∈ segments ∨ seg.Sound s.bytes.length := by
  induction left generalizing i segments with
  | zero =>
    cases accepted
    exact ⟨rfl, fun _ member => .inl member⟩
  | succ left ih =>
    obtain ⟨fits, loads⟩ := plain i (by omega) (by omega)
    obtain ⟨more, grown, same⟩ := headersOf_round accepted fits
    rw [same] at accepted ⊢
    obtain ⟨guarded, sound⟩ := ih (fun j above below => plain j (by omega) (by omega)) accepted
    refine ⟨guarded, fun seg member => ?_⟩
    rcases sound seg member with held | new
    · rcases grown with ⟨rfl, -⟩ | ⟨rfl, load, inFile⟩
      · exact .inl held
      · rcases List.mem_append.mp held with before | last
        · exact .inl before
        · rw [List.mem_singleton.mp last]
          exact .inr ((loads load).sound inFile)
    · exact .inr new

/-- Where the loop stays inside the slice and all its segments are sound, the headers were plain. -/
theorem headersOf_plain (accepted : parseHeaders s.guarded s.phoff s.phentsize left i segments = .ok (.ok out))
    (sound : ∀ seg ∈ out, seg.Sound s.bytes.length) :
    (∀ seg ∈ segments, seg ∈ out) ∧ ∀ j, i ≤ j → j < i + left → HeaderPlain s j := by
  induction left generalizing i segments with
  | zero =>
    cases accepted
    exact ⟨fun _ member => member, fun j above below => absurd below (by omega)⟩
  | succ left ih =>
    have fits := guarded_fits accepted
    obtain ⟨more, grown, same⟩ := headersOf_round accepted fits
    have rest := (same _).symm.trans accepted
    obtain ⟨kept, later⟩ := ih rest
    have first : (∀ seg ∈ segments, seg ∈ out) ∧ (s.IsLoad i → (s.segment i).Plain) := by
      rcases grown with ⟨rfl, other⟩ | ⟨rfl, load, inFile⟩
      · exact ⟨kept, fun load => absurd load other⟩
      · refine ⟨fun seg member => kept seg (List.mem_append_left _ member), fun _ => ?_⟩
        exact (sound _ (kept _ (List.mem_append_right _ (List.mem_singleton_self _)))).plain s.fits
    refine ⟨first.1, fun j above below => ?_⟩
    rcases Nat.eq_or_lt_of_le above with rfl | after
    · exact ⟨fits, first.2⟩
    · exact later j after (by omega)

end Headers

/-! ### The parser -/

/-- What the ELF header must hold for the parser to go on to the program headers. -/
structure Slice.Recognised (s : Slice) : Prop where
  long : 64 ≤ s.bytes.length
  magic : [0, 1, 2, 3].map (s.bytes.getD · 0) = elfMagic
  elf64 : s.field 4 1 = elfClass64
  littleEndian : s.field 5 1 = elfData2Lsb
  executable : s.field 16 2 = etExec
  riscV : s.field 18 2 = emRiscv

section Parser
variable {s : Slice} {outside : Word → Result Byte} {info : ElfInfo}

theorem image_header {off n : Nat} (long : 64 ≤ s.bytes.length) (small : off + n ≤ 64) :
    (s.image outside).loadLe (BitVec.ofNat 64 off) n = .ok (s.field off n) := by
  have plain : (BitVec.ofNat 64 off).toNat = off := by
    rw [BitVec.toNat_ofNat]
    omega
  rw [image_loadLe (by omega), plain]

theorem image_magic (long : 64 ≤ s.bytes.length) :
    [0, 1, 2, 3].mapM (fun i => (s.image outside).load (BitVec.ofNat 64 i)) =
      .ok ([0, 1, 2, 3].map (s.bytes.getD · 0)) := by
  have loads : ∀ i < 64, (s.image outside).load (BitVec.ofNat 64 i) = .ok (s.bytes.getD i 0) := by
    intro i small
    have plain : (BitVec.ofNat 64 i).toNat = i := by
      rw [BitVec.toNat_ofNat]
      omega
    rw [image_load (by omega), plain]
  rw [List.mapM_cons, List.mapM_cons, List.mapM_cons, List.mapM_cons, List.mapM_nil, loads 0 (by omega),
    loads 1 (by omega), loads 2 (by omega), loads 3 (by omega)]
  rfl

/-- Behind an ELF header it recognises, `parse` is its header loop. -/
theorem parse_recognised (recognised : s.Recognised) : parse (s.image outside) =
    headersOf s outside s.phnum 0 [] >>= fun found =>
      .ok (found.map fun segments => { entry := BitVec.ofNat 64 (s.field 24 8), segments }) := by
  have long := recognised.long
  have len : (s.image outside).len = s.bytes.length := rfl
  have words : ∀ off n, off + n ≤ 64 → (s.image outside).loadLe (BitVec.ofNat 64 off) n = .ok (s.field off n) :=
    fun off n small => image_header long small
  rw [parse, len, if_neg (by omega), image_magic long, ok_bind, if_neg (not_not.mpr recognised.magic),
    show (4 : Word) = BitVec.ofNat 64 4 from rfl, words 4 1 (by omega), ok_bind, if_neg (not_not.mpr recognised.elf64),
    show (5 : Word) = BitVec.ofNat 64 5 from rfl, words 5 1 (by omega), ok_bind,
    if_neg (not_not.mpr recognised.littleEndian),
    show (16 : Word) = BitVec.ofNat 64 16 from rfl, words 16 2 (by omega), ok_bind,
    if_neg (not_not.mpr recognised.executable),
    show (18 : Word) = BitVec.ofNat 64 18 from rfl, words 18 2 (by omega), ok_bind, if_neg (not_not.mpr recognised.riscV),
    show (24 : Word) = BitVec.ofNat 64 24 from rfl, words 24 8 (by omega), ok_bind,
    show (32 : Word) = BitVec.ofNat 64 32 from rfl, words 32 8 (by omega), ok_bind,
    show (56 : Word) = BitVec.ofNat 64 56 from rfl, words 56 2 (by omega), ok_bind,
    show (54 : Word) = BitVec.ofNat 64 54 from rfl, words 54 2 (by omega), ok_bind]
  change (headersOf s outside s.phnum 0 [] >>= _) = _
  refine congrArg _ (funext fun found => ?_)
  cases found <;> rfl

/-- `parse` accepts nothing but an ELF header it recognises. -/
theorem recognised_of_parse (accepted : parse (s.image outside) = .ok (.ok info)) : s.Recognised := by
  have len : (s.image outside).len = s.bytes.length := rfl
  rw [parse, len] at accepted
  split at accepted
  · cases accepted
  next long =>
  have long : 64 ≤ s.bytes.length := by omega
  have words : ∀ off n, off + n ≤ 64 → (s.image outside).loadLe (BitVec.ofNat 64 off) n = .ok (s.field off n) :=
    fun off n small => image_header long small
  rw [image_magic long, ok_bind] at accepted
  split at accepted
  · cases accepted
  next magic =>
  rw [show (4 : Word) = BitVec.ofNat 64 4 from rfl, words 4 1 (by omega), ok_bind] at accepted
  split at accepted
  · cases accepted
  next elf64 =>
  rw [show (5 : Word) = BitVec.ofNat 64 5 from rfl, words 5 1 (by omega), ok_bind] at accepted
  split at accepted
  · cases accepted
  next littleEndian =>
  rw [show (16 : Word) = BitVec.ofNat 64 16 from rfl, words 16 2 (by omega), ok_bind] at accepted
  split at accepted
  · cases accepted
  next executable =>
  rw [show (18 : Word) = BitVec.ofNat 64 18 from rfl, words 18 2 (by omega), ok_bind] at accepted
  split at accepted
  · cases accepted
  next riscV =>
  exact ⟨long, not_not.mp magic, not_not.mp elf64, not_not.mp littleEndian, not_not.mp executable, not_not.mp riscV⟩

/-- `parse` accepts a slice when it recognises the ELF header and the header loop accepts. -/
theorem parse_image : parse (s.image outside) = .ok (.ok info) ↔ s.Recognised ∧
    info.entry = BitVec.ofNat 64 (s.field 24 8) ∧ headersOf s outside s.phnum 0 [] = .ok (.ok info.segments) := by
  by_cases recognised : s.Recognised
  swap
  · exact iff_of_false (fun accepted => recognised (recognised_of_parse accepted)) fun accepted => recognised accepted.1
  rw [parse_recognised recognised]
  cases headersOf s outside s.phnum 0 [] with
  | error e => exact iff_of_false (fun h => by cases h) fun accepted => by cases accepted.2.2
  | ok parsed =>
    cases parsed with
    | error e => exact iff_of_false (fun h => by cases h) fun accepted => by cases accepted.2.2
    | ok segments =>
      obtain ⟨entry, found⟩ := info
      simp [bind, Except.bind, Except.map, recognised]
      exact fun _ => eq_comm

end Parser

/-! ### The loader -/

/-- The loads of a slice's bytes; any other faults. -/
def Slice.only (s : Slice) (load : Memory → Word → Result Byte) : Memory → Word → Result Byte :=
  fun m off => if off.toNat < s.bytes.length then load m off else .error .kernelException

theorem equal_lifts : Lifts fun α x (y : Unit → Result α) => x = y () := by
  refine ⟨fun _ => rfl, fun first next => ?_⟩
  dsimp only
  rw [first]
  exact congrArg _ (funext next)

theorem loadElf_only {s : Slice} {info : ElfInfo} [Platform]
    (sound : ∀ seg ∈ info.segments, seg.Sound s.bytes.length) (load : Memory → Word → Result Byte) (v : Vm) :
    loadElf load info v = loadElf (s.only load) info v := by
  refine loadElf_lifts equal_lifts (fun _ => s.only load) fun m off copied => ?_
  obtain ⟨seg, member, p, page, i, below, rfl⟩ := copied
  rw [Slice.only, if_pos ((sound seg member).copies p page i below)]

/-! ### Which images are vouched for -/

/-- An accepted image is sound: the parser read the slice only, every segment is sound, and the loader reads
the slice only. -/
structure Vouched (s : Slice) (info : ElfInfo) : Prop where
  parser : parse s.guarded = .ok (.ok info)
  segments : ∀ seg ∈ info.segments, seg.Sound s.bytes.length
  loader : ∀ (platform : Platform) load v, @loadElf platform load info v = @loadElf platform (s.only load) info v

/-- The parser vouches for exactly the accepted images whose headers are all plain. -/
theorem vouched_iff_plain {s : Slice} {outside : Word → Result Byte} {info : ElfInfo}
    (accepted : parse (s.image outside) = .ok (.ok info)) : Vouched s info ↔ ∀ i < s.phnum, HeaderPlain s i := by
  obtain ⟨recognised, entry, looped⟩ := parse_image.mp accepted
  constructor
  · intro vouched
    obtain ⟨-, -, guarded⟩ := parse_image.mp vouched.parser
    have plain := (headersOf_plain guarded vouched.segments).2
    exact fun i below => plain i (Nat.zero_le i) (by omega)
  · intro plain
    obtain ⟨guarded, found⟩ := headersOf_sound (fun j _ below => plain j (by omega)) looped
    have sound : ∀ seg ∈ info.segments, seg.Sound s.bytes.length := fun seg member =>
      (found seg member).resolve_left List.not_mem_nil
    exact ⟨parse_image.mpr ⟨recognised, entry, guarded⟩, sound, fun platform load v => loadElf_only sound load v⟩

/-- A word, least significant byte first. -/
def wordBytes (w : Word) : List Byte := (List.range 8).map fun j => w.extractLsb' (8 * j) 8

/-- An image of 120 bytes: the ELF header and one program header of a segment to load. -/
def oneSegment (offset vaddr filesz memsz : Word) : Slice :=
  { bytes := [0x7F, 0x45, 0x4C, 0x46, 2, 1, 1, 0, 0, 0, 0, 0, 0, 0, 0, 0, 2, 0, 0xF3, 0, 1, 0, 0, 0] ++
      wordBytes vaddr ++ wordBytes 64 ++ wordBytes 0 ++ [0, 0, 0, 0, 64, 0, 56, 0, 1, 0, 0, 0, 0, 0, 0, 0] ++
      [1, 0, 0, 0, 5, 0, 0, 0] ++ wordBytes offset ++ wordBytes vaddr ++ wordBytes vaddr ++ wordBytes filesz ++
      wordBytes memsz ++ wordBytes 4096
    fits := by simp [wordBytes] }

theorem vouched_iff_plain_small : Vouched (oneSegment 64 0x60000000 56 4096)
      { entry := 0x60000000, segments := [⟨64, 0x60000000, 56, 4096, true⟩] } ↔
    ∀ i < (oneSegment 64 0x60000000 56 4096).phnum, HeaderPlain (oneSegment 64 0x60000000 56 4096) i :=
  vouched_iff_plain (show parse (Slice.guarded _) = _ by decide +kernel)

/-- A segment at offset 2^64 - 1 of two bytes passes the bounds test. -/
theorem accepted_unsound : ¬ ∀ (s : Slice) (outside : Word → Result Byte) (info : ElfInfo),
    parse (s.image outside) = .ok (.ok info) → Vouched s info := by
  intro all
  have accepted : parse (oneSegment 0xFFFFFFFFFFFFFFFF 0x60000000 2 4096).guarded =
      .ok (.ok { entry := 0x60000000, segments := [⟨0xFFFFFFFFFFFFFFFF, 0x60000000, 2, 4096, true⟩] }) := by
    decide +kernel
  have inFile := ((all _ _ _ accepted).segments _ (List.mem_singleton_self _)).file
  have length : (oneSegment 0xFFFFFFFFFFFFFFFF 0x60000000 2 4096).bytes.length = 120 := by simp [oneSegment, wordBytes]
  rw [length] at inFile
  simp at inFile

end GooseOs.Elf
