import GooseOs.Kernel.Process
import GooseOs.Lib.Bytes

/-!
`elf.rs`: the ELF64 parser behind SYS_SPAWN. It reads the image lazily through raw loads, each
of which may fault; arithmetic on `usize` wraps as in a release build.
-/

namespace GooseOs.Elf

/-- `ElfError`. -/
inductive ElfError where
  | tooSmall | badMagic | notElf64 | notLittleEndian | notExecutable | notRiscV | tooManySegments
  | segmentOutOfBounds
  deriving DecidableEq

/-- `LoadSegment`. -/
structure LoadSegment where
  fileOffset : Word
  vaddr : Word
  filesz : Word
  memsz : Word
  executable : Bool
  deriving DecidableEq

/-- `ElfInfo`; the segment array and its count are one list. -/
structure ElfInfo where
  entry : Word
  segments : List LoadSegment
  deriving DecidableEq

/-- A byte slice as the kernel reads it: a length and the load at an offset from its pointer. -/
structure Image where
  len : Nat
  load : Word → Result Byte

namespace Image

/-- A little-endian load of `n` bytes at `off`. -/
def loadLe (d : Image) (off : Word) : (n : Nat) → Result Nat
  | 0 => .ok 0
  | n + 1 => do
    let low ← d.load off
    let high ← loadLe d (off + 1) n
    return low.toNat + 256 * high

end Image

def elfMagic : List Byte := [0x7F, 0x45, 0x4C, 0x46]

def elfClass64 : Nat := 2

def elfData2Lsb : Nat := 1

def etExec : Nat := 2

def emRiscv : Nat := 0xF3

def ptLoad : Nat := 1

def pfX : Nat := 1

def maxSegments : Nat := 4

/-- The loop of `parse` over the remaining program headers. -/
def parseHeaders (d : Image) (phoff phentsize : Word) :
    (left i : Nat) → List LoadSegment → Result (Except ElfError (List LoadSegment))
  | 0, _, segments => .ok (.ok segments)
  | left + 1, i, segments => do
    let offset := phoff + BitVec.ofNat 64 i * phentsize
    if (offset + 56).toNat > d.len then return .error .segmentOutOfBounds
    let pType ← d.loadLe offset 4
    if pType ≠ ptLoad then parseHeaders d phoff phentsize left (i + 1) segments
    else if segments.length ≥ maxSegments then return .error .tooManySegments
    else
      let pOffset ← d.loadLe (offset + 8) 8
      let pFilesz ← d.loadLe (offset + 32) 8
      let segEnd : Word := BitVec.ofNat 64 pOffset + BitVec.ofNat 64 pFilesz
      if segEnd.toNat > d.len then return .error .segmentOutOfBounds
      let pVaddr ← d.loadLe (offset + 16) 8
      let pMemsz ← d.loadLe (offset + 40) 8
      let pFlags ← d.loadLe (offset + 4) 4
      let segment : LoadSegment :=
        { fileOffset := BitVec.ofNat 64 pOffset
          vaddr := BitVec.ofNat 64 pVaddr
          filesz := BitVec.ofNat 64 pFilesz
          memsz := BitVec.ofNat 64 pMemsz
          executable := pFlags &&& pfX != 0 }
      parseHeaders d phoff phentsize left (i + 1) (segments ++ [segment])

def parse (d : Image) : Result (Except ElfError ElfInfo) := do
  if d.len < 64 then return .error .tooSmall
  let magic ← [0, 1, 2, 3].mapM fun i => d.load (BitVec.ofNat 64 i)
  if magic ≠ elfMagic then return .error .badMagic
  if (← d.loadLe 4 1) ≠ elfClass64 then return .error .notElf64
  if (← d.loadLe 5 1) ≠ elfData2Lsb then return .error .notLittleEndian
  if (← d.loadLe 16 2) ≠ etExec then return .error .notExecutable
  if (← d.loadLe 18 2) ≠ emRiscv then return .error .notRiscV
  let entry ← d.loadLe 24 8
  let phoff ← d.loadLe 32 8
  let phnum ← d.loadLe 56 2
  let phentsize ← d.loadLe 54 2
  match ← parseHeaders d (BitVec.ofNat 64 phoff) (BitVec.ofNat 64 phentsize) phnum 0 [] with
  | .error e => return .error e
  | .ok segments => return .ok { entry := BitVec.ofNat 64 entry, segments := segments }

/-- `x & !(PAGE_SIZE - 1)` on a machine word. -/
def pageFloor (x : Word) : Word := x &&& ~~~0xFFF

/-- `pages_needed`. -/
def pagesNeeded (memsz vaddr : Word) : Nat :=
  let startPage := pageFloor vaddr
  let stop := vaddr + memsz
  let endPage := pageFloor (stop + 4096 - 1)
  (endPage - startPage).toNat / pageSize

end GooseOs.Elf
