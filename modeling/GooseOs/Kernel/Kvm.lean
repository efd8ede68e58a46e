import GooseOs.Kernel.Process
import GooseOs.Kernel.Platform
import GooseOs.Kernel.PageAlloc
import GooseOs.Kernel.PageTable

/-!
`kvm.rs`: building, changing and walking page tables, and the user-buffer copies. The kernel's own accesses are by
physical address here: that is what the source does while the table in force maps the kernel, and what it touches, to
itself. `Memory/Accesses.lean` says which bytes a system call touches, and when that is so.
-/

namespace GooseOs

/-- Physical memory and the global page allocator. -/
structure Vm where
  mem : Memory
  alloc : BitmapAllocator

namespace Kvm

/-- `x & !(PAGE_SIZE - 1)`. -/
def pageDown (x : Nat) : Nat := x / pageSize * pageSize

/-- `(x + PAGE_SIZE - 1) & !(PAGE_SIZE - 1)`. -/
def pageUp (x : Nat) : Nat := pageDown (x + pageSize - 1)

def readPte (m : Memory) (tablePhys : Nat) (index : Fin ptEntries) : Pte := ⟨m.read64 (tablePhys + index * 8)⟩

def writePte (v : Vm) (tablePhys : Nat) (index : Fin ptEntries) (pte : Pte) : Vm :=
  { v with mem := v.mem.write64 (tablePhys + index * 8) pte.bits }

def zeroPage (v : Vm) (addr : Nat) : Vm := { v with mem := v.mem.fill addr pageSize 0 }

def allocZeroedPage (v : Vm) : Result (Nat × Vm) :=
  match v.alloc.alloc with
  | .error _ => .error .outOfMemory
  | .ok (page, alloc) => .ok (page, zeroPage { v with alloc := alloc } page)

/-- The child table behind an entry, allocated on first use. -/
def walkOrCreate (v : Vm) (tablePhys : Nat) (index : Fin ptEntries) : Result (Nat × Vm) :=
  let existing := readPte v.mem tablePhys index
  if existing.isValid then
    if existing.isBranch then .ok (existing.physAddr, v) else .error .branchExpected
  else do
    let (newTable, v) ← allocZeroedPage v
    return (newTable, writePte v tablePhys index (.branch newTable))

def mapPage (v : Vm) (rootPhys va pa : Nat) (flags : PteFlags) : Result Vm := do
  let (vpn2, vpn1, vpn0, _) := vaParts va
  let (level1Phys, v) ← walkOrCreate v rootPhys vpn2
  let (level0Phys, v) ← walkOrCreate v level1Phys vpn1
  return writePte v level0Phys vpn0 (.new pa flags)

/-- The loop of `map_range` as written, on 64-bit addresses; `none` if `fuel` rounds do not end it. -/
def mapWhile (rootPhys endAligned : Nat) (flags : PteFlags) : (fuel : Nat) → Vm → (addr : Word) → Option (Result Vm)
  | 0, _, _ => none
  | fuel + 1, v, addr =>
    if addr.toNat < endAligned then
      match mapPage v rootPhys addr.toNat addr.toNat flags with
      | .error e => some (.error e)
      | .ok v => mapWhile rootPhys endAligned flags fuel v (addr + BitVec.ofNat 64 pageSize)
    else some (.ok v)

/-- The same loop over `count` pages from `addr`. -/
def mapFrom (v : Vm) (rootPhys addr : Nat) (flags : PteFlags) : Nat → Result Vm
  | 0 => .ok v
  | count + 1 => do
    let v ← mapPage v rootPhys addr addr flags
    mapFrom v rootPhys (addr + pageSize) flags count

/-- Identity-map the pages of `[start, stop)`. -/
def mapRange (v : Vm) (rootPhys start stop : Nat) (flags : PteFlags) : Result Vm :=
  mapFrom v rootPhys (pageDown start) flags ((pageUp stop - pageDown start) / pageSize)

/-- Clear the leaf of `va`; `none` when there is none. -/
def unmapPage (v : Vm) (rootPhys va : Nat) : Option Vm :=
  let (vpn2, vpn1, vpn0, _) := vaParts va
  let l2 := readPte v.mem rootPhys vpn2
  if !l2.isValid || !l2.isBranch then none
  else
    let l1 := readPte v.mem l2.physAddr vpn1
    if !l1.isValid || !l1.isBranch then none
    else
      let l0 := readPte v.mem l1.physAddr vpn0
      if !l0.isValid || !l0.isLeaf then none
      else some (writePte v l1.physAddr vpn0 .invalid)

section Regions
variable [Platform]

/-- The ranges every page table maps, in order, with their permissions. -/
def kernelRegions : List (Nat × Nat × PteFlags) :=
  [(Platform.textStart, Platform.textEnd, kernelRx),
    (Platform.rodataStart, Platform.rodataEnd, kernelRo),
    (Platform.dataStart, Platform.dataEnd, kernelRw),
    (Platform.bssStart, Platform.bssEnd, kernelRw),
    (Platform.heapStart, Platform.stackTop, kernelRw),
    (uartBase, uartBase + pageSize, kernelMmio),
    (plicBase, plicBase + plicMapSize, kernelMmio)] ++
  if Platform.qemu then
    [(virtioMmioBase, virtioMmioBase + virtioMmioSlots * virtioMmioStride, kernelMmio)]
  else []

/-- Map a list of regions one after another. -/
def mapRegions (v : Vm) (rootPhys : Nat) : List (Nat × Nat × PteFlags) → Result Vm
  | [] => .ok v
  | (start, stop, flags) :: rest => do
    let v ← mapRange v rootPhys start stop flags
    mapRegions v rootPhys rest

def mapKernelRegions (v : Vm) (rootPhys : Nat) : Result Vm := mapRegions v rootPhys kernelRegions

/-- The ranges of the boot page table: a second copy of the list in the source. -/
def bootRegions : List (Nat × Nat × PteFlags) :=
  [(Platform.textStart, Platform.textEnd, kernelRx),
    (Platform.rodataStart, Platform.rodataEnd, kernelRo),
    (Platform.dataStart, Platform.dataEnd, kernelRw),
    (Platform.bssStart, Platform.bssEnd, kernelRw),
    (Platform.heapStart, Platform.stackTop, kernelRw),
    (uartBase, uartBase + pageSize, kernelMmio),
    (plicBase, plicBase + plicMapSize, kernelMmio)] ++
  if Platform.qemu then
    [(virtioMmioBase, virtioMmioBase + virtioMmioSlots * virtioMmioStride, kernelMmio)]
  else []

theorem mapRegions_boot (v : Vm) (rootPhys : Nat) : mapRegions v rootPhys bootRegions = mapKernelRegions v rootPhys := rfl

/-- `kvm::init`: build the kernel's own page table. -/
def init (v : Vm) : Result (Nat × Vm) := do
  let (rootPhys, v) ← allocZeroedPage v
  let v ← mapRegions v rootPhys bootRegions
  return (rootPhys, v)

/-- `USER_VA_MAX`. -/
def userVaMax : Nat := 0x8000_0000

def isUserHeapPa (pa : Nat) : Bool := decide (pa ≥ Platform.heapStart) && decide (pa < Platform.heapEnd)

/-- The physical address behind a user address, when its page is the user's. -/
def translateUser (m : Memory) (satp : Word) (va : Nat) : Option Nat :=
  if va ≥ userVaMax then none
  else do
    let result ← walk (satpToRoot satp) va m.read64
    if !result.flags.contains .user then none
    else if !isUserHeapPa (pageDown result.phys) then none
    else some result.phys

def bytesToPageEnd (start : Nat) : Nat := 4096 - (start &&& 0xFFF)

/-- A validated piece of a user buffer. -/
structure Chunk where
  pa : Nat
  len : Nat

/-- `MAX_COPY_CHUNKS`. -/
def maxCopyChunks : Nat := 32

/-- The loop of `walk_user_range` from byte `done` on, with `left` chunks to spare. -/
def walkChunks (m : Memory) (root userVa total : Nat) (needWrite : Bool) :
    (left done : Nat) → Option (List Chunk)
  | 0, done => if done < total then none else some []
  | left + 1, done =>
    if done < total then
      let va := (userVa + done) % 2 ^ 64
      if va ≥ userVaMax then none
      else do
        let chunkLen := min (bytesToPageEnd va) (total - done)
        let result ← walk root va m.read64
        if !result.flags.contains .user then none
        else if needWrite && !result.flags.contains .write then none
        else if !isUserHeapPa (pageDown result.phys) then none
        else do
          let rest ← walkChunks m root userVa total needWrite left (done + chunkLen)
          return ⟨result.phys, chunkLen⟩ :: rest
    else some []

def walkUserRange (m : Memory) (satp : Word) (userVa total : Nat) (needWrite : Bool) : Option (List Chunk) :=
  walkChunks m (satpToRoot satp) userVa total needWrite maxCopyChunks 0

def readChunks (m : Memory) : List Chunk → List Byte
  | [] => []
  | c :: rest => (List.range c.len).map (fun i => m (c.pa + i)) ++ readChunks m rest

def writeChunks (m : Memory) : List Chunk → List Byte → Memory
  | [], _ => m
  | c :: rest, src => writeChunks (m.writeBytes c.pa (src.take c.len)) rest (src.drop c.len)

/-- Validate every page, then copy `len` bytes in. -/
def copyFromUser (m : Memory) (satp : Word) (userVa len : Nat) : Option (List Byte) :=
  if len = 0 then some []
  else (walkUserRange m satp userVa len false).map (readChunks m)

/-- Validate every page, then copy `src` out. -/
def copyToUser (m : Memory) (satp : Word) (userVa : Nat) (src : List Byte) : Option Memory :=
  if src.length = 0 then some m
  else (walkUserRange m satp userVa src.length true).map fun chunks => writeChunks m chunks src

end Regions
end Kvm
end GooseOs
