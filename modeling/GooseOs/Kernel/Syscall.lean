import GooseOs.Kernel.State
import GooseOs.Kernel.Elf

/-!
`syscall.rs`: memory, interrupt-ownership and spawn system calls, with the ELF loading that
`sys_spawn` shares with the boot-time `create_process_from_elf`.
-/

namespace GooseOs.Syscall
open Security Kvm
variable [Platform]

/-- SYS_MAP(phys, virt, flags). -/
def sysMap (k : Kernel) : Result Kernel :=
  let k := k.advance
  let phys := k.frame.a0.toNat
  let virt := k.frame.a1.toNat
  let flagsArg := k.frame.a2.toNat
  if !isPageAligned phys || !isPageAligned virt then .ok (k.setA0 usizeMax)
  else if !isUserVa virt then .ok (k.setA0 usizeMax)
  else if !k.vm.alloc.isAllocated phys then .ok (k.setA0 usizeMax)
  else if !isUserHeapPa phys then .ok (k.setA0 usizeMax)
  else if !isValidMapFlags flagsArg then .ok (k.setA0 usizeMax)
  else do
    let pteFlags := if flagsArg = 0 then userRw else userRx
    let vm ← mapPage k.vm (satpToRoot k.current.satp) virt phys pteFlags
    return { k with vm := vm }.setA0 0

/-- SYS_UNMAP(virt). -/
def sysUnmap (k : Kernel) : Result Kernel :=
  let k := k.advance
  let virt := k.frame.a0.toNat
  if !isPageAligned virt then .ok (k.setA0 usizeMax)
  else if !isUserVa virt then .ok (k.setA0 usizeMax)
  else match unmapPage k.vm (satpToRoot k.current.satp) virt with
    | some vm => .ok ({ k with vm := vm }.setA0 0)
    | none => .ok (k.setA0 usizeMax)

/-- SYS_ALLOC_PAGES(count). -/
def sysAllocPages (k : Kernel) : Result Kernel :=
  let k := k.advance
  if !isValidAllocCount k.frame.a0.toNat then .ok (k.setA0 usizeMax)
  else match k.vm.alloc.alloc with
    | .ok (phys, alloc) =>
      .ok ({ k with vm := zeroPage { k.vm with alloc := alloc } phys }.setA0 (BitVec.ofNat 64 phys))
    | .error _ => .ok (k.setA0 usizeMax)

/-- SYS_FREE_PAGES(phys, count). The page is zeroed before the bitmap is consulted again. -/
def sysFreePages (k : Kernel) : Result Kernel :=
  let k := k.advance
  let phys := k.frame.a0.toNat
  let count := k.frame.a1.toNat
  if !isValidAllocCount count then .ok (k.setA0 usizeMax)
  else if !isPageAligned phys then .ok (k.setA0 usizeMax)
  else if !k.vm.alloc.isAllocated phys then .ok (k.setA0 usizeMax)
  else
    let vm := zeroPage k.vm phys
    match vm.alloc.free phys with
    | .ok alloc => .ok ({ k with vm := { vm with alloc := alloc } }.setA0 0)
    | .error _ => .ok ({ k with vm := vm }.setA0 usizeMax)

/-- SYS_IRQ_REGISTER(irq); the argument is cut to 32 bits. -/
def sysIrqRegister (k : Kernel) : Kernel :=
  let k := k.advance
  let current := k.currentPid
  let irq := k.frame.a0.toNat % 2 ^ 32
  if !isValidIrq irq then k.setA0 usizeMax
  else if k.irqOwner irq ≠ 0 then k.setA0 usizeMax
  else
    { k with
      procs := Function.update k.procs current { k.procs current with irqNum := irq }
      irqOwner := Function.update k.irqOwner irq current
      plic := k.plic.enableIrq irq }.setA0 0

/-- SYS_IRQ_ACK(). -/
def sysIrqAck (k : Kernel) : Kernel :=
  let k := k.advance
  let irq := k.current.irqNum
  if irq = 0 then k.setA0 usizeMax
  else { k with plic := k.plic.complete irq }.setA0 0

/-- `irq_owner`: the owner of an interrupt, 0 if unclaimed. -/
def irqOwner (k : Kernel) (irq : Nat) : Nat := if !isValidIrq irq then 0 else k.irqOwner irq

/-! ### Loading an ELF image -/

/-- The byte loop of a segment copy: `n` bytes from `src` in the image to `dst`. -/
def copyBytes (load : Memory → Word → Result Byte) (m : Memory) (dst : Nat) (src : Word) : Nat → Result Memory
  | 0 => .ok m
  | n + 1 => do
    let b ← load m src
    copyBytes load (m.write8 dst b) (dst + 1) (src + 1) n

/-- Copy the file bytes that overlap the page at `va` to the physical page `page`. -/
def copyPage (load : Memory → Word → Result Byte) (seg : Elf.LoadSegment) (va : Word) (page : Nat) (m : Memory) :
    Result Memory :=
  let pageStart := va
  let pageEnd := va + 4096
  let segFileStart := seg.vaddr
  let segFileEnd := seg.vaddr + seg.filesz
  let copyStart := if segFileStart > pageStart then segFileStart else pageStart
  let copyEnd := if segFileEnd < pageEnd then segFileEnd else pageEnd
  if copyStart < copyEnd then
    copyBytes load m (page + (copyStart - pageStart).toNat) (seg.fileOffset + (copyStart - seg.vaddr))
      (copyEnd - copyStart).toNat
  else .ok m

/-- One page of a segment: allocate, copy the overlap with the file data, map. -/
def loadPage (load : Memory → Word → Result Byte) (userRoot : Nat) (seg : Elf.LoadSegment) (v : Vm) (p : Nat) :
    Result Vm := do
  let flags := if seg.executable then userRx else userRw
  let va := Elf.pageFloor seg.vaddr + BitVec.ofNat 64 p * 4096
  let (page, v) ← allocZeroedPage v
  let mem ← copyPage load seg va page v.mem
  mapPage { v with mem := mem } userRoot va.toNat page flags

/-- The page loop of a segment, from page `p` on. -/
def loadPages (load : Memory → Word → Result Byte) (userRoot : Nat) (seg : Elf.LoadSegment) :
    (count p : Nat) → Vm → Result Vm
  | 0, _, v => .ok v
  | count + 1, p, v => do
    let v ← loadPage load userRoot seg v p
    loadPages load userRoot seg count (p + 1) v

def loadSegments (load : Memory → Word → Result Byte) (userRoot : Nat) : List Elf.LoadSegment → Vm → Result Vm
  | [], v => .ok v
  | seg :: rest, v => do
    let v ← loadPages load userRoot seg (Elf.pagesNeeded seg.memsz seg.vaddr) 0 v
    loadSegments load userRoot rest v

/-- The fixed stack address of ELF processes. -/
def stackVa : Nat := 0x7FFF_0000

/-- Root, kernel regions, segments and stack of a process loaded from an ELF. -/
def loadElf (load : Memory → Word → Result Byte) (info : Elf.ElfInfo) (v : Vm) : Result (Nat × Vm) := do
  let (userRoot, v) ← allocZeroedPage v
  let v ← mapKernelRegions v userRoot
  let v ← loadSegments load userRoot info.segments v
  let (userStack, v) ← allocZeroedPage v
  let v ← mapPage v userRoot stackVa userStack userRw
  return (userRoot, v)

/-- A fresh process: zeroed registers but for entry, stack pointer and `sstatus.SPIE`. -/
def newProcess (pid parent : Nat) (satp entry sp : Word) : Process :=
  { pid := pid
    state := .ready
    satp := satp
    context := { TrapFrame.zero with sepc := entry, sp := sp, sstatus := 1 <<< 5 }
    parent := parent }

/-- A byte load by S-mode with SUM set; a load that does not translate is a kernel fault. -/
def loadByte (satp : Word) (m : Memory) (va : Word) : Result Byte :=
  match translate m satp va.toNat with
  | some w => if w.flags.contains .read then .ok (m w.phys) else .error .kernelException
  | none => .error .kernelException

/-- The lowest free process slot. -/
def firstFree (procs : Nat → Process) : Option Nat := pids.find? fun i => (procs i).state == .free

/-- SYS_SPAWN(elf_ptr, elf_len). The image is read through the caller's page table. -/
def sysSpawn (k : Kernel) : Result Kernel := do
  let k := k.advance
  let elfPtr := k.frame.a0
  let elfLen := k.frame.a1.toNat
  let parent := k.currentPid
  if !isValidElfSize elfLen then return k.setA0 usizeMax
  let load m off := loadByte k.satp m (elfPtr + off)
  match ← Elf.parse ⟨elfLen, load k.vm.mem⟩ with
  | .error _ => return k.setA0 usizeMax
  | .ok info =>
    match firstFree k.procs with
    | none => return k.setA0 usizeMax
    | some newPid =>
      let (userRoot, vm) ← loadElf load info k.vm
      let satp := makeSatp userRoot (BitVec.ofNat 16 newPid)
      let child := newProcess newPid parent satp info.entry (BitVec.ofNat 64 (stackVa + pageSize))
      return { k with procs := Function.update k.procs newPid child, vm := vm }.setA0 (BitVec.ofNat 64 newPid)

end GooseOs.Syscall
