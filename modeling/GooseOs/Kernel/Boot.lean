import GooseOs.Kernel.Trap

/-!
`boot.rs` and `lifecycle::launch`: from power-on memory to the first return to user mode. The
`wasm-test` build, which never starts a process, is left out.
-/

namespace GooseOs.Boot
open Kvm Syscall
variable [Platform]

/-- A boot-time assertion. -/
def require (p : Prop) [Decidable p] : Result Unit := if p then .ok () else .error .bootFailed

/-- An allocator call whose failure is a boot-time panic. -/
def expect {α : Type} : Except AllocError α → Result α
  | .ok a => .ok a
  | .error _ => .error .bootFailed

/-- `page_alloc::init`. -/
def pageAllocInit : Result BitmapAllocator := do
  let base := pageUp Platform.heapStart
  let numPages := (Platform.heapEnd - base) / pageSize
  require (base % pageSize = 0 ∧ numPages > 0 ∧ numPages ≤ 32768)
  return .new base numPages

/-- `page_alloc::self_test`. -/
def selfTest (a : BitmapAllocator) : Result BitmapAllocator := do
  require (a.allocatedCount = 0 ∧ a.freeCount = a.totalPages)
  let (p1, a) ← expect a.alloc
  require (p1 % pageSize = 0 ∧ p1 ≥ a.baseAddr ∧ a.isAllocated p1 = true)
  require (a.allocatedCount + a.freeCount = a.totalPages)
  let a ← expect (a.free p1)
  require (a.isAllocated p1 = false)
  require ((match a.free p1 with | .error .doubleFree => true | _ => false) = true)
  let (p2, a) ← expect a.alloc
  require (p1 = p2)
  let a ← expect (a.free p2)
  let (first, a) ← expect a.alloc
  let (second, a) ← expect a.alloc
  require (first ≠ second ∧ second = first + pageSize)
  let a ← expect (a.free first)
  let a ← expect (a.free second)
  require ((match a.free 0xDEAD with | .error .notAligned => true | _ => false) = true)
  require ((match a.free 0 with | .error .invalidAddress => true | _ => false) = true)
  require (a.allocatedCount = 0)
  return a

/-- The byte loop that copies an embedded program, `n` bytes from `src` to `dst`. -/
def copyCode (m : Memory) (dst src : Nat) : Nat → Memory
  | 0 => m
  | n + 1 => copyCode (m.write8 dst (m src)) (dst + 1) (src + 1) n

/-- `create_process`: code and stack pages identity-mapped for the user. -/
def createProcess (k : Kernel) (pid : Nat) (code : Nat × Nat) : Result Kernel := do
  let (userCode, vm) ← allocZeroedPage k.vm
  let vm := { vm with mem := copyCode vm.mem userCode code.1 code.2 }
  let (userStack, vm) ← allocZeroedPage vm
  let (userRoot, vm) ← allocZeroedPage vm
  let vm ← mapKernelRegions vm userRoot
  let vm ← mapRange vm userRoot userCode (userCode + pageSize) userRx
  let vm ← mapRange vm userRoot userStack (userStack + pageSize) userRw
  let process := newProcess pid 0 (makeSatp userRoot (BitVec.ofNat 16 pid)) (BitVec.ofNat 64 userCode)
    (BitVec.ofNat 64 (userStack + pageSize))
  return { k with procs := Function.update k.procs pid process, vm := vm }

/-- `create_process_from_elf`, with the image in the kernel's read-only data. -/
def createProcessFromElf (k : Kernel) (pid : Nat) (info : Elf.ElfInfo) (elfStart : Nat) : Result Kernel := do
  let load (m : Memory) (off : Word) : Result Byte := .ok (m (elfStart + off.toNat))
  let (userRoot, vm) ← loadElf load info k.vm
  let process := newProcess pid 0 (makeSatp userRoot (BitVec.ofNat 16 pid)) info.entry
    (BitVec.ofNat 64 (stackVa + pageSize))
  return { k with procs := Function.update k.procs pid process, vm := vm }

/-- The user address of the UART window of PID 2. -/
def uartUserVa : Nat := 0x5E00_0000

/-- The `security-test` block of `launch`. -/
def launchTest (k : Kernel) : Result Kernel :=
  if Platform.securityTest then createProcess k 1 Platform.securityTestProgram else .ok k

/-- The `rust-user` block of `launch`: the embedded ELF as PID 1. -/
def launchRust (k : Kernel) : Result Kernel :=
  if Platform.rustUser then do
    let (elfStart, elfLen) := Platform.helloElf
    match ← Elf.parse ⟨elfLen, fun off => .ok (k.vm.mem (elfStart + off.toNat))⟩ with
    | .error _ => .error .bootFailed
    | .ok info => createProcessFromElf k 1 info elfStart
  else .ok k

/-- The default block of `launch`: init and the UART server, which gets the UART page. -/
def launchDefault (k : Kernel) : Result Kernel :=
  if Platform.securityTest || Platform.rustUser then .ok k
  else do
    let k ← createProcess k 1 Platform.userInit
    let k ← createProcess k 2 Platform.uartServer
    let vm ← mapPage k.vm (satpToRoot (k.procs 2).satp) uartUserVa uartBase userMmio
    return { k with vm := vm }

def createProcesses (k : Kernel) : Result Kernel := do
  let k ← launchTest k
  let k ← launchRust k
  launchDefault k

/-- The end of `launch`: PID 1 runs in user mode. `frame` holds the registers `launch` leaves
behind; only `sepc`, `sp` and the privilege bit are set. -/
def enterUser (k : Kernel) (frame : TrapFrame) : Kernel :=
  let proc1 := k.procs 1
  { k with
    currentPid := 1
    procs := Function.update k.procs 1 { proc1 with state := .running }
    satp := proc1.satp
    frame := { frame with
      sepc := proc1.context.sepc
      sp := proc1.context.sp
      sstatus := (frame.sstatus &&& ~~~0x100) ||| 0x20 } }

/-- What the boot path does not determine: memory at power-on, the ticks counted and the
registers left when PID 1 starts, and whether a network device is found, at which interrupt. -/
structure Environment where
  mem : Memory
  ticks : Word
  frame : TrapFrame
  netIrq : Option Nat

/-- The network state after `net::init`. -/
def netInit (irq : Nat) : Net :=
  { stack := Smoltcp.fresh
    tcpHandles := fun _ => none
    udpHandles := fun _ => none
    tcpAllocCount := 0
    udpAllocCount := 0
    rx := []
    virtioIrq := irq }

/-- The kernel with paging on and no process yet. -/
def pagedKernel (env : Environment) (rootPt : Nat) (vm : Vm) : Kernel :=
  let kernelSatp := makeSatp rootPt 0
  let found := if Platform.net then env.netIrq else none
  { procs := fun _ => {}
    currentPid := 0
    irqOwner := fun _ => 0
    frame := env.frame
    satp := kernelSatp
    kernelSatp := kernelSatp
    vm := vm
    ticks := env.ticks
    plic := { enabled := fun irq => found == some irq, claimed := fun _ => false }
    net := found.map netInit }

/-- `boot::run`. -/
def boot (env : Environment) : Result Kernel := do
  let alloc ← pageAllocInit
  let alloc ← selfTest alloc
  let (rootPt, vm) ← Kvm.init ⟨env.mem, alloc⟩
  let k ← createProcesses (pagedKernel env rootPt vm)
  return enterUser k env.frame

/-- A state the kernel can start user execution in. The device interrupts are 1 to 8. -/
def Booted (k : Kernel) : Prop :=
  ∃ env : Environment, (∀ irq, env.netIrq = some irq → 1 ≤ irq ∧ irq ≤ virtioMmioSlots) ∧ boot env = .ok k

end GooseOs.Boot
