import GooseOs.Memory.Supply
import GooseOs.Memory.Isolation
import GooseOs.Memory.Regions
import GooseOs.Kernel.UserPrograms

/-!
A reference board: one linker layout, memory blank at power-on but for a string, no network. It boots into the two
default processes, so the laws about runs have runs to speak of.
-/

namespace GooseOs.Reference
open BitmapAllocator Kvm Boot Syscall

/-- QEMU's layout with 256 heap pages. -/
@[reducible] def platform : Platform where
  Stack := Unit
  fresh := ()
  poll stack _ frames := (stack, frames)
  addTcp stack := (stack, 0)
  addUdp stack := (stack, 0)
  connect _ _ _ _ _ := none
  listen _ _ _ := none
  bind _ _ _ := none
  mayRecv _ _ := false
  maySend _ _ := false
  isActive _ _ := false
  tcpRecvSlice stack _ _ := (stack, none)
  tcpSendSlice stack _ _ := (stack, none)
  udpRecvSlice stack _ _ := (stack, .error .exhausted)
  udpSendSlice stack _ _ _ _ := (stack, false)
  closeTcp stack _ := stack
  closeUdp stack _ := stack
  qemu := true
  net := false
  securityTest := false
  rustUser := false
  textStart := 0x8020_0000
  textEnd := 0x8020_4000
  rodataStart := 0x8020_4000
  rodataEnd := 0x8020_6000
  dataStart := 0x8020_6000
  dataEnd := 0x8020_7000
  bssStart := 0x8020_7000
  bssEnd := 0x8021_0000
  heapStart := 0x8021_0000
  heapEnd := 0x8031_0000
  stackTop := 0x8031_4000
  userInit := (0x8020_3000, 96)
  uartServer := (0x8020_3100, 256)
  securityTestProgram := (0x8020_3200, 64)
  helloElf := (0x8020_5400, 0)
  kernelIdle := 0x8020_1000
  postProcessExit := 0x8020_1100
  mmio_apart := by decide
  text_le := by decide
  rodata_le := by decide
  data_le := by decide
  bss_le := by decide
  heap_le := by decide
  stack_low := by decide
  text_aligned := by decide
  rodata_aligned := by decide
  data_aligned := by decide
  bss_aligned := by decide
  heapStart_aligned := by decide
  heapEnd_aligned := by decide
  stackTop_aligned := by decide
  heap_tracked := by decide
  programs_fit := by decide

attribute [local instance] platform

/-- Where the string of init lies: behind fourteen instructions of four bytes. -/
abbrev greetingOffset : Nat := 56

/-- Power-on: memory blank but for the string of init, no device, zeroed registers. -/
def environment : Environment where
  mem x :=
    if 0x8020_3000 + greetingOffset ≤ x then UserPrograms.userInit.string.getD (x - (0x8020_3000 + greetingOffset)) 0 else 0
  ticks := 0
  frame := .zero
  netIrq := none

theorem regions_cost : regionsCost kernelRegions = 18 := by decide

theorem process_cost : processCost = 25 := by decide

/-! ### The allocator -/

theorem selfTest_passes : ∃ a, (pageAllocInit >>= selfTest) = .ok a ∧ a.freePages = 256 := by
  have computed : (match pageAllocInit >>= selfTest with
      | .ok a => some (a.baseAddr, a.totalPages, (List.range 4).map a.bitmap)
      | .error _ => none) = some (0x8021_0000, 256, [0, 0, 0, 0]) := by
    decide +kernel
  cases tested : pageAllocInit >>= selfTest with
  | error e =>
    rw [tested] at computed
    cases computed
  | ok a =>
    rw [tested] at computed
    simp only [Option.some.injEq, Prod.mk.injEq] at computed
    obtain ⟨base, total, words⟩ := computed
    have clear : ∀ j, j < 256 → ¬ a.Marked j := by
      intro j bound
      have word : a.bitmap (j / 64) = 0 := by
        have entries := congrArg (fun l : List Word => l[j / 64]?) words
        have small : j / 64 < 4 := by omega
        have zero : ([0, 0, 0, 0] : List Word)[j / 64]? = some 0 := by
          rcases (by omega : j / 64 = 0 ∨ j / 64 = 1 ∨ j / 64 = 2 ∨ j / 64 = 3) with h | h | h | h <;> rw [h] <;> rfl
        rw [zero, List.getElem?_map, List.getElem?_range small] at entries
        exact Option.some.inj entries
      rw [Marked, word]
      simp
    refine ⟨a, rfl, ?_⟩
    rw [freePages, total, Finset.filter_true_of_mem fun j member => clear j (Finset.mem_range.mp member)]
    exact Finset.card_range 256

/-! ### Boot -/

theorem init_passes {v : Vm} (managed : Managed v.alloc) (enough : 19 ≤ v.alloc.freePages) :
    ∃ root v', Kvm.init v = .ok (root, v') ∧ v.alloc.freePages ≤ v'.alloc.freePages + 19 := by
  obtain ⟨n, v₁, first, grants, zeroed, count⟩ := allocZeroedPage_within managed (by omega)
  have fresh : Space v₁ n := (Builds.of_root (.refl managed) grants zeroed).1.space
  obtain ⟨v₂, regions, -, count₂⟩ := kernelRegions_within (fresh.wellFormed grants.managed) (by rw [regions_cost]; omega)
  rw [regions_cost] at count₂
  refine ⟨n * pageSize, v₂, ?_, by omega⟩
  rw [Kvm.init, first, ok_bind]
  dsimp only
  rw [mapRegions_boot, regions, ok_bind]
  rfl

/-- The default processes: init, and the UART server with its window. -/
theorem createProcesses_passes {k : Kernel} (spaces : Spaces (fun _ => true) k.vm k.roots)
    (enough : 52 ≤ k.vm.alloc.freePages) :
    ∃ k', createProcesses k = .ok k' ∧ k.vm.alloc.freePages ≤ k'.vm.alloc.freePages + 52 := by
  have cost := process_cost
  obtain ⟨k₁, init, count₁⟩ := createProcess_within 1 platform.userInit spaces.managed (by omega)
  have spaces₁ := createProcess_spaces spaces platform.programs_fit.1 (by decide) init
  obtain ⟨k₂, server, count₂⟩ := createProcess_within 2 platform.uartServer spaces₁.managed (by omega)
  have spaces₂ := createProcess_spaces spaces₁ platform.programs_fit.2.1 (by decide) server
  obtain ⟨satp, entry, sp, same⟩ := createProcess_creates server
  have live : (k₂.procs 2).state ≠ .free := by
    rw [same]
    simp only [Function.update_self]
    nofun
  have own := Core.roots_live (by decide) live
  have window : (Pte.new uartBase userMmio).isLeaf = true := isPermission_user.2.2.new_isLeaf (n := 0x10000) (by decide)
  obtain ⟨v, mapped, -, count₃⟩ := mapPage_within uartUserVa window
    ((spaces₂.space own).wellFormed spaces₂.managed) (by omega)
  refine ⟨{ k₂ with vm := v }, ?_, by change _ ≤ v.alloc.freePages + _; omega⟩
  rw [← satpToRoot_eq] at mapped
  have test : launchTest k = .ok k := rfl
  have rust : launchRust k = .ok k := rfl
  rw [createProcesses, test, ok_bind, rust, ok_bind, launchDefault]
  rw [if_neg (by decide), init, ok_bind, server, ok_bind, mapped, ok_bind]
  rfl

theorem boot_passes : ∃ k, boot environment = .ok k ∧ 185 ≤ k.vm.alloc.freePages := by
  obtain ⟨a, tested, free⟩ := selfTest_passes
  obtain ⟨a₀, created, passes⟩ := bind_ok tested
  have managed := selfTest_managed (pageAllocInit_managed created) passes
  obtain ⟨root, v, paged, count⟩ := init_passes (v := ⟨environment.mem, a⟩) managed (by change 19 ≤ a.freePages; omega)
  obtain ⟨k, launched, count'⟩ := createProcesses_passes (init_spaces environment managed paged)
    (by change 52 ≤ v.alloc.freePages; change a.freePages ≤ _ at count; omega)
  refine ⟨enterUser k environment.frame, ?_, ?_⟩
  · rw [boot, created, ok_bind, passes, ok_bind, paged, ok_bind]
    dsimp only
    rw [launched, ok_bind]
    rfl
  · change 185 ≤ k.vm.alloc.freePages
    change a.freePages ≤ _ at count
    change v.alloc.freePages ≤ _ at count'
    omega

/-! ### The first state -/

/-- What the boot path leaves open: where the two programs lie, and the memory behind them. -/
structure Setup where
  satp₁ : Word
  entry₁ : Word
  sp₁ : Word
  satp₂ : Word
  entry₂ : Word
  sp₂ : Word
  kernelSatp : Word
  ticks : Word
  vm : Vm
  plic : Plic
  /-- The stack page of PID 1. -/
  stack : Nat

def Setup.init (s : Setup) : Process := newProcess 1 0 s.satp₁ s.entry₁ s.sp₁

def Setup.server (s : Setup) : Process := newProcess 2 0 s.satp₂ s.entry₂ s.sp₂

/-- The state in which PID 1 starts: init runs and the UART server is ready. -/
def Setup.kernel (s : Setup) : Kernel where
  procs := Function.update (Function.update (fun _ => {}) 1 { s.init with state := .running }) 2 s.server
  currentPid := 1
  irqOwner _ := 0
  frame := { TrapFrame.zero with sepc := s.entry₁, sp := s.sp₁, sstatus := 0x20 }
  satp := s.satp₁
  kernelSatp := s.kernelSatp
  vm := s.vm
  ticks := s.ticks
  plic := s.plic
  net := none

/-- What is known of it. -/
structure Starts (s : Setup) : Prop where
  boots : boot environment = .ok s.kernel
  pages : 185 ≤ s.vm.alloc.freePages
  leaf : leafAt s.vm.mem (rootOf s.satp₁) (s.stack * pageSize) = some (.new (s.stack * pageSize) userRw)
  used : Used s.vm.alloc s.stack
  /-- PID 1 sees the kernel's ranges, but for allocated pages, where the kernel does. -/
  kernel : ∀ region ∈ kernelRegions, ∀ va, Covered region (vpn va) → ¬ Used s.vm.alloc (vpn va) →
    leafAt s.vm.mem (rootOf s.satp₁) va = some (.new (vpn va * pageSize) region.2.2)

theorem Starts.booted {s : Setup} (starts : Starts s) : Booted s.kernel := ⟨environment, nofun, starts.boots⟩

theorem exists_starts : ∃ s, Starts s := by
  obtain ⟨k, booted, pages⟩ := boot_passes
  have passes := booted
  rw [boot] at passes
  obtain ⟨a, created, passes⟩ := bind_ok passes
  obtain ⟨a', tested, passes⟩ := bind_ok passes
  obtain ⟨⟨root, v⟩, paged, passes⟩ := bind_ok passes
  obtain ⟨k', launched, passes⟩ := bind_ok passes
  cases passes
  obtain ⟨k₁, test, launched⟩ := bind_ok launched
  obtain ⟨k₂, rust, launched⟩ := bind_ok launched
  cases test
  cases rust
  rw [launchDefault, if_neg (by decide)] at launched
  obtain ⟨k₁, init, launched⟩ := bind_ok launched
  obtain ⟨k₂, server, launched⟩ := bind_ok launched
  obtain ⟨v', mapped, launched⟩ := bind_ok launched
  cases launched
  have spaces : Spaces (fun _ => true) (pagedKernel environment root v).vm (pagedKernel environment root v).roots :=
    init_spaces environment (selfTest_managed (pageAllocInit_managed created) tested) paged
  have spaces₁ := createProcess_spaces spaces platform.programs_fit.1 (by decide) init
  have spaces₂ := createProcess_spaces spaces₁ platform.programs_fit.2.1 (by decide) server
  obtain ⟨root₁, entry₁, stack, builds₁, -, taken, leaf, same₁⟩ :=
    createProcess_ok platform.programs_fit.1 spaces.managed init
  obtain ⟨root₂, entry₂, stack₂, builds₂, -, -, -, same₂⟩ :=
    createProcess_ok platform.programs_fit.2.1 spaces₁.managed server
  generalize sp₁Eq : BitVec.ofNat 64 (stack * pageSize + pageSize) = sp₁ at same₁
  generalize sp₂Eq : BitVec.ofNat 64 (stack₂ * pageSize + pageSize) = sp₂ at same₂
  generalize satp₁Eq : makeSatp (root₁ * pageSize) (BitVec.ofNat 16 1) = satp₁ at same₁
  generalize satp₂Eq : makeSatp (root₂ * pageSize) (BitVec.ofNat 16 2) = satp₂ at same₂
  have procs₁ : k₁.procs = Function.update (fun _ => {}) 1 (newProcess 1 0 satp₁ entry₁ sp₁) := by rw [same₁]; rfl
  have procs : k₂.procs = Function.update (Function.update (fun _ => {}) 1 (newProcess 1 0 satp₁ entry₁ sp₁)) 2
    (newProcess 2 0 satp₂ entry₂ sp₂) := by rw [same₂, ← procs₁]
  have slot : k₂.procs 1 = newProcess 1 0 satp₁ entry₁ sp₁ := by rw [procs]; rfl
  have rootEq : rootOf satp₁ = root₁ := by rw [← satp₁Eq, rootOf_makeSatp (builds_bound builds₁)]
  -- The second process and the window leave the tables of the first alone.
  have own₁ : k₁.roots 1 = some root₁ := by
    have live : (k₁.procs 1).state ≠ .free := by rw [procs₁]; nofun
    rw [Core.roots_live (by decide) live, procs₁, ← rootEq]
    rfl
  have own₂ : k₂.roots 1 = some root₁ := by
    have live : (k₂.procs 1).state ≠ .free := by rw [slot]; nofun
    rw [Core.roots_live (by decide) live, slot, ← rootEq]
    rfl
  have other : k₂.roots 2 = some (rootOf (k₂.procs 2).satp) :=
    Core.roots_live (by decide) (by rw [procs]; nofun)
  rw [satpToRoot_eq] at mapped
  have window : (Pte.new uartBase userMmio).isLeaf = true := isPermission_user.2.2.new_isLeaf (n := 0x10000) (by decide)
  obtain ⟨-, grown, -⟩ := mapPage_ok spaces₂.managed (spaces₂.space other) window mapped
  have same : ∀ va, leafAt v'.mem root₁ va = leafAt k₁.vm.mem root₁ va := fun va => by
    rw [leafAt_congr (spaces₂.other_tables other grown own₂ (by decide)),
      leafAt_congr (v := k₁.vm) fun x table => spaces₁.built_tables builds₂ x ⟨1, root₁, own₁, table⟩]
  have used : Used v'.alloc stack := grown.keeps _ (builds₂.keeps _ taken)
  refine ⟨⟨satp₁, entry₁, sp₁, satp₂, entry₂, sp₂, k₂.kernelSatp, k₂.ticks, v', k₂.plic, stack⟩,
    booted.trans (congrArg Except.ok ?_), pages, ?_, used, fun region member va covered free => ?_⟩
  · simp only [enterUser, Setup.kernel, Setup.init, Setup.server, slot, procs, Kernel.mk.injEq, Core.mk.injEq]
    have owners : k₂.irqOwner = fun _ => 0 := by rw [same₂, same₁]; rfl
    have net : k₂.net = none := by rw [same₂, same₁]; rfl
    refine ⟨⟨?_, trivial, owners, rfl, rfl, trivial⟩, trivial, trivial, trivial, net⟩
    rw [Function.update_comm (by decide), Function.update_idem, Function.update_comm (by decide)]
  · change leafAt v'.mem (rootOf satp₁) _ = _
    rw [rootEq, same, leaf]
  · change leafAt v'.mem (rootOf satp₁) _ = _
    have mapped := createProcess_kernel platform.programs_fit.1 spaces.managed init member covered fun used =>
      free (grown.keeps _ (builds₂.keeps _ used))
    have slot₁ : k₁.procs 1 = newProcess 1 0 satp₁ entry₁ sp₁ := by rw [procs₁]; rfl
    rw [slot₁] at mapped
    rw [rootEq, same, ← rootEq]
    exact mapped

/-- The setup this board boots into. -/
noncomputable def setup : Setup := exists_starts.choose

theorem starts : Starts setup := exists_starts.choose_spec

/-! ### Scripts -/

/-- One entry of a script: the program leaves these registers, or a trap is taken. -/
inductive Action where
  | user (f : TrapFrame)
  | ecall
  | timer
  | external (irq : Nat)

/-- Run a script for as long as the machine can follow it. User programs store nothing. -/
def follow (k : Kernel) : List Action → List (Label × Kernel)
  | [] => []
  | .user f :: rest =>
    if k.frame.spp || f.spp then [] else (.user, { k with frame := f }) :: follow { k with frame := f } rest
  | .ecall :: rest =>
    if k.frame.spp then []
    else match Trap.trapHandler k .ecall with
      | .ok k' => (.trap .ecall, k') :: follow k' rest
      | .error _ => []
  | .timer :: rest =>
    match Trap.trapHandler k .timer with
    | .ok k' => (.trap .timer, k') :: follow k' rest
    | .error _ => []
  | .external irq :: rest =>
    if k.plic.enabled irq then
      match Trap.trapHandler k (.external irq) with
      | .ok k' => (.trap (.external irq), k') :: follow k' rest
      | .error _ => []
    else []

theorem follow_linked (k : Kernel) (script : List Action) : Run.Linked Step k (follow k script) := by
  fun_induction follow k script with
  | case1 => trivial
  | case2 => trivial
  | case3 k f rest mode ih =>
    simp only [Bool.or_eq_true, not_or, Bool.not_eq_true] at mode
    exact ⟨.user (m := k.vm.mem) mode.1 mode.2 fun _ differ => absurd rfl differ, ih⟩
  | case4 => trivial
  | case5 k rest mode k' handled ih => exact ⟨.ecall (Bool.eq_false_of_not_eq_true mode) handled, ih⟩
  | case6 => trivial
  | case7 k rest k' handled ih => exact ⟨.timer handled, ih⟩
  | case8 => trivial
  | case9 k irq rest raised k' handled ih => exact ⟨.external (.inr raised) handled, ih⟩
  | case10 => trivial
  | case11 => trivial

/-- The run of a script. -/
noncomputable def script (actions : List Action) : MachineRun :=
  Run.ofTrace setup.kernel starts.booted (follow setup.kernel actions) (follow_linked setup.kernel actions)

/-- Registers of a program about to make a system call. -/
def calling (number : Nat) (a0 a1 : Word) : TrapFrame :=
  { TrapFrame.zero with a7 := BitVec.ofNat 64 number, a0 := a0, a1 := a1 }

/-- PID 1 calls PID 2, which receives the call and replies. -/
noncomputable def answeredRun : MachineRun :=
  script [.user (calling Trap.sysCallNo 2 7), .ecall, .user (calling Trap.sysReceiveNo 0 0), .ecall,
    .user (calling Trap.sysReplyNo 1 9), .ecall]

end GooseOs.Reference
