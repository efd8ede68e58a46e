import GooseOs.Machine.Spawning

/-!
The reference board built with the network feature, and no card in it. It boots and runs as the
board without the feature does, until somebody calls the network server.
-/

namespace GooseOs
open Kvm Boot Syscall

/-- The same board with the network feature built in. -/
@[reducible] def Platform.withNet (p : Platform) : Platform := { p with net := true }

/-- The same state on that board. -/
def Kernel.withNet [p : Platform] (k : Kernel) : @Kernel p.withNet :=
  @Kernel.mk p.withNet k.toCore k.vm k.ticks k.plic k.net

section WithNet
variable [p : Platform] {k k' : Kernel}

theorem mapKernelRegions_withNet (v : Vm) (root : Nat) :
    @mapKernelRegions p.withNet v root = mapKernelRegions v root := rfl

theorem loadElf_withNet (load : Memory → Word → Result Byte) (info : Elf.ElfInfo) (v : Vm) :
    @loadElf p.withNet load info v = loadElf load info v := rfl

theorem createProcess_withNet {pid : Nat} {code : Nat × Nat} (h : createProcess k pid code = .ok k') :
    @createProcess p.withNet k.withNet pid code = .ok k'.withNet := by
  unfold createProcess at h
  obtain ⟨⟨userCode, v₁⟩, first, h⟩ := bind_ok h
  obtain ⟨⟨userStack, v₂⟩, second, h⟩ := bind_ok h
  obtain ⟨⟨userRoot, v₃⟩, third, h⟩ := bind_ok h
  obtain ⟨v₄, regions, h⟩ := bind_ok h
  obtain ⟨v₅, codeMapped, h⟩ := bind_ok h
  obtain ⟨v₆, stackMapped, h⟩ := bind_ok h
  cases h
  have memory : @Kernel.vm p.withNet k.withNet = k.vm := rfl
  rw [@createProcess.eq_1 p.withNet, memory, first, ok_bind]
  dsimp only at second third regions codeMapped stackMapped ⊢
  rw [second, ok_bind]
  dsimp only
  rw [third, ok_bind]
  dsimp only
  rw [mapKernelRegions_withNet, regions, ok_bind, codeMapped, ok_bind, stackMapped, ok_bind]
  rfl

/-- A build that starts the two default processes starts them with the feature as well. -/
theorem createProcesses_withNet (default : (Platform.securityTest || Platform.rustUser) = false)
    (h : createProcesses k = .ok k') : @createProcesses p.withNet k.withNet = .ok k'.withNet := by
  have off : Platform.securityTest = false ∧ Platform.rustUser = false := by simpa using default
  have test : ∀ [q : Platform] (l : Kernel), Platform.securityTest = false → launchTest l = .ok l := fun l off => by
    rw [launchTest, if_neg (by rw [off]; nofun)]
  have rust : ∀ [q : Platform] (l : Kernel), Platform.rustUser = false → launchRust l = .ok l := fun l off => by
    rw [launchRust, if_neg (by rw [off]; nofun)]
  rw [createProcesses, test k off.1, ok_bind, rust k off.2, ok_bind, launchDefault, if_neg (by rw [default]; nofun)] at h
  obtain ⟨k₁, init, h⟩ := bind_ok h
  obtain ⟨k₂, server, h⟩ := bind_ok h
  obtain ⟨v, mapped, h⟩ := bind_ok h
  cases h
  rw [@createProcesses.eq_1 p.withNet, test (q := p.withNet) k.withNet off.1, ok_bind, rust (q := p.withNet) k.withNet off.2, ok_bind,
    @launchDefault.eq_1 p.withNet, if_neg (by rw [show (p.withNet.securityTest || p.withNet.rustUser) = false from default]; nofun)]
  rw [show p.withNet.userInit = p.userInit from rfl, createProcess_withNet init, ok_bind]
  rw [show p.withNet.uartServer = p.uartServer from rfl, createProcess_withNet server, ok_bind]
  have memory : @Kernel.vm p.withNet k₂.withNet = k₂.vm := rfl
  have satp : ((@Kernel.toCore p.withNet k₂.withNet).procs 2).satp = (k₂.procs 2).satp := rfl
  rw [memory, satp, mapped, ok_bind]
  rfl

/-- With no card found, the feature changes nothing at boot. -/
theorem booted_withNet (default : (Platform.securityTest || Platform.rustUser) = false) (off : Platform.net = false)
    (booted : Booted k) : @Booted p.withNet k.withNet := by
  obtain ⟨env, -, h⟩ := booted
  rw [boot] at h
  obtain ⟨a, created, h⟩ := bind_ok h
  obtain ⟨a', tested, h⟩ := bind_ok h
  obtain ⟨⟨root, v⟩, paged, h⟩ := bind_ok h
  obtain ⟨k₁, launched, h⟩ := bind_ok h
  cases h
  have same : @pagedKernel p.withNet { env with netIrq := none } root v = (pagedKernel env root v).withNet := by
    have found : (if Platform.net then env.netIrq else none) = none := if_neg (by simp [off])
    unfold pagedKernel Kernel.withNet
    dsimp only
    rw [found]
    rfl
  refine ⟨{ env with netIrq := none }, fun irq found => (by cases found), ?_⟩
  have alloc : @pageAllocInit p.withNet = pageAllocInit := rfl
  have kvm : ∀ w, @Kvm.init p.withNet w = Kvm.init w := fun _ => rfl
  rw [@boot.eq_1 p.withNet, alloc, created, ok_bind, tested, ok_bind, kvm, paged, ok_bind]
  dsimp only
  rw [same, createProcesses_withNet default launched, ok_bind]
  rfl

theorem user_withNet (step : Step k .user k') : @Step p.withNet k.withNet .user k'.withNet := by
  cases step with
  | user mode after stores => exact @Step.user p.withNet k.withNet _ _ mode after stores

theorem sysSpawn_withNet {info : Elf.ElfInfo} {pid : Nat} (spawns : Spawns k info pid) (h : sysSpawn k = .ok k') :
    @sysSpawn p.withNet k.withNet = .ok k'.withNet := by
  have spawns' : @Spawns p.withNet k.withNet info pid :=
    @Spawns.mk p.withNet _ _ _ spawns.size spawns.parsed spawns.slot
  rw [sysSpawn_eq spawns] at h
  obtain ⟨⟨root, v⟩, loaded, h⟩ := bind_ok h
  cases h
  rw [@sysSpawn_eq p.withNet _ _ _ spawns', loadElf_withNet]
  change loadElf (fun m off => loadByte k.satp m (k.frame.a0 + off)) info k.vm >>= _ = _
  rw [loaded]
  rfl

end WithNet

end GooseOs
