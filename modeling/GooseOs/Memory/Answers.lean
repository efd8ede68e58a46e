import GooseOs.Memory.Supply
import GooseOs.Memory.Isolation

/-!
SYS_SPAWN read forwards, from its checks to the state it leaves.
-/

namespace GooseOs
open Kvm Syscall Trap Security
variable [Platform] {k : Kernel}

/-- The checks SYS_SPAWN passed, and the image it loaded. -/
structure Spawns (k : Kernel) (info : Elf.ElfInfo) (pid : Nat) : Prop where
  size : isValidElfSize k.frame.a1.toNat = true
  parsed : Elf.parse ⟨k.frame.a1.toNat, fun off => loadByte k.satp k.vm.mem (k.frame.a0 + off)⟩ = .ok (.ok info)
  slot : firstFree k.procs = some pid

/-- A spawn that returns was refused, or passed its checks. -/
theorem sysSpawn_spawns {k' : Kernel} (h : sysSpawn k = .ok k') :
    k' = k.answer k.vm usizeMax ∨ ∃ info pid, Spawns k info pid := by
  unfold sysSpawn at h
  dsimp only at h
  split at h
  · cases h
    exact .inl rfl
  rename_i size
  obtain ⟨parsed, answer, h⟩ := bind_ok h
  split at h
  · cases h
    exact .inl rfl
  split at h
  · cases h
    exact .inl rfl
  rename_i pid slot
  exact .inr ⟨_, pid, passed size, answer, slot⟩

/-- The image load of SYS_SPAWN: a kernel load at an offset from the caller's pointer. -/
def callerLoad (k : Kernel) (m : Memory) (off : Word) : Result Byte := loadByte k.satp m (k.frame.a0 + off)

/-- What SYS_SPAWN makes of the parser's answer. -/
def spawnParsed (load : Memory → Word → Result Byte) (k : Kernel) : Except Elf.ElfError Elf.ElfInfo → Result Kernel
  | .error _ => .ok (k.answer k.vm usizeMax)
  | .ok info =>
    match firstFree k.procs with
    | none => .ok (k.answer k.vm usizeMax)
    | some pid => loadElf load info k.vm >>= fun built =>
      .ok ({ k.advance with
        procs := Function.update k.procs pid (newProcess pid k.currentPid (makeSatp built.1 (BitVec.ofNat 16 pid)) info.entry
          (BitVec.ofNat 64 (stackVa + pageSize)))
        vm := built.2 }.setA0 (BitVec.ofNat 64 pid))

/-- SYS_SPAWN with the image behind another load. -/
def sysSpawnWith (load : Memory → Word → Result Byte) (k : Kernel) : Result Kernel :=
  if isValidElfSize k.frame.a1.toNat then Elf.parse ⟨k.frame.a1.toNat, load k.vm.mem⟩ >>= spawnParsed load k
  else .ok (k.answer k.vm usizeMax)

theorem sysSpawn_with (k : Kernel) : sysSpawn k = sysSpawnWith (callerLoad k) k := by
  unfold sysSpawn sysSpawnWith
  dsimp only
  have same : k.advance.frame.a1.toNat = k.frame.a1.toNat := rfl
  rw [same]
  cases isValidElfSize k.frame.a1.toNat with
  | false => rfl
  | true =>
    change (Elf.parse ⟨k.frame.a1.toNat, callerLoad k k.vm.mem⟩ >>= _) = _
    refine congrArg (Elf.parse ⟨k.frame.a1.toNat, callerLoad k k.vm.mem⟩ >>= ·) (funext fun answer => ?_)
    cases answer with
    | error e => rfl
    | ok info =>
      have procs : firstFree k.advance.procs = firstFree k.procs := rfl
      dsimp only [spawnParsed]
      rw [procs]
      cases firstFree k.procs <;> rfl

/-- What is left of SYS_SPAWN once its checks are passed. -/
theorem sysSpawn_eq {info : Elf.ElfInfo} {pid : Nat} (spawns : Spawns k info pid) :
    sysSpawn k = loadElf (fun m off => loadByte k.satp m (k.frame.a0 + off)) info k.vm >>= fun built =>
      .ok ({ k.advance with
        procs := Function.update k.procs pid (newProcess pid k.currentPid (makeSatp built.1 (BitVec.ofNat 16 pid)) info.entry
          (BitVec.ofNat 64 (stackVa + pageSize)))
        vm := built.2 }.setA0 (BitVec.ofNat 64 pid)) := by
  have parsed : Elf.parse ⟨k.frame.a1.toNat, callerLoad k k.vm.mem⟩ = .ok (.ok info) := spawns.parsed
  rw [sysSpawn_with, sysSpawnWith, if_pos spawns.size, parsed, ok_bind, spawnParsed, spawns.slot]
  rfl

end GooseOs
