import GooseOs.Machine.Scenarios
import GooseOs.Memory.Images

/-!
Spawns on the reference board: PID 1 writes an image into its stack page and spawns it.
-/

namespace GooseOs.Reference
open BitmapAllocator Kvm Boot Syscall Trap Security
attribute [local instance] platform

/-! ### The image -/

/-- An executable with one empty segment, a page at the address of the UART. -/
def image : Nat → Byte
  | 0 => 0x7F | 1 => 0x45 | 2 => 0x4C | 3 => 0x46
  | 4 => 2 | 5 => 1
  | 16 => 2 | 18 => 0xF3
  | 27 => 0x10
  | 32 => 64 | 54 => 56 | 56 => 1
  | 64 => 1 | 68 => 6
  | 83 => 0x10
  | 105 => 0x10
  | _ => 0

def imageInfo : Elf.ElfInfo := ⟨0x1000_0000, [⟨0, 0x1000_0000, 0, 0x1000, false⟩]⟩

/-- The image alone. -/
def imageFile : Elf.Image :=
  ⟨120, fun off => if off.toNat < 120 then .ok (image off.toNat) else .error .kernelException⟩

theorem parse_image : Elf.parse imageFile = .ok (.ok imageInfo) := by decide +kernel

theorem image_demand : demand imageInfo.segments ≤ 43 := demand_le imageInfo.segments

theorem image_copied {off : Word} : ¬ Copied imageInfo.segments off := by
  rintro ⟨seg, member, p, below, i, inside, -⟩
  rw [List.mem_singleton.mp member] at below inside
  have first : p < 1 := below
  obtain rfl : p = 0 := by omega
  exact absurd inside (Nat.not_lt_zero i)

/-- The image in page `page`. -/
def stored (m : Memory) (page : Nat) : Memory := fun x => if x / pageSize = page then image (x % pageSize) else m x

/-- PID 1's stack page holds the image. -/
structure Loads (v : Vm) : Prop where
  managed : Managed v.alloc
  used : Used v.alloc setup.stack
  tables : ∀ n, IsTable v rootOf₁ n → Used v.alloc n
  leaf : leafAt v.mem rootOf₁ (setup.stack * pageSize) = some (.new (setup.stack * pageSize) userRw)
  bytes : ∀ x, x / pageSize = setup.stack → v.mem x = image (x % pageSize)

/-- A file in page `page`. -/
def placed (file : Nat → Byte) (m : Memory) (page : Nat) : Memory :=
  fun x => if x / pageSize = page then file (x % pageSize) else m x

/-- The memory of PID 1 with a file in its stack page. -/
noncomputable def placedVm (file : Nat → Byte) : Vm := { setup.vm with mem := placed file setup.vm.mem setup.stack }

/-- PID 1's stack page holds the file. -/
structure HasFile (file : Nat → Byte) (v : Vm) : Prop where
  managed : Managed v.alloc
  used : Used v.alloc setup.stack
  tables : ∀ n, IsTable v rootOf₁ n → Used v.alloc n
  leaf : leafAt v.mem rootOf₁ (setup.stack * pageSize) = some (.new (setup.stack * pageSize) userRw)
  bytes : ∀ x, x / pageSize = setup.stack → v.mem x = file (x % pageSize)

section Stack
variable {v : Vm} {m : Memory} {x : Nat}

/-- An address inside the stack page is mapped to itself. -/
theorem translate_stack (managed : Managed v.alloc) (used : Used v.alloc setup.stack)
    (leaf : leafAt m rootOf₁ (setup.stack * pageSize) = some (.new (setup.stack * pageSize) userRw))
    (inside : x / pageSize = setup.stack) : translate m setup.satp₁ x = some ⟨x, userRw⟩ := by
  have range := used_range managed used
  have same : vpn x = vpn (setup.stack * pageSize) := by
    simp only [vpn, pageSize] at *
    omega
  obtain ⟨path, index⟩ := vaParts_iff.mpr same
  rw [leafAt, ← path, ← index] at leaf
  have bound : setup.stack < 2 ^ 52 := by omega
  have small : userRw.bits.toNat < 1024 := by decide
  rw [translate_eq (Or.inl (by simp only [pageSize] at *; omega)), leafAt, leaf, Option.map_some,
    Pte.new_physAddr bound small, Pte.new_flags bound small]
  congr 2
  simp only [pageSize] at *
  omega

/-- The stack page is none of PID 1's tables. -/
theorem placed_tables (file : Nat → Byte) (spaces : Spaces (fun _ => true) setup.vm setup.kernel.roots) :
    ∀ x, IsTable setup.vm rootOf₁ (x / pageSize) → (placedVm file).mem x = setup.vm.mem x := by
  have known := starts
  have bound : setup.stack < 2 ^ 52 := by
    have := used_range spaces.managed known.used
    omega
  have small : userRw.bits.toNat < 1024 := by decide
  have page : (Pte.new (setup.stack * pageSize) userRw).page = setup.stack := Pte.new_page bound small
  have user : (Pte.new (setup.stack * pageSize) userRw).user = true := by
    rw [Pte.user, Pte.new_flags bound small]
    decide
  have plain : ¬ IsTable setup.vm rootOf₁ setup.stack := page ▸ spaces.guarded own₁ known.leaf user rfl own₁
  intro x table
  refine if_neg ?_
  rintro inside
  exact plain (inside ▸ table)

theorem placed_hasFile (file : Nat → Byte) (spaces : Spaces (fun _ => true) setup.vm setup.kernel.roots) :
    HasFile file (placedVm file) := by
  have same := placed_tables file spaces
  refine ⟨spaces.managed, starts.used, fun n table => ?_, ?_, fun x inside => if_pos inside⟩
  · exact (spaces.space own₁).used n ((isTable_congr (v := setup.vm) same).mp table)
  · exact (leafAt_congr same _).trans starts.leaf

/-- What leaves the used pages alone leaves the file where it is. -/
theorem HasFile.keeps {v' : Vm} {file : Nat → Byte} (hasFile : HasFile file v) (managed : Managed v'.alloc)
    (keeps : ∀ n, Used v.alloc n → Used v'.alloc n) (same : ∀ x, Used v.alloc (x / pageSize) → v'.mem x = v.mem x) :
    HasFile file v' := by
  have tables : ∀ x, IsTable v rootOf₁ (x / pageSize) → v'.mem x = v.mem x := fun x table =>
    same x (hasFile.tables _ table)
  refine ⟨managed, keeps _ hasFile.used, fun n table => ?_, ?_, fun x inside => ?_⟩
  · exact keeps n (hasFile.tables n ((isTable_congr tables).mp table))
  · rw [leafAt_congr tables]
    exact hasFile.leaf
  · rw [same x (inside ▸ hasFile.used)]
    exact hasFile.bytes x inside

theorem HasFile.load {file : Nat → Byte} {off : Word} (hasFile : HasFile file v) (low : off.toNat < pageSize) :
    loadByte setup.satp₁ v.mem (pageArg setup.stack + off) = .ok (file off.toNat) := by
  have arg := pageArg_toNat hasFile.managed hasFile.used
  have range := used_range hasFile.managed hasFile.used
  have place : (pageArg setup.stack + off).toNat = setup.stack * pageSize + off.toNat := by
    rw [BitVec.toNat_add, arg]
    simp only [pageSize] at *
    omega
  have inside : (setup.stack * pageSize + off.toNat) / pageSize = setup.stack := by
    simp only [pageSize] at *
    omega
  have offset : (setup.stack * pageSize + off.toNat) % pageSize = off.toNat := by
    simp only [pageSize] at *
    omega
  have read : userRw.contains .read = true := by decide
  rw [loadByte, place, translate_stack hasFile.managed hasFile.used hasFile.leaf inside]
  dsimp only
  rw [if_pos read, hasFile.bytes _ inside, offset]

theorem Loads.hasFile (loads : Loads v) : HasFile image v :=
  ⟨loads.managed, loads.used, loads.tables, loads.leaf, loads.bytes⟩

theorem HasFile.loads (hasFile : HasFile image v) : Loads v :=
  ⟨hasFile.managed, hasFile.used, hasFile.tables, hasFile.leaf, hasFile.bytes⟩

theorem Loads.keeps {v' : Vm} (loads : Loads v) (managed : Managed v'.alloc)
    (keeps : ∀ n, Used v.alloc n → Used v'.alloc n)
    (same : ∀ x, Used v.alloc (x / pageSize) → v'.mem x = v.mem x) : Loads v' :=
  (loads.hasFile.keeps managed keeps same).loads

theorem Loads.built {v' : Vm} {root : Nat} (loads : Loads v) (builds : Builds v v' root) : Loads v' := by
  refine loads.keeps builds.managed builds.keeps fun x used => ?_
  by_contra differ
  exact (builds.frame x differ).1 used

/-- The image as PID 1 passes it to SYS_SPAWN. -/
noncomputable def spawnCall : TrapFrame := calling sysSpawnNo (pageArg setup.stack) 120

theorem Loads.load (loads : Loads v) (off : Word) :
    Follows (imageFile.load off) (loadByte setup.satp₁ v.mem (pageArg setup.stack + off)) := by
  intro b found
  rw [imageFile] at found
  dsimp only at found
  split at found
  · rw [loads.hasFile.load (by simp only [pageSize]; omega), found]
  · cases found

theorem Loads.spawns (loads : Loads v) {k : Kernel} {pid : Nat} (memory : k.vm = v) (satp : k.satp = setup.satp₁)
    (call : k.frame = spawnCall) (slot : firstFree k.procs = some pid) : Spawns k imageInfo pid := by
  refine ⟨?_, ?_, slot⟩
  · rw [call]
    exact (by decide : isValidElfSize (120 : Word).toNat = true)
  · have len : spawnCall.a1.toNat = imageFile.len := by
      have a1 : spawnCall.a1 = 120 := rfl
      rw [a1]
      decide
    have ptr : spawnCall.a0 = pageArg setup.stack := rfl
    rw [memory, satp, call, len, ptr]
    have follows : Follows (Elf.parse imageFile)
        (Elf.parse ⟨imageFile.len, fun off => loadByte setup.satp₁ v.mem (pageArg setup.stack + off)⟩) := by
      refine Elf.parse_follows (Eq.refl imageFile.len) fun off => ?_
      dsimp only
      exact loads.load off
    exact follows _ parse_image

/-- A spawned process, with the rest of its caller's kernel. -/
def spawned (k : Kernel) (pid : Nat) (satp : Word) (v : Vm) : Kernel :=
  { k.advance with
    procs := Function.update k.procs pid (newProcess pid k.currentPid satp imageInfo.entry
      (BitVec.ofNat 64 (stackVa + pageSize)))
    vm := v }.setA0 (BitVec.ofNat 64 pid)

theorem Loads.spawn_passes (loads : Loads v) (enough : 43 ≤ v.alloc.freePages) (pid : Nat) :
    ∃ satp v', Loads v' ∧ v.alloc.freePages ≤ v'.alloc.freePages + 43 ∧ ∀ k : Kernel, k.vm = v → k.satp = setup.satp₁ →
      k.frame = spawnCall → firstFree k.procs = some pid → sysSpawn k = .ok (spawned k pid satp v') := by
  have demand := image_demand
  obtain ⟨userRoot, v', loaded, count⟩ | ⟨-, short⟩ := loadElf_spends
    (fun m off => loadByte setup.satp₁ m (pageArg setup.stack + off)) imageInfo loads.managed fun off copied => absurd copied image_copied
  · obtain ⟨v₀, v₁, n, rfl, -, -, builds, -, -⟩ := loadElf_ok loads.managed loaded
    refine ⟨makeSatp (n * pageSize) (BitVec.ofNat 16 pid), v', loads.built builds, by omega,
      fun k memory satp call slot => ?_⟩
    have spawns := loads.spawns memory satp call slot
    subst memory
    rw [sysSpawn_eq spawns, satp, call, show spawnCall.a0 = pageArg setup.stack from rfl, loaded]
    rfl
  · omega

end Stack

/-! ### PID 1 and its children -/

/-- Memory with the image stored. -/
noncomputable def imageVm : Vm := { setup.vm with mem := stored setup.vm.mem setup.stack }

theorem imageVm_loads : Loads imageVm := (placed_hasFile image (booted_spaces starts.booted)).loads

theorem placed_step (file : Nat → Byte) {f : TrapFrame} (mode : f.spp = false) :
    Step setup.kernel .user (running (placedVm file) f) := by
  refine .user (k := setup.kernel) (f := f) (m := (placedVm file).mem) rfl mode fun pa differ => ?_
  have inside : pa / pageSize = setup.stack := by
    by_contra outside
    exact differ (if_neg outside)
  have spaces : Spaces (fun _ => true) setup.vm setup.kernel.roots := booted_spaces starts.booted
  have allowed : userRw.contains .user = true ∧ userRw.contains .write = true := by decide
  exact ⟨pa, _, translate_stack (v := setup.vm) spaces.managed starts.used starts.leaf inside, allowed.1, allowed.2, rfl⟩

theorem image_step : Step setup.kernel .user (running imageVm spawnCall) := placed_step image (calling_mode ..)

noncomputable def askingRun : MachineRun :=
  Run.ofTrace setup.kernel starts.booted [(.user, running imageVm spawnCall)] ⟨image_step, trivial⟩

/-- Two processes spawned from the image, one after the other: their tables, and memory with them. -/
structure Children where
  satp : Word
  vm : Vm
  satp' : Word
  vm' : Vm

structure Children.Spawned (c : Children) : Prop where
  first : ∀ k : Kernel, k.vm = imageVm → k.satp = setup.satp₁ → k.frame = spawnCall → firstFree k.procs = some 3 →
    sysSpawn k = .ok (spawned k 3 c.satp c.vm)
  second : ∀ k : Kernel, k.vm = c.vm → k.satp = setup.satp₁ → k.frame = spawnCall → firstFree k.procs = some 3 →
    sysSpawn k = .ok (spawned k 3 c.satp' c.vm')

theorem exists_children : ∃ c : Children, c.Spawned := by
  have pages : 185 ≤ imageVm.alloc.freePages := starts.pages
  obtain ⟨satp, vm, loads, count, first⟩ := imageVm_loads.spawn_passes (by omega) 3
  obtain ⟨satp', vm', -, -, second⟩ := loads.spawn_passes (by omega) 3
  exact ⟨⟨satp, vm, satp', vm'⟩, first, second⟩

noncomputable def children : Children := exists_children.choose

theorem children_spawned : children.Spawned := exists_children.choose_spec

/-- PID 1 has spawned its child. -/
noncomputable def parentKernel : Kernel := spawned (running imageVm spawnCall) 3 children.satp children.vm

theorem parent_step : Step (running imageVm spawnCall) (.trap .ecall) parentKernel := by
  have passes : sysSpawn (running imageVm spawnCall) = .ok parentKernel := children_spawned.first _ rfl rfl rfl rfl
  have number : (running imageVm spawnCall).frame.a7.toNat = sysSpawnNo := calling_number _ (by decide) ..
  refine .ecall (calling_mode ..) ?_
  rw [trapHandler, handleEcall, number]
  exact passes

/-- The run of a script after the spawn. -/
noncomputable def spawnScript (actions : List Action) : MachineRun :=
  Run.ofTrace setup.kernel starts.booted
    ((.user, running imageVm spawnCall) :: (.trap .ecall, parentKernel) :: follow parentKernel actions)
    ⟨image_step, parent_step, follow_linked parentKernel actions⟩

end GooseOs.Reference
