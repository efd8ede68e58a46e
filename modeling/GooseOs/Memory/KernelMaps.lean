import GooseOs.Machine.Spawning
import Mathlib.Logic.Relation

/-!
The kernel's mappings in a spawned process. `map_page` reduces an address modulo 2^39 and overwrites
whatever leaf is there, and SYS_SPAWN does not look at segment addresses: an image keeps the kernel's
mappings intact exactly when all its pages fall into the user range.
-/

namespace GooseOs
open Kvm Syscall Trap Security

section Law
variable [Platform]

/-- The table of process `pid` translates everything outside the user range as the bare kernel table
below `root₀` does, without the user bit, and its user mappings lie inside the range. -/
structure KernelMapsIntact (v₀ : Vm) (root₀ : Nat) (k : Kernel) (pid : Nat) : Prop where
  kernel : ∀ va, isUserVa va = false →
    translate k.vm.mem (k.procs pid).satp va = translate v₀.mem (makeSatp root₀ 0) va ∧
      ∀ w, translate k.vm.mem (k.procs pid).satp va = some w → w.flags.contains .user = false
  user : ∀ va w, translate k.vm.mem (k.procs pid).satp va = some w → w.flags.contains .user = true →
    isUserVa va = true

/-- SYS_MAP or SYS_UNMAP by process `pid` with any arguments. Between two calls the process-level
state may change in any way that leaves the process its table. -/
def MapCall (pid : Nat) (k k' : Kernel) : Prop :=
  ∃ c : Core, c.currentPid = pid ∧ (c.procs pid).satp = (k.procs pid).satp ∧
    (c.frame.a7.toNat = sysMapNo ∨ c.frame.a7.toNat = sysUnmapNo) ∧ handleEcall { k with toCore := c } = .ok k'

/-- Every page of every segment lies in the user range, as far as translation sees its address. -/
def PagesInRange (segments : List Elf.LoadSegment) : Prop :=
  ∀ seg ∈ segments, ∀ p, p < Elf.pagesNeeded seg.memsz seg.vaddr → isUserVa (segmentPage seg p % 2 ^ 39) = true

/-- The page numbers of the user range. -/
def UserVpn (w : Nat) : Prop := 0x50000 ≤ w ∧ w < 0x80000

section Addresses

omit [Platform] in
theorem isUserVa_vpn {va : Nat} : isUserVa (va % 2 ^ 39) = true ↔ UserVpn (vpn va) := by
  rw [isUserVa_iff]
  simp only [UserVpn, vpn, pageSize, userVaStart, userVaEnd]
  omega

omit [Platform] in
/-- A canonical address is in the user range exactly when its page number is. -/
theorem isUserVa_canonical {va : Nat} (canonical : va < 2 ^ 38 ∨ 2 ^ 64 - 2 ^ 38 ≤ va ∧ va < 2 ^ 64) :
    isUserVa va = true ↔ UserVpn (vpn va) := by
  rw [isUserVa_iff]
  simp only [UserVpn, vpn, pageSize, userVaStart, userVaEnd]
  omega

omit [Platform] in
theorem exists_canonical {w : Nat} (bound : w < 2 ^ 27) :
    ∃ va, (va < 2 ^ 38 ∨ 2 ^ 64 - 2 ^ 38 ≤ va ∧ va < 2 ^ 64) ∧ vpn va = w := by
  simp only [vpn, pageSize]
  by_cases low : w < 2 ^ 26
  · exact ⟨w * 4096, by omega, by omega⟩
  · exact ⟨2 ^ 64 - 2 ^ 39 + w * 4096, by omega, by omega⟩

end Addresses

/-- The leaves outside the user range are those of `v₀`, and user leaves lie inside it. -/
structure LeavesIntact (v₀ v : Vm) (root : Nat) : Prop where
  kernel : ∀ va, ¬ UserVpn (vpn va) → leafAt v.mem root va = leafAt v₀.mem root va
  user : ∀ va pte, leafAt v.mem root va = some pte → pte.user = true → UserVpn (vpn va)

/-- The table of process `pid` between its calls. -/
structure MapState (v₀ : Vm) (root pid : Nat) (k : Kernel) : Prop where
  managed : Managed k.vm.alloc
  table : rootOf (k.procs pid).satp = root
  space : Space k.vm root
  leaves : LeavesIntact v₀ k.vm root

section Calls
variable {v₀ : Vm} {root pid : Nat} {k k' : Kernel}

theorem MapState.intact (state : MapState v₀ root pid k) (bound : root < 2 ^ 44) :
    KernelMapsIntact v₀ (root * pageSize) k pid := by
  have user : ∀ va w, translate k.vm.mem (k.procs pid).satp va = some w → w.flags.contains .user = true →
      isUserVa va = true := by
    intro va w translated user
    obtain ⟨canonical, pte, leaf, flags⟩ := translate_some translated
    rw [state.table] at leaf
    exact (isUserVa_canonical canonical).mpr (state.leaves.user va pte leaf (by rw [Pte.user, ← flags, user]))
  refine ⟨fun va outside => ⟨?_, fun w translated => ?_⟩, user⟩
  · by_cases canonical : va < 2 ^ 38 ∨ 2 ^ 64 - 2 ^ 38 ≤ va ∧ va < 2 ^ 64
    · have away : ¬ UserVpn (vpn va) := by
        rw [← isUserVa_canonical canonical, outside]
        exact Bool.false_ne_true
      rw [translate_eq canonical, translate_eq canonical, state.table, rootOf_makeSatp bound,
        state.leaves.kernel va away]
    · rw [translate, translate, if_neg canonical, if_neg canonical]
  · by_contra mapped
    rw [user va w translated (by simpa using mapped)] at outside
    cases outside

omit [Platform] in
theorem LeavesIntact.change {v v' : Vm} {va₀ : Nat} {e : Option Pte} (leaves : LeavesIntact v₀ v root)
    (inside : UserVpn (vpn va₀))
    (changed : ∀ va, leafAt v'.mem root va = if vpn va = vpn va₀ then e else leafAt v.mem root va) :
    LeavesIntact v₀ v' root := by
  refine ⟨fun va outside => ?_, fun va pte leaf user => ?_⟩
  · have other : vpn va ≠ vpn va₀ := fun same => outside (same ▸ inside)
    rw [changed, if_neg other, leaves.kernel va outside]
  · rw [changed] at leaf
    split at leaf
    · rename_i same
      exact same ▸ inside
    · exact leaves.user va pte leaf user

omit [Platform] in
theorem userVpn_of_isUserVa {va : Nat} (user : isUserVa va = true) : UserVpn (vpn va) := by
  have range := isUserVa_iff.mp user
  simp only [userVaStart, userVaEnd] at range
  exact (isUserVa_canonical (by omega)).mp user

theorem MapState.call (state : MapState v₀ root pid k) (call : MapCall pid k k') : MapState v₀ root pid k' := by
  obtain ⟨c, current, table, number, handled⟩ := call
  have entry : rootOf ({ k with toCore := c } : Kernel).current.satp = root := by
    rw [Kernel.current, current, table, state.table]
  have effect : Effect { k with toCore := c } .ecall k' := by
    unfold handleEcall at handled
    rcases number with number | number <;> rw [number] at handled
    · exact sysMap_effect state.managed number handled
    · exact sysUnmap_effect number handled
  have procs : ∀ {v : Word}, k'.toCore = c.advance.setA0 v → rootOf (k'.procs pid).satp = root := by
    intro v core
    rw [core, ← current]
    exact entry
  have range : sysMapNo ≤ c.frame.a7.toNat ∧ c.frame.a7.toNat ≤ sysUnmapNo := by
    rcases number with number | number <;> rw [number] <;> decide
  have other : ∀ {n}, c.frame.a7.toNat = n → ¬ (sysMapNo ≤ n ∧ n ≤ sysUnmapNo) → False :=
    fun same outside => outside (same ▸ range)
  cases effect with
  | quiet alloc stores still failed =>
    have same : k'.vm = k.vm := still rfl fun call => other call (by decide)
    have core := failed rfl range.1 (Nat.le_trans range.2 (by decide))
    exact ⟨same ▸ state.managed, procs core, same ▸ state.space, same ▸ state.leaves⟩
  | map _ _ phys used passes mapped core =>
    rename_i n
    rw [entry] at mapped
    obtain ⟨permission, plain⟩ := user_permission c.frame.a2.toNat
    have bound := used_range state.managed used
    obtain ⟨space, grown, leaf⟩ := mapPage_ok state.managed state.space (permission.new_isLeaf (by omega)) mapped
    exact ⟨grown.managed, procs core, space, state.leaves.change (userVpn_of_isUserVa passes.user) leaf⟩
  | unmap _ _ va unmapped core =>
    rw [entry] at unmapped
    obtain ⟨space, grown, -, leaf⟩ := unmapPage_some state.managed state.space unmapped
    exact ⟨grown.managed, procs core, space, state.leaves.change (userVpn_of_isUserVa va) leaf⟩
  | grant _ grants => exact (other grants (by decide)).elim
  | release _ frees => exact (other frees (by decide)).elim
  | spawn _ spawns => exact (other spawns (by decide)).elim

theorem MapState.calls (state : MapState v₀ root pid k) (calls : Relation.ReflTransGen (MapCall pid) k k') :
    MapState v₀ root pid k' := by
  induction calls with
  | refl => exact state
  | tail _ call ih => exact ih.call call

end Calls

variable {k k' : Kernel} {info : Elf.ElfInfo} {pid : Nat}

/-- A spawn builds the bare kernel table first, and loads the image over it. -/
theorem sysSpawn_loads (managed : Managed k.vm.alloc) (spawns : Spawns k info pid) (h : sysSpawn k = .ok k') :
    ∃ root v₀, Kvm.init k.vm = .ok (root * pageSize, v₀) ∧ root < 2 ^ 44 ∧ Managed k'.vm.alloc ∧
      rootOf (k'.procs pid).satp = root ∧ Space k'.vm root ∧
      (∀ va pte, leafAt v₀.mem root va = some pte → pte.user = false) ∧
      UserLeaves v₀ k'.vm root fun w => SegmentPage info.segments w ∨ w = vpn stackVa := by
  rw [sysSpawn_eq spawns] at h
  obtain ⟨⟨userRoot, vm⟩, loaded, h⟩ := bind_ok h
  cases h
  obtain ⟨v₀, v₁, root, rfl, allocated, regions, builds, kernel, leaves⟩ := loadElf_ok (v := k.vm) managed loaded
  have bound := builds_bound builds
  refine ⟨root, v₁, ?_, bound, builds.managed, ?_, builds.space, kernel, leaves⟩
  · rw [Kvm.init, allocated]
    change (mapKernelRegions v₀ (root * pageSize) >>= fun v => pure (root * pageSize, v)) = _
    rw [regions]
    rfl
  · change rootOf (Function.update k.procs pid _ pid).satp = root
    rw [Function.update_self]
    exact rootOf_makeSatp bound

omit [Platform] in
theorem pagesInRange_of_user {v₀ v : Vm} {satp : Word} {segments : List Elf.LoadSegment}
    (leaves : UserLeaves v₀ v (rootOf satp) fun w => SegmentPage segments w ∨ w = vpn stackVa)
    (user : ∀ va w, translate v.mem satp va = some w → w.flags.contains .user = true → isUserVa va = true) :
    PagesInRange segments := by
  intro seg member p below
  by_contra outside
  rw [isUserVa_vpn] at outside
  obtain ⟨va, canonical, same⟩ := exists_canonical (w := vpn (segmentPage seg p)) (Nat.mod_lt _ (by decide))
  rcases leaves va with ⟨-, pte, leaf, plain⟩ | ⟨away, -⟩
  · have translated : translate v.mem satp va = _ := translate_eq canonical
    rw [leaf] at translated
    have mapped := user va _ translated plain
    rw [isUserVa_canonical canonical, same] at mapped
    exact outside mapped
  · exact away (Or.inl ⟨seg, member, p, below, same⟩)

/-- A spawn keeps the kernel's mappings, now and after any SYS_MAP and SYS_UNMAP of the new process,
exactly when all pages of its image lie in the user range. -/
theorem kernelMapsIntact_iff (r : MachineRun) {n : Nat} (bound : n ≤ r.len) (spawns : Spawns (r.state n) info pid)
    (h : sysSpawn (r.state n) = .ok k') :
    ∃ root₀ v₀, Kvm.init (r.state n).vm = .ok (root₀, v₀) ∧
      ((∀ k'', Relation.ReflTransGen (MapCall pid) k' k'' → KernelMapsIntact v₀ root₀ k'' pid) ↔
        PagesInRange info.segments) := by
  obtain ⟨root, v₀, built, low, managed, table, space, kernel, leaves⟩ :=
    sysSpawn_loads (r.managed bound) spawns h
  refine ⟨root * pageSize, v₀, built, fun intact => ?_, fun inside k'' calls => ?_⟩
  · subst table
    exact pagesInRange_of_user leaves (intact k' .refl).user
  · have within : ∀ w, SegmentPage info.segments w ∨ w = vpn stackVa → UserVpn w := by
      rintro w (⟨seg, member, p, below, rfl⟩ | rfl)
      · exact isUserVa_vpn.mp (inside seg member p below)
      · constructor <;> decide
    have state : MapState v₀ root pid k' := by
      refine ⟨managed, table, space, fun va outside => ?_, fun va pte leaf user => ?_⟩
      · rcases leaves va with ⟨page, -⟩ | ⟨-, kept⟩
        · exact absurd (within _ page) outside
        · exact kept
      · rcases leaves va with ⟨page, -⟩ | ⟨-, kept⟩
        · exact within _ page
        · rw [kept] at leaf
          rw [kernel va pte leaf] at user
          cases user
    exact (state.calls calls).intact low

end Law

section Reference
open Reference
attribute [local instance] Reference.platform

/-- PID 1 spawns an image with a page at the address of the UART. -/
theorem kernelMapsIntact_fails : ∃ (r : MachineRun) (n : Nat) (info : Elf.ElfInfo) (pid : Nat) (k' : Kernel),
    n ≤ r.len ∧ Spawns (r.state n) info pid ∧ sysSpawn (r.state n) = .ok k' ∧
      ∀ root₀ v₀, ¬ KernelMapsIntact v₀ root₀ k' pid := by
  have spawns : Spawns (askingRun.state 1) imageInfo 3 := imageVm_loads.spawns rfl rfl rfl rfl
  have passes : sysSpawn (askingRun.state 1) = .ok (spawned (askingRun.state 1) 3 children.satp children.vm) :=
    children_spawned.first _ rfl rfl rfl rfl
  refine ⟨askingRun, 1, imageInfo, 3, _, le_rfl, spawns, passes, fun root₀ v₀ intact => ?_⟩
  obtain ⟨root, v, -, -, -, table, -, -, leaves⟩ := sysSpawn_loads (askingRun.managed le_rfl) spawns passes
  subst table
  have inside := pagesInRange_of_user leaves intact.user _ (List.mem_singleton.mpr rfl) 0 (by decide)
  exact absurd inside (by decide)

theorem kernelMapsIntact_iff_spawned : ∃ root₀ v₀, Kvm.init (askingRun.state 1).vm = .ok (root₀, v₀) ∧
    ((∀ k'', Relation.ReflTransGen (MapCall 3) (spawned (askingRun.state 1) 3 children.satp children.vm) k'' →
      KernelMapsIntact v₀ root₀ k'' 3) ↔ PagesInRange imageInfo.segments) :=
  kernelMapsIntact_iff askingRun le_rfl (imageVm_loads.spawns rfl rfl rfl rfl) (children_spawned.first _ rfl rfl rfl rfl)

end Reference

end GooseOs
