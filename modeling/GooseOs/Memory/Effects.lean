import GooseOs.Memory.Spaces
import GooseOs.Process.Consistency

/-!
What each trap does to memory: SYS_MAP, SYS_UNMAP, SYS_ALLOC_PAGES, SYS_FREE_PAGES and SYS_SPAWN
change the allocator or the tables; every other trap at most stores bytes through the writable user
leaves of some process.
-/

namespace GooseOs
open Kvm
variable [Platform]

/-- The root page number in a `satp` value. -/
def rootOf (satp : Word) : Nat := (satp &&& 0x0000_0FFF_FFFF_FFFF).toNat

omit [Platform] in
theorem satpToRoot_eq (satp : Word) : satpToRoot satp = rootOf satp * pageSize := by
  have bound : (satp &&& 0x0000_0FFF_FFFF_FFFF).toNat < 2 ^ 44 := by
    rw [BitVec.toNat_and]
    exact Nat.lt_of_le_of_lt Nat.and_le_right (by decide)
  rw [satpToRoot, rootOf, BitVec.toNat_shiftLeft, Nat.shiftLeft_eq]
  simp only [pageSize]
  omega

omit [Platform] in
theorem rootOf_makeSatp {n : Nat} {asid : BitVec 16} (bound : n < 2 ^ 44) :
    rootOf (makeSatp (n * pageSize) asid) = n := by
  have root : satpToRoot (makeSatp (n * pageSize) asid) = n * pageSize := satpToRoot_makeSatp bound
  rw [satpToRoot_eq] at root
  exact Nat.eq_of_mul_eq_mul_right (by decide) root

omit [Platform] in
theorem translate_eq {m : Memory} {satp : Word} {va : Nat}
    (canonical : va < 2 ^ 38 ∨ 2 ^ 64 - 2 ^ 38 ≤ va ∧ va < 2 ^ 64) :
    translate m satp va =
      (leafAt m (rootOf satp) va).map fun pte => ⟨pte.physAddr + va % pageSize, pte.flags⟩ := by
  rw [translate, if_pos canonical, satpToRoot_eq, walk_eq]

omit [Platform] in
theorem translate_some {m : Memory} {satp : Word} {va : Nat} {w : WalkResult}
    (translated : translate m satp va = some w) :
    (va < 2 ^ 38 ∨ 2 ^ 64 - 2 ^ 38 ≤ va ∧ va < 2 ^ 64) ∧
      ∃ pte, leafAt m (rootOf satp) va = some pte ∧ w.flags = pte.flags := by
  by_cases canonical : va < 2 ^ 38 ∨ 2 ^ 64 - 2 ^ 38 ≤ va ∧ va < 2 ^ 64
  · rw [translate_eq canonical, Option.map_eq_some_iff] at translated
    obtain ⟨pte, leaf, rfl⟩ := translated
    exact ⟨canonical, pte, leaf, rfl⟩
  · rw [translate, if_neg canonical] at translated
    cases translated

/-- The roots in use: the kernel's under 0, and one for every live process. -/
def Core.roots (c : Core) (o : Nat) : Option Nat :=
  if o = 0 then some (rootOf c.kernelSatp)
  else if (c.procs o).state = .free then none
  else some (rootOf (c.procs o).satp)

omit [Platform] in
theorem Core.roots_live {c : Core} {o : Nat} (other : o ≠ 0) (live : (c.procs o).state ≠ .free) :
    c.roots o = some (rootOf (c.procs o).satp) := by
  rw [roots, if_neg other, if_neg live]

/-- Bytes stored through writable user leaves of the owners in `who`. -/
structure Stores (v v' : Vm) (roots : Nat → Option Nat) (who : Nat → Prop) : Prop where
  alloc : v'.alloc = v.alloc
  bytes : ∀ x, v'.mem x ≠ v.mem x → ∃ o root va pte, who o ∧ roots o = some root ∧
    leafAt v.mem root va = some pte ∧ pte.user = true ∧ pte.writable = true ∧ pte.page = x / pageSize

/-- A guard that covers the writable leaves. -/
def GuardsWrites (guard : Pte → Bool) : Prop := ∀ pte : Pte, pte.writable = true → guard pte = true

namespace Stores
variable {guard : Pte → Bool} {v v' v'' : Vm} {roots : Nat → Option Nat} {who : Nat → Prop}

omit [Platform] in
theorem of_eq (same : v' = v) : Stores v v' roots who := by
  subst same
  exact ⟨rfl, fun _ differ => absurd rfl differ⟩

theorem tabled (guards : GuardsWrites guard) (spaces : Spaces guard v roots) (stores : Stores v v' roots who) (x : Nat)
    (table : Tabled v roots (x / pageSize)) : v'.mem x = v.mem x := by
  by_contra differ
  obtain ⟨o, root, va, pte, -, own, leaf, user, write, page⟩ := stores.bytes x differ
  obtain ⟨o', root', own', table⟩ := table
  exact spaces.guarded own leaf user (guards pte write) own' (page ▸ table)

theorem sameTables (guards : GuardsWrites guard) (spaces : Spaces guard v roots)
    (stores : Stores v v' roots who) : SameTables v v' roots :=
  Spaces.sameTables_of_mem (stores.tabled guards spaces)

theorem spaces (guards : GuardsWrites guard) (spaces : Spaces guard v roots)
    (stores : Stores v v' roots who) : Spaces guard v' roots :=
  spaces.frame (stores.alloc ▸ spaces.managed) (fun _ used _ => stores.alloc ▸ used) (stores.tabled guards spaces)

theorem trans (guards : GuardsWrites guard) (spaces : Spaces guard v roots) (first : Stores v v' roots who)
    (second : Stores v' v'' roots who) :
    Stores v v'' roots who := by
  refine ⟨second.alloc.trans first.alloc, fun x differ => ?_⟩
  by_cases later : v''.mem x = v'.mem x
  · exact first.bytes x (later ▸ differ)
  · obtain ⟨o, root, va, pte, chosen, own, leaf, rest⟩ := second.bytes x later
    rw [(first.sameTables guards spaces).leaves va own] at leaf
    exact ⟨o, root, va, pte, chosen, own, leaf, rest⟩

end Stores

namespace Kvm
variable {m m' : Memory} {satp : Word}

omit [Platform] in
theorem writeChunks_apply {chunks : List Chunk} {src : List Byte} {x : Nat}
    (outside : ∀ c ∈ chunks, x < c.pa ∨ c.pa + c.len ≤ x) : writeChunks m chunks src x = m x := by
  induction chunks generalizing m src with
  | nil => rfl
  | cons c chunks ih =>
    rw [writeChunks, ih fun c' member => outside c' (List.mem_cons_of_mem _ member),
      Memory.writeBytes_apply_outside]
    have short : (src.take c.len).length ≤ c.len := List.length_take_le _ _
    have apart := outside c (List.mem_cons_self ..)
    omega

omit [Platform] in
/-- The bytes behind a translated address lie in the page of its leaf. -/
theorem walk_leaf {root va : Nat} {w : WalkResult} (walked : walk (root * pageSize) va m.read64 = some w) :
    ∃ pte, leafAt m root va = some pte ∧ w.flags = pte.flags ∧ w.phys = pte.page * pageSize + va % pageSize := by
  rw [walk_eq, Option.map_eq_some_iff] at walked
  obtain ⟨pte, leaf, rfl⟩ := walked
  exact ⟨pte, leaf, rfl, by rw [Pte.physAddr_eq]⟩

omit [Platform] in
theorem chunk_inside (va : Nat) {len : Nat} (short : len ≤ bytesToPageEnd va) : va % pageSize + len ≤ pageSize := by
  have offset : bytesToPageEnd va = 4096 - va % pageSize := by
    rw [bytesToPageEnd, ← vaParts_offset]
    rfl
  have small : va % pageSize < pageSize := Nat.mod_lt _ (by decide)
  simp only [pageSize] at *
  omega

/-- Every chunk of a validated write range lies in the page of a writable user leaf. -/
theorem walkChunks_spec {root userVa total left done : Nat} {chunks : List Chunk}
    (h : walkChunks m (root * pageSize) userVa total true left done = some chunks) :
    ∀ c ∈ chunks, ∃ va pte, leafAt m root va = some pte ∧ pte.user = true ∧ pte.writable = true ∧
      pte.page * pageSize ≤ c.pa ∧ c.pa + c.len ≤ pte.page * pageSize + pageSize := by
  induction left generalizing done chunks with
  | zero =>
    rw [walkChunks] at h
    split at h
    · cases h
    · cases h
      nofun
  | succ left ih =>
    rw [walkChunks] at h
    split at h
    · dsimp only at h
      split at h
      · cases h
      obtain ⟨w, walked, h⟩ := Option.bind_eq_some_iff.mp h
      split at h
      · cases h
      rename_i user
      split at h
      · cases h
      rename_i write
      split at h
      · cases h
      obtain ⟨rest, walkedRest, h⟩ := Option.bind_eq_some_iff.mp h
      cases h
      intro c member
      rcases List.mem_cons.mp member with rfl | later
      · obtain ⟨pte, leaf, flags, phys⟩ := walk_leaf walked
        refine ⟨_, pte, leaf, ?_, ?_, ?_, ?_⟩
        · simpa [Pte.user, flags] using user
        · simpa [Pte.writable, flags] using write
        · dsimp only
          rw [phys]
          exact Nat.le_add_right ..
        · dsimp only
          rw [phys, Nat.add_assoc]
          exact Nat.add_le_add_left (chunk_inside _ (Nat.min_le_left ..)) _
      · exact ih walkedRest c later
    · cases h
      nofun

/-- A copy to the user writes through writable user leaves of the table it is given. -/
theorem copyToUser_bytes {userVa : Nat} {src : List Byte} (h : copyToUser m satp userVa src = some m') {x : Nat}
    (differ : m' x ≠ m x) : ∃ va pte, leafAt m (rootOf satp) va = some pte ∧ pte.user = true ∧
      pte.writable = true ∧ pte.page = x / pageSize := by
  unfold copyToUser at h
  split at h
  · cases h
    exact absurd rfl differ
  obtain ⟨chunks, walked, rfl⟩ := Option.map_eq_some_iff.mp h
  rw [walkUserRange, satpToRoot_eq] at walked
  have inside : ∃ c ∈ chunks, ¬ (x < c.pa ∨ c.pa + c.len ≤ x) := by
    by_contra none
    refine differ (writeChunks_apply fun c member => ?_)
    by_contra inside
    exact none ⟨c, member, inside⟩
  obtain ⟨c, member, inside⟩ := inside
  obtain ⟨va, pte, leaf, user, write, lower, upper⟩ := walkChunks_spec walked c member
  exact ⟨va, pte, leaf, user, write, (page_inside (by omega) (by omega)).symm⟩

end Kvm

/-! ### Network delivery -/

namespace NetServer
variable {guard : Pte → Bool} {k k' : Kernel} {v : Vm} {n : Net} {roots : Nat → Option Nat} {who : Nat → Prop}

theorem deliver_stores {satp : Word} {bufVa o : Nat} {bytes : List Byte} (entry : k.vm = v) (chosen : who o)
    (own : roots o = some (rootOf satp)) : Stores v (deliver k satp bufVa bytes).1.vm roots who := by
  subst entry
  unfold deliver
  split
  · rename_i mem copied
    refine ⟨rfl, fun x differ => ?_⟩
    obtain ⟨va, pte, leaf, rest⟩ := copyToUser_bytes copied differ
    exact ⟨o, _, va, pte, chosen, own, leaf, rest⟩
  · exact .of_eq rfl

/-- A network request stores through the caller's table only. -/
theorem handleRequest_stores {o : Nat} (chosen : who o) (own : roots o = some (rootOf k.currentSatp))
    (h : handleRequest k = .ok k') : Stores k.vm k'.vm roots who := by
  cases handleRequest_ok h with
  | answered net v done => exact .of_eq (by rw [done]; rfl)
  | delivered net bytes recv space staged done =>
    rw [done]
    exact deliver_stores (k := { k.advance with net := some net }) rfl chosen own
  | parked net op socket bufVa bufLen c waits staged scheduled done => exact .of_eq (by rw [done]; rfl)

theorem wakeOne_stores {pid : Nat} (own : (k.procs pid).state = .blockedNet → roots pid = some (rootOf (k.procs pid).satp))
    (h : wakeOne k pid = .ok k') : Stores k.vm k'.vm roots fun _ => True := by
  have turned := wakeOne_turned k pid
  rw [h] at turned
  cases turned with
  | left => exact .of_eq rfl
  | ended => exact .of_eq rfl
  | delivered net bytes blocked => exact deliver_stores (k := { k with net := some net }) rfl trivial (own blocked)

/-- The roots of the processes a poll may wake. -/
def RootsOf (c : Core) (roots : Nat → Option Nat) : Prop :=
  ∀ pid, (c.procs pid).state = .blockedNet → roots pid = some (rootOf (c.procs pid).satp)

omit [Platform] in
theorem rootsOf_polled {c c' : Core} (named : RootsOf c roots) (polled : Slot.PolledCore c c') : RootsOf c' roots := by
  obtain ⟨procs, rfl, woken⟩ := polled
  intro pid blocked
  rcases woken pid with unchanged | ⟨-, v, changed⟩
  · simp only [unchanged] at blocked ⊢
    exact named pid blocked
  · simp only [changed] at blocked
    cases blocked

theorem wakeBlocked_stores (guards : GuardsWrites guard) (spaces : Spaces guard k.vm roots)
    (named : RootsOf k.toCore roots) (h : wakeBlocked k = .ok k') :
    Stores k.vm k'.vm roots fun _ => True := by
  have scan : ∀ (pids : List Nat) (k k' : Kernel), Spaces guard k.vm roots → RootsOf k.toCore roots →
      pids.foldlM wakeOne k = .ok k' → Stores k.vm k'.vm roots fun _ => True := by
    intro pids
    induction pids with
    | nil =>
      intro k k' _ _ h
      cases h
      exact .of_eq rfl
    | cons pid pids ih =>
      intro k k' spaces named h
      rw [List.foldlM_cons] at h
      obtain ⟨k₁, first, rest⟩ := bind_ok h
      have stores := wakeOne_stores (named pid) first
      exact stores.trans guards spaces (ih k₁ k' (stores.spaces guards spaces) (rootsOf_polled named (Slot.wakeOne_polled first)) rest)
  exact scan pids k k' spaces named h

theorem pollAndWake_stores (guards : GuardsWrites guard) (spaces : Spaces guard k.vm roots)
    (named : RootsOf k.toCore roots)
    (h : pollAndWake k n = .ok k') : Stores k.vm k'.vm roots fun _ => True :=
  wakeBlocked_stores (k := { k with net := some (poll n (nowMs k)) }) guards spaces named h

theorem wakeOne_alloc {pid : Nat} (h : wakeOne k pid = .ok k') : k'.vm.alloc = k.vm.alloc := by
  have stores : Stores k.vm k'.vm (fun _ => some (rootOf (k.procs pid).satp)) fun _ => True :=
    wakeOne_stores (fun _ => rfl) h
  exact stores.alloc

theorem pollAndWake_alloc (h : pollAndWake k n = .ok k') : k'.vm.alloc = k.vm.alloc := by
  have scan : ∀ (pids : List Nat) (k k' : Kernel), pids.foldlM wakeOne k = .ok k' → k'.vm.alloc = k.vm.alloc := by
    intro pids
    induction pids with
    | nil =>
      intro k k' h
      cases h
      rfl
    | cons pid pids ih =>
      intro k k' h
      rw [List.foldlM_cons] at h
      obtain ⟨k₁, first, rest⟩ := bind_ok h
      exact (ih k₁ k' rest).trans (wakeOne_alloc first)
  exact scan pids { k with net := some (poll n (nowMs k)) } k' h

end NetServer

/-! ### Every trap -/

open Syscall Trap Security

/-- The effect of a trap on memory. The five memory calls fail with `usizeMax` and no effect, or
succeed in one way each; any other trap stores through user leaves, a system call through its
caller's. -/
inductive Effect (k : Kernel) (t : Trap) (k' : Kernel) : Prop where
  | quiet (alloc : k'.vm.alloc = k.vm.alloc)
      (stores : ∀ guard, GuardsWrites guard → Spaces guard k.vm k.roots → Stores k.vm k'.vm k.roots fun o => t = .ecall → o = k.currentPid)
      (still : t = .ecall → k.frame.a7.toNat ≠ sysCallNo → k'.vm = k.vm)
      (failed : t = .ecall → sysMapNo ≤ k.frame.a7.toNat → k.frame.a7.toNat ≤ sysSpawnNo →
        k'.toCore = k.toCore.advance.setA0 usizeMax)
  | map {n : Nat} (call : t = .ecall) (number : k.frame.a7.toNat = sysMapNo) (phys : k.frame.a0.toNat = n * pageSize)
      (used : Used k.vm.alloc n) (passes : MapPasses k)
      (mapped : mapPage k.vm (rootOf k.current.satp * pageSize) k.frame.a1.toNat (n * pageSize)
        (if k.frame.a2.toNat = 0 then userRw else userRx) = .ok k'.vm)
      (core : k'.toCore = k.toCore.advance.setA0 0)
  | unmap (call : t = .ecall) (number : k.frame.a7.toNat = sysUnmapNo) (va : isUserVa k.frame.a0.toNat = true)
      (unmapped : unmapPage k.vm (rootOf k.current.satp * pageSize) k.frame.a0.toNat = some k'.vm)
      (core : k'.toCore = k.toCore.advance.setA0 0)
  | grant {n : Nat} (call : t = .ecall) (number : k.frame.a7.toNat = sysAllocPagesNo)
      (grants : Grants k.vm.alloc k'.vm.alloc n) (zeroed : k'.vm.mem = k.vm.mem.fill (n * pageSize) pageSize 0)
      (core : k'.toCore = k.toCore.advance.setA0 (BitVec.ofNat 64 (n * pageSize)))
  | release {n : Nat} (call : t = .ecall) (number : k.frame.a7.toNat = sysFreePagesNo)
      (phys : k.frame.a0.toNat = n * pageSize) (passes : FreePasses k) (releases : Releases k.vm.alloc k'.vm.alloc n)
      (zeroed : k'.vm.mem = k.vm.mem.fill (n * pageSize) pageSize 0)
      (core : k'.toCore = k.toCore.advance.setA0 0)
  | spawn {pid root : Nat} {entry sp : Word} (call : t = .ecall) (number : k.frame.a7.toNat = sysSpawnNo)
      (free : (k.procs pid).state = .free) (range : 1 ≤ pid ∧ pid < maxProcs) (builds : Builds k.vm k'.vm root)
      (core : k'.toCore = { k.toCore.advance.setA0 (BitVec.ofNat 64 pid) with
        procs := Function.update k.procs pid
          (newProcess pid k.currentPid (makeSatp (root * pageSize) (BitVec.ofNat 16 pid)) entry sp) })

section Kernel
variable {k k' : Kernel}

theorem effect_still {t : Trap} (same : k'.vm = k.vm)
    (other : t = .ecall → ¬ (sysMapNo ≤ k.frame.a7.toNat ∧ k.frame.a7.toNat ≤ sysSpawnNo)) : Effect k t k' :=
  .quiet (by rw [same]) (fun _ _ _ => .of_eq same) (fun _ _ => same) fun call low high => absurd ⟨low, high⟩ (other call)

theorem effect_failed {t : Trap} (same : k'.vm = k.vm) (core : k'.toCore = k.toCore.advance.setA0 usizeMax) :
    Effect k t k' :=
  .quiet (by rw [same]) (fun _ _ _ => .of_eq same) (fun _ _ => same) fun _ _ _ => core

theorem sysMap_effect (managed : Managed k.vm.alloc) (number : k.frame.a7.toNat = sysMapNo) (h : sysMap k = .ok k') :
    Effect k .ecall k' := by
  by_cases passes : MapPasses k
  · obtain ⟨n, phys, used⟩ := (isAllocated_used managed).mp passes.allocated
    rw [sysMap_passes passes, phys, satpToRoot_eq] at h
    obtain ⟨v, mapped, rfl⟩ := map_ok h
    exact .map rfl number phys used passes mapped rfl
  · rw [sysMap_refuses passes] at h
    cases h
    exact effect_failed rfl rfl

theorem sysUnmap_effect (number : k.frame.a7.toNat = sysUnmapNo) (h : sysUnmap k = .ok k') : Effect k .ecall k' := by
  rcases sysUnmap_cases k with refused | ⟨passes, v, unmapped, done⟩
  · rw [refused] at h
    cases h
    exact effect_failed rfl rfl
  · rw [done] at h
    cases h
    rw [satpToRoot_eq] at unmapped
    exact .unmap rfl number passes.user unmapped rfl

theorem sysAllocPages_effect (managed : Managed k.vm.alloc) (number : k.frame.a7.toNat = sysAllocPagesNo)
    (h : sysAllocPages k = .ok k') : Effect k .ecall k' := by
  rcases sysAllocPages_cases k with refused | ⟨-, phys, alloc, granted, done⟩
  · rw [refused] at h
    cases h
    exact effect_failed rfl rfl
  · rw [done] at h
    cases h
    obtain ⟨n, rfl, grants⟩ := alloc_grants managed granted
    exact .grant rfl number grants rfl rfl

theorem sysFreePages_effect (managed : Managed k.vm.alloc) (number : k.frame.a7.toNat = sysFreePagesNo)
    (h : sysFreePages k = .ok k') : Effect k .ecall k' := by
  rcases sysFreePages_cases k with refused | ⟨passes, alloc, freed, done⟩
  · rw [refused] at h
    cases h
    exact effect_failed rfl rfl
  · rw [done] at h
    cases h
    obtain ⟨n, phys, releases⟩ := free_releases managed freed
    refine .release rfl number phys passes releases ?_ rfl
    rw [← phys]
    rfl

theorem sysSpawn_effect (managed : Managed k.vm.alloc) (number : k.frame.a7.toNat = sysSpawnNo)
    (h : sysSpawn k = .ok k') : Effect k .ecall k' := by
  rcases sysSpawn_ok h with rfl | ⟨info, pid, userRoot, v, slot, loaded, rfl⟩
  · exact effect_failed rfl rfl
  · obtain ⟨free, range⟩ := Slot.firstFree_some slot
    obtain ⟨-, -, root, rfl, -, -, builds, -⟩ := loadElf_ok (v := k.vm) managed loaded
    exact .spawn rfl number free range builds rfl

theorem handleEcall_effect (managed : Managed k.vm.alloc) (cons : Consistent k.toCore) (user : k.inUser)
    (h : handleEcall k = .ok k') : Effect k .ecall k' := by
  have core : ∀ {f : Core → Result Core}, k.onCore f = .ok k' → k'.vm = k.vm := by
    intro f h
    obtain ⟨c, -, rfl⟩ := Slot.onCore_ok h
    rfl
  unfold handleEcall at h
  split at h <;> rename_i number
  · cases h
    exact effect_still rfl fun _ => by rw [number]; decide
  · cases h
    exact effect_still rfl fun _ => by rw [number]; decide
  · exact effect_still (core h) fun _ => by rw [number]; decide
  · exact effect_still (core h) fun _ => by rw [number]; decide
  · unfold sysCallEntry at h
    split at h
    · have running := (cons.running user).1
      have nonzero := (cons.running user).2
      have own : k.roots k.currentPid = some (rootOf k.currentSatp) := by
        rw [Core.currentSatp, if_neg nonzero]
        exact Core.roots_live nonzero (by rw [running]; nofun)
      refine .quiet ?_ (fun _ _ _ => NetServer.handleRequest_stores (fun _ => rfl) own h)
        (fun _ other => absurd number other) fun _ low => ?_
      · have stores : Stores k.vm k'.vm k.roots fun _ => True := NetServer.handleRequest_stores trivial own h
        exact stores.alloc
      · rw [number] at low
        exact absurd low (by decide)
    · exact effect_still (core h) fun _ => by rw [number]; decide
  · exact effect_still (core h) fun _ => by rw [number]; decide
  · exact sysMap_effect managed number h
  · exact sysUnmap_effect number h
  · exact sysAllocPages_effect managed number h
  · exact sysFreePages_effect managed number h
  · exact sysSpawn_effect managed number h
  · exact effect_still (core h) fun _ => by rw [number]; decide
  · cases h
    exact effect_still rfl fun _ => by rw [number]; decide
  · exact effect_still (core h) fun _ => by rw [number]; decide
  · cases h
    refine effect_still ?_ fun _ => by rw [number]; decide
    unfold sysIrqRegister
    dsimp only
    split
    · rfl
    · split <;> rfl
  · cases h
    refine effect_still ?_ fun _ => by rw [number]; decide
    unfold sysIrqAck
    dsimp only
    split <;> rfl
  · cases h
  · cases h
    refine effect_still rfl fun _ inside => ?_
    simp only [sysMapNo, sysSpawnNo] at inside
    have memory : k.frame.a7.toNat = 6 ∨ k.frame.a7.toNat = 7 ∨ k.frame.a7.toNat = 8 ∨ k.frame.a7.toNat = 9 ∨
        k.frame.a7.toNat = 10 := by omega
    rcases memory with same | same | same | same | same <;> simp_all


omit [Platform] in
/-- Every process blocked on the network has its root among the roots in use. -/
theorem rootsOf_roots {c : Core} (cons : Consistent c) : NetServer.RootsOf c c.roots := by
  intro pid blocked
  have live : (c.procs pid).state ≠ .free := by rw [blocked]; nofun
  have range := cons.range pid live
  exact Core.roots_live (by omega) live

/-- An interrupt: the memory effect is that of the poll it may run. -/
theorem effect_interrupt {k₁ : Kernel} {t : Trap} (interrupt : t ≠ .ecall) (same : k'.vm = k₁.vm)
    (alloc : k₁.vm.alloc = k.vm.alloc)
    (stores : ∀ guard, GuardsWrites guard → Spaces guard k.vm k.roots → Stores k.vm k₁.vm k.roots fun _ => True) : Effect k t k' := by
  refine .quiet (by rw [same, alloc]) (fun guard guards spaces => ?_) (fun call => absurd call interrupt)
    fun call => absurd call interrupt
  obtain ⟨-, bytes⟩ := stores guard guards spaces
  refine ⟨by rw [same, alloc], fun x differ => ?_⟩
  rw [same] at differ
  obtain ⟨o, root, va, pte, -, rest⟩ := bytes x differ
  exact ⟨o, root, va, pte, fun call => absurd call interrupt, rest⟩

theorem handleTimer_effect (cons : Consistent k.toCore) (h : handleTimer k = .ok k') : Effect k .timer k' := by
  unfold handleTimer at h
  obtain ⟨k₁, polled, h⟩ := bind_ok h
  have same : k'.vm = k₁.vm := by
    split at h <;> cases h <;> rfl
  unfold timerPoll at polled
  split at polled
  · split at polled
    · have alloc : k₁.vm.alloc = k.vm.alloc := NetServer.pollAndWake_alloc (k := { k with ticks := k.ticks + 1 }) polled
      exact effect_interrupt nofun same alloc fun guard guards spaces =>
        NetServer.pollAndWake_stores (k := { k with ticks := k.ticks + 1 }) guards spaces (rootsOf_roots cons) polled
    · cases polled
      exact effect_still same nofun
  · cases polled
    exact effect_still same nofun

theorem handleExternal_effect {irq : Nat} (cons : Consistent k.toCore) (h : handleExternal k irq = .ok k') :
    Effect k (.external irq) k' := by
  unfold handleExternal at h
  dsimp only at h
  split at h
  · cases h
    exact effect_still rfl nofun
  split at h
  · split at h
    · cases h
      exact effect_still rfl nofun
    · cases h
      exact effect_still rfl nofun
  split at h
  · cases h
    exact effect_still rfl nofun
  split at h
  · split at h
    · obtain ⟨k₁, polled, h⟩ := bind_ok h
      cases h
      have alloc : k₁.vm.alloc = k.vm.alloc := NetServer.pollAndWake_alloc (k := { k with plic := k.plic.claim irq }) polled
      refine effect_interrupt nofun (by rfl) alloc fun guard guards spaces => ?_
      exact NetServer.pollAndWake_stores (k := { k with plic := k.plic.claim irq }) guards spaces (rootsOf_roots cons) polled
    · cases h
      exact effect_still rfl nofun
  · cases h
    exact effect_still rfl nofun

theorem trapHandler_effect {t : Trap} (managed : Managed k.vm.alloc) (cons : Consistent k.toCore)
    (mode : t = .ecall → k.inUser) (h : trapHandler k t = .ok k') : Effect k t k' := by
  cases t with
  | timer => exact handleTimer_effect cons h
  | external irq => exact handleExternal_effect cons h
  | unhandled code =>
    cases h
    exact effect_still rfl fun same => by cases same
  | ecall => exact handleEcall_effect managed cons (mode rfl) h
  | fault code =>
    simp only [trapHandler] at h
    split at h
    · obtain ⟨c, -, rfl⟩ := Slot.onCore_ok h
      exact effect_still rfl fun same => by cases same
    · cases h

end Kernel

/-! ### The allocator on a run -/

namespace Kvm
variable {v v' : Vm}

theorem walkOrCreate_alloc {table addr : Nat} {i : Fin ptEntries} (managed : Managed v.alloc)
    (h : walkOrCreate v table i = .ok (addr, v')) : Managed v'.alloc ∧ ∀ n, Used v.alloc n → Used v'.alloc n := by
  unfold walkOrCreate at h
  dsimp only at h
  split at h
  · split at h
    · cases h
      exact ⟨managed, fun _ => id⟩
    · cases h
  · obtain ⟨⟨page, v₁⟩, allocated, h⟩ := bind_ok h
    cases h
    obtain ⟨n, -, grants, -⟩ := allocZeroedPage_ok managed allocated
    exact ⟨grants.managed, fun m used => (grants.used m).mpr (.inr used)⟩

theorem mapPage_alloc {root va pa : Nat} {flags : PteFlags} (managed : Managed v.alloc)
    (h : mapPage v root va pa flags = .ok v') : Managed v'.alloc ∧ ∀ n, Used v.alloc n → Used v'.alloc n := by
  unfold mapPage at h
  dsimp only at h
  obtain ⟨⟨level1, v₁⟩, first, h⟩ := bind_ok h
  obtain ⟨⟨level0, v₂⟩, second, h⟩ := bind_ok h
  cases h
  obtain ⟨managed₁, keeps₁⟩ := walkOrCreate_alloc managed first
  obtain ⟨managed₂, keeps₂⟩ := walkOrCreate_alloc managed₁ second
  exact ⟨managed₂, fun n used => keeps₂ n (keeps₁ n used)⟩

omit [Platform] in
theorem unmapPage_alloc {root va : Nat} (h : unmapPage v root va = some v') : v'.alloc = v.alloc := by
  unfold unmapPage at h
  dsimp only at h
  repeat' split at h
  all_goals
    cases h
    try rfl

end Kvm

/-- Whatever a trap does to memory, the allocator manages the same heap. -/
theorem Effect.managed {k k' : Kernel} {t : Trap} (managed : Managed k.vm.alloc) (effect : Effect k t k') :
    Managed k'.vm.alloc := by
  cases effect with
  | quiet alloc => exact alloc ▸ managed
  | map _ _ _ _ _ mapped => exact (mapPage_alloc managed mapped).1
  | unmap _ _ _ unmapped => exact (unmapPage_alloc unmapped) ▸ managed
  | grant _ _ grants => exact grants.managed
  | release _ _ _ _ releases => exact releases.managed
  | spawn _ _ _ _ builds => exact builds.managed

/-- Only a SYS_FREE_PAGES that passes its checks unmarks a page. -/
theorem Effect.unmarks {k k' : Kernel} {t : Trap} {x : Nat} (managed : Managed k.vm.alloc) (effect : Effect k t k')
    (used : Used k.vm.alloc x) (unused : ¬ Used k'.vm.alloc x) :
    t = .ecall ∧ k.frame.a7.toNat = sysFreePagesNo ∧ FreePasses k ∧ k.frame.a0.toNat = x * pageSize := by
  cases effect with
  | quiet alloc => exact absurd (alloc ▸ used) unused
  | map _ _ _ _ _ mapped => exact absurd ((mapPage_alloc managed mapped).2 x used) unused
  | unmap _ _ _ unmapped => exact absurd ((unmapPage_alloc unmapped) ▸ used) unused
  | grant _ _ grants => exact absurd ((grants.used x).mpr (.inr used)) unused
  | release call number phys passes releases zeroed core =>
    rename_i n
    obtain rfl : x = n := by
      by_contra other
      exact unused ((releases.used x).mpr ⟨other, used⟩)
    exact ⟨call, number, passes, phys⟩
  | spawn _ _ _ _ builds => exact absurd (builds.keeps x used) unused

end GooseOs
