import GooseOs.Memory.Effects

/-!
The invariant of the address spaces over whole runs. It survives every step, user stores included,
as long as SYS_MAP and SYS_FREE_PAGES are kept away from pages that hold tables or are mapped.
-/

namespace GooseOs
open Kvm Slot Syscall Trap Security
variable [Platform]

section Roots
variable {c c' : Core} {t : Trap}

theorem traps_roots (cons : Consistent c) (mode : t = .ecall → c.inUser) (traps : Traps c t c')
    (other : ¬ (t = .ecall ∧ c.frame.a7.toNat = sysSpawnNo)) {o root : Nat} (own : c'.roots o = some root) :
    c.roots o = some root := by
  obtain ⟨mid, changes, dispatch⟩ := traps
  have kernel : c'.kernelSatp = c.kernelSatp := by cases dispatch <;> rfl
  rw [Core.roots, kernel] at own
  rw [Core.roots]
  split at own
  · rename_i zero
    rw [if_pos zero]
    exact own
  rename_i process
  split at own
  · cases own
  rename_i live
  have slot : (mid o).state ≠ .free ∧ (mid o).satp = (c'.procs o).satp := by
    rcases Consistent.dispatch_procs dispatch o with same | ⟨ready, same⟩
    · rw [← same]
      exact ⟨live, rfl⟩
    · rw [same, ready]
      exact ⟨by decide, rfl⟩
  have before : (c.procs o).state ≠ .free := (cons.change_live mode (changes o) slot.1).resolve_right other
  rw [if_neg process, if_neg before, ← Consistent.change_satp (changes o) before, slot.2]
  exact own

theorem traps_root_kept (traps : Traps c t c') {o root : Nat} (own : c.roots o = some root)
    (alive : o ≠ 0 → (c'.procs o).state ≠ .free) : c'.roots o = some root := by
  obtain ⟨mid, changes, dispatch⟩ := traps
  have kernel : c'.kernelSatp = c.kernelSatp := by cases dispatch <;> rfl
  rw [Core.roots] at own
  split at own
  · rename_i zero
    rw [Core.roots, if_pos zero, kernel]
    exact own
  rename_i process
  split at own
  · cases own
  rename_i before
  have satp : (c'.procs o).satp = (c.procs o).satp := by
    rw [← Consistent.change_satp (changes o) before]
    rcases Consistent.dispatch_procs dispatch o with same | ⟨-, same⟩ <;> rw [same]
  rw [Core.roots_live process (alive process), satp]
  exact own

end Roots

theorem step_root_kept {k k' : Kernel} {l : Label} (cons : Consistent k.toCore) (step : Step k l k') {o root : Nat}
    (own : k.roots o = some root) (alive : o ≠ 0 → (k'.procs o).state ≠ .free) : k'.roots o = some root := by
  by_cases trap : ∃ t, l = .trap t
  · obtain ⟨t, rfl⟩ := trap
    obtain ⟨handled, mode⟩ := step_trap step
    exact traps_root_kept (trapHandler_traps cons.toSettled mode cons.current_range handled) own alive
  · obtain ⟨procs, -, -, -, kernel, -, -, -⟩ := step_other step fun t same => trap ⟨t, same⟩
    rw [Core.roots, kernel, procs]
    exact own

/-- The calls that keep tables and mapped pages out of user reach: what SYS_MAP maps under a guarded
leaf holds no table, and what SYS_FREE_PAGES frees neither holds a table nor is mapped. -/
structure Tame (guard : Pte → Bool) (k : Kernel) : Prop where
  map : k.frame.a7.toNat = sysMapNo → MapPasses k → ∀ n, k.frame.a0.toNat = n * pageSize →
    guard (.new (n * pageSize) (if k.frame.a2.toNat = 0 then userRw else userRx)) = true → ¬ Tabled k.vm k.roots n
  free : k.frame.a7.toNat = sysFreePagesNo → FreePasses k → ∀ n, k.frame.a0.toNat = n * pageSize →
    ¬ Tabled k.vm k.roots n ∧ ¬ Mapped k.vm k.roots n

section Step
variable {guard : Pte → Bool} {k k' : Kernel} {t : Trap}

theorem roots_answer {v : Word} (core : k'.toCore = k.toCore.advance.setA0 v) : k'.roots = k.roots := by
  rw [core]
  rfl

omit [Platform] in
theorem user_permission (a2 : Nat) :
    IsPermission (if a2 = 0 then userRw else userRx) ∧ (if a2 = 0 then userRw else userRx).contains .user = true := by
  split
  · exact ⟨isPermission_user.2.1, by decide⟩
  · exact ⟨isPermission_user.1, by decide⟩

theorem roots_current (cons : Consistent k.toCore) (user : k.inUser) :
    k.roots k.currentPid = some (rootOf k.current.satp) := by
  have running := cons.running user
  exact Core.roots_live running.2 (by rw [running.1]; nofun)

omit [Platform] in
/-- The roots after a process with root `root` is installed. -/
theorem roots_install {c c' : Core} {pid parent root : Nat} {asid : BitVec 16} {entry sp : Word} (process : pid ≠ 0)
    (bound : root < 2 ^ 44) (kernel : c'.kernelSatp = c.kernelSatp)
    (procs : c'.procs =
      Function.update c.procs pid (newProcess pid parent (makeSatp (root * pageSize) asid) entry sp)) :
    c'.roots = Function.update c.roots pid (some root) := by
  funext o
  by_cases own : o = pid
  · subst own
    have slot : c'.procs o = newProcess o parent (makeSatp (root * pageSize) asid) entry sp := by
      rw [procs, Function.update_self]
    rw [Function.update_self, Core.roots_live process (by rw [slot]; nofun), slot]
    exact congrArg some (rootOf_makeSatp bound)
  · rw [Function.update_of_ne own, Core.roots, Core.roots, kernel, procs, Function.update_of_ne own]

theorem builds_bound {v v' : Vm} {root : Nat} (builds : Builds v v' root) : root < 2 ^ 44 := by
  have := used_range builds.managed (builds.space.used root Radix.table_root)
  omega

theorem Spaces.effect (guards : GuardsWrites guard) (cons : Consistent k.toCore) (mode : t = .ecall → k.inUser)
    (traps : Traps k.toCore t k'.toCore) (tame : t = .ecall → Tame guard k) (spaces : Spaces guard k.vm k.roots)
    (effect : Effect k t k') : Spaces guard k'.vm k'.roots := by
  cases effect with
  | quiet alloc stores still failed =>
    have kept := (stores guard guards spaces).spaces guards spaces
    by_cases spawns : t = .ecall ∧ k.frame.a7.toNat = sysSpawnNo
    · rw [roots_answer (failed spawns.1 (by rw [spawns.2]; decide) (by rw [spawns.2]))]
      exact kept
    · exact kept.drop fun o root own => traps_roots cons mode traps spawns own
  | map call number phys used passes mapped core =>
    rename_i n
    rw [roots_answer core]
    have own := roots_current cons (mode call)
    obtain ⟨permission, plain⟩ := user_permission k.frame.a2.toNat
    have bound : n < 2 ^ 52 := by
      have := used_range spaces.managed used
      omega
    obtain ⟨space, grown, leaf⟩ :=
      mapPage_ok spaces.managed (spaces.space own) (permission.new_isLeaf bound) mapped
    refine spaces.extend own grown space fun va' pte reached _ => ?_
    rw [leaf] at reached
    split at reached
    · cases reached
      refine Or.inr (Or.inl ?_)
      rw [Pte.new_page bound permission.small]
      exact ⟨used, (tame call).map number passes n phys⟩
    · exact Or.inl reached
  | unmap call number va unmapped core =>
    rw [roots_answer core]
    have own := roots_current cons (mode call)
    obtain ⟨space, grown, -, leaf⟩ := unmapPage_some spaces.managed (spaces.space own) unmapped
    refine spaces.extend own grown space fun va' pte reached _ => ?_
    rw [leaf] at reached
    split at reached
    · cases reached
    · exact Or.inl reached
  | grant call number grants zeroed core =>
    rename_i n
    rw [roots_answer core]
    refine spaces.frame grants.managed (fun m used _ => (grants.used m).mpr (Or.inr used)) ?_
    rintro x ⟨o, root, own, table⟩
    have other : x / pageSize ≠ n := fun same => grants.fresh (same ▸ (spaces.space own).used _ table)
    rw [zeroed, Memory.fill_apply_outside (page_apart other)]
  | release call number phys passes releases zeroed core =>
    rename_i n
    rw [roots_answer core]
    obtain ⟨plain, unmapped⟩ := (tame call).free number passes n phys
    refine spaces.frame releases.managed (fun m used visible => (releases.used m).mpr ⟨?_, used⟩) fun x table => ?_
    · rintro rfl
      exact visible.elim plain unmapped
    · have other : x / pageSize ≠ n := fun same => plain (same ▸ table)
      rw [zeroed, Memory.fill_apply_outside (page_apart other)]
  | spawn call number free range builds core =>
    rename_i pid root entry sp
    have roots : k'.roots = Function.update k.roots pid (some root) :=
      roots_install (by omega) (builds_bound builds) (by rw [core]; rfl) (by rw [core])
    rw [roots]
    exact spaces.replace builds

/-- A user program writes through its own writable leaves. -/
theorem user_stores {m : Memory} (cons : Consistent k.toCore) (user : k.inUser)
    (stores : ∀ pa, m pa ≠ k.vm.mem pa → UserWritable k pa) :
    Stores k.vm { k.vm with mem := m } k.roots fun o => o = k.currentPid := by
  refine ⟨rfl, fun x differ => ?_⟩
  obtain ⟨va, w, translated, user', write, rfl⟩ := stores x differ
  rw [translate] at translated
  split at translated
  · rw [satpToRoot_eq] at translated
    obtain ⟨pte, leaf, flags, phys⟩ := walk_leaf translated
    have table : k.satp = k.current.satp := cons.table user
    rw [table] at leaf
    refine ⟨k.currentPid, _, va, pte, rfl, roots_current cons user, leaf, ?_, ?_, ?_⟩
    · rw [Pte.user, ← flags, user']
    · rw [Pte.writable, ← flags, write]
    · have small : va % pageSize < pageSize := Nat.mod_lt _ (by decide)
      rw [phys, page_inside (Nat.le_add_right ..) (by omega)]
  · cases translated

end Step

theorem Spaces.step {guard : Pte → Bool} {k k' : Kernel} {l : Label} (guards : GuardsWrites guard)
    (cons : Consistent k.toCore) (tame : l = .trap .ecall → Tame guard k) (spaces : Spaces guard k.vm k.roots)
    (step : Step k l k') : Spaces guard k'.vm k'.roots := by
  by_cases trap : ∃ t, l = .trap t
  · obtain ⟨t, rfl⟩ := trap
    obtain ⟨handled, mode⟩ := step_trap step
    have traps := trapHandler_traps cons.toSettled mode cons.current_range handled
    have effect := trapHandler_effect spaces.managed cons mode handled
    exact spaces.effect guards cons mode traps (fun call => tame (by rw [call])) effect
  · cases step with
    | user mode after stores => exact (user_stores cons mode stores).spaces guards spaces
    | idle => exact spaces
    | frame => exact spaces
    | _ => exact absurd ⟨_, rfl⟩ trap

/-! ### What a step leaves alone -/

/-- SYS_FREE_PAGES releases page `x`. -/
structure Frees (k k' : Kernel) (x : Nat) : Prop where
  number : k.frame.a7.toNat = sysFreePagesNo
  phys : k.frame.a0.toNat = x * pageSize
  passes : FreePasses k
  accepted : k'.frame.a0 = 0

/-- SYS_MAP or SYS_UNMAP changes the caller's leaf for `va`. -/
structure Remaps (k k' : Kernel) (va : Nat) : Prop where
  call : (k.frame.a7.toNat = sysMapNo ∧ vpn k.frame.a1.toNat = vpn va) ∨
    (k.frame.a7.toNat = sysUnmapNo ∧ vpn k.frame.a0.toNat = vpn va)
  accepted : k'.frame.a0 = 0

/-- The frame of one step: which pages it releases, where tables appear, and which leaves, table
bytes and other bytes it may change. -/
structure SpaceFrame (k : Kernel) (l : Label) (k' : Kernel) : Prop where
  used : ∀ x, Used k.vm.alloc x → Used k'.vm.alloc x ∨ (l = .trap .ecall ∧ Frees k k' x)
  tabled : ∀ x, Tabled k'.vm k'.roots x →
    Tabled k.vm k.roots x ∨ (¬ Used k.vm.alloc x ∧ ¬ (l = .trap .ecall ∧ k.frame.a7.toNat = sysAllocPagesNo))
  leaves : ∀ o root va, k.roots o = some root → leafAt k'.vm.mem root va = leafAt k.vm.mem root va ∨
    (l = .trap .ecall ∧ o = k.currentPid ∧ Remaps k k' va)
  tables : ∀ o root x, k.roots o = some root → IsTable k.vm root (x / pageSize) → k'.vm.mem x = k.vm.mem x ∨
    (l = .trap .ecall ∧ o = k.currentPid ∧ (k.frame.a7.toNat = sysMapNo ∨ k.frame.a7.toNat = sysUnmapNo))
  bytes : l = .trap .ecall → k.frame.a7.toNat ≠ sysCallNo → ∀ x, k'.vm.mem x ≠ k.vm.mem x →
    Tabled k.vm k.roots (x / pageSize) ∨ ¬ Used k.vm.alloc (x / pageSize) ∨ Frees k k' (x / pageSize)

section SpaceFrame
variable {guard : Pte → Bool} {k k' : Kernel} {l : Label} {t : Trap}

omit [Platform] in
theorem tabled_drop {v : Vm} {roots roots' : Nat → Option Nat} {x : Nat}
    (fewer : ∀ o root, roots' o = some root → roots o = some root) (table : Tabled v roots' x) : Tabled v roots x := by
  obtain ⟨o, root, own, table⟩ := table
  exact ⟨o, root, fewer o root own, table⟩

/-- A step that changes bytes outside the tables and no allocation. -/
theorem frame_quiet (alloc : k'.vm.alloc = k.vm.alloc) (roots : ∀ o root, k'.roots o = some root → k.roots o = some root)
    (same : ∀ x, Tabled k.vm k.roots (x / pageSize) → k'.vm.mem x = k.vm.mem x)
    (still : l = .trap .ecall → k.frame.a7.toNat ≠ sysCallNo → k'.vm = k.vm) : SpaceFrame k l k' := by
  have tables := Spaces.sameTables_of_mem same
  refine ⟨fun x used => Or.inl (alloc ▸ used), fun x table => Or.inl ?_, fun o root va own => Or.inl (tables.leaves va own),
    fun o root x own table => Or.inl (same x ⟨o, root, own, table⟩), fun call other x differ => ?_⟩
  · obtain ⟨o, root, own, table⟩ := tabled_drop roots table
    exact ⟨o, root, own, (tables.tables own).mp table⟩
  · rw [still call other] at differ
    exact absurd rfl differ

theorem frame_extend {root : Nat} (spaces : Spaces guard k.vm k.roots) (own : k.roots k.currentPid = some root)
    (grown : Extends k.vm k'.vm root) (roots : k'.roots = k.roots)
    (number : k.frame.a7.toNat = sysMapNo ∨ k.frame.a7.toNat = sysUnmapNo)
    (leaves : ∀ va, leafAt k'.vm.mem root va = leafAt k.vm.mem root va ∨ Remaps k k' va) :
    SpaceFrame k (.trap .ecall) k' := by
  refine ⟨fun x used => Or.inl (grown.keeps x used), fun x table => ?_, fun o root' va own' => ?_,
    fun o root' x own' table => ?_, fun _ _ x differ => ?_⟩
  · rw [roots] at table
    obtain ⟨o, root', own', table⟩ := table
    rcases spaces.tables_extend own grown own' table with before | unused
    · exact Or.inl ⟨o, root', own', before⟩
    · refine Or.inr ⟨unused, fun alloc => ?_⟩
      rcases number with number | number <;> rw [number] at alloc <;> exact absurd alloc.2 (by decide)
  · by_cases same : o = k.currentPid
    · subst same
      obtain rfl : root = root' := Option.some.inj (own.symm.trans own')
      exact (leaves va).imp id fun remaps => ⟨rfl, rfl, remaps⟩
    · exact Or.inl (leafAt_congr (spaces.other_tables own grown own' same) va)
  · by_cases same : o = k.currentPid
    · exact Or.inr ⟨rfl, same, number⟩
    · exact Or.inl (spaces.other_tables own grown own' same x table)
  · by_cases mine : IsTable k'.vm root (x / pageSize)
    · rcases grown.fresh _ mine with before | unused
      · exact Or.inl ⟨_, root, own, before⟩
      · exact Or.inr (Or.inl unused)
    · exact absurd (grown.frame x mine) differ

theorem Effect.frame (guards : GuardsWrites guard) (cons : Consistent k.toCore) (mode : t = .ecall → k.inUser)
    (traps : Traps k.toCore t k'.toCore) (tame : t = .ecall → Tame guard k) (spaces : Spaces guard k.vm k.roots)
    (effect : Effect k t k') : SpaceFrame k (.trap t) k' := by
  cases effect with
  | quiet alloc stores still failed =>
    have same := (stores guard guards spaces).tabled guards spaces
    refine frame_quiet alloc (fun o root own => ?_) same fun call => still (by cases call; rfl)
    by_cases spawns : t = .ecall ∧ k.frame.a7.toNat = sysSpawnNo
    · rwa [roots_answer (failed spawns.1 (by rw [spawns.2]; decide) (by rw [spawns.2]))] at own
    · exact traps_roots cons mode traps spawns own
  | map call number phys used passes mapped core =>
    rename_i n
    subst call
    have own := roots_current cons (mode rfl)
    obtain ⟨permission, plain⟩ := user_permission k.frame.a2.toNat
    have bound := used_range spaces.managed used
    obtain ⟨space, grown, leaf⟩ :=
      mapPage_ok spaces.managed (spaces.space own) (permission.new_isLeaf (by omega)) mapped
    refine frame_extend spaces own grown (roots_answer core) (Or.inl number) fun va' => ?_
    by_cases here : vpn va' = vpn k.frame.a1.toNat
    · exact Or.inr ⟨Or.inl ⟨number, here.symm⟩, by rw [core]; rfl⟩
    · exact Or.inl (by rw [leaf, if_neg here])
  | unmap call number va unmapped core =>
    subst call
    have own := roots_current cons (mode rfl)
    obtain ⟨space, grown, -, leaf⟩ := unmapPage_some spaces.managed (spaces.space own) unmapped
    refine frame_extend spaces own grown (roots_answer core) (Or.inr number) fun va' => ?_
    by_cases here : vpn va' = vpn k.frame.a0.toNat
    · exact Or.inr ⟨Or.inr ⟨number, here.symm⟩, by rw [core]; rfl⟩
    · exact Or.inl (by rw [leaf, if_neg here])
  | grant call number grants zeroed core =>
    rename_i n
    have same : ∀ x, x / pageSize ≠ n → k'.vm.mem x = k.vm.mem x := fun x other => by
      rw [zeroed, Memory.fill_apply_outside (page_apart other)]
    have tabled : ∀ x, Tabled k.vm k.roots (x / pageSize) → k'.vm.mem x = k.vm.mem x := by
      rintro x ⟨o, root, own, table⟩
      exact same x fun page => grants.fresh (page ▸ (spaces.space own).used _ table)
    have tables := Spaces.sameTables_of_mem tabled
    refine ⟨fun x used => Or.inl ((grants.used x).mpr (Or.inr used)), fun x table => Or.inl ?_,
      fun o root va own => Or.inl (tables.leaves va own), fun o root x own table => Or.inl (tabled x ⟨o, root, own, table⟩),
      fun _ _ x differ => ?_⟩
    · rw [roots_answer core] at table
      obtain ⟨o, root, own, table⟩ := table
      exact ⟨o, root, own, (tables.tables own).mp table⟩
    · have page : x / pageSize = n := by
        by_contra other
        exact differ (same x other)
      exact Or.inr (Or.inl (page ▸ grants.fresh))
  | release call number phys passes releases zeroed core =>
    rename_i n
    obtain ⟨plain, unmapped⟩ := (tame call).free number passes n phys
    have same : ∀ x, x / pageSize ≠ n → k'.vm.mem x = k.vm.mem x := fun x other => by
      rw [zeroed, Memory.fill_apply_outside (page_apart other)]
    have tabled : ∀ x, Tabled k.vm k.roots (x / pageSize) → k'.vm.mem x = k.vm.mem x := fun x table =>
      same x fun page => plain (page ▸ table)
    have tables := Spaces.sameTables_of_mem tabled
    have frees : Frees k k' n := ⟨number, phys, passes, by rw [core]; rfl⟩
    refine ⟨fun x used => ?_, fun x table => Or.inl ?_, fun o root va own => Or.inl (tables.leaves va own),
      fun o root x own table => Or.inl (tabled x ⟨o, root, own, table⟩), fun _ _ x differ => ?_⟩
    · by_cases freed : x = n
      · exact Or.inr ⟨by rw [call], freed ▸ frees⟩
      · exact Or.inl ((releases.used x).mpr ⟨freed, used⟩)
    · rw [roots_answer core] at table
      obtain ⟨o, root, own, table⟩ := table
      exact ⟨o, root, own, (tables.tables own).mp table⟩
    · have page : x / pageSize = n := by
        by_contra other
        exact differ (same x other)
      exact Or.inr (Or.inr (page ▸ frees))
  | spawn call number free range builds core =>
    rename_i pid root entry sp
    have roots : k'.roots = Function.update k.roots pid (some root) :=
      roots_install (by omega) (builds_bound builds) (by rw [core]; rfl) (by rw [core])
    have same := spaces.built_tables builds
    have tables := Spaces.sameTables_of_mem same
    refine ⟨fun x used => Or.inl (builds.keeps x used), fun x table => ?_,
      fun o root va own => Or.inl (tables.leaves va own), fun o root x own table => Or.inl (same x ⟨o, root, own, table⟩),
      fun _ _ x differ => Or.inr (Or.inl (builds.frame x differ).1)⟩
    rw [roots] at table
    obtain ⟨o, root', own, table⟩ := table
    by_cases new : o = pid
    · subst new
      rw [Function.update_self] at own
      cases own
      refine Or.inr ⟨builds.fresh x table, fun alloc => ?_⟩
      rw [number] at alloc
      exact absurd alloc.2 (by decide)
    · rw [Function.update_of_ne new] at own
      exact Or.inl ⟨o, root', own, (tables.tables own).mp table⟩

theorem Step.spaceFrame (guards : GuardsWrites guard) (cons : Consistent k.toCore)
    (tame : l = .trap .ecall → Tame guard k)
    (spaces : Spaces guard k.vm k.roots) (step : Step k l k') : SpaceFrame k l k' := by
  by_cases trap : ∃ t, l = .trap t
  · obtain ⟨t, rfl⟩ := trap
    obtain ⟨handled, mode⟩ := step_trap step
    have traps := trapHandler_traps cons.toSettled mode cons.current_range handled
    have effect := trapHandler_effect spaces.managed cons mode handled
    exact effect.frame guards cons mode traps (fun call => tame (by rw [call])) spaces
  · cases step with
    | user mode after stores =>
      exact frame_quiet rfl (fun _ _ own => own) ((user_stores cons mode stores).tabled guards spaces) nofun
    | idle => exact frame_quiet rfl (fun _ _ own => own) (fun _ _ => rfl) nofun
    | frame => exact frame_quiet rfl (fun _ _ own => own) (fun _ _ => rfl) nofun
    | _ => exact absurd ⟨_, rfl⟩ trap

end SpaceFrame

/-! ### Boot -/

namespace Boot

omit [Platform] in
theorem expect_ok {α : Type} {x : Except AllocError α} {a : α} (h : expect x = .ok a) : x = .ok a := by
  cases x with
  | ok b => cases h; rfl
  | error e => cases h

section Allocator
variable {a a' : BitmapAllocator}

theorem alloc_managed {p : Nat} (managed : Managed a) (h : expect a.alloc = .ok (p, a')) : Managed a' := by
  obtain ⟨n, -, grants⟩ := alloc_grants managed (expect_ok h)
  exact grants.managed

theorem free_managed {p : Nat} (managed : Managed a) (h : expect (a.free p) = .ok a') : Managed a' := by
  obtain ⟨n, -, releases⟩ := free_releases managed (expect_ok h)
  exact releases.managed

theorem selfTest_managed (managed : Managed a) (h : selfTest a = .ok a') : Managed a' := by
  unfold selfTest at h
  obtain ⟨-, -, h⟩ := bind_ok h
  obtain ⟨⟨p₁, a₁⟩, first, h⟩ := bind_ok h
  obtain ⟨-, -, h⟩ := bind_ok h
  obtain ⟨-, -, h⟩ := bind_ok h
  obtain ⟨a₂, second, h⟩ := bind_ok h
  obtain ⟨-, -, h⟩ := bind_ok h
  obtain ⟨-, -, h⟩ := bind_ok h
  obtain ⟨⟨p₂, a₃⟩, third, h⟩ := bind_ok h
  obtain ⟨-, -, h⟩ := bind_ok h
  obtain ⟨a₄, fourth, h⟩ := bind_ok h
  obtain ⟨⟨p₃, a₅⟩, fifth, h⟩ := bind_ok h
  obtain ⟨⟨p₄, a₆⟩, sixth, h⟩ := bind_ok h
  obtain ⟨-, -, h⟩ := bind_ok h
  obtain ⟨a₇, seventh, h⟩ := bind_ok h
  obtain ⟨a₈, eighth, h⟩ := bind_ok h
  obtain ⟨-, -, h⟩ := bind_ok h
  obtain ⟨-, -, h⟩ := bind_ok h
  obtain ⟨-, -, h⟩ := bind_ok h
  cases h
  have managed₂ := free_managed (alloc_managed managed first) second
  have managed₄ := free_managed (alloc_managed managed₂ third) fourth
  exact free_managed (free_managed (alloc_managed (alloc_managed managed₄ fifth) sixth) seventh) eighth

theorem pageAllocInit_managed (h : pageAllocInit = .ok a) : Managed a := by
  unfold pageAllocInit at h
  obtain ⟨-, -, h⟩ := bind_ok h
  cases h
  have aligned := Platform.heapStart_aligned
  have base : pageUp Platform.heapStart = Platform.heapStart := by
    simp only [pageUp, pageDown, pageSize] at *
    omega
  exact ⟨base, congrArg (fun start => (Platform.heapEnd - start) / pageSize) base⟩

end Allocator

section Launch
variable {guard : Pte → Bool} {k k' : Kernel} {pid : Nat} (spaces : Spaces guard k.vm k.roots)
include spaces

theorem createProcess_spaces {code : Nat × Nat} (fits : code.2 ≤ pageSize) (process : pid ≠ 0)
    (h : createProcess k pid code = .ok k') : Spaces guard k'.vm k'.roots := by
  obtain ⟨root, entry, stack, builds, -, -, -, same⟩ := createProcess_ok fits spaces.managed h
  have roots : k'.roots = Function.update k.roots pid (some root) :=
    roots_install process (builds_bound builds) (by rw [same]) (by rw [same])
  rw [roots]
  exact spaces.replace builds

theorem createProcessFromElf_spaces {info : Elf.ElfInfo} {elfStart : Nat} (process : pid ≠ 0)
    (h : createProcessFromElf k pid info elfStart = .ok k') : Spaces guard k'.vm k'.roots := by
  obtain ⟨root, builds, same⟩ := createProcessFromElf_ok spaces.managed h
  have roots : k'.roots = Function.update k.roots pid (some root) :=
    roots_install process (builds_bound builds) (by rw [same]) (by rw [same])
  rw [roots]
  exact spaces.replace builds

theorem launchTest_spaces (h : launchTest k = .ok k') : Spaces guard k'.vm k'.roots := by
  unfold launchTest at h
  split at h
  · exact createProcess_spaces spaces Platform.programs_fit.2.2 (by decide) h
  · cases h
    exact spaces

theorem launchRust_spaces (h : launchRust k = .ok k') : Spaces guard k'.vm k'.roots := by
  unfold launchRust at h
  split at h
  · obtain ⟨parsed, -, h⟩ := bind_ok h
    split at h
    · cases h
    · exact createProcessFromElf_spaces spaces (by decide) h
  · cases h
    exact spaces

omit spaces in
theorem uart_outside : ¬ InHeap (Pte.new uartBase userMmio).page := by
  rw [show uartBase = 0x10000 * pageSize from rfl, Pte.new_page (by decide) isPermission_user.2.2.small]
  rintro ⟨low, high⟩
  have apart := Platform.mmio_apart
  have order := Platform.text_le
  have rodata := Platform.rodata_le
  have data := Platform.data_le
  have bss := Platform.bss_le
  have heap := Platform.heap_le
  simp only [uartBase, virtioMmioBase, virtioMmioSlots, virtioMmioStride, pageSize] at *
  omega

theorem uart_spaces {v : Vm} {root : Nat} (own : k.roots pid = some root)
    (h : mapPage k.vm (root * pageSize) uartUserVa uartBase userMmio = .ok v) : Spaces guard v k.roots := by
  have leaf : (Pte.new uartBase userMmio).isLeaf = true :=
    isPermission_user.2.2.new_isLeaf (n := 0x10000) (by decide)
  obtain ⟨space, grown, leaves⟩ := mapPage_ok spaces.managed (spaces.space own) leaf h
  refine spaces.extend own grown space fun va pte reached _ => ?_
  rw [leaves] at reached
  split at reached
  · cases reached
    exact Or.inr (Or.inr uart_outside)
  · exact Or.inl reached

theorem launchDefault_spaces (h : launchDefault k = .ok k') : Spaces guard k'.vm k'.roots := by
  unfold launchDefault at h
  split at h
  · cases h
    exact spaces
  obtain ⟨k₁, init, h⟩ := bind_ok h
  obtain ⟨k₂, server, h⟩ := bind_ok h
  obtain ⟨vm, mapped, h⟩ := bind_ok h
  cases h
  have spaces₁ := createProcess_spaces spaces Platform.programs_fit.1 (by decide) init
  have spaces₂ := createProcess_spaces spaces₁ Platform.programs_fit.2.1 (by decide) server
  obtain ⟨satp, entry, sp, same⟩ := createProcess_creates server
  have live : (k₂.procs 2).state ≠ .free := by
    rw [same]
    simp only [Function.update_self]
    nofun
  rw [satpToRoot_eq] at mapped
  exact uart_spaces spaces₂ (Core.roots_live (by decide) live) mapped

theorem createProcesses_spaces (h : createProcesses k = .ok k') : Spaces guard k'.vm k'.roots := by
  unfold createProcesses at h
  obtain ⟨k₁, tested, h⟩ := bind_ok h
  obtain ⟨k₂, rust, h⟩ := bind_ok h
  exact launchDefault_spaces (launchRust_spaces (launchTest_spaces spaces tested) rust) h

end Launch

variable {guard : Pte → Bool}

theorem init_builds (env : Environment) {v v' : Vm} {addr : Nat} (managed : Managed v.alloc)
    (h : Kvm.init v = .ok (addr, v')) :
    ∃ n, Builds v v' n ∧ (∀ va pte, leafAt v'.mem n va = some pte → pte.user = false) ∧
      (pagedKernel env addr v').roots = Function.update (fun _ => Option.none) 0 (some n) := by
  unfold Kvm.init at h
  obtain ⟨⟨rootPhys, v₁⟩, allocated, h⟩ := bind_ok h
  obtain ⟨v₂, regions, h⟩ := bind_ok h
  cases h
  obtain ⟨n, rfl, grants, zeroed⟩ := allocZeroedPage_ok managed allocated
  obtain ⟨builds₁, none⟩ := Builds.of_root (.refl managed) grants zeroed
  obtain ⟨space₂, grown₂, leaves₂⟩ := mapKernelRegions_ok builds₁.managed builds₁.space regions
  have kernel : ∀ va pte, leafAt v'.mem n va = some pte → pte.user = false := by
    intro va pte leaf
    rcases leaves₂ va pte leaf with plain | before
    · exact plain
    · rw [none] at before
      cases before
  have builds₂ : Builds v v' n := builds₁.extend space₂ grown₂ fun va pte leaf user => by
    rw [kernel va pte leaf] at user
    cases user
  refine ⟨n, builds₂, kernel, ?_⟩
  funext o
  by_cases own : o = 0
  · rw [own, Function.update_self, Core.roots, if_pos rfl]
    exact congrArg some (rootOf_makeSatp (builds_bound builds₂))
  · rw [Function.update_of_ne own, Core.roots, if_neg own]
    exact if_pos rfl

theorem init_spaces (env : Environment) {v v' : Vm} {addr : Nat} (managed : Managed v.alloc)
    (h : Kvm.init v = .ok (addr, v')) :
    Spaces guard (pagedKernel env addr v').vm (pagedKernel env addr v').roots := by
  obtain ⟨n, builds, -, roots⟩ := init_builds env managed h
  have empty : Spaces guard v fun _ => Option.none := ⟨managed, nofun, nofun, nofun, nofun⟩
  rw [roots]
  exact empty.replace (o := 0) builds

/-- The kernel that enters user mode has the memory and the roots that `createProcesses` left. -/
theorem booted_created {k : Kernel} (booted : Booted k) :
    ∃ env v addr v' k₁, Managed v.alloc ∧ Kvm.init v = .ok (addr, v') ∧
      createProcesses (pagedKernel env addr v') = .ok k₁ ∧ k.vm = k₁.vm ∧ k.roots = k₁.roots := by
  obtain ⟨env, -, h⟩ := booted
  unfold boot at h
  obtain ⟨alloc, created, h⟩ := bind_ok h
  obtain ⟨alloc', tested, h⟩ := bind_ok h
  obtain ⟨⟨rootPt, vm⟩, paged, h⟩ := bind_ok h
  obtain ⟨k₁, launched, h⟩ := bind_ok h
  cases h
  refine ⟨env, _, _, _, k₁, selfTest_managed (pageAllocInit_managed created) tested, paged, launched, rfl, ?_⟩
  obtain ⟨-, satp, entry, sp, first⟩ := createProcesses_slots (fun _ => rfl) launched
  -- Making PID 1 run changes no root.
  funext o
  by_cases own : o = 1
  · subst own
    have live : ((enterUser k₁ env.frame).procs 1).state ≠ .free := by
      simp only [enterUser, Function.update_self]
      nofun
    have live₁ : (k₁.procs 1).state ≠ .free := by
      rw [first]
      nofun
    rw [Core.roots_live (by decide) live, Core.roots_live (by decide) live₁]
    simp only [enterUser, Function.update_self]
  · simp only [enterUser, Core.roots, Function.update_of_ne own]

theorem booted_spaces {k : Kernel} (booted : Booted k) : Spaces guard k.vm k.roots := by
  obtain ⟨env, v, addr, v', k₁, managed, paged, launched, vm, roots⟩ := booted_created booted
  rw [vm, roots]
  exact createProcesses_spaces (init_spaces env managed paged) launched

end Boot

/-! ### Runs -/

section Run
variable {guard : Pte → Bool} (r : MachineRun)

omit r in
theorem managed_step {k k' : Kernel} {l : Label} (cons : Consistent k.toCore) (managed : Managed k.vm.alloc)
    (step : Step k l k') : Managed k'.vm.alloc := by
  by_cases trap : ∃ t, l = .trap t
  · obtain ⟨t, rfl⟩ := trap
    obtain ⟨handled, mode⟩ := step_trap step
    exact (trapHandler_effect managed cons mode handled).managed managed
  · cases step with
    | user => exact managed
    | idle => exact managed
    | frame => exact managed
    | _ => exact absurd ⟨_, rfl⟩ trap

theorem MachineRun.managed {n : Nat} (bound : n ≤ r.len) : Managed (r.state n).vm.alloc := by
  refine r.invariant_of_steps (P := fun k => Managed k.vm.alloc) (fun k booted => ?_) (fun n bound before => ?_) n bound
  · have spaces : Spaces (fun _ => true) k.vm k.roots := Boot.booted_spaces booted
    exact spaces.managed
  · exact managed_step (r.consistent (Nat.le_of_lt bound)) before (r.steps n bound)

theorem MachineRun.effect {n : Nat} {t : Trap} (bound : n < r.len) (label : r.label n = .trap t) :
    Effect (r.state n) t (r.state (n + 1)) := by
  have step := r.steps n bound
  rw [label] at step
  obtain ⟨handled, mode⟩ := step_trap step
  exact trapHandler_effect (r.managed (Nat.le_of_lt bound)) (r.consistent (Nat.le_of_lt bound)) mode handled

theorem MachineRun.spaces (guards : GuardsWrites guard) {n : Nat}
    (tame : ∀ m, m < n → r.label m = .trap .ecall → Tame guard (r.state m)) (bound : n ≤ r.len) :
    Spaces guard (r.state n).vm (r.state n).roots := by
  induction n with
  | zero => exact Boot.booted_spaces r.start
  | succ n ih =>
    have before := ih (fun m below => tame m (by omega)) (by omega)
    exact before.step guards (r.consistent (by omega)) (tame n (by omega)) (r.steps n bound)

theorem MachineRun.frame (guards : GuardsWrites guard) {n : Nat}
    (tame : ∀ m, m ≤ n → r.label m = .trap .ecall → Tame guard (r.state m)) (bound : n < r.len) :
    SpaceFrame (r.state n) (r.label n) (r.state (n + 1)) :=
  (r.steps n bound).spaceFrame guards (r.consistent (Nat.le_of_lt bound)) (tame n (Nat.le_refl n))
    (r.spaces guards (fun m below => tame m (Nat.le_of_lt below)) (Nat.le_of_lt bound))

end Run
end GooseOs
