import GooseOs.Memory.Dangling
import GooseOs.Memory.Answers

/-!
Write-xor-execute across address spaces. Each user leaf is writable or executable, not both; that no page
is reached both ways depends on what SYS_MAP maps a second time and on what SYS_FREE_PAGES frees.
-/

namespace GooseOs
open Kvm Slot Syscall Trap Security

def Pte.executable (p : Pte) : Bool := p.flags.contains .execute

section Law
variable [Platform]

/-- A user leaf of one of the spaces with these roots. -/
def UserLeaf (v : Vm) (roots : Nat → Option Nat) (o va : Nat) (pte : Pte) : Prop :=
  ∃ root, roots o = some root ∧ leafAt v.mem root va = some pte ∧ pte.user = true

/-- No page lies under both a writable and an executable user leaf. -/
def Exclusive (v : Vm) (roots : Nat → Option Nat) : Prop :=
  ∀ o va pte o' va' pte', UserLeaf v roots o va pte → UserLeaf v roots o' va' pte' → pte.page = pte'.page →
    pte.writable = true → pte'.executable = false

/-- One leaf is writable and the other executable. -/
def Opposed (pte pte' : Pte) : Prop :=
  (pte.writable = true ∧ pte'.executable = true) ∨ (pte.executable = true ∧ pte'.writable = true)

namespace Exclusive
variable {v v' : Vm} {roots roots' : Nat → Option Nat}

omit [Platform] in
/-- Fewer leaves. -/
theorem mono (exclusive : Exclusive v roots)
    (fewer : ∀ o va pte, UserLeaf v' roots' o va pte → UserLeaf v roots o va pte) :
    Exclusive v' roots' := fun o va pte o' va' pte' leaf leaf' =>
  exclusive o va pte o' va' pte' (fewer o va pte leaf) (fewer o' va' pte' leaf')

omit [Platform] in
/-- One new leaf, opposed to none that stays. -/
theorem insert {new : Pte} (exclusive : Exclusive v roots) (single : ¬ Opposed new new)
    (leaves : ∀ o va pte, UserLeaf v' roots' o va pte →
      pte = new ∨ (UserLeaf v roots o va pte ∧ (pte.page = new.page → ¬ Opposed new pte))) : Exclusive v' roots' := by
  intro o va pte o' va' pte' leaf leaf' page write
  by_contra execute
  have execute : pte'.executable = true := Bool.eq_true_of_not_eq_false execute
  rcases leaves o va pte leaf with rfl | ⟨old, apart⟩
  · rcases leaves o' va' pte' leaf' with rfl | ⟨old', apart'⟩
    · exact single (.inl ⟨write, execute⟩)
    · exact apart' page.symm (.inl ⟨write, execute⟩)
  · rcases leaves o' va' pte' leaf' with rfl | ⟨old', apart'⟩
    · exact apart page (.inr ⟨execute, write⟩)
    · have closed := exclusive o va pte o' va' pte' old old' page write
      rw [execute] at closed
      cases closed

omit [Platform] in
/-- Two groups of leaves without a common page. -/
theorem union {roots₁ roots₂ : Nat → Option Nat} {v₁ v₂ : Vm} (first : Exclusive v₁ roots₁) (second : Exclusive v₂ roots₂)
    (leaves : ∀ o va pte, UserLeaf v' roots' o va pte → UserLeaf v₁ roots₁ o va pte ∨ UserLeaf v₂ roots₂ o va pte)
    (apart : ∀ o va pte o' va' pte', UserLeaf v₁ roots₁ o va pte → UserLeaf v₂ roots₂ o' va' pte' → pte.page ≠ pte'.page) :
    Exclusive v' roots' := by
  intro o va pte o' va' pte' leaf leaf' page
  rcases leaves o va pte leaf with old | new
  · rcases leaves o' va' pte' leaf' with old' | new'
    · exact first o va pte o' va' pte' old old' page
    · exact absurd page (apart _ _ _ _ _ _ old new')
  · rcases leaves o' va' pte' leaf' with old' | new'
    · exact absurd page.symm (apart _ _ _ _ _ _ old' new)
    · exact second o va pte o' va' pte' new new' page

end Exclusive

omit [Platform] in
theorem not_opposed_user {flags : PteFlags} {n : Nat} (bound : n < 2 ^ 52) (kind : flags = userRw ∨ flags = userRx) :
    ¬ Opposed (.new (n * pageSize) flags) (.new (n * pageSize) flags) := by
  have small : flags.bits.toNat < 1024 := by rcases kind with rfl | rfl <;> decide
  unfold Opposed Pte.writable Pte.executable
  rw [Pte.new_flags bound small]
  rcases kind with rfl | rfl <;> decide

/-! ### Images -/

/-- The leaves of one space alone. -/
def Single (v : Vm) (root : Nat) : Prop := Exclusive v fun _ => some root

section Images
variable {v v₀ v₁ v₂ : Vm} {root : Nat} {load : Memory → Word → Result Byte}

omit [Platform] in
theorem Single.congr (single : Single v₀ root) (leaves : ∀ va, leafAt v₁.mem root va = leafAt v₀.mem root va) :
    Single v₁ root := by
  refine Exclusive.mono single ?_
  rintro o va pte ⟨_, ⟨⟩, leaf, user⟩
  exact ⟨root, rfl, leaves va ▸ leaf, user⟩

omit [Platform] in
theorem Single.of_kernel (kernel : ∀ va pte, leafAt v.mem root va = some pte → pte.user = false) : Single v root := by
  rintro o va pte _ _ _ ⟨_, ⟨⟩, leaf, user⟩
  rw [kernel va pte leaf] at user
  cases user

theorem map_single {n va : Nat} {flags : PteFlags} (builds : Builds v v₁ root) (single : Single v₁ root)
    (kind : flags = userRw ∨ flags = userRx) (used : Used v₁.alloc n)
    (bare : ∀ va pte, leafAt v₁.mem root va = some pte → pte.user = true → pte.page ≠ n)
    (h : mapPage v₁ (root * pageSize) va (n * pageSize) flags = .ok v₂) : Single v₂ root := by
  have bound : n < 2 ^ 52 := by
    have := used_range builds.managed used
    omega
  have permission : IsPermission flags := by
    rcases kind with rfl | rfl
    · exact isPermission_user.2.1
    · exact isPermission_user.1
  obtain ⟨-, -, leaf⟩ := mapPage_ok builds.managed builds.space (permission.new_isLeaf bound) h
  refine Exclusive.insert single (not_opposed_user bound kind) ?_
  rintro o va' pte ⟨_, ⟨⟩, reached, user⟩
  rw [leaf] at reached
  split at reached
  · exact .inl (Option.some.inj reached).symm
  · refine .inr ⟨⟨root, rfl, reached, user⟩, fun same => absurd ?_ (bare va' pte reached user)⟩
    rw [same, Pte.new_page bound permission.small]

theorem place_single {va addr : Nat} {flags : PteFlags} {m : Memory} (builds : Builds v v₀ root) (single : Single v₀ root)
    (kind : flags = userRw ∨ flags = userRx) (allocated : allocZeroedPage v₀ = .ok (addr, v₁))
    (fill : ∀ x, x / pageSize ≠ addr / pageSize → m x = v₁.mem x)
    (h : mapPage { v₁ with mem := m } (root * pageSize) va addr flags = .ok v₂) : Single v₂ root := by
  obtain ⟨n, rfl, takes, fresh, used⟩ := Boot.takes_page builds.managed allocated fill
  obtain ⟨builds₁, -, leaves⟩ := builds.take takes
  refine map_single builds₁ (single.congr leaves) kind used (fun va pte leaf user => ?_) h
  rintro rfl
  rw [leaves] at leaf
  exact fresh (builds.user va pte leaf user).2.1

theorem loadPage_single {seg : Elf.LoadSegment} {p : Nat} (builds : Builds v v₀ root) (single : Single v₀ root)
    (h : loadPage load (root * pageSize) seg v₀ p = .ok v₁) : Single v₁ root := by
  unfold loadPage at h
  obtain ⟨⟨page, v₂⟩, allocated, h⟩ := bind_ok h
  obtain ⟨mem, copied, h⟩ := bind_ok h
  obtain ⟨n, rfl, -, -⟩ := allocZeroedPage_ok builds.managed allocated
  refine place_single builds single ?_ allocated (fun x other => copyPage_frame copied ?_) h
  · cases seg.executable
    · exact .inl rfl
    · exact .inr rfl
  · rwa [Nat.mul_div_cancel n (by decide)] at other

theorem loadPages_single {seg : Elf.LoadSegment} {count p : Nat} (builds : Builds v v₀ root) (single : Single v₀ root)
    (h : loadPages load (root * pageSize) seg count p v₀ = .ok v₁) : Single v₁ root := by
  induction count generalizing v₀ p with
  | zero =>
    cases h
    exact single
  | succ count ih =>
    obtain ⟨v₂, first, rest⟩ := bind_ok h
    exact ih (loadPage_ok builds first).1 (loadPage_single builds single first) rest

theorem loadSegments_single {segments : List Elf.LoadSegment} (builds : Builds v v₀ root) (single : Single v₀ root)
    (h : loadSegments load (root * pageSize) segments v₀ = .ok v₁) : Single v₁ root := by
  induction segments generalizing v₀ with
  | nil =>
    cases h
    exact single
  | cons seg segments ih =>
    obtain ⟨v₂, first, rest⟩ := bind_ok h
    exact ih (loadPages_ok builds first).1 (loadPages_single builds single first) rest

theorem loadElf_single {info : Elf.ElfInfo} {n : Nat} (managed : Managed v.alloc)
    (h : loadElf load info v = .ok (n * pageSize, v₂)) : Single v₂ n := by
  obtain ⟨v₀, v₁, m, same, allocated, regions, -, kernel, -⟩ := loadElf_ok managed h
  obtain rfl : n = m := Nat.eq_of_mul_eq_mul_right (by decide) same
  unfold loadElf at h
  rw [allocated, ok_bind] at h
  dsimp only at h
  rw [regions, ok_bind] at h
  obtain ⟨v₃, segments, h⟩ := bind_ok h
  obtain ⟨⟨userStack, v₄⟩, stack, h⟩ := bind_ok h
  obtain ⟨v₅, mapped, h⟩ := bind_ok h
  cases h
  obtain ⟨n', own, grants, zeroed⟩ := allocZeroedPage_ok managed allocated
  obtain rfl : n = n' := Nat.eq_of_mul_eq_mul_right (by decide) own
  obtain ⟨builds₀, none⟩ := Builds.of_root (.refl managed) grants zeroed
  obtain ⟨space₁, grown₁, -⟩ := mapKernelRegions_ok builds₀.managed builds₀.space regions
  have builds₁ : Builds v v₁ n := builds₀.extend space₁ grown₁ fun va pte leaf user => by
    rw [kernel va pte leaf] at user
    cases user
  have builds₂ := (loadSegments_ok builds₁ segments).1
  exact place_single (m := v₄.mem) builds₂ (loadSegments_single builds₁ (.of_kernel kernel) segments) (.inl rfl) stack
    (fun _ _ => rfl) mapped

end Images

/-! ### Joining a space -/

section Join
variable {guard : Pte → Bool} {v v' : Vm} {roots : Nat → Option Nat} {o root : Nat}

theorem Builds.user_inHeap (builds : Builds v v' root) {va : Nat} {pte : Pte} (leaf : leafAt v'.mem root va = some pte)
    (user : pte.user = true) : InHeap pte.page :=
  used_inHeap builds.managed (builds.user va pte leaf user).2.1

/-- The leaves after a new space has taken the place of its owner's. -/
theorem userLeaf_update (spaces : Spaces guard v roots) (builds : Builds v v' root) {o' va : Nat} {pte : Pte}
    (leaf : UserLeaf v' (Function.update roots o (some root)) o' va pte) :
    UserLeaf v roots o' va pte ∨ UserLeaf v' (fun _ => some root) o' va pte := by
  obtain ⟨root', own, leaf, user⟩ := leaf
  by_cases new : o' = o
  · subst new
    rw [Function.update_self] at own
    exact .inr ⟨root', own, leaf, user⟩
  · rw [Function.update_of_ne new] at own
    rw [(Spaces.sameTables_of_mem (spaces.built_tables builds)).leaves va own] at leaf
    exact .inl ⟨root', own, leaf, user⟩

/-- A space built on unused pages shares none with the others. -/
theorem Exclusive.join (exclusive : Exclusive v roots) (spaces : Spaces guard v roots) (builds : Builds v v' root)
    (single : Single v' root) : Exclusive v' (Function.update roots o (some root)) := by
  refine Exclusive.union exclusive single (fun o' va pte => userLeaf_update spaces builds) ?_
  rintro o₁ va₁ pte₁ o₂ va₂ pte₂ ⟨root₁, own₁, leaf₁, user₁⟩ ⟨_, ⟨⟩, leaf₂, user₂⟩ page
  have heap := builds.user_inHeap leaf₂ user₂
  rw [← page] at heap
  have unused := (builds.user va₂ pte₂ leaf₂ user₂).1
  rw [← page] at unused
  exact unused (spaces.backed own₁ leaf₁ user₁ heap)

/-- Mapping one more page, opposed to no leaf but the one it replaces. -/
theorem Exclusive.map {va : Nat} {new : Pte} (exclusive : Exclusive v roots) (spaces : Spaces guard v roots)
    (own : roots o = some root) (grown : Extends v v' root)
    (leaf : ∀ va', leafAt v'.mem root va' = if vpn va' = vpn va then some new else leafAt v.mem root va')
    (single : ¬ Opposed new new)
    (fits : ∀ o' va' pte, UserLeaf v roots o' va' pte → ¬ (o' = o ∧ vpn va' = vpn va) → pte.page = new.page →
      ¬ Opposed new pte) : Exclusive v' roots := by
  refine exclusive.insert single ?_
  rintro o' va' pte ⟨root', own', reached, user⟩
  by_cases same : o' = o
  · subst same
    obtain rfl : root = root' := Option.some.inj (own.symm.trans own')
    rw [leaf] at reached
    split at reached
    · exact .inl (Option.some.inj reached).symm
    · next other =>
      have old : UserLeaf v roots o' va' pte := ⟨root, own, reached, user⟩
      exact .inr ⟨old, fits o' va' pte old fun here => other here.2⟩
  · rw [leafAt_congr (spaces.other_tables own grown own' same)] at reached
    have old : UserLeaf v roots o' va' pte := ⟨root', own', reached, user⟩
    exact .inr ⟨old, fits o' va' pte old fun here => same here.1⟩

end Join

/-! ### Boot -/

namespace Boot
variable {guard : Pte → Bool} {k k' : Kernel} {pid : Nat}

/-- The user pages of the boot: exclusive, and all in the heap. -/
structure Placed (v : Vm) (roots : Nat → Option Nat) : Prop where
  exclusive : Exclusive v roots
  heap : ∀ o va pte, UserLeaf v roots o va pte → InHeap pte.page

theorem Placed.join {v v' : Vm} {roots : Nat → Option Nat} {root : Nat} (placed : Placed v roots)
    (spaces : Spaces guard v roots) (builds : Builds v v' root) (single : Single v' root) :
    Placed v' (Function.update roots pid (some root)) := by
  refine ⟨placed.exclusive.join spaces builds single, fun o va pte leaf => ?_⟩
  rcases userLeaf_update spaces builds leaf with old | ⟨_, ⟨⟩, leaf, user⟩
  · exact placed.heap o va pte old
  · exact builds.user_inHeap leaf user

theorem createProcess_single {code : Nat × Nat} (fits : code.2 ≤ pageSize) (managed : Managed k.vm.alloc)
    (h : createProcess k pid code = .ok k') :
    ∃ root entry sp, Builds k.vm k'.vm root ∧ Single k'.vm root ∧ k' = { k with
      procs := Function.update k.procs pid (newProcess pid 0 (makeSatp (root * pageSize) (BitVec.ofNat 16 pid)) entry sp)
      vm := k'.vm } := by
  obtain ⟨v₁, v₂, root, c, s, entry, builds₁, -, kernel, apart, taken, codeMapped, stackMapped, same⟩ :=
    createProcess_maps fits managed h
  obtain ⟨freshCode, usedCode, plainCode⟩ := taken c (.inl rfl)
  obtain ⟨freshStack, usedStack, plainStack⟩ := taken s (.inr rfl)
  have rx : userRx.contains .user = true := by decide
  have rw' : userRw.contains .user = true := by decide
  obtain ⟨builds₂, grown₂, -⟩ := map_user builds₁ isPermission_user.1 rx ⟨freshCode, usedCode, plainCode⟩ codeMapped
  have plain₂ : ¬ IsTable v₂ root s := by
    intro table
    rcases grown₂.fresh s table with before | unused
    · exact plainStack before
    · exact unused usedStack
  obtain ⟨builds₃, -, -⟩ := map_user builds₂ isPermission_user.2.1 rw' ⟨freshStack, grown₂.keeps s usedStack, plain₂⟩ stackMapped
  have bound : c < 2 ^ 52 := by
    have := used_range builds₁.managed usedCode
    omega
  obtain ⟨-, -, leaf⟩ := mapPage_ok builds₁.managed builds₁.space (isPermission_user.1.new_isLeaf bound) codeMapped
  -- The code page is the only user page until the stack is mapped.
  have single₂ : Single v₂ root := map_single builds₁ (.of_kernel kernel) (.inr rfl) usedCode
    (fun va pte leaf user => by rw [kernel va pte leaf] at user; cases user) codeMapped
  have single₃ : Single k'.vm root := by
    refine map_single builds₂ single₂ (.inl rfl) (grown₂.keeps s usedStack) (fun va pte reached user => ?_) stackMapped
    rw [leaf] at reached
    split at reached
    · cases reached
      rwa [Pte.new_page bound isPermission_user.1.small]
    · rw [kernel va pte reached] at user
      cases user
  exact ⟨root, entry, _, builds₃, single₃, same⟩

section Launch
variable (spaces : Spaces guard k.vm k.roots) (placed : Placed k.vm k.roots)
include spaces placed

theorem createProcess_placed {code : Nat × Nat} (fits : code.2 ≤ pageSize) (process : pid ≠ 0)
    (h : createProcess k pid code = .ok k') : Placed k'.vm k'.roots := by
  obtain ⟨root, entry, sp, builds, single, same⟩ := createProcess_single fits spaces.managed h
  have roots : k'.roots = Function.update k.roots pid (some root) :=
    roots_install process (builds_bound builds) (by rw [same]) (by rw [same])
  rw [roots]
  exact placed.join spaces builds single

theorem createProcessFromElf_placed {info : Elf.ElfInfo} {elfStart : Nat} (process : pid ≠ 0)
    (h : createProcessFromElf k pid info elfStart = .ok k') : Placed k'.vm k'.roots := by
  unfold createProcessFromElf at h
  obtain ⟨⟨userRoot, v⟩, loaded, h⟩ := bind_ok h
  cases h
  obtain ⟨-, -, root, rfl, -, -, builds, -⟩ := loadElf_ok spaces.managed loaded
  have roots := @roots_install k.toCore { k.toCore with
    procs := Function.update k.procs pid (newProcess pid 0 (makeSatp (root * pageSize) (BitVec.ofNat 16 pid)) info.entry
      (BitVec.ofNat 64 (stackVa + pageSize))) } _ _ _ _ _ _ process (builds_bound builds) rfl rfl
  show Placed v (Core.roots _)
  rw [roots]
  exact placed.join spaces builds (loadElf_single spaces.managed loaded)

theorem launchTest_placed (h : launchTest k = .ok k') : Placed k'.vm k'.roots := by
  unfold launchTest at h
  split at h
  · exact createProcess_placed spaces placed Platform.programs_fit.2.2 (by decide) h
  · cases h
    exact placed

theorem launchRust_placed (h : launchRust k = .ok k') : Placed k'.vm k'.roots := by
  unfold launchRust at h
  split at h
  · obtain ⟨parsed, -, h⟩ := bind_ok h
    split at h
    · cases h
    · exact createProcessFromElf_placed spaces placed (by decide) h
  · cases h
    exact placed

theorem uart_exclusive {v : Vm} {root : Nat} (own : k.roots pid = some root)
    (h : mapPage k.vm (root * pageSize) uartUserVa uartBase userMmio = .ok v) : Exclusive v k.roots := by
  have leaf : (Pte.new uartBase userMmio).isLeaf = true := isPermission_user.2.2.new_isLeaf (n := 0x10000) (by decide)
  obtain ⟨-, grown, leaves⟩ := mapPage_ok spaces.managed (spaces.space own) leaf h
  refine placed.exclusive.map spaces own grown leaves ?_ fun o va pte reached _ page => ?_
  · unfold Opposed
    decide
  · have heap := placed.heap o va pte reached
    rw [page] at heap
    exact absurd heap uart_outside

theorem launchDefault_exclusive (h : launchDefault k = .ok k') : Exclusive k'.vm k'.roots := by
  unfold launchDefault at h
  split at h
  · cases h
    exact placed.exclusive
  · obtain ⟨k₁, init, h⟩ := bind_ok h
    obtain ⟨k₂, server, h⟩ := bind_ok h
    obtain ⟨vm, mapped, h⟩ := bind_ok h
    cases h
    have spaces₁ := createProcess_spaces spaces Platform.programs_fit.1 (by decide) init
    have placed₁ := createProcess_placed spaces placed Platform.programs_fit.1 (by decide) init
    have spaces₂ := createProcess_spaces spaces₁ Platform.programs_fit.2.1 (by decide) server
    have placed₂ := createProcess_placed spaces₁ placed₁ Platform.programs_fit.2.1 (by decide) server
    obtain ⟨satp, entry, sp, same⟩ := createProcess_creates server
    have live : (k₂.procs 2).state ≠ .free := by
      rw [same]
      simp only [Function.update_self]
      nofun
    rw [satpToRoot_eq] at mapped
    exact uart_exclusive spaces₂ placed₂ (Core.roots_live (by decide) live) mapped

theorem createProcesses_exclusive (h : createProcesses k = .ok k') : Exclusive k'.vm k'.roots := by
  unfold createProcesses at h
  obtain ⟨k₁, tested, h⟩ := bind_ok h
  obtain ⟨k₂, rust, h⟩ := bind_ok h
  have spaces₁ := launchTest_spaces spaces tested
  have placed₁ := launchTest_placed spaces placed tested
  exact launchDefault_exclusive (launchRust_spaces spaces₁ rust) (launchRust_placed spaces₁ placed₁ rust) h

end Launch

theorem booted_exclusive {k : Kernel} (booted : Booted k) : Exclusive k.vm k.roots := by
  obtain ⟨env, v, addr, v', k₁, managed, paged, launched, vm, roots⟩ := booted_created booted
  have spaces : Spaces (fun _ => true) (pagedKernel env addr v').vm (pagedKernel env addr v').roots :=
    init_spaces env managed paged
  obtain ⟨n, builds, kernel, first⟩ := init_builds env managed paged
  have none : ∀ o va pte, ¬ UserLeaf (pagedKernel env addr v').vm (pagedKernel env addr v').roots o va pte := by
    rintro o va pte ⟨root, own, leaf, user⟩
    rw [first] at own
    by_cases same : o = 0
    · subst same
      rw [Function.update_self] at own
      cases own
      rw [kernel va pte leaf] at user
      cases user
    · rw [Function.update_of_ne same] at own
      cases own
  rw [vm, roots]
  refine createProcesses_exclusive spaces ⟨fun o va pte _ _ _ leaf => ?_, fun o va pte leaf => ?_⟩ launched
  · exact absurd leaf (none o va pte)
  · exact absurd leaf (none o va pte)

end Boot

/-! ### Runs -/

/-- A walk of a live process's table to a user page. -/
structure UserWalk (k : Kernel) (p va : Nat) (w : WalkResult) : Prop where
  live : (k.procs p).state ≠ .free
  walked : walk (satpToRoot (k.procs p).satp) va k.vm.mem.read64 = some w
  user : w.flags.contains .user = true

/-- No page is writable through one user leaf and executable through another. -/
def WriteXorExecute (k : Kernel) : Prop :=
  ∀ p va w p' va' w', UserWalk k p va w → UserWalk k p' va' w' → pageDown w.phys = pageDown w'.phys →
    w.flags.contains .write = true → w'.flags.contains .execute = false

/-- An accepted SYS_MAP maps writable no page that a user leaf executes, and executable none that a user
leaf writes; the caller's leaf that it replaces does not count. -/
def MapsApart (k : Kernel) : Prop :=
  k.frame.a7.toNat = sysMapNo → MapPasses k → ∀ p va w, UserWalk k p va w → pageDown w.phys = k.frame.a0.toNat →
    (p = k.currentPid ∧ vpn va = vpn k.frame.a1.toNat) ∨
      w.flags.contains (if k.frame.a2.toNat = 0 then .execute else .write) = false

/-- The roots of the live processes. -/
def Core.userRoots (c : Core) (o : Nat) : Option Nat := if o = 0 then none else c.roots o

section Step
variable {k k' : Kernel} {l : Label}

omit [Platform] in
theorem userRoots_some {c : Core} {o root : Nat} (own : c.userRoots o = some root) : o ≠ 0 ∧ c.roots o = some root := by
  unfold Core.userRoots at own
  split at own
  · cases own
  · next process => exact ⟨process, own⟩

omit [Platform] in
theorem userRoots_of_ne {c : Core} {o : Nat} (process : o ≠ 0) : c.userRoots o = c.roots o := if_neg process

omit [Platform] in
theorem userRoots_congr {c c' : Core} (same : c'.roots = c.roots) : c'.userRoots = c.userRoots := by
  funext o
  simp only [Core.userRoots, same]

theorem UserWalk.leaf {p va : Nat} {w : WalkResult} (cons : Consistent k.toCore) (walk : UserWalk k p va w) :
    ∃ pte, UserLeaf k.vm k.userRoots p va pte ∧ w.flags = pte.flags ∧ pageDown w.phys = pte.page * pageSize := by
  obtain ⟨live, walked, user⟩ := walk
  obtain ⟨root, pte, own, leaf, flags, page⟩ := walk_live cons live walked
  have range := cons.range p live
  refine ⟨pte, ⟨root, ?_, leaf, ?_⟩, flags, ?_⟩
  · rw [userRoots_of_ne (by omega), own]
  · rw [Pte.user, ← flags, user]
  · rw [page]
    rfl

/-- Every user leaf of a live process is the end of a user walk. -/
theorem UserLeaf.walk {o va : Nat} {pte : Pte} (leaf : UserLeaf k.vm k.userRoots o va pte) :
    ∃ w, UserWalk k o va w ∧ w.flags = pte.flags ∧ pageDown w.phys = pte.page * pageSize := by
  obtain ⟨root, own, leaf, user⟩ := leaf
  obtain ⟨process, own⟩ := userRoots_some own
  have live : (k.procs o).state ≠ .free := by
    intro free
    rw [Core.roots, if_neg process, if_pos free] at own
    cases own
  rw [Core.roots_live process live, Option.some.injEq] at own
  have small : va % pageSize < pageSize := Nat.mod_lt _ (by decide)
  refine ⟨⟨pte.physAddr + va % pageSize, pte.flags⟩, ⟨live, ?_, user⟩, rfl, ?_⟩
  · rw [satpToRoot_eq, own, walk_eq, leaf]
    rfl
  · rw [Pte.physAddr_eq, pageDown, page_inside (Nat.le_add_right ..) (by omega)]

theorem writeXorExecute_of_exclusive (cons : Consistent k.toCore) (exclusive : Exclusive k.vm k.userRoots) :
    WriteXorExecute k := by
  intro p va w p' va' w' walk walk' same write
  obtain ⟨pte, leaf, flags, page⟩ := walk.leaf cons
  obtain ⟨pte', leaf', flags', page'⟩ := walk'.leaf cons
  have pages : pte.page = pte'.page := Nat.eq_of_mul_eq_mul_right (by decide) (page.symm.trans (same.trans page'))
  rw [flags] at write
  have closed := exclusive p va pte p' va' pte' leaf leaf' pages write
  rw [flags']
  exact closed

/-- What SYS_SPAWN leaves: an answer, or a new exclusive space. -/
theorem sysSpawn_single (managed : Managed k.vm.alloc) (h : sysSpawn k = .ok k') :
    k' = k.answer k.vm usizeMax ∨ ∃ pid root entry sp, pid ≠ 0 ∧ Builds k.vm k'.vm root ∧ Single k'.vm root ∧
      k'.kernelSatp = k.kernelSatp ∧
      k'.procs = Function.update k.procs pid
        (newProcess pid k.currentPid (makeSatp (root * pageSize) (BitVec.ofNat 16 pid)) entry sp) := by
  rw [sysSpawn_with, sysSpawnWith] at h
  split at h
  · obtain ⟨parsed, -, h⟩ := bind_ok h
    unfold spawnParsed at h
    split at h
    · cases h
      exact .inl rfl
    · split at h
      · cases h
        exact .inl rfl
      · next slot =>
        obtain ⟨⟨addr, v⟩, loaded, h⟩ := bind_ok h
        cases h
        obtain ⟨-, -, root, rfl, -, -, builds, -⟩ := loadElf_ok managed loaded
        obtain ⟨-, range⟩ := Slot.firstFree_some slot
        exact .inr ⟨_, root, _, _, by omega, builds, loadElf_single managed loaded, rfl, rfl⟩
  · cases h
    exact .inl rfl

/-- A step that neither maps nor spawns only loses leaves. -/
theorem Exclusive.quiet (frame : SpaceFrame k l k') (exclusive : Exclusive k.vm k.userRoots)
    (roots : ∀ o root, k'.roots o = some root → k.roots o = some root)
    (remaps : ∀ va, l = .trap .ecall → Remaps k k' va → ∀ root, k.roots k.currentPid = some root →
      leafAt k'.vm.mem root va = none) : Exclusive k'.vm k'.userRoots := by
  refine exclusive.mono ?_
  rintro o va pte ⟨root, own, leaf, user⟩
  obtain ⟨process, own⟩ := userRoots_some own
  have before := roots o root own
  rcases frame.leaves o root va before with same | ⟨call, rfl, remap⟩
  · exact ⟨root, (userRoots_of_ne process).trans before, same ▸ leaf, user⟩
  · rw [remaps va call remap root before] at leaf
    cases leaf

theorem Exclusive.sysMap {guard : Pte → Bool} {n : Nat} (exclusive : Exclusive k.vm k.userRoots)
    (spaces : Spaces guard k.vm k.roots) (own : k.roots k.currentPid = some (rootOf k.current.satp))
    (process : k.currentPid ≠ 0) (apart : MapsApart k) (number : k.frame.a7.toNat = sysMapNo)
    (phys : k.frame.a0.toNat = n * pageSize) (used : Used k.vm.alloc n) (passes : MapPasses k)
    (mapped : mapPage k.vm (rootOf k.current.satp * pageSize) k.frame.a1.toNat (n * pageSize) (mapFlags k) = .ok k'.vm)
    (roots : k'.roots = k.roots) : Exclusive k'.vm k'.userRoots := by
  have permission : IsPermission (mapFlags k) := (user_permission k.frame.a2.toNat).1
  have bound : n < 2 ^ 52 := by
    have := used_range spaces.managed used
    omega
  have kind : mapFlags k = userRw ∨ mapFlags k = userRx := by
    unfold mapFlags
    split
    · exact .inl rfl
    · exact .inr rfl
  have users : Spaces guard k.vm k.userRoots := spaces.drop fun o root own => (userRoots_some own).2
  obtain ⟨-, grown, leaf⟩ := mapPage_ok spaces.managed (spaces.space own) (permission.new_isLeaf bound) mapped
  rw [userRoots_congr roots]
  refine exclusive.map users ((userRoots_of_ne process).trans own) grown leaf (not_opposed_user bound kind) ?_
  intro o va pte old other page
  obtain ⟨w, walked, flags, down⟩ := old.walk
  rw [Pte.new_page bound permission.small] at page
  have closed := (apart number passes o va w walked (by rw [down, page, phys])).resolve_left other
  rw [flags] at closed
  unfold Opposed Pte.writable Pte.executable
  rw [Pte.new_flags bound permission.small]
  unfold mapFlags
  split at closed
  · next write =>
    have plain : userRw.contains .execute = false := by decide
    simp [if_pos write, closed, plain]
  · next execute =>
    have plain : userRx.contains .write = false := by decide
    simp [if_neg execute, closed, plain]

/-- Every step keeps the law, as long as SYS_MAP maps apart. -/
theorem Exclusive.step (cons : Consistent k.toCore) (tame : l = .trap .ecall → Tame Pte.writable k)
    (apart : l = .trap .ecall → MapsApart k) (spaces : Spaces Pte.writable k.vm k.roots)
    (exclusive : Exclusive k.vm k.userRoots) (step : Step k l k') : Exclusive k'.vm k'.userRoots := by
  have frame := step.spaceFrame guardsWrites_writable cons tame spaces
  by_cases trap : ∃ t, l = .trap t
  · obtain ⟨t, rfl⟩ := trap
    obtain ⟨handled, mode⟩ := step_trap step
    have traps := trapHandler_traps cons.toSettled mode cons.current_range handled
    cases trapHandler_effect spaces.managed cons mode handled with
    | quiet alloc stores still failed =>
      have roots : ∀ o root, k'.roots o = some root → k.roots o = some root := by
        intro o root own
        by_cases spawns : t = .ecall ∧ k.frame.a7.toNat = sysSpawnNo
        · rwa [roots_answer (failed spawns.1 (by rw [spawns.2]; decide) (by rw [spawns.2]))] at own
        · exact traps_roots cons mode traps spawns own
      refine exclusive.quiet frame roots fun va call remap => ?_
      -- A failed call answers -1.
      cases call
      have memory : sysMapNo ≤ k.frame.a7.toNat ∧ k.frame.a7.toNat ≤ sysSpawnNo := by
        rcases remap.call with ⟨number, -⟩ | ⟨number, -⟩ <;> simp [number, sysMapNo, sysUnmapNo, sysSpawnNo]
      have accepted := remap.accepted
      rw [failed rfl memory.1 memory.2] at accepted
      exact absurd accepted (by decide : usizeMax ≠ (0 : Word))
    | map call number phys used passes mapped core =>
      subst call
      have running := cons.running (mode rfl)
      exact exclusive.sysMap spaces (roots_current cons (mode rfl)) running.2 (apart rfl) number phys used passes mapped
        (roots_answer core)
    | unmap call number va unmapped core =>
      subst call
      have own := roots_current cons (mode rfl)
      obtain ⟨-, -, -, leaf⟩ := unmapPage_some spaces.managed (spaces.space own) unmapped
      refine exclusive.quiet frame (fun o root held => roots_answer core ▸ held) fun va _ remap root held => ?_
      obtain rfl := Option.some.inj (own.symm.trans held)
      rcases remap.call with ⟨other, -⟩ | ⟨-, here⟩
      · exact absurd (other.symm.trans number) (by decide)
      · rw [leaf, if_pos here.symm]
    | grant call number grants zeroed core =>
      refine exclusive.quiet frame (fun o root held => roots_answer core ▸ held) fun va _ remap => ?_
      rcases remap.call with ⟨other, -⟩ | ⟨other, -⟩ <;> exact absurd (other.symm.trans number) (by decide)
    | release call number phys passes releases zeroed core =>
      refine exclusive.quiet frame (fun o root held => roots_answer core ▸ held) fun va _ remap => ?_
      rcases remap.call with ⟨other, -⟩ | ⟨other, -⟩ <;> exact absurd (other.symm.trans number) (by decide)
    | spawn call number free range builds core =>
      subst call
      have spawned : sysSpawn k = .ok k' := by
        rw [← handled]
        simp only [trapHandler, handleEcall, number]
      have users : Spaces Pte.writable k.vm k.userRoots := spaces.drop fun o root own => (userRoots_some own).2
      rcases sysSpawn_single spaces.managed spawned with rfl | ⟨pid', root', entry', sp', process, builds', single, kernel, procs⟩
      · exact exclusive
      · have roots := roots_install process (builds_bound builds') kernel procs
        have same : k'.userRoots = Function.update k.userRoots pid' (some root') := by
          funext o
          by_cases own : o = pid'
          · rw [own, userRoots_of_ne process, roots, Function.update_self, Function.update_self]
          · rw [Core.userRoots, roots, Function.update_of_ne own, Function.update_of_ne own, Core.userRoots]
        rw [same]
        exact exclusive.join users builds' single
  · obtain ⟨procs, -, -, -, kernel, -, -, -⟩ := step_other step fun t same => trap ⟨t, same⟩
    refine exclusive.quiet frame (fun o root own => ?_) fun va call => absurd ⟨_, call⟩ trap
    rwa [Core.roots, kernel, procs] at own

end Step

/-- One page under a writable and an executable leaf of one process. -/
theorem not_writeXorExecute {k : Kernel} {p root n va va' : Nat} (process : p ≠ 0) (bound : n < 2 ^ 52)
    (own : k.roots p = some root) (write : leafAt k.vm.mem root va = some (.new (n * pageSize) userRw))
    (execute : leafAt k.vm.mem root va' = some (.new (n * pageSize) userRx)) : ¬ WriteXorExecute k := by
  intro law
  have held := (userRoots_of_ne process).trans own
  have rw' := isPermission_user.2.1.small
  have rx := isPermission_user.1.small
  have user : (Pte.new (n * pageSize) userRw).user = true ∧ (Pte.new (n * pageSize) userRx).user = true := by
    rw [Pte.user, Pte.user, Pte.new_flags bound rw', Pte.new_flags bound rx]
    decide
  have writable : UserLeaf k.vm k.userRoots p va (.new (n * pageSize) userRw) := ⟨root, held, write, user.1⟩
  have executable : UserLeaf k.vm k.userRoots p va' (.new (n * pageSize) userRx) := ⟨root, held, execute, user.2⟩
  obtain ⟨w, walk, flags, page⟩ := writable.walk
  obtain ⟨w', walk', flags', page'⟩ := executable.walk
  rw [Pte.new_flags bound rw'] at flags
  rw [Pte.new_flags bound rx] at flags'
  rw [Pte.new_page bound rw'] at page
  rw [Pte.new_page bound rx] at page'
  have closed := law p va w p va' w' walk walk' (page.trans page'.symm) (by rw [flags]; decide)
  rw [flags'] at closed
  exact absurd closed (by decide)

/-- The law holds in every state of a run whose calls all map apart. -/
theorem writeXorExecute_of_apart (r : MachineRun)
    (careful : ∀ n, n < r.len → r.label n = .trap .ecall → Careful (r.state n) ∧ MapsApart (r.state n)) {n : Nat}
    (bound : n ≤ r.len) : WriteXorExecute (r.state n) := by
  have tame : ∀ m, m < n → r.label m = .trap .ecall → Tame Pte.writable (r.state m) := fun m before call =>
    (careful m (by omega) call).1.tame (r.managed (by omega))
  refine writeXorExecute_of_exclusive (r.consistent bound) ?_
  induction n with
  | zero =>
    refine (Boot.booted_exclusive r.start).mono ?_
    rintro o va pte ⟨root, own, rest⟩
    exact ⟨root, (userRoots_some own).2, rest⟩
  | succ n ih =>
    have before := ih (by omega) fun m below => tame m (by omega)
    have spaces := r.spaces guardsWrites_writable (fun m below => tame m (by omega)) (Nat.le_of_lt bound)
    exact before.step (r.consistent (by omega)) (tame n (by omega)) (fun call => (careful n bound call).2) spaces
      (r.steps n bound)

end Law

section Reference
open Reference
attribute [local instance] Reference.platform

/-- PID 1 allocates a page and maps it. -/
theorem writeXorExecute_placed : ∃ r : MachineRun, r.len = 4 ∧ WriteXorExecute (r.state 4) := by
  obtain ⟨n, v, v', placed⟩ := exists_placed
  refine ⟨exchangeRun [⟨allocCall, v, pageArg n⟩, ⟨mapCall n, v', 0⟩] ⟨placed.handled, placed.mapped, trivial⟩, rfl,
    writeXorExecute_of_apart _ (fun m bound label => ?_) le_rfl⟩
  rcases exchangeRun_call ⟨bound, label, rfl, rfl⟩ with ⟨rfl, -⟩ | ⟨rfl, -⟩
  · have other := calling_number sysAllocPagesNo (by decide) 1 0
    exact ⟨⟨fun number => absurd (other.symm.trans number) (by decide),
      fun number => absurd (other.symm.trans number) (by decide)⟩,
      fun number => absurd (other.symm.trans number) (by decide)⟩
  · have other := calling_number sysMapNo (by decide) (pageArg n) 0x5000_0000
    have arg : (pageArg n).toNat = n * pageSize :=
      pageArg_toNat placed.grants.managed ((placed.grants.used n).mpr (Or.inl rfl))
    refine ⟨⟨fun _ _ _ x phys => ?_, fun number => absurd (other.symm.trans number) (by decide)⟩, fun _ _ p va w walk down => ?_⟩
    · obtain rfl : n = x := Nat.eq_of_mul_eq_mul_right (by decide) (arg.symm.trans phys)
      exact placed.plain
    · -- Nothing leads to the new page before it is mapped.
      have cons := (exchangeRun [⟨allocCall, v, pageArg n⟩, ⟨mapCall n, v', 0⟩]
        ⟨placed.handled, placed.mapped, trivial⟩).consistent (Nat.le_of_lt bound)
      obtain ⟨pte, ⟨root, own, leaf, user⟩, -, page⟩ := walk.leaf cons
      have same : pte.page = n := Nat.eq_of_mul_eq_mul_right (by decide) (page.symm.trans (down.trans arg))
      exact absurd ⟨p, root, va, pte, (userRoots_some own).2, leaf, user, same⟩ placed.unmapped

/-- PID 1 maps its stack page a second time, executable. -/
theorem writeXorExecute_fails : ∃ (r : MachineRun) (n : Nat), n ≤ r.len ∧ ¬ WriteXorExecute (r.state n) := by
  have spaces : Spaces Pte.writable setup.vm setup.kernel.roots := Boot.booted_spaces starts.booted
  have pages := starts.pages
  obtain ⟨v', handled, mapped⟩ := map_answers spaces starts.used (by omega)
    (show isValidMapFlags (1 : Word).toNat = true by decide)
  refine ⟨exchangeRun [⟨{ mapCall setup.stack with a2 := 1 }, v', 0⟩] ⟨handled, trivial⟩, 2, le_rfl, ?_⟩
  change ¬ WriteXorExecute ((running setup.vm { mapCall setup.stack with a2 := 1 }).answer v' 0)
  have range := used_range spaces.managed starts.used
  have heap : (0x5000_0000 : Nat) < platform.heapStart := by decide
  have bound : setup.stack < 2 ^ 52 := by omega
  obtain ⟨-, -, leaf⟩ := mapPage_ok spaces.managed (spaces.space own₁) (isPermission_user.1.new_isLeaf bound) mapped
  have other : ¬ vpn (setup.stack * pageSize) = vpn 0x5000_0000 := by
    simp only [vpn, pageSize] at *
    omega
  have kept : leafAt v'.mem rootOf₁ (setup.stack * pageSize) = some (.new (setup.stack * pageSize) userRw) := by
    rw [leaf, if_neg other, starts.leaf]
  have second : leafAt v'.mem rootOf₁ 0x5000_0000 = some (.new (setup.stack * pageSize) userRx) := by
    rw [leaf, if_pos rfl]
  exact not_writeXorExecute (p := 1) (by decide) bound own₁ kept second

end Reference

end GooseOs
