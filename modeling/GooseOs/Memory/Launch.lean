import GooseOs.Memory.Isolation
import GooseOs.Machine.UserPrograms

/-!
What the boot path leaves in the two programs' spaces: init's text with its string, and the UART's page in the
server's window.
-/

namespace GooseOs
open Kvm Syscall BitmapAllocator

section Copy
variable {m : Memory} {dst src n : Nat}

theorem copyCode_bytes (apart : src + n ≤ dst) {j : Nat} (bound : j < n) :
    Boot.copyCode m dst src n (dst + j) = m (src + j) := by
  induction n generalizing m dst src j with
  | zero => omega
  | succ n ih =>
    cases j with
    | zero =>
      rw [Boot.copyCode, Boot.copyCode_frame (by omega), Nat.add_zero, Nat.add_zero, Memory.write8, Function.update_self]
    | succ j =>
      rw [Boot.copyCode, show dst + (j + 1) = dst + 1 + j by omega, ih (by omega) (by omega),
        Memory.write8_apply_ne (by omega), show src + 1 + j = src + (j + 1) by omega]

theorem page_low {va : Nat} (small : va / pageSize < 2 ^ 26) : va < 2 ^ 38 := by
  simp only [pageSize] at small
  omega

theorem page_below {va : Nat} (small : va / pageSize < 2 ^ 26) : va < 2 ^ 39 :=
  (page_low small).trans (by decide)

theorem vpn_below {n : Nat} (small : n < 2 ^ 26) : n * pageSize < 2 ^ 39 :=
  page_below (by rwa [Nat.mul_div_cancel n (by decide)])

end Copy

variable [Platform] {k k' : Kernel} {pid : Nat}

namespace Boot

/-- A boot-time process reads its code page at its entry, which holds the bytes of the image. -/
theorem createProcess_shows {code : Nat × Nat} (fits : code.2 ≤ pageSize) (image : code.1 + code.2 ≤ Platform.heapStart)
    (managed : Managed k.vm.alloc) (h : createProcess k pid code = .ok k') :
    ∃ c, Used k'.vm.alloc c ∧ (k'.procs pid).context.sepc = BitVec.ofNat 64 (c * pageSize) ∧
      (∀ va, va / pageSize = c →
        leafAt k'.vm.mem (rootOf (k'.procs pid).satp) va = some (.new (c * pageSize) userRx)) ∧
      ∀ j < code.2, k'.vm.mem (c * pageSize + j) = k.vm.mem (code.1 + j) := by
  unfold createProcess at h
  obtain ⟨⟨userCode, v₁⟩, first, h⟩ := bind_ok h
  obtain ⟨⟨userStack, v₂⟩, second, h⟩ := bind_ok h
  obtain ⟨⟨userRoot, v₃⟩, third, h⟩ := bind_ok h
  obtain ⟨v₄, regions, h⟩ := bind_ok h
  obtain ⟨v₅, codeMapped, h⟩ := bind_ok h
  obtain ⟨v₆, stackMapped, h⟩ := bind_ok h
  cases h
  obtain ⟨c, rfl, grants, zeroed⟩ := allocZeroedPage_ok managed first
  -- The copied code page, before anything else is taken.
  generalize copied : ({ v₁ with mem := copyCode v₁.mem (c * pageSize) code.1 code.2 } : Vm) = v₁' at second
  have used : Used v₁'.alloc c := by
    rw [← copied]
    exact (grants.used c).mpr (.inl rfl)
  have managed₁ : Managed v₁'.alloc := by
    rw [← copied]
    exact grants.managed
  obtain ⟨low, high, small⟩ := used_range managed₁ used
  have bytes : ∀ j < code.2, v₁'.mem (c * pageSize + j) = k.vm.mem (code.1 + j) := by
    intro j bound
    rw [← copied]
    change copyCode v₁.mem (c * pageSize) code.1 code.2 (c * pageSize + j) = _
    rw [copyCode_bytes (by omega) bound, zeroed, Memory.fill_apply_outside (.inl (by omega))]
  obtain ⟨s, rfl, takes, freshStack, usedStack⟩ := takes_page (m := v₂.mem) managed₁ second fun _ _ => rfl
  obtain ⟨n, rfl, rooted, cleared⟩ := allocZeroedPage_ok takes.managed third
  obtain ⟨builds₃, none⟩ := Builds.of_root takes rooted cleared
  obtain ⟨space₄, grown₄, leaves₄⟩ := mapKernelRegions_ok builds₃.managed builds₃.space regions
  have builds₄ : Builds v₁' v₄ n := builds₃.extend space₄ grown₄ fun va pte leaf user => by
    rcases leaves₄ va pte leaf with plain | before
    · rw [plain] at user
      cases user
    · exact .inl before
  have used₄ : Used v₄.alloc c := builds₄.keeps c used
  rw [mapRange_page] at codeMapped stackMapped
  obtain ⟨space₅, grown₅, leaf₅⟩ := mapPage_ok builds₄.managed builds₄.space
    (isPermission_user.1.new_isLeaf (by omega : c < 2 ^ 52)) codeMapped
  have smallStack : s < 2 ^ 26 := (used_range takes.managed usedStack).2.2
  obtain ⟨space₆, grown₆, leaf₆⟩ := mapPage_ok grown₅.managed space₅
    (isPermission_user.2.1.new_isLeaf (by omega : s < 2 ^ 52)) stackMapped
  -- A page of the code holds no table of the space.
  have plain₄ : ¬ IsTable v₄ n c := fun table => builds₄.fresh c table used
  have used₅ : Used v₅.alloc c := grown₅.keeps c used₄
  have plain₅ : ¬ IsTable v₅ n c := fun table => (grown₅.fresh c table).elim plain₄ fun unused => unused used₄
  have plain₆ : ¬ IsTable v₆ n c := fun table => (grown₆.fresh c table).elim plain₅ fun unused => unused used₅
  have inside : ∀ j < code.2, (c * pageSize + j) / pageSize = c := by
    intro j bound
    simp only [pageSize] at *
    omega
  refine ⟨c, grown₆.keeps c used₅, by simp [newProcess], fun va page => ?_, fun j bound => ?_⟩
  · have apart : s ≠ c := by
      rintro rfl
      exact freshStack used
    have lowVa : va < 2 ^ 39 := page_below (page.trans_lt small)
    have code : vpn va = vpn (c * pageSize) := by
      rw [vpn_eq_iff (vpn_below small) lowVa, page]
      exact (Nat.mul_div_cancel c (by decide)).symm
    have stack : vpn va ≠ vpn (s * pageSize) := by
      rw [Ne, vpn_eq_iff (vpn_below smallStack) lowVa, page, Nat.mul_div_cancel s (by decide)]
      exact apart.symm
    change leafAt v₆.mem (rootOf (Function.update k.procs pid _ pid).satp) va = _
    rw [Function.update_self]
    refine (congrArg (leafAt v₆.mem · va) (rootOf_makeSatp (builds_bound builds₃))).trans ?_
    rw [leaf₆, if_neg stack, leaf₅, if_pos code]
  · have kept : v₄.mem (c * pageSize + j) = v₁'.mem (c * pageSize + j) := by
      by_contra differ
      exact (builds₄.frame _ differ).1 ((inside j bound).symm ▸ used)
    change v₆.mem (c * pageSize + j) = _
    rw [grown₆.frame _ (by rwa [inside j bound]), grown₅.frame _ (by rwa [inside j bound]), kept, bytes j bound]

end Boot

/-- A page outside the heap keeps its bytes while a space is built. -/
theorem Builds.outside {v v' : Vm} {root x : Nat} (builds : Builds v v' root) (low : x < Platform.heapStart) :
    v'.mem x = v.mem x := by
  by_contra differ
  have range := used_range builds.managed (builds.frame x differ).2
  simp only [pageSize] at range
  omega

namespace UserPrograms
variable {a : Assembled}

/-- Two processes of the boot path, and the server's window. -/
structure Launched (k k₁ k₂ : Kernel) (v : Vm) : Prop where
  init : Boot.createProcess k 1 Platform.userInit = .ok k₁
  server : Boot.createProcess k₁ 2 Platform.uartServer = .ok k₂
  window : mapPage k₂.vm (satpToRoot (k₂.procs 2).satp) Boot.uartUserVa uartBase userMmio = .ok v

theorem Starts.launched (starts : Starts a k) :
    ∃ k₀ k₁ k₂ v, Launched k₀ k₁ k₂ v ∧ Managed k₀.vm.alloc ∧ a.Embedded k₀.vm.mem ∧ k.vm = v ∧
      k.procs = Function.update k₂.procs 1 { k₂.procs 1 with state := .running } ∧
      k.frame.sepc = (k₂.procs 1).context.sepc := by
  obtain ⟨⟨test, rust⟩, ⟨env, -, h, embedded⟩, -, -⟩ := starts
  unfold Boot.boot at h
  obtain ⟨alloc, created, h⟩ := bind_ok h
  obtain ⟨alloc', tested, h⟩ := bind_ok h
  obtain ⟨⟨rootPt, vm⟩, paged, h⟩ := bind_ok h
  obtain ⟨k₃, launched, h⟩ := bind_ok h
  cases h
  obtain ⟨n, builds, -⟩ := Boot.init_builds env (Boot.selfTest_managed (Boot.pageAllocInit_managed created) tested) paged
  unfold Boot.createProcesses Boot.launchTest Boot.launchRust Boot.launchDefault at launched
  simp only [test, rust, Bool.false_eq_true, if_false, Bool.or_self, ok_bind] at launched
  obtain ⟨k₁, init, launched⟩ := bind_ok launched
  obtain ⟨k₂, server, launched⟩ := bind_ok launched
  obtain ⟨v, window, launched⟩ := bind_ok launched
  cases launched
  refine ⟨Boot.pagedKernel env rootPt vm, k₁, k₂, v, ⟨init, server, window⟩, builds.managed, ?_, rfl, rfl, rfl⟩
  refine ⟨embedded.text, embedded.inside, fun j bound => ?_⟩
  rw [← embedded.string j bound]
  refine Builds.outside builds ?_
  have inside := embedded.inside
  have text := embedded.text
  have rodata := Platform.rodata_le
  have data := Platform.data_le
  have bss := Platform.bss_le
  have heap := Platform.heap_le
  omega

section Spaces
variable {k₀ k₁ k₂ : Kernel} {v : Vm}

/-- What PID 1 uses is not touched when PID 2 is made. -/
theorem Launched.kept (launched : Launched k₀ k₁ k₂ v) (managed : Managed k₁.vm.alloc) {x : Nat}
    (used : Used k₁.vm.alloc (x / pageSize)) : v.mem x = k₁.vm.mem x := by
  obtain ⟨root, entry, stack, builds, -, -, -, same⟩ :=
    Boot.createProcess_ok Platform.programs_fit.2.1 managed launched.server
  have window := launched.window
  have satp : (k₂.procs 2).satp = makeSatp (root * pageSize) (BitVec.ofNat 16 2) := by
    rw [same]
    change (Function.update k₁.procs 2 _ 2).satp = _
    rw [Function.update_self]
    rfl
  rw [satp, satpToRoot_eq, rootOf_makeSatp (builds_bound builds)] at window
  obtain ⟨-, grown, -⟩ := mapPage_ok builds.managed builds.space
    (isPermission_user.2.2.new_isLeaf (n := 0x10000) (by decide)) window
  have plain : ¬ IsTable v root (x / pageSize) := by
    intro table
    rcases grown.fresh _ table with before | unused
    · exact builds.fresh _ before used
    · exact unused (builds.keeps _ used)
  rw [grown.frame x plain]
  by_contra differ
  exact (builds.frame x differ).1 used

end Spaces

/-- The two spaces as the programs find them. -/
theorem Starts.mapped (starts : Starts a k) : Mapped a k.vm.mem (k.procs 1).satp (k.procs 2).satp := by
  obtain ⟨k₀, k₁, k₂, v, launched, managed, embedded, memory, procs, -⟩ := starts.launched
  have text := embedded.text
  have image : Platform.userInit.1 + Platform.userInit.2 ≤ Platform.heapStart := by
    have rodata := Platform.rodata_le
    have data := Platform.data_le
    have bss := Platform.bss_le
    have heap := Platform.heap_le
    omega
  obtain ⟨root, entry, stack, builds, -, -, -, same₁⟩ :=
    Boot.createProcess_ok Platform.programs_fit.1 managed launched.init
  obtain ⟨c, used, start, code, bytes⟩ :=
    Boot.createProcess_shows Platform.programs_fit.1 image managed launched.init
  obtain ⟨low, high, small⟩ := used_range builds.managed used
  obtain ⟨root₂, entry₂, stack₂, builds₂, -, -, -, same₂⟩ :=
    Boot.createProcess_ok Platform.programs_fit.2.1 builds.managed launched.server
  have first : k.procs 1 = { k₁.procs 1 with state := .running } := by
    rw [procs, Function.update_self, same₂]
    rfl
  have second : (k.procs 2).satp = makeSatp (root₂ * pageSize) (BitVec.ofNat 16 2) := by
    rw [procs, same₂]
    rfl
  have table : (k₁.procs 1).satp = makeSatp (root * pageSize) (BitVec.ofNat 16 1) := by
    rw [same₁]
    rfl
  rw [table, rootOf_makeSatp (builds_bound builds)] at code
  have base : a.initBase = BitVec.ofNat 64 (c * pageSize) := by rw [← starts.init, first, ← start]
  have kept : ∀ x, Used k₁.vm.alloc (x / pageSize) → v.mem x = k₁.vm.mem x := fun x =>
    launched.kept builds.managed
  refine ⟨fun n bound => ?_, fun off bound => ?_⟩
  · have inside := embedded.inside
    have fits := Platform.programs_fit.1
    generalize place : a.init.string.toNat + n = j
    have within : j < Platform.userInit.2 := by omega
    simp only [pageSize] at fits low high small base code bytes used
    have address : (charAt a.init a.initBase n).toNat = c * 4096 + j := by
      have tiny : userInit.string.length = 29 := by decide
      rw [charAt, base, BitVec.toNat_add, BitVec.toNat_add, BitVec.toNat_ofNat, BitVec.toNat_ofNat]
      omega
    have page : (c * 4096 + j) / 4096 = c := by omega
    have canonical : c * 4096 + j < 2 ^ 38 := page_low (page.trans_lt small)
    have leaf : leafAt v.mem root (c * 4096 + j) = some (.new (c * 4096) userRx) := by
      rw [← code _ page]
      exact leafAt_congr (fun x member => kept x (builds.space.used _ member)) _
    have wide : c < 2 ^ 52 := small.trans (by decide)
    have entry := Pte.new_page wide isPermission_user.1.small
    have flags := Pte.new_flags wide isPermission_user.1.small
    refine ⟨⟨c * 4096 + j, userRx⟩, ?_, ?_, ?_⟩
    · rw [memory, address, first, translate_eq (.inl canonical)]
      change (leafAt v.mem (rootOf (k₁.procs 1).satp) _).map _ = _
      rw [table, rootOf_makeSatp (builds_bound builds), leaf, Option.map_some, Pte.physAddr_eq, entry, flags]
      simp only [pageSize, Option.some.injEq, WalkResult.mk.injEq, and_true]
      omega
    · rintro ⟨lower, upper⟩
      refine Boot.uart_outside ?_
      rw [show uartBase = 0x10000 * pageSize from rfl, Pte.new_page (by decide) isPermission_user.2.2.small]
      obtain rfl : c = 0x10000 := by
        simp only [uartBase, pageSize] at lower upper
        omega
      exact ⟨low, high⟩
    · rw [memory, kept _ (by rw [show (c * 4096 + j) / pageSize = c from page]; exact used), bytes j within,
        ← embedded.string n bound, ← place, Nat.add_assoc]
  · have window := launched.window
    have satp : (k₂.procs 2).satp = makeSatp (root₂ * pageSize) (BitVec.ofNat 16 2) := by
      rw [same₂]
      rfl
    rw [satp, satpToRoot_eq, rootOf_makeSatp (builds_bound builds₂)] at window
    obtain ⟨-, -, leaf⟩ := mapPage_ok builds₂.managed builds₂.space
      (isPermission_user.2.2.new_isLeaf (n := 0x10000) (by decide)) window
    have entry := Pte.new_page (n := 0x10000) (by decide) isPermission_user.2.2.small
    simp only [pageSize] at bound entry
    have address : (0x5E000000 + off : Word).toNat = 0x5E000000 + off.toNat := by
      rw [BitVec.toNat_add]
      change (0x5E000000 + off.toNat) % 2 ^ 64 = _
      omega
    have page : vpn (0x5E000000 + off.toNat) = vpn Boot.uartUserVa := by
      rw [vpn_eq_iff (by decide) (by omega)]
      simp only [pageSize, Boot.uartUserVa]
      omega
    refine ⟨⟨uartBase + off.toNat, (Pte.new uartBase userMmio).flags⟩, ?_, by simp only [InUart, pageSize]; omega⟩
    rw [memory, second, address, translate_eq (.inl (by omega)), rootOf_makeSatp (builds_bound builds₂), leaf, if_pos page,
      Option.map_some, Pte.physAddr_eq]
    simp only [show uartBase = 0x10000 * 4096 from rfl, entry, pageSize, Option.some.injEq, WalkResult.mk.injEq, and_true]
    omega

theorem Starts.entry (starts : Starts a k) : k.frame.sepc = a.initBase := by
  obtain ⟨_, k₁, k₂, _, launched, -, -, -, procs, frame⟩ := starts.launched
  rw [frame, ← starts.init, procs, Function.update_self]

end UserPrograms
end GooseOs
