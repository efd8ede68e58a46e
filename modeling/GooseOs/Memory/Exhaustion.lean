import GooseOs.Machine.Spawning
import GooseOs.Memory.Accesses
import GooseOs.Process.Scheduling

/-!
Running out of pages. SYS_MAP and SYS_SPAWN take pages deep inside their loops and have no way to give
up half-way: a system call survives when the pages it will ask for are there before it starts.
-/

namespace GooseOs
open Kvm Syscall Trap Security BitmapAllocator

section Mapping
variable {v : Vm} {root va pa : Nat} {flags : PteFlags}

/-- No leaf is in the way of mapping `va`, and there are pages for the tables it has to make. -/
def Mappable (v : Vm) (root va : Nat) : Prop :=
  match entry v.mem root (vaParts va).1 with
  | .leaf _ => False
  | .empty => 2 ≤ v.alloc.freePages
  | .branch t =>
    match entry v.mem t (vaParts va).2.1 with
    | .leaf _ => False
    | .empty => 1 ≤ v.alloc.freePages
    | .branch _ => True

/-- An entry that is no leaf leads to a table, at the price of one page if it is empty. -/
theorem walkOrCreate_returns {t : Nat} {i : Fin ptEntries} (pages : v.alloc.Pages)
    (passable : ∀ l, entry v.mem t i ≠ .leaf l) (enough : entry v.mem t i = .empty → 1 ≤ v.alloc.freePages) :
    ∃ u v', walkOrCreate v (t * pageSize) i = .ok (u * pageSize, v') := by
  cases found : entry v.mem t i with
  | leaf l => exact absurd found (passable l)
  | branch u => exact ⟨u, v, walkOrCreate_found found⟩
  | empty =>
    rcases walkOrCreate_empty pages found with ⟨n, v', made, -, -⟩ | ⟨-, none⟩
    · exact ⟨n, v', made⟩
    · have some := enough found
      omega

theorem mapPage_returns (pages : v.alloc.Pages) (mappable : Mappable v root va) :
    ∃ v', mapPage v (root * pageSize) va pa flags = .ok v' := by
  unfold mapPage
  dsimp only
  rw [Mappable] at mappable
  cases top : entry v.mem root (vaParts va).1 with
  | leaf l =>
    rw [top] at mappable
    exact mappable.elim
  | branch t =>
    rw [top] at mappable
    dsimp only at mappable
    rw [walkOrCreate_found top, ok_bind]
    dsimp only
    have ⟨u, v', made⟩ : ∃ u v', walkOrCreate v (t * pageSize) (vaParts va).2.1 = .ok (u * pageSize, v') := by
      refine walkOrCreate_returns pages (fun l leaf => ?_) fun empty => ?_
      · rw [leaf] at mappable
        exact mappable
      · rw [empty] at mappable
        exact mappable
    rw [made]
    exact ⟨_, rfl⟩
  | empty =>
    rw [top] at mappable
    dsimp only at mappable
    rcases walkOrCreate_empty pages top with ⟨n, v₁, made, hands, written⟩ | ⟨-, none⟩
    · have count := hands.count
      rw [made, ok_bind]
      dsimp only
      have ⟨u, v', made⟩ : ∃ u v', walkOrCreate v₁ (n * pageSize) (vaParts va).2.1 = .ok (u * pageSize, v') := by
        refine walkOrCreate_returns hands.pages (fun l leaf => ?_) fun _ => by omega
        -- The new table is blank, but for the branch just stored if the root page itself was handed out.
        rw [written] at leaf
        by_cases own : n = root
        · subst own
          by_cases here : (vaParts va).2.1 = (vaParts va).1
          · rw [here, Radix.set_self] at leaf
            cases leaf
          · rw [Radix.set_of_index_ne here, entry_fill] at leaf
            cases leaf
        · rw [Radix.set_of_table_ne own, entry_fill] at leaf
          cases leaf
      rw [made]
      exact ⟨_, rfl⟩
    · omega

/-- A mappable address misses no more tables than there are pages. -/
theorem Mappable.fits (mappable : Mappable v root va) :
    tablesMissing v.mem root va ≤ v.alloc.freePages := by
  have first := childMissing_le v.mem root [(vaParts va).1]
  have second := childMissing_le v.mem root [(vaParts va).1, (vaParts va).2.1]
  rw [Mappable] at mappable
  rw [tablesMissing]
  cases top : entry v.mem root (vaParts va).1 with
  | leaf l =>
    rw [top] at mappable
    exact mappable.elim
  | empty =>
    rw [top] at mappable
    dsimp only at mappable
    omega
  | branch t =>
    rw [top] at mappable
    dsimp only at mappable
    have there : childMissing v.mem root [(vaParts va).1] = 0 := by
      rw [childMissing, Radix.follow, top]
      rfl
    cases middle : entry v.mem t (vaParts va).2.1 with
    | leaf l =>
      rw [middle] at mappable
      exact mappable.elim
    | empty =>
      rw [middle] at mappable
      dsimp only at mappable
      omega
    | branch u =>
      have there : childMissing v.mem root [(vaParts va).1, (vaParts va).2.1] = 0 := by
        rw [childMissing, Radix.follow, top, Entry.branch?, Option.bind_some, Radix.follow, middle]
        rfl
      omega

end Mapping

section Law
variable [Platform] {k : Kernel} {info : Elf.ElfInfo} {pid : Nat}

/-- SYS_MAP or SYS_SPAWN asks for more pages than there are. -/
inductive Short (k : Kernel) : Prop where
  | map (number : k.frame.a7.toNat = sysMapNo) (passes : MapPasses k)
      (short : k.vm.alloc.freePages < tablesMissing k.vm.mem (rootOf k.current.satp) k.frame.a1.toNat)
  | spawn {info : Elf.ElfInfo} {pid : Nat} (number : k.frame.a7.toNat = sysSpawnNo) (spawns : Spawns k info pid)
      (short : k.vm.alloc.freePages < demand info.segments)

/-- The handler returns, to a table that has the kernel mapped, or resets the machine when asked to; a call short of pages
is refused. -/
structure Survives (k : Kernel) : Prop where
  returns : (∃ k', handleEcall k = .ok k') ∨ (k.frame.a7.toNat = sysRebootNo ∧ handleEcall k = .error .reset)
  mapped : ∀ k', handleEcall k = .ok k' → KernelMapped k'.vm.mem k'.satp
  refuses : Short k → ∃ k', handleEcall k = .ok k' ∧ k'.frame.a0 = usizeMax ∧ k'.procs = k.procs ∧ k'.vm.alloc = k.vm.alloc

/-- What a system call will ask for is there: the kernel and the bytes of the call at their own addresses, under the
caller's table and one that may follow it; the tables of an accepted SYS_MAP; the header bytes of an image, and for an
accepted one its file bytes and its pages. -/
structure Affords (k : Kernel) : Prop where
  addressed : Addressed k
  successors : k.frame.a7.toNat ∈ switchCalls → SuccessorsMapped k
  map : k.frame.a7.toNat = sysMapNo → MapPasses k → Mappable k.vm (rootOf k.current.satp) k.frame.a1.toNat
  parses : k.frame.a7.toNat = sysSpawnNo → isValidElfSize k.frame.a1.toNat = true →
    ∃ answer, Elf.parse ⟨k.frame.a1.toNat, callerLoad k k.vm.mem⟩ = .ok answer
  spawn : k.frame.a7.toNat = sysSpawnNo → ∀ info pid, Spawns k info pid →
    (∀ off, Copied info.segments off → Readable (callerLoad k) k.vm off) ∧ demand info.segments ≤ k.vm.alloc.freePages

theorem sysMap_returns (managed : Managed k.vm.alloc)
    (mappable : MapPasses k → Mappable k.vm (rootOf k.current.satp) k.frame.a1.toNat) : ∃ k', sysMap k = .ok k' := by
  by_cases passes : MapPasses k
  · obtain ⟨v, mapped⟩ : ∃ v, mapPage k.vm (rootOf k.current.satp * pageSize) k.frame.a1.toNat k.frame.a0.toNat
        (mapFlags k) = .ok v := mapPage_returns managed.pages (mappable passes)
    rw [sysMap_passes passes, satpToRoot_eq, mapped]
    exact ⟨_, rfl⟩
  · exact ⟨_, sysMap_refuses passes⟩

theorem sysSpawn_returns (managed : Managed k.vm.alloc) (number : k.frame.a7.toNat = sysSpawnNo) (affords : Affords k) :
    ∃ k', sysSpawn k = .ok k' := by
  rw [sysSpawn_with, sysSpawnWith]
  split
  · rename_i size
    obtain ⟨answer, parsed⟩ := affords.parses number size
    rw [parsed, ok_bind]
    cases answer with
    | error e => exact ⟨_, rfl⟩
    | ok info =>
      rw [spawnParsed]
      cases slot : firstFree k.procs with
      | none => exact ⟨_, rfl⟩
      | some pid =>
        obtain ⟨readable, enough⟩ := affords.spawn number info pid ⟨size, parsed, slot⟩
        rcases loadElf_spends (callerLoad k) info managed readable with ⟨userRoot, v', loaded, -⟩ | ⟨-, short⟩
        · rw [loaded]
          exact ⟨_, rfl⟩
        · omega
  · exact ⟨_, rfl⟩

theorem Affords.not_short (affords : Affords k) : ¬ Short k := by
  rintro (⟨number, passes, short⟩ | ⟨number, spawns, short⟩)
  · have fits := (affords.map number passes).fits
    omega
  · have enough := (affords.spawn number _ _ spawns).2
    omega

end Law

section Reference
open Reference
attribute [local instance] Reference.platform

theorem Reference.Loads.granted {v : Vm} {a : BitmapAllocator} {n : Nat} (loads : Loads v) (grants : Grants v.alloc a n) :
    Loads (zeroPage { v with alloc := a } (n * pageSize)) := by
  refine loads.keeps grants.managed (fun m used => (grants.used m).mpr (Or.inr used)) fun x used => ?_
  have other : x / pageSize ≠ n := fun same => grants.fresh (same ▸ used)
  exact Memory.fill_apply_outside (page_apart other)

/-- PID 1 allocates until no page is left, and is about to spawn its image. -/
theorem exists_exhausted {v : Vm} {f : TrapFrame} (mode : f.spp = false) (loads : Loads v) :
    ∃ trace v', Run.Linked Step (running v f) trace ∧
      Run.stateAt (running v f) trace trace.length = running v' spawnCall ∧ Loads v' ∧ v'.alloc.freePages = 0 := by
  generalize left : v.alloc.freePages = pages
  induction pages generalizing v f with
  | zero =>
    exact ⟨[(.user, running v spawnCall)], v,
      ⟨.user (m := v.mem) mode (calling_mode ..) fun _ differ => absurd rfl differ, trivial⟩, rfl, loads, left⟩
  | succ pages ih =>
    obtain ⟨n, a, handled, grants, count⟩ := alloc_handled loads.managed (by omega)
    have handed : (zeroPage { v with alloc := a } (n * pageSize)).alloc.freePages = pages := by
      change a.freePages = pages
      omega
    obtain ⟨trace, v', linked, last, loads', empty⟩ :=
      ih (f := { allocCall.advance with a0 := pageArg n }) handled.mode (loads.granted grants) handed
    refine ⟨(.user, running v allocCall) :: (.trap .ecall, (running v allocCall).answer _ (pageArg n)) :: trace, v', ?_, last,
      loads', empty⟩
    exact ⟨.user (m := v.mem) mode handled.mode fun _ differ => absurd rfl differ, .ecall handled.mode handled.answer, linked⟩

section View
variable {m : Memory} {x : Nat}

/-- With its tables as they were, PID 1 sees a range of the kernel in place where no page is allocated. -/
theorem Reference.sees (same : ∀ x, IsTable setup.vm rootOf₁ (x / pageSize) → m x = setup.vm.mem x) {start stop va : Nat}
    {flags : PteFlags} (member : (start, stop, flags) ∈ kernelRegions) (covers : Covers start stop va)
    (free : ¬ Used setup.vm.alloc (vpn va)) : translate m setup.satp₁ va = some ⟨va, flags⟩ := by
  have low := (kernelRegions_spec member).2.1
  have covered := (@covers_iff (start, stop, flags) va low (covers.canonical low)).mp covers
  have kept : leafAt (⟨m, setup.vm.alloc⟩ : Vm).mem rootOf₁ va = leafAt setup.vm.mem rootOf₁ va := leafAt_congr same va
  exact translate_covered member covers (kept.trans (starts.kernel _ member va covered free))

theorem Reference.sees_kernel (same : ∀ x, IsTable setup.vm rootOf₁ (x / pageSize) → m x = setup.vm.mem x) :
    KernelMapped m setup.satp₁ := by
  have spaces : Spaces (fun _ => true) setup.vm setup.kernel.roots := Boot.booted_spaces starts.booted
  intro start stop flags member va covers outside
  have low := (kernelRegions_spec member).2.1
  have free : ¬ Used setup.vm.alloc (vpn va) := by
    intro used
    have range := used_range spaces.managed used
    have aligned := Platform.heapEnd_aligned
    have inside : isUserHeapPa va = true := by
      simp only [isUserHeapPa, Bool.and_eq_true, decide_eq_true_eq]
      simp only [Covers, pageDown, pageUp, vpn, pageSize] at *
      omega
    rw [outside] at inside
    cases inside
  exact ⟨flags, sees same member covers free, by simp [PteFlags.contains], (kernelRegions_spec member).2.2.2⟩

theorem Reference.sees_free (same : ∀ x, IsTable setup.vm rootOf₁ (x / pageSize) → m x = setup.vm.mem x)
    (free : FreeByte setup.vm.alloc x) : translate m setup.satp₁ x = some ⟨x, kernelRw⟩ := by
  have heap : (Platform.heapStart, Platform.stackTop, kernelRw) ∈ kernelRegions := by
    rw [kernelRegions_eq]
    simp [ramRegions]
  have order := Platform.heap_le
  have aligned := Platform.heapEnd_aligned
  have covers : Covers Platform.heapStart Platform.stackTop x := by
    obtain ⟨⟨lower, upper⟩, -⟩ := free
    simp only [Covers, pageDown, pageUp, pageSize] at *
    omega
  have low := (kernelRegions_spec heap).2.1
  have place : vpn x = x / pageSize := by
    simp only [Covers, pageDown, pageUp, vpn, pageSize] at *
    omega
  exact sees same heap covers (place ▸ free.2)

end View

/-- About to spawn its image, PID 1 sees the kernel and every free page at their own addresses. -/
theorem asking_addressed : Addressed (askingRun.state 1) := by
  have number : (askingRun.state 1).frame.a7.toNat = sysSpawnNo := calling_number _ (by decide) ..
  have spaces : Spaces (fun _ => true) setup.vm setup.kernel.roots := Boot.booted_spaces starts.booted
  have other : ∀ {n}, (askingRun.state 1).frame.a7.toNat = n → n ≠ sysSpawnNo → False := fun same apart =>
    apart (same.symm.trans number)
  have vacant : ∀ {x}, CallWrites (askingRun.state 1) x → FreeByte setup.vm.alloc x := by
    intro x writes
    cases writes with
    | taken takes free => exact free
    | released number' => exact (other number' (by decide)).elim
    | entry number' => exact (number'.elim (fun map => other map (by decide)) fun unmap => other unmap (by decide)).elim
    | buffer copies => exact (other copies.number (by decide)).elim
  intro m writes
  have same : ∀ x, IsTable setup.vm rootOf₁ (x / pageSize) → m x = setup.vm.mem x := by
    intro x table
    have used := (spaces.space own₁).used _ table
    have kept : m x = imageVm.mem x := by
      by_contra differ
      exact (vacant (writes x differ)).2 used
    exact kept.trans (placed_tables image spaces x table)
  refine ⟨sees_kernel same, fun x reads => ?_, fun x writes => ?_⟩
  · cases reads with
    | entry walks =>
      cases walks with
      | map number' => exact (other number' (by decide)).elim
      | unmap number' => exact (other number' (by decide)).elim
      | buffer copies => exact (other copies.number (by decide)).elim
    | buffer copies => exact (other copies.number (by decide)).elim
  · exact ⟨kernelRw, sees_free same (vacant writes), by decide, fun _ => by decide, fun user => absurd user (by decide)⟩

end Reference
end GooseOs
