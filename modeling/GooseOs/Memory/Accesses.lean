import GooseOs.Memory.BootTables
import GooseOs.Memory.Answers

/-!
The kernel's own accesses. A handler runs under its caller's page table and takes physical addresses for
virtual ones, so it needs leaves that map the pages it touches to themselves. What a system call reads and
writes by physical address is listed here; every byte that a call changes is on the list.
-/

namespace GooseOs
open Kvm Syscall Trap Security NetServer

/-! ### The entries of a walk -/

section Tables
variable [Platform] {v v' : Vm} {root t va pa x : Nat} {i : Fin ptEntries} {flags : PteFlags}

/-- A byte of entry `i` of table `t`. -/
def EntryByte (t : Nat) (i : Fin ptEntries) (x : Nat) : Prop := t * pageSize + i * 8 ≤ x ∧ x < t * pageSize + i * 8 + 8

/-- A byte of an entry on the way from the root to the leaf of `va`. -/
def OnWay (m : Memory) (root va x : Nat) : Prop :=
  ∃ path i t, path ++ [i] <+: [(vaParts va).1, (vaParts va).2.1, (vaParts va).2.2.1] ∧
    Radix.follow (entry m) root path = some t ∧ EntryByte t i x

/-- A byte of the heap in a page that is not allocated. -/
def FreeByte (a : BitmapAllocator) (x : Nat) : Prop := InHeap (x / pageSize) ∧ ¬ Used a (x / pageSize)

omit [Platform] in
theorem EntryByte.page (byte : EntryByte t i x) : x / pageSize = t := by
  have small := i.isLt
  simp only [EntryByte, ptEntries, pageSize] at *
  omega

omit [Platform] in
theorem writePte_entryByte {pte : Pte} (differ : (writePte v (t * pageSize) i pte).mem x ≠ v.mem x) : EntryByte t i x := by
  by_contra outside
  refine differ (Memory.write64_apply_of_disjoint ?_)
  unfold EntryByte at outside
  omega

theorem Grants.freeByte {a a' : BitmapAllocator} {n : Nat} (grants : Grants a a' n) (inside : x / pageSize = n) :
    FreeByte a x := by
  subst inside
  exact ⟨used_inHeap grants.managed ((grants.used _).mpr (.inl rfl)), grants.fresh⟩

/-- Hanging in a fresh table changes the entry and the fresh page. -/
theorem hung_bytes {m m' : Memory} {a a' : BitmapAllocator} {n : Nat} {bits : Word} (grants : Grants a a' n)
    (hung : m' = (m.fill (n * pageSize) pageSize 0).write64 (t * pageSize + i * 8) bits) (differ : m' x ≠ m x) :
    EntryByte t i x ∨ FreeByte a x := by
  by_contra outside
  obtain ⟨entry, other⟩ := not_or.mp outside
  have apart : x / pageSize ≠ n := fun inside => other (grants.freeByte inside)
  rw [hung, Memory.write64_apply_of_disjoint (by unfold EntryByte at entry; omega),
    Memory.fill_apply_outside (page_apart apart)] at differ
  exact differ rfl

omit [Platform] in
/-- A missing child at the end of a path. -/
theorem childMissing_one {m : Memory} {path : List (Fin ptEntries)} (none : Radix.follow (entry m) root path = none) :
    childMissing m root path = 1 := by
  rw [childMissing, none]
  rfl

/-- Mapping a page changes entries on the way to it, and free pages where a table is missing. -/
theorem mapPage_bytes (managed : Managed v.alloc) (h : mapPage v (root * pageSize) va pa flags = .ok v')
    (differ : v'.mem x ≠ v.mem x) : OnWay v.mem root va x ∨ (0 < tablesMissing v.mem root va ∧ FreeByte v.alloc x) := by
  unfold mapPage at h
  dsimp only at h
  obtain ⟨⟨level1, v₁⟩, first, h⟩ := bind_ok h
  obtain ⟨⟨level0, v₂⟩, second, h⟩ := bind_ok h
  cases h
  have top : EntryByte root (vaParts va).1 x → OnWay v.mem root va x := fun byte =>
    ⟨[], _, root, ⟨_, rfl⟩, rfl, byte⟩
  obtain ⟨t₁, rfl, ⟨rfl, branch₁⟩ | ⟨vacant₁, grants₁, memory₁⟩⟩ := walkOrCreate_cases managed first
  · have middle : EntryByte t₁ (vaParts va).2.1 x → OnWay v₁.mem root va x := fun byte =>
      ⟨[_], _, t₁, ⟨_, rfl⟩, by rw [Radix.follow, branch₁]; rfl, byte⟩
    obtain ⟨t₀, rfl, ⟨rfl, branch₀⟩ | ⟨vacant₀, grants₀, memory₀⟩⟩ := walkOrCreate_cases managed second
    · refine .inl ⟨[_, _], _, t₀, ⟨[], rfl⟩, ?_, writePte_entryByte differ⟩
      rw [Radix.follow, branch₁, Entry.branch?, Option.bind_some, Radix.follow, branch₀]
      rfl
    · have missing : 0 < tablesMissing v₁.mem root va := by
        have none : Radix.follow (entry v₁.mem) root [(vaParts va).1, (vaParts va).2.1] = none := by
          rw [Radix.follow, branch₁, Entry.branch?, Option.bind_some, Radix.follow, vacant₀]
          rfl
        rw [tablesMissing, childMissing_one none]
        omega
      by_cases last : (writePte v₂ (t₀ * pageSize) (vaParts va).2.2.1 (.new pa flags)).mem x = v₂.mem x
      · rw [last] at differ
        exact (hung_bytes grants₀ memory₀ differ).imp middle fun free => ⟨missing, free⟩
      · exact .inr ⟨missing, grants₀.freeByte (writePte_entryByte last).page⟩
  · have missing : 0 < tablesMissing v.mem root va := by
      have none : Radix.follow (entry v.mem) root [(vaParts va).1] = none := by
        rw [Radix.follow, vacant₁]
        rfl
      rw [tablesMissing, childMissing_one none]
      omega
    have kept : ∀ {x}, FreeByte v₁.alloc x → FreeByte v.alloc x := fun free =>
      ⟨free.1, fun used => free.2 ((grants₁.used _).mpr (.inr used))⟩
    have bound := used_range grants₁.managed ((grants₁.used t₁).mpr (.inl rfl))
    -- The new table is blank, but for the branch just stored if the root page itself was handed out.
    have bottom : ∀ {t₀}, entry v₁.mem t₁ (vaParts va).2.1 = .branch t₀ → t₀ = t₁ := by
      intro t₀ branch
      rw [memory₁, entry_hung (by omega)] at branch
      by_cases own : t₁ = root
      · subst own
        by_cases here : (vaParts va).2.1 = (vaParts va).1
        · rw [here, Radix.set_self] at branch
          cases branch
          rfl
        · rw [Radix.set_of_index_ne here, entry_fill] at branch
          cases branch
      · rw [Radix.set_of_table_ne own, entry_fill] at branch
        cases branch
    refine (or_iff_not_imp_right.mpr fun outside => ?_)
    have others : ¬ FreeByte v.alloc x := fun free => outside ⟨missing, free⟩
    have atTable : x / pageSize ≠ t₁ := fun inside => others (grants₁.freeByte inside)
    obtain ⟨t₀, rfl, ⟨rfl, branch₀⟩ | ⟨vacant₀, grants₀, memory₀⟩⟩ := walkOrCreate_cases grants₁.managed second
    · have same : (writePte v₂ (t₀ * pageSize) (vaParts va).2.2.1 (.new pa flags)).mem x = v₂.mem x := by
        by_contra last
        exact atTable ((writePte_entryByte last).page.trans (bottom branch₀))
      rw [same] at differ
      exact top ((hung_bytes grants₁ memory₁ differ).resolve_right others)
    · have same : (writePte v₂ (t₀ * pageSize) (vaParts va).2.2.1 (.new pa flags)).mem x = v₂.mem x := by
        by_contra last
        exact others (kept (grants₀.freeByte (writePte_entryByte last).page))
      have same₁ : v₂.mem x = v₁.mem x := by
        by_contra later
        rcases hung_bytes grants₀ memory₀ later with byte | free
        · exact atTable byte.page
        · exact others (kept free)
      rw [same, same₁] at differ
      exact top ((hung_bytes grants₁ memory₁ differ).resolve_right others)

omit [Platform] in
theorem unmapPage_bytes (h : unmapPage v (root * pageSize) va = some v') (differ : v'.mem x ≠ v.mem x) :
    OnWay v.mem root va x := by
  obtain ⟨t, path, rfl⟩ := unmapPage_found h
  exact ⟨_, _, t, ⟨[], rfl⟩, path, writePte_entryByte differ⟩

end Tables

/-! ### What a call needs of its caller's table -/

section Kernel
variable [Platform] {k k' : Kernel} {x : Nat}

/-- Text, data, stack and devices of the kernel answer at their own addresses under a table, with their permissions
and out of the user's reach. The heap is left to the accesses one by one. -/
def KernelMapped (m : Memory) (satp : Word) : Prop :=
  ∀ start stop flags, (start, stop, flags) ∈ kernelRegions → ∀ va, Covers start stop va → isUserHeapPa va = false →
    ∃ held, translate m satp va = some ⟨va, held⟩ ∧ held.contains flags = true ∧ held.contains .user = false

/-- S-mode can load, or store, the byte at physical address `x`. A user page is open to it with `sstatus.SUM` only: that is
bit 18, which SYS_SPAWN sets and any other call finds as the trap left it. -/
def Accessible (k : Kernel) (m : Memory) (write : Bool) (x : Nat) : Prop :=
  ∃ held, translate m k.satp x = some ⟨x, held⟩ ∧ held.contains .read = true ∧
    (write = true → held.contains .write = true) ∧
    (held.contains .user = true → k.frame.a7.toNat = sysSpawnNo ∨ k.frame.sstatus.getLsbD 18 = true)

/-- A request to the network server that copies from its caller's buffer, or to it. -/
structure Copies (k : Kernel) (write : Bool) : Prop where
  number : k.frame.a7.toNat = sysCallNo
  server : Platform.net = true ∧ k.frame.a0.toNat = netServerPid
  opcode : k.frame.a1.toNat = if write then netRecv else netSend
  staged : k.frame.a4.toNat ≤ stagingSize

/-- The addresses a call walks to in its caller's table. -/
inductive CallWalks (k : Kernel) : Nat → Prop where
  | map (number : k.frame.a7.toNat = sysMapNo) (passes : MapPasses k) : CallWalks k k.frame.a1.toNat
  | unmap (number : k.frame.a7.toNat = sysUnmapNo) (passes : UnmapPasses k) : CallWalks k k.frame.a0.toNat
  | buffer {write : Bool} {i : Nat} (copies : Copies k write) (inside : i < k.frame.a4.toNat)
      (low : k.frame.a3.toNat + i < userVaMax) : CallWalks k (k.frame.a3.toNat + i)

/-- The calls that take free pages. -/
inductive TakesPages (k : Kernel) : Prop where
  | alloc (number : k.frame.a7.toNat = sysAllocPagesNo) (count : isValidAllocCount k.frame.a0.toNat = true)
  | map (number : k.frame.a7.toNat = sysMapNo) (passes : MapPasses k)
      (missing : 0 < tablesMissing k.vm.mem (rootOf k.current.satp) k.frame.a1.toNat)
  | spawn {info : Elf.ElfInfo} {pid : Nat} (number : k.frame.a7.toNat = sysSpawnNo) (spawns : Spawns k info pid)

/-- The bytes a call reads by physical address. -/
inductive CallReads (k : Kernel) (x : Nat) : Prop where
  | entry {va : Nat} (walks : CallWalks k va) (way : OnWay k.vm.mem (rootOf k.current.satp) va x)
  | buffer {i : Nat} (copies : Copies k false) (inside : i < k.frame.a4.toNat)
      (reaches : Reaches k.vm.mem k.currentSatp false (k.frame.a3.toNat + i) x)

/-- The bytes a call writes by physical address. -/
inductive CallWrites (k : Kernel) (x : Nat) : Prop where
  | taken (takes : TakesPages k) (free : FreeByte k.vm.alloc x)
  | released (number : k.frame.a7.toNat = sysFreePagesNo) (passes : FreePasses k)
      (inside : x / pageSize = k.frame.a0.toNat / pageSize)
  | entry {va : Nat} (number : k.frame.a7.toNat = sysMapNo ∨ k.frame.a7.toNat = sysUnmapNo) (walks : CallWalks k va)
      (way : OnWay k.vm.mem (rootOf k.current.satp) va x)
  | buffer {i : Nat} (copies : Copies k true) (inside : i < k.frame.a4.toNat)
      (reaches : Reaches k.vm.mem k.currentSatp true (k.frame.a3.toNat + i) x)

/-- Whichever of its writes a call has made, the kernel is mapped and the bytes of the call can be reached. -/
def Addressed (k : Kernel) : Prop :=
  ∀ m : Memory, (∀ x, m x ≠ k.vm.mem x → CallWrites k x) →
    KernelMapped m k.satp ∧ (∀ x, CallReads k x → Accessible k m false x) ∧ ∀ x, CallWrites k x → Accessible k m true x

/-- The calls that can hand the processor over. -/
def switchCalls : List Nat := [sysExitNo, sysSendNo, sysReceiveNo, sysCallNo, sysWaitNo, sysYieldNo]

/-- Every table that can be loaded instead of the caller's has the kernel mapped too. -/
def SuccessorsMapped (k : Kernel) : Prop :=
  KernelMapped k.vm.mem k.kernelSatp ∧ ∀ q, (k.procs q).state ≠ .free → KernelMapped k.vm.mem (k.procs q).satp

/-! ### What a call writes -/

theorem handleRequest_writes (number : k.frame.a7.toNat = sysCallNo)
    (server : Platform.net = true ∧ k.frame.a0.toNat = netServerPid) (h : handleRequest k = .ok k')
    (differ : k'.vm.mem x ≠ k.vm.mem x) : CallWrites k x := by
  cases handleRequest_ok h with
  | answered net v done =>
    rw [done] at differ
    exact absurd rfl differ
  | delivered net bytes recv space staged done =>
    have memory : k'.vm = (deliver { k.advance with net := some net } k.currentSatp k.frame.a3.toNat bytes).1.vm := by
      rw [done]
      rfl
    rw [memory] at differ
    unfold deliver at differ
    split at differ
    · rename_i m copied
      have copied : copyToUser k.vm.mem k.currentSatp k.frame.a3.toNat bytes = some m := copied
      obtain ⟨addrs, backs, length, rfl⟩ := copyToUser_some k.frame.a3.isLt copied
      have member : x ∈ addrs := by
        by_contra outside
        exact differ (Memory.scatter_apply_outside outside)
      obtain ⟨i, inside, reaches⟩ := backs.mem member
      exact .buffer ⟨number, server, recv, staged⟩ (by omega) reaches
    · exact absurd rfl differ
  | parked net op socket bufVa bufLen c waits staged scheduled done =>
    rw [done] at differ
    exact absurd rfl differ

/-- Every byte a system call changes is one of those it is listed to write. -/
theorem handleEcall_writes (managed : Managed k.vm.alloc) (cons : Consistent k.toCore) (user : k.inUser)
    (h : handleEcall k = .ok k') (differ : k'.vm.mem x ≠ k.vm.mem x) : CallWrites k x := by
  cases handleEcall_effect managed cons user h with
  | quiet alloc stores still failed =>
    by_cases number : k.frame.a7.toNat = sysCallNo
    · have called : sysCallEntry k = .ok k' := by
        unfold handleEcall at h
        rw [number] at h
        exact h
      unfold sysCallEntry at called
      split at called
      · rename_i server
        exact handleRequest_writes number server called differ
      · obtain ⟨c, -, rfl⟩ := Slot.onCore_ok called
        exact absurd rfl differ
    · rw [still rfl number] at differ
      exact absurd rfl differ
  | map _ number phys used passes mapped core =>
    rcases mapPage_bytes managed mapped differ with way | ⟨missing, free⟩
    · exact .entry (.inl number) (.map number passes) way
    · exact .taken (.map number passes missing) free
  | unmap _ number va unmapped core =>
    have called : sysUnmap k = .ok k' := by
      unfold handleEcall at h
      rw [number] at h
      exact h
    rcases sysUnmap_cases k with refused | ⟨passes, -⟩
    · rw [Except.ok.inj (called.symm.trans refused)] at differ
      exact absurd rfl differ
    · exact .entry (.inr number) (.unmap number passes) (unmapPage_bytes unmapped differ)
  | grant _ number grants zeroed core =>
    rename_i n
    have called : sysAllocPages k = .ok k' := by
      unfold handleEcall at h
      rw [number] at h
      exact h
    rcases sysAllocPages_cases k with refused | ⟨count, -⟩
    · rw [Except.ok.inj (called.symm.trans refused)] at differ
      exact absurd rfl differ
    · refine .taken (.alloc number count) (grants.freeByte ?_)
      by_contra other
      rw [zeroed, Memory.fill_apply_outside (page_apart other)] at differ
      exact differ rfl
  | release _ number phys passes releases zeroed core =>
    refine .released number passes ?_
    rw [phys, Nat.mul_div_cancel _ (by decide)]
    by_contra other
    rw [zeroed, Memory.fill_apply_outside (page_apart other)] at differ
    exact differ rfl
  | spawn _ number free range builds core =>
    have called : sysSpawn k = .ok k' := by
      unfold handleEcall at h
      rw [number] at h
      exact h
    obtain ⟨unused, used⟩ := builds.frame x differ
    rcases sysSpawn_spawns called with rfl | ⟨info, pid, spawns⟩
    · exact absurd rfl differ
    · exact .taken (.spawn number spawns) ⟨used_inHeap builds.managed used, unused⟩

/-! ### The table in force afterwards -/

/-- A system call that leaves another table in force is one of those that can switch. -/
theorem traps_moved {c c' : Core} (traps : Slot.Traps c .ecall c') (running : (c.procs c.currentPid).state = .running)
    (moved : c'.satp ≠ c.satp) : c.frame.a7.toNat ∈ switchCalls ∧
      (c'.satp = c.kernelSatp ∨ ∃ q, (c.procs q).state ≠ .free ∧ c'.satp = (c.procs q).satp) := by
  obtain ⟨mid, changes, dispatch⟩ := traps
  have switches : (mid c.currentPid).state ≠ .running → c.frame.a7.toNat ∈ switchCalls := by
    intro left
    have change := changes c.currentPid
    generalize mid c.currentPid = p at change left
    cases change with
    | stay => exact absurd running left
    | wake other => exact absurd rfl other
    | netWake blocked => exact absurd (running.symm.trans blocked) nofun
    | park _ _ cause =>
      cases cause with
      | send number => rw [number]; decide
      | call number => rw [number]; decide
      | receive number => rw [number]; decide
      | wait number => rw [number]; decide
      | net number => rw [number]; decide
    | preempted _ timer => cases timer
    | yielded _ _ number => rw [number]; decide
    | terminated _ ends =>
      rcases ends with ⟨-, number, -⟩ | ⟨_, fault, -⟩
      · rw [number]; decide
      · cases fault
    | spawned free => exact absurd (running.symm.trans free) nofun
  cases dispatch with
  | resume => exact absurd rfl moved
  | @switch next _ _ ready range left frame =>
    refine ⟨switches left, .inr ⟨next, ?_⟩⟩
    have live : (c.procs next).state ≠ .free := by
      intro free
      have change := changes next
      generalize mid next = p at change ready
      cases change with
      | stay => exact absurd (free.symm.trans ready) nofun
      | wake _ cause => exact cause.not_free free
      | netWake blocked => exact absurd (free.symm.trans blocked) nofun
      | park own | preempted own | yielded own =>
        subst own
        rw [running] at free
        cases free
      | terminated => cases ready
      | spawned _ _ number =>
        have member := switches left
        rw [number] at member
        exact absurd member (by decide)
    exact ⟨live, Consistent.change_satp (changes next) live⟩
  | idle mode left => exact ⟨switches left, .inl rfl⟩

/-- A system call that leaves another table in force keeps the memory. -/
theorem handleEcall_moved (managed : Managed k.vm.alloc) (cons : Consistent k.toCore) (user : k.inUser)
    (h : handleEcall k = .ok k') (moved : k'.satp ≠ k.satp) : k'.vm.mem = k.vm.mem := by
  have answers : ∀ {v : Word}, k'.toCore = k.toCore.advance.setA0 v → k'.vm.mem = k.vm.mem := by
    intro v core
    have kept : k'.satp = k.satp := by
      rw [core]
      rfl
    exact absurd kept moved
  cases handleEcall_effect managed cons user h with
  | quiet alloc stores still failed =>
    by_cases number : k.frame.a7.toNat = sysCallNo
    · have called : sysCallEntry k = .ok k' := by
        unfold handleEcall at h
        rw [number] at h
        exact h
      unfold sysCallEntry at called
      split at called
      · cases handleRequest_ok called with
        | answered net v done =>
          rw [done]
          rfl
        | delivered net bytes recv space staged done =>
          refine absurd ?_ moved
          rw [done, Slot.deliver_setA0]
          rfl
        | parked net op socket bufVa bufLen c waits staged scheduled done =>
          rw [done]
          rfl
      · obtain ⟨c, -, rfl⟩ := Slot.onCore_ok called
        rfl
    · rw [still rfl number]
  | map _ _ _ _ _ _ core | unmap _ _ _ _ core | grant _ _ _ _ core | release _ _ _ _ _ _ core => exact answers core
  | spawn _ _ _ _ _ core =>
    have kept : k'.satp = k.satp := by
      rw [core]
      rfl
    exact absurd kept moved

/-- When a call returns, the kernel is mapped under the table in force. -/
theorem Addressed.mapped (addressed : Addressed k) (successors : k.frame.a7.toNat ∈ switchCalls → SuccessorsMapped k)
    (managed : Managed k.vm.alloc) (cons : Consistent k.toCore) (user : k.inUser) (h : handleEcall k = .ok k') :
    KernelMapped k'.vm.mem k'.satp := by
  have running := (cons.running user).1
  by_cases same : k'.satp = k.satp
  · rw [same]
    exact (addressed k'.vm.mem fun x differ => handleEcall_writes managed cons user h differ).1
  · have traps : Slot.Traps k.toCore .ecall k'.toCore := Slot.handleEcall_traps running (cons.current_range user) h
    obtain ⟨switches, place⟩ := traps_moved traps running same
    obtain ⟨idle, others⟩ := successors switches
    rw [handleEcall_moved managed cons user h same]
    rcases place with kernel | ⟨q, live, own⟩
    · exact kernel ▸ idle
    · exact own ▸ others q live

end Kernel
end GooseOs
