import GooseOs.Kernel.Trap

/-!
What the longer handlers come to, read off their bodies once: the memory calls from their checks to the
state they leave, and a request to the network server.
-/

namespace GooseOs
open Sched Kvm Syscall Security
variable [Platform] {k : Kernel}

/-- The answer of a system call: `sepc` moves past the `ecall` and `a0` holds the result. -/
def Kernel.answer (k : Kernel) (v : Vm) (a0 : Word) : Kernel := { k.advance with vm := v }.setA0 a0

/-! ### The memory calls -/

/-- The checks of SYS_MAP. -/
structure MapPasses (k : Kernel) : Prop where
  phys : isPageAligned k.frame.a0.toNat = true
  virt : isPageAligned k.frame.a1.toNat = true
  user : isUserVa k.frame.a1.toNat = true
  allocated : k.vm.alloc.isAllocated k.frame.a0.toNat = true
  heap : isUserHeapPa k.frame.a0.toNat = true
  flags : isValidMapFlags k.frame.a2.toNat = true

/-- The flags SYS_MAP gives a page. -/
def mapFlags (k : Kernel) : PteFlags := if k.frame.a2.toNat = 0 then userRw else userRx

theorem sysMap_passes (passes : MapPasses k) :
    sysMap k = (mapPage k.vm (satpToRoot k.current.satp) k.frame.a1.toNat k.frame.a0.toNat (mapFlags k)).map
      fun v => k.answer v 0 := by
  obtain ⟨phys, virt, user, allocated, heap, flags⟩ := passes
  unfold sysMap
  simp only [Kernel.advance, TrapFrame.advance_a0, TrapFrame.advance_a1, TrapFrame.advance_a2, phys, virt, user, allocated,
    heap, flags, Bool.not_true, Bool.or_self, Bool.false_eq_true, if_false]
  rfl

theorem sysMap_refuses (refused : ¬ MapPasses k) : sysMap k = .ok (k.answer k.vm usizeMax) := by
  unfold sysMap
  simp only [Kernel.advance, TrapFrame.advance_a0, TrapFrame.advance_a1, TrapFrame.advance_a2]
  by_cases aligned : isPageAligned k.frame.a0.toNat = true ∧ isPageAligned k.frame.a1.toNat = true
  · by_cases user : isUserVa k.frame.a1.toNat = true
    · by_cases allocated : k.vm.alloc.isAllocated k.frame.a0.toNat = true
      · by_cases heap : isUserHeapPa k.frame.a0.toNat = true
        · by_cases flags : isValidMapFlags k.frame.a2.toNat = true
          · exact absurd ⟨aligned.1, aligned.2, user, allocated, heap, flags⟩ refused
          · simp only [aligned, user, allocated, heap, flags, Bool.not_true, Bool.or_self, Bool.false_eq_true, if_false]
            rfl
        · simp only [aligned, user, allocated, heap, Bool.not_true, Bool.or_self, Bool.false_eq_true, if_false]
          rfl
      · simp only [aligned, user, allocated, Bool.not_true, Bool.or_self, Bool.false_eq_true, if_false]
        rfl
    · simp only [aligned, user, Bool.not_true, Bool.or_self, Bool.false_eq_true, if_false]
      rfl
  · have failed : (!isPageAligned k.frame.a0.toNat || !isPageAligned k.frame.a1.toNat) = true := by
      rw [Bool.or_eq_true, Bool.not_eq_true', Bool.not_eq_true', ← Bool.not_eq_true, ← Bool.not_eq_true]
      exact not_and_or.mp aligned
    simp only [failed, if_true]
    rfl

/-- The checks of SYS_UNMAP. -/
structure UnmapPasses (k : Kernel) : Prop where
  virt : isPageAligned k.frame.a0.toNat = true
  user : isUserVa k.frame.a0.toNat = true

omit [Platform] in
/-- A check that did not reject. -/
theorem passed {check : Bool} (h : ¬ (!check) = true) : check = true := by simpa using h

theorem sysUnmap_cases (k : Kernel) : sysUnmap k = .ok (k.answer k.vm usizeMax) ∨
    UnmapPasses k ∧ ∃ v, unmapPage k.vm (satpToRoot k.current.satp) k.frame.a0.toNat = some v ∧
      sysUnmap k = .ok (k.answer v 0) := by
  unfold sysUnmap
  dsimp only
  split
  · exact .inl rfl
  rename_i virt
  split
  · exact .inl rfl
  rename_i user
  cases unmapped : unmapPage k.advance.vm (satpToRoot k.advance.current.satp) k.advance.frame.a0.toNat with
  | none => exact .inl rfl
  | some v => exact .inr ⟨⟨passed virt, passed user⟩, v, unmapped, rfl⟩

theorem sysAllocPages_cases (k : Kernel) : sysAllocPages k = .ok (k.answer k.vm usizeMax) ∨
    isValidAllocCount k.frame.a0.toNat = true ∧ ∃ phys alloc, k.vm.alloc.alloc = .ok (phys, alloc) ∧
      sysAllocPages k = .ok (k.answer (zeroPage { k.vm with alloc := alloc } phys) (BitVec.ofNat 64 phys)) := by
  unfold sysAllocPages
  dsimp only
  split
  · exact .inl rfl
  rename_i count
  cases granted : k.advance.vm.alloc.alloc with
  | error e => exact .inl rfl
  | ok page => exact .inr ⟨passed count, page.1, page.2, granted, rfl⟩

theorem sysAllocPages_grants {phys : Nat} {alloc : BitmapAllocator} (count : isValidAllocCount k.frame.a0.toNat = true)
    (granted : k.vm.alloc.alloc = .ok (phys, alloc)) :
    sysAllocPages k = .ok (k.answer (zeroPage { k.vm with alloc := alloc } phys) (BitVec.ofNat 64 phys)) := by
  unfold sysAllocPages
  simp only [Kernel.advance, TrapFrame.advance_a0, count, Bool.not_true, Bool.false_eq_true, if_false, granted]
  rfl

/-- The checks of SYS_FREE_PAGES. -/
structure FreePasses (k : Kernel) : Prop where
  count : isValidAllocCount k.frame.a1.toNat = true
  phys : isPageAligned k.frame.a0.toNat = true
  allocated : k.vm.alloc.isAllocated k.frame.a0.toNat = true

theorem sysFreePages_releases {alloc : BitmapAllocator} (passes : FreePasses k)
    (freed : k.vm.alloc.free k.frame.a0.toNat = .ok alloc) :
    sysFreePages k = .ok (k.answer { zeroPage k.vm k.frame.a0.toNat with alloc := alloc } 0) := by
  obtain ⟨count, phys, allocated⟩ := passes
  unfold sysFreePages
  have same : (zeroPage k.vm k.frame.a0.toNat).alloc = k.vm.alloc := rfl
  simp only [Kernel.advance, TrapFrame.advance_a0, TrapFrame.advance_a1, count, phys, allocated, Bool.not_true,
    Bool.false_eq_true, if_false, same, freed]
  rfl

/-- The page is still allocated when the bitmap is consulted again, so the second look succeeds. -/
theorem sysFreePages_cases (k : Kernel) : sysFreePages k = .ok (k.answer k.vm usizeMax) ∨
    FreePasses k ∧ ∃ alloc, k.vm.alloc.free k.frame.a0.toNat = .ok alloc ∧
      sysFreePages k = .ok (k.answer { zeroPage k.vm k.frame.a0.toNat with alloc := alloc } 0) := by
  by_cases passes : FreePasses k
  · obtain ⟨alloc, freed⟩ := BitmapAllocator.free_of_allocated passes.allocated
    exact .inr ⟨passes, alloc, freed, sysFreePages_releases passes freed⟩
  · refine .inl ?_
    unfold sysFreePages
    dsimp only
    split
    · rfl
    rename_i count
    split
    · rfl
    rename_i phys
    split
    · rfl
    rename_i allocated
    exact absurd ⟨passed count, passed phys, passed allocated⟩ passes

/-- A memory call changes memory, and answers. -/
theorem sysMap_answers {k' : Kernel} (h : sysMap k = .ok k') : ∃ v a0, k' = k.answer v a0 := by
  by_cases passes : MapPasses k
  · rw [sysMap_passes passes] at h
    obtain ⟨v, -, rfl⟩ := map_ok h
    exact ⟨v, _, rfl⟩
  · rw [sysMap_refuses passes] at h
    cases h
    exact ⟨_, _, rfl⟩

theorem sysUnmap_answers {k' : Kernel} (h : sysUnmap k = .ok k') : ∃ v a0, k' = k.answer v a0 := by
  rcases sysUnmap_cases k with refused | ⟨-, v, -, done⟩
  · exact ⟨_, _, Except.ok.inj (h.symm.trans refused)⟩
  · exact ⟨_, _, Except.ok.inj (h.symm.trans done)⟩

theorem sysAllocPages_answers {k' : Kernel} (h : sysAllocPages k = .ok k') : ∃ v a0, k' = k.answer v a0 := by
  rcases sysAllocPages_cases k with refused | ⟨-, phys, alloc, -, done⟩
  · exact ⟨_, _, Except.ok.inj (h.symm.trans refused)⟩
  · exact ⟨_, _, Except.ok.inj (h.symm.trans done)⟩

theorem sysFreePages_answers {k' : Kernel} (h : sysFreePages k = .ok k') : ∃ v a0, k' = k.answer v a0 := by
  rcases sysFreePages_cases k with refused | ⟨-, alloc, -, done⟩
  · exact ⟨_, _, Except.ok.inj (h.symm.trans refused)⟩
  · exact ⟨_, _, Except.ok.inj (h.symm.trans done)⟩

/-! ### SYS_SPAWN -/

/-- The state after a spawn: the child is in its slot and its pid is the answer. -/
def Kernel.withChild (k : Kernel) (pid : Nat) (child : Process) (v : Vm) : Kernel :=
  { k.advance with procs := Function.update k.procs pid child, vm := v }.setA0 (BitVec.ofNat 64 pid)

/-- A spawn that returns was refused, or loaded an image into the lowest free slot. -/
theorem sysSpawn_ok {k' : Kernel} (h : sysSpawn k = .ok k') : k' = k.answer k.vm usizeMax ∨
    ∃ info pid userRoot v, firstFree k.procs = some pid ∧
      loadElf (fun m off => loadByte k.satp m (k.frame.a0 + off)) info k.vm = .ok (userRoot, v) ∧
      k' = k.withChild pid (newProcess pid k.currentPid (makeSatp userRoot (BitVec.ofNat 16 pid)) info.entry
        (BitVec.ofNat 64 (stackVa + pageSize))) v := by
  unfold sysSpawn at h
  dsimp only at h
  split at h
  · cases h
    exact .inl rfl
  obtain ⟨parsed, -, h⟩ := bind_ok h
  split at h
  · cases h
    exact .inl rfl
  rename_i info
  split at h
  · cases h
    exact .inl rfl
  rename_i pid slot
  obtain ⟨⟨userRoot, v⟩, loaded, h⟩ := bind_ok h
  cases h
  exact .inr ⟨info, pid, userRoot, v, slot, loaded, rfl⟩

/-! ### The network server -/

namespace NetServer

/-- An operation is answered, delivers bytes to its caller, or parks it. -/
inductive Dispatched (k : Kernel) : Result (Kernel × Outcome) → Prop where
  | answered (net : Net) (v : Word) : Dispatched k (.ok ({ k with net := some net }, .done v))
  | delivered (net : Net) (bytes : List Byte) (recv : k.frame.a1.toNat = netRecv)
      (space : bytes.length ≤ k.frame.a4.toNat) (staged : k.frame.a4.toNat ≤ stagingSize) :
      Dispatched k (.ok ((deliver { k with net := some net } k.currentSatp k.frame.a3.toNat bytes).1,
        .done (deliver { k with net := some net } k.currentSatp k.frame.a3.toNat bytes).2))
  | parked (net : Net) (op : NetOp) (socket bufVa bufLen : Nat) (waits : op ≠ .none)
      (staged : op = .recv → 0 < bufLen ∧ bufLen ≤ stagingSize) :
      Dispatched k (park { k with net := some net } op socket bufVa bufLen)

theorem handleConnect_dispatched (k : Kernel) (n : Net) (handleIdx : Nat) (packedIp port : Word) :
    Dispatched k (handleConnect k n handleIdx packedIp port) := by
  unfold handleConnect
  dsimp only
  split
  · exact .answered ..
  split
  · exact .answered ..
  split
  · exact .answered ..
  split
  · exact .answered ..
  split
  · exact .answered ..
  · exact .parked _ _ _ _ _ nofun nofun

theorem handleRecv_dispatched (k : Kernel) (n : Net) (handleIdx : Nat) (recv : k.frame.a1.toNat = netRecv) :
    Dispatched k (handleRecv k n handleIdx k.frame.a3.toNat k.frame.a4.toNat) := by
  unfold handleRecv
  dsimp only
  split
  · exact .answered ..
  rename_i fits
  split
  · exact .answered ..
  split
  · rename_i bytes _
    exact .delivered _ bytes.1 recv bytes.2 (by omega)
  · exact .answered ..
  split
  · exact .answered ..
  · exact .parked _ _ _ _ _ nofun fun _ => by omega

theorem dispatch_dispatched (k : Kernel) (n : Net) : Dispatched k (dispatch k n) := by
  unfold dispatch
  dsimp only
  repeat' split
  all_goals first
    | exact .answered ..
    | exact handleConnect_dispatched ..
    | exact handleRecv_dispatched _ _ _ ‹_›

/-- The running process parked on the network. -/
def parkCore (c : Core) (op : NetOp) (socket bufVa bufLen : Nat) : Core :=
  c.modify c.currentPid fun p =>
    { p with netOp := op, netSocket := socket, netBufVa := bufVa, netBufLen := bufLen, state := .blockedNet }

theorem park_ok {k k' : Kernel} {op : NetOp} {socket bufVa bufLen : Nat} {out : Outcome}
    (h : park k op socket bufVa bufLen = .ok (k', out)) :
    ∃ c, schedule (parkCore k.toCore op socket bufVa bufLen) k.currentPid = .ok c ∧ k' = { k with toCore := c } ∧
      out = .blocked := by
  obtain ⟨k₁, parked, h⟩ := bind_ok h
  cases h
  obtain ⟨c, scheduled, h⟩ := bind_ok parked
  cases h
  exact ⟨c, scheduled, rfl, rfl⟩

/-- A request to the server, that is the system call, comes out the same three ways. -/
inductive Requested (k k' : Kernel) : Prop where
  | answered (net : Option Net) (v : Word) (done : k' = { k.advance with net := net }.setA0 v)
  | delivered (net : Net) (bytes : List Byte) (recv : k.frame.a1.toNat = netRecv)
      (space : bytes.length ≤ k.frame.a4.toNat) (staged : k.frame.a4.toNat ≤ stagingSize)
      (done : k' = (deliver { k.advance with net := some net } k.currentSatp k.frame.a3.toNat bytes).1.setA0
        (deliver { k.advance with net := some net } k.currentSatp k.frame.a3.toNat bytes).2)
  | parked (net : Net) (op : NetOp) (socket bufVa bufLen : Nat) (c : Core) (waits : op ≠ .none)
      (staged : op = .recv → 0 < bufLen ∧ bufLen ≤ stagingSize)
      (scheduled : schedule (parkCore k.toCore.advance op socket bufVa bufLen) k.currentPid = .ok c)
      (done : k' = { k.advance with net := some net, toCore := c })

theorem handleRequest_ok {k k' : Kernel} (h : handleRequest k = .ok k') : Requested k k' := by
  unfold handleRequest at h
  dsimp only at h
  split at h
  · cases h
    exact .answered _ _ rfl
  rename_i n up
  obtain ⟨⟨k₁, out⟩, dispatched, h⟩ := bind_ok h
  have result := dispatch_dispatched k.advance n
  rw [dispatched] at result
  generalize outcome : (Except.ok (k₁, out) : Result (Kernel × Outcome)) = r at result
  cases result with
  | answered net v =>
    cases outcome
    cases h
    exact .answered _ _ rfl
  | delivered net bytes recv space staged =>
    cases outcome
    cases h
    exact .delivered net bytes recv space staged rfl
  | parked net op socket bufVa bufLen waits staged =>
    obtain ⟨c, scheduled, rfl, rfl⟩ := park_ok outcome.symm
    cases h
    exact .parked net op socket bufVa bufLen c waits staged scheduled rfl

/-- A turn of the loop of `wake_blocked` leaves the process blocked, or ends its wait; a stored length
out of range panics. -/
inductive Turned (k : Kernel) (pid : Nat) : Result Kernel → Prop where
  | left (net : Option Net) : Turned k pid (.ok { k with net := net })
  | ended (net : Option Net) (v : Word) (blocked : (k.procs pid).state = .blockedNet)
      (value : v = usizeMax ∨ (k.procs pid).netOp = .connect ∧ v = 0) :
      Turned k pid (.ok (completeBlocked { k with net := net } pid v))
  | delivered (net : Net) (bytes : List Byte) (blocked : (k.procs pid).state = .blockedNet)
      (recv : (k.procs pid).netOp = .recv) (space : bytes.length ≤ (k.procs pid).netBufLen) :
      Turned k pid (.ok (completeBlocked
        (deliver { k with net := some net } (k.procs pid).satp (k.procs pid).netBufVa bytes).1 pid
        (deliver { k with net := some net } (k.procs pid).satp (k.procs pid).netBufVa bytes).2))
  | panicked (recv : (k.procs pid).netOp = .recv) (long : stagingSize < (k.procs pid).netBufLen) :
      Turned k pid (.error .sliceOutOfRange)

theorem wakeOne_turned (k : Kernel) (pid : Nat) : Turned k pid (wakeOne k pid) := by
  unfold wakeOne
  split
  · exact .left k.net
  rename_i n up
  split
  · exact .left k.net
  rename_i blocked
  have blocked : (k.procs pid).state = .blockedNet := not_not.mp blocked
  split
  · rename_i recv
    unfold wakeOneRecv
    dsimp only
    split
    · rename_i long
      exact .panicked recv long
    split
    · rename_i bytes _
      exact .delivered _ bytes.1 blocked recv bytes.2
    · exact .ended _ _ blocked (.inl rfl)
    · exact .left _
  · rename_i connect
    unfold wakeOneConnect
    split
    · exact .ended k.net _ blocked (.inl rfl)
    split
    · exact .ended k.net _ blocked (.inr ⟨connect, rfl⟩)
    split
    · exact .ended k.net _ blocked (.inl rfl)
    · exact .left k.net
  · exact .left k.net

end NetServer
end GooseOs
