import GooseOs.Memory.Answers
import GooseOs.Process.Scheduling

/-!
What SYS_SPAWN reads. The image is loaded by the kernel through the caller's table, in S-mode, so a load
from kernel memory succeeds like any other. A call stays within the caller's own memory when the parser
gets by on user bytes and everything it then copies is user memory too.
-/

namespace GooseOs
open Kvm Syscall Trap Security

section Law
variable [Platform] {k : Kernel} {a : Word} {info : Elf.ElfInfo}

/-- The table the caller runs on maps `a` for the user. -/
def userMapped (k : Kernel) (a : Word) : Bool :=
  match translate k.vm.mem k.satp a.toNat with
  | some w => w.flags.contains .user
  | none => false

/-- The caller's load with an alarm at address `a`. -/
def alarmed (k : Kernel) (a : Word) (m : Memory) (off : Word) : Result Byte :=
  if k.frame.a0 + off = a then .error .deadlock else callerLoad k m off

/-- SYS_SPAWN reads the byte at `a`: an alarm there changes the outcome. -/
def Reads (k : Kernel) (a : Word) : Prop := sysSpawnWith (alarmed k a) k ≠ sysSpawn k

/-- Byte `i` of the caller's image lies in user memory. -/
def userByte (k : Kernel) (i : Word) : Bool := userMapped k (k.frame.a0 + i)

/-- SYS_SPAWN reads user memory only, and refuses a range that is not all of it. -/
structure Confined (k : Kernel) : Prop where
  reads : ∀ a, Reads k a → userMapped k a = true
  refuses : (∃ i, i < k.frame.a1.toNat ∧ userByte k (BitVec.ofNat 64 i) = false) →
    sysSpawn k = .ok (k.answer k.vm usizeMax)

/-- The caller's load with an alarm at every address that is not the user's. -/
def userLoad (k : Kernel) (m : Memory) (off : Word) : Result Byte :=
  if userByte k off then callerLoad k m off else .error .deadlock

/-- The parser's answer when it has user bytes only. -/
def userParse (k : Kernel) : Result (Except Elf.ElfError Elf.ElfInfo) := Elf.parse ⟨k.frame.a1.toNat, userLoad k k.vm.mem⟩

/-- The parser gets by on user bytes, and a range that is not all user memory is refused by it or for want
of a slot. -/
structure Bounded (k : Kernel) : Prop where
  parses : userParse k ≠ .error .deadlock
  whole : (∃ i, i < k.frame.a1.toNat ∧ userByte k (BitVec.ofNat 64 i) = false) →
    (∃ e, userParse k = .ok (.error e)) ∨ firstFree k.procs = none ∧ ∃ info, userParse k = .ok (.ok info)

/-- The bytes copied from an accepted image lie in user memory. -/
def CopiesOwn (k : Kernel) : Prop :=
  ∀ info, userParse k = .ok (.ok info) → firstFree k.procs ≠ none → ∀ off, Copied info.segments off → userByte k off = true

/-! ### Alarms -/

/-- Loads with one alarm at a foreign address, or with none. -/
def oneAlarm (k : Kernel) : Option {a : Word // userMapped k a = false} → Memory → Word → Result Byte
  | none => callerLoad k
  | some a => alarmed k a.1

/-- Without an alarm raised `x` is what everyone computes; one that is raised is raised by somebody. -/
def Alarms {ι α : Type} (x : Result α) (y : Option ι → Result α) : Prop :=
  (x ≠ .error .deadlock → ∀ i, y i = x) ∧ (x = .error .deadlock → ∃ a, y (some a) = .error .deadlock)

omit [Platform] in
theorem alarms_lifts {ι : Type} : Lifts fun α x (y : Option ι → Result α) => Alarms x y := by
  refine ⟨fun calm => ⟨fun _ _ => rfl, fun raised => absurd raised calm.1⟩, fun {α β x y f g} first next => ?_⟩
  cases x with
  | error e =>
    refine ⟨fun quiet i => ?_, fun raised => ?_⟩
    · change (y i >>= g i) = _
      rw [first.1 (fun same => quiet (by cases same; rfl)) i]
      rfl
    · obtain ⟨a, raised⟩ := first.2 (by cases raised; rfl)
      refine ⟨a, ?_⟩
      change (y (some a) >>= g (some a)) = _
      rw [raised]
      rfl
  | ok b =>
    have passed := first.1 nofun
    have later := next b
    refine ⟨fun quiet i => ?_, fun raised => ?_⟩
    · change (y i >>= g i) = _
      rw [passed i, ok_bind]
      exact later.1 quiet i
    · obtain ⟨a, raised⟩ := later.2 raised
      refine ⟨a, ?_⟩
      change (y (some a) >>= g (some a)) = _
      rw [passed (some a), ok_bind]
      exact raised

omit [Platform] in
theorem same_lifts : Lifts fun α x (y : Unit → Result α) => y () = x := by
  refine ⟨fun _ => rfl, fun {α β x y f g} first next => ?_⟩
  change (y () >>= g ()) = _
  rw [first]
  exact congrArg (x >>= ·) (funext next)

/-- An address of the user's is none of the alarmed ones. -/
theorem userLoad_alarms (m : Memory) (off : Word) : Alarms (userLoad k m off) fun i => oneAlarm k i m off := by
  rw [userLoad]
  split
  · rename_i user
    refine ⟨fun _ i => ?_, fun raised => absurd raised (loadByte_calm ..).1⟩
    cases i with
    | none => rfl
    | some a =>
      refine if_neg fun here => ?_
      have foreign := a.2
      rw [← here] at foreign
      rw [userByte, foreign] at user
      cases user
  · rename_i foreign
    exact ⟨fun quiet => absurd rfl quiet, fun _ => ⟨⟨k.frame.a0 + off, by simpa [userByte] using foreign⟩, if_pos rfl⟩⟩

theorem userParse_alarms : Alarms (userParse k) fun i => Elf.parse ⟨k.frame.a1.toNat, oneAlarm k i k.vm.mem⟩ :=
  Elf.parse_lifts alarms_lifts (d := ⟨k.frame.a1.toNat, userLoad k k.vm.mem⟩)
    (fun i => ⟨k.frame.a1.toNat, oneAlarm k i k.vm.mem⟩) (fun _ => rfl) (userLoad_alarms k.vm.mem)

/-- The loader does not notice an alarm at an address it does not copy from. -/
theorem loadElf_alarmed {v : Vm} (apart : ∀ off, Copied info.segments off → k.frame.a0 + off ≠ a) :
    loadElf (alarmed k a) info v = loadElf (callerLoad k) info v :=
  loadElf_lifts same_lifts (fun _ => alarmed k a) fun _ off copied => if_neg (apart off copied)

theorem sysSpawnWith_oversized {load : Memory → Word → Result Byte} (size : isValidElfSize k.frame.a1.toNat = false) :
    sysSpawnWith load k = .ok (k.answer k.vm usizeMax) := by
  rw [sysSpawnWith, size]
  rfl

/-! ### The law -/

omit [Platform] in
theorem firstFree_small {procs : Nat → Process} {pid : Nat} (slot : firstFree procs = some pid) :
    BitVec.ofNat 64 pid ≠ usizeMax := by
  have member : pid ∈ pids := List.mem_of_find?_eq_some slot
  have bound : pid < maxProcs := by
    rw [pids, List.mem_range'] at member
    obtain ⟨i, small, rfl⟩ := member
    simp only [maxProcs] at *
    omega
  intro same
  have value := congrArg BitVec.toNat same
  rw [BitVec.toNat_ofNat] at value
  simp only [usizeMax, BitVec.toNat_allOnes, maxProcs] at value bound
  omega

/-- A spawn that answers with the error value was refused by the parser or for want of a slot. -/
theorem spawnParsed_refused {load : Memory → Word → Result Byte} {answer : Except Elf.ElfError Elf.ElfInfo}
    (refused : spawnParsed load k answer = .ok (k.answer k.vm usizeMax)) :
    (∃ e, answer = .error e) ∨ firstFree k.procs = none ∧ ∃ info, answer = .ok info := by
  cases answer with
  | error e => exact Or.inl ⟨e, rfl⟩
  | ok info =>
    right
    cases slot : firstFree k.procs with
    | none => exact ⟨rfl, info, rfl⟩
    | some pid =>
      rw [spawnParsed, slot] at refused
      obtain ⟨built, -, same⟩ := bind_ok refused
      have answers := congrArg (fun k : Kernel => k.frame.a0) (Except.ok.inj same)
      exact absurd answers (firstFree_small slot)

theorem Confined.bounded (confined : Confined k) (size : isValidElfSize k.frame.a1.toNat = true) : Bounded k := by
  obtain ⟨quiet, raised⟩ := userParse_alarms (k := k)
  have parses : userParse k ≠ .error .deadlock := by
    intro alarm
    obtain ⟨⟨a, foreign⟩, raised⟩ := raised alarm
    have stopped : sysSpawnWith (alarmed k a) k = .error .deadlock := by
      rw [sysSpawnWith, if_pos size]
      exact (congrArg (· >>= spawnParsed (alarmed k a) k) raised).trans rfl
    have user := confined.reads a fun same => sysSpawn_calm.1 (same ▸ stopped)
    rw [foreign] at user
    cases user
  refine ⟨parses, fun outside => ?_⟩
  have refused := confined.refuses outside
  rw [sysSpawn_with, sysSpawnWith, if_pos size] at refused
  have same : Elf.parse ⟨k.frame.a1.toNat, callerLoad k k.vm.mem⟩ = userParse k := quiet parses none
  rw [same] at refused
  obtain ⟨answer, parsed, refused⟩ := bind_ok refused
  rw [parsed]
  rcases spawnParsed_refused refused with ⟨e, rfl⟩ | ⟨full, info, rfl⟩
  · exact Or.inl ⟨e, rfl⟩
  · exact Or.inr ⟨full, info, rfl⟩

/-- A bounded call that copies user memory only is confined. -/
theorem Bounded.confined (bounded : Bounded k) (copies : CopiesOwn k) (size : isValidElfSize k.frame.a1.toNat = true) :
    Confined k := by
  have parsed : ∀ i, Elf.parse ⟨k.frame.a1.toNat, oneAlarm k i k.vm.mem⟩ = userParse k :=
    (userParse_alarms (k := k)).1 bounded.parses
  have parsedCaller : Elf.parse ⟨k.frame.a1.toNat, callerLoad k k.vm.mem⟩ = userParse k := parsed none
  refine ⟨fun a reads => ?_, fun outside => ?_⟩
  · by_contra foreign
    rw [Bool.not_eq_true] at foreign
    have parsedAlarmed : Elf.parse ⟨k.frame.a1.toNat, alarmed k a k.vm.mem⟩ = userParse k := parsed (some ⟨a, foreign⟩)
    refine reads ?_
    rw [sysSpawn_with, sysSpawnWith, sysSpawnWith, if_pos size, if_pos size, parsedAlarmed, parsedCaller]
    cases outcome : userParse k with
    | error e => rw [error_bind, error_bind]
    | ok answer =>
      rw [ok_bind, ok_bind]
      cases answer with
      | error e => rw [spawnParsed, spawnParsed]
      | ok info =>
        rw [spawnParsed, spawnParsed]
        cases slot : firstFree k.procs with
        | none => rfl
        | some pid =>
          have same : loadElf (alarmed k a) info k.vm = loadElf (callerLoad k) info k.vm := by
            refine loadElf_alarmed fun off copied here => ?_
            have user := copies info outcome (by simp [slot]) off copied
            rw [userByte, here, foreign] at user
            cases user
          dsimp only
          rw [same]
  · rw [sysSpawn_with, sysSpawnWith, if_pos size, parsedCaller]
    rcases bounded.whole outside with ⟨e, refused⟩ | ⟨full, info, accepted⟩
    · rw [refused]
      rfl
    · rw [accepted, ok_bind, spawnParsed, full]

/-- A call of the right size is confined if it is bounded and copies user memory only, and only if it is
bounded; a call of another size always is. -/
theorem confined_iff_bounded (k : Kernel) :
    (isValidElfSize k.frame.a1.toNat = false → Confined k) ∧
      (isValidElfSize k.frame.a1.toNat = true → (Bounded k → CopiesOwn k → Confined k) ∧ (Confined k → Bounded k)) := by
  refine ⟨fun size => ⟨fun a reads => absurd ?_ reads, fun _ => ?_⟩, fun size => ⟨fun bounded copies => ?_, fun confined => ?_⟩⟩
  · rw [sysSpawn_with, sysSpawnWith_oversized size, sysSpawnWith_oversized size]
  · rw [sysSpawn_with, sysSpawnWith_oversized size]
  · exact bounded.confined copies size
  · exact confined.bounded size

end Law

section Reference
attribute [local instance] Reference.platform

/-- A table that maps the first page of the kernel's code, as every table does. -/
def textMemory : Memory :=
  let root := Memory.write64 (fun _ => 0) 0x8021_0010 (Pte.branch 0x8021_1000).bits
  let level1 := root.write64 0x8021_1008 (Pte.branch 0x8021_2000).bits
  level1.write64 0x8021_2000 (Pte.new 0x8020_0000 kernelRx).bits

/-- PID 1 asks to spawn the kernel's code. -/
def textKernel : Kernel where
  procs := Function.update (fun _ => {}) 1 { pid := 1, state := .running, satp := makeSatp 0x8021_0000 1 }
  currentPid := 1
  irqOwner _ := 0
  frame := Reference.calling sysSpawnNo 0x8020_0000 64
  satp := makeSatp 0x8021_0000 1
  kernelSatp := makeSatp 0x8021_0000 0
  vm := ⟨textMemory, .new 0x8021_0000 256⟩
  ticks := 0
  plic := ⟨fun _ => false, fun _ => false⟩
  net := none

theorem confined_fails : ∃ k : Kernel, ¬ Confined k := by
  refine ⟨textKernel, fun confined => ?_⟩
  have foreign : userMapped textKernel 0x8020_0000 = false := by decide +kernel
  have size : isValidElfSize textKernel.frame.a1.toNat = true := by decide +kernel
  have alarm : Elf.parse ⟨textKernel.frame.a1.toNat, alarmed textKernel 0x8020_0000 textKernel.vm.mem⟩ =
      .error .deadlock := by
    decide +kernel
  have stopped : sysSpawnWith (alarmed textKernel 0x8020_0000) textKernel = .error .deadlock := by
    rw [sysSpawnWith, if_pos size, alarm]
    rfl
  have user := confined.reads 0x8020_0000 fun same => sysSpawn_calm.1 (same ▸ stopped)
  rw [foreign] at user
  cases user

end Reference
end GooseOs
