import GooseOs.Kernel.UserPrograms
import GooseOs.Process.Consistency
import Mathlib.Tactic.IntervalCases

/-!
The machine with the two embedded programs in user mode, and what holds at each position of their listings.
-/

namespace GooseOs.UserPrograms

/-- What the assembler and the boot path make of the two programs. -/
structure Assembled [Platform] where
  init : Layout userInit
  server : Layout uartServer
  initBase : Word
  serverBase : Word

section Step
variable [Platform]

/-- The running program is at an `ecall`. -/
def Assembled.AtEcall (a : Assembled) (k : Kernel) : Prop :=
  (k.currentPid = 1 ∧ ∃ i, userInit.code[i]? = some .ecall ∧ k.frame.sepc = a.initBase + a.init.offset i) ∨
    (k.currentPid = 2 ∧ ∃ i, uartServer.code[i]? = some .ecall ∧ k.frame.sepc = a.serverBase + a.server.offset i)

/-- A step of the machine in which user mode runs the embedded programs. Interrupts and faults come at any time. -/
inductive ProgramStep (a : Assembled) : Kernel → Label → Kernel → Prop where
  | init {k k' : Kernel} {i : Nat} {instr : Instr} (mode : k.inUser) (pid : k.currentPid = 1)
      (runs : Executes a.init a.initBase i instr k k') : ProgramStep a k .user k'
  | server {k k' : Kernel} {i : Nat} {instr : Instr} (mode : k.inUser) (pid : k.currentPid = 2)
      (runs : Executes a.server a.serverBase i instr k k') : ProgramStep a k .user k'
  | ecall {k k' : Kernel} (call : a.AtEcall k) (step : Step k (.trap .ecall) k') : ProgramStep a k (.trap .ecall) k'
  | kernel {k k' : Kernel} {l : Label} (user : l ≠ .user) (call : l ≠ .trap .ecall) (step : Step k l k') :
      ProgramStep a k l k'

/-- The assembled strings are in the image, at the end of their programs. -/
structure Assembled.Embedded (a : Assembled) (m : Memory) : Prop where
  text : Platform.textStart ≤ Platform.userInit.1 ∧ Platform.userInit.1 + Platform.userInit.2 ≤ Platform.textEnd
  inside : a.init.string.toNat + userInit.string.length ≤ Platform.userInit.2
  string : ∀ j (bound : j < userInit.string.length),
    m (Platform.userInit.1 + a.init.string.toNat + j) = userInit.string[j]

/-- The default build as it enters user mode. -/
structure Starts (a : Assembled) (k : Kernel) : Prop where
  build : Platform.securityTest = false ∧ Platform.rustUser = false
  boots : ∃ env : Boot.Environment, (∀ irq, env.netIrq = some irq → 1 ≤ irq ∧ irq ≤ virtioMmioSlots) ∧
    Boot.boot env = .ok k ∧ a.Embedded env.mem
  init : (k.procs 1).context.sepc = a.initBase
  server : (k.procs 2).context.sepc = a.serverBase

abbrev ProgramRun (a : Assembled) := Run (Starts a) (ProgramStep a)

end Step

/-! ### Instructions -/

section Instructions
variable {p : Program} {l : Layout p} {base : Word} {i : Nat} {b : Byte} {f : TrapFrame} {rd rs : Reg} {v : Word}

@[simp] theorem set_spp : (rd.set f v).spp = f.spp := by cases rd <;> rfl

@[simp] theorem goto_spp {target : Nat} : (l.goto base target f).spp = f.spp := rfl

@[simp] theorem exec_spp {instr : Instr} : (instr.exec l base i b f).spp = f.spp := by
  cases instr <;> simp [Instr.exec]

variable [Platform] {instr : Instr} {k k' : Kernel}

/-- An embedded program runs as any user program may. -/
theorem Executes.step (runs : Executes l base i instr k k') (mode : k.inUser) : Step k .user k' := by
  obtain ⟨-, -, b, m, access, rfl⟩ := runs
  have after : (instr.exec l base i b k.frame).spp = false := exec_spp.trans mode
  refine .user mode after fun pa differs => ?_
  cases access with
  | load | none => exact absurd rfl differs
  | store mapped user write =>
    rename_i w
    split at differs
    · exact absurd rfl differs
    · by_cases own : pa = w.phys
      · exact ⟨_, w, mapped, user, write, own.symm⟩
      · exact absurd (Memory.write8_apply_ne own) differs

theorem Access.not_ecall {m : Memory} (access : Access k instr b m) : instr ≠ .ecall := by
  rintro rfl
  cases access with
  | none computes => cases computes

/-- Where two positions of a listing have one address they are the same. -/
theorem Executes.position {j : Nat} (runs : Executes l base j instr k k') (bound : i < p.code.length)
    (pc : k.frame.sepc = base + l.offset i) : j = i := by
  refine l.apart j i (List.getElem?_eq_some_iff.mp runs.code).1 bound ?_
  exact (BitVec.add_right_inj base).mp (runs.pc.symm.trans pc)

end Instructions

theorem ProgramStep.step [Platform] {a : Assembled} {k k' : Kernel} {l : Label} (step : ProgramStep a k l k') :
    Step k l k' := by
  cases step with
  | init mode _ runs => exact runs.step mode
  | server mode _ runs => exact runs.step mode
  | ecall _ step => exact step
  | kernel _ _ step => exact step

/-- A run of the embedded programs is a run of the machine. -/
def ProgramRun.machine [Platform] {a : Assembled} (r : ProgramRun a) : MachineRun where
  len := r.len
  state := r.state
  label := r.label
  start := by
    obtain ⟨env, device, boots, -⟩ := r.start.boots
    exact ⟨env, device, boots⟩
  steps n bound := (r.steps n bound).step

/-! ### init -/

section Init
variable (l : Layout userInit) (base : Word)

/-- The address of character `n` of the greeting. -/
def charAt (n : Nat) : Word := base + l.string + BitVec.ofNat 64 n

/-- Character `n`, as a load extends it. -/
def charOf (n : Nat) : Word := (userInit.string.getD n 0).setWidth 64

/-- What the programs read and write: the greeting, and the registers of the UART. -/
structure Mapped [Platform] (a : Assembled) (m : Memory) (init server : Word) : Prop where
  greeting : ∀ n (bound : n < userInit.string.length), ∃ w, translate m init (charAt a.init a.initBase n).toNat = some w ∧
    ¬ InUart w.phys ∧ m w.phys = userInit.string[n]
  uart : ∀ off : Word, off.toNat < pageSize → ∃ w, translate m server (0x5E000000 + off).toNat = some w ∧ InUart w.phys

/-- What holds when init stands at a position of its listing with `n` characters sent. -/
def initHolds (n : Nat) (f : TrapFrame) : Nat → Prop
  | 0 => n = 0
  | 1 => n = 0 ∧ f.s0 = base + pcrelHi l.string
  | 2 | 9 => f.s0 = charAt l base n
  | 3 => f.s0 = charAt l base n ∧ f.t0 = charOf n
  | 4 => f.s0 = charAt l base n ∧ f.t0 = charOf n ∧ charOf n ≠ 0
  | 5 => f.s0 = charAt l base n ∧ f.t0 = charOf n ∧ charOf n ≠ 0 ∧ f.a7 = 4
  | 6 => f.s0 = charAt l base n ∧ f.t0 = charOf n ∧ charOf n ≠ 0 ∧ f.a7 = 4 ∧ f.a0 = 2
  | 7 => f.s0 = charAt l base n ∧ charOf n ≠ 0 ∧ f.a7 = 4 ∧ f.a0 = 2 ∧ f.a1 = charOf n
  | 8 => f.s0 + 1 = charAt l base n
  | 10 | 13 => charOf n = 0
  | 11 | 12 => charOf n = 0 ∧ f.a7 = 1
  | _ => False

/-- init, with registers `f`, has sent `n` characters. -/
structure InitAt (n : Nat) (f : TrapFrame) (i : Nat) : Prop where
  pc : f.sepc = base + l.offset i
  sent : n < userInit.string.length
  holds : initHolds l base n f i

variable {l base} {n i : Nat} {f : TrapFrame} {b : Byte} {instr : Instr}

theorem InitAt.bound (here : InitAt l base n f i) : i < userInit.code.length := by
  have holds := here.holds
  change i < 14
  by_contra far
  obtain ⟨j, rfl⟩ : ∃ j, i = j + 14 := ⟨i - 14, by omega⟩
  exact holds

theorem charAt_zero : charAt l base 0 = base + pcrelHi l.string + pcrelLo l.string := by
  simp only [charAt, pcrelLo, BitVec.add_zero, BitVec.add_assoc]
  rw [BitVec.add_comm (pcrelHi _), BitVec.sub_add_cancel]

theorem charAt_succ : charAt l base n + 1 = charAt l base (n + 1) := by
  simp [charAt, BitVec.ofNat_add, BitVec.add_assoc]

/-- Every instruction but `ecall` leads from what holds at its position to what holds at the next. -/
theorem InitAt.exec (here : InitAt l base n f i) (code : userInit.code[i]? = some instr) (no : instr ≠ .ecall)
    (value : i = initSendLoop → b.setWidth 64 = charOf n) :
    ∃ j, InitAt l base n (instr.exec l base i b f) j := by
  have bound : i < 14 := here.bound
  obtain ⟨pc, sent, holds⟩ := here
  interval_cases i <;> cases code
  · refine ⟨1, rfl, sent, holds, ?_⟩
    change f.sepc + pcrelHi (l.string - l.offset 0) = _
    rw [pc, l.start]
    simp
  · refine ⟨2, rfl, sent, ?_⟩
    change f.s0 + pcrelLo (l.string - l.offset 0) = _
    rw [l.start, holds.1, holds.2, charAt_zero]
    simp
  · exact ⟨3, rfl, sent, holds, value rfl⟩
  · by_cases last : f.t0 = 0
    · exact ⟨10, congrArg (base + l.offset ·) (if_pos last), sent, holds.2.symm.trans last⟩
    · exact ⟨4, congrArg (base + l.offset ·) (if_neg last), sent, holds.1, holds.2, fun zero => last (holds.2.trans zero)⟩
  · exact ⟨5, rfl, sent, holds.1, holds.2.1, holds.2.2, rfl⟩
  · exact ⟨6, rfl, sent, holds.1, holds.2.1, holds.2.2.1, holds.2.2.2, rfl⟩
  · exact ⟨7, rfl, sent, holds.1, holds.2.2.1, holds.2.2.2.1, holds.2.2.2.2, holds.2.1⟩
  · exact absurd rfl no
  · exact ⟨9, rfl, sent, holds⟩
  · exact ⟨2, rfl, sent, holds⟩
  · exact ⟨11, rfl, sent, holds, rfl⟩
  · exact ⟨12, rfl, sent, holds.1, holds.2⟩
  · exact absurd rfl no
  · exact ⟨13, rfl, sent, holds⟩

end Init

/-! ### The server -/

/-- What the server holds of a client: the message it received and has not written, or the client it has written
for and not answered. -/
inductive Hand where
  | empty
  | received (char sender : Word)
  | written (sender : Word)

section Server
variable [Platform]

/-- The store on the TX path. -/
abbrev uartTxStore : Nat := 15

def hand (f : TrapFrame) : Nat → Hand
  | 9 => if f.a1 = 0 then .empty else .received f.a0 f.a1
  | 10 => .received f.a0 f.a1
  | 11 => .received f.a0 f.s1
  | 12 | 13 | 14 | 15 => .received f.s2 f.s1
  | 16 | 17 => .written f.s1
  | 18 => .written f.a0
  | 19 => .written f.a0
  | _ => .empty

/-- The system call made at a position, from where its number is loaded. -/
def serverHolds (f : TrapFrame) : Nat → Prop
  | 2 | 3 => f.a7 = 14
  | 7 => f.a7 = 3
  | 8 => f.a7 = 3 ∧ f.a0 = 0
  | 17 | 18 => f.a7 = 5
  | 19 => f.a7 = 5 ∧ f.a1 = 0
  | 38 => f.a7 = 16
  | 52 => f.a7 = 15
  | _ => True

/-- The server, with registers `f`, at a position of its listing. -/
structure ServerAt (l : Layout uartServer) (base : Word) (f : TrapFrame) (i : Nat) : Prop where
  bound : i < uartServer.code.length
  pc : f.sepc = base + l.offset i
  uart : i ≠ 0 → f.s0 = 0x5E000000
  holds : serverHolds f i

variable {l : Layout uartServer} {base : Word} {i : Nat} {f : TrapFrame} {b : Byte} {instr : Instr}

/-- Every instruction but `ecall` leaves the server with what it held, and the store on the TX path writes it. -/
theorem ServerAt.exec (here : ServerAt l base f i) (code : uartServer.code[i]? = some instr) (no : instr ≠ .ecall) :
    ∃ j, ServerAt l base (instr.exec l base i b f) j ∧
      if i = uartTxStore then hand f i = .received f.s2 f.s1 ∧ hand (instr.exec l base i b f) j = .written f.s1
      else hand (instr.exec l base i b f) j = hand f i := by
  have bound : i < 54 := here.bound
  obtain ⟨-, pc, uart, holds⟩ := here
  by_cases first : i = 0
  · subst first
    cases code
    exact ⟨1, ⟨Nat.lt_of_lt_of_eq (by decide : 1 < 54) rfl, rfl, fun _ => rfl, trivial⟩, rfl⟩
  replace uart := uart first
  have lands : ∀ {f' : TrapFrame} (j : Nat) (pc : f'.sepc = base + l.offset j) (uart : f'.s0 = 0x5E000000)
      (holds : serverHolds f' j) (small : j < 54 := by decide), ServerAt l base f' j :=
    fun _ pc uart holds small => ⟨small, pc, fun _ => uart, holds⟩
  interval_cases i <;> cases code
  · exact absurd rfl first
  · exact ⟨2, lands 2 rfl uart rfl, rfl⟩
  · exact ⟨3, lands 3 rfl uart holds, rfl⟩
  · exact absurd rfl no
  · exact ⟨5, lands 5 rfl uart trivial, rfl⟩
  · exact ⟨6, lands 6 rfl uart trivial, rfl⟩
  · exact ⟨7, lands 7 rfl uart rfl, rfl⟩
  · exact ⟨8, lands 8 rfl uart ⟨holds, rfl⟩, rfl⟩
  · exact absurd rfl no
  · by_cases taken : f.a1 = 0
    · exact ⟨21, lands 21 (congrArg (base + l.offset ·) (if_pos taken)) uart trivial, (if_pos taken).symm⟩
    · exact ⟨10, lands 10 (congrArg (base + l.offset ·) (if_neg taken)) uart trivial, (if_neg taken).symm⟩
  · exact ⟨11, lands 11 rfl uart trivial, rfl⟩
  · exact ⟨12, lands 12 rfl uart trivial, rfl⟩
  · exact ⟨13, lands 13 rfl uart trivial, rfl⟩
  · exact ⟨14, lands 14 rfl uart trivial, rfl⟩
  · by_cases taken : f.t0 = 0
    · exact ⟨12, lands 12 (congrArg (base + l.offset ·) (if_pos taken)) uart trivial, rfl⟩
    · exact ⟨15, lands 15 (congrArg (base + l.offset ·) (if_neg taken)) uart trivial, rfl⟩
  · exact ⟨16, lands 16 rfl uart trivial, rfl, rfl⟩
  · exact ⟨17, lands 17 rfl uart rfl, rfl⟩
  · exact ⟨18, lands 18 rfl uart holds, rfl⟩
  · exact ⟨19, lands 19 rfl uart ⟨holds, rfl⟩, rfl⟩
  · exact absurd rfl no
  · exact ⟨6, lands 6 rfl uart trivial, rfl⟩
  · exact ⟨22, lands 22 rfl uart trivial, rfl⟩
  · exact ⟨23, lands 23 rfl uart trivial, rfl⟩
  · by_cases taken : f.t0 = 0
    · exact ⟨51, lands 51 (congrArg (base + l.offset ·) (if_pos taken)) uart trivial, rfl⟩
    · exact ⟨24, lands 24 (congrArg (base + l.offset ·) (if_neg taken)) uart trivial, rfl⟩
  · exact ⟨25, lands 25 rfl uart trivial, rfl⟩
  · exact ⟨26, lands 26 rfl uart trivial, rfl⟩
  · by_cases taken : f.s2 ≠ f.t1
    · exact ⟨39, lands 39 (congrArg (base + l.offset ·) (if_pos taken)) uart trivial, rfl⟩
    · exact ⟨27, lands 27 (congrArg (base + l.offset ·) (if_neg taken)) uart trivial, rfl⟩
  · exact ⟨28, lands 28 rfl uart trivial, rfl⟩
  · exact ⟨29, lands 29 rfl uart trivial, rfl⟩
  · exact ⟨30, lands 30 rfl uart trivial, rfl⟩
  · by_cases taken : f.t3 = 0
    · exact ⟨37, lands 37 (congrArg (base + l.offset ·) (if_pos taken)) uart trivial, rfl⟩
    · exact ⟨31, lands 31 (congrArg (base + l.offset ·) (if_neg taken)) uart trivial, rfl⟩
  · exact ⟨32, lands 32 rfl uart trivial, rfl⟩
  · exact ⟨33, lands 33 rfl uart trivial, rfl⟩
  · by_cases taken : f.t0 = 0
    · exact ⟨31, lands 31 (congrArg (base + l.offset ·) (if_pos taken)) uart trivial, rfl⟩
    · exact ⟨34, lands 34 (congrArg (base + l.offset ·) (if_neg taken)) uart trivial, rfl⟩
  · exact ⟨35, lands 35 rfl uart trivial, rfl⟩
  · exact ⟨36, lands 36 rfl uart trivial, rfl⟩
  · exact ⟨29, lands 29 rfl uart trivial, rfl⟩
  · exact ⟨38, lands 38 rfl uart rfl, rfl⟩
  · exact absurd rfl no
  · exact ⟨40, lands 40 rfl uart trivial, rfl⟩
  · exact ⟨41, lands 41 rfl uart trivial, rfl⟩
  · by_cases taken : f.t0 = 0
    · exact ⟨39, lands 39 (congrArg (base + l.offset ·) (if_pos taken)) uart trivial, rfl⟩
    · exact ⟨42, lands 42 (congrArg (base + l.offset ·) (if_neg taken)) uart trivial, rfl⟩
  · exact ⟨43, lands 43 rfl uart trivial, rfl⟩
  · exact ⟨44, lands 44 rfl uart trivial, rfl⟩
  · by_cases taken : f.s2 ≠ f.t1
    · exact ⟨21, lands 21 (congrArg (base + l.offset ·) (if_pos taken)) uart trivial, rfl⟩
    · exact ⟨45, lands 45 (congrArg (base + l.offset ·) (if_neg taken)) uart trivial, rfl⟩
  · exact ⟨46, lands 46 rfl uart trivial, rfl⟩
  · exact ⟨47, lands 47 rfl uart trivial, rfl⟩
  · by_cases taken : f.t0 = 0
    · exact ⟨45, lands 45 (congrArg (base + l.offset ·) (if_pos taken)) uart trivial, rfl⟩
    · exact ⟨48, lands 48 (congrArg (base + l.offset ·) (if_neg taken)) uart trivial, rfl⟩
  · exact ⟨49, lands 49 rfl uart trivial, rfl⟩
  · exact ⟨50, lands 50 rfl uart trivial, rfl⟩
  · exact ⟨21, lands 21 rfl uart trivial, rfl⟩
  · exact ⟨52, lands 52 rfl uart rfl, rfl⟩
  · exact absurd rfl no
  · exact ⟨6, lands 6 rfl uart trivial, rfl⟩

end Server

end GooseOs.UserPrograms
