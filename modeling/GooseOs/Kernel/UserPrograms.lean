import GooseOs.Kernel.Boot

/-!
`lifecycle.rs`: the two programs the default build embeds, PID 1 and PID 2. A branch names the position of its
target in the listing; how many bytes an instruction takes is the assembler's choice.
-/

namespace GooseOs.UserPrograms

inductive Reg where
  | t0 | t1 | t2 | t3 | s0 | s1 | s2 | a0 | a1 | a7
  deriving DecidableEq

namespace Reg

def get (f : TrapFrame) : Reg → Word
  | t0 => f.t0
  | t1 => f.t1
  | t2 => f.t2
  | t3 => f.t3
  | s0 => f.s0
  | s1 => f.s1
  | s2 => f.s2
  | a0 => f.a0
  | a1 => f.a1
  | a7 => f.a7

def set (f : TrapFrame) (v : Word) : Reg → TrapFrame
  | t0 => { f with t0 := v }
  | t1 => { f with t1 := v }
  | t2 => { f with t2 := v }
  | t3 => { f with t3 := v }
  | s0 => { f with s0 := v }
  | s1 => { f with s1 := v }
  | s2 => { f with s2 := v }
  | a0 => { f with a0 := v }
  | a1 => { f with a1 := v }
  | a7 => { f with a7 := v }

end Reg

inductive Instr where
  /-- `auipc rd, %pcrel_hi(string)` -/
  | auipc (rd : Reg)
  /-- `addi rd, rs, %pcrel_lo(label)`, the label being that of the `auipc` -/
  | addiLo (rd rs : Reg) (label : Nat)
  | li (rd : Reg) (v : Word)
  | mv (rd rs : Reg)
  | addi (rd rs : Reg) (imm : Word)
  | andi (rd rs : Reg) (imm : Word)
  | lbu (rd : Reg) (off : Word) (rs : Reg)
  | sb (rs : Reg) (off : Word) (base : Reg)
  | beqz (rs : Reg) (target : Nat)
  | bne (rs rt : Reg) (target : Nat)
  | j (target : Nat)
  | ecall
  deriving DecidableEq

structure Program where
  code : List Instr
  /-- The string behind the code. -/
  string : List Byte

/-- `.asciz` -/
def asciz (s : String) : List Byte := s.toList.map (fun c => BitVec.ofNat 8 c.toNat) ++ [0]

/-! ### The listings -/

abbrev initSendLoop : Nat := 2
abbrev initDone : Nat := 10
abbrev initEnd : Nat := 13

/-- `_user_init_start` -/
def userInit : Program where
  code := [
    .auipc .s0,
    .addiLo .s0 .s0 0,
    -- initSendLoop
    .lbu .t0 0 .s0,
    .beqz .t0 initDone,
    .li .a7 4,
    .li .a0 2,
    .mv .a1 .t0,
    .ecall,
    .addi .s0 .s0 1,
    .j initSendLoop,
    -- initDone
    .li .a7 1,
    .li .a0 0,
    .ecall,
    .j initEnd]
  string := asciz "Hello from userspace UART!\r\n"

abbrev uartServerLoop : Nat := 6
abbrev uartTxWait : Nat := 12
abbrev uartRxLoop : Nat := 21
abbrev uartRebootMsg : Nat := 27
abbrev uartRebootPutc : Nat := 29
abbrev uartRebootThrWait : Nat := 31
abbrev uartRebootGo : Nat := 37
abbrev uartEchoWait : Nat := 39
abbrev uartLfWait : Nat := 45
abbrev uartRxDone : Nat := 51

section Server
variable [Platform]

/-- `UART_IRQ_NUM`, `UART_LSR_OFF` and `UART_IER_OFF`. -/
def uartIrqNum : Word := if Platform.qemu then 10 else 32
def uartLsrOff : Word := if Platform.qemu then 5 else 20
def uartIerOff : Word := if Platform.qemu then 1 else 4

/-- `_uart_server_start` -/
def uartServer : Program where
  code := [
    .li .s0 0x5E000000,
    .li .a7 14,
    .li .a0 uartIrqNum,
    .ecall,
    .li .t0 0x01,
    .sb .t0 uartIerOff .s0,
    -- uartServerLoop
    .li .a7 3,
    .li .a0 0,
    .ecall,
    .beqz .a1 uartRxLoop,
    .mv .s1 .a1,
    .mv .s2 .a0,
    -- uartTxWait
    .lbu .t0 uartLsrOff .s0,
    .andi .t0 .t0 0x20,
    .beqz .t0 uartTxWait,
    .sb .s2 0 .s0,
    .li .a7 5,
    .mv .a0 .s1,
    .li .a1 0,
    .ecall,
    .j uartServerLoop,
    -- uartRxLoop
    .lbu .t0 uartLsrOff .s0,
    .andi .t0 .t0 0x01,
    .beqz .t0 uartRxDone,
    .lbu .s2 0 .s0,
    .li .t1 0x12,
    .bne .s2 .t1 uartEchoWait,
    -- uartRebootMsg
    .auipc .t2,
    .addiLo .t2 .t2 uartRebootMsg,
    -- uartRebootPutc
    .lbu .t3 0 .t2,
    .beqz .t3 uartRebootGo,
    -- uartRebootThrWait
    .lbu .t0 uartLsrOff .s0,
    .andi .t0 .t0 0x20,
    .beqz .t0 uartRebootThrWait,
    .sb .t3 0 .s0,
    .addi .t2 .t2 1,
    .j uartRebootPutc,
    -- uartRebootGo
    .li .a7 16,
    .ecall,
    -- uartEchoWait
    .lbu .t0 uartLsrOff .s0,
    .andi .t0 .t0 0x20,
    .beqz .t0 uartEchoWait,
    .sb .s2 0 .s0,
    .li .t1 13,
    .bne .s2 .t1 uartRxLoop,
    -- uartLfWait
    .lbu .t0 uartLsrOff .s0,
    .andi .t0 .t0 0x20,
    .beqz .t0 uartLfWait,
    .li .t1 10,
    .sb .t1 0 .s0,
    .j uartRxLoop,
    -- uartRxDone
    .li .a7 15,
    .ecall,
    .j uartServerLoop]
  string := asciz "\r\n  [Ctrl-R] Rebooting...\r\n"

end Server

/-! ### Execution -/

/-- Where the assembler puts the instructions and the string of a program, from its first byte. -/
structure Layout (p : Program) where
  offset : Nat → Word
  string : Word
  start : offset 0 = 0
  apart : ∀ i j, i < p.code.length → j < p.code.length → offset i = offset j → i = j
  /-- `ecall` has no compressed form. -/
  ecall : ∀ i, p.code[i]? = some .ecall → offset (i + 1) = offset i + 4

/-- The part of a distance that `auipc` adds; the signed low 12 bits are left to `addi`. -/
def pcrelHi (distance : Word) : Word := (distance + 0x800) &&& ~~~0xFFF

def pcrelLo (distance : Word) : Word := distance - pcrelHi distance

section Exec
variable {p : Program}

/-- Execution goes on at a position of a program that starts at `base`. -/
def Layout.goto (l : Layout p) (base : Word) (target : Nat) (f : TrapFrame) : TrapFrame :=
  { f with sepc := base + l.offset target }

/-- The registers after the instruction at position `i`. A load reads `b`; `ecall` traps. -/
def Instr.exec (l : Layout p) (base : Word) (i : Nat) (b : Byte) (f : TrapFrame) : Instr → TrapFrame
  | .auipc rd => l.goto base (i + 1) (rd.set f (f.sepc + pcrelHi (l.string - l.offset i)))
  | .addiLo rd rs label => l.goto base (i + 1) (rd.set f (rs.get f + pcrelLo (l.string - l.offset label)))
  | .li rd v => l.goto base (i + 1) (rd.set f v)
  | .mv rd rs => l.goto base (i + 1) (rd.set f (rs.get f))
  | .addi rd rs imm => l.goto base (i + 1) (rd.set f (rs.get f + imm))
  | .andi rd rs imm => l.goto base (i + 1) (rd.set f (rs.get f &&& imm))
  | .lbu rd _ _ => l.goto base (i + 1) (rd.set f (b.setWidth 64))
  | .sb _ _ _ => l.goto base (i + 1) f
  | .beqz rs target => l.goto base (if rs.get f = 0 then target else i + 1) f
  | .bne rs rt target => l.goto base (if rs.get f ≠ rt.get f then target else i + 1) f
  | .j target => l.goto base target f
  | .ecall => f

/-- Neither memory nor the kernel is involved. -/
def Instr.computes : Instr → Bool
  | .lbu .. | .sb .. | .ecall => false
  | _ => true

/-- The UART's registers. -/
def InUart (pa : Nat) : Prop := uartBase ≤ pa ∧ pa < uartBase + pageSize

instance inUart_decidable (pa : Nat) : Decidable (InUart pa) := inferInstanceAs (Decidable (_ ∧ _))

variable [Platform]

/-- The memory access of an instruction in user mode: the byte a load gets and memory after a store. What a UART
register answers is up to the device, and a store to one changes no memory. -/
inductive Access (k : Kernel) : Instr → Byte → Memory → Prop where
  | load {rd rs : Reg} {off : Word} {b : Byte} {w : WalkResult}
      (mapped : translate k.vm.mem k.satp (rs.get k.frame + off).toNat = some w)
      (user : w.flags.contains .user = true) (read : w.flags.contains .read = true)
      (value : ¬ InUart w.phys → b = k.vm.mem w.phys) : Access k (.lbu rd off rs) b k.vm.mem
  | store {rs base : Reg} {off : Word} {b : Byte} {w : WalkResult}
      (mapped : translate k.vm.mem k.satp (base.get k.frame + off).toNat = some w)
      (user : w.flags.contains .user = true) (write : w.flags.contains .write = true) :
      Access k (.sb rs off base) b
        (if InUart w.phys then k.vm.mem else k.vm.mem.write8 w.phys ((rs.get k.frame).setWidth 8))
  | none {instr : Instr} {b : Byte} (computes : instr.computes = true) : Access k instr b k.vm.mem

/-- The program that starts at `base` runs the instruction at position `i`. -/
structure Executes (l : Layout p) (base : Word) (i : Nat) (instr : Instr) (k k' : Kernel) : Prop where
  code : p.code[i]? = some instr
  pc : k.frame.sepc = base + l.offset i
  effect : ∃ b m, Access k instr b m ∧
    k' = { k with frame := instr.exec l base i b k.frame, vm := { k.vm with mem := m } }

end Exec
end GooseOs.UserPrograms
