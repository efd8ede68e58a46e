import GooseOs.Lib.Bytes
import GooseOs.Kernel.Process

/-!
`trap.S`: the trap vector as RISC-V instructions. It saves every register to a `TrapFrame` on the
kernel stack, calls the trap handler and restores the registers from the frame.
-/

namespace GooseOs
namespace TrapVector

/-- `x0` to `x31`. -/
abbrev Reg := Fin 32

instance neZero_registers : NeZero 32 := ⟨by decide⟩

abbrev sp : Reg := 2
abbrev t0 : Reg := 5
abbrev a0 : Reg := 10

inductive Csr where
  | sscratch | sepc | sstatus
  deriving DecidableEq

/-- The registers the vector touches, and memory. -/
structure Cpu where
  x : Reg → Word
  csr : Csr → Word
  mem : Memory

namespace Cpu
variable (c : Cpu)

/-- `x0` reads as zero. -/
def get (r : Reg) : Word := if r = 0 then 0 else c.x r

def set (r : Reg) (v : Word) : Cpu := { c with x := Function.update c.x r v }

def setCsr (s : Csr) (v : Word) : Cpu := { c with csr := Function.update c.csr s v }

def store (m : Memory) : Cpu := { c with mem := m }

end Cpu

inductive Label where
  | trapVector | trapSave | trapRestoreUmode | trapRestoreSmode
  deriving DecidableEq

inductive Instr where
  | csrrw (rd : Reg) (csr : Csr) (rs : Reg)
  | csrr (rd : Reg) (csr : Csr)
  | csrw (csr : Csr) (rs : Reg)
  | bnez (rs : Reg) (target : Label)
  | addi (rd rs : Reg) (imm : BitVec 12)
  | andi (rd rs : Reg) (imm : BitVec 12)
  | sd (rs : Reg) (off : BitVec 12) (base : Reg)
  | ld (rd : Reg) (off : BitVec 12) (base : Reg)
  | mv (rd rs : Reg)
  | call
  | sret

/-! ### The listing -/

/-- `_trap_vector` -/
def trapVector : List Instr := [
  .csrrw sp .sscratch sp,
  .bnez sp .trapSave,
  .csrr sp .sscratch]

/-- `_trap_save` -/
def trapSave : List Instr := [
  .addi sp sp (-272),
  .sd 1 0x00 sp,
  .sd 5 0x20 sp,
  .csrr t0 .sscratch,
  .sd t0 0x08 sp,
  .sd 3 0x10 sp,
  .sd 4 0x18 sp,
  .sd 6 0x28 sp,
  .sd 7 0x30 sp,
  .sd 8 0x38 sp,
  .sd 9 0x40 sp,
  .sd 10 0x48 sp,
  .sd 11 0x50 sp,
  .sd 12 0x58 sp,
  .sd 13 0x60 sp,
  .sd 14 0x68 sp,
  .sd 15 0x70 sp,
  .sd 16 0x78 sp,
  .sd 17 0x80 sp,
  .sd 18 0x88 sp,
  .sd 19 0x90 sp,
  .sd 20 0x98 sp,
  .sd 21 0xA0 sp,
  .sd 22 0xA8 sp,
  .sd 23 0xB0 sp,
  .sd 24 0xB8 sp,
  .sd 25 0xC0 sp,
  .sd 26 0xC8 sp,
  .sd 27 0xD0 sp,
  .sd 28 0xD8 sp,
  .sd 29 0xE0 sp,
  .sd 30 0xE8 sp,
  .sd 31 0xF0 sp,
  .csrr t0 .sstatus,
  .sd t0 0xF8 sp,
  .csrr t0 .sepc,
  .sd t0 0x100 sp,
  .csrw .sscratch 0,
  .mv a0 sp,
  .call,
  .ld t0 0x100 sp,
  .csrw .sepc t0,
  .ld t0 0xF8 sp,
  .csrw .sstatus t0,
  .andi t0 t0 0x100,
  .bnez t0 .trapRestoreSmode]

/-- `_trap_restore_umode` -/
def trapRestoreUmode : List Instr := [
  .ld 1 0x00 sp,
  .ld 3 0x10 sp,
  .ld 4 0x18 sp,
  .ld 6 0x28 sp,
  .ld 7 0x30 sp,
  .ld 8 0x38 sp,
  .ld 9 0x40 sp,
  .ld 10 0x48 sp,
  .ld 11 0x50 sp,
  .ld 12 0x58 sp,
  .ld 13 0x60 sp,
  .ld 14 0x68 sp,
  .ld 15 0x70 sp,
  .ld 16 0x78 sp,
  .ld 17 0x80 sp,
  .ld 18 0x88 sp,
  .ld 19 0x90 sp,
  .ld 20 0x98 sp,
  .ld 21 0xA0 sp,
  .ld 22 0xA8 sp,
  .ld 23 0xB0 sp,
  .ld 24 0xB8 sp,
  .ld 25 0xC0 sp,
  .ld 26 0xC8 sp,
  .ld 27 0xD0 sp,
  .ld 28 0xD8 sp,
  .ld 29 0xE0 sp,
  .ld 30 0xE8 sp,
  .ld 31 0xF0 sp,
  .ld t0 0x08 sp,
  .csrw .sscratch t0,
  .ld 5 0x20 sp,
  .addi sp sp 272,
  .csrrw sp .sscratch sp,
  .sret]

/-- `_trap_restore_smode` -/
def trapRestoreSmode : List Instr := [
  .ld 1 0x00 sp,
  .ld 3 0x10 sp,
  .ld 4 0x18 sp,
  .ld 5 0x20 sp,
  .ld 6 0x28 sp,
  .ld 7 0x30 sp,
  .ld 8 0x38 sp,
  .ld 9 0x40 sp,
  .ld 10 0x48 sp,
  .ld 11 0x50 sp,
  .ld 12 0x58 sp,
  .ld 13 0x60 sp,
  .ld 14 0x68 sp,
  .ld 15 0x70 sp,
  .ld 16 0x78 sp,
  .ld 17 0x80 sp,
  .ld 18 0x88 sp,
  .ld 19 0x90 sp,
  .ld 20 0x98 sp,
  .ld 21 0xA0 sp,
  .ld 22 0xA8 sp,
  .ld 23 0xB0 sp,
  .ld 24 0xB8 sp,
  .ld 25 0xC0 sp,
  .ld 26 0xC8 sp,
  .ld 27 0xD0 sp,
  .ld 28 0xD8 sp,
  .ld 29 0xE0 sp,
  .ld 30 0xE8 sp,
  .ld 31 0xF0 sp,
  .addi sp sp 272,
  .sret]

/-- The code from a label on; each block runs into the next. -/
def codeAt : Label → List Instr
  | .trapVector => trapVector ++ trapSave ++ trapRestoreUmode ++ trapRestoreSmode
  | .trapSave => trapSave ++ trapRestoreUmode ++ trapRestoreSmode
  | .trapRestoreUmode => trapRestoreUmode ++ trapRestoreSmode
  | .trapRestoreSmode => trapRestoreSmode

/-! ### Execution -/

/-- Where execution of the listing stops: at `call trap_handler`, with the code behind it, or at `sret`. -/
inductive Stop where
  | calls (rest : List Instr) (c : Cpu)
  | returns (c : Cpu)

/-- The address of an offset from a base register. -/
def Cpu.address (c : Cpu) (base : Reg) (off : BitVec 12) : Nat := (c.get base + off.signExtend 64).toNat

def exec : Nat → List Instr → Cpu → Option Stop
  | 0, _, _ => none
  | _ + 1, [], _ => none
  | fuel + 1, .csrrw rd s rs :: rest, c => exec fuel rest ((c.setCsr s (c.get rs)).set rd (c.csr s))
  | fuel + 1, .csrr rd s :: rest, c => exec fuel rest (c.set rd (c.csr s))
  | fuel + 1, .csrw s rs :: rest, c => exec fuel rest (c.setCsr s (c.get rs))
  | fuel + 1, .bnez rs target :: rest, c => if c.get rs ≠ 0 then exec fuel (codeAt target) c else exec fuel rest c
  | fuel + 1, .addi rd rs imm :: rest, c => exec fuel rest (c.set rd (c.get rs + imm.signExtend 64))
  | fuel + 1, .andi rd rs imm :: rest, c => exec fuel rest (c.set rd (c.get rs &&& imm.signExtend 64))
  | fuel + 1, .sd rs off base :: rest, c =>
    exec fuel rest (c.store (c.mem.write64 (c.address base off) (c.get rs)))
  | fuel + 1, .ld rd off base :: rest, c => exec fuel rest (c.set rd (c.mem.read64 (c.address base off)))
  | fuel + 1, .mv rd rs :: rest, c => exec fuel rest (c.set rd (c.get rs))
  | _ + 1, .call :: rest, c => some (.calls rest c)
  | _ + 1, .sret :: _, c => some (.returns c)

/-- More instructions than the vector executes on either side of the call. -/
def budget : Nat := 64

/-! ### The frame -/

/-- The word in slot `i` of a frame at `base`. -/
def slot (m : Memory) (base : Word) (i : Nat) : Word := m.read64 (base + BitVec.ofNat 64 (8 * i)).toNat

/-- The fields of `repr(C)` `TrapFrame`, in the order of their declaration. -/
def ofSlots (f : Nat → Word) : TrapFrame where
  ra := f 0
  sp := f 1
  gp := f 2
  tp := f 3
  t0 := f 4
  t1 := f 5
  t2 := f 6
  s0 := f 7
  s1 := f 8
  a0 := f 9
  a1 := f 10
  a2 := f 11
  a3 := f 12
  a4 := f 13
  a5 := f 14
  a6 := f 15
  a7 := f 16
  s2 := f 17
  s3 := f 18
  s4 := f 19
  s5 := f 20
  s6 := f 21
  s7 := f 22
  s8 := f 23
  s9 := f 24
  s10 := f 25
  s11 := f 26
  t3 := f 27
  t4 := f 28
  t5 := f 29
  t6 := f 30
  sstatus := f 31
  sepc := f 32

/-- The `TrapFrame` in memory at `base`: 33 fields of eight bytes each. -/
def frameAt (m : Memory) (base : Word) : TrapFrame := ofSlots (slot m base)

/-- The registers a `TrapFrame` names. -/
def Cpu.registers (c : Cpu) : TrapFrame where
  ra := c.x 1
  sp := c.x 2
  gp := c.x 3
  tp := c.x 4
  t0 := c.x 5
  t1 := c.x 6
  t2 := c.x 7
  s0 := c.x 8
  s1 := c.x 9
  a0 := c.x 10
  a1 := c.x 11
  a2 := c.x 12
  a3 := c.x 13
  a4 := c.x 14
  a5 := c.x 15
  a6 := c.x 16
  a7 := c.x 17
  s2 := c.x 18
  s3 := c.x 19
  s4 := c.x 20
  s5 := c.x 21
  s6 := c.x 22
  s7 := c.x 23
  s8 := c.x 24
  s9 := c.x 25
  s10 := c.x 26
  s11 := c.x 27
  t3 := c.x 28
  t4 := c.x 29
  t5 := c.x 30
  t6 := c.x 31
  sstatus := c.csr .sstatus
  sepc := c.csr .sepc

end TrapVector
end GooseOs
