import GooseOs.Kernel.Security
import GooseOs.Kernel.Wasm

/-!
`interp.rs`: the opcodes, the readers of instructions and the two scanners over a block body.
A reader is a program over the program counter; the bytes are fixed.
-/

namespace GooseOs.Wasm

inductive TrapKind where
  | unreachable | stackOverflow | stackUnderflow | callStackOverflow | outOfBounds | divisionByZero
  | integerOverflow
  | unknownOpcode (opcode : Byte)
  | invalidLocal | invalidFunction | typeMismatch | labelStackOverflow | invalidBranch | unexpectedEnd
  | hostCallError (code : BitVec 32)
  deriving DecidableEq

inductive Load where
  | i32Load | i64Load | i32Load8S | i32Load8U | i32Load16S | i32Load16U
  deriving DecidableEq

inductive Store where
  | i32Store | i64Store | i32Store8 | i32Store16
  deriving DecidableEq

/-- The instructions that replace their operands by one result. -/
inductive Numeric where
  | i32Eqz | i32Eq | i32Ne | i32LtS | i32LtU | i32GtS | i32GtU | i32LeS | i32LeU | i32GeS | i32GeU
  | i64Eqz | i64Eq | i64Ne | i64LtS | i64LtU | i64GtS | i64GtU | i64LeS | i64LeU | i64GeS | i64GeU
  | i32Clz | i32Ctz | i32Add | i32Sub | i32Mul | i32DivS | i32DivU | i32RemS | i32RemU | i32And | i32Or
  | i32Xor | i32Shl | i32ShrS | i32ShrU | i32Rotl | i32Rotr
  | i64Clz | i64Ctz | i64Add | i64Sub | i64Mul | i64DivS | i64DivU | i64RemS | i64RemU | i64And | i64Or
  | i64Xor | i64Shl | i64ShrS | i64ShrU | i64Rotl | i64Rotr
  | i32WrapI64 | i64ExtendI32S | i64ExtendI32U
  deriving DecidableEq

/-- The opcodes of `mod op`; the others are `unknown`. -/
inductive Op where
  | unreachable | nop | block | loop | ifOp | elseOp | endOp | br | brIf | returnOp | call
  | drop | select | localGet | localSet | localTee
  | load (op : Load)
  | store (op : Store)
  | memorySize | memoryGrow | i32Const | i64Const
  | numeric (op : Numeric)
  | unknown (opcode : Byte)
  deriving DecidableEq

def Op.ofByte (opcode : Byte) : Op :=
  match opcode.toNat with
  | 0x00 => .unreachable
  | 0x01 => .nop
  | 0x02 => .block
  | 0x03 => .loop
  | 0x04 => .ifOp
  | 0x05 => .elseOp
  | 0x0B => .endOp
  | 0x0C => .br
  | 0x0D => .brIf
  | 0x0F => .returnOp
  | 0x10 => .call
  | 0x1A => .drop
  | 0x1B => .select
  | 0x20 => .localGet
  | 0x21 => .localSet
  | 0x22 => .localTee
  | 0x28 => .load .i32Load
  | 0x29 => .load .i64Load
  | 0x2C => .load .i32Load8S
  | 0x2D => .load .i32Load8U
  | 0x2E => .load .i32Load16S
  | 0x2F => .load .i32Load16U
  | 0x36 => .store .i32Store
  | 0x37 => .store .i64Store
  | 0x38 => .store .i32Store8
  | 0x39 => .store .i32Store16
  | 0x3F => .memorySize
  | 0x40 => .memoryGrow
  | 0x41 => .i32Const
  | 0x42 => .i64Const
  | 0x45 => .numeric .i32Eqz
  | 0x46 => .numeric .i32Eq
  | 0x47 => .numeric .i32Ne
  | 0x48 => .numeric .i32LtS
  | 0x49 => .numeric .i32LtU
  | 0x4A => .numeric .i32GtS
  | 0x4B => .numeric .i32GtU
  | 0x4C => .numeric .i32LeS
  | 0x4D => .numeric .i32LeU
  | 0x4E => .numeric .i32GeS
  | 0x4F => .numeric .i32GeU
  | 0x50 => .numeric .i64Eqz
  | 0x51 => .numeric .i64Eq
  | 0x52 => .numeric .i64Ne
  | 0x53 => .numeric .i64LtS
  | 0x54 => .numeric .i64LtU
  | 0x55 => .numeric .i64GtS
  | 0x56 => .numeric .i64GtU
  | 0x57 => .numeric .i64LeS
  | 0x58 => .numeric .i64LeU
  | 0x59 => .numeric .i64GeS
  | 0x5A => .numeric .i64GeU
  | 0x67 => .numeric .i32Clz
  | 0x68 => .numeric .i32Ctz
  | 0x6A => .numeric .i32Add
  | 0x6B => .numeric .i32Sub
  | 0x6C => .numeric .i32Mul
  | 0x6D => .numeric .i32DivS
  | 0x6E => .numeric .i32DivU
  | 0x6F => .numeric .i32RemS
  | 0x70 => .numeric .i32RemU
  | 0x71 => .numeric .i32And
  | 0x72 => .numeric .i32Or
  | 0x73 => .numeric .i32Xor
  | 0x74 => .numeric .i32Shl
  | 0x75 => .numeric .i32ShrS
  | 0x76 => .numeric .i32ShrU
  | 0x77 => .numeric .i32Rotl
  | 0x78 => .numeric .i32Rotr
  | 0x79 => .numeric .i64Clz
  | 0x7A => .numeric .i64Ctz
  | 0x7C => .numeric .i64Add
  | 0x7D => .numeric .i64Sub
  | 0x7E => .numeric .i64Mul
  | 0x7F => .numeric .i64DivS
  | 0x80 => .numeric .i64DivU
  | 0x81 => .numeric .i64RemS
  | 0x82 => .numeric .i64RemU
  | 0x83 => .numeric .i64And
  | 0x84 => .numeric .i64Or
  | 0x85 => .numeric .i64Xor
  | 0x86 => .numeric .i64Shl
  | 0x87 => .numeric .i64ShrS
  | 0x88 => .numeric .i64ShrU
  | 0x89 => .numeric .i64Rotl
  | 0x8A => .numeric .i64Rotr
  | 0xA7 => .numeric .i32WrapI64
  | 0xAC => .numeric .i64ExtendI32S
  | 0xAD => .numeric .i64ExtendI32U
  | _ => .unknown opcode

/-! ### Numeric instructions -/

/-- What a numeric instruction computes from its operands, the one pushed first on the left. -/
inductive Meaning where
  | unary (f : Word → Word)
  | binary (f : Word → Word → Except (Stop TrapKind) Word)

namespace Meaning

def flag (c : Bool) : Word := if c then 1 else 0

/-- The low word of a slot, as `pop_u32` and `pop_i32` read it. -/
def low (a : Word) : BitVec 32 := a.setWidth 32

def i32Unary (f : BitVec 32 → BitVec 32) : Meaning := .unary fun a => (f (low a)).setWidth 64

def i32Binary (f : BitVec 32 → BitVec 32 → BitVec 32) : Meaning :=
  .binary fun a b => .ok ((f (low a) (low b)).setWidth 64)

def i64Binary (f : Word → Word → Word) : Meaning := .binary fun a b => .ok (f a b)

def i32Relation (r : BitVec 32 → BitVec 32 → Bool) : Meaning := .binary fun a b => .ok (flag (r (low a) (low b)))

def i64Relation (r : Word → Word → Bool) : Meaning := .binary fun a b => .ok (flag (r a b))

/-- `wrapping_div`, which panics on a zero divisor only. -/
def wrappingDiv {w : Nat} (a b : BitVec w) : Except (Stop TrapKind) (BitVec w) :=
  if b = 0 then .error .fault else .ok (a.sdiv b)

/-- Signed `%`, which panics on a zero divisor and on overflow. -/
def rem {w : Nat} (a b : BitVec w) : Except (Stop TrapKind) (BitVec w) :=
  if b = 0 ∨ (a = BitVec.intMin w ∧ b = -1) then .error .fault else .ok (a.srem b)

def divS {w : Nat} (a b : BitVec w) : Except (Stop TrapKind) (BitVec w) :=
  if b = 0 then .error (.error .divisionByZero)
  else if a = BitVec.intMin w ∧ b = -1 then .error (.error .integerOverflow)
  else wrappingDiv a b

/-- Unsigned `/` panics on a zero divisor. -/
def divU {w : Nat} (a b : BitVec w) : Except (Stop TrapKind) (BitVec w) :=
  if b = 0 then .error (.error .divisionByZero)
  else if b = 0 then .error .fault
  else .ok (a / b)

def remS {w : Nat} (a b : BitVec w) : Except (Stop TrapKind) (BitVec w) :=
  if b = 0 then .error (.error .divisionByZero)
  else if a = BitVec.intMin w ∧ b = -1 then .ok 0
  else rem a b

/-- Unsigned `%` panics on a zero divisor. -/
def remU {w : Nat} (a b : BitVec w) : Except (Stop TrapKind) (BitVec w) :=
  if b = 0 then .error (.error .divisionByZero)
  else if b = 0 then .error .fault
  else .ok (a % b)

def i32Division (f : BitVec 32 → BitVec 32 → Except (Stop TrapKind) (BitVec 32)) : Meaning :=
  .binary fun a b => (BitVec.setWidth 64) <$> f (low a) (low b)

end Meaning

open Meaning in
/-- The arms of `run` for the numeric opcodes. -/
def Numeric.meaning : Numeric → Meaning
  | .i32Eqz => .unary fun a => flag (low a = 0)
  | .i32Eq => i32Relation fun a b => a = b
  | .i32Ne => i32Relation fun a b => a ≠ b
  | .i32LtS => i32Relation fun a b => a.slt b
  | .i32LtU => i32Relation fun a b => a < b
  | .i32GtS => i32Relation fun a b => b.slt a
  | .i32GtU => i32Relation fun a b => a > b
  | .i32LeS => i32Relation fun a b => a.sle b
  | .i32LeU => i32Relation fun a b => a ≤ b
  | .i32GeS => i32Relation fun a b => b.sle a
  | .i32GeU => i32Relation fun a b => a ≥ b
  | .i64Eqz => .unary fun a => flag (a = 0)
  | .i64Eq => i64Relation fun a b => a = b
  | .i64Ne => i64Relation fun a b => a ≠ b
  | .i64LtS => i64Relation fun a b => a.slt b
  | .i64LtU => i64Relation fun a b => a < b
  | .i64GtS => i64Relation fun a b => b.slt a
  | .i64GtU => i64Relation fun a b => a > b
  | .i64LeS => i64Relation fun a b => a.sle b
  | .i64LeU => i64Relation fun a b => a ≤ b
  | .i64GeS => i64Relation fun a b => b.sle a
  | .i64GeU => i64Relation fun a b => a ≥ b
  | .i32Clz => i32Unary fun a => a.clz
  | .i32Ctz => i32Unary fun a => a.ctz
  | .i32Add => i32Binary fun a b => a + b
  | .i32Sub => i32Binary fun a b => a - b
  | .i32Mul => i32Binary fun a b => a * b
  | .i32DivS => i32Division divS
  | .i32DivU => i32Division divU
  | .i32RemS => i32Division remS
  | .i32RemU => i32Division remU
  | .i32And => i32Binary fun a b => a &&& b
  | .i32Or => i32Binary fun a b => a ||| b
  | .i32Xor => i32Binary fun a b => a ^^^ b
  | .i32Shl => i32Binary fun a b => a <<< (b &&& 31)
  | .i32ShrS => i32Binary fun a b => a.sshiftRight' (b &&& 31)
  | .i32ShrU => i32Binary fun a b => a >>> (b &&& 31)
  | .i32Rotl => i32Binary fun a b => a.rotateLeft (b &&& 31).toNat
  | .i32Rotr => i32Binary fun a b => a.rotateRight (b &&& 31).toNat
  | .i64Clz => .unary fun a => a.clz
  | .i64Ctz => .unary fun a => a.ctz
  | .i64Add => i64Binary fun a b => a + b
  | .i64Sub => i64Binary fun a b => a - b
  | .i64Mul => i64Binary fun a b => a * b
  | .i64DivS => .binary divS
  | .i64DivU => .binary divU
  | .i64RemS => .binary remS
  | .i64RemU => .binary remU
  | .i64And => i64Binary fun a b => a &&& b
  | .i64Or => i64Binary fun a b => a ||| b
  | .i64Xor => i64Binary fun a b => a ^^^ b
  | .i64Shl => i64Binary fun a b => a <<< (b &&& 63)
  | .i64ShrS => i64Binary fun a b => a.sshiftRight' (b &&& 63)
  | .i64ShrU => i64Binary fun a b => a >>> (b &&& 63)
  | .i64Rotl => i64Binary fun a b => a.rotateLeft (b &&& 63).toNat
  | .i64Rotr => i64Binary fun a b => a.rotateRight (b &&& 63).toNat
  | .i32WrapI64 => .unary fun a => (low a).setWidth 64
  | .i64ExtendI32S => .unary fun a => (low a).signExtend 64
  | .i64ExtendI32U => .unary fun a => (low a).setWidth 64

/-! ### Reading instructions -/

/-- An instruction with its immediates. -/
inductive Instr where
  | unreachable
  | nop
  | block (blockType : Byte)
  | loop (blockType : Byte)
  | ifOp (blockType : Byte)
  | elseOp
  | endOp
  | br (depth : BitVec 32)
  | brIf (depth : BitVec 32)
  | returnOp
  | call (target : BitVec 32)
  | drop
  | select
  | localGet (idx : BitVec 32)
  | localSet (idx : BitVec 32)
  | localTee (idx : BitVec 32)
  | load (op : Load) (align offset : BitVec 32)
  | store (op : Store) (align offset : BitVec 32)
  | memorySize (memIdx : Byte)
  | memoryGrow (memIdx : Byte)
  | i32Const (val : BitVec 32)
  | i64Const (val : BitVec 64)
  | numeric (op : Numeric)
  | unknown (opcode : Byte)
  deriving DecidableEq

abbrev Reader (α : Type) := Prog TrapKind Nat α

namespace Reader

variable (code : List Byte)

def readByte : Reader Byte := do
  let pc ← get
  match code[pc]? with
  | none => fail .unexpectedEnd
  | some b => do
    let next ← plus 64 pc 1
    set next
    pure b

/-- The loop of `read_u32_leb128` with `left` more bytes allowed. -/
def readU32From : (left : Nat) → (result : BitVec 32) → (shift : Nat) → Reader (BitVec 32)
  | 0, _, _ => fail .unexpectedEnd
  | left + 1, result, shift => do
    let byte ← readByte code
    let part ← shl ((byte &&& 0x7F).setWidth 32) shift
    let result := result ||| part
    if byte &&& 0x80 = 0 then pure result
    else
      let shift ← plus 32 shift 7
      readU32From left result shift

/-- The shift reaches 35 after five bytes. -/
def readU32Leb128 : Reader (BitVec 32) := readU32From code 5 0 0

/-- The loop of `read_i32_leb128` and of `read_i64_leb128`. -/
def readSignedFrom {w : Nat} : (left : Nat) → (result : BitVec w) → (shift : Nat) → Reader (BitVec w)
  | 0, _, _ => fail .unexpectedEnd
  | left + 1, result, shift => do
    let byte ← readByte code
    let part ← shl ((byte &&& 0x7F).setWidth w) shift
    let result := result ||| part
    let shift ← plus 32 shift 7
    if byte &&& 0x80 = 0 then
      if shift < w ∧ byte &&& 0x40 ≠ 0 then
        let sign ← shl (BitVec.allOnes w) shift
        pure (result ||| sign)
      else pure result
    else readSignedFrom left result shift

/-- The shift reaches 35 after five bytes. -/
def readI32Leb128 : Reader (BitVec 32) := readSignedFrom code 5 0 0

/-- The shift reaches 70 after ten bytes. -/
def readI64Leb128 : Reader (BitVec 64) := readSignedFrom code 10 0 0

/-- What `run` reads before it acts on an instruction. -/
def fetch : Reader Instr := do
  let opcode ← readByte code
  match Op.ofByte opcode with
  | .unreachable => pure .unreachable
  | .nop => pure .nop
  | .block => Instr.block <$> readByte code
  | .loop => Instr.loop <$> readByte code
  | .ifOp => Instr.ifOp <$> readByte code
  | .elseOp => pure .elseOp
  | .endOp => pure .endOp
  | .br => Instr.br <$> readU32Leb128 code
  | .brIf => Instr.brIf <$> readU32Leb128 code
  | .returnOp => pure .returnOp
  | .call => Instr.call <$> readU32Leb128 code
  | .drop => pure .drop
  | .select => pure .select
  | .localGet => Instr.localGet <$> readU32Leb128 code
  | .localSet => Instr.localSet <$> readU32Leb128 code
  | .localTee => Instr.localTee <$> readU32Leb128 code
  | .load op => do
    let align ← readU32Leb128 code
    let offset ← readU32Leb128 code
    pure (.load op align offset)
  | .store op => do
    let align ← readU32Leb128 code
    let offset ← readU32Leb128 code
    pure (.store op align offset)
  | .memorySize => Instr.memorySize <$> readByte code
  | .memoryGrow => Instr.memoryGrow <$> readByte code
  | .i32Const => Instr.i32Const <$> readI32Leb128 code
  | .i64Const => Instr.i64Const <$> readI64Leb128 code
  | .numeric op => pure (.numeric op)
  | .unknown opcode => pure (.unknown opcode)

/-- The arms of the scanners that skip the immediates of an instruction inside a block. -/
def skipImmediates : Op → Reader Unit
  | .br | .brIf | .call | .localGet | .localSet | .localTee => do
    let _ ← readU32Leb128 code
    pure ()
  | .i32Const => do
    let _ ← readI32Leb128 code
    pure ()
  | .i64Const => do
    let _ ← readI64Leb128 code
    pure ()
  | .load _ | .store _ => do
    let _ ← readU32Leb128 code
    let _ ← readU32Leb128 code
    pure ()
  | .memorySize | .memoryGrow => do
    let _ ← readByte code
    pure ()
  | _ => pure ()

/-- The loop of `skip_to_end`. Every round reads a byte, so it ends before `fuel` does when
`fuel` exceeds the bytes that are left. -/
def skipToEndFrom : (fuel depth : Nat) → Reader Unit
  | 0, _ => fault
  | fuel + 1, depth =>
    if 0 < depth then do
      let byte ← readByte code
      match Op.ofByte byte with
      | .block | .loop | .ifOp => do
        let _ ← readByte code
        let depth ← plus 32 depth 1
        skipToEndFrom fuel depth
      | .endOp => do
        let depth ← minus depth 1
        skipToEndFrom fuel depth
      | op => do
        skipImmediates code op
        skipToEndFrom fuel depth
    else pure ()

def skipToEnd : Reader Unit := skipToEndFrom code (code.length + 2) 1

/-- The loop of `skip_to_else_or_end`. -/
def skipToElseOrEndFrom : (fuel depth : Nat) → Reader Bool
  | 0, _ => fault
  | fuel + 1, depth =>
    if 0 < depth then do
      let byte ← readByte code
      match Op.ofByte byte with
      | .block | .loop | .ifOp => do
        let _ ← readByte code
        let depth ← plus 32 depth 1
        skipToElseOrEndFrom fuel depth
      | .endOp => do
        let depth ← minus depth 1
        if depth = 0 then pure false else skipToElseOrEndFrom fuel depth
      | .elseOp => if depth = 1 then pure true else skipToElseOrEndFrom fuel depth
      | op => do
        skipImmediates code op
        skipToElseOrEndFrom fuel depth
    else pure false

def skipToElseOrEnd : Reader Bool := skipToElseOrEndFrom code (code.length + 2) 1

/-- The loop over the groups of local declarations in `enter_function`. -/
def readGroups : (groups declaredLocals : Nat) → Reader Nat
  | 0, declaredLocals => pure declaredLocals
  | groups + 1, declaredLocals => do
    let count ← readU32Leb128 code
    let _ ← readByte code
    let declaredLocals ← plus 64 declaredLocals count.toNat
    readGroups groups declaredLocals

/-- The declarations in front of a function's code. -/
def readLocals : Reader Nat := do
  let numLocalGroups ← readU32Leb128 code
  readGroups code numLocalGroups.toNat 0

end Reader

end GooseOs.Wasm
