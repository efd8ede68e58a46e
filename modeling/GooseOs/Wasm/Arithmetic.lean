import GooseOs.Lib.Integer
import GooseOs.Wasm.Operations

/-!
Numeric instructions: those of the WebAssembly specification with their opcodes, and that the interpreter executes
them.
-/

namespace GooseOs.Wasm

open Integer (Undefined)

/-! ### The specification -/

namespace Standard

inductive Sign where
  | signed | unsigned
  deriving DecidableEq

inductive Relation where
  | eq | ne
  | lt (sign : Sign)
  | gt (sign : Sign)
  | le (sign : Sign)
  | ge (sign : Sign)
  deriving DecidableEq

inductive Operation where
  | add | sub | mul
  | div (sign : Sign)
  | rem (sign : Sign)
  | and | or | xor | shl
  | shr (sign : Sign)
  | rotl | rotr
  deriving DecidableEq

inductive Width where
  | i32 | i64
  deriving DecidableEq

inductive Unary where
  | eqz (width : Width)
  | clz (width : Width)
  | ctz (width : Width)
  | wrap
  | extend (sign : Sign)
  deriving DecidableEq

inductive Binary where
  | relation (width : Width) (op : Relation)
  | operation (width : Width) (op : Operation)
  deriving DecidableEq

def Width.bits : Width → Nat
  | .i32 => 32
  | .i64 => 64

def Sign.read (w : Nat) (i : Nat) : Sign → Int
  | .signed => Integer.signed w i
  | .unsigned => i

def Relation.holds (w i j : Nat) : Relation → Bool
  | .eq => i = j
  | .ne => i ≠ j
  | .lt sign => sign.read w i < sign.read w j
  | .gt sign => sign.read w i > sign.read w j
  | .le sign => sign.read w i ≤ sign.read w j
  | .ge sign => sign.read w i ≥ sign.read w j

def Operation.result (w i j : Nat) : Operation → Except Undefined Nat
  | .add => .ok (Integer.add w i j)
  | .sub => .ok (Integer.sub w i j)
  | .mul => .ok (Integer.mul w i j)
  | .div .signed => Integer.divS w i j
  | .div .unsigned => Integer.divU i j
  | .rem .signed => Integer.remS w i j
  | .rem .unsigned => Integer.remU i j
  | .and => .ok (Integer.bitwise w i j Bool.and)
  | .or => .ok (Integer.bitwise w i j Bool.or)
  | .xor => .ok (Integer.bitwise w i j Bool.xor)
  | .shl => .ok (Integer.shl w i j)
  | .shr .signed => .ok (Integer.shrS w i j)
  | .shr .unsigned => .ok (Integer.shrU w i j)
  | .rotl => .ok (Integer.rotl w i j)
  | .rotr => .ok (Integer.rotr w i j)

/-- The bits of an operand. -/
def Unary.width : Unary → Nat
  | .eqz w | .clz w | .ctz w => w.bits
  | .wrap => 64
  | .extend _ => 32

def Unary.resultWidth : Unary → Nat
  | .eqz _ | .wrap => 32
  | .clz w | .ctz w => w.bits
  | .extend _ => 64

def Unary.result (i : Nat) : Unary → Nat
  | .eqz _ => if i = 0 then 1 else 0
  | .clz w => Integer.clz w.bits i
  | .ctz w => Integer.ctz w.bits i
  | .wrap => i % 2 ^ 32
  | .extend .signed => Integer.unsigned 64 (Integer.signed 32 i)
  | .extend .unsigned => i

def Binary.width : Binary → Nat
  | .relation w _ | .operation w _ => w.bits

def Binary.resultWidth : Binary → Nat
  | .relation _ _ => 32
  | .operation w _ => w.bits

def Binary.result (i j : Nat) : Binary → Except Undefined Nat
  | .relation w op => .ok (if op.holds w.bits i j then 1 else 0)
  | .operation w op => op.result w.bits i j

/-- The place of an operation among those of its width. -/
def Relation.index : Relation → Nat
  | .eq => 0
  | .ne => 1
  | .lt .signed => 2
  | .lt .unsigned => 3
  | .gt .signed => 4
  | .gt .unsigned => 5
  | .le .signed => 6
  | .le .unsigned => 7
  | .ge .signed => 8
  | .ge .unsigned => 9

def Operation.index : Operation → Nat
  | .add => 0
  | .sub => 1
  | .mul => 2
  | .div .signed => 3
  | .div .unsigned => 4
  | .rem .signed => 5
  | .rem .unsigned => 6
  | .and => 7
  | .or => 8
  | .xor => 9
  | .shl => 10
  | .shr .signed => 11
  | .shr .unsigned => 12
  | .rotl => 13
  | .rotr => 14

def Unary.opcode : Unary → Byte
  | .eqz .i32 => 0x45
  | .eqz .i64 => 0x50
  | .clz .i32 => 0x67
  | .ctz .i32 => 0x68
  | .clz .i64 => 0x79
  | .ctz .i64 => 0x7A
  | .wrap => 0xA7
  | .extend .signed => 0xAC
  | .extend .unsigned => 0xAD

def Binary.opcode : Binary → Byte
  | .relation .i32 op => BitVec.ofNat 8 (0x46 + op.index)
  | .relation .i64 op => BitVec.ofNat 8 (0x51 + op.index)
  | .operation .i32 op => BitVec.ofNat 8 (0x6A + op.index)
  | .operation .i64 op => BitVec.ofNat 8 (0x7C + op.index)

end Standard

open Standard

/-! ### Operations on words -/

section Words
variable {w : Nat} {x y : BitVec w}

def trapOf : Undefined → TrapKind
  | .divisionByZero => .divisionByZero
  | .overflow => .integerOverflow

/-- A word, or the trap of an undefined result. -/
def Answers (spec : Except Undefined Nat) (code : Except (Stop TrapKind) (BitVec w)) : Prop :=
  match spec with
  | .ok v => ∃ z, code = .ok z ∧ z.toNat = v
  | .error reason => code = .error (.error (trapOf reason))

/-- The comparisons of `run`. -/
def wordRelation (x y : BitVec w) : Relation → Bool
  | .eq => x = y
  | .ne => x ≠ y
  | .lt .signed => x.slt y
  | .lt .unsigned => x < y
  | .gt .signed => y.slt x
  | .gt .unsigned => x > y
  | .le .signed => x.sle y
  | .le .unsigned => x ≤ y
  | .ge .signed => y.sle x
  | .ge .unsigned => x ≥ y

/-- The arithmetic of `run`, whose shifts mask their count. -/
def wordOperation (mask x y : BitVec w) : Operation → Except (Stop TrapKind) (BitVec w)
  | .add => .ok (x + y)
  | .sub => .ok (x - y)
  | .mul => .ok (x * y)
  | .div .signed => Meaning.divS x y
  | .div .unsigned => Meaning.divU x y
  | .rem .signed => Meaning.remS x y
  | .rem .unsigned => Meaning.remU x y
  | .and => .ok (x &&& y)
  | .or => .ok (x ||| y)
  | .xor => .ok (x ^^^ y)
  | .shl => .ok (x <<< (y &&& mask))
  | .shr .signed => .ok (x.sshiftRight' (y &&& mask))
  | .shr .unsigned => .ok (x >>> (y &&& mask))
  | .rotl => .ok (x.rotateLeft (y &&& mask).toNat)
  | .rotr => .ok (x.rotateRight (y &&& mask).toNat)

theorem holds_toNat (op : Relation) : op.holds w x.toNat y.toNat = wordRelation x y op := by
  rcases op with _ | _ | sign | sign | sign | sign
  case eq => simp [Relation.holds, wordRelation, BitVec.toNat_inj]
  case ne => simp [Relation.holds, wordRelation, BitVec.toNat_inj]
  all_goals cases sign
  case lt.signed | gt.signed =>
    simp [Relation.holds, wordRelation, Sign.read, Integer.signed_toNat, BitVec.slt_eq_decide]
  case le.signed | ge.signed =>
    simp [Relation.holds, wordRelation, Sign.read, Integer.signed_toNat, BitVec.sle_eq_decide]
  case lt.unsigned | gt.unsigned => simp [Relation.holds, wordRelation, Sign.read, BitVec.lt_def]
  case le.unsigned | ge.unsigned => simp [Relation.holds, wordRelation, Sign.read, BitVec.le_def]

theorem answers_ok {v : Nat} (same : v = x.toNat) : Answers (.ok v) (.ok x) := ⟨x, rfl, same.symm⟩

theorem answers_divS (wide : 1 < w) : Answers (Integer.divS w x.toNat y.toNat) (Meaning.divS x y) := by
  unfold Meaning.divS Meaning.wrappingDiv
  by_cases zero : y = 0
  · subst zero
    simp [Answers, Integer.divS, trapOf]
  · rw [Integer.divS_toNat zero wide, if_neg zero]
    split
    · rfl
    · exact answers_ok rfl

theorem answers_divU : Answers (Integer.divU x.toNat y.toNat) (Meaning.divU x y) := by
  unfold Meaning.divU
  by_cases zero : y = 0
  · subst zero
    simp [Answers, Integer.divU, trapOf]
  · rw [Integer.divU_toNat zero, if_neg zero, if_neg zero]
    exact answers_ok rfl

theorem answers_remS (wide : 1 < w) : Answers (Integer.remS w x.toNat y.toNat) (Meaning.remS x y) := by
  unfold Meaning.remS Meaning.rem
  by_cases zero : y = 0
  · subst zero
    simp [Answers, Integer.remS, trapOf]
  · rw [Integer.remS_toNat zero, if_neg zero]
    split
    · next overflow =>
      obtain ⟨least, minus⟩ := overflow
      subst least minus
      exact answers_ok (by rw [Integer.srem_overflow wide])
    · next fits =>
      rw [if_neg (not_or.mpr ⟨zero, fits⟩)]
      exact answers_ok rfl

theorem answers_remU : Answers (Integer.remU x.toNat y.toNat) (Meaning.remU x y) := by
  unfold Meaning.remU
  by_cases zero : y = 0
  · subst zero
    simp [Answers, Integer.remU, trapOf]
  · rw [Integer.remU_toNat zero, if_neg zero, if_neg zero]
    exact answers_ok rfl

theorem answers_operation {mask : BitVec w} (wide : 1 < w) (masks : ∀ z : BitVec w, (z &&& mask).toNat = z.toNat % w)
    (op : Operation) : Answers (op.result w x.toNat y.toNat) (wordOperation mask x y op) := by
  cases op with
  | add => exact answers_ok Integer.add_toNat
  | sub => exact answers_ok Integer.sub_toNat
  | mul => exact answers_ok Integer.mul_toNat
  | div sign =>
    cases sign with
    | signed => exact answers_divS wide
    | unsigned => exact answers_divU
  | rem sign =>
    cases sign with
    | signed => exact answers_remS wide
    | unsigned => exact answers_remU
  | and => exact answers_ok (Integer.bitwise_toNat fun _ => BitVec.getMsbD_and)
  | or => exact answers_ok (Integer.bitwise_toNat fun _ => BitVec.getMsbD_or)
  | xor => exact answers_ok (Integer.bitwise_toNat fun _ => BitVec.getMsbD_xor)
  | shl => exact answers_ok (Integer.shl_toNat (masks y))
  | shr sign =>
    cases sign with
    | signed => exact answers_ok (Integer.shrS_toNat (masks y))
    | unsigned => exact answers_ok (Integer.shrU_toNat (masks y))
  | rotl => exact answers_ok (by rw [masks, Integer.rotl_toNat])
  | rotr => exact answers_ok (by rw [masks, Integer.rotr_toNat])

end Words

/-! ### Instructions -/

section Step
variable {n : Nat} {σ : Type} {p : Program} {h : HostFunctions n σ} {s t : Machine n σ} {a b : Word} {op : Numeric}

theorem mask_i32 (z : BitVec 32) : (z &&& 31).toNat = z.toNat % 32 := @Integer.toNat_mask 32 5 z (by decide)

theorem mask_i64 (z : BitVec 64) : (z &&& 63).toNat = z.toNat % 64 := @Integer.toNat_mask 64 6 z (by decide)

/-- The arm of `run` for an instruction with two operands. -/
def Standard.Binary.arm : Binary → Word → Word → Except (Stop TrapKind) Word
  | .relation .i32 op => fun a b => .ok (Meaning.flag (wordRelation (Meaning.low a) (Meaning.low b) op))
  | .relation .i64 op => fun a b => .ok (Meaning.flag (wordRelation a b op))
  | .operation .i32 op => fun a b => BitVec.setWidth 64 <$> wordOperation 31 (Meaning.low a) (Meaning.low b) op
  | .operation .i64 op => fun a b => wordOperation 63 a b op

def Standard.Unary.arm : Unary → Word → Word
  | .eqz .i32 => fun a => Meaning.flag (Meaning.low a = 0)
  | .eqz .i64 => fun a => Meaning.flag (a = 0)
  | .clz .i32 => fun a => (Meaning.low a).clz.setWidth 64
  | .clz .i64 => fun a => a.clz
  | .ctz .i32 => fun a => (Meaning.low a).ctz.setWidth 64
  | .ctz .i64 => fun a => a.ctz
  | .wrap => fun a => (Meaning.low a).setWidth 64
  | .extend .signed => fun a => (Meaning.low a).signExtend 64
  | .extend .unsigned => fun a => (Meaning.low a).setWidth 64

theorem Standard.Binary.executed (i : Binary) : ∃ op, Op.ofByte i.opcode = .numeric op ∧ op.meaning = .binary i.arm := by
  cases i with
  | relation width op =>
    cases width <;> cases op <;> first | exact ⟨_, rfl, rfl⟩ | (next sign => cases sign <;> exact ⟨_, rfl, rfl⟩)
  | operation width op =>
    cases width <;> cases op <;> first | exact ⟨_, rfl, rfl⟩ | (next sign => cases sign <;> exact ⟨_, rfl, rfl⟩)

theorem Standard.Unary.executed (i : Unary) : ∃ op, Op.ofByte i.opcode = .numeric op ∧ op.meaning = .unary i.arm := by
  cases i with
  | wrap => exact ⟨_, rfl, rfl⟩
  | eqz width | clz width | ctz width => cases width <;> exact ⟨_, rfl, rfl⟩
  | extend sign => cases sign <;> exact ⟨_, rfl, rfl⟩

def isNumeric : Op → Bool
  | .numeric _ => true
  | _ => false

def bothSigns : List Sign := [.signed, .unsigned]

def bothWidths : List Width := [.i32, .i64]

def relations : List Relation := [.eq, .ne] ++ bothSigns.flatMap fun sign => [.lt sign, .gt sign, .le sign, .ge sign]

def operations : List Operation :=
  [.add, .sub, .mul, .and, .or, .xor, .shl, .rotl, .rotr] ++ bothSigns.flatMap fun sign => [.div sign, .rem sign, .shr sign]

def unaries : List Unary :=
  .wrap :: bothSigns.map .extend ++ bothWidths.flatMap fun width => [.eqz width, .clz width, .ctz width]

def binaries : List Binary :=
  bothWidths.flatMap fun width => relations.map (.relation width) ++ operations.map (.operation width)

/-- The numeric opcodes of `run` are opcodes of the specification. -/
theorem numeric_specified {opcode : Byte} (numeric : Op.ofByte opcode = .numeric op) :
    (∃ i : Unary, i.opcode = opcode) ∨ ∃ i : Binary, i.opcode = opcode := by
  have all : ∀ opcode : Byte, isNumeric (Op.ofByte opcode) →
      opcode ∈ unaries.map Unary.opcode ∨ opcode ∈ binaries.map Binary.opcode := by decide +kernel
  obtain one | two := all opcode (by rw [numeric]; rfl)
  · obtain ⟨i, _, same⟩ := List.mem_map.mp one
    exact .inl ⟨i, same⟩
  · obtain ⟨i, _, same⟩ := List.mem_map.mp two
    exact .inr ⟨i, same⟩

theorem toNat_flag {c : Bool} : (Meaning.flag c).toNat = if c then 1 else 0 := by
  cases c <;> rfl

theorem toNat_low : (Meaning.low a).toNat = a.toNat % 2 ^ 32 := BitVec.toNat_setWidth 32 a

theorem answers_extend {spec : Except Undefined Nat} {code : Except (Stop TrapKind) (BitVec 32)}
    (answers : Answers spec code) :
    Answers spec (BitVec.setWidth 64 <$> code) := by
  cases spec with
  | ok v =>
    obtain ⟨z, done, same⟩ := answers
    subst done
    refine ⟨z.setWidth 64, rfl, ?_⟩
    rw [BitVec.toNat_setWidth_of_le (by decide), same]
  | error reason =>
    have stopped : code = .error (.error (trapOf reason)) := answers
    subst stopped
    rfl

theorem Standard.Binary.answers (i : Binary) (a b : Word) :
    Answers (i.result (a.toNat % 2 ^ i.width) (b.toNat % 2 ^ i.width)) (i.arm a b) := by
  have whole : ∀ c : Word, c.toNat % 2 ^ 64 = c.toNat := fun c => Nat.mod_eq_of_lt c.isLt
  cases i with
  | relation width op =>
    cases width with
    | i32 =>
      refine ⟨_, rfl, ?_⟩
      rw [toNat_flag, ← holds_toNat, toNat_low, toNat_low]
      rfl
    | i64 =>
      refine ⟨_, rfl, ?_⟩
      simp only [Binary.width, Width.bits, whole]
      rw [toNat_flag, holds_toNat]
  | operation width op =>
    cases width with
    | i32 =>
      have answers := @answers_operation 32 (Meaning.low a) (Meaning.low b) 31 (by decide) mask_i32 op
      rw [toNat_low, toNat_low] at answers
      exact answers_extend answers
    | i64 =>
      simp only [Binary.width, Width.bits, whole]
      exact @answers_operation 64 a b 63 (by decide) mask_i64 op

theorem Standard.Unary.answers (i : Unary) (a : Word) : (i.arm a).toNat = i.result (a.toNat % 2 ^ i.width) := by
  have whole : a.toNat % 2 ^ 64 = a.toNat := Nat.mod_eq_of_lt a.isLt
  cases i with
  | eqz width =>
    cases width with
    | i32 =>
      rw [Unary.arm, toNat_flag, Unary.width, Width.bits, ← toNat_low]
      simp only [Unary.result, Integer.toNat_eq_zero, decide_eq_true_eq]
    | i64 =>
      rw [Unary.arm, toNat_flag, Unary.width, Width.bits, whole]
      simp only [Unary.result, Integer.toNat_eq_zero, decide_eq_true_eq]
  | clz width =>
    cases width with
    | i32 =>
      rw [Unary.result, Unary.width, Width.bits, ← toNat_low, Integer.clz_toNat]
      exact BitVec.toNat_setWidth_of_le (by decide)
    | i64 =>
      rw [Unary.result, Unary.width, Width.bits, whole, Integer.clz_toNat]
      rfl
  | ctz width =>
    cases width with
    | i32 =>
      rw [Unary.result, Unary.width, Width.bits, ← toNat_low, Integer.ctz_toNat]
      exact BitVec.toNat_setWidth_of_le (by decide)
    | i64 =>
      rw [Unary.result, Unary.width, Width.bits, whole, Integer.ctz_toNat]
      rfl
  | wrap =>
    rw [Unary.result, Unary.width, whole, ← toNat_low]
    exact BitVec.toNat_setWidth_of_le (by decide)
  | extend sign =>
    rw [Unary.width, ← toNat_low]
    cases sign with
    | signed =>
      rw [Unary.result, Integer.signed_toNat, ← BitVec.toInt_signExtend_of_le (show 32 ≤ 64 by decide), Integer.unsigned_toInt]
      rfl
    | unsigned => exact BitVec.toNat_setWidth_of_le (by decide)

theorem Standard.Unary.result_lt (i : Unary) (a : Word) : (i.arm a).toNat < 2 ^ i.resultWidth := by
  have narrow : ∀ z : BitVec 32, (z.setWidth 64).toNat < 2 ^ 32 := fun z => by
    rw [BitVec.toNat_setWidth_of_le (by decide)]
    exact z.isLt
  cases i with
  | eqz width =>
    have small : ∀ c, (Meaning.flag c).toNat < 2 ^ 32 := by
      intro c
      cases c <;> decide
    cases width <;> exact small _
  | clz width | ctz width =>
    cases width with
    | i32 => exact narrow _
    | i64 => exact BitVec.isLt _
  | wrap => exact narrow _
  | extend sign => exact BitVec.isLt _

theorem Answers.lt {w v : Nat} {code : Except (Stop TrapKind) (BitVec w)}
    (answers : Answers (.ok v) code) : v < 2 ^ w := by
  obtain ⟨z, _, same⟩ := answers
  exact same ▸ z.isLt

theorem Standard.Binary.result_lt (i : Binary) (a b : Word) {v : Nat}
    (defined : i.result (a.toNat % 2 ^ i.width) (b.toNat % 2 ^ i.width) = .ok v) : v < 2 ^ i.resultWidth := by
  cases i with
  | relation width op =>
    cases defined
    show (if _ then 1 else 0) < 2 ^ 32
    split <;> decide
  | operation width op =>
    cases width with
    | i32 =>
      have answers := @answers_operation 32 (Meaning.low a) (Meaning.low b) 31 (by decide) mask_i32 op
      rw [toNat_low, toNat_low, show op.result 32 (a.toNat % 2 ^ 32) (b.toNat % 2 ^ 32) = .ok v from defined] at answers
      exact answers.lt
    | i64 =>
      have answers := Binary.answers (.operation .i64 op) a b
      rw [defined] at answers
      exact answers.lt

/-! ### Steps -/

theorem fetch_numeric {opcode : Byte} (slice : p.code.length < 2 ^ 63) {pc : Nat} (here : p.code[pc]? = some opcode)
    (numeric : Op.ofByte opcode = .numeric op) : Reader.fetch p.code pc = .ok (.numeric op) (pc + 1) := by
  obtain ⟨inside, _⟩ := List.getElem?_eq_some_iff.mp here
  have read : Reader.readByte p.code pc = .ok opcode (pc + 1) := by
    rw [Reader.readByte, bind_run (get_eq_ok.mpr ⟨rfl, rfl⟩), here]
    exact bind_run (plus_eq_ok.mpr ⟨by omega, rfl, rfl⟩)
  rw [Reader.fetch, bind_run read, numeric]
  rfl

theorem step_numeric {opcode : Byte} (slice : p.code.length < 2 ^ 63) (here : p.code[s.pc]? = some opcode)
    (numeric : Op.ofByte opcode = .numeric op) :
    step p h s = (do execNumeric op; pure .next : Exec n σ Outcome) { s with pc := s.pc + 1 } := by
  exact step_fetched (fetch_numeric slice here numeric)

theorem execNumeric_unary {f : Word → Word} (meaning : op.meaning = .unary f) (top : s.operand 0 = some a) :
    ∃ t, execNumeric op s = .ok () t ∧ Lays (s.sp - 1) (some (f a)) s t := by
  obtain ⟨_, inside⟩ := Interpreter.operand_inside top
  refine ⟨_, ?_, inside, rfl⟩
  rw [execNumeric, meaning]
  exact (bind_run (pop_ok.mpr ⟨top, rfl⟩)).trans (push_ok.mpr ⟨inside, rfl⟩)

theorem execNumeric_binary {f : Word → Word → Except (Stop TrapKind) Word} (meaning : op.meaning = .binary f)
    (top : s.operand 0 = some b) (next : s.operand 1 = some a) : execNumeric op s =
      (match f a b with | .ok val => push val | .error stop => throw stop : Exec n σ Unit) { s with sp := s.sp - 2 } := by
  rw [execNumeric, meaning]
  exact (bind_run (pop_ok.mpr ⟨top, rfl⟩)).trans (bind_run (pop_ok.mpr ⟨Interpreter.operand_pop.trans next, rfl⟩))

/-- The numeric opcodes are those of the specification; each replaces its operands, read at its own width, by the
specified number, or traps where the specification has none. -/
theorem numeric_step (slice : p.code.length < 2 ^ 63) :
    (∀ opcode op, Op.ofByte opcode = .numeric op → (∃ i : Unary, i.opcode = opcode) ∨ ∃ i : Binary, i.opcode = opcode) ∧
    (∀ (s : Machine n σ) (i : Unary) a, p.code[s.pc]? = some i.opcode → s.operand 0 = some a →
      ∃ t val, step p h s = .ok .next t ∧ Lays (s.sp - 1) (some val) { s with pc := s.pc + 1 } t ∧
        val.toNat = i.result (a.toNat % 2 ^ i.width) ∧ val.toNat < 2 ^ i.resultWidth) ∧
    ∀ (s : Machine n σ) (i : Binary) a b, p.code[s.pc]? = some i.opcode → s.operand 0 = some b → s.operand 1 = some a →
      match i.result (a.toNat % 2 ^ i.width) (b.toNat % 2 ^ i.width) with
      | .ok v => ∃ t val, step p h s = .ok .next t ∧ Lays (s.sp - 2) (some val) { s with pc := s.pc + 1 } t ∧
          val.toNat = v ∧ v < 2 ^ i.resultWidth
      | .error reason =>
          step p h s = .error (.error (trapOf reason)) { s with pc := s.pc + 1, sp := s.sp - 2 } := by
  refine ⟨fun _ _ => numeric_specified, fun s i a here top => ?_, fun s i a b here top next => ?_⟩
  · obtain ⟨op, numeric, meaning⟩ := i.executed
    obtain ⟨t, done, lays⟩ := @execNumeric_unary n σ { s with pc := s.pc + 1 } a op _ meaning top
    refine ⟨t, i.arm a, ?_, lays, i.answers a, i.result_lt a⟩
    rw [step_numeric slice here numeric]
    exact bind_run done
  · obtain ⟨op, numeric, meaning⟩ := i.executed
    have answers := i.answers a b
    have stepped := @step_numeric n σ p h s op _ slice here numeric
    have popped := @execNumeric_binary n σ { s with pc := s.pc + 1 } a b op _ meaning top next
    obtain ⟨deep, _⟩ := Interpreter.operand_inside next
    obtain ⟨_, inside⟩ := Interpreter.operand_inside top
    split
    · next v defined =>
      rw [defined] at answers
      obtain ⟨val, done, same⟩ := answers
      rw [done] at popped
      have room : s.sp - 2 < maxStack := by omega
      refine ⟨_, val, ?_, ⟨room, rfl⟩, same, i.result_lt a b defined⟩
      rw [stepped]
      exact bind_run (popped.trans ((@push_ok n σ { s with pc := s.pc + 1, sp := s.sp - 2 } _ val ()).mpr ⟨room, rfl⟩))
    · next reason undefined =>
      rw [undefined] at answers
      have stopped : i.arm a b = .error (.error (trapOf reason)) := answers
      rw [stopped] at popped
      rw [stepped]
      exact bind_stop popped

end Step

/-- `i32.div_s` of the least number by `-1`. -/
def leastByMinusOne : Machine 0 Unit :=
  { stack := .ofList 0 [0x80000000, 0xFFFFFFFF], sp := 2, memory := fun _ => 0, host := () }

theorem numeric_step_overflow :
    step { module := {}, code := [0x6D], numImports := 0 } (noHost 0) leastByMinusOne =
      .error (.error .integerOverflow) { leastByMinusOne with pc := 1, sp := 0 } :=
  (numeric_step (p := { module := {}, code := [0x6D], numImports := 0 }) (h := noHost 0) (by decide)).2.2 leastByMinusOne
    (.operation .i32 (.div .signed)) 0x80000000 0xFFFFFFFF rfl rfl rfl

end GooseOs.Wasm
