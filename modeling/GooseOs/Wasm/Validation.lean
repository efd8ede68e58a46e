import GooseOs.Wasm.Entry
import Mathlib.Logic.Relation

/-!
Validation of function bodies over the opcodes of the interpreter: one pass over the bytes with a stack of
open constructs and the operand types each has pushed, as the WebAssembly validation algorithm does it. A block
has no parameters and at most one result.
-/

namespace GooseOs.Wasm

/-! ### Types -/

def FuncType.paramTypes (t : FuncType) : List Byte := (List.ofFn t.params).take t.paramCount

def FuncType.resultTypes (t : FuncType) : List Byte := (List.ofFn t.results).take t.resultCount

/-- The result types of a block type. -/
def blockTypes (blockType : Byte) : Option (List Byte) :=
  if blockType = 0x40 then some []
  else if isValidValtype blockType then some [blockType]
  else none

def Numeric.operandType : Numeric → Byte
  | .i64Eqz | .i64Eq | .i64Ne | .i64LtS | .i64LtU | .i64GtS | .i64GtU | .i64LeS | .i64LeU | .i64GeS | .i64GeU
  | .i64Clz | .i64Ctz | .i64Add | .i64Sub | .i64Mul | .i64DivS | .i64DivU | .i64RemS | .i64RemU | .i64And | .i64Or
  | .i64Xor | .i64Shl | .i64ShrS | .i64ShrU | .i64Rotl | .i64Rotr | .i32WrapI64 => valI64
  | _ => valI32

def Numeric.resultType : Numeric → Byte
  | .i64Clz | .i64Ctz | .i64Add | .i64Sub | .i64Mul | .i64DivS | .i64DivU | .i64RemS | .i64RemU | .i64And | .i64Or
  | .i64Xor | .i64Shl | .i64ShrS | .i64ShrU | .i64Rotl | .i64Rotr | .i64ExtendI32S | .i64ExtendI32U => valI64
  | _ => valI32

def Load.type : Load → Byte
  | .i64Load => valI64
  | _ => valI32

def Store.type : Store → Byte
  | .i64Store => valI64
  | _ => valI32

/-! ### Open constructs -/

inductive Construct where
  | function | block | loop | ifThen | elseOp
  deriving DecidableEq

/-- An open construct with its result types and the operands pushed in it, the topmost first. Below an operand
list that has become unreachable there are operands of any type; `none` is such a type. -/
structure Ctrl where
  kind : Construct
  results : List Byte
  operands : List (Option Byte) := []
  unreachable : Bool := false
  deriving DecidableEq

namespace Ctrl

/-- What a branch to the construct's label takes. -/
def labelTypes (c : Ctrl) : List Byte := if c.kind = .loop then [] else c.results

def push (c : Ctrl) (type : Option Byte) : Ctrl := { c with operands := type :: c.operands }

def pushAll (c : Ctrl) (types : List Byte) : Ctrl := { c with operands := types.reverse.map some ++ c.operands }

def popAny (c : Ctrl) : Option (Option Byte × Ctrl) :=
  match c.operands with
  | [] => if c.unreachable then some (none, c) else none
  | top :: rest => some (top, { c with operands := rest })

def pop (c : Ctrl) (type : Byte) : Option Ctrl := do
  let (top, c) ← c.popAny
  if top = none ∨ top = some type then some c else none

/-- Pop operands of these types, the topmost first. -/
def popEach (c : Ctrl) : List Byte → Option Ctrl
  | [] => some c
  | type :: rest => do
    let c ← c.pop type
    c.popEach rest

/-- Pop operands of these types, the topmost last. -/
def popAll (c : Ctrl) (types : List Byte) : Option Ctrl := c.popEach types.reverse

def dead (c : Ctrl) : Ctrl := { c with operands := [], unreachable := true }

/-- The operands are the results. -/
def closed (c : Ctrl) : Bool :=
  match c.popAll c.results with
  | some c => c.operands.isEmpty
  | none => false

end Ctrl

/-- What a body is validated against. -/
structure Context where
  results : List Byte
  locals : List Byte
  signature : BitVec 32 → Option FuncType

/-- The open constructs after one with these results has ended. -/
def resume (results : List Byte) : List Ctrl → List Ctrl
  | [] => []
  | c :: rest => c.pushAll results :: rest

/-- An instruction that neither opens nor closes a construct, in the innermost construct. -/
def checkFlat (x : Context) (blocks : List Ctrl) (c : Ctrl) : Instr → Option Ctrl
  | .unreachable => some c.dead
  | .nop => some c
  | .br depth => do
    let target ← blocks[depth.toNat]?
    let c ← c.popAll target.labelTypes
    some c.dead
  | .brIf depth => do
    let c ← c.pop valI32
    let target ← blocks[depth.toNat]?
    let c ← c.popAll target.labelTypes
    some (c.pushAll target.labelTypes)
  | .returnOp => do
    let c ← c.popAll x.results
    some c.dead
  | .call target => do
    let type ← x.signature target
    let c ← c.popAll type.paramTypes
    some (c.pushAll type.resultTypes)
  | .drop => do
    let (_, c) ← c.popAny
    some c
  | .select => do
    let c ← c.pop valI32
    let (second, c) ← c.popAny
    let (first, c) ← c.popAny
    if first = none ∨ second = none ∨ first = second then some (c.push (if first = none then second else first)) else none
  | .localGet idx => do
    let type ← x.locals[idx.toNat]?
    some (c.push (some type))
  | .localSet idx => do
    let type ← x.locals[idx.toNat]?
    c.pop type
  | .localTee idx => do
    let type ← x.locals[idx.toNat]?
    let c ← c.pop type
    some (c.push (some type))
  | .load op _ _ => do
    let c ← c.pop valI32
    some (c.push (some op.type))
  | .store op _ _ => do
    let c ← c.pop op.type
    c.pop valI32
  | .memorySize _ => some (c.push (some valI32))
  | .memoryGrow _ => do
    let c ← c.pop valI32
    some (c.push (some valI32))
  | .i32Const _ => some (c.push (some valI32))
  | .i64Const _ => some (c.push (some valI64))
  | .numeric op => do
    let c ← c.pop op.operandType
    match op.meaning with
    | .unary _ => some (c.push (some op.resultType))
    | .binary _ => do
      let c ← c.pop op.operandType
      some (c.push (some op.resultType))
  | .block _ | .loop _ | .ifOp _ | .elseOp | .endOp | .unknown _ => none

/-- One instruction of the pass, on the open constructs with the innermost first. -/
def check (x : Context) (instr : Instr) : List Ctrl → Option (List Ctrl)
  | [] => none
  | c :: rest =>
    match instr with
    | .block blockType => do
      let results ← blockTypes blockType
      some ({ kind := .block, results } :: c :: rest)
    | .loop blockType => do
      let results ← blockTypes blockType
      some ({ kind := .loop, results } :: c :: rest)
    | .ifOp blockType => do
      let c ← c.pop valI32
      let results ← blockTypes blockType
      some ({ kind := .ifThen, results } :: c :: rest)
    | .elseOp => if c.kind = .ifThen ∧ c.closed then some ({ kind := .elseOp, results := c.results } :: rest) else none
    | .endOp => if c.closed ∧ (c.kind = .ifThen → c.results = []) then some (resume c.results rest) else none
    | instr => do
      let c ← checkFlat x (c :: rest) c instr
      some (c :: rest)

/-! ### The pass over a body -/

namespace Reader
variable (code : List Byte)

/-- The types of the declared locals, group by group. -/
def groupTypes : (groups : Nat) → Reader (List Byte)
  | 0 => pure []
  | groups + 1 => do
    let count ← readU32Leb128 code
    let type ← readByte code
    let rest ← groupTypes groups
    pure (List.replicate count.toNat type ++ rest)

def localTypes : Reader (List Byte) := do
  let numLocalGroups ← readU32Leb128 code
  groupTypes code numLocalGroups.toNat

end Reader

/-- A place in the pass: the position and the constructs open there. -/
abbrev Place := Nat × List Ctrl

/-- The pass over one instruction. -/
def advance (code : List Byte) (x : Context) (place : Place) : Option Place :=
  match Reader.fetch code place.1 with
  | .ok instr pc => (check x instr place.2).map fun blocks => (pc, blocks)
  | .error _ _ => none

/-- A function body: what it is validated against, where its instructions start and where it ends. -/
structure Listing where
  context : Context
  start : Nat
  stop : Nat

namespace Listing

def entry (l : Listing) : Place := (l.start, [{ kind := .function, results := l.context.results }])

/-- The pass reaches `pc` with these constructs open. -/
def At (l : Listing) (code : List Byte) (pc : Nat) (blocks : List Ctrl) : Prop :=
  Relation.ReflTransGen (fun a b => advance code l.context a = some b) l.entry (pc, blocks)

/-- The pass closes the body at its end. -/
def Valid (l : Listing) (code : List Byte) : Prop := l.At code l.stop []

/-- The pass with at most `fuel` instructions. -/
def validFrom (l : Listing) (code : List Byte) : (fuel : Nat) → Place → Bool
  | 0, place => place = (l.stop, [])
  | fuel + 1, place =>
    match advance code l.context place with
    | some next => l.validFrom code fuel next
    | none => place = (l.stop, [])

end Listing

/-- What a local function's body is validated as. -/
def Program.listing (p : Program) (funcIdx : BitVec 32) : Option Listing := do
  let type ← p.signature funcIdx
  let body ← p.body funcIdx
  match Reader.localTypes p.code body.offset with
  | .ok declared start => some {
      context := { results := type.resultTypes, locals := type.paramTypes ++ declared, signature := p.signature }
      start
      stop := body.offset + body.length }
  | .error _ _ => none

/-- The function's body is valid. -/
def Program.ValidBody (p : Program) (funcIdx : BitVec 32) : Prop := ∃ l ∈ p.listing funcIdx, l.Valid p.code

/-! ### What the check does to the constructs -/

namespace Ctrl

/-- The same construct, with other operands. -/
def Same (c d : Ctrl) : Prop := d.kind = c.kind ∧ d.results = c.results

theorem Same.refl (c : Ctrl) : c.Same c := ⟨rfl, rfl⟩

theorem Same.trans {c d e : Ctrl} (first : c.Same d) (second : d.Same e) : c.Same e :=
  ⟨second.1.trans first.1, second.2.trans first.2⟩

/-- The result, if there is one, is the same construct. -/
def Stays (c : Ctrl) (x : Option Ctrl) : Prop := ∀ d, x = some d → c.Same d

variable {c : Ctrl} {α : Type}

theorem Stays.some (d : Ctrl) (same : c.Same d) : c.Stays (some d) := by
  rintro _ ⟨⟩
  exact same

theorem Stays.none : c.Stays none := nofun

theorem Stays.ite {p : Prop} [Decidable p] {x y : Option Ctrl} (yes : c.Stays x) (no : c.Stays y) :
    c.Stays (if p then x else y) := by
  split
  · exact yes
  · exact no

theorem Stays.bind {x : Option Ctrl} {f : Ctrl → Option Ctrl} (first : c.Stays x) (next : ∀ d : Ctrl, d.Stays (f d)) :
    c.Stays (x >>= f) := by
  intro e found
  obtain ⟨d, got, rest⟩ := Option.bind_eq_some_iff.mp found
  exact (first d got).trans (next d e rest)

theorem Stays.after {x : Option α} {f : α → Option Ctrl} (next : ∀ a, c.Stays (f a)) : c.Stays (x >>= f) := by
  intro d found
  obtain ⟨a, -, rest⟩ := Option.bind_eq_some_iff.mp found
  exact next a d rest

theorem same_popAny {top : Option Byte} {d : Ctrl} (popped : c.popAny = .some (top, d)) : c.Same d := by
  unfold popAny at popped
  split at popped
  · split at popped
    · cases popped
      exact Same.refl _
    · cases popped
  · cases popped
    exact ⟨rfl, rfl⟩

theorem Stays.popAny {f : Option Byte × Ctrl → Option Ctrl}
    (next : ∀ found : Option Byte × Ctrl, found.2.Stays (f found)) :
    c.Stays (c.popAny >>= f) := by
  intro e found
  obtain ⟨⟨top, d⟩, popped, rest⟩ := Option.bind_eq_some_iff.mp found
  exact (same_popAny popped).trans (next _ e rest)

theorem stays_pop (type : Byte) : c.Stays (c.pop type) :=
  Stays.popAny fun _ => Stays.ite (.some _ (.refl _)) .none

theorem stays_popEach (types : List Byte) : c.Stays (c.popEach types) := by
  induction types generalizing c with
  | nil => exact .some c (.refl c)
  | cons type rest ih => exact (stays_pop type).bind fun _ => ih

theorem stays_popAll (types : List Byte) : c.Stays (c.popAll types) := stays_popEach _

theorem stays_push (type : Option Byte) : c.Stays (.some (c.push type)) := .some _ ⟨rfl, rfl⟩

theorem stays_pushAll (types : List Byte) : c.Stays (.some (c.pushAll types)) := .some _ ⟨rfl, rfl⟩

theorem stays_dead : c.Stays (.some c.dead) := .some _ ⟨rfl, rfl⟩

theorem stays_checkFlat (x : Context) (blocks : List Ctrl) (c : Ctrl) (instr : Instr) :
    c.Stays (checkFlat x blocks c instr) := by
  cases instr with
  | unreachable => exact stays_dead
  | nop => exact .some c (.refl c)
  | br => exact .after fun _ => (stays_popAll _).bind fun _ => stays_dead
  | brIf => exact (stays_pop _).bind fun _ => .after fun _ => (stays_popAll _).bind fun _ => stays_pushAll _
  | returnOp => exact (stays_popAll _).bind fun _ => stays_dead
  | call => exact .after fun _ => (stays_popAll _).bind fun _ => stays_pushAll _
  | drop => exact .popAny fun a => .some a.2 (.refl _)
  | select => exact (stays_pop _).bind fun _ => .popAny fun _ => .popAny fun _ => (stays_push _).ite .none
  | localGet => exact .after fun _ => stays_push _
  | localSet => exact .after fun _ => stays_pop _
  | localTee => exact .after fun _ => (stays_pop _).bind fun _ => stays_push _
  | load => exact (stays_pop _).bind fun _ => stays_push _
  | store => exact (stays_pop _).bind fun _ => stays_pop _
  | memorySize | i32Const | i64Const => exact stays_push _
  | memoryGrow => exact (stays_pop _).bind fun _ => stays_push _
  | numeric op =>
    apply Stays.bind (stays_pop _)
    intro d
    split
    · exact stays_push _
    · exact (stays_pop _).bind fun _ => stays_push _
  | block | loop | ifOp | elseOp | endOp | unknown => exact .none

end Ctrl

/-- The instructions that neither open nor close a construct. -/
def Instr.isFlat : Instr → Bool
  | .block _ | .loop _ | .ifOp _ | .elseOp | .endOp => false
  | _ => true

theorem check_flat {x : Context} {instr : Instr} {c : Ctrl} {rest : List Ctrl} (flat : instr.isFlat) :
    check x instr (c :: rest) = (checkFlat x (c :: rest) c instr).bind fun d => some (d :: rest) := by
  cases instr <;> first | rfl | cases flat

/-- Checking a flat instruction changes the innermost construct's operands only. -/
theorem check_flat_some {x : Context} {instr : Instr} {c : Ctrl} {rest blocks : List Ctrl} (flat : instr.isFlat)
    (checked : check x instr (c :: rest) = some blocks) :
    ∃ d, checkFlat x (c :: rest) c instr = some d ∧ c.Same d ∧ blocks = d :: rest := by
  rw [check_flat flat] at checked
  obtain ⟨d, found, same⟩ := Option.bind_eq_some_iff.mp checked
  cases same
  exact ⟨d, found, Ctrl.stays_checkFlat x _ c instr d found, rfl⟩

/-! ### Positions -/

namespace Reader
variable {code : List Byte} {pc next : Nat} {instr : Instr}

theorem moves_readByte : Moves (· ≤ ·) (readByte code) := by
  intro pc
  rw [readByte, wp_bind, wp_get]
  cases code[pc]? with
  | none => exact Nat.le_refl pc
  | some b =>
    rw [wp_bind, wp_plus]
    split
    · exact Nat.le_succ pc
    · exact Nat.le_refl pc

theorem readByte_next {byte : Byte} (read : readByte code pc = .ok byte next) : next = pc + 1 := by
  obtain ⟨here, there, got, rest⟩ := bind_eq_ok.mp read
  obtain ⟨same, same'⟩ := get_eq_ok.mp got
  rw [same, same'] at rest
  cases found : code[pc]? with
  | none =>
    rw [found] at rest
    cases rest
  | some b =>
    rw [found] at rest
    obtain ⟨_, _, sum, rest⟩ := bind_eq_ok.mp rest
    obtain ⟨-, rfl, rfl⟩ := plus_eq_ok.mp sum
    cases rest
    rfl

theorem moves_readU32From (left : Nat) (result : BitVec 32) (shift : Nat) :
    Moves (· ≤ ·) (readU32From code left result shift) := by
  induction left generalizing result shift with
  | zero => exact Moves.fail _
  | succ left ih =>
    exact moves_readByte.bind fun _ => Moves.shl.bind fun _ => (Moves.pure _).ite (Moves.plus.bind fun _ => ih _ _)

theorem moves_readU32Leb128 : Moves (· ≤ ·) (readU32Leb128 code) := moves_readU32From 5 0 0

theorem moves_readSignedFrom {w : Nat} (left : Nat) (result : BitVec w) (shift : Nat) :
    Moves (· ≤ ·) (readSignedFrom code left result shift) := by
  induction left generalizing result shift with
  | zero => exact Moves.fail _
  | succ left ih =>
    apply moves_readByte.bind
    intro _
    apply Moves.shl.bind
    intro _
    apply Moves.plus.bind
    intro _
    exact Moves.ite ((Moves.shl.bind fun _ => Moves.pure _).ite (Moves.pure _)) (ih _ _)

/-- What follows the opcode of an instruction. -/
def immediates (code : List Byte) : Op → Reader Unit
  | .block | .loop | .ifOp => do
    let _ ← readByte code
    pure ()
  | op => skipImmediates code op

theorem moves_immediates (op : Op) : Moves (· ≤ ·) (immediates code op) := by
  have one : Moves (· ≤ ·) (do let _ ← readByte code; pure () : Reader Unit) := moves_readByte.bind fun _ => Moves.pure ()
  have word : Moves (· ≤ ·) (do let _ ← readU32Leb128 code; pure () : Reader Unit) :=
    moves_readU32Leb128.bind fun _ => Moves.pure ()
  have words : Moves (· ≤ ·) (do let _ ← readU32Leb128 code; let _ ← readU32Leb128 code; pure () : Reader Unit) :=
    moves_readU32Leb128.bind fun _ => moves_readU32Leb128.bind fun _ => Moves.pure ()
  cases op with
  | block | loop | ifOp | memorySize | memoryGrow => exact one
  | br | brIf | call | localGet | localSet | localTee => exact word
  | load | store => exact words
  | i32Const => exact (moves_readSignedFrom 5 0 0).bind fun _ => Moves.pure ()
  | i64Const => exact (moves_readSignedFrom 10 0 0).bind fun _ => Moves.pure ()
  | _ => exact Moves.pure ()

end Reader

/-- The opcode of an instruction. -/
def Instr.op : Instr → Op
  | .unreachable => .unreachable
  | .nop => .nop
  | .block _ => .block
  | .loop _ => .loop
  | .ifOp _ => .ifOp
  | .elseOp => .elseOp
  | .endOp => .endOp
  | .br _ => .br
  | .brIf _ => .brIf
  | .returnOp => .returnOp
  | .call _ => .call
  | .drop => .drop
  | .select => .select
  | .localGet _ => .localGet
  | .localSet _ => .localSet
  | .localTee _ => .localTee
  | .load op _ _ => .load op
  | .store op _ _ => .store op
  | .memorySize _ => .memorySize
  | .memoryGrow _ => .memoryGrow
  | .i32Const _ => .i32Const
  | .i64Const _ => .i64Const
  | .numeric op => .numeric op
  | .unknown opcode => .unknown opcode

namespace Reader
variable {code : List Byte} {pc next : Nat} {instr : Instr}

/-- Reading an instruction reads its opcode and then what the scanners skip. -/
theorem fetch_ok (fetched : fetch code pc = .ok instr next) :
    ∃ byte, readByte code pc = .ok byte (pc + 1) ∧ Op.ofByte byte = instr.op ∧
      immediates code instr.op (pc + 1) = .ok () next := by
  obtain ⟨byte, here, read, rest⟩ := bind_eq_ok.mp fetched
  obtain rfl := readByte_next read
  refine ⟨byte, read, ?_⟩
  cases op : Op.ofByte byte <;> rw [op] at rest
  case load | store =>
    obtain ⟨align, _, first, rest⟩ := bind_eq_ok.mp rest
    obtain ⟨offset, _, second, rest⟩ := bind_eq_ok.mp rest
    cases rest
    exact ⟨rfl, bind_eq_ok.mpr ⟨align, _, first, bind_eq_ok.mpr ⟨offset, _, second, rfl⟩⟩⟩
  case unreachable | nop | elseOp | endOp | returnOp | drop | select | numeric | unknown =>
    cases rest
    exact ⟨rfl, rfl⟩
  all_goals
    obtain ⟨immediate, second, rfl⟩ := map_eq_ok.mp rest
    exact ⟨rfl, bind_eq_ok.mpr ⟨immediate, _, second, rfl⟩⟩

theorem fetch_gains (fetched : fetch code pc = .ok instr next) : pc < next := by
  obtain ⟨byte, -, -, rest⟩ := fetch_ok fetched
  have moved := @moves_immediates code instr.op (pc + 1)
  unfold wp at moved
  rw [rest] at moved
  exact moved

end Reader

/-! ### The pass -/

theorem advance_eq_some {code : List Byte} {x : Context} {place next : Place} : advance code x place = some next ↔
    ∃ instr, Reader.fetch code place.1 = .ok instr next.1 ∧ check x instr place.2 = some next.2 := by
  unfold advance
  cases fetched : Reader.fetch code place.1 with
  | error e pc => simp
  | ok instr pc =>
    obtain ⟨there, blocks⟩ := next
    simp only [Option.map_eq_some_iff, Prod.mk.injEq, EStateM.Result.ok.injEq]
    constructor
    · rintro ⟨_, checked, rfl, rfl⟩
      exact ⟨instr, ⟨rfl, rfl⟩, checked⟩
    · rintro ⟨_, ⟨rfl, rfl⟩, checked⟩
      exact ⟨blocks, checked, rfl, rfl⟩

theorem advance_gains {code : List Byte} {x : Context} {place next : Place} (moved : advance code x place = some next) :
    place.1 < next.1 := by
  obtain ⟨instr, fetched, -⟩ := advance_eq_some.mp moved
  exact Reader.fetch_gains fetched

namespace Listing
variable {l : Listing} {code : List Byte} {pc : Nat} {c : Ctrl} {blocks rest : List Ctrl}

theorem right_unique (code : List Byte) (x : Context) : Relator.RightUnique fun a b => advance code x a = some b :=
  fun _ _ _ first second => Option.some.inj (first.symm.trans second)

/-- Inside a valid body the pass goes on as long as a construct is open. -/
theorem At.next (here : l.At code pc (c :: rest)) (valid : l.Valid code) :
    ∃ instr next blocks, Reader.fetch code pc = .ok instr next ∧ check l.context instr (c :: rest) = some blocks ∧
      l.At code next blocks := by
  rcases Relation.ReflTransGen.total_of_right_unique (right_unique code l.context) here valid with ahead | behind
  · rcases ahead.cases_head with same | ⟨⟨next, blocks⟩, moved, -⟩
    · cases same
    · obtain ⟨instr, fetched, checked⟩ := advance_eq_some.mp moved
      exact ⟨instr, next, blocks, fetched, checked, here.tail moved⟩
  · rcases behind.cases_head with same | ⟨⟨next, blocks⟩, moved, -⟩
    · cases same
    · obtain ⟨instr, -, checked⟩ := advance_eq_some.mp moved
      cases checked

theorem gains {a b : Place} (path : Relation.ReflTransGen (fun a b => advance code l.context a = some b) a b) :
    a = b ∨ a.1 < b.1 := by
  induction path with
  | refl => exact .inl rfl
  | tail _ last ih =>
    have step := advance_gains last
    rcases ih with rfl | before
    · exact .inr step
    · exact .inr (before.trans step)

theorem At.unique {blocks' : List Ctrl} (here : l.At code pc blocks)
    (here' : l.At code pc blocks') : blocks = blocks' := by
  rcases Relation.ReflTransGen.total_of_right_unique (right_unique code l.context) here here' with path | path
  · rcases gains path with same | less
    · exact congrArg Prod.snd same
    · exact absurd less (Nat.lt_irrefl _)
  · rcases gains path with same | less
    · exact (congrArg Prod.snd same).symm
    · exact absurd less (Nat.lt_irrefl _)

theorem valid_of_validFrom {fuel : Nat} {place : Place}
    (path : Relation.ReflTransGen (fun a b => advance code l.context a = some b) l.entry place)
    (valid : l.validFrom code fuel place) : l.Valid code := by
  induction fuel generalizing place with
  | zero =>
    obtain rfl := of_decide_eq_true valid
    exact path
  | succ fuel ih =>
    unfold validFrom at valid
    split at valid
    · next next moved => exact ih (path.tail moved) valid
    · obtain rfl := of_decide_eq_true valid
      exact path

end Listing

/-- The pass run on a function. -/
def Program.validBody (p : Program) (funcIdx : BitVec 32) (fuel : Nat) : Bool :=
  (p.listing funcIdx).any fun l => l.validFrom p.code fuel l.entry

theorem Program.validBody_sound {p : Program} {funcIdx : BitVec 32} {fuel : Nat} (valid : p.validBody funcIdx fuel) :
    p.ValidBody funcIdx := by
  obtain ⟨l, known, passes⟩ := (Option.any_eq_true _ _).mp valid
  exact ⟨l, known, Listing.valid_of_validFrom .refl passes⟩

/-! ### The scanners -/

/-- The constructs open behind the end of the innermost one. -/
theorem check_end {x : Context} {c : Ctrl} {rest blocks : List Ctrl}
    (checked : check x .endOp (c :: rest) = some blocks) :
    c.closed ∧ (c.kind = .ifThen → c.results = []) ∧ blocks = resume c.results rest := by
  change (if c.closed ∧ (c.kind = .ifThen → c.results = []) then some (resume c.results rest) else none) = some blocks at checked
  split at checked
  · next both =>
    cases checked
    exact ⟨both.1, both.2, rfl⟩
  · cases checked

theorem check_else {x : Context} {c : Ctrl} {rest blocks : List Ctrl}
    (checked : check x .elseOp (c :: rest) = some blocks) :
    c.kind = .ifThen ∧ c.closed ∧ blocks = { kind := .elseOp, results := c.results } :: rest := by
  change (if c.kind = .ifThen ∧ c.closed then some ({ kind := .elseOp, results := c.results } :: rest) else none) = some blocks at checked
  split at checked
  · next both =>
    cases checked
    exact ⟨both.1, both.2, rfl⟩
  · cases checked

/-- The construct an instruction opens. -/
def Instr.opens : Instr → Option (Construct × Byte)
  | .block blockType => some (.block, blockType)
  | .loop blockType => some (.loop, blockType)
  | .ifOp blockType => some (.ifThen, blockType)
  | _ => none

theorem check_open {x : Context} {instr : Instr} {kind : Construct} {blockType : Byte} {c : Ctrl} {rest blocks : List Ctrl}
    (opens : instr.opens = some (kind, blockType)) (checked : check x instr (c :: rest) = some blocks) :
    ∃ results d, blockTypes blockType = some results ∧ c.Same d ∧ blocks = { kind, results } :: d :: rest ∧
      if kind = .ifThen then c.pop valI32 = some d else d = c := by
  cases instr with
  | block t =>
    cases opens
    obtain ⟨results, known, same⟩ := Option.bind_eq_some_iff.mp checked
    cases same
    exact ⟨results, c, known, .refl c, rfl, rfl⟩
  | loop t =>
    cases opens
    obtain ⟨results, known, same⟩ := Option.bind_eq_some_iff.mp checked
    cases same
    exact ⟨results, c, known, .refl c, rfl, rfl⟩
  | ifOp t =>
    cases opens
    obtain ⟨d, cond, checked⟩ := Option.bind_eq_some_iff.mp checked
    obtain ⟨results, known, same⟩ := Option.bind_eq_some_iff.mp checked
    cases same
    exact ⟨results, d, known, Ctrl.stays_pop _ d cond, rfl, cond⟩
  | _ => cases opens

/-- How the scanners count the open constructs. -/
def Instr.nest (instr : Instr) (depth : Nat) : Nat :=
  match instr with
  | .block _ | .loop _ | .ifOp _ => depth + 1
  | .endOp => depth - 1
  | _ => depth

/-- One instruction of the pass inside a construct `c`: it ends `c`, or `c` stays open. -/
theorem check_inner {x : Context} {instr : Instr} {inner rest blocks : List Ctrl} {c : Ctrl}
    (checked : check x instr (inner ++ c :: rest) = some blocks) :
    (instr = .endOp ∧ inner = [] ∧ blocks = resume c.results rest) ∨
      ∃ inner' d, blocks = inner' ++ d :: rest ∧ d.results = c.results ∧ inner'.length + 1 = instr.nest (inner.length + 1) ∧
        (¬ (instr = .elseOp ∧ inner = []) → d.kind = c.kind) := by
  have opened : ∀ kind blockType, instr.opens = some (kind, blockType) → ∃ inner' d, blocks = inner' ++ d :: rest ∧
      d.results = c.results ∧ inner'.length + 1 = inner.length + 1 + 1 ∧ d.kind = c.kind := by
    intro kind blockType opens
    cases inner with
    | nil =>
      obtain ⟨results, d, -, same, rfl, -⟩ := check_open opens checked
      exact ⟨[_], d, rfl, same.2, rfl, same.1⟩
    | cons top inner =>
      obtain ⟨results, d, -, -, rfl, -⟩ := check_open opens checked
      exact ⟨_ :: d :: inner, c, rfl, rfl, rfl, rfl⟩
  cases instr with
  | block | loop | ifOp =>
    obtain ⟨inner', d, same, results, depth, kind⟩ := opened _ _ rfl
    exact .inr ⟨inner', d, same, results, depth, fun _ => kind⟩
  | elseOp =>
    cases inner with
    | nil =>
      obtain ⟨-, -, rfl⟩ := check_else checked
      exact .inr ⟨[], _, rfl, rfl, rfl, fun other => absurd ⟨rfl, rfl⟩ other⟩
    | cons top inner =>
      obtain ⟨-, -, rfl⟩ := check_else checked
      exact .inr ⟨_ :: inner, c, rfl, rfl, rfl, fun _ => rfl⟩
  | endOp =>
    cases inner with
    | nil =>
      obtain ⟨-, -, rfl⟩ := check_end checked
      exact .inl ⟨rfl, rfl, rfl⟩
    | cons top inner =>
      obtain ⟨-, -, rfl⟩ := check_end checked
      cases inner with
      | nil => exact .inr ⟨[], c.pushAll top.results, rfl, rfl, rfl, fun _ => rfl⟩
      | cons next inner => exact .inr ⟨_ :: inner, c, rfl, rfl, rfl, fun _ => rfl⟩
  | _ =>
    cases inner with
    | nil =>
      obtain ⟨d, -, same, rfl⟩ := check_flat_some rfl checked
      exact .inr ⟨[], d, rfl, same.2, rfl, fun _ => same.1⟩
    | cons top inner =>
      obtain ⟨d, -, -, rfl⟩ := check_flat_some rfl checked
      exact .inr ⟨d :: inner, c, rfl, rfl, rfl, fun _ => rfl⟩

/-- The outermost construct, and no other, is the function. -/
def Rooted : List Ctrl → Prop
  | [] => True
  | [c] => c.kind = .function
  | c :: d :: rest => c.kind ≠ .function ∧ Rooted (d :: rest)

theorem Rooted.same {c d : Ctrl} {rest : List Ctrl} (rooted : Rooted (c :: rest)) (same : c.Same d) : Rooted (d :: rest) := by
  cases rest with
  | nil => exact same.1.trans rooted
  | cons e rest => exact ⟨fun kind => rooted.1 (same.1.symm.trans kind), rooted.2⟩

/-- A construct with another one around it is not the function. -/
theorem Rooted.inner {inner rest : List Ctrl} {c : Ctrl} (rooted : Rooted (inner ++ c :: rest)) (around : rest ≠ []) :
    c.kind ≠ .function := by
  induction inner with
  | nil =>
    cases rest with
    | nil => exact absurd rfl around
    | cons d rest => exact rooted.1
  | cons top inner ih =>
    cases inner with
    | nil => exact ih rooted.2
    | cons next inner => exact ih rooted.2

theorem Rooted.check {x : Context} {instr : Instr} {before blocks : List Ctrl} (rooted : Rooted before)
    (checked : check x instr before = some blocks) : Rooted blocks := by
  cases before with
  | nil => cases checked
  | cons c rest =>
    have opened : ∀ kind blockType, instr.opens = some (kind, blockType) → kind ≠ .function → Rooted blocks := by
      intro kind blockType opens inner
      obtain ⟨results, d, -, same, rfl, -⟩ := check_open opens checked
      exact ⟨inner, rooted.same same⟩
    cases instr with
    | block => exact opened _ _ rfl nofun
    | loop => exact opened _ _ rfl nofun
    | ifOp => exact opened _ _ rfl nofun
    | elseOp =>
      obtain ⟨kind, -, rfl⟩ := check_else checked
      cases rest with
      | nil => exact absurd (kind.symm.trans rooted) nofun
      | cons d rest => exact ⟨nofun, rooted.2⟩
    | endOp =>
      obtain ⟨-, -, rfl⟩ := check_end checked
      cases rest with
      | nil => trivial
      | cons d rest => exact rooted.2.same ⟨rfl, rfl⟩
    | _ =>
      obtain ⟨d, -, same, rfl⟩ := check_flat_some rfl checked
      exact rooted.same same

theorem Listing.At.rooted {l : Listing} {code : List Byte} {pc : Nat} {blocks : List Ctrl} (here : l.At code pc blocks) :
    Rooted blocks := by
  suffices ∀ place : Place, Relation.ReflTransGen (fun a b => advance code l.context a = some b) l.entry place → Rooted place.2 from
    this _ here
  intro place path
  induction path with
  | refl => rfl
  | tail _ last ih =>
    obtain ⟨instr, -, checked⟩ := advance_eq_some.mp last
    exact ih.check checked

theorem blockTypes_short {blockType : Byte} {results : List Byte} (known : blockTypes blockType = some results) :
    results.length ≤ 1 := by
  unfold blockTypes at known
  split at known
  · cases known
    exact Nat.zero_le 1
  · split at known
    · cases known
      exact Nat.le_refl 1
    · cases known

theorem Listing.At.short {l : Listing} {code : List Byte} {pc : Nat} {blocks : List Ctrl} (here : l.At code pc blocks) :
    ∀ c ∈ blocks, c.kind ≠ .function → c.results.length ≤ 1 := by
  suffices ∀ place : Place, Relation.ReflTransGen (fun a b => advance code l.context a = some b) l.entry place →
      ∀ c ∈ place.2, c.kind ≠ .function → c.results.length ≤ 1 from this _ here
  intro place path
  induction path with
  | refl =>
    intro c member other
    cases List.mem_singleton.mp member
    exact absurd rfl other
  | @tail before after _ last ih =>
    obtain ⟨instr, -, checked⟩ := advance_eq_some.mp last
    obtain ⟨pc, blocks⟩ := before
    cases blocks with
    | nil => cases checked
    | cons top rest =>
      have others : ∀ d : Ctrl, top.Same d → ∀ c ∈ d :: rest, c.kind ≠ .function → c.results.length ≤ 1 := by
        intro d same c member other
        rcases List.mem_cons.mp member with rfl | deeper
        · rw [same.2]
          exact ih top (List.mem_cons_self ..) (same.1 ▸ other)
        · exact ih c (List.mem_cons_of_mem _ deeper) other
      have opened : ∀ kind blockType, instr.opens = some (kind, blockType) →
          ∀ c ∈ after.2, c.kind ≠ .function → c.results.length ≤ 1 := by
        intro kind blockType opens c member other
        obtain ⟨results, d, types, same, blocks, -⟩ := check_open opens checked
        rw [blocks] at member
        rcases List.mem_cons.mp member with rfl | deeper
        · exact blockTypes_short types
        · exact others d same c deeper other
      cases instr with
      | block | loop | ifOp => exact opened _ _ rfl
      | elseOp =>
        obtain ⟨kind, -, blocks⟩ := check_else checked
        rw [blocks]
        intro c member other
        rcases List.mem_cons.mp member with rfl | deeper
        · exact ih top (List.mem_cons_self ..) (by rw [kind]; nofun)
        · exact ih c (List.mem_cons_of_mem _ deeper) other
      | endOp =>
        obtain ⟨-, -, blocks⟩ := check_end checked
        rw [blocks]
        intro c member other
        cases rest with
        | nil => cases member
        | cons e rest =>
          rcases List.mem_cons.mp member with rfl | deeper
          · exact ih e (List.mem_cons_of_mem _ (List.mem_cons_self ..)) other
          · exact ih c (List.mem_cons_of_mem _ (List.mem_cons_of_mem _ deeper)) other
      | _ =>
        obtain ⟨d, -, same, blocks⟩ := check_flat_some rfl checked
        rw [blocks]
        exact others d same

theorem Listing.At.outermost {l : Listing} {code : List Byte} {pc : Nat} {inner : List Ctrl} {c : Ctrl}
    (here : l.At code pc (inner ++ [c])) : c.results = l.context.results := by
  suffices ∀ place : Place, Relation.ReflTransGen (fun a b => advance code l.context a = some b) l.entry place →
      place.2 = [] ∨ ∃ inner c, place.2 = inner ++ [c] ∧ c.results = l.context.results by
    rcases this _ here with none_ | ⟨inner', d, same, results⟩
    · exact absurd none_ (List.append_ne_nil_of_right_ne_nil _ nofun)
    · obtain ⟨-, last⟩ := List.append_inj' same rfl
      cases last
      exact results
  intro place path
  induction path with
  | refl => exact .inr ⟨[], _, rfl, rfl⟩
  | tail _ last ih =>
    obtain ⟨instr, -, checked⟩ := advance_eq_some.mp last
    rcases ih with none_ | ⟨inner, c, same, results⟩
    · rw [none_] at checked
      cases checked
    · rw [same] at checked
      rcases check_inner checked with ⟨-, -, ended⟩ | ⟨inner', d, same, kept, -, -⟩
      · exact .inl ended
      · exact .inr ⟨inner', d, same, kept.trans results⟩

namespace Reader

/-- The types of the locals are as many as `enter_function` counts. -/
theorem groupTypes_ok {code : List Byte} {groups declared total pc next : Nat}
    (read : readGroups code groups declared pc = .ok total next) :
    ∃ types, groupTypes code groups pc = .ok types next ∧ declared + types.length = total := by
  induction groups generalizing declared pc with
  | zero =>
    cases read
    exact ⟨[], rfl, rfl⟩
  | succ groups ih =>
    obtain ⟨count, _, first, rest⟩ := bind_eq_ok.mp read
    obtain ⟨type, _, second, rest⟩ := bind_eq_ok.mp rest
    obtain ⟨_, _, sum, others⟩ := bind_eq_ok.mp rest
    obtain ⟨-, rfl, rfl⟩ := plus_eq_ok.mp sum
    obtain ⟨types, read', length⟩ := ih others
    refine ⟨List.replicate count.toNat type ++ types, ?_, ?_⟩
    · exact bind_eq_ok.mpr ⟨count, _, first, bind_eq_ok.mpr ⟨type, _, second, bind_eq_ok.mpr ⟨types, _, read', rfl⟩⟩⟩
    · rw [List.length_append, List.length_replicate, ← Nat.add_assoc]
      exact length

theorem localTypes_ok {code : List Byte} {total pc next : Nat} (read : readLocals code pc = .ok total next) :
    ∃ types, localTypes code pc = .ok types next ∧ types.length = total := by
  obtain ⟨groups, _, first, rest⟩ := bind_eq_ok.mp read
  obtain ⟨types, read', length⟩ := groupTypes_ok rest
  exact ⟨types, bind_eq_ok.mpr ⟨groups, _, first, read'⟩, by omega⟩

end Reader

/-- An entered function stands at the start of its listing. -/
theorem Entered.listing {n : Nat} {σ : Type} {p : Program} {funcIdx : BitVec 32} {returnPc : Nat} {e : Entry} {s t : Machine n σ}
    (entered : Entered p funcIdx returnPc e s t) : ∃ declared, declared.length = e.localCount - e.funcType.paramCount ∧
      p.listing funcIdx = some {
        context := {
          results := e.funcType.resultTypes, locals := e.funcType.paramTypes ++ declared, signature := p.signature }
        start := e.pc
        stop := e.body.offset + e.body.length } := by
  obtain ⟨declared, read, length⟩ := Reader.localTypes_ok entered.declared
  refine ⟨declared, length, ?_⟩
  simp only [Program.listing, entered.signature, entered.known, read, Option.bind_eq_bind, Option.bind_some]

namespace Reader
variable {code : List Byte} {pc next stop fuel depth : Nat} {instr : Instr}

theorem skipToEndFrom_step (fetched : fetch code pc = .ok instr next)
    (skips : skipToEndFrom code (fuel + 1) (depth + 1) pc = .ok () stop) :
    skipToEndFrom code fuel (instr.nest (depth + 1)) next = .ok () stop := by
  obtain ⟨byte, read, op, skipped⟩ := fetch_ok fetched
  rw [skipToEndFrom, if_pos (Nat.succ_pos depth)] at skips
  obtain ⟨_, _, read', rest⟩ := bind_eq_ok.mp skips
  cases read.symm.trans read'
  rw [op] at rest
  cases instr with
  | block | loop | ifOp =>
    obtain ⟨_, _, skipped', rest⟩ := bind_eq_ok.mp rest
    obtain ⟨_, _, sum, scans⟩ := bind_eq_ok.mp rest
    obtain ⟨-, rfl, rfl⟩ := plus_eq_ok.mp sum
    obtain ⟨_, _, skipped, same⟩ := bind_eq_ok.mp skipped
    cases same
    cases skipped.symm.trans skipped'
    exact scans
  | endOp =>
    cases skipped
    obtain ⟨_, _, difference, rest⟩ := bind_eq_ok.mp rest
    obtain ⟨-, rfl, rfl⟩ := minus_eq_ok.mp difference
    exact rest
  | _ =>
    obtain ⟨_, _, skipped', rest⟩ := bind_eq_ok.mp rest
    cases skipped.symm.trans skipped'
    exact rest

/-- `skip_to_end` stops where the pass has closed the construct. -/
theorem skipToEndFrom_lands {l : Listing} {inner rest : List Ctrl} {c : Ctrl} (valid : l.Valid code)
    (here : l.At code pc (inner ++ c :: rest)) (skips : skipToEndFrom code fuel (inner.length + 1) pc = .ok () stop) :
    l.At code stop (resume c.results rest) := by
  induction fuel generalizing pc inner c with
  | zero => cases skips
  | succ fuel ih =>
    obtain ⟨top, outer, whole⟩ : ∃ top outer, inner ++ c :: rest = top :: outer := by
      cases inner with
      | nil => exact ⟨c, rest, rfl⟩
      | cons top inner => exact ⟨top, inner ++ c :: rest, rfl⟩
    rw [whole] at here
    obtain ⟨instr, next, blocks, fetched, checked, there⟩ := here.next valid
    have skips' := skipToEndFrom_step fetched skips
    rw [← whole] at checked
    rcases check_inner checked with ⟨rfl, rfl, rfl⟩ | ⟨inner', d, rfl, same, depth, -⟩
    · cases fuel with
      | zero => cases skips'
      | succ fuel =>
        cases skips'
        exact there
    · rw [← same]
      rw [← depth] at skips'
      exact ih there skips'

theorem skipToElseOrEndFrom_step {hasElse : Bool} (fetched : fetch code pc = .ok instr next)
    (skips : skipToElseOrEndFrom code (fuel + 1) (depth + 1) pc = .ok hasElse stop) :
    (instr = .endOp ∧ depth = 0 ∧ hasElse = false ∧ stop = next) ∨
    (instr = .elseOp ∧ depth = 0 ∧ hasElse = true ∧ stop = next) ∨
    (¬ (instr = .endOp ∧ depth = 0) ∧ ¬ (instr = .elseOp ∧ depth = 0) ∧
      skipToElseOrEndFrom code fuel (instr.nest (depth + 1)) next = .ok hasElse stop) := by
  obtain ⟨byte, read, op, skipped⟩ := fetch_ok fetched
  rw [skipToElseOrEndFrom, if_pos (Nat.succ_pos depth)] at skips
  obtain ⟨_, _, read', rest⟩ := bind_eq_ok.mp skips
  cases read.symm.trans read'
  rw [op] at rest
  cases instr with
  | block | loop | ifOp =>
    obtain ⟨_, _, skipped', rest⟩ := bind_eq_ok.mp rest
    obtain ⟨_, _, sum, scans⟩ := bind_eq_ok.mp rest
    obtain ⟨-, rfl, rfl⟩ := plus_eq_ok.mp sum
    obtain ⟨_, _, skipped, same⟩ := bind_eq_ok.mp skipped
    cases same
    cases skipped.symm.trans skipped'
    exact .inr (.inr ⟨nofun, nofun, scans⟩)
  | endOp =>
    cases skipped
    obtain ⟨_, _, difference, rest⟩ := bind_eq_ok.mp rest
    obtain ⟨-, rfl, rfl⟩ := minus_eq_ok.mp difference
    split at rest
    · next bottom =>
      cases rest
      exact .inl ⟨rfl, by omega, rfl, rfl⟩
    · next deeper => exact .inr (.inr ⟨fun both => by omega, nofun, rest⟩)
  | elseOp =>
    cases skipped
    simp only [Instr.op] at rest
    split at rest
    · next bottom =>
      cases rest
      exact .inr (.inl ⟨rfl, by omega, rfl, rfl⟩)
    · next deeper => exact .inr (.inr ⟨nofun, fun both => by omega, rest⟩)
  | _ =>
    obtain ⟨_, _, skipped', rest⟩ := bind_eq_ok.mp rest
    cases skipped.symm.trans skipped'
    exact .inr (.inr ⟨nofun, nofun, rest⟩)

/-- `skip_to_else_or_end` stops at the construct's own `else`, or behind its end. -/
theorem skipToElseOrEndFrom_lands {l : Listing} {inner rest : List Ctrl} {c : Ctrl} {hasElse : Bool}
    (valid : l.Valid code)
    (here : l.At code pc (inner ++ c :: rest))
    (skips : skipToElseOrEndFrom code fuel (inner.length + 1) pc = .ok hasElse stop) :
    l.At code stop (if hasElse then { kind := .elseOp, results := c.results } :: rest else resume c.results rest) := by
  induction fuel generalizing pc inner c with
  | zero => cases skips
  | succ fuel ih =>
    obtain ⟨top, outer, whole⟩ : ∃ top outer, inner ++ c :: rest = top :: outer := by
      cases inner with
      | nil => exact ⟨c, rest, rfl⟩
      | cons top inner => exact ⟨top, inner ++ c :: rest, rfl⟩
    rw [whole] at here
    obtain ⟨instr, next, blocks, fetched, checked, there⟩ := here.next valid
    rw [← whole] at checked
    rcases skipToElseOrEndFrom_step fetched skips with ⟨rfl, bottom, rfl, rfl⟩ | ⟨rfl, bottom, rfl, rfl⟩ | ⟨noEnd, noElse, skips'⟩
    · obtain rfl := List.eq_nil_of_length_eq_zero bottom
      obtain ⟨-, -, rfl⟩ := check_end checked
      exact there
    · obtain rfl := List.eq_nil_of_length_eq_zero bottom
      obtain ⟨-, -, rfl⟩ := check_else checked
      exact there
    · rcases check_inner checked with ⟨rfl, rfl, -⟩ | ⟨inner', d, rfl, same, depth, -⟩
      · exact absurd ⟨rfl, rfl⟩ noEnd
      · rw [← same]
        rw [← depth] at skips'
        exact ih there skips'

/-- Where `skip_to_else_or_end` finds no `else`, the construct has no result. -/
theorem skipToElseOrEndFrom_empty {l : Listing} {inner rest : List Ctrl} {c : Ctrl} (valid : l.Valid code)
    (here : l.At code pc (inner ++ c :: rest)) (kind : c.kind = .ifThen)
    (skips : skipToElseOrEndFrom code fuel (inner.length + 1) pc = .ok false stop) : c.results = [] := by
  induction fuel generalizing pc inner c with
  | zero => cases skips
  | succ fuel ih =>
    obtain ⟨top, outer, whole⟩ : ∃ top outer, inner ++ c :: rest = top :: outer := by
      cases inner with
      | nil => exact ⟨c, rest, rfl⟩
      | cons top inner => exact ⟨top, inner ++ c :: rest, rfl⟩
    rw [whole] at here
    obtain ⟨instr, next, blocks, fetched, checked, there⟩ := here.next valid
    rw [← whole] at checked
    rcases skipToElseOrEndFrom_step fetched skips with ⟨rfl, bottom, -, -⟩ | ⟨-, -, other, -⟩ | ⟨noEnd, noElse, skips'⟩
    · obtain rfl := List.eq_nil_of_length_eq_zero bottom
      exact (check_end checked).2.1 kind
    · cases other
    · rcases check_inner checked with ⟨rfl, rfl, -⟩ | ⟨inner', d, rfl, same, depth, kept⟩
      · exact absurd ⟨rfl, rfl⟩ noEnd
      · rw [← same]
        rw [← depth] at skips'
        refine ih there ((kept ?_).trans kind) skips'
        rintro ⟨rfl, rfl⟩
        exact noElse ⟨rfl, rfl⟩

end Reader

end GooseOs.Wasm
