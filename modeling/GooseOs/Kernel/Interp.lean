import GooseOs.Kernel.Opcode

/-!
`interp.rs`: the WebAssembly interpreter. One step reads an instruction with its immediates and
executes it; `run` repeats the step.
-/

namespace GooseOs.Wasm

def maxStack : Nat := 256

def maxCallDepth : Nat := 32

/-- Locals of one frame. -/
def maxLocals : Nat := 32

def maxLabels : Nat := 32

/-- A block, loop or if that has been entered. -/
structure Label where
  targetPc : Nat := 0
  stackDepth : Nat := 0
  resultCount : Nat := 0
  isLoop : Bool := false
  deriving DecidableEq

structure CallFrame where
  returnPc : Nat := 0
  funcIdx : BitVec 32 := 0
  localsBase : Nat := 0
  localCount : Nat := 0
  stackDepth : Nat := 0
  resultCount : Nat := 0
  labelBase : Nat := 0
  deriving DecidableEq

/-- What an `Interpreter` is made for: the parsed module, its binary and its number of imports. -/
structure Program where
  module : WasmModule
  code : List Byte
  numImports : BitVec 32

/-- The mutable fields of `Interpreter`; a new one has the defaults. -/
structure Interpreter where
  pc : Nat := 0
  stack : FixedArray maxStack Word := fun _ => 0
  sp : Nat := 0
  frames : FixedArray maxCallDepth CallFrame := fun _ => {}
  frameDepth : Nat := 0
  locals : FixedArray (maxLocals * maxCallDepth) Word := fun _ => 0
  labels : FixedArray maxLabels Label := fun _ => {}
  labelDepth : Nat := 0

abbrev LinearMemory (n : Nat) := FixedArray n Byte

/-- An implementation of the trait: an imported function gets its arguments and the linear memory,
whose length it cannot change. -/
structure HostFunctions (n : Nat) (σ : Type) where
  call : σ → (funcIdx : BitVec 32) → (args : List Word) → LinearMemory n →
    Except (BitVec 32) (Option Word) × σ × LinearMemory n

/-- `NoHost`: every host call fails. -/
def noHost (n : Nat) : HostFunctions n Unit where
  call _ funcIdx _ memory := (.error funcIdx, (), memory)

/-- The interpreter with the memory and the host of a call. -/
structure Machine (n : Nat) (σ : Type) extends Interpreter where
  memory : LinearMemory n
  host : σ

abbrev Exec (n : Nat) (σ : Type) (α : Type) := Prog TrapKind (Machine n σ) α

/-- A step goes on or returns from `run`. -/
inductive Outcome where
  | next
  | done (result : Option Word)
  deriving DecidableEq

section Interp

variable {n : Nat} {σ α : Type}

/-- Read bytes at the program counter. -/
def onPc (r : Reader α) : Exec n σ α := onPart (fun s => s.pc) (fun pc s => { s with pc }) r

/-! ### Operand stack -/

def push (val : Word) : Exec n σ Unit := do
  let s ← get
  failIf (maxStack ≤ s.sp) .stackOverflow
  let stack ← s.stack.store s.sp val
  let sp ← plus 64 s.sp 1
  set { s with stack, sp }

def pop : Exec n σ Word := do
  let s ← get
  failIf (s.sp = 0) .stackUnderflow
  let sp ← minus s.sp 1
  set { s with sp }
  s.stack.load sp

/-- `pop_u32` and `pop_i32`. -/
def popU32 : Exec n σ (BitVec 32) := (BitVec.setWidth 32) <$> pop

/-- `stack[sp - 1]`. -/
def top : Exec n σ Word := do
  let s ← get
  let i ← minus s.sp 1
  s.stack.load i

/-- The value a block or a function leaves, when it has one and the stack is above `floor`. -/
def resultAbove (resultCount floor : Nat) : Exec n σ (Option Word) := do
  let s ← get
  if 0 < resultCount ∧ floor < s.sp then some <$> top else pure none

def pushResult : Option Word → Exec n σ Unit
  | some val => push val
  | none => pure ()

def setSp (sp : Nat) : Exec n σ Unit := modify fun s => { s with sp }

def setPc (pc : Nat) : Exec n σ Unit := modify fun s => { s with pc }

/-! ### Frames, locals and labels -/

/-- `frames[frame_depth - 1]`. -/
def topFrame : Exec n σ CallFrame := do
  let s ← get
  let i ← minus s.frameDepth 1
  s.frames.load i

/-- The label base of the running function, 0 outside one. -/
def labelBase : Exec n σ Nat := do
  let s ← get
  if 0 < s.frameDepth then (fun frame => frame.labelBase) <$> topFrame else pure 0

/-- The place of a local of the running function. -/
def localSlot (idx : BitVec 32) : Exec n σ Nat := do
  let s ← get
  failIf (s.frameDepth = 0) .invalidLocal
  let frame ← topFrame
  let abs ← plus 64 frame.localsBase idx.toNat
  failIf (frame.localCount ≤ idx.toNat ∨ maxLocals * maxCallDepth ≤ abs) .invalidLocal
  pure abs

def localGet (idx : BitVec 32) : Exec n σ Word := do
  let abs ← localSlot idx
  let s ← get
  s.locals.load abs

def localSet (idx : BitVec 32) (val : Word) : Exec n σ Unit := do
  let abs ← localSlot idx
  let s ← get
  let locals ← s.locals.store abs val
  set { s with locals }

def pushLabel (label : Label) : Exec n σ Unit := do
  let s ← get
  failIf (maxLabels ≤ s.labelDepth) .labelStackOverflow
  let labels ← s.labels.store s.labelDepth label
  let labelDepth ← plus 64 s.labelDepth 1
  set { s with labels, labelDepth }

/-- `labels[label_depth - 1]`. -/
def topLabel : Exec n σ Label := do
  let s ← get
  let i ← minus s.labelDepth 1
  s.labels.load i

/-- `label_depth -= count`. -/
def dropLabels (count : Nat) : Exec n σ Unit := do
  let s ← get
  let labelDepth ← minus s.labelDepth count
  set { s with labelDepth }

def getLabel (depth : BitVec 32) : Exec n σ Label := do
  let s ← get
  failIf (s.labelDepth ≤ depth.toNat) .invalidBranch
  let base ← labelBase
  let last ← minus s.labelDepth 1
  let idx ← minus last depth.toNat
  failIf (idx < base) .invalidBranch
  s.labels.load idx

/-- A branch to a loop header keeps the loop's label, and every label above it. -/
def branchBack (label : Label) : Exec n σ Unit := do
  setSp label.stackDepth
  setPc label.targetPc

/-- Pop labels down to and including the target. -/
def popLabels (depth : BitVec 32) : Exec n σ Unit := do
  let popCount ← plus 64 depth.toNat 1
  let s ← get
  if popCount ≤ s.labelDepth then dropLabels popCount else pure ()

/-- A branch to a block's end. -/
def branchOut (label : Label) (depth : BitVec 32) : Exec n σ Unit := do
  let result ← resultAbove label.resultCount 0
  setSp label.stackDepth
  popLabels depth
  pushResult (if 0 < label.resultCount then result else none)
  setPc label.targetPc

def doBranch (depth : BitVec 32) : Exec n σ Unit := do
  let label ← getLabel depth
  if label.isLoop then branchBack label else branchOut label depth

/-! ### Linear memory -/

/-- A little-endian load of bytes from `ea` on. -/
def loadLe (memory : LinearMemory n) (ea : Nat) : (bytes : Nat) → Exec n σ Nat
  | 0 => pure 0
  | bytes + 1 => do
    let first ← memory.load ea
    let rest ← loadLe memory (ea + 1) bytes
    pure (first.toNat + 256 * rest)

/-- A little-endian store of bytes from `ea` on. -/
def storeLe (memory : LinearMemory n) (ea val : Nat) : (bytes : Nat) → Exec n σ (LinearMemory n)
  | 0 => pure memory
  | bytes + 1 => do
    let memory ← memory.store ea (BitVec.ofNat 8 val)
    storeLe memory (ea + 1) (val / 256) bytes

/-- `mem_load_u16`, `mem_load_u32` and `mem_load_u64`. -/
def memLoad (bytes : Nat) (addr offset : BitVec 32) : Exec n σ Nat := do
  let s ← get
  let ea ← plus 64 addr.toNat offset.toNat
  let stop ← plus 64 ea bytes
  failIf (n < stop) .outOfBounds
  loadLe s.memory ea bytes

def memLoadU8 (addr offset : BitVec 32) : Exec n σ Nat := do
  let s ← get
  let ea ← plus 64 addr.toNat offset.toNat
  failIf (n ≤ ea) .outOfBounds
  loadLe s.memory ea 1

def memLoadU16 (addr offset : BitVec 32) : Exec n σ Nat := memLoad 2 addr offset

def memLoadU32 (addr offset : BitVec 32) : Exec n σ Nat := memLoad 4 addr offset

def memLoadU64 (addr offset : BitVec 32) : Exec n σ Nat := memLoad 8 addr offset

/-- `mem_store_u16`, `mem_store_u32` and `mem_store_u64`. -/
def memStore (bytes : Nat) (addr offset : BitVec 32) (val : Nat) : Exec n σ Unit := do
  let s ← get
  let ea ← plus 64 addr.toNat offset.toNat
  let stop ← plus 64 ea bytes
  failIf (n < stop) .outOfBounds
  let memory ← storeLe s.memory ea val bytes
  modify fun s => { s with memory }

def memStoreU8 (addr offset : BitVec 32) (val : Nat) : Exec n σ Unit := do
  let s ← get
  let ea ← plus 64 addr.toNat offset.toNat
  failIf (n ≤ ea) .outOfBounds
  let memory ← storeLe s.memory ea val 1
  modify fun s => { s with memory }

def memStoreU16 (addr offset : BitVec 32) (val : Nat) : Exec n σ Unit := memStore 2 addr offset val

def memStoreU32 (addr offset : BitVec 32) (val : Nat) : Exec n σ Unit := memStore 4 addr offset val

def memStoreU64 (addr offset : BitVec 32) (val : Nat) : Exec n σ Unit := memStore 8 addr offset val

/-- The word a load pushes. -/
def Load.fetch (op : Load) (addr offset : BitVec 32) : Exec n σ Word :=
  match op with
  | .i32Load => (BitVec.ofNat 64) <$> memLoadU32 addr offset
  | .i64Load => (BitVec.ofNat 64) <$> memLoadU64 addr offset
  | .i32Load8S => (fun val => (BitVec.ofNat 8 val).signExtend 64) <$> memLoadU8 addr offset
  | .i32Load8U => (BitVec.ofNat 64) <$> memLoadU8 addr offset
  | .i32Load16S => (fun val => (BitVec.ofNat 16 val).signExtend 64) <$> memLoadU16 addr offset
  | .i32Load16U => (BitVec.ofNat 64) <$> memLoadU16 addr offset

/-- A store writes the low bytes of its value. -/
def Store.write (op : Store) (addr offset : BitVec 32) (val : Word) : Exec n σ Unit :=
  match op with
  | .i32Store => memStoreU32 addr offset (val.setWidth 32).toNat
  | .i64Store => memStoreU64 addr offset val.toNat
  | .i32Store8 => memStoreU8 addr offset (val.setWidth 8).toNat
  | .i32Store16 => memStoreU16 addr offset (val.setWidth 16).toNat

variable (p : Program)

/-! ### Function entry -/

/-- The first local past the running frame's. -/
def nextLocalsBase : Exec n σ Nat := do
  let s ← get
  if 0 < s.frameDepth then
    let prev ← topFrame
    plus 64 prev.localsBase prev.localCount
  else pure 0

/-- Arguments from the stack become the first locals: `count` of them, from the `i`-th on. -/
def copyArgs (localsBase stackDepth : Nat) : (count i : Nat) → Exec n σ Unit
  | 0, _ => pure ()
  | count + 1, i => do
    let s ← get
    let src ← plus 64 stackDepth i
    let dst ← plus 64 localsBase i
    let val ← s.stack.load src
    let locals ← s.locals.store dst val
    set { s with locals }
    copyArgs localsBase stackDepth count (i + 1)

/-- Declared locals start at zero. -/
def zeroLocals (localsBase : Nat) : (count i : Nat) → Exec n σ Unit
  | 0, _ => pure ()
  | count + 1, i => do
    let s ← get
    let dst ← plus 64 localsBase i
    let locals ← s.locals.store dst 0
    set { s with locals }
    zeroLocals localsBase count (i + 1)

/-- `frames[frame_depth] = frame; frame_depth += 1`. -/
def pushFrame (frame : CallFrame) : Exec n σ Unit := do
  let s ← get
  let frames ← s.frames.store s.frameDepth frame
  let frameDepth ← plus 64 s.frameDepth 1
  set { s with frames, frameDepth }

/-- The signature and the body of a local function. -/
def resolve (funcIdx : BitVec 32) : Exec n σ (FuncType × FuncBody) := do
  failIf (funcIdx < p.numImports) .invalidFunction
  let localFuncIdx ← minus funcIdx.toNat p.numImports.toNat
  failIf (p.module.funcCount ≤ localFuncIdx) .invalidFunction
  let typeIdx ← p.module.funcTypes.load localFuncIdx
  failIf (p.module.typeCount ≤ typeIdx.toNat) .typeMismatch
  let funcType ← p.module.types.load typeIdx.toNat
  let body ← p.module.bodies.load localFuncIdx
  pure (funcType, body)

/-- Decode the local declarations at `offset` and find room for the locals: where they start and
how many they are, parameters included. -/
def reserveLocals (paramCount offset : Nat) : Exec n σ (Nat × Nat) := do
  setPc offset
  let declaredLocals ← onPc (Reader.readLocals p.code)
  let totalLocals ← plus 64 paramCount declaredLocals
  failIf (maxLocals < totalLocals) .invalidLocal
  let localsBase ← nextLocalsBase
  let localsEnd ← plus 64 localsBase totalLocals
  failIf (maxLocals * maxCallDepth < localsEnd) .invalidLocal
  pure (localsBase, totalLocals)

/-- Pop the arguments into the locals and clear the other locals; the stack depth that is left. -/
def bindArgs (paramCount localsBase totalLocals : Nat) : Exec n σ Nat := do
  failIf ((← get).sp < paramCount) .stackUnderflow
  let stackDepth ← minus (← get).sp paramCount
  copyArgs localsBase stackDepth paramCount 0
  setSp stackDepth
  zeroLocals localsBase (totalLocals - paramCount) paramCount
  pure stackDepth

def enterFunction (funcIdx : BitVec 32) (returnPc : Nat) : Exec n σ Unit := do
  failIf (maxCallDepth ≤ (← get).frameDepth) .callStackOverflow
  let (funcType, body) ← resolve p funcIdx
  let (localsBase, localCount) ← reserveLocals p funcType.paramCount body.offset
  let stackDepth ← bindArgs funcType.paramCount localsBase localCount
  let resultCount := funcType.resultCount
  let labelBase := (← get).labelDepth
  pushFrame { returnPc, funcIdx, localsBase, localCount, stackDepth, resultCount, labelBase }
  let bodyEnd ← plus 64 body.offset body.length
  pushLabel { targetPc := bodyEnd, stackDepth, resultCount, isLoop := false }

/-- A function's result takes the place of its operands and arguments. -/
def passResult (frame : CallFrame) : Exec n σ (Option Word) := do
  let result ← resultAbove frame.resultCount 0
  setSp frame.stackDepth
  pushResult result
  pure result

/-- The common part of `END` at a function's end and of `RETURN`. -/
def leaveFunction : Exec n σ Outcome := do
  let frame ← topFrame
  let result ← passResult frame
  let s ← get
  let frameDepth ← minus s.frameDepth 1
  set { s with labelDepth := frame.labelBase, frameDepth }
  if frameDepth = 0 then pure (.done result)
  else
    setPc frame.returnPc
    pure .next

/-- `Some(stack[sp - 1])`, or `None` on an empty stack. -/
def answerTop : Exec n σ Outcome := do
  let s ← get
  if 0 < s.sp then (fun val => .done (some val)) <$> top else pure (.done none)

/-! ### Host calls -/

/-- The `count` arguments still on the stack, the last one first. -/
def popArgs : (count : Nat) → FixedArray 8 Word → Exec n σ (FixedArray 8 Word)
  | 0, args => pure args
  | count + 1, args => do
    let val ← pop
    let args ← args.store count val
    popArgs count args

/-- `&args[..count]`. -/
def slice (args : FixedArray 8 Word) (count : Nat) : Exec n σ (List Word) :=
  if count ≤ 8 then pure ((List.ofFn args).take count) else fault

def callHost (h : HostFunctions n σ) (target : BitVec 32) : Exec n σ Unit := do
  let typeIdx ← p.module.importTypes.load target.toNat
  let funcType ← p.module.types.load typeIdx.toNat
  failIf ((← get).sp < funcType.paramCount) .stackUnderflow
  let args ← popArgs funcType.paramCount fun _ => 0
  let args ← slice args funcType.paramCount
  let s ← get
  let (result, host, memory) := h.call s.host target args s.memory
  set { s with host, memory }
  match result with
  | .error code => fail (.hostCallError code)
  | .ok result => pushResult result

/-! ### Instructions -/

/-- The result count of a block type. -/
def blockResults (blockType : Byte) : Nat := if blockType = 0x40 then 0 else 1

/-- The position past the block's end; the program counter stays. -/
def findEnd : Exec n σ Nat := do
  let savePc := (← get).pc
  onPc (Reader.skipToEnd p.code)
  let endPc := (← get).pc
  setPc savePc
  pure endPc

def execBlock (blockType : Byte) : Exec n σ Unit := do
  let endPc ← findEnd p
  let stackDepth := (← get).sp
  pushLabel { targetPc := endPc, stackDepth, resultCount := blockResults blockType, isLoop := false }

def execLoop : Exec n σ Unit := do
  let s ← get
  pushLabel { targetPc := s.pc, stackDepth := s.sp, resultCount := 0, isLoop := true }

def execIf (blockType : Byte) : Exec n σ Unit := do
  let cond ← popU32
  let endPc ← findEnd p
  let stackDepth := (← get).sp
  let label : Label := { targetPc := endPc, stackDepth, resultCount := blockResults blockType, isLoop := false }
  if cond ≠ 0 then pushLabel label
  else
    let hasElse ← onPc (Reader.skipToElseOrEnd p.code)
    if hasElse then pushLabel label else pure ()

/-- What the end of a then-branch leaves on the stack. -/
def settleElse (label : Label) : Exec n σ Unit := do
  let result ← resultAbove label.resultCount label.stackDepth
  setSp label.stackDepth
  attempt (pushResult result)

/-- The end of a then-branch: the topmost label goes, whatever it belongs to. -/
def execElse : Exec n σ Unit := do
  let s ← get
  if 0 < s.labelDepth then
    let label ← topLabel
    settleElse label
    dropLabels 1
    setPc label.targetPc
  else pure ()

/-- What the end of a block leaves on the stack. -/
def settle (label : Label) : Exec n σ Unit := do
  let s ← get
  if label.isLoop = false ∧ 0 < label.resultCount ∧ label.stackDepth < s.sp then
    let result ← top
    setSp label.stackDepth
    push result
  else
    let height ← plus 64 label.stackDepth label.resultCount
    if height < s.sp then setSp label.stackDepth else pure ()

/-- The end of a block, loop or if. -/
def endBlock : Exec n σ Unit := do
  let label ← topLabel
  settle label
  dropLabels 1

def execEnd : Exec n σ Outcome := do
  let s ← get
  if 0 < s.labelDepth then
    let base ← labelBase
    let last ← minus s.labelDepth 1
    if last = base then leaveFunction
    else
      endBlock
      pure .next
  else answerTop

def execReturn : Exec n σ Outcome := do
  let s ← get
  if s.frameDepth = 0 then answerTop else leaveFunction

def execCall (h : HostFunctions n σ) (target : BitVec 32) : Exec n σ Unit :=
  if target < p.numImports then callHost p h target
  else do
    let returnPc := (← get).pc
    enterFunction p target returnPc

def execSelect : Exec n σ Unit := do
  let cond ← popU32
  let val2 ← pop
  let val1 ← pop
  push (if cond ≠ 0 then val1 else val2)

def execTee (idx : BitVec 32) : Exec n σ Unit := do
  let s ← get
  failIf (s.sp = 0) .stackUnderflow
  let val ← top
  localSet idx val

def execNumeric (op : Numeric) : Exec n σ Unit :=
  match op.meaning with
  | .unary f => do
    let a ← pop
    push (f a)
  | .binary f => do
    let b ← pop
    let a ← pop
    match f a b with
    | .ok val => push val
    | .error stop => throw stop

/-- The instructions that go on to the next one. -/
def execSimple (h : HostFunctions n σ) : Instr → Exec n σ Unit
  | .block blockType => execBlock p blockType
  | .loop _ => execLoop
  | .ifOp blockType => execIf p blockType
  | .elseOp => execElse
  | .br depth => doBranch depth
  | .brIf depth => do
    let cond ← popU32
    if cond ≠ 0 then doBranch depth else pure ()
  | .call target => execCall p h target
  | .drop => do
    let _ ← pop
    pure ()
  | .select => execSelect
  | .localGet idx => do
    let val ← localGet idx
    push val
  | .localSet idx => do
    let val ← pop
    localSet idx val
  | .localTee idx => execTee idx
  | .load op _ offset => do
    let addr ← popU32
    let val ← op.fetch addr offset
    push val
  | .store op _ offset => do
    let val ← pop
    let addr ← popU32
    op.write addr offset val
  | .memorySize _ => push ((BitVec.ofNat 32 (n / 65536)).setWidth 64)
  | .memoryGrow _ => do
    let _ ← popU32
    push 0xFFFFFFFF
  | .i32Const val => push (val.setWidth 64)
  | .i64Const val => push val
  | .numeric op => execNumeric op
  | .unreachable => fail .unreachable
  | .unknown opcode => fail (.unknownOpcode opcode)
  | .nop | .endOp | .returnOp => pure ()

def exec (h : HostFunctions n σ) : Instr → Exec n σ Outcome
  | .endOp => execEnd
  | .returnOp => execReturn
  | instr => do
    execSimple p h instr
    pure .next

def step (h : HostFunctions n σ) : Exec n σ Outcome := do
  let instr ← onPc (Reader.fetch p.code)
  exec p h instr

/-- At most `fuel` rounds of the loop of `run`; `next` says that it is still going. -/
def run (h : HostFunctions n σ) : (fuel : Nat) → Exec n σ Outcome
  | 0 => pure .next
  | fuel + 1 => do
    match ← step p h with
    | .next => run h fuel
    | .done result => pure (.done result)

/-- `for &arg in args { self.push(arg)?; }`. -/
def pushArgs : List Word → Exec n σ Unit
  | [] => pure ()
  | arg :: rest => do
    push arg
    pushArgs rest

/-- `call_function`, cut off after `fuel` rounds. -/
def callFunction (h : HostFunctions n σ) (funcIdx : BitVec 32) (args : List Word) (fuel : Nat) :
    Exec n σ Outcome := do
  pushArgs args
  enterFunction p funcIdx 0
  run p h fuel

end Interp

end GooseOs.Wasm
