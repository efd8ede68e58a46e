import GooseOs.Kernel.Interp

/-!
`wasi.rs`: the host functions behind a module's imports, and the run of a whole binary. The serial
port is the list of bytes given to `emit_byte`.
-/

namespace GooseOs.Wasm

def ascii (chars : List Char) : List Byte := chars.map fun c => BitVec.ofNat 8 c.toNat

def maxDispatch : Nat := 16

inductive WasiFunc where
  | unknown | fdWrite | procExit | environSizesGet | environGet | argsSizesGet | argsGet
  deriving DecidableEq

structure WasiBridge where
  dispatch : FixedArray maxDispatch WasiFunc := fun _ => .unknown
  importCount : Nat
  exitCode : Option (BitVec 32) := none
  output : List Byte := []

/-! ### Names -/

/-- The field names the bridge knows, in the order in which they are tried. -/
def wasiNames : List (List Byte × WasiFunc) :=
  [(ascii ['f', 'd', '_', 'w', 'r', 'i', 't', 'e'], .fdWrite),
    (ascii ['p', 'r', 'o', 'c', '_', 'e', 'x', 'i', 't'], .procExit),
    (ascii ['e', 'n', 'v', 'i', 'r', 'o', 'n', '_', 's', 'i', 'z', 'e', 's', '_', 'g', 'e', 't'], .environSizesGet),
    (ascii ['e', 'n', 'v', 'i', 'r', 'o', 'n', '_', 'g', 'e', 't'], .environGet),
    (ascii ['a', 'r', 'g', 's', '_', 's', 'i', 'z', 'e', 's', '_', 'g', 'e', 't'], .argsSizesGet),
    (ascii ['a', 'r', 'g', 's', '_', 'g', 'e', 't'], .argsGet)]

section Names
variable {ε σ : Type}

def matchName (m : WasmModule) (idx : Nat) : List (List Byte × WasiFunc) → Prog ε σ WasiFunc
  | [] => pure .unknown
  | (name, func) :: rest => do
    if ← m.importNameEq idx name then pure func else matchName m idx rest

def matchWasiName (m : WasmModule) (idx : Nat) : Prog ε σ WasiFunc := matchName m idx wasiNames

/-- The loop of `from_module` over the imports from `i` on. -/
def fillDispatch (m : WasmModule) : (count i : Nat) → FixedArray maxDispatch WasiFunc →
    Prog ε σ (FixedArray maxDispatch WasiFunc)
  | 0, _, dispatch => pure dispatch
  | count + 1, i, dispatch => do
    let func ← matchWasiName m i
    let dispatch ← dispatch.store i func
    fillDispatch m count (i + 1) dispatch

def WasiBridge.fromModule (m : WasmModule) : Prog ε σ WasiBridge := do
  let dispatch ← fillDispatch m (min m.importCount maxDispatch) 0 fun _ => .unknown
  pure { dispatch, importCount := m.importCount }

end Names

/-! ### Memory -/

section Memory
variable {n : Nat}

/-- Little-endian bytes of `val` from `addr` on. -/
def LinearMemory.writeLe (memory : LinearMemory n) (addr : Nat) (val : BitVec 32) : LinearMemory n := fun x =>
  if addr ≤ x.val ∧ x.val < addr + 4 then val.extractLsb' (8 * (x - addr)) 8 else memory x

def readU32Le (memory : LinearMemory n) (addr : Nat) : Except (BitVec 32) (BitVec 32) :=
  if inside : addr + 4 ≤ n then
    .ok (memory ⟨addr + 3, by omega⟩ ++ memory ⟨addr + 2, by omega⟩ ++ memory ⟨addr + 1, by omega⟩ ++
      memory ⟨addr, by omega⟩)
  else .error 28

def writeU32Le (memory : LinearMemory n) (addr : Nat) (val : BitVec 32) : Except (BitVec 32) (LinearMemory n) :=
  if addr + 4 ≤ n then .ok (memory.writeLe addr val) else .error 28

/-- The bytes `[start, start + len)`. -/
def LinearMemory.bytes (memory : LinearMemory n) (start len : Nat) : List Byte :=
  (List.range len).filterMap fun j => memory.at? (start + j)

/-! ### Host functions -/

namespace WasiBridge

/-- A result with the bridge and the memory it leaves. -/
abbrev Answer (n : Nat) : Type := Except (BitVec 32) (Option Word) × WasiBridge × LinearMemory n

def emitBytes (b : WasiBridge) (bytes : List Byte) : WasiBridge := { b with output := b.output ++ bytes }

/-- The loop of `fd_write` over `count` buffers from the `i`-th on. The total stays far below 2^32:
each entry takes eight bytes of a memory of 64 KiB. -/
def writeBuffers (memory : LinearMemory n) (iovsPtr nwrittenPtr : Nat) : (count i : Nat) → WasiBridge →
    (total : BitVec 32) → Answer n
  | 0, _, b, total =>
    match writeU32Le memory nwrittenPtr total with
    | .error e => (.error e, b, memory)
    | .ok memory => (.ok (some 0), b, memory)
  | count + 1, i, b, total =>
    match readU32Le memory (iovsPtr + i * 8), readU32Le memory (iovsPtr + i * 8 + 4) with
    | .error e, _ => (.error e, b, memory)
    | .ok _, .error e => (.error e, b, memory)
    | .ok bufPtr, .ok bufLen =>
      if n < bufPtr.toNat + bufLen.toNat then (.ok (some 28), b, memory)
      else
        writeBuffers memory iovsPtr nwrittenPtr count (i + 1) (b.emitBytes (memory.bytes bufPtr.toNat bufLen.toNat))
          (total + bufLen)

def fdWrite (b : WasiBridge) (args : List Word) (memory : LinearMemory n) : Answer n :=
  match args with
  | fd :: iovsPtr :: iovsLen :: nwrittenPtr :: _ =>
    if (fd.setWidth 32 : BitVec 32) ≠ 1 ∧ (fd.setWidth 32 : BitVec 32) ≠ 2 then (.ok (some 8), b, memory)
    else
      writeBuffers memory (iovsPtr.setWidth 32).toNat (nwrittenPtr.setWidth 32).toNat (iovsLen.setWidth 32).toNat 0 b 0
  | _ => (.error 1, b, memory)

def procExit (b : WasiBridge) (args : List Word) (memory : LinearMemory n) : Answer n :=
  let code : BitVec 32 :=
    match args with
    | first :: _ => first.setWidth 32
    | [] => 0
  (.error 0xDEAD, { b with exitCode := some code }, memory)

/-- `environ_sizes_get` and `args_sizes_get`: there are none. -/
def sizesGet (b : WasiBridge) (args : List Word) (memory : LinearMemory n) : Answer n :=
  match args with
  | countPtr :: bufSizePtr :: _ =>
    match writeU32Le memory (countPtr.setWidth 32).toNat 0 with
    | .error e => (.error e, b, memory)
    | .ok memory =>
      match writeU32Le memory (bufSizePtr.setWidth 32).toNat 0 with
      | .error e => (.error e, b, memory)
      | .ok memory => (.ok (some 0), b, memory)
  | _ => (.error 1, b, memory)

def call (b : WasiBridge) (funcIdx : BitVec 32) (args : List Word) (memory : LinearMemory n) : Answer n :=
  if b.importCount ≤ funcIdx.toNat then (.error funcIdx, b, memory)
  else
    match b.dispatch.at? funcIdx.toNat with
    | some .fdWrite => b.fdWrite args memory
    | some .procExit => b.procExit args memory
    | some .environSizesGet => b.sizesGet args memory
    | some .environGet => (.ok (some 0), b, memory)
    | some .argsSizesGet => b.sizesGet args memory
    | some .argsGet => (.ok (some 0), b, memory)
    | some .unknown | none => (.error funcIdx, b, memory)

end WasiBridge

def wasi (n : Nat) : HostFunctions n WasiBridge where
  call := WasiBridge.call

/-! ### Running a binary -/

section DataSegments
variable {ε σ : Type}

/-- The loop over the bytes of a segment: `count` of them from the `j`-th on. -/
def copyBytes (wasmBytes : List Byte) (dstStart srcStart : Nat) : (count j : Nat) → LinearMemory n →
    Prog ε σ (LinearMemory n)
  | 0, _, memory => pure memory
  | count + 1, j, memory => do
    let src ← plus 64 srcStart j
    let dst ← plus 64 dstStart j
    match wasmBytes[src]? with
    | none => fault
    | some b => do
      let memory ← memory.store dst b
      copyBytes wasmBytes dstStart srcStart count (j + 1) memory

/-- One segment; one that does not fit is skipped. -/
def initSegment (wasmBytes : List Byte) (seg : DataSegment) (memory : LinearMemory n) : Prog ε σ (LinearMemory n) := do
  let dstEnd ← plus 64 seg.offset.toNat seg.dataLen
  let srcEnd ← plus 64 seg.dataOffset seg.dataLen
  if n < dstEnd ∨ wasmBytes.length < srcEnd then pure memory
  else copyBytes wasmBytes seg.offset.toNat seg.dataOffset seg.dataLen 0 memory

/-- The loop of `init_data_segments` over `count` segments from the `i`-th on. -/
def initSegments (m : WasmModule) (wasmBytes : List Byte) : (count i : Nat) → LinearMemory n → Prog ε σ (LinearMemory n)
  | 0, _, memory => pure memory
  | count + 1, i, memory => do
    let seg ← m.dataSegments.load i
    let memory ← initSegment wasmBytes seg memory
    initSegments m wasmBytes count (i + 1) memory

def initDataSegments (m : WasmModule) (wasmBytes : List Byte) (memory : LinearMemory n) : Prog ε σ (LinearMemory n) :=
  initSegments m wasmBytes m.dataSegmentCount 0 memory

end DataSegments

end Memory

def startName : List Byte := ascii ['_', 's', 't', 'a', 'r', 't']

/-- How a run of `run_wasm` stands: it returned an exit code, panicked, or is still going. -/
inductive WasmRun where
  | exited (code : BitVec 32) (machine : Option (Machine 65536 WasiBridge))
  | panicked
  | running

/-- The exit code of a call of `_start`. -/
def exitOf : EStateM.Result (Stop TrapKind) (Machine 65536 WasiBridge) Outcome → WasmRun
  | .ok (.done _) s => .exited (s.host.exitCode.getD 0) (some s)
  | .ok .next _ => .running
  | .error (.error trap) s =>
    if trap = .hostCallError 0xDEAD then .exited (s.host.exitCode.getD 0) (some s) else .exited (-3) (some s)
  | .error .fault _ => .panicked

/-- From the parsed module to the exit code. -/
def runModule (m : WasmModule) (wasmBytes : List Byte) (fuel : Nat) : WasmRun :=
  let prepared : Prog TrapKind Unit (LinearMemory 65536 × WasiBridge × Option (BitVec 32)) := do
    let memory ← initDataSegments m wasmBytes fun _ => 0
    let bridge ← WasiBridge.fromModule m
    let start ← m.findExport startName exportFunc
    pure (memory, bridge, start)
  match prepared () with
  | .error _ _ => .panicked
  | .ok (_, _, none) _ => .exited (-2) none
  | .ok (memory, host, some start) _ =>
    exitOf (callFunction { module := m, code := wasmBytes, numImports := BitVec.ofNat 32 m.importCount } (wasi 65536)
      start [] fuel { memory, host })

/-- `run_wasm`, cut off after `fuel` rounds of the interpreter. -/
def runWasm (wasmBytes : List Byte) (fuel : Nat) : WasmRun :=
  match parse wasmBytes with
  | .error (.error _) => .exited (-1) none
  | .error .fault => .panicked
  | .ok m => runModule m wasmBytes fuel

end GooseOs.Wasm
