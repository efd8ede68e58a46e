import GooseOs.Lib.Bytes
import GooseOs.Lib.Prog

/-!
`wasm.rs`: the WebAssembly binary parser. A parser is a program over the cursor's position and
the module built so far; the bytes are fixed.
-/

namespace GooseOs.Wasm

def wasmMagic : List Byte := [0x00, 0x61, 0x73, 0x6D]

def wasmVersion : List Byte := [0x01, 0x00, 0x00, 0x00]

def secType : Byte := 1

def secImport : Byte := 2

def secFunction : Byte := 3

def secMemory : Byte := 5

def secExport : Byte := 7

def secCode : Byte := 10

def secData : Byte := 11

def importFunc : Byte := 0x00

def importTable : Byte := 0x01

def importMemory : Byte := 0x02

def importGlobal : Byte := 0x03

def valI32 : Byte := 0x7F

def valI64 : Byte := 0x7E

def valF32 : Byte := 0x7D

def valF64 : Byte := 0x7C

def exportFunc : Byte := 0x00

def exportTable : Byte := 0x01

def exportMemory : Byte := 0x02

def exportGlobal : Byte := 0x03

def maxTypes : Nat := 32

def maxFuncs : Nat := 64

def maxImports : Nat := 16

def maxExports : Nat := 16

def maxParams : Nat := 8

def maxResults : Nat := 4

def maxExportName : Nat := 32

def maxImportName : Nat := 32

def maxDataSegs : Nat := 8

inductive WasmError where
  | tooSmall | badMagic | badVersion | unexpectedEof | invalidLeb128 | invalidSection | invalidValType
  | invalidFuncType | invalidExportKind | tooManyTypes | tooManyFunctions | tooManyExports | tooManyParams
  | tooManyResults | exportNameTooLong | typeIndexOutOfBounds | missingCodeSection | tooManyImports
  | tooManyDataSegments | invalidDataSegment | importNameTooLong
  deriving DecidableEq

/-- A function signature. -/
structure FuncType where
  params : FixedArray maxParams Byte := fun _ => 0
  paramCount : Nat := 0
  results : FixedArray maxResults Byte := fun _ => 0
  resultCount : Nat := 0

structure MemoryLimits where
  minPages : BitVec 32 := 0
  maxPages : BitVec 32 := 0
  hasMax : Bool := false

structure Export where
  name : FixedArray maxExportName Byte := fun _ => 0
  nameLen : Nat := 0
  kind : Byte := 0
  index : BitVec 32 := 0

/-- Bytes copied into linear memory before the module runs. -/
structure DataSegment where
  offset : BitVec 32 := 0
  dataOffset : Nat := 0
  dataLen : Nat := 0

/-- Where a function's local declarations and code lie in the binary. -/
structure FuncBody where
  offset : Nat := 0
  length : Nat := 0

structure WasmModule where
  types : FixedArray maxTypes FuncType := fun _ => {}
  typeCount : Nat := 0
  importCount : Nat := 0
  importTypes : FixedArray maxImports (BitVec 32) := fun _ => 0
  importNames : FixedArray maxImports (FixedArray maxImportName Byte) := fun _ _ => 0
  importNameLens : FixedArray maxImports Nat := fun _ => 0
  funcTypes : FixedArray maxFuncs (BitVec 32) := fun _ => 0
  funcCount : Nat := 0
  memory : MemoryLimits := {}
  hasMemory : Bool := false
  exports : FixedArray maxExports Export := fun _ => {}
  exportCount : Nat := 0
  bodies : FixedArray maxFuncs FuncBody := fun _ => {}
  bodyCount : Nat := 0
  dataSegments : FixedArray maxDataSegs DataSegment := fun _ => {}
  dataSegmentCount : Nat := 0

/-! ### Looking up names -/

section Names
variable {ε σ : Type}

/-- The comparison loops of `name_eq` and `import_name_eq`: `count` bytes from index `j` on. -/
def sameFrom {limit : Nat} (name : FixedArray limit Byte) (s : List Byte) : (count j : Nat) → Prog ε σ Bool
  | 0, _ => pure true
  | count + 1, j => do
    let a ← name.load j
    match s[j]? with
    | none => fault
    | some b => if a ≠ b then pure false else sameFrom name s count (j + 1)

def Export.nameEq (e : Export) (s : List Byte) : Prog ε σ Bool :=
  if e.nameLen ≠ s.length then pure false else sameFrom e.name s e.nameLen 0

/-- `e.kind == kind && e.name_eq(name)`. -/
def Export.isNamed (e : Export) (name : List Byte) (kind : Byte) : Prog ε σ Bool :=
  if e.kind = kind then e.nameEq name else pure false

def WasmModule.importNameEq (m : WasmModule) (i : Nat) (s : List Byte) : Prog ε σ Bool :=
  if m.importCount ≤ i then pure false
  else do
    let len ← m.importNameLens.load i
    if len ≠ s.length then pure false
    else do
      let name ← m.importNames.load i
      sameFrom name s s.length 0

/-- The loop of `find_export` over `count` exports from index `i` on. -/
def WasmModule.findExportFrom (m : WasmModule) (name : List Byte) (kind : Byte) :
    (count i : Nat) → Prog ε σ (Option (BitVec 32))
  | 0, _ => pure none
  | count + 1, i => do
    let e ← m.exports.load i
    if ← e.isNamed name kind then pure (some e.index) else m.findExportFrom name kind count (i + 1)

def WasmModule.findExport (m : WasmModule) (name : List Byte) (kind : Byte) : Prog ε σ (Option (BitVec 32)) :=
  m.findExportFrom name kind m.exportCount 0

def WasmModule.funcType (m : WasmModule) (funcIdx : BitVec 32) : Prog ε σ (Option FuncType) :=
  if m.funcCount ≤ funcIdx.toNat then pure none
  else do
    let typeIdx ← m.funcTypes.load funcIdx.toNat
    if m.typeCount ≤ typeIdx.toNat then pure none else some <$> m.types.load typeIdx.toNat

end Names

/-- The cursor and the module under construction. -/
structure Parsing where
  pos : Nat := 0
  module : WasmModule := {}

abbrev Parser (α : Type) := Prog WasmError Parsing α

/-! ### The cursor -/

namespace Cursor

variable (data : List Byte)

def remaining : Parser Nat := do
  minus data.length (← get).pos

def readByte : Parser Byte := do
  let s ← get
  match data[s.pos]? with
  | none => fail .unexpectedEof
  | some b => do
    let pos ← plus 64 s.pos 1
    set { s with pos := pos }
    pure b

def readBytes (n : Nat) : Parser (List Byte) := do
  let s ← get
  let stop ← plus 64 s.pos n
  failIf (data.length < stop) .unexpectedEof
  set { s with pos := stop }
  pure ((data.drop s.pos).take n)

/-- The loop of `read_u32_leb128` with `left` more bytes allowed. -/
def readU32From : (left : Nat) → (result : BitVec 32) → (shift : Nat) → Parser (BitVec 32)
  | 0, _, _ => fail .invalidLeb128
  | left + 1, result, shift => do
    let byte ← readByte data
    let part ← shl ((byte &&& 0x7F).setWidth 32) shift
    let result := result ||| part
    if byte &&& 0x80 = 0 then pure result
    else
      let shift ← plus 32 shift 7
      readU32From left result shift

/-- The shift reaches 35 after five bytes. -/
def readU32Leb128 : Parser (BitVec 32) := readU32From data 5 0 0

def skip (n : Nat) : Parser Unit := do
  let s ← get
  let stop ← plus 64 s.pos n
  failIf (data.length < stop) .unexpectedEof
  set { s with pos := stop }

end Cursor

open Cursor

def isValidValtype (vt : Byte) : Bool := vt = valI32 ∨ vt = valI64 ∨ vt = valF32 ∨ vt = valF64

section Sections

variable (data : List Byte)

/-! ### Section parsers -/

/-- The loops over a signature's parameters and over its results: `count` value types into
`types` from index `j` on. -/
def readValTypes {limit : Nat} : (count j : Nat) → FixedArray limit Byte → Parser (FixedArray limit Byte)
  | 0, _, types => pure types
  | count + 1, j, types => do
    let vt ← readByte data
    failIf (isValidValtype vt = false) .invalidValType
    let types ← types.store j vt
    readValTypes count (j + 1) types

def parseType : Parser Unit := do
  let typeCount := (← get).module.typeCount
  failIf (maxTypes ≤ typeCount) .tooManyTypes
  let form ← readByte data
  failIf (form ≠ 0x60) .invalidFuncType
  let paramCount ← readU32Leb128 data
  failIf (maxParams < paramCount.toNat) .tooManyParams
  let params ← readValTypes data paramCount.toNat 0 fun _ => 0
  let resultCount ← readU32Leb128 data
  failIf (maxResults < resultCount.toNat) .tooManyResults
  let results ← readValTypes data resultCount.toNat 0 fun _ => 0
  let s ← get
  let types ← s.module.types.store s.module.typeCount
    { params, paramCount := paramCount.toNat, results, resultCount := resultCount.toNat }
  let typeCount ← plus 64 s.module.typeCount 1
  set { s with module := { s.module with types, typeCount } }

def parseTypeSection : Parser Unit := do
  let count ← readU32Leb128 data
  times count.toNat (parseType data)

def parseFunction : Parser Unit := do
  failIf (maxFuncs ≤ (← get).module.funcCount) .tooManyFunctions
  let typeIdx ← readU32Leb128 data
  let s ← get
  failIf (s.module.typeCount ≤ typeIdx.toNat) .typeIndexOutOfBounds
  let funcTypes ← s.module.funcTypes.store s.module.funcCount typeIdx
  let funcCount ← plus 64 s.module.funcCount 1
  set { s with module := { s.module with funcTypes, funcCount } }

def parseFunctionSection : Parser Unit := do
  let count ← readU32Leb128 data
  times count.toNat (parseFunction data)

/-- A memory past the first is read and dropped. -/
def skipMemory : Parser Unit := do
  let f ← readByte data
  let _ ← readU32Leb128 data
  if f &&& 0x01 ≠ 0 then
    let _ ← readU32Leb128 data
    pure ()
  else pure ()

/-- The maximum follows the minimum when the flag says so. -/
def readMax (flags : Byte) : Parser (BitVec 32) :=
  if flags &&& 0x01 ≠ 0 then readU32Leb128 data else pure 0

def parseMemorySection : Parser Unit := do
  let count ← readU32Leb128 data
  if 1 ≤ count.toNat then
    let flags ← readByte data
    let min ← readU32Leb128 data
    let max ← readMax data flags
    modify fun s => { s with module := { s.module with
      memory := { minPages := min, maxPages := max, hasMax := flags &&& 0x01 ≠ 0 }
      hasMemory := true } }
    times (count.toNat - 1) (skipMemory data)
  else pure ()

def parseExport : Parser Unit := do
  failIf (maxExports ≤ (← get).module.exportCount) .tooManyExports
  let nameLen ← readU32Leb128 data
  failIf (maxExportName < nameLen.toNat) .exportNameTooLong
  let nameBytes ← readBytes data nameLen.toNat
  let kind ← readByte data
  failIf (exportGlobal < kind) .invalidExportKind
  let index ← readU32Leb128 data
  let name ← FixedArray.storeAll (fun _ => 0) 0 nameBytes
  let s ← get
  let exports ← s.module.exports.store s.module.exportCount { name, nameLen := nameLen.toNat, kind, index }
  let exportCount ← plus 64 s.module.exportCount 1
  set { s with module := { s.module with exports, exportCount } }

def parseExportSection : Parser Unit := do
  let count ← readU32Leb128 data
  times count.toNat (parseExport data)

/-- The body is recorded before its bytes are skipped. -/
def parseBody : Parser Unit := do
  failIf (maxFuncs ≤ (← get).module.bodyCount) .tooManyFunctions
  let bodySize ← readU32Leb128 data
  let s ← get
  let bodies ← s.module.bodies.store s.module.bodyCount { offset := s.pos, length := bodySize.toNat }
  let bodyCount ← plus 64 s.module.bodyCount 1
  set { s with module := { s.module with bodies, bodyCount } }
  skip data bodySize.toNat

def parseCodeSection : Parser Unit := do
  let count ← readU32Leb128 data
  times count.toNat (parseBody data)

/-- The limits of an imported table or memory are read and dropped. -/
def skipLimits : Parser Unit := do
  let flags ← readByte data
  let _ ← readU32Leb128 data
  if flags &&& 0x01 ≠ 0 then
    let _ ← readU32Leb128 data
    pure ()
  else pure ()

/-- The `IMPORT_FUNC` arm; a field name longer than its array is cut off. -/
def parseImportFunc (fieldName : List Byte) : Parser Unit := do
  failIf (maxImports ≤ (← get).module.importCount) .tooManyImports
  let typeIdx ← readU32Leb128 data
  let s ← get
  let m := s.module
  failIf (m.typeCount ≤ typeIdx.toNat) .typeIndexOutOfBounds
  let importTypes ← m.importTypes.store m.importCount typeIdx
  let copyLen := if fieldName.length ≤ maxImportName then fieldName.length else maxImportName
  let row ← m.importNames.load m.importCount
  let row ← row.storeAll 0 (fieldName.take copyLen)
  let importNames ← m.importNames.store m.importCount row
  let importNameLens ← m.importNameLens.store m.importCount copyLen
  let importCount ← plus 64 m.importCount 1
  set { s with module := { m with importTypes, importNames, importNameLens, importCount } }

def parseImport : Parser Unit := do
  let modNameLen ← readU32Leb128 data
  skip data modNameLen.toNat
  let fieldNameLen ← readU32Leb128 data
  let fieldName ← readBytes data fieldNameLen.toNat
  let kind ← readByte data
  if kind = importFunc then parseImportFunc data fieldName
  else if kind = importTable then
    let _ ← readByte data
    skipLimits data
  else if kind = importMemory then skipLimits data
  else if kind = importGlobal then
    let _ ← readByte data
    let _ ← readByte data
    pure ()
  else fail .invalidSection

def parseImportSection : Parser Unit := do
  let count ← readU32Leb128 data
  times count.toNat (parseImport data)

/-- Only an active segment of memory 0 at `i32.const N; end` is supported. -/
def parseDataSegment : Parser Unit := do
  failIf (maxDataSegs ≤ (← get).module.dataSegmentCount) .tooManyDataSegments
  let kind ← readU32Leb128 data
  failIf (kind ≠ 0) .invalidDataSegment
  let opcode ← readByte data
  failIf (opcode ≠ 0x41) .invalidDataSegment
  let offset ← readU32Leb128 data
  let stop ← readByte data
  failIf (stop ≠ 0x0B) .invalidDataSegment
  let dataLen ← readU32Leb128 data
  let dataOffset := (← get).pos
  skip data dataLen.toNat
  let s ← get
  let dataSegments ← s.module.dataSegments.store s.module.dataSegmentCount
    { offset, dataOffset, dataLen := dataLen.toNat }
  let dataSegmentCount ← plus 64 s.module.dataSegmentCount 1
  set { s with module := { s.module with dataSegments, dataSegmentCount } }

def parseDataSection : Parser Unit := do
  let count ← readU32Leb128 data
  times count.toNat (parseDataSegment data)

/-! ### The module -/

/-- The payload of one section; one with an unknown id is skipped. -/
def parsePayload (sectionId : Byte) (sectionLen : Nat) : Parser Unit :=
  if sectionId = secType then parseTypeSection data
  else if sectionId = secImport then parseImportSection data
  else if sectionId = secFunction then parseFunctionSection data
  else if sectionId = secMemory then parseMemorySection data
  else if sectionId = secExport then parseExportSection data
  else if sectionId = secCode then parseCodeSection data
  else if sectionId = secData then parseDataSection data
  else skip data sectionLen

/-- One section. The cursor is forced to the declared end, whatever the payload's parser read. -/
def parseSection : Parser Unit := do
  let sectionId ← readByte data
  let sectionLen ← readU32Leb128 data
  let sectionStart := (← get).pos
  parsePayload data sectionId sectionLen.toNat
  let expectedEnd ← plus 64 sectionStart sectionLen.toNat
  modify fun s => { s with pos := expectedEnd }

/-- The section loop. Every section moves the cursor forward, so it ends within `fuel` rounds
when `fuel` exceeds the bytes that remain (`parseSections_fuel`). -/
def parseSections : (fuel : Nat) → Parser Unit
  | 0 => fault
  | fuel + 1 => do
    let left ← remaining data
    if 0 < left then
      parseSection data
      parseSections fuel
    else pure ()

def parseModule : Parser Unit := do
  failIf (data.length < 8) .tooSmall
  failIf (data.take 4 ≠ wasmMagic) .badMagic
  failIf ((data.drop 4).take 4 ≠ wasmVersion) .badVersion
  modify fun s => { s with pos := 8 }
  parseSections data (data.length + 1)
  let m := (← get).module
  failIf (0 < m.funcCount ∧ 0 < m.bodyCount ∧ m.funcCount ≠ m.bodyCount) .missingCodeSection

def parse : Except (Stop WasmError) WasmModule :=
  match parseModule data {} with
  | .ok _ s => .ok s.module
  | .error e _ => .error e

end Sections

end GooseOs.Wasm
