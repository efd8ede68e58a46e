import GooseOs.Kernel.Wasm
import GooseOs.Lib.Leb128

/-!
The standard binary format, written out from abstract modules: what `wasm.rs` parses, seen from
the side of the writer.
-/

namespace GooseOs.Wasm

open Leb128

inductive ValType where
  | i32 | i64 | f32 | f64
  deriving DecidableEq

def ValType.byte : ValType → Byte
  | .i32 => valI32
  | .i64 => valI64
  | .f32 => valF32
  | .f64 => valF64

inductive ExternKind where
  | func | table | memory | global
  deriving DecidableEq

def ExternKind.byte : ExternKind → Byte
  | .func => exportFunc
  | .table => exportTable
  | .memory => exportMemory
  | .global => exportGlobal

/-! ### Abstract modules -/

structure Signature where
  params : List ValType
  results : List ValType
  params_le : params.length ≤ maxParams
  results_le : results.length ≤ maxResults

structure Limits where
  min : BitVec 32
  max : Option (BitVec 32)

inductive ImportDesc where
  | func (typeIdx : BitVec 32)
  | table (elemType : Byte) (limits : Limits)
  | memory (limits : Limits)
  | global (valType : ValType) (mutable : Bool)

structure Import where
  moduleName : List Byte
  fieldName : List Byte
  desc : ImportDesc

/-- The name and type index of an imported function. -/
def Import.func? (i : Import) : Option (List Byte × BitVec 32) :=
  match i.desc with
  | .func typeIdx => some (i.fieldName, typeIdx)
  | _ => none

/-- A function's declared locals, in groups, and its instructions. -/
structure Code where
  locals : List (BitVec 32 × ValType)
  expr : List Byte

structure Func where
  typeIdx : BitVec 32
  code : Code

structure ExportItem where
  name : List Byte
  kind : ExternKind
  index : BitVec 32
  name_le : name.length ≤ maxExportName

/-- An active segment of memory 0. -/
structure Segment where
  offset : Nat
  bytes : List Byte
  offset_lt : offset < 2 ^ 31

/-- A module within the limits of `wasm.rs`, its type indices in range. -/
structure AbstractModule where
  types : List Signature
  imports : List Import
  funcs : List Func
  memory : Option Limits
  exports : List ExportItem
  segments : List Segment
  types_le : types.length ≤ maxTypes
  imports_le : (imports.filterMap Import.func?).length ≤ maxImports
  imports_valid : ∀ f ∈ imports.filterMap Import.func?, f.1.length ≤ maxImportName ∧ f.2.toNat < types.length
  funcs_le : funcs.length ≤ maxFuncs
  funcs_valid : ∀ f ∈ funcs, f.typeIdx.toNat < types.length
  exports_le : exports.length ≤ maxExports
  segments_le : segments.length ≤ maxDataSegs

def AbstractModule.funcImports (a : AbstractModule) : List (List Byte × BitVec 32) := a.imports.filterMap Import.func?

/-! ### Their bytes -/

/-- A sequence behind its length. -/
def vec {α : Type} (bytes : α → List Byte) (items : List α) : List Byte := unsigned items.length ++ items.flatMap bytes

def ValType.bytes (t : ValType) : List Byte := [t.byte]

/-- A name, or any other run of bytes, behind its length. -/
def counted (bytes : List Byte) : List Byte := unsigned bytes.length ++ bytes

def Signature.bytes (s : Signature) : List Byte := [0x60] ++ vec ValType.bytes s.params ++ vec ValType.bytes s.results

def Limits.bytes (l : Limits) : List Byte :=
  match l.max with
  | none => [0x00] ++ unsigned l.min.toNat
  | some max => [0x01] ++ unsigned l.min.toNat ++ unsigned max.toNat

def ImportDesc.bytes : ImportDesc → List Byte
  | .func typeIdx => [importFunc] ++ unsigned typeIdx.toNat
  | .table elemType limits => [importTable, elemType] ++ limits.bytes
  | .memory limits => [importMemory] ++ limits.bytes
  | .global valType mutable => [importGlobal, valType.byte, if mutable then 0x01 else 0x00]

def Import.bytes (i : Import) : List Byte := counted i.moduleName ++ counted i.fieldName ++ i.desc.bytes

def Code.bytes (c : Code) : List Byte := vec (fun g => unsigned g.1.toNat ++ [g.2.byte]) c.locals ++ c.expr

def Func.typeBytes (f : Func) : List Byte := unsigned f.typeIdx.toNat

def Func.bodyBytes (f : Func) : List Byte := counted f.code.bytes

def ExportItem.bytes (e : ExportItem) : List Byte := counted e.name ++ [e.kind.byte] ++ unsigned e.index.toNat

def Segment.bytesOf (s : Segment) : List Byte := [0x00, 0x41] ++ signed s.offset ++ [0x0B] ++ counted s.bytes

/-! ### Sections -/

/-- The sections `wasm.rs` steps over. -/
inductive SkippedId where
  | custom | table | global | start | element
  deriving DecidableEq

def SkippedId.byte : SkippedId → Byte
  | .custom => 0
  | .table => 4
  | .global => 6
  | .start => 8
  | .element => 9

instance neZero_gaps : NeZero 8 := ⟨by decide⟩

structure Skipped where
  id : SkippedId
  payload : List Byte

/-- What the format leaves to the writer: the skipped sections before, between and behind the
others, and whether a section without items is written. -/
structure Layout where
  gaps : Fin 8 → List Skipped
  written : Byte → Bool

/-- A section's id and payload. -/
abbrev Section := Byte × List Byte

def Section.bytes (s : Section) : List Byte := [s.1] ++ counted s.2

namespace Layout

def gap (l : Layout) (i : Fin 8) : List Section := (l.gaps i).map fun s => (s.id.byte, s.payload)

/-- A section of items; one without items may be left out. -/
def items {α : Type} (l : Layout) (id : Byte) (bytes : α → List Byte) (xs : List α) : List Section :=
  if xs = [] ∧ l.written id = false then [] else [(id, vec bytes xs)]

end Layout

namespace AbstractModule

variable (a : AbstractModule) (l : Layout)

def beforeCode : List Section :=
  l.gap 0 ++ l.items secType Signature.bytes a.types ++ l.gap 1 ++ l.items secImport Import.bytes a.imports ++ l.gap 2 ++
    l.items secFunction Func.typeBytes a.funcs ++ l.gap 3 ++ l.items secMemory Limits.bytes a.memory.toList ++ l.gap 4 ++
    l.items secExport ExportItem.bytes a.exports ++ l.gap 5

def afterCode : List Section := l.gap 6 ++ l.items secData Segment.bytesOf a.segments ++ l.gap 7

def sections : List Section := a.beforeCode l ++ l.items secCode Func.bodyBytes a.funcs ++ a.afterCode l

def encode : List Byte := wasmMagic ++ wasmVersion ++ (a.sections l).flatMap Section.bytes

/-- The sizes fit in the format's 32 bits, and the whole in a slice. -/
structure Written (data : List Byte) : Prop where
  same : data = a.encode l
  sizes : ∀ s ∈ a.sections l, s.2.length < 2 ^ 32
  slice : data.length < 2 ^ 63

end AbstractModule

end GooseOs.Wasm
