import GooseOs.Wasm.Framing
import GooseOs.Wasm.Encoding

/-!
Parsing undoes encoding: on the bytes of an abstract module the parser's arrays fill up, item by
item, with that module's items.
-/

namespace GooseOs.Wasm

open Cursor Leb128

variable {α β ι : Type} {data : List Byte} {pos : Nat} {m m' m'' : WasmModule} {a : α} {b : β}

/-! ### Bytes in place -/

/-- These bytes stand at `pos`. -/
def At (data : List Byte) (pos : Nat) (bytes : List Byte) : Prop :=
  ∃ before behind, data = before ++ (bytes ++ behind) ∧ before.length = pos

theorem At.append {first rest : List Byte} : At data pos (first ++ rest) →
    At data pos first ∧ At data (pos + first.length) rest := by
  rintro ⟨before, behind, rfl, rfl⟩
  refine ⟨⟨before, rest ++ behind, ?_, rfl⟩, before ++ first, behind, ?_, List.length_append⟩
  · rw [List.append_assoc]
  · rw [List.append_assoc, List.append_assoc]

theorem At.le {bytes : List Byte} : At data pos bytes → pos + bytes.length ≤ data.length := by
  rintro ⟨before, behind, rfl, rfl⟩
  simp only [List.length_append]
  omega

theorem At.head {x : Byte} {rest : List Byte} : At data pos (x :: rest) → data[pos]? = some x := by
  rintro ⟨before, behind, rfl, rfl⟩
  rw [List.getElem?_append_right (Nat.le_refl _), Nat.sub_self]
  rfl

theorem At.take {bytes : List Byte} : At data pos bytes → (data.drop pos).take bytes.length = bytes := by
  rintro ⟨before, behind, rfl, rfl⟩
  rw [List.drop_left, List.take_left]

/-! ### Decoding -/

/-- On these bytes the parser returns `a` right behind them, having turned `m` into `m'`. -/
def Decodes (data : List Byte) (x : Parser α) (pos : Nat) (bytes : List Byte) (m : WasmModule) (a : α) (m' : WasmModule) :
    Prop :=
  At data pos bytes → x ⟨pos, m⟩ = .ok a ⟨pos + bytes.length, m'⟩

namespace Decodes

variable {x : Parser α} {f : α → Parser β} {first rest bytes : List Byte}

theorem pure : Decodes data (Pure.pure a : Parser α) pos [] m a m := fun _ => rfl

theorem bind (here : Decodes data x pos first m a m') (later : Decodes data (f a) (pos + first.length) rest m' b m'') :
    Decodes data (x >>= f) pos (first ++ rest) m b m'' := by
  intro place
  obtain ⟨front, back⟩ := place.append
  refine bind_eq_ok.mpr ⟨_, _, here front, ?_⟩
  rw [later back, List.length_append, Nat.add_assoc]

/-- A step that reads nothing. -/
theorem still (here : x ⟨pos, m⟩ = .ok a ⟨pos, m'⟩) (later : Decodes data (f a) pos bytes m' b m'') :
    Decodes data (x >>= f) pos bytes m b m'' :=
  fun place => bind_eq_ok.mpr ⟨_, _, here, later place⟩

theorem get {f : Parsing → Parser β} (later : Decodes data (f ⟨pos, m⟩) pos bytes m b m') :
    Decodes data (MonadState.get >>= f) pos bytes m b m' := still rfl later

theorem check {c : Prop} [Decidable c] {e : WasmError} {f : Unit → Parser β} (passes : ¬ c)
    (later : Decodes data (f ()) pos bytes m b m') : Decodes data (failIf c e >>= f) pos bytes m b m' :=
  still (failIf_eq_ok.mpr ⟨passes, rfl⟩) later

theorem plus {w k n : Nat} {f : Nat → Parser β} (fits : k + n < 2 ^ w)
    (later : Decodes data (f (k + n)) pos bytes m b m') : Decodes data (GooseOs.plus w k n >>= f) pos bytes m b m' :=
  still (plus_eq_ok.mpr ⟨fits, rfl, rfl⟩) later

theorem set : Decodes data (MonadState.set (⟨pos, m'⟩ : Parsing) : Parser PUnit) pos [] m () m' := fun _ => rfl

/-- A list of items, each read by the same parser. -/
theorem times {body : Parser Unit} {enc : ι → List Byte} {items : List ι} (state : List ι → WasmModule)
    (item : ∀ done next rest, items = done ++ next :: rest →
      Decodes data body (pos + (done.flatMap enc).length) (enc next) (state done) () (state (done ++ [next]))) :
    Decodes data (GooseOs.times items.length body) pos (items.flatMap enc) (state []) () (state items) := by
  have suffix : ∀ done rest, items = done ++ rest →
      Decodes data (GooseOs.times rest.length body) (pos + (done.flatMap enc).length) (rest.flatMap enc) (state done) ()
        (state items) := by
    intro done rest
    induction rest generalizing done with
    | nil =>
      intro all
      rw [List.append_nil] at all
      rw [all]
      exact pure
    | cons next rest ih =>
      intro all
      have later := ih (done ++ [next]) (by rw [all, List.append_assoc]; rfl)
      refine bind (item done next rest all) ?_
      rwa [List.flatMap_append, List.length_append, ← Nat.add_assoc, List.flatMap_singleton] at later
  exact suffix [] items rfl

end Decodes

section Cursor
variable (slice : data.length < 2 ^ 63)
include slice

theorem readByte_decodes (x : Byte) : Decodes data (readByte data) pos [x] m x m := by
  intro place
  have inside := place.le
  rw [List.length_singleton] at inside
  exact readByte_eq_ok.mpr ⟨place.head, by show pos + 1 < _; omega, rfl⟩

theorem readBytes_decodes (bytes : List Byte) : Decodes data (readBytes data bytes.length) pos bytes m bytes m := by
  intro place
  have inside := place.le
  exact readBytes_eq_ok.mpr ⟨by show pos + _ < _; omega, inside, place.take.symm, rfl⟩

theorem skip_decodes (bytes : List Byte) : Decodes data (skip data bytes.length) pos bytes m () m := by
  intro place
  have inside := place.le
  exact skip_eq_ok.mpr ⟨by show pos + _ < _; omega, inside, rfl⟩

theorem readByte_supplies {bytes : List Byte} (place : At data pos bytes) :
    Supplies (readByte data) ⟨pos, m⟩ bytes ⟨pos + bytes.length, m⟩ := by
  induction bytes generalizing pos with
  | nil => rfl
  | cons x rest ih =>
    obtain ⟨front, back⟩ := @At.append data pos [x] rest place
    refine ⟨_, readByte_decodes slice x front, ?_⟩
    have later := ih back
    rwa [Nat.add_assoc, Nat.add_comm _ rest.length] at later

/-- A number in its encoding, the unsigned one or the signed one of a number that is not negative. -/
theorem readU32Leb128_decodes {last n : Nat} (order : last ≤ 128) (range : n < last * 2 ^ 28) (fits : n < 2 ^ 32) :
    Decodes data (readU32Leb128 data) pos (encode last 5 n) m (BitVec.ofNat 32 n) m := fun place =>
  reads_unsigned (fun _ _ _ => rfl) order range fits (readByte_supplies slice place)

theorem readUnsigned_decodes {n : Nat} (fits : n < 2 ^ 32) :
    Decodes data (readU32Leb128 data) pos (unsigned n) m (BitVec.ofNat 32 n) m :=
  readU32Leb128_decodes slice (Nat.le_refl _) (by omega) fits

end Cursor

/-! ### The module so far -/

def Signature.funcType (s : Signature) : FuncType where
  params := .ofList 0 (s.params.map ValType.byte)
  paramCount := s.params.length
  results := .ofList 0 (s.results.map ValType.byte)
  resultCount := s.results.length

def Limits.recorded (l : Limits) : MemoryLimits := { minPages := l.min, maxPages := l.max.getD 0, hasMax := l.max.isSome }

def ExportItem.recorded (e : ExportItem) : Export where
  name := .ofList 0 e.name
  nameLen := e.name.length
  kind := e.kind.byte
  index := e.index

/-- The record of a body whose size prefix is at `pos`. -/
def Func.bodyAt (f : Func) (pos : Nat) : FuncBody where
  offset := pos + (unsigned f.code.bytes.length).length
  length := f.code.bytes.length

/-- What comes before a segment's data. -/
def Segment.lead (s : Segment) : List Byte := [0x00, 0x41] ++ signed s.offset ++ [0x0B] ++ unsigned s.bytes.length

/-- The record of a segment that starts at `pos`. -/
def Segment.segmentAt (s : Segment) (pos : Nat) : DataSegment where
  offset := BitVec.ofNat 32 s.offset
  dataOffset := pos + s.lead.length
  dataLen := s.bytes.length

/-- The items the parser has met. -/
structure Contents where
  types : List Signature := []
  imports : List (List Byte × BitVec 32) := []
  funcs : List (BitVec 32) := []
  memory : Option Limits := none
  exports : List ExportItem := []
  bodies : List FuncBody := []
  segments : List DataSegment := []

/-- The module that holds them. -/
def Contents.module (c : Contents) : WasmModule where
  types := .ofList {} (c.types.map Signature.funcType)
  typeCount := c.types.length
  importCount := c.imports.length
  importTypes := .ofList 0 (c.imports.map Prod.snd)
  importNames := .ofList (fun _ => 0) (c.imports.map fun i => .ofList 0 i.1)
  importNameLens := .ofList 0 (c.imports.map fun i => i.1.length)
  funcTypes := .ofList 0 c.funcs
  funcCount := c.funcs.length
  memory := (c.memory.map Limits.recorded).getD {}
  hasMemory := c.memory.isSome
  exports := .ofList {} (c.exports.map ExportItem.recorded)
  exportCount := c.exports.length
  bodies := .ofList {} c.bodies
  bodyCount := c.bodies.length
  dataSegments := .ofList {} c.segments
  dataSegmentCount := c.segments.length

theorem count_toNat {n : Nat} (fits : n < 2 ^ 32) : (BitVec.ofNat 32 n).toNat = n := by
  rw [BitVec.toNat_ofNat, Nat.mod_eq_of_lt fits]

theorem ValType.valid (t : ValType) : isValidValtype t.byte = true := by
  cases t <;> decide

/-! ### Items -/

section Items
variable (slice : data.length < 2 ^ 63)
include slice

theorem readValTypes_decodes {limit : Nat} (done : List Byte) (types : List ValType)
    (fits : done.length + types.length ≤ limit) :
    Decodes data (readValTypes data types.length done.length (.ofList 0 done : FixedArray limit Byte)) pos
      (types.flatMap ValType.bytes) m (.ofList 0 (done ++ types.map ValType.byte)) m := by
  induction types generalizing done pos with
  | nil =>
    rw [List.map_nil, List.append_nil]
    exact .pure
  | cons t types ih =>
    rw [List.length_cons] at fits
    refine (readByte_decodes slice t.byte).bind (.check (by simp [t.valid]) ?_)
    refine .still (FixedArray.store_ofList rfl (by omega)) ?_
    have later := @ih (pos + [t.byte].length) (done ++ [t.byte]) (by rw [List.length_append, List.length_singleton]; omega)
    rwa [List.length_append, List.append_assoc] at later

theorem parseType_decodes (c : Contents) (s : Signature) (room : c.types.length < maxTypes) :
    Decodes data (parseType data) pos s.bytes c.module () { c with types := c.types ++ [s] }.module := by
  have params := s.params_le
  have results := s.results_le
  have bytes : s.bytes = [0x60] ++ (unsigned s.params.length ++ (s.params.flatMap ValType.bytes ++
      (unsigned s.results.length ++ (s.results.flatMap ValType.bytes ++ [])))) := by
    simp [Signature.bytes, vec]
  have few : s.params.length < 2 ^ 32 := Nat.lt_of_le_of_lt params (by decide)
  have few' : s.results.length < 2 ^ 32 := Nat.lt_of_le_of_lt results (by decide)
  have first : (BitVec.ofNat 32 s.params.length).toNat = s.params.length := count_toNat few
  have second : (BitVec.ofNat 32 s.results.length).toNat = s.results.length := count_toNat few'
  rw [bytes, parseType]
  refine .get (.check (Nat.not_le.mpr room) ((readByte_decodes slice 0x60).bind (.check (by simp) ?_)))
  refine (readUnsigned_decodes slice few).bind (.check (by rw [first]; exact Nat.not_lt.mpr params) ?_)
  rw [first]
  refine (readValTypes_decodes slice [] s.params (by simpa using params)).bind ?_
  refine (readUnsigned_decodes slice few').bind (.check (by rw [second]; exact Nat.not_lt.mpr results) ?_)
  rw [second]
  refine (readValTypes_decodes slice [] s.results (by simpa using results)).bind (.get ?_)
  refine .still (FixedArray.store_ofList (List.length_map _).symm (by rw [List.length_map]; exact room)) ?_
  refine .plus (by simp only [Contents.module, maxTypes] at *; omega) ?_
  have same : { c with types := c.types ++ [s] }.module = { c.module with
      types := .ofList {} (c.types.map Signature.funcType ++ [s.funcType]), typeCount := c.types.length + 1 } := by
    simp [Contents.module]
  rw [same]
  exact .set

theorem parseFunction_decodes (c : Contents) (f : Func) (room : c.funcs.length < maxFuncs)
    (valid : f.typeIdx.toNat < c.types.length) :
    Decodes data (parseFunction data) pos f.typeBytes c.module () { c with funcs := c.funcs ++ [f.typeIdx] }.module := by
  rw [Func.typeBytes, ← List.append_nil (unsigned _), parseFunction]
  refine .get (.check (Nat.not_le.mpr room) ((readUnsigned_decodes slice f.typeIdx.isLt).bind (.get ?_)))
  rw [BitVec.ofNat_toNat, BitVec.setWidth_eq]
  refine .check (Nat.not_le.mpr valid) (.still (FixedArray.store_ofList rfl room) ?_)
  refine .plus (by simp only [Contents.module, maxFuncs] at *; omega) ?_
  have same : { c with funcs := c.funcs ++ [f.typeIdx] }.module = { c.module with
      funcTypes := .ofList 0 (c.funcs ++ [f.typeIdx]), funcCount := c.funcs.length + 1 } := by
    simp [Contents.module]
  rw [same]
  exact .set

theorem skipLimits_decodes (l : Limits) : Decodes data (skipLimits data) pos l.bytes m () m := by
  unfold Limits.bytes skipLimits
  cases l.max with
  | none =>
    refine (readByte_decodes slice 0x00).bind ?_
    rw [← List.append_nil (unsigned _)]
    exact (readUnsigned_decodes slice l.min.isLt).bind .pure
  | some max =>
    dsimp only
    rw [List.append_assoc]
    refine (readByte_decodes slice 0x01).bind ((readUnsigned_decodes slice l.min.isLt).bind ?_)
    rw [← List.append_nil (unsigned max.toNat)]
    exact (readUnsigned_decodes slice max.isLt).bind .pure

theorem parseImportFunc_decodes (c : Contents) (name : List Byte) (typeIdx : BitVec 32)
    (room : c.imports.length < maxImports) (short : name.length ≤ maxImportName)
    (valid : typeIdx.toNat < c.types.length) :
    Decodes data (parseImportFunc data name) pos (unsigned typeIdx.toNat) c.module ()
      { c with imports := c.imports ++ [(name, typeIdx)] }.module := by
  rw [← List.append_nil (unsigned _), parseImportFunc]
  refine .get (.check (Nat.not_le.mpr room) ((readUnsigned_decodes slice typeIdx.isLt).bind (.get ?_)))
  rw [BitVec.ofNat_toNat, BitVec.setWidth_eq]
  dsimp only
  rw [if_pos short, List.take_length]
  have fits : ∀ {β : Type} (f : List Byte × BitVec 32 → β), (c.imports.map f).length < maxImports := fun f => by
    rw [List.length_map]
    exact room
  refine .check (Nat.not_le.mpr valid) (.still (FixedArray.store_ofList (by simp [Contents.module]) (fits _)) ?_)
  refine .still (FixedArray.load_behind room (by rw [List.length_map]; exact Nat.le_refl _)) ?_
  refine .still (@FixedArray.storeAll_ofList _ _ _ _ _ [] name _ _ rfl (by simpa using short)) ?_
  refine .still (FixedArray.store_ofList (by simp [Contents.module]) (fits _))
    (.still (FixedArray.store_ofList (by simp [Contents.module]) (fits _)) (.plus ?_ ?_))
  · simp only [Contents.module, maxImports] at *
    omega
  · have same : { c with imports := c.imports ++ [(name, typeIdx)] }.module = { c.module with
        importTypes := .ofList 0 (c.imports.map Prod.snd ++ [typeIdx])
        importNames := .ofList (fun _ => 0) ((c.imports.map fun i => .ofList 0 i.1) ++ [.ofList 0 ([] ++ name)])
        importNameLens := .ofList 0 ((c.imports.map fun i => i.1.length) ++ [name.length])
        importCount := c.imports.length + 1 } := by
      simp [Contents.module]
    rw [same]
    exact .set

/-- An import leaves its name and type index when it is a function, and nothing otherwise. -/
theorem parseImport_decodes (c : Contents) (i : Import) (small : i.bytes.length < 2 ^ 32)
    (func : ∀ f ∈ i.func?, c.imports.length < maxImports ∧ f.1.length ≤ maxImportName ∧ f.2.toNat < c.types.length) :
    Decodes data (parseImport data) pos i.bytes c.module () { c with imports := c.imports ++ i.func?.toList }.module := by
  have bytes : i.bytes = unsigned i.moduleName.length ++ (i.moduleName ++ (unsigned i.fieldName.length ++
      (i.fieldName ++ i.desc.bytes))) := by
    simp [Import.bytes, counted]
  have sizes : i.moduleName.length < 2 ^ 32 ∧ i.fieldName.length < 2 ^ 32 := by
    rw [bytes] at small
    simp only [List.length_append] at small
    omega
  rw [bytes, parseImport]
  refine (readUnsigned_decodes slice sizes.1).bind ?_
  rw [count_toNat sizes.1]
  refine (skip_decodes slice i.moduleName).bind ((readUnsigned_decodes slice sizes.2).bind ?_)
  rw [count_toNat sizes.2]
  refine (readBytes_decodes slice i.fieldName).bind ?_
  unfold Import.func? at *
  cases desc : i.desc with
  | func typeIdx =>
    rw [desc] at func
    obtain ⟨room, short, valid⟩ := func _ rfl
    refine (readByte_decodes slice importFunc).bind ?_
    rw [if_pos rfl]
    exact parseImportFunc_decodes slice c i.fieldName typeIdx room short valid
  | table elemType limits =>
    rw [show (none : Option (List Byte × BitVec 32)).toList = [] from rfl, List.append_nil]
    refine (readByte_decodes slice importTable).bind ?_
    rw [if_neg (by decide), if_pos rfl]
    exact (readByte_decodes slice elemType).bind (skipLimits_decodes slice limits)
  | memory limits =>
    rw [show (none : Option (List Byte × BitVec 32)).toList = [] from rfl, List.append_nil]
    refine (readByte_decodes slice importMemory).bind ?_
    rw [if_neg (by decide), if_neg (by decide), if_pos rfl]
    exact skipLimits_decodes slice limits
  | global valType mutable =>
    rw [show (none : Option (List Byte × BitVec 32)).toList = [] from rfl, List.append_nil]
    refine (readByte_decodes slice importGlobal).bind ?_
    rw [if_neg (by decide), if_neg (by decide), if_neg (by decide), if_pos rfl]
    exact (readByte_decodes slice valType.byte).bind ((readByte_decodes slice _).bind .pure)

theorem parseMemorySection_decodes (c : Contents) (memory : Option Limits) (fresh : c.memory = none) :
    Decodes data (parseMemorySection data) pos (vec Limits.bytes memory.toList) c.module ()
      { c with memory }.module := by
  rw [vec, parseMemorySection]
  cases memory with
  | none =>
    have same : { c with memory := none } = c := by rw [← fresh]
    rw [same]
    exact (readUnsigned_decodes slice (show 0 < 2 ^ 32 by decide)).bind .pure
  | some l =>
    have record : ∀ (place : Nat) (max : BitVec 32) (flags : Byte),
        l.recorded = { minPages := l.min, maxPages := max, hasMax := flags &&& 0x01 ≠ 0 } →
        Decodes data (modify (fun s => { s with module := { s.module with
          memory := { minPages := l.min, maxPages := max, hasMax := flags &&& 0x01 ≠ 0 }, hasMemory := true } }) >>=
          fun _ => GooseOs.times 0 (skipMemory data)) place [] c.module () { c with memory := some l }.module := by
      intro place max flags recorded here
      rw [← recorded]
      rfl
    refine (readUnsigned_decodes slice (show 1 < 2 ^ 32 by decide)).bind ?_
    rw [show (BitVec.ofNat 32 1).toNat = 1 from rfl, if_pos (Nat.le_refl 1), Option.toList_some, List.flatMap_singleton]
    unfold Limits.bytes
    cases limit : l.max with
    | none =>
      dsimp only
      rw [← List.append_nil (unsigned l.min.toNat)]
      refine (readByte_decodes slice 0x00).bind ((readUnsigned_decodes slice l.min.isLt).bind (.still rfl ?_))
      rw [BitVec.ofNat_toNat, BitVec.setWidth_eq]
      refine record _ 0 0x00 ?_
      simp [Limits.recorded, limit]
    | some max =>
      dsimp only
      rw [List.append_assoc, ← List.append_nil (unsigned max.toNat)]
      refine (readByte_decodes slice 0x01).bind ((readUnsigned_decodes slice l.min.isLt).bind ?_)
      refine (readUnsigned_decodes slice max.isLt).bind ?_
      rw [BitVec.ofNat_toNat, BitVec.ofNat_toNat, BitVec.setWidth_eq, BitVec.setWidth_eq]
      refine record _ max 0x01 ?_
      simp [Limits.recorded, limit]

theorem parseExport_decodes (c : Contents) (e : ExportItem) (room : c.exports.length < maxExports) :
    Decodes data (parseExport data) pos e.bytes c.module () { c with exports := c.exports ++ [e] }.module := by
  have short : e.name.length < 2 ^ 32 := Nat.lt_of_le_of_lt e.name_le (by decide)
  have kind : ¬ exportGlobal < e.kind.byte := by cases e.kind <;> decide
  have bytes : e.bytes = unsigned e.name.length ++ (e.name ++ ([e.kind.byte] ++ (unsigned e.index.toNat ++ []))) := by
    simp [ExportItem.bytes, counted]
  rw [bytes, parseExport]
  refine .get (.check (Nat.not_le.mpr room) ((readUnsigned_decodes slice short).bind ?_))
  rw [count_toNat short]
  refine .check (Nat.not_lt.mpr e.name_le) ((readBytes_decodes slice e.name).bind ?_)
  refine (readByte_decodes slice e.kind.byte).bind (.check kind ((readUnsigned_decodes slice e.index.isLt).bind ?_))
  rw [BitVec.ofNat_toNat, BitVec.setWidth_eq]
  refine .still (@FixedArray.storeAll_ofList _ _ _ _ 0 [] e.name _ _ rfl (by simpa using e.name_le)) (.get ?_)
  refine .still (FixedArray.store_ofList (by simp [Contents.module]) (by rw [List.length_map]; exact room)) ?_
  refine .plus (by simp only [Contents.module, maxExports] at *; omega) ?_
  have same : { c with exports := c.exports ++ [e] }.module = { c.module with
      exports := .ofList {} (c.exports.map ExportItem.recorded ++ [e.recorded]), exportCount := c.exports.length + 1 } := by
    simp [Contents.module]
  rw [same]
  exact .set

theorem parseBody_decodes (c : Contents) (f : Func) (room : c.bodies.length < maxFuncs)
    (small : f.code.bytes.length < 2 ^ 32) :
    Decodes data (parseBody data) pos f.bodyBytes c.module () { c with bodies := c.bodies ++ [f.bodyAt pos] }.module := by
  rw [Func.bodyBytes, counted, parseBody]
  refine .get (.check (Nat.not_le.mpr room) ((readUnsigned_decodes slice small).bind (.get ?_)))
  rw [count_toNat small]
  refine .still (FixedArray.store_ofList rfl room) ?_
  refine .plus (by simp only [Contents.module, maxFuncs] at *; omega) ?_
  have same : { c with bodies := c.bodies ++ [f.bodyAt pos] }.module = { c.module with
      bodies := .ofList {} (c.bodies ++ [f.bodyAt pos]), bodyCount := c.bodies.length + 1 } := by
    simp [Contents.module]
  rw [same]
  exact .still rfl (skip_decodes slice f.code.bytes)

theorem parseDataSegment_decodes (c : Contents) (s : Segment) (room : c.segments.length < maxDataSegs)
    (small : s.bytes.length < 2 ^ 32) :
    Decodes data (parseDataSegment data) pos s.bytesOf c.module ()
      { c with segments := c.segments ++ [s.segmentAt pos] }.module := by
  have low := s.offset_lt
  have bytes : s.bytesOf = unsigned 0 ++ ([0x41] ++ (signed s.offset ++ ([0x0B] ++ (unsigned s.bytes.length ++
      (s.bytes ++ []))))) := by
    simp [Segment.bytesOf, counted, unsigned_small]
  rw [bytes, parseDataSegment]
  refine .get (.check (Nat.not_le.mpr room) ((readUnsigned_decodes slice (show 0 < 2 ^ 32 by decide)).bind ?_))
  refine .check (by decide) ((readByte_decodes slice 0x41).bind (.check (by decide) ?_))
  refine (readU32Leb128_decodes slice (show 64 ≤ 128 by decide) (by omega) (by omega)).bind ?_
  refine (readByte_decodes slice 0x0B).bind (.check (by decide) ((readUnsigned_decodes slice small).bind (.get ?_)))
  rw [count_toNat small]
  refine (skip_decodes slice s.bytes).bind (.get (.still (FixedArray.store_ofList rfl room) ?_))
  refine .plus (by simp only [Contents.module, maxDataSegs] at *; omega) ?_
  have place : pos + (unsigned 0).length + [0x41].length + (signed s.offset).length + [0x0B].length +
      (unsigned s.bytes.length).length = pos + s.lead.length := by
    simp only [Segment.lead, List.length_append, unsigned_small (show 0 < 128 by decide), List.length_cons, List.length_nil]
    omega
  have same : { c with segments := c.segments ++ [s.segmentAt pos] }.module = { c.module with
      dataSegments := .ofList {} (c.segments ++ [s.segmentAt pos]), dataSegmentCount := c.segments.length + 1 } := by
    simp [Contents.module]
  rw [same, Segment.segmentAt, ← place]
  exact .set

end Items

/-! ### Sections -/

/-- The payload of a section turns the contents from `c` into `c'`. -/
def Fills (data : List Byte) (pos : Nat) (s : Section) (c c' : Contents) : Prop :=
  Decodes data (parsePayload data s.1 s.2.length) pos s.2 c.module () c'.module

/-- One section after another does, the first one's id at `pos`. -/
def Chain (data : List Byte) : (pos : Nat) → List Section → Contents → Contents → Prop
  | _, [], c, c' => c = c'
  | pos, s :: rest, c, c' =>
    ∃ mid, Fills data (pos + 1 + (unsigned s.2.length).length) s c mid ∧ Chain data (pos + s.bytes.length) rest mid c'

theorem Chain.append {first rest : List Section} {c mid c' : Contents} (here : Chain data pos first c mid)
    (later : Chain data (pos + (first.flatMap Section.bytes).length) rest mid c') : Chain data pos (first ++ rest) c c' := by
  induction first generalizing pos c with
  | nil =>
    obtain rfl := here
    exact later
  | cons s first ih =>
    obtain ⟨next, fills, here⟩ := here
    refine ⟨next, fills, ih here ?_⟩
    rwa [List.flatMap_cons, List.length_append, ← Nat.add_assoc] at later

section Sections
variable (slice : data.length < 2 ^ 63)
include slice

theorem parseSection_decodes {s : Section} {c c' : Contents} (small : s.2.length < 2 ^ 32)
    (fills : Fills data (pos + 1 + (unsigned s.2.length).length) s c c') :
    Decodes data (parseSection data) pos s.bytes c.module () c'.module := by
  have bytes : s.bytes = [s.1] ++ (unsigned s.2.length ++ (s.2 ++ [])) := by
    simp [Section.bytes, counted]
  intro place
  have inside := place.le
  have length : s.bytes.length = 1 + (unsigned s.2.length).length + s.2.length := by
    rw [bytes]
    simp only [List.length_append, List.length_singleton, List.length_nil]
    omega
  revert place
  rw [bytes, parseSection]
  refine (readByte_decodes slice s.1).bind ((readUnsigned_decodes slice small).bind (.get ?_))
  rw [count_toNat small]
  refine Decodes.bind (by rw [List.length_singleton]; exact fills) (.plus ?_ ?_)
  · simp only [List.length_singleton]
    omega
  · exact fun _ => rfl

theorem parseSections_chain {sections : List Section} {c c' : Contents} {fuel : Nat}
    (small : ∀ s ∈ sections, s.2.length < 2 ^ 32) (chain : Chain data pos sections c c')
    (place : At data pos (sections.flatMap Section.bytes))
    (whole : pos + (sections.flatMap Section.bytes).length = data.length) (enough : sections.length < fuel) :
    parseSections data fuel ⟨pos, c.module⟩ = .ok () ⟨data.length, c'.module⟩ := by
  induction sections generalizing pos c fuel with
  | nil =>
    obtain _ | fuel := fuel
    · cases enough
    · obtain rfl := chain
      rw [List.flatMap_nil, List.length_nil, Nat.add_zero] at whole
      subst whole
      rw [parseSections]
      refine bind_eq_ok.mpr ⟨0, _, ?_, rfl⟩
      simp [remaining]
  | cons s rest ih =>
    obtain _ | fuel := fuel
    · cases enough
    obtain ⟨mid, fills, later⟩ := chain
    obtain ⟨front, back⟩ := At.append (by rw [List.flatMap_cons] at place; exact place)
    rw [List.flatMap_cons, List.length_append] at whole
    have some : 0 < s.bytes.length := by simp [Section.bytes]
    have within := parseSection_decodes slice (small s (List.mem_cons_self ..)) fills front
    have left : (remaining data : Parser Nat) ⟨pos, c.module⟩ = .ok (data.length - pos) ⟨pos, c.module⟩ := by
      simp only [remaining, bind_eq_ok, get_eq_ok, minus_eq_ok]
      exact ⟨_, _, ⟨rfl, rfl⟩, by show pos ≤ _; omega, rfl, rfl⟩
    rw [parseSections]
    refine bind_eq_ok.mpr ⟨_, _, left, ?_⟩
    rw [if_pos (by omega)]
    refine bind_eq_ok.mpr ⟨_, _, within, ih (fun s member => small s (List.mem_cons_of_mem _ member)) later back (by omega) ?_⟩
    rw [List.length_cons] at enough
    omega

theorem gap_chain (l : Layout) (i : Fin 8) (c : Contents) : Chain data pos (l.gap i) c c := by
  unfold Layout.gap
  induction l.gaps i generalizing pos with
  | nil => rfl
  | cons s rest ih =>
    refine ⟨c, ?_, ih⟩
    have skipped : ∀ n, parsePayload data s.id.byte n = skip data n := by
      intro n
      cases s.id <;> rfl
    rw [Fills, skipped]
    exact skip_decodes slice s.payload

theorem items_chain {l : Layout} {id : Byte} {enc : ι → List Byte} {xs : List ι} {body : Parser Unit}
    (state : List ι → Contents) (few : xs.length < 2 ^ 32)
    (payload : ∀ n, parsePayload data id n = (do let count ← readU32Leb128 data; GooseOs.times count.toNat body))
    (item : ∀ done next rest, xs = done ++ next :: rest →
      Decodes data body (pos + 1 + (unsigned (vec enc xs).length).length + (unsigned xs.length).length +
        (done.flatMap enc).length) (enc next) (state done).module () (state (done ++ [next])).module) :
    Chain data pos (l.items id enc xs) (state []) (state xs) := by
  unfold Layout.items
  split
  · next absent =>
    rw [absent.1]
    rfl
  · refine ⟨_, ?_, rfl⟩
    rw [Fills, payload, vec]
    refine (readUnsigned_decodes slice few).bind ?_
    rw [count_toNat few]
    exact .times (fun done => (state done).module) item

end Sections

/-! ### The whole module -/

/-- Records of items that lie one behind the other. -/
def placed (enc : ι → List Byte) (record : ι → Nat → β) (start : Nat) : List ι → List β
  | [] => []
  | x :: rest => record x start :: placed enc record (start + (enc x).length) rest

section Placed
variable {enc : ι → List Byte} {record : ι → Nat → β} {start : Nat}

theorem placed_length (xs : List ι) : (placed enc record start xs).length = xs.length := by
  induction xs generalizing start with
  | nil => rfl
  | cons x rest ih => rw [placed, List.length_cons, ih, List.length_cons]

theorem placed_append (done rest : List ι) : placed enc record start (done ++ rest) =
    placed enc record start done ++ placed enc record (start + (done.flatMap enc).length) rest := by
  induction done generalizing start with
  | nil => rfl
  | cons x done ih =>
    rw [List.cons_append, placed, placed, ih, List.flatMap_cons, List.length_append, Nat.add_assoc]
    rfl

theorem placed_getElem? {xs : List ι} {i : Nat} {x : ι} (there : xs[i]? = some x) :
    (placed enc record start xs)[i]? = some (record x (start + ((xs.take i).flatMap enc).length)) := by
  obtain ⟨inside, rfl⟩ := List.getElem?_eq_some_iff.mp there
  have split : xs = xs.take i ++ xs[i] :: xs.drop (i + 1) := by
    rw [← List.drop_eq_getElem_cons inside, List.take_append_drop]
  have front : (placed enc record start (xs.take i)).length = i := by
    rw [placed_length, List.length_take]
    omega
  conv => lhs; rw [split, placed_append]
  rw [List.getElem?_append_right (by omega), front, Nat.sub_self]
  rfl

end Placed

namespace AbstractModule

variable (a : AbstractModule) (l : Layout)

/-- Where the items of a section start whose id is at `pos`. -/
def itemsStart (pos : Nat) (enc : ι → List Byte) (xs : List ι) : Nat :=
  pos + 1 + (unsigned (vec enc xs).length).length + (unsigned xs.length).length

/-- The end of these sections when they come first. -/
def endOf (sections : List Section) : Nat := 8 + (sections.flatMap Section.bytes).length

def beforeData : List Section := a.beforeCode l ++ l.items secCode Func.bodyBytes a.funcs ++ l.gap 6

theorem sections_eq : a.sections l = a.beforeData l ++ l.items secData Segment.bytesOf a.segments ++ l.gap 7 := by
  simp only [sections, afterCode, beforeData, List.append_assoc]

/-- The records of the bodies when the code section's id is at `pos`. -/
def bodiesFrom (pos : Nat) : List FuncBody :=
  placed Func.bodyBytes Func.bodyAt (itemsStart pos Func.bodyBytes a.funcs) a.funcs

def segmentsFrom (pos : Nat) : List DataSegment :=
  placed Segment.bytesOf Segment.segmentAt (itemsStart pos Segment.bytesOf a.segments) a.segments

/-- What the parser makes of the module. -/
def contents : Contents where
  types := a.types
  imports := a.funcImports
  funcs := a.funcs.map Func.typeIdx
  memory := a.memory
  exports := a.exports
  bodies := a.bodiesFrom (endOf (a.beforeCode l))
  segments := a.segmentsFrom (endOf (a.beforeData l))

end AbstractModule

section Whole
variable {l : Layout} {enc : ι → List Byte} {xs done rest : List ι} {next : ι} {id : Byte}

theorem item_length (all : xs = done ++ next :: rest) : (enc next).length ≤ (vec enc xs).length := by
  rw [all]
  simp only [vec, List.length_append, List.flatMap_append, List.flatMap_cons]
  omega

theorem vec_length (some : ∀ x ∈ xs, 0 < (enc x).length) : xs.length ≤ (vec enc xs).length := by
  have items : xs.length ≤ (xs.flatMap enc).length := by
    induction xs with
    | nil => simp
    | cons x xs ih =>
      have first := some x (List.mem_cons_self ..)
      have rest := ih fun y member => some y (List.mem_cons_of_mem _ member)
      rw [List.flatMap_cons, List.length_append, List.length_cons]
      omega
  rw [vec, List.length_append]
  omega

theorem mem_items (some : xs ≠ []) : (id, vec enc xs) ∈ l.items id enc xs := by
  unfold Layout.items
  rw [if_neg fun empty => some empty.1]
  exact List.mem_singleton_self _

end Whole

theorem sections_length (sections : List Section) : sections.length ≤ (sections.flatMap Section.bytes).length := by
  induction sections with
  | nil => simp
  | cons s rest ih =>
    rw [List.flatMap_cons, List.length_append, List.length_cons, Section.bytes, List.length_append, List.length_singleton]
    omega

namespace AbstractModule.Written

variable {a : AbstractModule} {l : Layout} (written : a.Written l data)
include written

theorem imports_small (some : a.imports ≠ []) : (vec Import.bytes a.imports).length < 2 ^ 32 := by
  refine written.sizes (secImport, _) ?_
  simp only [sections, beforeCode, List.mem_append]
  have member : (secImport, vec Import.bytes a.imports) ∈ l.items secImport Import.bytes a.imports := mem_items some
  tauto

theorem funcs_small (some : a.funcs ≠ []) : (vec Func.bodyBytes a.funcs).length < 2 ^ 32 := by
  refine written.sizes (secCode, _) ?_
  simp only [sections, List.mem_append]
  have member : (secCode, vec Func.bodyBytes a.funcs) ∈ l.items secCode Func.bodyBytes a.funcs := mem_items some
  tauto

theorem segments_small (some : a.segments ≠ []) : (vec Segment.bytesOf a.segments).length < 2 ^ 32 := by
  refine written.sizes (secData, _) ?_
  simp only [sections, afterCode, List.mem_append]
  have member : (secData, vec Segment.bytesOf a.segments) ∈ l.items secData Segment.bytesOf a.segments := mem_items some
  tauto

theorem imports_chain (pos : Nat) (c : Contents) (fresh : c.imports = []) (types : c.types = a.types) :
    Chain data pos (l.items secImport Import.bytes a.imports) c { c with imports := a.funcImports } := by
  have few : a.imports.length < 2 ^ 32 := by
    by_cases none : a.imports = []
    · rw [none]
      decide
    · refine Nat.lt_of_le_of_lt (vec_length fun i _ => ?_) (written.imports_small none)
      have length := unsigned_pos i.moduleName.length
      simp only [Import.bytes, counted, List.length_append]
      omega
  have start : c = { c with imports := ([] : List Import).filterMap Import.func? } := by
    rw [List.filterMap_nil, ← fresh]
  rw [start]
  refine items_chain written.slice (fun done => { c with imports := done.filterMap Import.func? }) few (fun _ => rfl) ?_
  intro done next rest all
  have small := written.imports_small (by rw [all]; simp)
  have fits := a.imports_le
  have valid := a.imports_valid
  rw [all] at fits valid
  rw [List.filterMap_append, List.filterMap_cons, List.length_append] at fits
  rw [show (done ++ [next]).filterMap Import.func? = done.filterMap Import.func? ++ next.func?.toList by
    rw [List.filterMap_append, List.filterMap_cons, List.filterMap_nil]
    cases next.func? <;> rfl]
  refine parseImport_decodes written.slice _ next (Nat.lt_of_le_of_lt (item_length all) small) fun f here => ?_
  have here : next.func? = some f := here
  rw [here, List.length_cons] at fits
  obtain ⟨short, typed⟩ := valid f (by simp [here])
  exact ⟨by show (done.filterMap Import.func?).length < _; omega, short, types ▸ typed⟩

theorem types_chain (pos : Nat) (c : Contents) (fresh : c.types = []) :
    Chain data pos (l.items secType Signature.bytes a.types) c { c with types := a.types } := by
  have few := a.types_le
  have start : c = { c with types := [] } := by rw [← fresh]
  rw [start]
  refine items_chain written.slice (fun done => { c with types := done }) (Nat.lt_of_le_of_lt few (by decide))
    (fun _ => rfl) ?_
  intro done next rest all
  rw [all, List.length_append, List.length_cons] at few
  exact parseType_decodes written.slice { c with types := done } next (by show done.length < _; omega)

theorem functions_chain (pos : Nat) (c : Contents) (fresh : c.funcs = []) (types : c.types = a.types) :
    Chain data pos (l.items secFunction Func.typeBytes a.funcs) c { c with funcs := a.funcs.map Func.typeIdx } := by
  have few := a.funcs_le
  have start : c = { c with funcs := ([] : List Func).map Func.typeIdx } := by rw [List.map_nil, ← fresh]
  rw [start]
  refine items_chain written.slice (fun done => { c with funcs := done.map Func.typeIdx })
    (Nat.lt_of_le_of_lt few (by decide)) (fun _ => rfl) ?_
  intro done next rest all
  have valid := a.funcs_valid next (by rw [all]; simp)
  rw [all, List.length_append, List.length_cons] at few
  rw [List.map_append, List.map_singleton]
  exact parseFunction_decodes written.slice { c with funcs := done.map Func.typeIdx } next
    (by show (done.map Func.typeIdx).length < _; rw [List.length_map]; omega) (types ▸ valid)

theorem memory_chain (pos : Nat) (c : Contents) (fresh : c.memory = none) :
    Chain data pos (l.items secMemory Limits.bytes a.memory.toList) c { c with memory := a.memory } := by
  unfold Layout.items
  split
  · next absent =>
    have none : a.memory = .none := Option.toList_eq_nil_iff.mp absent.1
    rw [none, ← fresh]
    rfl
  · exact ⟨_, parseMemorySection_decodes written.slice c a.memory fresh, rfl⟩

theorem exports_chain (pos : Nat) (c : Contents) (fresh : c.exports = []) :
    Chain data pos (l.items secExport ExportItem.bytes a.exports) c { c with exports := a.exports } := by
  have few := a.exports_le
  have start : c = { c with exports := [] } := by rw [← fresh]
  rw [start]
  refine items_chain written.slice (fun done => { c with exports := done }) (Nat.lt_of_le_of_lt few (by decide))
    (fun _ => rfl) ?_
  intro done next rest all
  rw [all, List.length_append, List.length_cons] at few
  exact parseExport_decodes written.slice { c with exports := done } next (by show done.length < _; omega)

theorem code_chain (pos : Nat) (c : Contents) (fresh : c.bodies = []) :
    Chain data pos (l.items secCode Func.bodyBytes a.funcs) c { c with bodies := a.bodiesFrom pos } := by
  have few := a.funcs_le
  unfold bodiesFrom
  generalize from_ : itemsStart pos Func.bodyBytes a.funcs = start
  have empty : c = { c with bodies := placed Func.bodyBytes Func.bodyAt start [] } := by rw [placed, ← fresh]
  rw [empty]
  refine items_chain written.slice (fun done => { c with bodies := placed Func.bodyBytes Func.bodyAt start done })
    (Nat.lt_of_le_of_lt few (by decide)) (fun _ => rfl) ?_
  intro done next rest all
  have small := Nat.lt_of_le_of_lt (item_length all) (written.funcs_small (by rw [all]; simp))
  rw [Func.bodyBytes, counted, List.length_append] at small
  rw [all, List.length_append, List.length_cons] at few
  rw [← itemsStart, from_, placed_append]
  exact parseBody_decodes written.slice { c with bodies := placed Func.bodyBytes Func.bodyAt start done } next
    (by show (placed ..).length < _; rw [placed_length]; omega) (by omega)

theorem data_chain (pos : Nat) (c : Contents) (fresh : c.segments = []) :
    Chain data pos (l.items secData Segment.bytesOf a.segments) c { c with segments := a.segmentsFrom pos } := by
  have few := a.segments_le
  unfold segmentsFrom
  generalize from_ : itemsStart pos Segment.bytesOf a.segments = start
  have empty : c = { c with segments := placed Segment.bytesOf Segment.segmentAt start [] } := by rw [placed, ← fresh]
  rw [empty]
  refine items_chain written.slice (fun done => { c with segments := placed Segment.bytesOf Segment.segmentAt start done })
    (Nat.lt_of_le_of_lt few (by decide)) (fun _ => rfl) ?_
  intro done next rest all
  have small := Nat.lt_of_le_of_lt (item_length all) (written.segments_small (by rw [all]; simp))
  simp only [Segment.bytesOf, counted, List.length_append] at small
  rw [all, List.length_append, List.length_cons] at few
  rw [← itemsStart, from_, placed_append]
  exact parseDataSegment_decodes written.slice { c with segments := placed Segment.bytesOf Segment.segmentAt start done }
    next (by show (placed ..).length < _; rw [placed_length]; omega) (by omega)

theorem sections_chain : Chain data 8 (a.sections l) {} (a.contents l) := by
  have gap := fun {pos c} i => @gap_chain data pos written.slice l i c
  have before : Chain data 8 (a.beforeCode l) {}
      ⟨a.types, a.funcImports, a.funcs.map Func.typeIdx, a.memory, a.exports, [], []⟩ := ((((((((((gap 0).append (written.types_chain _ {} rfl)).append (gap 1)).append
    (written.imports_chain _ _ rfl rfl)).append (gap 2)).append (written.functions_chain _ _ rfl rfl)).append
    (gap 3)).append (written.memory_chain _ _ rfl)).append (gap 4)).append (written.exports_chain _ _ rfl)).append (gap 5)
  have code := (before.append (written.code_chain _ _ rfl)).append (gap 6)
  rw [sections_eq]
  exact (code.append (written.data_chain _ _ rfl)).append (gap 7)

/-- The parser accepts the encoding and ends with the module's contents. -/
theorem parse_ok : parse data = .ok (a.contents l).module := by
  have same : data = wasmMagic ++ (wasmVersion ++ ((a.sections l).flatMap Section.bytes ++ [])) := by
    rw [written.same, encode, List.append_nil, List.append_assoc]
  have place : At data 8 ((a.sections l).flatMap Section.bytes) := by
    refine ⟨wasmMagic ++ wasmVersion, [], ?_, rfl⟩
    rw [same, List.append_assoc]
  have length : data.length = 8 + ((a.sections l).flatMap Section.bytes).length := by
    rw [same, List.append_nil, List.length_append, List.length_append]
    simp only [wasmMagic, wasmVersion, List.length_cons, List.length_nil]
    omega
  have enough : (a.sections l).length < data.length + 1 := by
    have count := sections_length (a.sections l)
    omega
  have walked := parseSections_chain written.slice written.sizes written.sections_chain place length.symm enough
  have bodies : (a.contents l).funcs.length = (a.contents l).bodies.length := by
    rw [contents, bodiesFrom, placed_length, List.length_map]
  have result : parseModule data {} = .ok () ⟨data.length, (a.contents l).module⟩ := by
    rw [parseModule]
    refine bind_eq_ok.mpr ⟨(), _, failIf_eq_ok.mpr ⟨by omega, rfl⟩, bind_eq_ok.mpr ⟨(), _, failIf_eq_ok.mpr ⟨?_, rfl⟩,
      bind_eq_ok.mpr ⟨(), _, failIf_eq_ok.mpr ⟨?_, rfl⟩, bind_eq_ok.mpr ⟨(), _, modify_eq_ok.mpr rfl,
        bind_eq_ok.mpr ⟨(), _, walked, bind_eq_ok.mpr ⟨_, _, get_eq_ok.mpr ⟨rfl, rfl⟩, failIf_eq_ok.mpr ⟨?_, rfl⟩⟩⟩⟩⟩⟩⟩
    · rw [same]
      simp [wasmMagic]
    · rw [same]
      simp [wasmMagic, wasmVersion]
    · exact fun missing => missing.2.2 bodies
  rw [parse, result]

end AbstractModule.Written

end GooseOs.Wasm
