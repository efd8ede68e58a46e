import GooseOs.Wasm.Decoding

/-!
The round trip: parsing an encoded module records exactly that module, and the two look-ups by
name agree with it.
-/

namespace GooseOs.Wasm

open Leb128

variable {ι ε σ : Type} {data : List Byte}

/-! ### Names -/

theorem sameFrom_eq {limit count j : Nat} {name s : List Byte} {st : σ} (fits : name.length ≤ limit)
    (left : name.length = j + count) (length : s.length = name.length) :
    (sameFrom (.ofList 0 name : FixedArray limit Byte) s count j : Prog ε σ Bool) st =
      .ok (decide (name.drop j = s.drop j)) st := by
  induction count generalizing j with
  | zero =>
    rw [List.drop_eq_nil_of_le (show name.length ≤ j by omega), List.drop_eq_nil_of_le (show s.length ≤ j by omega)]
    rfl
  | succ count ih =>
    have inside : j < name.length := by omega
    have inside' : j < s.length := by omega
    rw [sameFrom]
    refine bind_eq_ok.mpr ⟨_, _, FixedArray.load_ofList (by omega) (List.getElem?_eq_getElem inside), ?_⟩
    rw [List.getElem?_eq_getElem inside', List.drop_eq_getElem_cons inside, List.drop_eq_getElem_cons inside']
    dsimp only
    by_cases same : name[j] = s[j]
    · rw [if_neg (not_not.mpr same), ih (by omega), same]
      simp only [List.cons.injEq, true_and]
    · rw [if_pos same, decide_eq_false fun all => same (List.cons.inj all).1]
      rfl

theorem nameEq_recorded (e : ExportItem) (s : List Byte) (st : σ) :
    (e.recorded.nameEq s : Prog ε σ Bool) st = .ok (decide (e.name = s)) st := by
  rw [Export.nameEq]
  split
  · next differ =>
    have other : e.name ≠ s := fun same => differ (congrArg List.length same)
    rw [decide_eq_false other]
    rfl
  · next same => exact sameFrom_eq e.name_le (by show _ = 0 + e.name.length; omega) (not_not.mp same).symm

theorem isNamed_recorded (e : ExportItem) (name : List Byte) (kind : Byte) (st : σ) :
    (e.recorded.isNamed name kind : Prog ε σ Bool) st = .ok (decide (e.kind.byte = kind ∧ e.name = name)) st := by
  rw [Export.isNamed]
  by_cases same : e.kind.byte = kind
  · rw [if_pos (show e.recorded.kind = kind from same), nameEq_recorded]
    simp [same]
  · rw [if_neg (show ¬ e.recorded.kind = kind from same), decide_eq_false fun both => same both.1]
    rfl

/-- The first export of that kind and name. -/
def AbstractModule.exported (a : AbstractModule) (name : List Byte) (kind : Byte) : Option (BitVec 32) :=
  (a.exports.find? fun e => e.kind.byte = kind ∧ e.name = name).map ExportItem.index

theorem findExportFrom_eq (c : Contents) (few : c.exports.length ≤ maxExports) (name : List Byte) (kind : Byte) (st : σ)
    {count i : Nat} (left : c.exports.length = i + count) :
    (c.module.findExportFrom name kind count i : Prog ε σ _) st =
      .ok (((c.exports.drop i).find? fun e => e.kind.byte = kind ∧ e.name = name).map ExportItem.index) st := by
  induction count generalizing i with
  | zero =>
    rw [List.drop_eq_nil_of_le (show c.exports.length ≤ i by omega)]
    rfl
  | succ count ih =>
    have inside : i < c.exports.length := by omega
    have there : (c.exports.map ExportItem.recorded)[i]? = some c.exports[i].recorded := by
      rw [List.getElem?_map, List.getElem?_eq_getElem inside]
      rfl
    rw [WasmModule.findExportFrom]
    refine bind_eq_ok.mpr ⟨_, _, FixedArray.load_ofList (by omega) there,
      bind_eq_ok.mpr ⟨_, _, isNamed_recorded c.exports[i] name kind st, ?_⟩⟩
    rw [List.drop_eq_getElem_cons inside, List.find?_cons]
    cases decide (c.exports[i].kind.byte = kind ∧ c.exports[i].name = name) with
    | true => rfl
    | false => exact ih (by omega)

theorem importNameEq_eq (c : Contents) (few : c.imports.length ≤ maxImports)
    (short : ∀ f ∈ c.imports, f.1.length ≤ maxImportName) (i : Nat) (s : List Byte) (st : σ) :
    (c.module.importNameEq i s : Prog ε σ Bool) st = .ok (decide (c.imports[i]?.map Prod.fst = some s)) st := by
  rw [WasmModule.importNameEq]
  split
  · next outside =>
    rw [List.getElem?_eq_none (show c.imports.length ≤ i from outside)]
    rfl
  · next within =>
    have inside : i < c.imports.length := Nat.not_le.mp within
    have member := short _ (List.getElem_mem inside)
    have entry : ∀ {β : Type} (f : List Byte × BitVec 32 → β), (c.imports.map f)[i]? = some (f c.imports[i]) := by
      intro β f
      rw [List.getElem?_map, List.getElem?_eq_getElem inside]
      rfl
    refine bind_eq_ok.mpr ⟨_, _, FixedArray.load_ofList (by omega) (entry fun f => f.1.length), ?_⟩
    rw [List.getElem?_eq_getElem inside, Option.map_some]
    split
    · next differ =>
      have other : ¬ c.imports[i].1 = s := fun same => differ (congrArg List.length same)
      simp [other]
    · next same =>
      refine bind_eq_ok.mpr ⟨_, _, FixedArray.load_ofList (by omega) (entry fun f => (.ofList 0 f.1 : FixedArray maxImportName Byte)), ?_⟩
      rw [sameFrom_eq member (by omega) (not_not.mp same).symm]
      simp

/-! ### What is recorded -/

/-- Everything before item `i` of the section that follows these. -/
def leading (before : List Section) (id : Byte) (enc : ι → List Byte) (xs : List ι) (i : Nat) : List Byte :=
  wasmMagic ++ wasmVersion ++ before.flatMap Section.bytes ++ [id] ++ unsigned (vec enc xs).length ++
    unsigned xs.length ++ (xs.take i).flatMap enc

theorem leading_length (before : List Section) (id : Byte) (enc : ι → List Byte) (xs : List ι) (i : Nat) :
    (leading before id enc xs i).length =
      AbstractModule.itemsStart (AbstractModule.endOf before) enc xs + ((xs.take i).flatMap enc).length := by
  simp only [leading, AbstractModule.itemsStart, AbstractModule.endOf, List.length_append, wasmMagic, wasmVersion,
    List.length_cons, List.length_nil]

theorem leading_append {l : Layout} {before after : List Section} {id : Byte} {enc : ι → List Byte} {xs : List ι} {i : Nat}
    {x : ι} (there : xs[i]? = some x) : ∃ behind,
      wasmMagic ++ wasmVersion ++ (before ++ l.items id enc xs ++ after).flatMap Section.bytes =
        leading before id enc xs i ++ (enc x ++ behind) := by
  obtain ⟨inside, rfl⟩ := List.getElem?_eq_some_iff.mp there
  have split : xs.flatMap enc = (xs.take i).flatMap enc ++ (enc xs[i] ++ (xs.drop (i + 1)).flatMap enc) := by
    rw [← List.flatMap_cons, ← List.drop_eq_getElem_cons inside, ← List.flatMap_append, List.take_append_drop]
  have some : xs ≠ [] := List.ne_nil_of_length_pos (Nat.lt_of_le_of_lt (Nat.zero_le i) inside)
  refine ⟨(xs.drop (i + 1)).flatMap enc ++ after.flatMap Section.bytes, ?_⟩
  rw [Layout.items, if_neg fun empty => some empty.1, List.flatMap_append, List.flatMap_append, List.flatMap_singleton,
    leading, Section.bytes, counted]
  conv => lhs; rw [show ∀ n, unsigned n ++ vec enc xs = unsigned n ++ (unsigned xs.length ++ xs.flatMap enc) from fun _ => rfl]
  rw [split]
  simp only [List.append_assoc]

/-- The parsed module holds the abstract one, each body and each data segment at its place in the encoding. -/
structure Recorded (a : AbstractModule) (l : Layout) (m : WasmModule) : Prop where
  typeCount : m.typeCount = a.types.length
  types : ∀ i s, a.types[i]? = some s → m.types.at? i = some s.funcType
  importCount : m.importCount = a.funcImports.length
  imports : ∀ i name typeIdx, a.funcImports[i]? = some (name, typeIdx) → m.importTypes.at? i = some typeIdx ∧
    m.importNames.at? i = some (.ofList 0 name) ∧ m.importNameLens.at? i = some name.length
  funcCount : m.funcCount = a.funcs.length
  funcTypes : ∀ i f, a.funcs[i]? = some f → m.funcTypes.at? i = some f.typeIdx
  hasMemory : m.hasMemory = a.memory.isSome
  memory : ∀ limits, a.memory = some limits → m.memory = limits.recorded
  exportCount : m.exportCount = a.exports.length
  exports : ∀ i e, a.exports[i]? = some e → m.exports.at? i = some e.recorded
  bodyCount : m.bodyCount = a.funcs.length
  bodies : ∀ i f, a.funcs[i]? = some f → ∃ before behind, a.encode l = before ++ (f.code.bytes ++ behind) ∧
    before = leading (a.beforeCode l) secCode Func.bodyBytes a.funcs i ++ unsigned f.code.bytes.length ∧
    m.bodies.at? i = some { offset := before.length, length := f.code.bytes.length }
  segmentCount : m.dataSegmentCount = a.segments.length
  segments : ∀ i s, a.segments[i]? = some s → ∃ before behind, a.encode l = before ++ (s.bytes ++ behind) ∧
    before = leading (a.beforeData l) secData Segment.bytesOf a.segments i ++ s.lead ∧
    m.dataSegments.at? i =
      some { offset := BitVec.ofNat 32 s.offset, dataOffset := before.length, dataLen := s.bytes.length }
  findExport : ∀ {ε σ : Type} (st : σ) (name : List Byte) (kind : Byte),
    (m.findExport name kind : Prog ε σ _) st = .ok (a.exported name kind) st
  importNameEq : ∀ {ε σ : Type} (st : σ) (i : Nat) (name : List Byte),
    (m.importNameEq i name : Prog ε σ Bool) st = .ok (decide (a.funcImports[i]?.map Prod.fst = some name)) st

open AbstractModule

theorem recorded (a : AbstractModule) (l : Layout) : Recorded a l (a.contents l).module where
  typeCount := rfl
  types i s there := by
    have inside : i < a.types.length := (List.getElem?_eq_some_iff.mp there).1
    have few := a.types_le
    exact FixedArray.ofList_at? (by omega) (by rw [List.getElem?_map, contents, there]; rfl)
  importCount := rfl
  imports i name typeIdx there := by
    have inside : i < a.funcImports.length := (List.getElem?_eq_some_iff.mp there).1
    have few : a.funcImports.length ≤ maxImports := a.imports_le
    have entry : ∀ {β : Type} (f : List Byte × BitVec 32 → β), (a.funcImports.map f)[i]? = some (f (name, typeIdx)) := by
      intro β f
      rw [List.getElem?_map, there]
      rfl
    exact ⟨FixedArray.ofList_at? (by omega) (entry Prod.snd),
      FixedArray.ofList_at? (by omega) (entry fun f => (.ofList 0 f.1 : FixedArray maxImportName Byte)),
      FixedArray.ofList_at? (by omega) (entry fun f => f.1.length)⟩
  funcCount := List.length_map _
  funcTypes i f there := by
    have inside : i < a.funcs.length := (List.getElem?_eq_some_iff.mp there).1
    have few := a.funcs_le
    exact FixedArray.ofList_at? (by omega) (by rw [contents, List.getElem?_map, there]; rfl)
  hasMemory := rfl
  memory limits there := by
    rw [Contents.module, contents, there]
    rfl
  exportCount := rfl
  exports i e there := by
    have inside : i < a.exports.length := (List.getElem?_eq_some_iff.mp there).1
    have few := a.exports_le
    exact FixedArray.ofList_at? (by omega) (by rw [List.getElem?_map, contents, there]; rfl)
  bodyCount := placed_length _
  bodies i f there := by
    have inside : i < a.funcs.length := (List.getElem?_eq_some_iff.mp there).1
    have few := a.funcs_le
    obtain ⟨behind, split⟩ := @leading_append _ l (a.beforeCode l) (a.afterCode l) secCode Func.bodyBytes _ _ _ there
    refine ⟨_, behind, ?_, rfl, FixedArray.ofList_at? (by omega) ?_⟩
    · rw [AbstractModule.encode, AbstractModule.sections, split, Func.bodyBytes, counted, List.append_assoc, List.append_assoc]
    · rw [contents, bodiesFrom, placed_getElem? there, Func.bodyAt, List.length_append, leading_length]
  segmentCount := placed_length _
  segments i s there := by
    have inside : i < a.segments.length := (List.getElem?_eq_some_iff.mp there).1
    have few := a.segments_le
    obtain ⟨behind, split⟩ := @leading_append _ l (a.beforeData l) (l.gap 7) secData Segment.bytesOf _ _ _ there
    refine ⟨_, behind, ?_, rfl, FixedArray.ofList_at? (by omega) ?_⟩
    · rw [AbstractModule.encode, sections_eq, split, Segment.bytesOf, Segment.lead, counted]
      simp only [List.append_assoc]
    · rw [contents, segmentsFrom, placed_getElem? there, Segment.segmentAt, List.length_append, leading_length]
  findExport st name kind := by
    rw [WasmModule.findExport]
    exact findExportFrom_eq (a.contents l) a.exports_le name kind st (Nat.zero_add _).symm
  importNameEq st i name :=
    importNameEq_eq (a.contents l) a.imports_le (fun f member => (a.imports_valid f member).1) i name st

/-- Parsing undoes encoding. -/
theorem parse_encode {a : AbstractModule} {l : Layout} (written : a.Written l data) :
    ∃ m, parse data = .ok m ∧ Recorded a l m := ⟨_, written.parse_ok, recorded a l⟩

/-! The signatures of `fd_write` and of a function without parameters are within the limits. -/

theorem fdWrite_params : [ValType.i32, .i32, .i32, .i32].length ≤ maxParams := by decide

theorem fdWrite_results : [ValType.i32].length ≤ maxResults := by decide

theorem start_params : ([] : List ValType).length ≤ maxParams := by decide

theorem start_results : ([] : List ValType).length ≤ maxResults := by decide

theorem segment_offset : 100 < 2 ^ 31 := by decide

/-- An import of a function and one of a global, a function of each type, and a custom section in between. -/
def sampleModule : AbstractModule where
  types := [⟨[.i32, .i32, .i32, .i32], [.i32], fdWrite_params, fdWrite_results⟩, ⟨[], [], start_params, start_results⟩]
  imports := [⟨[0x77, 0x61, 0x73, 0x69], [0x66, 0x64], .func 0⟩, ⟨[0x6A, 0x73], [0x67], .global .i64 true⟩]
  funcs := [⟨1, ⟨[(2, .i32)], [0x0B]⟩⟩, ⟨0, ⟨[], [0x41, 0x2A, 0x0B]⟩⟩]
  memory := some ⟨1, some 300⟩
  exports := [⟨[0x5F, 0x73], .func, 1, by decide⟩, ⟨[0x6D], .memory, 0, by decide⟩]
  segments := [⟨100, [0x48, 0x69], segment_offset⟩]
  types_le := by decide
  imports_le := by decide
  imports_valid := by decide
  funcs_le := by decide
  funcs_valid := by decide
  exports_le := by decide
  segments_le := by decide

def sampleLayout : Layout where
  gaps i := if i = 3 then [⟨.custom, [0x01, 0x61, 0xFF]⟩] else []
  written _ := false

theorem parse_encode_sample : ∃ m, parse (sampleModule.encode sampleLayout) = .ok m ∧ Recorded sampleModule sampleLayout m :=
  parse_encode ⟨rfl, by decide, by decide⟩

end GooseOs.Wasm
