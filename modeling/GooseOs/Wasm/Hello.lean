import GooseOs.Wasm.DataSegments
import GooseOs.Wasm.RoundTrip
import GooseOs.Wasm.Straight

/-!
A binary that writes a message: from its bytes to what the serial port gets, for messages of every
length that fits behind offset 100 of a page.
-/

namespace GooseOs.Wasm

open Leb128

/-! ### The binary -/

def fdWriteName : List Byte := ascii ['f', 'd', '_', 'w', 'r', 'i', 't', 'e']

def memoryName : List Byte := ascii ['m', 'e', 'm', 'o', 'r', 'y']

/-- `wasi_snapshot_preview1` -/
def previewName : List Byte :=
  ascii ['w', 'a', 's', 'i', '_', 's', 'n', 'a', 'p', 's', 'h', 'o', 't', '_', 'p', 'r', 'e', 'v', 'i', 'e', 'w', '1']

/-- `Hello from WASM!` and a line feed. -/
def helloMessage : List Byte :=
  ascii ['H', 'e', 'l', 'l', 'o', ' ', 'f', 'r', 'o', 'm', ' ', 'W', 'A', 'S', 'M', '!', '\n']

/-- `HELLO_WASM` -/
def helloWasm : List Byte :=
  [0x00, 0x61, 0x73, 0x6D, 0x01, 0x00, 0x00, 0x00] ++
  [0x01, 0x0C, 0x02, 0x60, 0x04, 0x7F, 0x7F, 0x7F, 0x7F, 0x01, 0x7F, 0x60, 0x00, 0x00] ++
  [0x02, 0x23, 0x01, 0x16] ++ previewName ++ [0x08] ++ fdWriteName ++ [0x00, 0x00] ++
  [0x03, 0x02, 0x01, 0x01] ++
  [0x05, 0x03, 0x01, 0x00, 0x01] ++
  [0x07, 0x13, 0x02, 0x06] ++ startName ++ [0x00, 0x01, 0x06] ++ memoryName ++ [0x02, 0x00] ++
  [0x0A, 0x1E, 0x01, 0x1C, 0x00] ++
  [0x41, 0x00, 0x41, 0xE4, 0x00, 0x36, 0x02, 0x00] ++
  [0x41, 0x04, 0x41, 0x11, 0x36, 0x02, 0x00] ++
  [0x41, 0x01, 0x41, 0x00, 0x41, 0x01, 0x41, 0x08, 0x10, 0x00, 0x1A, 0x0B] ++
  [0x0B, 0x18, 0x01, 0x00, 0x41, 0xE4, 0x00, 0x0B, 0x11] ++ helloMessage

def constBytes (k : Nat) : List Byte := [0x41] ++ signed k

def storeBytes : List Byte := [0x36] ++ (unsigned 2 ++ unsigned 0)

/-- The code of `_start` for a message of `length` bytes. -/
def startCode (length : Nat) : List Byte :=
  constBytes 0 ++ (constBytes 100 ++ (storeBytes ++ (constBytes 4 ++ (constBytes length ++ (storeBytes ++
    (constBytes 1 ++ (constBytes 0 ++ (constBytes 1 ++ (constBytes 8 ++ ([0x10] ++ unsigned 0 ++
      ([0x1A] ++ [0x0B])))))))))))

/-- The module of `HELLO_WASM` with another message. -/
def helloModule (s : List Byte) : AbstractModule where
  types := [⟨[.i32, .i32, .i32, .i32], [.i32], fdWrite_params, fdWrite_results⟩, ⟨[], [], start_params, start_results⟩]
  imports := [⟨previewName, fdWriteName, .func 0⟩]
  funcs := [⟨1, ⟨[], startCode s.length⟩⟩]
  memory := some ⟨1, none⟩
  exports := [⟨startName, .func, 1, by decide⟩, ⟨memoryName, .memory, 0, by decide⟩]
  segments := [⟨100, s, segment_offset⟩]
  types_le := by simp [maxTypes]
  imports_le := by simp [Import.func?, maxImports]
  imports_valid := by simp [Import.func?, fdWriteName, ascii, maxImportName]
  funcs_le := by simp [maxFuncs]
  funcs_valid := by simp
  exports_le := by simp [maxExports]
  segments_le := by simp [maxDataSegs]

/-- Nothing but the sections with items. -/
def plainLayout : Layout where
  gaps _ := []
  written _ := false

/-- `HELLO_WASM` with another message, every length in its canonical encoding. -/
def helloWith (s : List Byte) : List Byte := (helloModule s).encode plainLayout

theorem helloWith_message : helloWith helloMessage = helloWasm := by decide

section Written
variable {s : List Byte}

theorem startCode_length (length : Nat) : (startCode length).length = 26 + (signed length).length := by
  have closed : startCode length =
      (constBytes 0 ++ constBytes 100 ++ storeBytes ++ constBytes 4 ++ [0x41]) ++ (signed length ++ (storeBytes ++
        (constBytes 1 ++ (constBytes 0 ++ (constBytes 1 ++ (constBytes 8 ++ ([0x10] ++ unsigned 0 ++ ([0x1A] ++ [0x0B])))))))) := by
    simp only [startCode, constBytes, List.append_assoc]
  rw [closed, List.length_append, @List.length_append _ (signed length)]
  generalize (signed length).length = k
  show 11 + (k + 15) = 26 + k
  omega

theorem helloModule_sections : (helloModule s).sections plainLayout =
    [(secType, vec Signature.bytes (helloModule s).types), (secImport, vec Import.bytes (helloModule s).imports),
      (secFunction, vec Func.typeBytes (helloModule s).funcs), (secMemory, vec Limits.bytes (helloModule s).memory.toList),
      (secExport, vec ExportItem.bytes (helloModule s).exports), (secCode, vec Func.bodyBytes (helloModule s).funcs),
      (secData, vec Segment.bytesOf (helloModule s).segments)] := rfl

theorem sections_length_le {limit : Nat} {sections : List Section} (small : ∀ x ∈ sections, x.2.length ≤ limit) :
    (sections.flatMap Section.bytes).length ≤ sections.length * (limit + 6) := by
  induction sections with
  | nil => simp
  | cons x rest ih =>
    have first := small x (List.mem_cons_self ..)
    have later := ih fun y member => small y (List.mem_cons_of_mem _ member)
    have counts := unsigned_length x.2.length
    simp only [List.flatMap_cons, Section.bytes, counted, List.length_append, List.length_cons, List.length_nil] at *
    rw [Nat.add_mul]
    omega

theorem helloWith_written (fits : s.length ≤ 65436) : (helloModule s).Written plainLayout (helloWith s) := by
  have length := signed_length s.length
  have length' := unsigned_length s.length
  have code : (vec Func.bodyBytes (helloModule s).funcs).length ≤ 100 := by
    have body := unsigned_length (Code.bytes ⟨[], startCode s.length⟩).length
    have first := startCode_length s.length
    have counts := unsigned_length (helloModule s).funcs.length
    have locals := unsigned_length ([] : List (BitVec 32 × ValType)).length
    simp only [vec, helloModule, List.flatMap_cons, List.flatMap_nil, Func.bodyBytes, counted, Code.bytes,
      List.length_append, List.length_nil] at *
    omega
  have data : (vec Segment.bytesOf (helloModule s).segments).length ≤ s.length + 20 := by
    have offset := signed_length 100
    have counts := unsigned_length (helloModule s).segments.length
    simp only [vec, helloModule, List.flatMap_cons, List.flatMap_nil, Segment.bytesOf, counted,
      List.length_append, List.length_nil, List.length_cons] at *
    omega
  have types : (vec Signature.bytes (helloModule s).types).length = 12 := rfl
  have imports : (vec Import.bytes (helloModule s).imports).length = 35 := rfl
  have functions : (vec Func.typeBytes (helloModule s).funcs).length = 2 := rfl
  have memory : (vec Limits.bytes (helloModule s).memory.toList).length = 3 := rfl
  have exports : (vec ExportItem.bytes (helloModule s).exports).length = 19 := rfl
  have sizes : ∀ x ∈ (helloModule s).sections plainLayout, x.2.length ≤ 65456 := by
    rw [helloModule_sections]
    simp only [List.mem_cons, List.not_mem_nil, or_false, forall_eq_or_imp, forall_eq]
    omega
  refine ⟨rfl, fun x member => Nat.lt_of_le_of_lt (sizes x member) (by decide), ?_⟩
  have total := sections_length_le sizes
  have seven : ((helloModule s).sections plainLayout).length = 7 := rfl
  rw [seven] at total
  rw [helloWith, AbstractModule.encode, List.length_append]
  refine Nat.lt_of_le_of_lt (Nat.add_le_add (Nat.le_refl _) total) ?_
  simp [wasmMagic, wasmVersion]

end Written

/-! ### Memory -/

section Memory
variable {n : Nat} {memory : LinearMemory n} {addr : Nat} {val : BitVec 32} {s : List Byte}

theorem writeLe_at? {x : Nat} (outside : x < addr ∨ addr + 4 ≤ x) : (memory.writeLe addr val).at? x = memory.at? x := by
  unfold FixedArray.at? LinearMemory.writeLe
  split
  · rw [if_neg (by show ¬ (addr ≤ x ∧ x < addr + 4); omega)]
  · rfl

theorem word_of_bytes :
    val.extractLsb' 24 8 ++ val.extractLsb' 16 8 ++ val.extractLsb' 8 8 ++ val.extractLsb' 0 8 = val := by
  apply BitVec.eq_of_getLsbD_eq
  intro i inside
  simp only [BitVec.getLsbD_append, BitVec.getLsbD_extractLsb']
  grind

theorem readU32Le_written (inside : addr + 4 ≤ n) : readU32Le (memory.writeLe addr val) addr = .ok val := by
  have byte : ∀ k (inside : addr + k < n), k < 4 →
      memory.writeLe addr val ⟨addr + k, inside⟩ = val.extractLsb' (8 * k) 8 := by
    intro k inside small
    unfold LinearMemory.writeLe
    rw [if_pos (by show addr ≤ addr + k ∧ addr + k < addr + 4; omega)]
    show val.extractLsb' (8 * (addr + k - addr)) 8 = _
    rw [Nat.add_sub_cancel_left]
  rw [readU32Le, dif_pos inside, byte 3 _ (by decide), byte 2 _ (by decide), byte 1 _ (by decide),
    show memory.writeLe addr val ⟨addr, _⟩ = val.extractLsb' 0 8 from byte 0 (by omega) (by decide), word_of_bytes]

theorem readU32Le_other {addr' : Nat} (apart : addr' + 4 ≤ addr ∨ addr + 4 ≤ addr') :
    readU32Le (memory.writeLe addr val) addr' = readU32Le memory addr' := by
  have same : ∀ k (inside : addr' + k < n), k < 4 →
      memory.writeLe addr val ⟨addr' + k, inside⟩ = memory ⟨addr' + k, inside⟩ := by
    intro k inside small
    exact if_neg (by show ¬ (addr ≤ addr' + k ∧ addr' + k < addr + 4); omega)
  rw [readU32Le, readU32Le]
  split
  · rw [same 3 _ (by decide), same 2 _ (by decide), same 1 _ (by decide),
      show memory.writeLe addr val ⟨addr', _⟩ = memory ⟨addr', _⟩ from same 0 (by omega) (by decide)]
  · rfl

/-- The bytes at an address, when each of them is known. -/
theorem bytes_of_at? (there : ∀ j b, s[j]? = some b → memory.at? (addr + j) = some b) : memory.bytes addr s.length = s := by
  induction s using List.reverseRecOn with
  | nil => rfl
  | append_singleton s b ih =>
    have before := ih fun j b' there' => there j b' (by
      rw [List.getElem?_append_left (List.getElem?_eq_some_iff.mp there').1, there'])
    have last := there s.length b List.getElem?_concat_length
    unfold LinearMemory.bytes at before ⊢
    rw [List.length_append, List.length_singleton, List.range_succ, List.filterMap_append, before]
    simp only [List.filterMap_cons, List.filterMap_nil, last]

/-- A segment that fits brings its bytes. -/
theorem initSegment_at? {data bytes : List Byte} {seg : DataSegment} {ε σ : Type} {st : σ} (slice : data.length < 2 ^ 63)
    (place : At data seg.dataOffset bytes) (length : seg.dataLen = bytes.length)
    (inside : seg.offset.toNat + bytes.length ≤ n) :
    ∃ after : LinearMemory n, (initSegment data seg memory : Prog ε σ (LinearMemory n)) st = .ok after st ∧
      ∀ j b, bytes[j]? = some b → after.at? (seg.offset.toNat + j) = some b := by
  have whole := place.le
  refine ⟨_, initSegment_eq_ok slice (length ▸ whole), fun j b there => ?_⟩
  have within := (List.getElem?_eq_some_iff.mp there).1
  have fits : seg.Fits n := by
    rw [DataSegment.Fits, length]
    exact inside
  have written : (seg.patch data).at? (seg.offset.toNat + j) = some b := by
    show Patch.at? ⟨seg.offset.toNat, _⟩ _ = _
    rw [Patch.at?_inside, length, place.take, there]
  rw [if_pos fits, FixedArray.at?, dif_pos (by omega), FixedArray.patch_inside _ written]

theorem writeBuffers_one {b : WasiBridge} {iovsPtr nwrittenPtr : Nat} {bufPtr bufLen : BitVec 32}
    (first : readU32Le memory iovsPtr = .ok bufPtr) (second : readU32Le memory (iovsPtr + 4) = .ok bufLen)
    (inside : bufPtr.toNat + bufLen.toNat ≤ n) (inside' : nwrittenPtr + 4 ≤ n) :
    WasiBridge.writeBuffers memory iovsPtr nwrittenPtr 1 0 b 0 =
      (.ok (some 0), b.emitBytes (memory.bytes bufPtr.toNat bufLen.toNat), memory.writeLe nwrittenPtr bufLen) := by
  have sum : 0 + bufLen = bufLen := BitVec.zero_add bufLen
  simp only [WasiBridge.writeBuffers, Nat.zero_mul, Nat.add_zero, first, second, writeU32Le, sum]
  rw [if_neg (Nat.not_lt.mpr inside), if_pos inside']

end Memory

/-! ### The run -/

section Run
variable {s : List Byte} {m : WasmModule} {ε σ : Type}

/-- The bridge that knows `fd_write` as import 0. -/
def helloBridge : WasiBridge where
  dispatch := Function.update (fun _ => .unknown) ⟨0, by decide⟩ .fdWrite
  importCount := 1

theorem fromModule_hello (recorded : Recorded (helloModule s) plainLayout m) (st : σ) :
    (WasiBridge.fromModule m : Prog ε σ WasiBridge) st = .ok helloBridge st := by
  have named : (matchWasiName m 0 : Prog ε σ WasiFunc) st = .ok .fdWrite st :=
    bind_eq_ok.mpr ⟨true, _, recorded.importNameEq st 0 fdWriteName, rfl⟩
  have count : m.importCount = 1 := recorded.importCount
  rw [WasiBridge.fromModule, count]
  exact bind_eq_ok.mpr ⟨_, _, bind_eq_ok.mpr ⟨_, _, named, bind_eq_ok.mpr ⟨_, _,
    store_eq_ok.mpr ⟨by decide, rfl, rfl⟩, rfl⟩⟩, rfl⟩

theorem initDataSegments_hello (slice : (helloWith s).length < 2 ^ 63) (recorded : Recorded (helloModule s) plainLayout m)
    (fits : s.length ≤ 65436) (st : σ) :
    ∃ memory : LinearMemory 65536,
      (initDataSegments m (helloWith s) (fun _ => 0) : Prog ε σ (LinearMemory 65536)) st = .ok memory st ∧
      ∀ j b, s[j]? = some b → memory.at? (100 + j) = some b := by
  obtain ⟨before, behind, split, -, segment⟩ := recorded.segments 0 _ rfl
  have count : m.dataSegmentCount = 1 := recorded.segmentCount
  have place : At (helloWith s) before.length s := ⟨before, behind, split, rfl⟩
  obtain ⟨memory, filled, there⟩ := @initSegment_at? 65536 (fun _ => 0) (helloWith s) s ⟨100, before.length, s.length⟩ ε σ st
    slice place rfl (by show 100 + s.length ≤ 65536; omega)
  refine ⟨memory, ?_, there⟩
  rw [initDataSegments, count]
  exact bind_eq_ok.mpr ⟨_, _, load_of_at? segment, bind_eq_ok.mpr ⟨_, _, filled, rfl⟩⟩

/-- The answer to the one call: the message is written, then its length. -/
theorem fdWrite_hello {memory : LinearMemory 65536} {bridge : WasiBridge} (count : bridge.importCount = 1)
    (dispatch : bridge.dispatch.at? 0 = some .fdWrite) (first : readU32Le memory 0 = .ok 100)
    (second : readU32Le memory 4 = .ok (BitVec.ofNat 32 s.length)) (fits : s.length ≤ 65436)
    (there : ∀ j b, s[j]? = some b → memory.at? (100 + j) = some b) :
    (wasi 65536).call bridge 0 [1, 0, 1, 8] memory =
      (.ok (some 0), bridge.emitBytes s, memory.writeLe 8 (BitVec.ofNat 32 s.length)) := by
  have length : (BitVec.ofNat 32 s.length).toNat = s.length := by
    rw [BitVec.toNat_ofNat]
    omega
  show bridge.call 0 [1, 0, 1, 8] memory = _
  rw [WasiBridge.call, if_neg (by rw [count]; decide), show bridge.dispatch.at? (0 : BitVec 32).toNat = _ from dispatch]
  have buffers := @writeBuffers_one _ memory bridge 0 8 100 (BitVec.ofNat 32 s.length) first second
    (by rw [length]; show 100 + s.length ≤ 65536; omega) (by decide)
  rw [length, show (100 : BitVec 32).toNat = 100 from rfl, bytes_of_at? there] at buffers
  exact buffers

theorem run_hello {p : Program} (recorded : Recorded (helloModule s) plainLayout p.module) (code : p.code = helloWith s)
    (imports : p.numImports = 1) (slice : p.code.length < 2 ^ 63) (fits : s.length ≤ 65436) {memory : LinearMemory 65536}
    (there : ∀ j b, s[j]? = some b → memory.at? (100 + j) = some b) :
    ∃ machine, (∀ fuel, callFunction p (wasi 65536) 1 [] (fuel + 13) { memory, host := helloBridge } =
        .ok (.done none) machine) ∧
      machine.host = helloBridge.emitBytes s ∧ readU32Le machine.memory 8 = .ok (BitVec.ofNat 32 s.length) := by
  obtain ⟨before, behind, split, -, body⟩ := recorded.bodies 0 _ rfl
  have place : At p.code before.length (unsigned 0 ++ startCode s.length) := ⟨before, behind, by rw [code]; exact split, rfl⟩
  have ends : before.length + (unsigned 0 ++ startCode s.length).length < 2 ^ 64 := by
    have whole := place.le
    omega
  have small : s.length < 2 ^ 31 := by omega
  obtain ⟨t₀, entered, stands₀⟩ := @Stands.enter _ _ p (startCode s.length) memory helloBridge slice 0 1 1 _ _
    (by rw [imports]; decide) (by rw [imports]; rfl) (by rw [show p.module.funcCount = 1 from recorded.funcCount]; decide)
    (recorded.funcTypes 0 _ rfl) (by rw [show p.module.typeCount = 2 from recorded.typeCount]; decide)
    (recorded.types 1 _ rfl) rfl body place ends
  -- the buffer's address and length go to 0 and 4
  obtain ⟨t₁, run₁, stands₁⟩ := @Stands.i32Const _ _ p (wasi 65536) _ _ _ _ _ _ slice 0 (by decide) (by decide) stands₀
  obtain ⟨t₂, run₂, stands₂⟩ := @Stands.i32Const _ _ p (wasi 65536) _ _ _ _ _ _ slice 100 (by decide) (by decide) stands₁
  obtain ⟨t₃, run₃, stands₃⟩ := @Stands.i32Store _ _ p (wasi 65536) _ _ _ [] _ _ slice 2 0 _ _ 0 (by decide) (by decide)
    (by decide) (by decide) stands₂
  obtain ⟨t₄, run₄, stands₄⟩ := @Stands.i32Const _ _ p (wasi 65536) _ _ _ _ _ _ slice 4 (by decide) (by decide) stands₃
  obtain ⟨t₅, run₅, stands₅⟩ := @Stands.i32Const _ _ p (wasi 65536) _ _ _ _ _ _ slice s.length small (by decide) stands₄
  obtain ⟨t₆, run₆, stands₆⟩ := @Stands.i32Store _ _ p (wasi 65536) _ _ _ [] _ _ slice 2 0 _ _ 4 (by decide) (by decide)
    (by decide) (by decide) stands₅
  -- the arguments of `fd_write`
  obtain ⟨t₇, run₇, stands₇⟩ := @Stands.i32Const _ _ p (wasi 65536) _ _ _ _ _ _ slice 1 (by decide) (by decide) stands₆
  obtain ⟨t₈, run₈, stands₈⟩ := @Stands.i32Const _ _ p (wasi 65536) _ _ _ _ _ _ slice 0 (by decide) (by decide) stands₇
  obtain ⟨t₉, run₉, stands₉⟩ := @Stands.i32Const _ _ p (wasi 65536) _ _ _ _ _ _ slice 1 (by decide) (by decide) stands₈
  obtain ⟨t₁₀, run₁₀, stands₁₀⟩ :=
    @Stands.i32Const _ _ p (wasi 65536) _ _ _ _ _ _ slice 8 (by decide) (by decide) stands₉
  have address : (BitVec.ofNat 64 100).setWidth 32 = (100 : BitVec 32) := by decide
  have count : (BitVec.ofNat 64 s.length).setWidth 32 = BitVec.ofNat 32 s.length := by
    apply BitVec.eq_of_toNat_eq
    rw [BitVec.toNat_setWidth, BitVec.toNat_ofNat, BitVec.toNat_ofNat]
    omega
  rw [address, count] at stands₁₀
  have first : readU32Le ((memory.writeLe 0 100).writeLe 4 (BitVec.ofNat 32 s.length)) 0 = .ok 100 := by
    rw [readU32Le_other (.inl (by decide)), readU32Le_written (by decide)]
  have second : readU32Le ((memory.writeLe 0 100).writeLe 4 (BitVec.ofNat 32 s.length)) 4 = .ok (BitVec.ofNat 32 s.length) :=
    readU32Le_written (by decide)
  have message : ∀ j b, s[j]? = some b →
      ((memory.writeLe 0 100).writeLe 4 (BitVec.ofNat 32 s.length)).at? (100 + j) = some b := by
    intro j b known
    rw [writeLe_at? (by omega), writeLe_at? (by omega), there j b known]
  have answer := @fdWrite_hello s _ helloBridge rfl rfl first second fits message
  obtain ⟨t₁₁, run₁₁, stands₁₁⟩ := @Stands.hostCall _ _ p (wasi 65536) _ _ _ [] _ _ slice 0 _ _ [1, 0, 1, 8] _ _ _
    (by decide) (by rw [imports]; decide) (recorded.imports 0 _ _ rfl).1 (recorded.types 0 _ rfl) rfl (by decide) (by decide)
    answer stands₁₀
  obtain ⟨t₁₂, run₁₂, stands₁₂⟩ := @Stands.drop _ _ p (wasi 65536) _ _ _ [] _ _ slice _ stands₁₁
  obtain ⟨t₁₃, run₁₃, ends, host⟩ := @Stands.lastEnd _ _ p (wasi 65536) _ _ _ _ _ slice rfl stands₁₂
  refine ⟨t₁₃, fun fuel => ?_, host, ?_⟩
  · have ran : run p (wasi 65536) (fuel + 13) t₀ = .ok (.done none) t₁₃ := by
      rw [run₁, run₂, run₃, run₄, run₅, run₆, run₇, run₈, run₉, run₁₀, run₁₁, run₁₂, run₁₃]
    exact bind_eq_ok.mpr ⟨(), _, rfl, bind_eq_ok.mpr ⟨(), _, entered, ran⟩⟩
  · rw [ends]
    exact readU32Le_written (by decide)

/-- The whole pipeline prints the message: thirteen rounds of the interpreter are enough. -/
theorem helloWith_prints (s : List Byte) (fits : s.length ≤ 65436) :
    ∃ m memory bridge start machine,
      parse (helloWith s) = .ok m ∧
      (initDataSegments m (helloWith s) (fun _ => 0) : Prog TrapKind Unit (LinearMemory 65536)) () = .ok memory () ∧
      (WasiBridge.fromModule m : Prog TrapKind Unit WasiBridge) () = .ok bridge () ∧
      (m.findExport startName exportFunc : Prog TrapKind Unit _) () = .ok (some start) () ∧
      (∀ fuel, callFunction ⟨m, helloWith s, BitVec.ofNat 32 m.importCount⟩ (wasi 65536) start [] (fuel + 13)
        { memory, host := bridge } = .ok (.done none) machine) ∧
      machine.host.output = s ∧ readU32Le machine.memory 8 = .ok (BitVec.ofNat 32 s.length) ∧
      ∀ fuel, runWasm (helloWith s) (fuel + 13) = .exited 0 (some machine) := by
  have written := helloWith_written fits
  obtain ⟨m, parsed, recorded⟩ := parse_encode written
  obtain ⟨memory, initialised, there⟩ := @initDataSegments_hello s m TrapKind Unit written.slice recorded fits ()
  have bridged := @fromModule_hello s m TrapKind Unit recorded ()
  have start : (m.findExport startName exportFunc : Prog TrapKind Unit _) () = .ok (some 1) () :=
    recorded.findExport () startName exportFunc
  have imports : BitVec.ofNat 32 m.importCount = 1 := by
    rw [recorded.importCount]
    rfl
  obtain ⟨machine, called, host, length⟩ :=
    @run_hello s ⟨m, helloWith s, BitVec.ofNat 32 m.importCount⟩ recorded rfl imports written.slice fits memory there
  have output : machine.host.output = s := by rw [host]; rfl
  have code : machine.host.exitCode = none := by rw [host]; rfl
  refine ⟨m, memory, helloBridge, 1, machine, parsed, initialised, bridged, start, called, output, length, fun fuel => ?_⟩
  have prepared : (do
      let memory ← initDataSegments m (helloWith s) fun _ => 0
      let bridge ← WasiBridge.fromModule m
      let start ← m.findExport startName exportFunc
      pure (memory, bridge, start) : Prog TrapKind Unit (LinearMemory 65536 × WasiBridge × Option (BitVec 32))) () =
        .ok (memory, helloBridge, some 1) () :=
    bind_eq_ok.mpr ⟨_, _, initialised, bind_eq_ok.mpr ⟨_, _, bridged, bind_eq_ok.mpr ⟨_, _, start, rfl⟩⟩⟩
  rw [runWasm, parsed]
  show runModule m (helloWith s) (fuel + 13) = _
  rw [runModule, prepared]
  dsimp only
  rw [called, exitOf, code]
  rfl

theorem helloWith_prints_message : helloWith helloMessage = helloWasm ∧ ∃ machine : Machine 65536 WasiBridge,
    machine.host.output = helloMessage ∧ runWasm helloWasm 13 = .exited 0 (some machine) := by
  obtain ⟨-, -, -, -, machine, -, -, -, -, -, output, -, ran⟩ := helloWith_prints helloMessage (by decide)
  exact ⟨helloWith_message, machine, output, by rw [← helloWith_message]; exact ran 0⟩

end Run

end GooseOs.Wasm
