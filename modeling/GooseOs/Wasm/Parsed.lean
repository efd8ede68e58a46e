import GooseOs.Kernel.Wasm

/-!
What an accepted binary guarantees. The section parsers may run in any order, any number of
times and over each other's bytes; every one of them keeps the module within its arrays.
-/

namespace GooseOs.Wasm

open Cursor

variable {data : List Byte} {α β : Type}

/-- A recorded signature: as many value types as it counts. -/
structure FuncType.Sound (t : FuncType) : Prop where
  params : t.paramCount ≤ maxParams
  results : t.resultCount ≤ maxResults
  paramTypes : ∀ i : Fin maxParams, i.val < t.paramCount → isValidValtype (t.params i)
  resultTypes : ∀ i : Fin maxResults, i.val < t.resultCount → isValidValtype (t.results i)

/-- Every count is within its array and every recorded index and range is in bounds. -/
structure WasmModule.Sound (data : List Byte) (m : WasmModule) : Prop where
  types : m.typeCount ≤ maxTypes
  imports : m.importCount ≤ maxImports
  funcs : m.funcCount ≤ maxFuncs
  exports : m.exportCount ≤ maxExports
  bodies : m.bodyCount ≤ maxFuncs
  segments : m.dataSegmentCount ≤ maxDataSegs
  signature : ∀ i, (m.types i).Sound
  importType : ∀ i : Fin maxImports, i.val < m.importCount → (m.importTypes i).toNat < m.typeCount
  importName : ∀ i, m.importNameLens i ≤ maxImportName
  funcType : ∀ i : Fin maxFuncs, i.val < m.funcCount → (m.funcTypes i).toNat < m.typeCount
  exportName : ∀ i, (m.exports i).nameLen ≤ maxExportName
  body : ∀ i, (m.bodies i).offset + (m.bodies i).length ≤ data.length
  segment : ∀ i, (m.dataSegments i).dataOffset + (m.dataSegments i).dataLen ≤ data.length

theorem FuncType.sound_empty : ({} : FuncType).Sound where
  params := Nat.zero_le _
  results := Nat.zero_le _
  paramTypes _ below := absurd below (Nat.not_lt_zero _)
  resultTypes _ below := absurd below (Nat.not_lt_zero _)

theorem WasmModule.sound_new : ({} : WasmModule).Sound data where
  types := Nat.zero_le _
  imports := Nat.zero_le _
  funcs := Nat.zero_le _
  exports := Nat.zero_le _
  bodies := Nat.zero_le _
  segments := Nat.zero_le _
  signature _ := FuncType.sound_empty
  importType _ below := absurd below (Nat.not_lt_zero _)
  importName _ := Nat.zero_le _
  funcType _ below := absurd below (Nat.not_lt_zero _)
  exportName _ := Nat.zero_le _
  body _ := Nat.zero_le _
  segment _ := Nat.zero_le _

/-! ### Reading leaves the module alone -/

/-- A parser that moves the cursor only. -/
def Reads (x : Parser α) : Prop := ∀ s, wp x (fun _ t => t.module = s.module) anyStop s

/-- A parser that keeps a sound module sound. -/
def KeepsSound (data : List Byte) (x : Parser α) : Prop :=
  ∀ s, s.module.Sound data → wp x (fun _ t => t.module.Sound data) anyStop s

namespace Reads

theorem pure (a : α) : Reads (Pure.pure a) := fun _ => rfl

theorem bind {x : Parser α} {f : α → Parser β} (first : Reads x) (second : ∀ a, Reads (f a)) : Reads (x >>= f) := by
  intro s
  apply bind_of_wp (first s)
  intro a t same
  exact wp_mono (second a t) (fun _ _ later => later.trans same) fun _ _ => id

theorem ite {c : Prop} [Decidable c] {x y : Parser α} (yes : Reads x) (no : Reads y) : Reads (if c then x else y) := by
  split
  · exact yes
  · exact no

theorem failIf {c : Prop} [Decidable c] {e : WasmError} : Reads (GooseOs.failIf c e) := by
  intro s
  rw [wp_failIf]
  split
  · trivial
  · rfl

theorem times {x : Parser Unit} (reads : Reads x) (count : Nat) : Reads (GooseOs.times count x) := fun s =>
  wp_times (P := fun t => t.module = s.module)
    (fun t same => wp_mono (reads t) (fun _ _ later => later.trans same) fun _ _ => id) count s rfl

theorem keeps {x : Parser α} (reads : Reads x) : KeepsSound data x := fun s sound =>
  wp_mono (reads s) (fun _ _ same => same ▸ sound) fun _ _ => id

theorem bind_wp {x : Parser α} {f : α → Parser β} {Q : β → Parsing → Prop} {s : Parsing} {m : WasmModule}
    (reads : Reads x) (here : s.module = m) (rest : ∀ a t, t.module = m → wp (f a) Q anyStop t) :
    wp (x >>= f) Q anyStop s :=
  bind_of_wp (reads s) fun a t same => rest a t (same.trans here)

end Reads

namespace KeepsSound

theorem pure (a : α) : KeepsSound data (Pure.pure a) := fun _ sound => sound

theorem bind {x : Parser α} {f : α → Parser β} (first : KeepsSound data x) (second : ∀ a, KeepsSound data (f a)) :
    KeepsSound data (x >>= f) := fun s sound =>
  bind_of_wp (first s sound) fun a t => second a t

theorem times {x : Parser Unit} (keeps : KeepsSound data x) (count : Nat) :
    KeepsSound data (GooseOs.times count x) :=
  wp_times keeps count

theorem ite {c : Prop} [Decidable c] {x y : Parser α} (yes : KeepsSound data x) (no : KeepsSound data y) :
    KeepsSound data (if c then x else y) := by
  split
  · exact yes
  · exact no

end KeepsSound

theorem readByte_reads : Reads (readByte data) := by
  intro s
  unfold readByte
  apply bind_of_get
  cases data[s.pos]? with
  | none => trivial
  | some b =>
    apply bind_of_plus
    rfl

theorem readBytes_wp (n : Nat) (s : Parsing) :
    wp (readBytes data n) (fun bytes t => t.module = s.module ∧ bytes.length = n) anyStop s := by
  unfold readBytes
  apply bind_of_get
  apply bind_of_plus
  apply bind_of_check
  intro inside
  refine ⟨rfl, ?_⟩
  rw [List.length_take, List.length_drop]
  omega

theorem readU32From_reads (left : Nat) (result : BitVec 32) (shift : Nat) :
    Reads (readU32From data left result shift) := by
  induction left generalizing result shift with
  | zero => exact fun _ => trivial
  | succ left ih =>
    apply readByte_reads.bind
    intro byte s
    apply bind_of_shl
    rw [wp_ite]
    split
    · rfl
    · apply bind_of_plus
      exact ih _ _ s

theorem readU32Leb128_reads : Reads (readU32Leb128 data) := readU32From_reads 5 0 0

theorem skip_wp (n : Nat) (s : Parsing) :
    wp (skip data n) (fun _ t => t.module = s.module ∧ s.pos + n ≤ data.length) anyStop s := by
  unfold skip
  apply bind_of_get
  apply bind_of_plus
  apply bind_of_check
  intro inside
  exact ⟨rfl, by omega⟩

theorem skip_reads (n : Nat) : Reads (skip data n) := fun s =>
  wp_mono (skip_wp n s) (fun _ _ result => result.1) fun _ _ => id

/-! ### Arrays filled from the cursor -/

/-- The value types read so far are valid, the ones before `j` included. -/
theorem readValTypes_wp {limit : Nat} (count j : Nat) (types : FixedArray limit Byte)
    (valid : ∀ i : Fin limit, i.val < j → isValidValtype (types i)) (s : Parsing) :
    wp (readValTypes data count j types)
      (fun types t => t.module = s.module ∧ ∀ i : Fin limit, i.val < j + count → isValidValtype (types i))
      anyStop s := by
  induction count generalizing j types s with
  | zero => exact ⟨rfl, valid⟩
  | succ count ih =>
    rw [readValTypes]
    apply readByte_reads.bind_wp rfl
    intro vt t same
    apply bind_of_check
    intro known
    apply bind_of_store
    intro inside
    have longer : ∀ i : Fin limit, i.val < j + 1 → isValidValtype (Function.update types ⟨j, inside⟩ vt i) := by
      intro i below
      rcases eq_or_ne i ⟨j, inside⟩ with rfl | other
      · simpa using known
      · rw [Function.update_of_ne other]
        exact valid i (by have := Fin.val_ne_iff.mpr other; simp at this; omega)
    apply wp_mono (ih (j + 1) _ longer t) _ fun _ _ => id
    rintro types u ⟨later, all⟩
    exact ⟨later.trans same, fun i below => all i (by omega)⟩

theorem storeAll_reads {limit : Nat} (a : FixedArray limit Byte) (i : Nat) (bytes : List Byte) :
    Reads (a.storeAll i bytes) := by
  induction bytes generalizing a i with
  | nil => exact Reads.pure a
  | cons b rest ih =>
    intro s
    apply bind_of_store
    intro inside
    exact ih _ _ s

/-! ### Section parsers -/

theorem parseType_keeps : KeepsSound data (parseType data) := by
  intro s sound
  unfold parseType
  apply bind_of_get
  apply bind_of_check
  intro room
  apply readByte_reads.bind_wp rfl
  intro form t₁ same
  apply bind_of_check
  intro _
  apply readU32Leb128_reads.bind_wp same
  intro paramCount t₂ same
  apply bind_of_check
  intro fewParams
  apply bind_of_wp (readValTypes_wp _ 0 _ (fun _ below => absurd below (Nat.not_lt_zero _)) t₂)
  rintro params t₃ ⟨here, paramTypes⟩
  have same := here.trans same
  apply readU32Leb128_reads.bind_wp same
  intro resultCount t₄ same
  apply bind_of_check
  intro fewResults
  apply bind_of_wp (readValTypes_wp _ 0 _ (fun _ below => absurd below (Nat.not_lt_zero _)) t₄)
  rintro results t₅ ⟨here, resultTypes⟩
  have same := here.trans same
  apply bind_of_get
  rw [same]
  apply bind_of_store
  intro inside
  apply bind_of_plus
  refine { sound with
    types := by show s.module.typeCount + 1 ≤ maxTypes; omega
    signature := ?_
    importType := fun i below => Nat.lt_succ_of_lt (sound.importType i below)
    funcType := fun i below => Nat.lt_succ_of_lt (sound.funcType i below) }
  intro i
  show (Function.update s.module.types _ _ i).Sound
  rcases eq_or_ne i ⟨s.module.typeCount, inside⟩ with rfl | other
  · rw [Function.update_self]
    exact ⟨by show paramCount.toNat ≤ _; omega, by show resultCount.toNat ≤ _; omega,
      fun i below => paramTypes i (by simpa using below), fun i below => resultTypes i (by simpa using below)⟩
  · rw [Function.update_of_ne other]
    exact sound.signature i

theorem parseFunction_keeps : KeepsSound data (parseFunction data) := by
  intro s sound
  unfold parseFunction
  apply bind_of_get
  apply bind_of_check
  intro room
  apply readU32Leb128_reads.bind_wp rfl
  intro typeIdx t same
  apply bind_of_get
  rw [same]
  apply bind_of_check
  intro known
  apply bind_of_store
  intro inside
  apply bind_of_plus
  refine { sound with
    funcs := by show s.module.funcCount + 1 ≤ maxFuncs; omega
    funcType := ?_ }
  intro i below
  show (Function.update s.module.funcTypes _ _ i).toNat < _
  rcases eq_or_ne i ⟨s.module.funcCount, inside⟩ with rfl | other
  · rw [Function.update_self]
    exact Nat.lt_of_not_le known
  · rw [Function.update_of_ne other]
    have apart := Fin.val_ne_iff.mpr other
    exact sound.funcType i (Nat.lt_of_le_of_ne (Nat.lt_succ_iff.mp below) apart)

theorem skipLimits_reads : Reads (skipLimits data) := by
  apply readByte_reads.bind
  intro flags
  apply readU32Leb128_reads.bind
  intro _
  exact (readU32Leb128_reads.bind fun _ => Reads.pure ()).ite (Reads.pure ())

theorem skipMemory_reads : Reads (skipMemory data) := by
  apply readByte_reads.bind
  intro f
  apply readU32Leb128_reads.bind
  intro _
  exact (readU32Leb128_reads.bind fun _ => Reads.pure ()).ite (Reads.pure ())

theorem parseMemorySection_keeps : KeepsSound data (parseMemorySection data) := by
  apply readU32Leb128_reads.keeps.bind
  intro count
  apply KeepsSound.ite _ (KeepsSound.pure ())
  apply readByte_reads.keeps.bind
  intro flags
  apply readU32Leb128_reads.keeps.bind
  intro min
  apply (readU32Leb128_reads.ite (Reads.pure 0)).keeps.bind
  intro max
  apply KeepsSound.bind
  · intro s sound
    rw [wp_modify]
    exact { sound with }
  · intro _
    exact (skipMemory_reads.times _).keeps

theorem parseExport_keeps : KeepsSound data (parseExport data) := by
  intro s sound
  unfold parseExport
  apply bind_of_get
  apply bind_of_check
  intro room
  apply readU32Leb128_reads.bind_wp rfl
  intro nameLen t₁ same
  apply bind_of_check
  intro short
  apply bind_of_wp (readBytes_wp _ t₁)
  rintro nameBytes t₂ ⟨here, _⟩
  apply readByte_reads.bind_wp (here.trans same)
  intro kind t₃ same
  apply bind_of_check
  intro _
  apply readU32Leb128_reads.bind_wp same
  intro index t₄ same
  apply (storeAll_reads _ _ _).bind_wp same
  intro name t₅ same
  apply bind_of_get
  rw [same]
  apply bind_of_store
  intro inside
  apply bind_of_plus
  refine { sound with
    exports := by show s.module.exportCount + 1 ≤ maxExports; omega
    exportName := ?_ }
  intro i
  show (Function.update s.module.exports _ _ i).nameLen ≤ _
  rcases eq_or_ne i ⟨s.module.exportCount, inside⟩ with rfl | other
  · rw [Function.update_self]
    exact Nat.le_of_not_lt short
  · rw [Function.update_of_ne other]
    exact sound.exportName i

theorem parseBody_keeps : KeepsSound data (parseBody data) := by
  intro s sound
  unfold parseBody
  apply bind_of_get
  apply bind_of_check
  intro room
  apply readU32Leb128_reads.bind_wp rfl
  intro bodySize t same
  apply bind_of_get
  rw [same]
  apply bind_of_store
  intro inside
  apply bind_of_plus
  apply bind_of_set
  apply wp_mono (skip_wp _ _) _ fun _ _ => id
  rintro _ u ⟨here, within⟩
  rw [here]
  refine { sound with
    bodies := by show s.module.bodyCount + 1 ≤ maxFuncs; omega
    body := ?_ }
  intro i
  show (Function.update s.module.bodies _ _ i).offset + (Function.update s.module.bodies _ _ i).length ≤ _
  rcases eq_or_ne i ⟨s.module.bodyCount, inside⟩ with rfl | other
  · rw [Function.update_self]
    exact within
  · rw [Function.update_of_ne other]
    exact sound.body i

theorem parseImportFunc_keeps (fieldName : List Byte) : KeepsSound data (parseImportFunc data fieldName) := by
  intro s sound
  unfold parseImportFunc
  apply bind_of_get
  apply bind_of_check
  intro room
  apply readU32Leb128_reads.bind_wp rfl
  intro typeIdx t same
  apply bind_of_get
  rw [same]
  apply bind_of_check
  intro known
  apply bind_of_store
  intro inside
  apply bind_of_load
  intro _
  apply (storeAll_reads _ _ _).bind_wp same
  intro row u _
  apply bind_of_store
  intro _
  apply bind_of_store
  intro _
  apply bind_of_plus
  refine { sound with
    imports := by show s.module.importCount + 1 ≤ maxImports; omega
    importType := ?_
    importName := ?_ }
  · intro i below
    show (Function.update s.module.importTypes _ _ i).toNat < _
    rcases eq_or_ne i ⟨s.module.importCount, inside⟩ with rfl | other
    · rw [Function.update_self]
      exact Nat.lt_of_not_le known
    · rw [Function.update_of_ne other]
      have apart := Fin.val_ne_iff.mpr other
      exact sound.importType i (Nat.lt_of_le_of_ne (Nat.lt_succ_iff.mp below) apart)
  · intro i
    show Function.update s.module.importNameLens _ _ i ≤ _
    rcases eq_or_ne i ⟨s.module.importCount, inside⟩ with rfl | other
    · rw [Function.update_self]
      split <;> omega
    · rw [Function.update_of_ne other]
      exact sound.importName i

theorem parseImport_keeps : KeepsSound data (parseImport data) := by
  apply readU32Leb128_reads.keeps.bind
  intro modNameLen
  apply (skip_reads _).keeps.bind
  intro _
  apply readU32Leb128_reads.keeps.bind
  intro fieldNameLen
  apply KeepsSound.bind
  · intro s sound
    exact wp_mono (readBytes_wp _ s) (fun _ _ result => result.1 ▸ sound) fun _ _ => id
  intro fieldName
  apply readByte_reads.keeps.bind
  intro kind
  apply (parseImportFunc_keeps fieldName).ite
  apply KeepsSound.ite (readByte_reads.bind fun _ => skipLimits_reads).keeps
  apply skipLimits_reads.keeps.ite
  apply KeepsSound.ite (readByte_reads.bind fun _ => readByte_reads.bind fun _ => Reads.pure ()).keeps
  exact fun _ _ => trivial

theorem parseDataSegment_keeps : KeepsSound data (parseDataSegment data) := by
  intro s sound
  unfold parseDataSegment
  apply bind_of_get
  apply bind_of_check
  intro room
  apply readU32Leb128_reads.bind_wp rfl
  intro kind t₁ same
  apply bind_of_check
  intro _
  apply readByte_reads.bind_wp same
  intro opcode t₂ same
  apply bind_of_check
  intro _
  apply readU32Leb128_reads.bind_wp same
  intro offset t₃ same
  apply readByte_reads.bind_wp same
  intro stop t₄ same
  apply bind_of_check
  intro _
  apply readU32Leb128_reads.bind_wp same
  intro dataLen t₅ same
  apply bind_of_get
  apply bind_of_wp (skip_wp _ t₅)
  rintro _ t₆ ⟨here, within⟩
  apply bind_of_get
  rw [here.trans same]
  apply bind_of_store
  intro inside
  apply bind_of_plus
  refine { sound with
    segments := by show s.module.dataSegmentCount + 1 ≤ maxDataSegs; omega
    segment := ?_ }
  intro i
  show (Function.update s.module.dataSegments _ _ i).dataOffset +
    (Function.update s.module.dataSegments _ _ i).dataLen ≤ _
  rcases eq_or_ne i ⟨s.module.dataSegmentCount, inside⟩ with rfl | other
  · rw [Function.update_self]
    exact within
  · rw [Function.update_of_ne other]
    exact sound.segment i

theorem counted_keeps {item : Parser Unit} (keeps : KeepsSound data item) :
    KeepsSound data (do let count ← readU32Leb128 data; times count.toNat item) :=
  readU32Leb128_reads.keeps.bind fun count => keeps.times count.toNat

theorem parsePayload_keeps (sectionId : Byte) (sectionLen : Nat) :
    KeepsSound data (parsePayload data sectionId sectionLen) := by
  apply (counted_keeps parseType_keeps).ite
  apply (counted_keeps parseImport_keeps).ite
  apply (counted_keeps parseFunction_keeps).ite
  apply parseMemorySection_keeps.ite
  apply (counted_keeps parseExport_keeps).ite
  apply (counted_keeps parseBody_keeps).ite
  apply (counted_keeps parseDataSegment_keeps).ite
  exact (skip_reads sectionLen).keeps

theorem parseSection_keeps : KeepsSound data (parseSection data) := by
  apply readByte_reads.keeps.bind
  intro sectionId
  apply readU32Leb128_reads.keeps.bind
  intro sectionLen s sound
  apply bind_of_get
  apply bind_of_wp (parsePayload_keeps _ _ s sound)
  intro _ t kept
  apply bind_of_plus
  exact kept

theorem parseSections_keeps (fuel : Nat) : KeepsSound data (parseSections data fuel) := by
  induction fuel with
  | zero => exact fun _ _ => trivial
  | succ fuel ih =>
    intro s sound
    unfold parseSections remaining
    rw [bind_assoc]
    apply bind_of_get
    apply bind_of_minus
    intro _
    rw [wp_ite]
    split
    · exact parseSection_keeps.bind (fun _ => ih) s sound
    · exact sound

theorem parseModule_keeps : KeepsSound data (parseModule data) := by
  intro s sound
  apply bind_of_check
  intro _
  apply bind_of_check
  intro _
  apply bind_of_check
  intro _
  apply bind_of_modify
  apply bind_of_wp (parseSections_keeps _ { s with pos := 8 } sound)
  intro _ t kept
  apply bind_of_get
  rw [wp_failIf]
  split
  · trivial
  · exact kept

/-- Whatever the parser accepts is within its arrays and within the data. -/
theorem sound_of_parse {m : WasmModule} (accepted : parse data = .ok m) : m.Sound data := by
  have kept : wp (parseModule data) (fun _ t => t.module.Sound data) anyStop {} :=
    parseModule_keeps {} WasmModule.sound_new
  unfold parse at accepted
  unfold wp at kept
  cases result : parseModule data {} with
  | ok _ s =>
    rw [result] at accepted kept
    cases accepted
    exact kept
  | error e _ =>
    rw [result] at accepted
    cases accepted

theorem parsed_in_range {m : WasmModule} (accepted : parse data = .ok m) : m.Sound data := sound_of_parse accepted

/-- Whether the parser accepts. -/
def accepts (data : List Byte) : Bool :=
  match parse data with
  | .ok _ => true
  | .error _ => false

/-- The module of an accepted binary. -/
def parsed (data : List Byte) : WasmModule :=
  match parse data with
  | .ok m => m
  | .error _ => {}

theorem parse_parsed (accepted : accepts data) : parse data = .ok (parsed data) := by
  unfold accepts at accepted
  unfold parsed
  cases result : parse data with
  | ok m => rfl
  | error e =>
    rw [result] at accepted
    cases accepted

/-- A function whose body is a stray `else` in front of its `end`. -/
def strayElse : List Byte :=
  [0x00, 0x61, 0x73, 0x6D, 0x01, 0x00, 0x00, 0x00,
    0x01, 0x04, 0x01, 0x60, 0x00, 0x00,
    0x03, 0x02, 0x01, 0x00,
    0x0A, 0x05, 0x01, 0x03, 0x00, 0x05, 0x0B]

theorem strayElse_accepted : accepts strayElse := by decide +kernel

theorem parsed_in_range_strayElse : (parsed strayElse).Sound strayElse :=
  parsed_in_range (parse_parsed strayElse_accepted)

/-! ### The section loop ends -/

theorem readByte_advances (s : Parsing) : wp (readByte data) (fun _ t => s.pos < t.pos) anyStop s := by
  unfold readByte
  apply bind_of_get
  cases data[s.pos]? with
  | none => trivial
  | some b =>
    apply bind_of_plus
    exact Nat.lt_succ_self s.pos

theorem readU32From_advances (left : Nat) (result : BitVec 32) (shift : Nat) (s : Parsing) :
    wp (readU32From data left result shift) (fun _ t => s.pos < t.pos) anyStop s := by
  induction left generalizing result shift s with
  | zero => trivial
  | succ left ih =>
    apply bind_of_wp (readByte_advances s)
    intro byte t ahead
    apply bind_of_shl
    rw [wp_ite]
    split
    · exact ahead
    · apply bind_of_plus
      exact wp_mono (ih _ _ t) (fun _ _ further => ahead.trans further) fun _ _ => id

theorem parseSection_advances (s : Parsing) : wp (parseSection data) (fun _ t => s.pos < t.pos) anyStop s := by
  apply bind_of_wp (readByte_advances s)
  intro sectionId t₁ ahead
  apply bind_of_wp (readU32From_advances 5 0 0 t₁)
  intro sectionLen t₂ further
  apply bind_of_get
  apply bind_of_wp (R := fun _ _ => True)
  · exact wp_mono (Q := fun _ _ => True) (by unfold wp; split <;> trivial) (fun _ _ => id) fun _ _ => id
  intro _ t₃ _
  apply bind_of_plus
  show s.pos < t₂.pos + sectionLen.toNat
  omega

theorem remaining_run {s : Parsing} (within : s.pos ≤ data.length) :
    (remaining data : Parser Nat) s = .ok (data.length - s.pos) s :=
  bind_eq_ok.mpr ⟨_, _, get_eq_ok.mpr ⟨rfl, rfl⟩, minus_eq_ok.mpr ⟨within, rfl, rfl⟩⟩

theorem remaining_stop {s : Parsing} (past : data.length < s.pos) :
    (remaining data : Parser Nat) s = .error .fault s :=
  (bind_run (get_eq_ok.mpr ⟨rfl, rfl⟩)).trans (minus_stop past)

theorem parseSections_past (fuel : Nat) (s : Parsing) (past : data.length < s.pos) :
    parseSections data fuel s = .error .fault s := by
  cases fuel with
  | zero => rfl
  | succ fuel => exact bind_stop (remaining_stop past)

/-- With more fuel than bytes left, one more round makes no difference. -/
theorem parseSections_fuel (fuel : Nat) (s : Parsing) (enough : data.length < s.pos + fuel) :
    parseSections data (fuel + 1) s = parseSections data fuel s := by
  induction fuel generalizing s with
  | zero =>
    have past : data.length < s.pos := by omega
    rw [parseSections_past 1 s past, parseSections_past 0 s past]
  | succ fuel ih =>
    by_cases past : data.length < s.pos
    · rw [parseSections_past _ s past, parseSections_past _ s past]
    · have left : (remaining data : Parser Nat) s = _ := remaining_run (Nat.le_of_not_lt past)
      rw [parseSections, bind_run left]
      conv_rhs => rw [parseSections, bind_run left]
      by_cases more : 0 < data.length - s.pos
      · rw [if_pos more, if_pos more]
        have ahead := @parseSection_advances data s
        unfold wp at ahead
        cases result : parseSection data s with
        | ok _ t =>
          rw [result] at ahead
          rw [bind_run result, bind_run result]
          exact ih t (by simp only at ahead; omega)
        | error e t => rw [bind_stop result, bind_stop result]
      · rw [if_neg more, if_neg more]

end GooseOs.Wasm
