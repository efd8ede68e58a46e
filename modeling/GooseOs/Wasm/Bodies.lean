import GooseOs.Wasm.FuncTypes
import GooseOs.Wasm.Numbers

/-!
Functions and their bodies. The function sections and the code sections are listed from the bytes alone; the parser
records both lists and compares their lengths only when neither is empty.
-/

namespace GooseOs.Wasm

open Cursor Leb128

variable {data : List Byte} {α β : Type}

/-! ### What the sections list -/

/-- The number encoded at a position, and the position behind it. -/
def numberAt (data : List Byte) (pos : Nat) : Option (Nat × Nat) :=
  (front 5 (data.drop pos)).map fun enc => (value enc % 2 ^ 32, pos + enc.length)

/-- Code entries from `pos` on: each is a size and that many bytes. -/
def bodiesAt (data : List Byte) : (count pos : Nat) → List FuncBody
  | 0, _ => []
  | count + 1, pos =>
    match numberAt data pos with
    | some (size, start) => { offset := start, length := size } :: bodiesAt data count (start + size)
    | none => []

/-- Type indices from `pos` on. -/
def typesAt (data : List Byte) : (count pos : Nat) → List Nat
  | 0, _ => []
  | count + 1, pos =>
    match numberAt data pos with
    | some (typeIdx, next) => typeIdx :: typesAt data count next
    | none => []

/-- The entries of a section with this id, behind their count. -/
def Visit.entries (data : List Byte) (id : Byte) (list : (count pos : Nat) → List α) (v : Visit) : List α :=
  if v.sectionId = id then
    match numberAt data v.entry.pos with
    | some (count, pos) => list count pos
    | none => []
  else []

/-- The entries of the code sections, in their order in the binary. -/
def codeEntries (data : List Byte) : List FuncBody := (sections data).flatMap (Visit.entries data secCode (bodiesAt data))

/-- The entries of the function sections. -/
def functionEntries (data : List Byte) : List Nat :=
  (sections data).flatMap (Visit.entries data secFunction (typesAt data))

/-! ### Parsers that leave functions and bodies alone -/

/-- The functions and bodies recorded in a module. -/
structure Lists (funcs : Nat) (bodies : List FuncBody) (m : WasmModule) : Prop where
  funcCount : m.funcCount = funcs
  bodyCount : m.bodyCount = bodies.length
  bodies : m.bodies = FixedArray.ofList {} bodies

/-- A parser that records neither a function nor a body. -/
def Aside (x : Parser α) : Prop :=
  ∀ funcs bodies s, Lists funcs bodies s.module → wp x (fun _ t => Lists funcs bodies t.module) anyStop s

namespace Aside

theorem bind {x : Parser α} {f : α → Parser β} (first : Aside x) (second : ∀ a, Aside (f a)) : Aside (x >>= f) :=
  fun funcs bodies s lists => bind_of_wp (first funcs bodies s lists) fun a t => second a funcs bodies t

theorem ite {c : Prop} [Decidable c] {x y : Parser α} (yes : Aside x) (no : Aside y) : Aside (if c then x else y) := by
  split
  · exact yes
  · exact no

theorem times {x : Parser Unit} (aside : Aside x) (count : Nat) : Aside (GooseOs.times count x) :=
  fun funcs bodies => wp_times (aside funcs bodies) count

end Aside

theorem Reads.aside {x : Parser α} (reads : Reads x) : Aside x := fun _ _ s lists =>
  wp_mono (reads s) (fun _ _ same => same ▸ lists) fun _ _ => id

theorem parseType_aside : Aside (parseType data) := by
  intro funcs bodies s lists
  unfold parseType
  apply bind_of_get
  apply bind_of_check
  intro _
  apply readByte_reads.bind_wp rfl
  intro form t₁ same
  apply bind_of_check
  intro _
  apply readU32Leb128_reads.bind_wp same
  intro paramCount t₂ same
  apply bind_of_check
  intro _
  apply bind_of_wp (readValTypes_wp _ 0 _ (fun _ below => absurd below (Nat.not_lt_zero _)) t₂)
  intro params t₃ ⟨here, _⟩
  apply readU32Leb128_reads.bind_wp (here.trans same)
  intro resultCount t₄ same
  apply bind_of_check
  intro _
  apply bind_of_wp (readValTypes_wp _ 0 _ (fun _ below => absurd below (Nat.not_lt_zero _)) t₄)
  intro results t₅ ⟨here, _⟩
  apply bind_of_get
  rw [here.trans same]
  apply bind_of_store
  intro _
  apply bind_of_plus
  exact ⟨lists.funcCount, lists.bodyCount, lists.bodies⟩

theorem parseMemorySection_aside : Aside (parseMemorySection data) := by
  apply readU32Leb128_reads.aside.bind
  intro count
  apply Aside.ite _ (Reads.pure ()).aside
  apply readByte_reads.aside.bind
  intro flags
  apply readU32Leb128_reads.aside.bind
  intro min
  apply (readU32Leb128_reads.ite (Reads.pure 0)).aside.bind
  intro max
  apply Aside.bind
  · exact fun _ _ _ lists => ⟨lists.funcCount, lists.bodyCount, lists.bodies⟩
  · exact fun _ => (skipMemory_reads.times _).aside

theorem parseExport_aside : Aside (parseExport data) := by
  intro funcs bodies s lists
  unfold parseExport
  apply bind_of_get
  apply bind_of_check
  intro _
  apply readU32Leb128_reads.bind_wp rfl
  intro nameLen t₁ same
  apply bind_of_check
  intro _
  apply bind_of_wp (readBytes_wp _ t₁)
  intro nameBytes t₂ ⟨here, _⟩
  apply readByte_reads.bind_wp (here.trans same)
  intro kind t₃ same
  apply bind_of_check
  intro _
  apply readU32Leb128_reads.bind_wp same
  intro index t₄ same
  apply (storeAll_reads _ _ _).bind_wp same
  intro name t₅ same
  apply bind_of_get
  rw [same]
  apply bind_of_store
  intro _
  apply bind_of_plus
  exact ⟨lists.funcCount, lists.bodyCount, lists.bodies⟩

theorem parseImportFunc_aside (fieldName : List Byte) : Aside (parseImportFunc data fieldName) := by
  intro funcs bodies s lists
  unfold parseImportFunc
  apply bind_of_get
  apply bind_of_check
  intro _
  apply readU32Leb128_reads.bind_wp rfl
  intro typeIdx t same
  apply bind_of_get
  rw [same]
  apply bind_of_check
  intro _
  apply bind_of_store
  intro _
  apply bind_of_load
  intro _
  apply (storeAll_reads _ _ _).bind_wp same
  intro row u _
  apply bind_of_store
  intro _
  apply bind_of_store
  intro _
  apply bind_of_plus
  exact ⟨lists.funcCount, lists.bodyCount, lists.bodies⟩

theorem parseImport_aside : Aside (parseImport data) := by
  apply readU32Leb128_reads.aside.bind
  intro modNameLen
  apply (skip_reads _).aside.bind
  intro _
  apply readU32Leb128_reads.aside.bind
  intro fieldNameLen
  apply Aside.bind
  · intro funcs bodies s lists
    exact wp_mono (readBytes_wp _ s) (fun _ _ result => result.1 ▸ lists) fun _ _ => id
  intro fieldName
  apply readByte_reads.aside.bind
  intro kind
  apply (parseImportFunc_aside fieldName).ite
  apply Aside.ite (readByte_reads.bind fun _ => skipLimits_reads).aside
  apply skipLimits_reads.aside.ite
  apply Aside.ite (readByte_reads.bind fun _ => readByte_reads.bind fun _ => Reads.pure ()).aside
  exact fun _ _ _ _ => trivial

theorem parseDataSegment_aside : Aside (parseDataSegment data) := by
  intro funcs bodies s lists
  unfold parseDataSegment
  apply bind_of_get
  apply bind_of_check
  intro _
  apply readU32Leb128_reads.bind_wp rfl
  intro kind t₁ same
  apply bind_of_check
  intro _
  apply readByte_reads.bind_wp same
  intro opcode t₂ same
  apply bind_of_check
  intro _
  apply readU32Leb128_reads.bind_wp same
  intro offset t₃ same
  apply readByte_reads.bind_wp same
  intro stop t₄ same
  apply bind_of_check
  intro _
  apply readU32Leb128_reads.bind_wp same
  intro dataLen t₅ same
  apply bind_of_get
  apply bind_of_wp (skip_wp _ t₅)
  intro _ t₆ ⟨here, _⟩
  apply bind_of_get
  rw [here.trans same]
  apply bind_of_store
  intro _
  apply bind_of_plus
  exact ⟨lists.funcCount, lists.bodyCount, lists.bodies⟩

theorem counted_aside {item : Parser Unit} (aside : Aside item) :
    Aside (do let count ← readU32Leb128 data; times count.toNat item) :=
  readU32Leb128_reads.aside.bind fun count => aside.times count.toNat

theorem header_reads : Reads (header data) :=
  readByte_reads.bind fun _ => readU32Leb128_reads.bind fun _ => Reads.pure _

theorem parsePayload_aside {sectionId : Byte} (sectionLen : Nat) (noFunctions : sectionId ≠ secFunction)
    (noCode : sectionId ≠ secCode) : Aside (parsePayload data sectionId sectionLen) := by
  rw [parsePayload, if_neg noFunctions, if_neg noCode]
  apply (counted_aside parseType_aside).ite
  apply (counted_aside parseImport_aside).ite
  apply parseMemorySection_aside.ite
  apply (counted_aside parseExport_aside).ite
  apply (counted_aside parseDataSegment_aside).ite
  exact (skip_reads sectionLen).aside

/-! ### The two lists -/

section Slice
variable (slice : data.length < 2 ^ 63) {funcs : Nat} {bodies : List FuncBody} {s t : Parsing}
include slice

theorem numberAt_of_ok {v : BitVec 32} (read : readU32Leb128 data s = .ok v t) :
    numberAt data s.pos = some (v.toNat, t.pos) ∧ t.module = s.module := by
  obtain ⟨enc, ⟨complete, short, inside⟩, number, moved⟩ := (Cursor.readU32Leb128_eq_ok slice).mp read
  rw [numberAt, front_eq_some.mpr ⟨complete, short, inside⟩, number, moved]
  refine ⟨?_, rfl⟩
  rw [Option.map_some, BitVec.toNat_ofInt]
  norm_cast

theorem parseBody_lists (lists : Lists funcs bodies s.module) (returned : parseBody data s = .ok () t) :
    ∃ size start, numberAt data s.pos = some (size, start) ∧ t.pos = start + size ∧
      Lists funcs (bodies ++ [{ offset := start, length := size }]) t.module := by
  simp only [parseBody, bind_eq_ok, get_eq_ok, failIf_eq_ok, plus_eq_ok, set_eq_ok, store_eq_ok] at returned
  obtain ⟨_, _, ⟨rfl, rfl⟩, _, _, ⟨_, rfl⟩, size, u, read, _, _, ⟨rfl, rfl⟩, _, _, ⟨inside, rfl, rfl⟩, _, _, ⟨_, rfl, rfl⟩,
    _, _, rfl, skipped⟩ := returned
  obtain ⟨_, _, rfl⟩ := skip_eq_ok.mp skipped
  obtain ⟨number, same⟩ := numberAt_of_ok slice read
  refine ⟨_, _, number, rfl, ?_⟩
  rw [← same] at lists
  refine ⟨lists.funcCount, ?_, ?_⟩
  · show _ + 1 = _
    rw [lists.bodyCount, List.length_append, List.length_singleton]
  · show Function.update _ _ _ = _
    have bound : bodies.length < maxFuncs := lists.bodyCount ▸ inside
    rw [← FixedArray.update_ofList bound, ← lists.bodies]
    congr 1
    exact Fin.ext lists.bodyCount

/-- A function is counted, and its type index is behind it. -/
theorem parseFunction_lists (lists : Lists funcs bodies s.module) (returned : parseFunction data s = .ok () t) :
    ∃ typeIdx, numberAt data s.pos = some (typeIdx, t.pos) ∧ Lists (funcs + 1) bodies t.module := by
  simp only [parseFunction, bind_eq_ok, get_eq_ok, failIf_eq_ok, plus_eq_ok, set_eq_ok, store_eq_ok] at returned
  obtain ⟨_, _, ⟨rfl, rfl⟩, _, _, ⟨_, rfl⟩, typeIdx, u, read, _, _, ⟨rfl, rfl⟩, _, _, ⟨_, rfl⟩, _, _, ⟨_, rfl, rfl⟩, _, _,
    ⟨_, rfl, rfl⟩, rfl⟩ := returned
  obtain ⟨number, same⟩ := numberAt_of_ok slice read
  rw [← same] at lists
  exact ⟨_, number, congrArg (· + 1) lists.funcCount, lists.bodyCount, lists.bodies⟩

theorem parseBodies_lists (count : Nat) (lists : Lists funcs bodies s.module)
    (returned : times count (parseBody data) s = .ok () t) : Lists funcs (bodies ++ bodiesAt data count s.pos) t.module := by
  induction count generalizing s bodies with
  | zero =>
    obtain ⟨_, same⟩ := pure_eq_ok.mp returned
    rw [same, bodiesAt, List.append_nil]
    exact lists
  | succ count ih =>
    obtain ⟨_, u, first, rest⟩ := bind_eq_ok.mp returned
    obtain ⟨size, start, number, place, longer⟩ := parseBody_lists slice lists first
    have all := ih longer rest
    rw [List.append_assoc, place] at all
    rw [bodiesAt, number]
    exact all

theorem parseFunctions_lists (count : Nat) (lists : Lists funcs bodies s.module)
    (returned : times count (parseFunction data) s = .ok () t) :
    Lists (funcs + (typesAt data count s.pos).length) bodies t.module := by
  induction count generalizing s funcs with
  | zero =>
    obtain ⟨_, same⟩ := pure_eq_ok.mp returned
    rw [same]
    exact lists
  | succ count ih =>
    obtain ⟨_, u, first, rest⟩ := bind_eq_ok.mp returned
    obtain ⟨typeIdx, number, longer⟩ := parseFunction_lists slice lists first
    have all := ih longer rest
    rw [typesAt, number, List.length_cons]
    rw [Nat.add_right_comm, Nat.add_assoc] at all
    exact all

/-- A section's payload records the entries of the section. -/
theorem parsePayload_lists (v : Visit) (lists : Lists funcs bodies v.entry.module)
    (returned : parsePayload data v.sectionId v.len v.entry = .ok () t) :
    Lists (funcs + (v.entries data secFunction (typesAt data)).length) (bodies ++ v.entries data secCode (bodiesAt data))
      t.module := by
  by_cases function : v.sectionId = secFunction
  · have code : v.sectionId ≠ secCode := function ▸ by decide
    rw [parsePayload, function, if_neg (by decide), if_neg (by decide), if_pos rfl] at returned
    obtain ⟨count, u, read, rest⟩ := bind_eq_ok.mp returned
    obtain ⟨number, same⟩ := numberAt_of_ok slice read
    rw [Visit.entries, Visit.entries, if_pos function, if_neg code, number, List.append_nil]
    exact parseFunctions_lists slice _ (same ▸ lists) rest
  by_cases code : v.sectionId = secCode
  · rw [parsePayload, code, if_neg (by decide), if_neg (by decide), if_neg (by decide), if_neg (by decide),
      if_neg (by decide), if_pos rfl] at returned
    obtain ⟨count, u, read, rest⟩ := bind_eq_ok.mp returned
    obtain ⟨number, same⟩ := numberAt_of_ok slice read
    rw [Visit.entries, Visit.entries, if_neg function, if_pos code, number]
    exact parseBodies_lists slice _ (same ▸ lists) rest
  · rw [Visit.entries, Visit.entries, if_neg function, if_neg code, List.append_nil]
    exact wp_of_ok (Q := fun _ u => Lists funcs bodies u.module)
      (parsePayload_aside v.len function code funcs bodies v.entry lists) returned

/-- The loop records the entries of every section it goes through. -/
theorem parseSections_lists (fuel : Nat) (lists : Lists funcs bodies s.module)
    (parsed : parseSections data fuel s = .ok () t) :
    Lists (funcs + ((visits data fuel s).flatMap (Visit.entries data secFunction (typesAt data))).length)
      (bodies ++ (visits data fuel s).flatMap (Visit.entries data secCode (bodiesAt data))) t.module := by
  induction fuel generalizing s funcs bodies with
  | zero => exact (fault_eq_ok parsed).elim
  | succ fuel ih =>
    simp only [parseSections, remaining, bind_eq_ok, get_eq_ok, minus_eq_ok] at parsed
    obtain ⟨_, _, ⟨_, _, ⟨rfl, rfl⟩, within, rfl, rfl⟩, rest⟩ := parsed
    rename_i s
    rw [visits]
    split at rest
    · next more =>
      obtain ⟨_, mid, section_, later⟩ := bind_eq_ok.mp rest
      obtain ⟨sectionId, len, entry, u, head, _, payload, moved⟩ := parseSection_eq_ok section_
      rw [if_pos (by omega), head, section_, List.flatMap_cons, List.flatMap_cons, List.length_append, ← Nat.add_assoc,
        ← List.append_assoc]
      have same : entry.module = s.module := wp_of_ok (Q := fun _ u => u.module = s.module) (header_reads s) head
      have start : Lists funcs bodies entry.module := same ▸ lists
      have longer := parsePayload_lists slice ⟨s.pos, sectionId, len, entry⟩ start payload
      exact ih (by rw [moved]; exact longer) later
    · next done =>
      obtain ⟨_, same⟩ := pure_eq_ok.mp rest
      rw [if_neg (by omega), same]
      simpa using lists

end Slice

/-- An accepted module has the functions and the bodies its sections list, as many of both unless one list is empty. -/
theorem lists_of_parse (slice : data.length < 2 ^ 63) {m : WasmModule} (accepted : parse data = .ok m) :
    Lists (functionEntries data).length (codeEntries data) m ∧
      (functionEntries data ≠ [] → codeEntries data ≠ [] → (functionEntries data).length = (codeEntries data).length) := by
  unfold parse at accepted
  cases result : parseModule data {} with
  | error e s =>
    rw [result] at accepted
    cases accepted
  | ok u s =>
    rw [result] at accepted
    cases accepted
    simp only [parseModule, bind_eq_ok, failIf_eq_ok, modify_eq_ok, get_eq_ok] at result
    obtain ⟨_, _, ⟨_, rfl⟩, _, _, ⟨_, rfl⟩, _, _, ⟨_, rfl⟩, _, _, rfl, _, t, walked, _, _, ⟨rfl, rfl⟩, checked, rfl⟩ := result
    have empty : Lists 0 [] ({ pos := 8 } : Parsing).module := ⟨rfl, rfl, rfl⟩
    have lists := parseSections_lists slice _ empty walked
    rw [Nat.zero_add, List.nil_append] at lists
    refine ⟨lists, fun some_ some_' => ?_⟩
    by_contra differ
    apply checked
    rw [lists.funcCount, lists.bodyCount]
    exact ⟨List.length_pos_iff.mpr some_, List.length_pos_iff.mpr some_', differ⟩

/-- What the interpreter may enter: the bodies are the code entries, one for each function. -/
structure OwnBodies (data : List Byte) (m : WasmModule) : Prop where
  count : m.bodyCount = m.funcCount
  body : ∀ i < m.funcCount, ∃ body, m.bodies.at? i = some body ∧ (codeEntries data)[i]? = some body
  entered : ∀ (f : BitVec 32) (n : Nat) (σ : Type) (s t : Machine n σ) (found : FuncType × FuncBody),
    resolve (m.program data) f s = .ok found t → found.2 ∈ codeEntries data

/-- Every function has its own body exactly when functions and code entries come together. -/
theorem ownBodies_iff (slice : data.length < 2 ^ 63) {m : WasmModule} (accepted : parse data = .ok m) :
    OwnBodies data m ↔ (functionEntries data = [] ↔ codeEntries data = []) := by
  obtain ⟨lists, alike⟩ := lists_of_parse slice accepted
  have sound := sound_of_parse accepted
  constructor
  · intro own
    have same : (codeEntries data).length = (functionEntries data).length := by
      rw [← lists.bodyCount, own.count, lists.funcCount]
    rw [← List.length_eq_zero_iff, ← List.length_eq_zero_iff, same]
  · intro together
    have same : (codeEntries data).length = m.funcCount := by
      rw [lists.funcCount]
      by_cases none : functionEntries data = []
      · rw [none, together.mp none]
        rfl
      · exact (alike none (mt together.mpr none)).symm
    have body : ∀ i < m.funcCount, ∃ body, m.bodies.at? i = some body ∧ (codeEntries data)[i]? = some body := by
      intro i below
      have there : (codeEntries data)[i]? = some (codeEntries data)[i] := List.getElem?_eq_getElem (by omega)
      refine ⟨_, ?_, there⟩
      rw [lists.bodies]
      exact FixedArray.ofList_at? (Nat.lt_of_lt_of_le below sound.funcs) there
    refine ⟨lists.bodyCount.trans same, body, fun f n σ s t found returned => ?_⟩
    simp only [resolve, bind_eq_ok, failIf_eq_ok, minus_eq_ok, load_eq_ok, pure_eq_ok] at returned
    obtain ⟨_, _, _, i, _, _, _, _, ⟨below, _⟩, _, _, _, _, _, _, _, _, _, own, _, ⟨inside, loaded, _⟩, pair, _⟩ := returned
    obtain ⟨entry, there, listed⟩ := body i (Nat.lt_of_not_le below)
    rw [FixedArray.at?, dif_pos inside] at there
    have same : own = entry := loaded.trans (Option.some.inj there)
    rw [pair]
    exact same ▸ List.mem_of_getElem? listed

theorem ownBodies_strayElse :
    OwnBodies strayElse (parsed strayElse) ↔ (functionEntries strayElse = [] ↔ codeEntries strayElse = []) :=
  ownBodies_iff (by decide) (parse_parsed strayElse_accepted)

/-- A function of the first type, and no code section. -/
def bodiless : List Byte :=
  [0x00, 0x61, 0x73, 0x6D, 0x01, 0x00, 0x00, 0x00,
    0x01, 0x04, 0x01, 0x60, 0x00, 0x00,
    0x03, 0x02, 0x01, 0x00]

theorem bodiless_accepted : accepts bodiless := by decide +kernel

/-- The function of such a module would run from the start of the binary. -/
theorem ownBodies_fails : ¬ ∀ (data : List Byte) (m : WasmModule), parse data = .ok m → OwnBodies data m := by
  intro own
  have one : (parsed bodiless).funcCount = 1 := by decide +kernel
  have none : (parsed bodiless).bodyCount = 0 := by decide +kernel
  have count := (own _ _ (parse_parsed bodiless_accepted)).count
  rw [one, none] at count
  cases count

end GooseOs.Wasm
