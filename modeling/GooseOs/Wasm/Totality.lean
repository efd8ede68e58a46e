import GooseOs.Wasm.Framing

/-!
The parser on any bytes. A section parser within the data returns or fails, and stays within it; the loop over the
sections faults when it has forced the cursor behind the end of the data.
-/

namespace GooseOs.Wasm

open Cursor

variable {data : List Byte} {α β : Type}

/-- A parser that, started within the data, stays there without a fault and leaves the module alone. -/
def Careful (data : List Byte) (x : Parser α) : Prop :=
  ∀ s, s.pos ≤ data.length → wp x (fun _ t => t.pos ≤ data.length ∧ t.module = s.module) noFault s

/-- A parser that, started within the data on a sound module, stays there without a fault. -/
def Safe (data : List Byte) (x : Parser α) : Prop :=
  ∀ s, s.pos ≤ data.length → s.module.Sound data → wp x (fun _ t => t.pos ≤ data.length) noFault s

namespace Careful

theorem pure (a : α) : Careful data (Pure.pure a : Parser α) := fun _ within => ⟨within, rfl⟩

/-- A careful parser in front of a program, with the module named. -/
theorem then_wp {x : Parser α} {f : α → Parser β} {Q : β → Parsing → Prop} {s : Parsing} {m : WasmModule}
    (careful : Careful data x) (within : s.pos ≤ data.length) (here : s.module = m)
    (rest : ∀ a t, t.pos ≤ data.length → t.module = m → wp (f a) Q noFault t) : wp (x >>= f) Q noFault s :=
  safe_bind (careful s within) fun a t both => rest a t both.1 (both.2.trans here)

theorem bind {x : Parser α} {f : α → Parser β} (first : Careful data x) (second : ∀ a, Careful data (f a)) :
    Careful data (x >>= f) := by
  intro s within
  apply first.then_wp within rfl
  intro a t inside same
  exact wp_mono (second a t inside) (fun _ _ both => ⟨both.1, both.2.trans same⟩) fun _ _ => id

theorem ite {c : Prop} [Decidable c] {x y : Parser α} (yes : Careful data x) (no : Careful data y) :
    Careful data (if c then x else y) := by
  split
  · exact yes
  · exact no

theorem times {x : Parser Unit} (careful : Careful data x) (count : Nat) : Careful data (GooseOs.times count x) := by
  induction count with
  | zero => exact pure ()
  | succ count ih => exact careful.bind fun _ => ih

theorem safe {x : Parser α} (careful : Careful data x) : Safe data x := fun s within _ =>
  wp_mono (careful s within) (fun _ _ both => both.1) fun _ _ => id

end Careful

namespace Safe

theorem bind {x : Parser α} {f : α → Parser β} (first : Safe data x) (keeps : KeepsSound data x)
    (second : ∀ a, Safe data (f a)) : Safe data (x >>= f) := by
  intro s within sound
  apply safe_bind (R := fun _ t => t.pos ≤ data.length ∧ t.module.Sound data)
  · exact wp_mono (wp_and (first s within sound) (keeps s sound)) (fun _ _ => id) fun _ _ both => both.1
  · exact fun a t both => second a t both.1 both.2

theorem ite {c : Prop} [Decidable c] {x y : Parser α} (yes : Safe data x) (no : Safe data y) :
    Safe data (if c then x else y) := by
  split
  · exact yes
  · exact no

theorem times {x : Parser Unit} (safe : Safe data x) (keeps : KeepsSound data x) (count : Nat) :
    Safe data (GooseOs.times count x) := by
  induction count with
  | zero => exact fun _ within _ => within
  | succ count ih => exact safe.bind keeps fun _ => ih

end Safe

/-! ### The cursor -/

section Slice
variable (slice : data.length < 2 ^ 63)
include slice

theorem careful_readByte : Careful data (readByte data) := by
  intro s within
  unfold readByte
  rw [wp_bind, wp_get]
  cases found : data[s.pos]? with
  | none => exact safe_fail
  | some b =>
    have inside := (List.getElem?_eq_some_iff.mp found).1
    apply safe_plus (by omega)
    exact ⟨inside, rfl⟩

theorem careful_readU32From (left : Nat) (result : BitVec 32) (shift : Nat) (paced : shift + 7 * left = 35) :
    Careful data (readU32From data left result shift) := by
  induction left generalizing result shift with
  | zero => exact fun _ _ => safe_fail
  | succ left ih =>
    apply (careful_readByte slice).bind
    intro byte s within
    apply safe_shl (by omega)
    rw [wp_ite]
    split
    · exact ⟨within, rfl⟩
    · apply safe_plus (by omega)
      exact ih _ _ (by omega) s within

theorem careful_readU32Leb128 : Careful data (readU32Leb128 data) := careful_readU32From slice 5 0 0 rfl

theorem careful_skip (count : BitVec 32) : Careful data (skip data count.toNat) := by
  intro s within
  have small := count.isLt
  unfold skip
  rw [wp_bind, wp_get]
  apply safe_plus (by omega)
  apply safe_check
  intro inside
  exact ⟨Nat.le_of_not_lt inside, rfl⟩

theorem readBytes_safe (count : BitVec 32) (s : Parsing) (within : s.pos ≤ data.length) :
    wp (readBytes data count.toNat)
      (fun bytes t => (t.pos ≤ data.length ∧ t.module = s.module) ∧ bytes.length = count.toNat) noFault s := by
  have small := count.isLt
  unfold readBytes
  rw [wp_bind, wp_get]
  apply safe_plus (by omega)
  apply safe_check
  intro inside
  refine ⟨⟨Nat.le_of_not_lt inside, rfl⟩, ?_⟩
  rw [List.length_take, List.length_drop]
  omega

theorem careful_readValTypes {limit : Nat} (count j : Nat) (types : FixedArray limit Byte) (room : j + count ≤ limit) :
    Careful data (readValTypes data count j types) := by
  induction count generalizing j types with
  | zero => exact Careful.pure types
  | succ count ih =>
    intro s within
    rw [readValTypes]
    apply (careful_readByte slice).then_wp within rfl
    intro vt t inside same
    apply safe_check
    intro _
    apply safe_store (by omega)
    exact wp_mono (ih (j + 1) _ (by omega) t inside) (fun _ _ both => ⟨both.1, both.2.trans same⟩) fun _ _ => id

omit slice in
theorem careful_storeAll {limit : Nat} (a : FixedArray limit Byte) (i : Nat) (bytes : List Byte)
    (room : i + bytes.length ≤ limit) : Careful data (a.storeAll i bytes : Parser (FixedArray limit Byte)) := by
  induction bytes generalizing a i with
  | nil => exact Careful.pure a
  | cons b rest ih =>
    intro s within
    rw [List.length_cons] at room
    apply safe_store (by omega)
    exact ih _ _ (by omega) s within

/-! ### Section parsers -/

theorem parseType_safe : Safe data (parseType data) := by
  intro s within sound
  unfold parseType
  rw [wp_bind, wp_get]
  apply safe_check
  intro room
  apply (careful_readByte slice).then_wp within rfl
  intro form t₁ within same
  apply safe_check
  intro _
  apply (careful_readU32Leb128 slice).then_wp within same
  intro paramCount t₂ within same
  apply safe_check
  intro fewParams
  apply (careful_readValTypes slice _ 0 _ (by omega)).then_wp within same
  intro params t₃ within same
  apply (careful_readU32Leb128 slice).then_wp within same
  intro resultCount t₄ within same
  apply safe_check
  intro fewResults
  apply (careful_readValTypes slice _ 0 _ (by omega)).then_wp within same
  intro results t₅ within same
  rw [wp_bind, wp_get, same]
  apply safe_store (by omega)
  have few := sound.types
  apply safe_plus (by simp only [maxTypes] at few; omega)
  exact within

theorem parseFunction_safe : Safe data (parseFunction data) := by
  intro s within sound
  unfold parseFunction
  rw [wp_bind, wp_get]
  apply safe_check
  intro room
  apply (careful_readU32Leb128 slice).then_wp within rfl
  intro typeIdx t within same
  rw [wp_bind, wp_get, same]
  apply safe_check
  intro known
  apply safe_store (by omega)
  have few := sound.funcs
  apply safe_plus (by simp only [maxFuncs] at few; omega)
  exact within

theorem careful_skipLimits : Careful data (skipLimits data) :=
  (careful_readByte slice).bind fun _ => (careful_readU32Leb128 slice).bind fun _ =>
    ((careful_readU32Leb128 slice).bind fun _ => .pure ()).ite (.pure ())

theorem careful_skipMemory : Careful data (skipMemory data) :=
  (careful_readByte slice).bind fun _ => (careful_readU32Leb128 slice).bind fun _ =>
    ((careful_readU32Leb128 slice).bind fun _ => .pure ()).ite (.pure ())

theorem parseMemorySection_safe : Safe data (parseMemorySection data) := by
  intro s within sound
  apply (careful_readU32Leb128 slice).then_wp within rfl
  intro count t₁ within same
  rw [wp_ite]
  split
  · apply (careful_readByte slice).then_wp within same
    intro flags t₂ within same
    apply (careful_readU32Leb128 slice).then_wp within same
    intro min t₃ within same
    apply ((careful_readU32Leb128 slice).ite (.pure 0)).then_wp within same
    intro max t₄ within same
    rw [wp_bind, wp_modify]
    exact wp_mono ((careful_skipMemory slice).times _ _ within) (fun _ _ both => both.1) fun _ _ => id
  · exact within

theorem parseExport_safe : Safe data (parseExport data) := by
  intro s within sound
  unfold parseExport
  rw [wp_bind, wp_get]
  apply safe_check
  intro room
  apply (careful_readU32Leb128 slice).then_wp within rfl
  intro nameLen t₁ within same
  apply safe_check
  intro short
  apply safe_bind (readBytes_safe slice nameLen t₁ within)
  intro nameBytes t₂ ⟨⟨within, here⟩, length⟩
  apply (careful_readByte slice).then_wp within (here.trans same)
  intro kind t₃ within same
  apply safe_check
  intro _
  apply (careful_readU32Leb128 slice).then_wp within same
  intro index t₄ within same
  apply (careful_storeAll _ 0 nameBytes (by omega)).then_wp within same
  intro name t₅ within same
  rw [wp_bind, wp_get, same]
  apply safe_store (by omega)
  have few := sound.exports
  apply safe_plus (by simp only [maxExports] at few; omega)
  exact within

theorem parseBody_safe : Safe data (parseBody data) := by
  intro s within sound
  unfold parseBody
  rw [wp_bind, wp_get]
  apply safe_check
  intro room
  apply (careful_readU32Leb128 slice).then_wp within rfl
  intro bodySize t within same
  rw [wp_bind, wp_get, same]
  apply safe_store (by omega)
  have few := sound.bodies
  apply safe_plus (by simp only [maxFuncs] at few; omega)
  rw [wp_bind, wp_set]
  exact wp_mono (careful_skip slice bodySize _ within) (fun _ _ both => both.1) fun _ _ => id

theorem parseImportFunc_safe (fieldName : List Byte) : Safe data (parseImportFunc data fieldName) := by
  intro s within sound
  unfold parseImportFunc
  rw [wp_bind, wp_get]
  apply safe_check
  intro room
  apply (careful_readU32Leb128 slice).then_wp within rfl
  intro typeIdx t within same
  rw [wp_bind, wp_get, same]
  apply safe_check
  intro known
  apply safe_store (by omega)
  apply safe_load (by omega)
  apply (careful_storeAll _ 0 _ _).then_wp within same
  · intro row u _ _
    apply safe_store (by omega)
    apply safe_store (by omega)
    have few := sound.imports
    apply safe_plus (by simp only [maxImports] at few; omega)
    exact within
  · rw [List.length_take]
    split <;> omega

theorem parseImport_safe : Safe data (parseImport data) := by
  apply (careful_readU32Leb128 slice).safe.bind readU32Leb128_reads.keeps
  intro modNameLen
  apply (careful_skip slice _).safe.bind (skip_reads _).keeps
  intro _
  apply (careful_readU32Leb128 slice).safe.bind readU32Leb128_reads.keeps
  intro fieldNameLen s within sound
  apply safe_bind (readBytes_safe slice fieldNameLen s within)
  intro fieldName t ⟨⟨within, same⟩, _⟩
  apply (careful_readByte slice).then_wp within same
  intro kind u within same
  have sound := same ▸ sound
  rw [wp_ite]
  split
  · exact parseImportFunc_safe slice fieldName u within sound
  rw [wp_ite]
  split
  · exact ((careful_readByte slice).bind fun _ => careful_skipLimits slice).safe u within sound
  rw [wp_ite]
  split
  · exact (careful_skipLimits slice).safe u within sound
  rw [wp_ite]
  split
  · exact ((careful_readByte slice).bind fun _ => (careful_readByte slice).bind fun _ => .pure ()).safe u within sound
  · exact safe_fail

theorem parseDataSegment_safe : Safe data (parseDataSegment data) := by
  intro s within sound
  unfold parseDataSegment
  rw [wp_bind, wp_get]
  apply safe_check
  intro room
  apply (careful_readU32Leb128 slice).then_wp within rfl
  intro kind t₁ within same
  apply safe_check
  intro _
  apply (careful_readByte slice).then_wp within same
  intro opcode t₂ within same
  apply safe_check
  intro _
  apply (careful_readU32Leb128 slice).then_wp within same
  intro offset t₃ within same
  apply (careful_readByte slice).then_wp within same
  intro stop t₄ within same
  apply safe_check
  intro _
  apply (careful_readU32Leb128 slice).then_wp within same
  intro dataLen t₅ within same
  rw [wp_bind, wp_get]
  apply (careful_skip slice dataLen).then_wp within same
  intro _ t₆ within same
  rw [wp_bind, wp_get, same]
  apply safe_store (by omega)
  have few := sound.segments
  apply safe_plus (by simp only [maxDataSegs] at few; omega)
  exact within

theorem counted_safe {item : Parser Unit} (safe : Safe data item) (keeps : KeepsSound data item) :
    Safe data (do let count ← readU32Leb128 data; times count.toNat item) :=
  (careful_readU32Leb128 slice).safe.bind readU32Leb128_reads.keeps fun count => safe.times keeps count.toNat

theorem parsePayload_safe (sectionId : Byte) (sectionLen : BitVec 32) :
    Safe data (parsePayload data sectionId sectionLen.toNat) := by
  apply (counted_safe slice (parseType_safe slice) parseType_keeps).ite
  apply (counted_safe slice (parseImport_safe slice) parseImport_keeps).ite
  apply (counted_safe slice (parseFunction_safe slice) parseFunction_keeps).ite
  apply (parseMemorySection_safe slice).ite
  apply (counted_safe slice (parseExport_safe slice) parseExport_keeps).ite
  apply (counted_safe slice (parseBody_safe slice) parseBody_keeps).ite
  apply (counted_safe slice (parseDataSegment_safe slice) parseDataSegment_keeps).ite
  exact (careful_skip slice sectionLen).safe

/-- A section is left without a fault, wherever its declared end is. -/
theorem parseSection_safe (s : Parsing) (within : s.pos ≤ data.length) (sound : s.module.Sound data) :
    wp (parseSection data) (fun _ t => t.module.Sound data) noFault s := by
  apply (careful_readByte slice).then_wp within rfl
  intro sectionId t₁ within same
  apply (careful_readU32Leb128 slice).then_wp within same
  intro sectionLen t₂ within same
  rw [wp_bind, wp_get]
  have sound := same ▸ sound
  have small := sectionLen.isLt
  apply safe_bind (R := fun _ t => t.module.Sound data)
  · exact wp_mono (wp_and (parsePayload_safe slice sectionId sectionLen t₂ within sound)
      (parsePayload_keeps sectionId sectionLen.toNat t₂ sound)) (fun _ _ both => both.2) fun _ _ both => both.1
  · intro _ t₃ sound
    apply safe_plus (by omega)
    exact sound

/-! ### The section loop -/

/-- The loop faults exactly when it meets a section that ends behind the data. -/
theorem parseSections_fault_iff (fuel : Nat) (s : Parsing) (within : s.pos ≤ data.length) (sound : s.module.Sound data)
    (enough : data.length < s.pos + fuel) :
    (∃ u, parseSections data fuel s = .error .fault u) ↔ ∃ v ∈ visits data fuel s, data.length < v.stop := by
  induction fuel generalizing s with
  | zero => omega
  | succ fuel ih =>
    rw [parseSections, bind_run (remaining_run within), visits]
    by_cases more : s.pos < data.length
    · rw [if_pos (by omega), if_pos more]
      have safe := parseSection_safe slice s within sound
      cases result : parseSection data s with
      | error e t =>
        unfold wp at safe
        rw [result] at safe
        rw [bind_stop result]
        constructor
        · intro failed
          obtain ⟨u, same⟩ := failed
          cases same
          exact absurd rfl safe
        · intro forced
          obtain ⟨v, member, _⟩ := forced
          split at member
          · rename_i impossible
            cases impossible
          · cases member
      | ok _ t =>
        obtain ⟨sectionId, len, entry, _, head, ahead, _, moved⟩ := parseSection_eq_ok result
        have place : t.pos = entry.pos + len := congrArg Parsing.pos moved
        rw [bind_run result, head]
        by_cases inside : t.pos ≤ data.length
        · rw [ih t inside (wp_of_ok (Q := fun _ t => t.module.Sound data) safe result) (by omega)]
          simp [Visit.stop]
          omega
        · rw [parseSections_past fuel t (Nat.lt_of_not_le inside)]
          simp [Visit.stop]
          omega
    · rw [if_neg (by omega), if_neg more]
      constructor
      · intro failed
        obtain ⟨u, same⟩ := failed
        cases same
      · intro forced
        obtain ⟨v, member, _⟩ := forced
        cases member

end Slice

/-- The header is accepted, and a section whose payload its parser accepts declares an end behind the data. -/
def Overruns (data : List Byte) : Prop :=
  8 ≤ data.length ∧ data.take 4 = wasmMagic ∧ (data.drop 4).take 4 = wasmVersion ∧
    ∃ v ∈ sections data, data.length < v.stop

theorem parseModule_fault_iff (slice : data.length < 2 ^ 63) :
    (∃ u, parseModule data {} = .error .fault u) ↔ Overruns data := by
  rw [parseModule, Overruns]
  by_cases small : data.length < 8
  · rw [bind_stop (failIf_stop small)]
    simp [small]
  rw [bind_run (a := ()) (failIf_eq_ok.mpr ⟨small, rfl⟩)]
  by_cases magic : data.take 4 = wasmMagic
  case neg =>
    rw [bind_stop (failIf_stop magic)]
    simp [magic]
  rw [bind_run (a := ()) (failIf_eq_ok.mpr ⟨not_not.mpr magic, rfl⟩)]
  by_cases version : (data.drop 4).take 4 = wasmVersion
  case neg =>
    rw [bind_stop (failIf_stop version)]
    simp [version]
  rw [bind_run (a := ()) (failIf_eq_ok.mpr ⟨not_not.mpr version, rfl⟩), bind_run (a := ()) (modify_eq_ok.mpr rfl)]
  have loop := parseSections_fault_iff slice (data.length + 1) { pos := 8 } (Nat.le_of_not_lt small)
    WasmModule.sound_new (by omega)
  simp only [Nat.le_of_not_lt small, magic, version, true_and]
  rw [sections, ← loop]
  cases result : parseSections data (data.length + 1) { pos := 8 } with
  | error e t => rw [bind_stop result]
  | ok _ t =>
    rw [bind_run result, bind_run (get_eq_ok.mpr ⟨rfl, rfl⟩), failIf]
    split
    · simp [fail_run]
    · have passed : (pure () : Parser Unit) t = .ok () t := rfl
      simp [passed]

/-- The parser returns a module or an error, except on a section that ends behind the data. -/
theorem parse_total_iff (data : List Byte) (slice : data.length < 2 ^ 63) :
    parse data ≠ .error .fault ↔ ¬ Overruns data := by
  rw [ne_eq, not_iff_not, ← parseModule_fault_iff slice, parse]
  cases parseModule data {} with
  | ok _ s => simp
  | error e s => simp

theorem parse_total_strayElse : parse strayElse ≠ .error .fault ↔ ¬ Overruns strayElse :=
  parse_total_iff strayElse (by decide)

/-- A type section of no types that declares 127 bytes. -/
def overrunning : List Byte := [0x00, 0x61, 0x73, 0x6D, 0x01, 0x00, 0x00, 0x00, 0x01, 0x7F, 0x00]

theorem parse_not_total : ¬ ∀ data : List Byte, parse data ≠ .error .fault := by
  intro total
  exact total overrunning (by rfl)

end GooseOs.Wasm
