import GooseOs.Kernel.Wasi
import GooseOs.Lib.Patch
import GooseOs.Wasm.Parsed

/-!
Data segments. Initialisation writes the segments that fit over each other in their order in the binary.
-/

namespace GooseOs.Wasm

section Segments
variable {n : Nat} {ε σ : Type} {data : List Byte} {memory : LinearMemory n} {st : σ} {m : WasmModule} {seg : DataSegment}

/-- The recorded segments, in their order in the binary. -/
def WasmModule.segments (m : WasmModule) : List DataSegment :=
  (List.range m.dataSegmentCount).filterMap m.dataSegments.at?

/-- The segment fits in a memory of `n` bytes. -/
def DataSegment.Fits (seg : DataSegment) (n : Nat) : Prop := seg.offset.toNat + seg.dataLen ≤ n

/-- The segment fits, and this address is one of its own. -/
def DataSegment.Covers (seg : DataSegment) (n x : Nat) : Prop :=
  seg.Fits n ∧ seg.offset.toNat ≤ x ∧ x < seg.offset.toNat + seg.dataLen

instance (seg : DataSegment) (n : Nat) : Decidable (seg.Fits n) := inferInstanceAs (Decidable (_ ≤ _))

instance (seg : DataSegment) (n x : Nat) : Decidable (seg.Covers n x) := inferInstanceAs (Decidable (_ ∧ _ ∧ _))

/-- The bytes of a segment, at its offset. -/
def DataSegment.patch (data : List Byte) (seg : DataSegment) : Patch Byte where
  start := seg.offset.toNat
  content := (data.drop seg.dataOffset).take seg.dataLen

/-- The bytes of the binary, where the segment has them. -/
theorem patch_at? (x : Nat) : (seg.patch data).at? x =
    if seg.offset.toNat ≤ x ∧ x < seg.offset.toNat + seg.dataLen then data[seg.dataOffset + (x - seg.offset.toNat)]? else none := by
  simp only [Patch.at?, DataSegment.patch, List.getElem?_take, List.getElem?_drop]
  by_cases low : seg.offset.toNat ≤ x
  · simp only [low, if_true, true_and]
    congr 1
    simp only [eq_iff_iff]
    omega
  · simp [low]

theorem copyBytes_eq_ok {dst src : Nat} (count j : Nat)
    (addressable : src + j + count < 2 ^ 64 ∧ dst + j + count < 2 ^ 64)
    (source : src + j + count ≤ data.length) (inside : dst + j + count ≤ n) :
    (copyBytes data dst src count j memory : Prog ε σ (LinearMemory n)) st =
      .ok (memory.patch ⟨dst + j, (data.drop (src + j)).take count⟩) st := by
  induction count generalizing j memory with
  | zero => simp [copyBytes]
  | succ count ih =>
    have here : src + j < data.length := by omega
    have room : dst + j < n := by omega
    rw [copyBytes, bind_run (plus_eq_ok.mpr ⟨by omega, rfl, rfl⟩), bind_run (plus_eq_ok.mpr ⟨by omega, rfl, rfl⟩),
      List.getElem?_eq_getElem here]
    refine (bind_run (store_eq_ok.mpr ⟨room, rfl, rfl⟩)).trans ?_
    rw [ih (j + 1) (by omega) (by omega) (by omega), ← Nat.add_assoc, ← Nat.add_assoc, FixedArray.patch_update,
      List.drop_eq_getElem_cons here, List.take_succ_cons]

theorem initSegment_eq_ok (slice : data.length < 2 ^ 63) (within : seg.dataOffset + seg.dataLen ≤ data.length) :
    (initSegment data seg memory : Prog ε σ (LinearMemory n)) st =
      .ok (if seg.Fits n then memory.patch (seg.patch data) else memory) st := by
  have low := seg.offset.isLt
  rw [initSegment, bind_run (plus_eq_ok.mpr ⟨by omega, rfl, rfl⟩), bind_run (plus_eq_ok.mpr ⟨by omega, rfl, rfl⟩)]
  by_cases fits : seg.Fits n
  · have inside : seg.offset.toNat + seg.dataLen ≤ n := fits
    rw [if_neg (by omega), if_pos fits, copyBytes_eq_ok seg.dataLen 0 (by omega) (by omega) (by omega)]
    rfl
  · rw [if_pos (.inl (Nat.lt_of_not_le fits)), if_neg fits]
    rfl

/-- The patches of the segments that fit. -/
def fitting (data : List Byte) (n : Nat) (segs : List DataSegment) : List (Patch Byte) :=
  (segs.filter fun seg => seg.Fits n).map (DataSegment.patch data)

theorem initSegments_eq_ok (slice : data.length < 2 ^ 63)
    (within : ∀ i, (m.dataSegments i).dataOffset + (m.dataSegments i).dataLen ≤ data.length) (count i : Nat)
    (bound : i + count ≤ maxDataSegs) :
    (initSegments m data count i memory : Prog ε σ (LinearMemory n)) st =
      .ok (memory.patchAll (fitting data n ((List.range' i count).filterMap m.dataSegments.at?))) st := by
  induction count generalizing i memory with
  | zero => rfl
  | succ count ih =>
    have inside : i < maxDataSegs := by omega
    have here : m.dataSegments.at? i = some (m.dataSegments ⟨i, inside⟩) := dif_pos inside
    rw [initSegments, bind_run (load_eq_ok.mpr ⟨inside, rfl, rfl⟩),
      bind_run (initSegment_eq_ok slice (within ⟨i, inside⟩)), ih (i + 1) (by omega), List.range'_succ,
      List.filterMap_cons_some here, fitting, fitting, List.filter_cons]
    by_cases fits : (m.dataSegments ⟨i, inside⟩).Fits n
    · rw [if_pos fits, if_pos (by simpa using fits)]
      rfl
    · rw [if_neg fits, if_neg (by simpa using fits)]

/-- The last of these patches at an address is that of the last segment that covers it. -/
theorem lastAt?_fitting (segs : List DataSegment) (within : ∀ seg ∈ segs, seg.dataOffset + seg.dataLen ≤ data.length)
    (x : Nat) : Patch.lastAt? (fitting data n segs) x =
      (segs.reverse.find? fun seg => seg.Covers n x).bind fun seg => data[seg.dataOffset + (x - seg.offset.toNat)]? := by
  induction segs using List.reverseRecOn with
  | nil => rfl
  | append_singleton segs seg ih =>
    have ih := ih fun other member => within other (List.mem_append_left _ member)
    have own := within seg (by simp)
    rw [List.reverse_append, List.reverse_singleton, List.singleton_append, List.find?_cons, fitting, List.filter_append,
      List.map_append]
    by_cases fits : seg.Fits n
    · have only : [seg].filter (fun seg => seg.Fits n) = [seg] := by simp [fits]
      rw [only, List.map_singleton, Patch.lastAt?_concat, patch_at?, ← fitting, ih]
      by_cases covers : seg.offset.toNat ≤ x ∧ x < seg.offset.toNat + seg.dataLen
      · have there : seg.dataOffset + (x - seg.offset.toNat) < data.length := by omega
        have all : seg.Covers n x := ⟨fits, covers⟩
        simp [covers, all, there]
      · have outside : ¬ seg.Covers n x := fun all => covers all.2
        simp [covers, outside]
    · have none : [seg].filter (fun seg => seg.Fits n) = [] := by simp [fits]
      have outside : ¬ seg.Covers n x := fun all => fits all.1
      rw [none, List.map_nil, List.append_nil, ← fitting, ih]
      simp [outside]

theorem WasmModule.Sound.segments_within (sound : m.Sound data) :
    ∀ seg ∈ m.segments, seg.dataOffset + seg.dataLen ≤ data.length := by
  intro seg member
  obtain ⟨i, _, found⟩ := List.mem_filterMap.mp member
  obtain ⟨inside, here⟩ := Option.dite_none_right_eq_some.mp found
  cases here
  exact sound.segment ⟨i, inside⟩

/-- Initialisation returns, and every byte of the memory is that of the last segment that fits and covers it. -/
theorem initDataSegments_overlay (slice : data.length < 2 ^ 63) (accepted : parse data = .ok m) (memory : LinearMemory n)
    (st : σ) : ∃ filled : LinearMemory n,
      (initDataSegments m data memory : Prog ε σ (LinearMemory n)) st = .ok filled st ∧
      ∀ x : Fin n, some (filled x) =
        match m.segments.reverse.find? fun seg => seg.Covers n x with
        | some seg => data[seg.dataOffset + (x - seg.offset.toNat)]?
        | none => some (memory x) := by
  have sound := sound_of_parse accepted
  refine ⟨memory.patchAll (fitting data n m.segments), ?_, fun x => ?_⟩
  · rw [initDataSegments, initSegments_eq_ok slice sound.segment _ 0 (by rw [Nat.zero_add]; exact sound.segments),
      WasmModule.segments, List.range_eq_range']
  · rw [FixedArray.patchAll_apply, lastAt?_fitting m.segments sound.segments_within]
    cases found : m.segments.reverse.find? fun seg => seg.Covers n x with
    | none => rfl
    | some seg =>
      have member : seg ∈ m.segments := List.mem_reverse.mp (List.mem_of_find?_eq_some found)
      have within := sound.segments_within seg member
      have covers : seg.Covers n x := by simpa using List.find?_some found
      have there : seg.dataOffset + (x - seg.offset.toNat) < data.length := by
        obtain ⟨_, low, high⟩ := covers
        omega
      simp [there]

end Segments

/-- Two segments, the second over the end of the first. -/
def overlapping : List Byte :=
  [0x00, 0x61, 0x73, 0x6D, 0x01, 0x00, 0x00, 0x00,
    0x0B, 0x0E, 0x02,
    0x00, 0x41, 0x00, 0x0B, 0x02, 0xAA, 0xBB,
    0x00, 0x41, 0x01, 0x0B, 0x01, 0xCC]

theorem overlapping_accepted : accepts overlapping := by decide +kernel

theorem initDataSegments_overlapping : ∃ filled : LinearMemory 65536,
    (initDataSegments (parsed overlapping) overlapping (fun _ => 0) : Prog TrapKind Unit (LinearMemory 65536)) () =
      .ok filled () ∧
    ∀ x : Fin 65536, some (filled x) =
      match (parsed overlapping).segments.reverse.find? fun seg => seg.Covers 65536 x with
      | some seg => overlapping[seg.dataOffset + (x - seg.offset.toNat)]?
      | none => some 0 :=
  initDataSegments_overlay (by decide) (parse_parsed overlapping_accepted) (fun _ => 0) ()

end GooseOs.Wasm
