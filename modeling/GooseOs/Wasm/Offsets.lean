import GooseOs.Wasm.DataSegments
import GooseOs.Wasm.Numbers
import GooseOs.Wasm.Operations

/-!
The offset of a data segment. The parser reads the immediate of its `i32.const` without a sign, the interpreter with
one; they agree when the encoding is full or its sign bit is clear.
-/

namespace GooseOs.Leb128

variable {enc : List Byte}

theorem signedValue_eq (complete : Complete enc) : ∃ last, enc.getLast? = some last ∧ last.toNat < 128 ∧
    signedValue enc = value enc + (128 ^ enc.length : Nat) * sign last := by
  obtain ⟨init, last, rfl, small, total, signed⟩ := complete.split
  refine ⟨last, List.getLast?_concat, small, ?_⟩
  rw [signed, total, List.length_append, List.length_singleton, Nat.pow_succ]
  push_cast
  ring

/-- In 32 bits the sign is lost when there are five bytes. -/
theorem signed_eq_unsigned_iff (complete : Complete enc) (short : enc.length ≤ 5) :
    BitVec.ofInt 32 (signedValue enc) = BitVec.ofInt 32 (value enc) ↔
      enc.length = 5 ∨ ∃ last, enc.getLast? = some last ∧ last.toNat < 64 := by
  obtain ⟨last, final, small, signed⟩ := signedValue_eq complete
  simp only [final, Option.some.injEq, exists_eq_left']
  have words : BitVec.ofInt 32 (signedValue enc) = BitVec.ofInt 32 (value enc) ↔
      signedValue enc % 2 ^ 32 = value enc % 2 ^ 32 := by
    constructor
    · intro same
      have := congrArg BitVec.toNat same
      rw [BitVec.toNat_ofInt, BitVec.toNat_ofInt] at this
      omega
    · intro same
      apply BitVec.eq_of_toNat_eq
      rw [BitVec.toNat_ofInt, BitVec.toNat_ofInt]
      exact congrArg Int.toNat same
  rw [words, signed, sign, Nat.mod_eq_of_lt small]
  split
  · next clear => simp [clear]
  · next set_ =>
    rcases Nat.lt_or_eq_of_le short with shorter | full
    · have high : 128 ^ enc.length ≤ 128 ^ 4 := Nat.pow_le_pow_right (by decide) (Nat.le_of_lt_succ shorter)
      have low : 0 < 128 ^ enc.length := Nat.pow_pos (by decide)
      omega
    · rw [full]
      omega

end GooseOs.Leb128

namespace GooseOs.Wasm

open Leb128

/-- The instruction at `q` pushes `v`, whatever the program around it and whatever is on the stack. -/
def Pushes (code : List Byte) (q : Nat) (v : BitVec 32) : Prop :=
  ∀ (n : Nat) (σ : Type) (m : WasmModule) (numImports : BitVec 32) (h : HostFunctions n σ) (s : Machine n σ),
    s.pc = q → s.sp < maxStack → ∃ t, step ⟨m, code, numImports⟩ h s = .ok .next t ∧ t.sp = s.sp + 1 ∧
      t.stack.at? s.sp = some (v.setWidth 64)

/-- Initialisation writes the segment's bytes from `addr` on, in every memory that has room for them there. -/
def Lands (data : List Byte) (seg : DataSegment) (addr : BitVec 32) : Prop :=
  ∀ (n : Nat) (memory : LinearMemory n), addr.toNat + seg.dataLen ≤ n →
    ∃ filled : LinearMemory n, (initSegment data seg memory : Prog TrapKind Unit (LinearMemory n)) () = .ok filled () ∧
      ∀ j < seg.dataLen, filled.at? (addr.toNat + j) = data[seg.dataOffset + j]?

/-- The immediate at `pos` takes five bytes, or its sign bit is clear. -/
def SignLess (data : List Byte) (pos : Nat) : Prop :=
  ∃ enc, Complete enc ∧ enc <+: data.drop pos ∧
    (enc.length = 5 ∨ ∃ last, enc.getLast? = some last ∧ last.toNat < 64)

section Offsets
variable {data : List Byte} {s t : Parsing} {seg : DataSegment} {q pos : Nat} {v : BitVec 32}

theorem lands_offset (slice : data.length < 2 ^ 63) (within : seg.dataOffset + seg.dataLen ≤ data.length) :
    Lands data seg seg.offset := by
  intro n memory fits
  refine ⟨_, initSegment_eq_ok slice within, fun j below => ?_⟩
  have there : (seg.patch data).at? (seg.offset.toNat + j) = some data[seg.dataOffset + j] := by
    rw [patch_at?, if_pos (by omega), Nat.add_sub_cancel_left, List.getElem?_eq_getElem (by omega)]
  rw [if_pos (show seg.Fits n from fits), FixedArray.at?, dif_pos (by omega), FixedArray.patch_inside _ there,
    List.getElem?_eq_getElem (by omega)]

/-- `i32.const` pushes the signed reading of its immediate. -/
theorem pushes_iff (slice : data.length < 2 ^ 63) {enc : List Byte} (opcode : data[q]? = some 0x41)
    (complete : Complete enc) (short : enc.length ≤ 5) (inside : enc <+: data.drop (q + 1)) :
    Pushes data q v ↔ v = BitVec.ofInt 32 (signedValue enc) := by
  have read : Reader.fetch data q = .ok (.i32Const (BitVec.ofInt 32 (signedValue enc))) (q + 1 + enc.length) := by
    refine bind_eq_ok.mpr ⟨_, _, (Reader.readByte_of_slice slice _ _ _).mpr ⟨opcode, rfl⟩, ?_⟩
    exact map_eq_ok.mpr ⟨_, (Reader.readI32Leb128_eq_ok slice).mpr ⟨enc, ⟨complete, short, inside⟩, rfl, rfl⟩, rfl⟩
  constructor
  · intro pushes
    obtain ⟨u, went, _, there⟩ := pushes 0 Unit {} 0 (noHost 0) { pc := q, memory := fun _ => 0, host := () } rfl
      (show 0 < maxStack by decide)
    obtain ⟨instr, pc, fetched, ran⟩ := step_eq_ok.mp went
    rw [read] at fetched
    cases fetched
    obtain ⟨_, _, pushed, rest⟩ := bind_eq_ok.mp ran
    obtain ⟨room, same⟩ := push_ok.mp pushed
    obtain ⟨_, last⟩ := pure_eq_ok.mp rest
    subst same last
    have wide : (BitVec.ofInt 32 (signedValue enc)).setWidth 64 = v.setWidth 64 := by
      rw [FixedArray.at?_update, if_pos rfl] at there
      exact Option.some.inj there
    have narrow := congrArg (BitVec.setWidth 32) wide
    rw [BitVec.setWidth_setWidth_of_le _ (by decide), BitVec.setWidth_setWidth_of_le _ (by decide)] at narrow
    simpa using narrow.symm
  · intro same
    subst same
    intro n σ m numImports h s place room
    subst place
    refine ⟨_, step_eq_ok.mpr ⟨_, _, read, bind_eq_ok.mpr ⟨(), _, push_ok.mpr ⟨room, rfl⟩, rfl⟩⟩, rfl, ?_⟩
    rw [FixedArray.at?_update, if_pos rfl]

/-- The expression stands behind the segment's kind; its immediate is read without a sign. -/
theorem parseDataSegment_eq_ok (slice : data.length < 2 ^ 63) (accepted : parseDataSegment data s = .ok () t) :
    ∃ q seg enc, Cursor.readU32Leb128 data s = .ok 0 { s with pos := q } ∧
      t.module.dataSegments.at? s.module.dataSegmentCount = some seg ∧
      seg.dataOffset + seg.dataLen ≤ data.length ∧ data[q]? = some 0x41 ∧ Complete enc ∧ enc.length ≤ 5 ∧
      enc <+: data.drop (q + 1) ∧ seg.offset = BitVec.ofInt 32 (value enc) := by
  simp only [parseDataSegment, bind_eq_ok, get_eq_ok, failIf_eq_ok, plus_eq_ok, set_eq_ok, store_eq_ok] at accepted
  obtain ⟨_, _, ⟨rfl, rfl⟩, _, _, ⟨_, rfl⟩, kind, s₁, zero, _, _, ⟨active, rfl⟩, opcode, s₂, read, _, _, ⟨const, rfl⟩,
    offset, s₃, number, _, s₄, stop, _, _, ⟨_, rfl⟩, dataLen, s₅, length, _, _, ⟨rfl, rfl⟩, _, s₆, skipped, _, _,
    ⟨rfl, rfl⟩, _, _, ⟨inside, rfl, rfl⟩, _, _, ⟨_, rfl, rfl⟩, rfl⟩ := accepted
  obtain rfl := not_not.mp active
  obtain rfl := not_not.mp const
  obtain ⟨first, _, _, rfl⟩ := (Cursor.readU32Leb128_eq_ok slice).mp zero
  obtain ⟨there, rfl⟩ := (Cursor.readByte_of_slice slice _ _ _).mp read
  obtain ⟨enc, ⟨complete, short, front⟩, rfl, rfl⟩ := (Cursor.readU32Leb128_eq_ok slice).mp number
  obtain ⟨_, rfl⟩ := (Cursor.readByte_of_slice slice _ _ _).mp stop
  obtain ⟨_, _, _, rfl⟩ := (Cursor.readU32Leb128_eq_ok slice).mp length
  obtain ⟨_, within, rfl⟩ := skip_eq_ok.mp skipped
  refine ⟨_, ⟨BitVec.ofInt 32 (value enc), _, _⟩, enc, zero, ?_, within, there, complete, short, front, rfl⟩
  rw [FixedArray.at?_update, if_pos rfl]
  rfl

/-- The parser's offset is where the module's own `i32.const` points exactly when the two readings share all bits. -/
theorem dataSegment_offset_iff (slice : data.length < 2 ^ 63) (accepted : parseDataSegment data s = .ok () t) :
    ∃ q seg, Cursor.readU32Leb128 data s = .ok 0 { s with pos := q } ∧
      t.module.dataSegments.at? s.module.dataSegmentCount = some seg ∧
      ((∃ v, Pushes data q v ∧ seg.offset = v ∧ Lands data seg v) ↔ SignLess data (q + 1)) := by
  obtain ⟨q, seg, enc, kind, recorded, within, opcode, complete, short, inside, offset⟩ :=
    parseDataSegment_eq_ok slice accepted
  refine ⟨q, seg, kind, recorded, ?_⟩
  have alike : BitVec.ofInt 32 (signedValue enc) = seg.offset ↔ SignLess data (q + 1) := by
    rw [offset, signed_eq_unsigned_iff complete short]
    constructor
    · exact fun shared => ⟨enc, complete, inside, shared⟩
    · intro ⟨enc', complete', inside', shared⟩
      rwa [complete.unique complete' inside inside']
  rw [← alike]
  constructor
  · intro ⟨v, pushes, same, _⟩
    rw [same]
    exact ((pushes_iff slice opcode complete short inside).mp pushes).symm
  · intro same
    exact ⟨seg.offset, (pushes_iff slice opcode complete short inside).mpr same.symm, rfl, lands_offset slice within⟩

end Offsets

/-- One segment of one byte at `i32.const 127`, and at the byte `0x7F` on its own. -/
def paddedSegment : List Byte := [0x00, 0x41, 0xFF, 0x00, 0x0B, 0x01, 0xAA]

def bareSegment : List Byte := [0x00, 0x41, 0x7F, 0x0B, 0x01, 0xAA]

theorem dataSegment_offset_padded : ∃ q seg, Cursor.readU32Leb128 paddedSegment {} = .ok 0 { pos := q } ∧
    (after (parseDataSegment paddedSegment) {}).module.dataSegments.at? 0 = some seg ∧
    ((∃ v, Pushes paddedSegment q v ∧ seg.offset = v ∧ Lands paddedSegment seg v) ↔ SignLess paddedSegment (q + 1)) :=
  dataSegment_offset_iff (by decide) (ok_of_returns (a := ()) (by decide +kernel))

/-- The parser stores 127 where `i32.const` pushes -1. -/
theorem dataSegment_offset_differs : ¬ ∀ (data : List Byte) (s t : Parsing), parseDataSegment data s = .ok () t →
    ∃ q seg, Cursor.readU32Leb128 data s = .ok 0 { s with pos := q } ∧
      t.module.dataSegments.at? s.module.dataSegmentCount = some seg ∧
      ∃ v, Pushes data q v ∧ seg.offset = v ∧ Lands data seg v := by
  intro agree
  have accepted : parseDataSegment bareSegment {} = .ok () (after (parseDataSegment bareSegment) {}) :=
    ok_of_returns (by decide +kernel)
  obtain ⟨q, seg, kind, recorded, v, pushes, same, _⟩ := agree _ _ _ accepted
  have place : q = 1 := by
    have first : Cursor.readU32Leb128 bareSegment {} = .ok 0 { pos := 1 } := rfl
    rw [first] at kind
    cases kind
    rfl
  subst place
  have offset : (after (parseDataSegment bareSegment) {}).module.dataSegments.at? 0 = some ⟨127, 5, 1⟩ := by rfl
  have minusOne : v = BitVec.ofInt 32 (signedValue [0x7F]) :=
    (pushes_iff (by decide) rfl (by simp [Complete]) (by decide) ⟨[0x0B, 0x01, 0xAA], rfl⟩).mp pushes
  rw [show ({} : Parsing).module.dataSegmentCount = 0 from rfl, offset] at recorded
  cases recorded
  rw [minusOne] at same
  exact absurd same (by decide)

end GooseOs.Wasm
