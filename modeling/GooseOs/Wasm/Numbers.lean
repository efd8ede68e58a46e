import GooseOs.Kernel.Opcode
import GooseOs.Lib.Varint
import GooseOs.Wasm.Framing

/-!
The four LEB128 decoders: what they return for every encoding, padded and overlong ones included. They drop the
bits of a last byte that do not fit.
-/

namespace GooseOs.Wasm

open Leb128

/-- `Cursor::read_u32_leb128` of the parser, and the three decoders of the interpreter. -/
inductive Decoder where
  | cursorU32 | u32 | i32 | i64
  deriving DecidableEq

namespace Decoder

/-- The bytes of the longest encoding. -/
def limit : Decoder → Nat
  | cursorU32 | u32 | i32 => 5
  | i64 => 10

/-- The number these bytes encode. -/
def number (d : Decoder) (bytes : List Byte) : Int :=
  match d with
  | cursorU32 | u32 => value bytes
  | i32 | i64 => signedValue bytes

/-- The numbers of the type. -/
def InRange (d : Decoder) (z : Int) : Prop :=
  match d with
  | cursorU32 | u32 => 0 ≤ z ∧ z < 2 ^ 32
  | i32 => -2 ^ 31 ≤ z ∧ z < 2 ^ 31
  | i64 => -2 ^ 63 ≤ z ∧ z < 2 ^ 63

/-- The number a reader returns, and the position it stops at. -/
def outcome {ε σ α : Type} (read : Prog ε σ α) (s : σ) (number : α → Int) (place : σ → Nat) : Option (Int × Nat) :=
  match read s with
  | .ok v t => some (number v, place t)
  | .error _ _ => none

def decode (m : WasmModule) (data : List Byte) (pos : Nat) : Decoder → Option (Int × Nat)
  | cursorU32 => outcome (Cursor.readU32Leb128 data) ⟨pos, m⟩ (fun v => v.toNat) Parsing.pos
  | u32 => outcome (Reader.readU32Leb128 data) pos (fun v => v.toNat) id
  | i32 => outcome (Reader.readI32Leb128 data) pos BitVec.toInt id
  | i64 => outcome (Reader.readI64Leb128 data) pos BitVec.toInt id

/-- What is left of a number in the type. -/
def wrap (d : Decoder) (z : Int) : Int :=
  match d with
  | cursorU32 | u32 => (BitVec.ofInt 32 z).toNat
  | i32 => (BitVec.ofInt 32 z).toInt
  | i64 => (BitVec.ofInt 64 z).toInt

/-- The decoder returns exactly the numbers of its type that are encoded in front of the bytes. -/
def Exact (m : WasmModule) (data : List Byte) (pos : Nat) (d : Decoder) : Prop :=
  ∀ z stop, d.decode m data pos = some (z, stop) ↔ ∃ enc, Complete enc ∧ enc.length ≤ d.limit ∧ enc <+: data.drop pos ∧
    d.InRange z ∧ z = d.number enc ∧ stop = pos + enc.length

/-- A last byte at the limit with bits the type has no room for. -/
def Excess (d : Decoder) (last : Byte) : Prop :=
  match d with
  | cursorU32 | u32 => 16 ≤ last.toNat
  | i32 => 8 ≤ last.toNat ∧ last.toNat < 120
  | i64 => 1 ≤ last.toNat ∧ last.toNat < 127

/-- An encoding of full length is in front of the bytes, and its last byte does not fit. -/
def Overfull (data : List Byte) (pos : Nat) (d : Decoder) : Prop :=
  ∃ enc, Complete enc ∧ enc.length = d.limit ∧ enc <+: data.drop pos ∧ ∃ last, enc.getLast? = some last ∧ d.Excess last

end Decoder

/-! ### The decoders -/

section Decoders
variable {m : WasmModule} {data : List Byte} {pos : Nat} {enc : List Byte} (slice : data.length < 2 ^ 63)

theorem Reader.readByte_eq_ok {b : Byte} {u : Nat} :
    Reader.readByte data pos = .ok b u ↔ data[pos]? = some b ∧ pos + 1 < 2 ^ 64 ∧ u = pos + 1 := by
  rw [Reader.readByte, bind_run (get_eq_ok.mpr ⟨rfl, rfl⟩)]
  cases data[pos]? with
  | none => simp
  | some v =>
    simp only [bind_eq_ok, plus_eq_ok, set_eq_ok, pure_eq_ok, Option.some.injEq]
    constructor
    · intro run
      obtain ⟨_, _, ⟨fits, same, _⟩, _, _, moved, here, stays⟩ := run
      subst same moved here stays
      exact ⟨rfl, fits, rfl⟩
    · intro read
      obtain ⟨here, fits, moved⟩ := read
      subst here moved
      exact ⟨_, _, ⟨fits, rfl, rfl⟩, (), _, rfl, rfl, rfl⟩

theorem Decoder.outcome_eq_some {ε σ α : Type} {read : Prog ε σ α} {s : σ} {number : α → Int} {place : σ → Nat} {z : Int}
    {stop : Nat} {p : List Byte → Prop} {v : List Byte → α} {t : List Byte → σ}
    (returns : ∀ a u, read s = .ok a u ↔ ∃ enc, p enc ∧ a = v enc ∧ u = t enc) :
    Decoder.outcome read s number place = some (z, stop) ↔ ∃ enc, p enc ∧ z = number (v enc) ∧ stop = place (t enc) := by
  unfold Decoder.outcome
  constructor
  · intro found
    split at found
    · next a u result =>
      obtain ⟨enc, holds, value, last⟩ := (returns a u).mp result
      subst value last
      cases found
      exact ⟨enc, holds, rfl, rfl⟩
    · cases found
  · intro ⟨enc, holds, value, last⟩
    rw [(returns (v enc) (t enc)).mpr ⟨enc, holds, rfl, rfl⟩, value, last]

include slice

theorem Reader.readByte_of_slice (pos : Nat) (b : Byte) (u : Nat) :
    Reader.readByte data pos = .ok b u ↔ data[pos]? = some b ∧ u = pos + 1 := by
  rw [Reader.readByte_eq_ok]
  refine and_congr_right fun found => and_iff_right ?_
  have inside := (List.getElem?_eq_some_iff.mp found).1
  omega

theorem Cursor.readByte_of_slice (pos : Nat) (b : Byte) (u : Parsing) :
    Cursor.readByte data ⟨pos, m⟩ = .ok b u ↔ data[pos]? = some b ∧ u = ⟨pos + 1, m⟩ := by
  rw [Wasm.readByte_eq_ok]
  refine and_congr_right fun found => and_iff_right ?_
  have inside := (List.getElem?_eq_some_iff.mp found).1
  show pos + 1 < _
  have : pos < data.length := inside
  omega

theorem Reader.supplies_of_slice {t : Nat} :
    Supplies (Reader.readByte data) pos enc t ↔ enc <+: data.drop pos ∧ t = pos + enc.length :=
  supplies_iff id (Reader.readByte_of_slice slice)

theorem Cursor.supplies_of_slice {t : Parsing} :
    Supplies (Cursor.readByte data) ⟨pos, m⟩ enc t ↔ enc <+: data.drop pos ∧ t = ⟨pos + enc.length, m⟩ :=
  supplies_iff (fun pos => (⟨pos, m⟩ : Parsing)) (Cursor.readByte_of_slice slice)

theorem Cursor.readU32Leb128_eq_ok {v : BitVec 32} {t : Parsing} :
    Cursor.readU32Leb128 data ⟨pos, m⟩ = .ok v t ↔ ∃ enc,
      (Complete enc ∧ enc.length ≤ 5 ∧ enc <+: data.drop pos) ∧ v = BitVec.ofInt 32 (value enc) ∧ t = ⟨pos + enc.length, m⟩ := by
  rw [Cursor.readU32Leb128, reads_unsigned_exactly (fun _ _ _ => rfl) (fun _ _ _ => rfl) (by decide) (by decide)]
  refine exists_congr fun enc => ?_
  rw [Cursor.supplies_of_slice slice]
  grind

theorem Reader.readU32Leb128_eq_ok {v : BitVec 32} {t : Nat} :
    Reader.readU32Leb128 data pos = .ok v t ↔ ∃ enc,
      (Complete enc ∧ enc.length ≤ 5 ∧ enc <+: data.drop pos) ∧ v = BitVec.ofInt 32 (value enc) ∧ t = pos + enc.length := by
  rw [Reader.readU32Leb128, reads_unsigned_exactly (fun _ _ _ => rfl) (fun _ _ _ => rfl) (by decide) (by decide)]
  refine exists_congr fun enc => ?_
  rw [Reader.supplies_of_slice slice]
  grind

theorem Reader.readI32Leb128_eq_ok {v : BitVec 32} {t : Nat} :
    Reader.readI32Leb128 data pos = .ok v t ↔ ∃ enc,
      (Complete enc ∧ enc.length ≤ 5 ∧ enc <+: data.drop pos) ∧ v = BitVec.ofInt 32 (signedValue enc) ∧ t = pos + enc.length := by
  rw [Reader.readI32Leb128, reads_signed_exactly (fun _ _ _ => rfl) (fun _ _ _ => rfl) (by decide) (by decide)]
  refine exists_congr fun enc => ?_
  rw [Reader.supplies_of_slice slice]
  grind

theorem Reader.readI64Leb128_eq_ok {v : BitVec 64} {t : Nat} :
    Reader.readI64Leb128 data pos = .ok v t ↔ ∃ enc,
      (Complete enc ∧ enc.length ≤ 10 ∧ enc <+: data.drop pos) ∧ v = BitVec.ofInt 64 (signedValue enc) ∧ t = pos + enc.length := by
  rw [Reader.readI64Leb128, reads_signed_exactly (fun _ _ _ => rfl) (fun _ _ _ => rfl) (by decide) (by decide)]
  refine exists_congr fun enc => ?_
  rw [Reader.supplies_of_slice slice]
  grind

namespace Decoder

/-- Every decoder returns what its type has room for, of the number in front. -/
theorem decode_eq_some {d : Decoder} {z : Int} {stop : Nat} :
    d.decode m data pos = some (z, stop) ↔ ∃ enc, (Complete enc ∧ enc.length ≤ d.limit ∧ enc <+: data.drop pos) ∧
      z = d.wrap (d.number enc) ∧ stop = pos + enc.length := by
  cases d with
  | cursorU32 => exact outcome_eq_some fun a u => Cursor.readU32Leb128_eq_ok slice
  | u32 => exact outcome_eq_some fun a u => Reader.readU32Leb128_eq_ok slice
  | i32 => exact outcome_eq_some fun a u => Reader.readI32Leb128_eq_ok slice
  | i64 => exact outcome_eq_some fun a u => Reader.readI64Leb128_eq_ok slice

end Decoder

end Decoders

/-! ### Numbers that fit -/

namespace Decoder
variable {m : WasmModule} {data : List Byte} {pos : Nat} {enc : List Byte} {d : Decoder} {z : Int}

theorem wrap_of_inRange (fits : d.InRange z) : d.wrap z = z := by
  cases d with
  | cursorU32 | u32 =>
    obtain ⟨low, high⟩ := fits
    rw [wrap, BitVec.toNat_ofInt]
    omega
  | i32 =>
    obtain ⟨low, high⟩ := fits
    exact BitVec.toInt_ofInt_eq_self (by decide) low high
  | i64 =>
    obtain ⟨low, high⟩ := fits
    exact BitVec.toInt_ofInt_eq_self (by decide) low high

/-- Only a last byte at the limit can take a number out of its type. -/
theorem inRange_iff (complete : Complete enc) (short : enc.length ≤ d.limit) :
    d.InRange (d.number enc) ↔ ¬ (enc.length = d.limit ∧ ∃ last, enc.getLast? = some last ∧ d.Excess last) := by
  rcases Nat.lt_or_eq_of_le short with shorter | full
  · refine iff_of_true ?_ fun both => absurd both.1 shorter.ne
    have bound := value_lt enc
    have bounds := signedValue_bounds complete.ne_nil
    cases d with
    | cursorU32 | u32 =>
      have : 128 ^ enc.length ≤ 128 ^ 4 := Nat.pow_le_pow_right (by decide) (Nat.le_of_lt_succ shorter)
      exact ⟨Int.natCast_nonneg _, by simp only [number]; omega⟩
    | i32 =>
      have : 128 ^ (enc.length - 1) ≤ 128 ^ 3 := Nat.pow_le_pow_right (by decide) (Nat.pred_le_pred (Nat.le_of_lt_succ shorter))
      exact ⟨by simp only [number]; omega, by simp only [number]; omega⟩
    | i64 =>
      have : 128 ^ (enc.length - 1) ≤ 128 ^ 8 := Nat.pow_le_pow_right (by decide) (Nat.pred_le_pred (Nat.le_of_lt_succ shorter))
      exact ⟨by simp only [number]; omega, by simp only [number]; omega⟩
  · obtain ⟨init, last, rfl, small, total, signed⟩ := complete.split
    have bound := value_lt init
    rw [List.length_append, List.length_singleton] at full
    simp only [List.getLast?_concat, Option.some.injEq, exists_eq_left', List.length_append, List.length_singleton, full,
      true_and]
    cases d with
    | cursorU32 | u32 =>
      have four : init.length = 4 := Nat.succ.inj full
      rw [four] at total bound
      simp only [InRange, number, Excess, total]
      omega
    | i32 =>
      have four : init.length = 4 := Nat.succ.inj full
      rw [four] at signed bound
      simp only [InRange, number, Excess, signed, sign]
      split <;> omega
    | i64 =>
      have nine : init.length = 9 := Nat.succ.inj full
      rw [nine] at signed bound
      simp only [InRange, number, Excess, signed, sign]
      split <;> omega

/-- An encoding of a number of the type gives the number back, whatever its padding. -/
theorem decode_of_inRange (slice : data.length < 2 ^ 63) (m : WasmModule) (complete : Complete enc)
    (short : enc.length ≤ d.limit) (inside : enc <+: data.drop pos) (fits : d.InRange (d.number enc)) :
    d.decode m data pos = some (d.number enc, pos + enc.length) :=
  (decode_eq_some slice).mpr ⟨enc, ⟨complete, short, inside⟩, (wrap_of_inRange fits).symm, rfl⟩

theorem exact_iff (slice : data.length < 2 ^ 63) (m : WasmModule) : d.Exact m data pos ↔ ¬ d.Overfull data pos := by
  constructor
  · intro exact ⟨enc, complete, full, inside, excess⟩
    have returned : d.decode m data pos = some (d.wrap (d.number enc), pos + enc.length) :=
      (decode_eq_some slice).mpr ⟨enc, ⟨complete, full.le, inside⟩, rfl, rfl⟩
    obtain ⟨enc', complete', _, inside', fits, same, _⟩ := (exact _ _).mp returned
    rw [← complete.unique complete' inside inside'] at same
    rw [same] at fits
    exact (inRange_iff complete full.le).mp fits ⟨full, excess⟩
  · intro room z stop
    rw [decode_eq_some slice]
    constructor
    · intro ⟨enc, ⟨complete, short, inside⟩, number, last⟩
      have fits : d.InRange (d.number enc) :=
        (inRange_iff complete short).mpr fun ⟨full, excess⟩ => room ⟨enc, complete, full, inside, excess⟩
      rw [wrap_of_inRange fits] at number
      exact ⟨enc, complete, short, inside, number ▸ fits, number, last⟩
    · intro ⟨enc, complete, short, inside, fits, number, last⟩
      refine ⟨enc, ⟨complete, short, inside⟩, ?_, last⟩
      rw [← number, wrap_of_inRange fits]

end Decoder

/-- A decoder is exact wherever no encoding of full length has bits that do not fit; the two decoders of unsigned
numbers agree everywhere. -/
theorem decoders_exact (m : WasmModule) (data : List Byte) (slice : data.length < 2 ^ 63) (pos : Nat) :
    (∀ d : Decoder, d.Exact m data pos ↔ ¬ d.Overfull data pos) ∧
      Decoder.cursorU32.decode m data pos = Decoder.u32.decode m data pos := by
  refine ⟨fun d => Decoder.exact_iff slice m, Option.ext fun (z, stop) => ?_⟩
  exact (Decoder.decode_eq_some slice).trans (Decoder.decode_eq_some (d := .u32) slice).symm

theorem decoders_exact_multibyte : (∀ d : Decoder, d.Exact {} [0xE5, 0x8E, 0x26] 0 ↔ ¬ d.Overfull [0xE5, 0x8E, 0x26] 0) ∧
    Decoder.cursorU32.decode {} [0xE5, 0x8E, 0x26] 0 = Decoder.u32.decode {} [0xE5, 0x8E, 0x26] 0 :=
  decoders_exact {} [0xE5, 0x8E, 0x26] (by decide) 0

/-- 2^32 in five bytes is read as 0. -/
theorem decoders_inexact : ¬ ∀ (d : Decoder) (m : WasmModule) (data : List Byte) (pos : Nat), d.Exact m data pos := by
  intro exact
  have returned : Decoder.u32.decode {} [0x80, 0x80, 0x80, 0x80, 0x10] 0 = some (0, 5) := by decide
  obtain ⟨enc, complete, _, inside, _, zero, _⟩ := (exact .u32 {} _ 0 0 5).mp returned
  have whole : Complete ([0x80, 0x80, 0x80, 0x80, 0x10] : List Byte) := by simp [Complete]
  rw [← whole.unique complete List.prefix_rfl inside] at zero
  exact absurd zero (by decide)

end GooseOs.Wasm
