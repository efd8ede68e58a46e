import GooseOs.Lib.Bytes
import GooseOs.Lib.Prog
import Mathlib.Data.Nat.Bits

/-!
LEB128: a number as bytes of seven bits, the lowest first, the high bit set in every byte but the
last. Loops that read such bytes give the number back.
-/

namespace GooseOs.Leb128

/-- `n` in at most `left` bytes; the last one is below `last`. -/
def encode (last : Nat) : (left n : Nat) → List Byte
  | 0, _ => []
  | left + 1, n => if n < last then [BitVec.ofNat 8 n] else BitVec.ofNat 8 (n % 128 + 128) :: encode last left (n / 128)

/-- The canonical encoding of a 32-bit number. -/
def unsigned (n : Nat) : List Byte := encode 128 5 n

/-- The canonical encoding of a number that is signed but not negative: bit 6 of the last byte is its sign. -/
def signed (n : Nat) : List Byte := encode 64 5 n

theorem unsigned_small {n : Nat} (small : n < 128) : unsigned n = [BitVec.ofNat 8 n] := if_pos small

theorem encode_pos {last left n : Nat} : 0 < (encode last (left + 1) n).length := by
  rw [encode]
  split <;> simp

theorem encode_length {last left n : Nat} : (encode last left n).length ≤ left := by
  induction left generalizing n with
  | zero => exact Nat.le_refl 0
  | succ left ih =>
    rw [encode]
    split
    · simp
    · exact Nat.succ_le_succ ih

theorem unsigned_pos (n : Nat) : 0 < (unsigned n).length := encode_pos

theorem unsigned_length (n : Nat) : (unsigned n).length ≤ 5 := encode_length

theorem signed_length (n : Nat) : (signed n).length ≤ 5 := encode_length

/-! ### The bytes -/

section Bytes
variable {n : Nat}

theorem and_128 {b : Byte} : b &&& 0x80 = 0 ↔ b.toNat < 128 := by
  revert b
  decide

theorem and_64 {b : Byte} (small : b.toNat < 64) : b &&& 0x40 = 0 := by
  revert b
  decide

theorem and_127 {w : Nat} (b : Byte) : (b &&& 0x7F).setWidth w = BitVec.ofNat w (b.toNat % 128) := by
  apply BitVec.eq_of_toNat_eq
  rw [BitVec.toNat_setWidth, BitVec.toNat_and, BitVec.toNat_ofNat]
  exact congrArg (· % 2 ^ w) (Nat.and_two_pow_sub_one_eq_mod b.toNat 7)

theorem byte_toNat (small : n < 256) : (BitVec.ofNat 8 n).toNat = n := by
  rw [BitVec.toNat_ofNat]
  exact Nat.mod_eq_of_lt small

end Bytes

theorem toNat_or_shift {w shift k : Nat} {result : BitVec w} (below : result.toNat < 2 ^ shift)
    (fits : result.toNat + k * 2 ^ shift < 2 ^ w) :
    (result ||| BitVec.ofNat w k <<< shift).toNat = result.toNat + k * 2 ^ shift := by
  have positive : 0 < 2 ^ shift := Nat.two_pow_pos shift
  have small : k < 2 ^ w := by
    have : k ≤ k * 2 ^ shift := Nat.le_mul_of_pos_right k positive
    omega
  rw [BitVec.toNat_or, BitVec.toNat_shiftLeft, BitVec.toNat_ofNat, Nat.mod_eq_of_lt small, Nat.shiftLeft_eq,
    Nat.mod_eq_of_lt (by omega), Nat.or_comm, ← Nat.shiftLeft_eq, ← Nat.shiftLeft_add_eq_or_of_lt below, Nat.add_comm]

/-! ### Reading -/

section Reading
variable {ε σ : Type} {read : Prog ε σ Byte} {last : Nat}

/-- From `s` on, `read` returns these bytes and ends in `t`. -/
def Supplies (read : Prog ε σ Byte) : (s : σ) → List Byte → (t : σ) → Prop
  | s, [], t => s = t
  | s, b :: rest, t => ∃ u, read s = .ok b u ∧ Supplies read u rest t

/-- A loop that adds seven bits a round, until a byte below `last`, reads the number. -/
theorem reads {loop : Nat → BitVec 32 → Nat → Prog ε σ (BitVec 32)}
    (final : ∀ left result shift s u b, shift < 32 → read s = .ok b u → b.toNat < last →
      loop (left + 1) result shift s = .ok (result ||| BitVec.ofNat 32 b.toNat <<< shift) u)
    (more : ∀ left result shift s u b, shift < 32 → read s = .ok b u → 128 ≤ b.toNat →
      loop (left + 1) result shift s = loop left (result ||| BitVec.ofNat 32 (b.toNat % 128) <<< shift) (shift + 7) u)
    (order : last ≤ 128) {left n shift : Nat} {result : BitVec 32} {s t : σ} (some : 0 < left)
    (range : n < last * 2 ^ (7 * (left - 1))) (paced : shift + 7 * left = 35) (below : result.toNat < 2 ^ shift)
    (fits : result.toNat + n * 2 ^ shift < 2 ^ 32) (supplies : Supplies read s (encode last left n) t) :
    loop left result shift s = .ok (BitVec.ofNat 32 (result.toNat + n * 2 ^ shift)) t := by
  induction left generalizing n shift result s with
  | zero => cases some
  | succ left ih =>
    rw [encode] at supplies
    split at supplies
    · next done =>
      obtain ⟨u, here, rfl⟩ := supplies
      have byte : (BitVec.ofNat 8 n).toNat = n := byte_toNat (by omega)
      rw [final left result shift s u _ (by omega) here (by omega), byte]
      congr 1
      apply BitVec.eq_of_toNat_eq
      rw [BitVec.toNat_ofNat, Nat.mod_eq_of_lt fits, toNat_or_shift below fits]
    · next further =>
      obtain ⟨u, here, rest⟩ := supplies
      have byte : (BitVec.ofNat 8 (n % 128 + 128)).toNat = n % 128 + 128 := byte_toNat (by omega)
      have split : n * 2 ^ shift = n % 128 * 2 ^ shift + n / 128 * 2 ^ (shift + 7) := by
        rw [Nat.pow_add, ← Nat.mul_assoc, Nat.mul_right_comm, ← Nat.add_mul]
        congr 1
        omega
      have above : n % 128 * 2 ^ shift + 2 ^ shift ≤ 2 ^ (shift + 7) := by
        rw [← Nat.succ_mul, Nat.pow_add, Nat.mul_comm]
        exact Nat.mul_le_mul_left _ (by omega)
      have value : (result ||| BitVec.ofNat 32 (n % 128) <<< shift).toNat = result.toNat + n % 128 * 2 ^ shift :=
        toNat_or_shift below (by omega)
      cases left with
      | zero => omega
      | succ left =>
        have next := @ih (n / 128) (shift + 7) (result ||| BitVec.ofNat 32 (n % 128) <<< shift) u (by omega) ?_
          (by omega) (by omega) (by rw [value]; omega) rest
        · rw [more _ _ _ _ _ _ (by omega) here (by omega), byte, show (n % 128 + 128) % 128 = n % 128 by omega, next,
            value, split, Nat.add_assoc]
        · rw [Nat.div_lt_iff_lt_mul (by decide), Nat.mul_assoc]
          refine Nat.lt_of_lt_of_eq range ?_
          rw [show 7 * (left + 1 + 1 - 1) = 7 * (left + 1 - 1) + 7 by omega, Nat.pow_add]

/-- The unsigned readers stop at a clear high bit, whatever the bits below it. -/
theorem reads_unsigned {loop : Nat → BitVec 32 → Nat → Prog ε σ (BitVec 32)}
    (round : ∀ left result shift, loop (left + 1) result shift = (do
      let byte ← read
      let part ← shl ((byte &&& 0x7F).setWidth 32) shift
      if byte &&& 0x80 = 0 then pure (result ||| part)
      else
        let shift ← plus 32 shift 7
        loop left (result ||| part) shift))
    (order : last ≤ 128) {n : Nat} {s t : σ} (range : n < last * 2 ^ 28) (fits : n < 2 ^ 32)
    (supplies : Supplies read s (encode last 5 n) t) : loop 5 0 0 s = .ok (BitVec.ofNat 32 n) t := by
  have read := @reads ε σ read last loop ?_ ?_ order 5 n 0 0 s t (by decide) range rfl (by decide) (by simpa using fits)
    supplies
  · simpa using read
  · intro left result shift s u b shallow here small
    rw [round]
    refine bind_eq_ok.mpr ⟨_, _, here, bind_eq_ok.mpr ⟨_, _, shl_eq_ok.mpr ⟨shallow, rfl, rfl⟩, ?_⟩⟩
    rw [if_pos (and_128.mpr (by omega)), and_127, Nat.mod_eq_of_lt (by omega)]
    rfl
  · intro left result shift s u b shallow here large
    rw [round]
    have high : ¬ b &&& 0x80 = 0 := by
      rw [and_128]
      omega
    simp only [bind, EStateM.bind, here, shl, if_pos shallow, if_neg high, pure, EStateM.pure, plus,
      if_pos (show shift + 7 < 2 ^ 32 by omega), and_127]

theorem reads_signed {loop : Nat → BitVec 32 → Nat → Prog ε σ (BitVec 32)}
    (round : ∀ left result shift, loop (left + 1) result shift = (do
      let byte ← read
      let part ← shl ((byte &&& 0x7F).setWidth 32) shift
      let result := result ||| part
      let shift ← plus 32 shift 7
      if byte &&& 0x80 = 0 then
        if shift < 32 ∧ byte &&& 0x40 ≠ 0 then
          let sign ← shl (BitVec.allOnes 32) shift
          pure (result ||| sign)
        else pure result
      else loop left result shift))
    {n : Nat} {s t : σ} (fits : n < 2 ^ 31) (supplies : Supplies read s (signed n) t) :
    loop 5 0 0 s = .ok (BitVec.ofNat 32 n) t := by
  have read := @reads ε σ read 64 loop ?_ ?_ (by decide) 5 n 0 0 s t (by decide) (by omega) rfl (by decide)
    (by simpa using Nat.lt_trans fits (by decide)) supplies
  · simpa using read
  · intro left result shift s u b shallow here small
    rw [round]
    refine bind_eq_ok.mpr ⟨_, _, here, bind_eq_ok.mpr ⟨_, _, shl_eq_ok.mpr ⟨shallow, rfl, rfl⟩,
      bind_eq_ok.mpr ⟨_, _, plus_eq_ok.mpr ⟨by omega, rfl, rfl⟩, ?_⟩⟩⟩
    rw [if_pos (and_128.mpr (by omega)), if_neg fun both => both.2 (and_64 small), and_127, Nat.mod_eq_of_lt (by omega)]
    rfl
  · intro left result shift s u b shallow here large
    rw [round]
    have high : ¬ b &&& 0x80 = 0 := by
      rw [and_128]
      omega
    simp only [bind, EStateM.bind, here, shl, if_pos shallow, if_neg high, pure, EStateM.pure, plus,
      if_pos (show shift + 7 < 2 ^ 32 by omega), and_127]

end Reading

end GooseOs.Leb128
