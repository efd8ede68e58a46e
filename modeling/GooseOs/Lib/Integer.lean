import Mathlib.Algebra.Group.Int.Defs
import Mathlib.Algebra.Group.Nat.Defs
import Mathlib.Data.List.Rotate

/-!
Integer arithmetic of a fixed width: its operations on numbers below a power of two, and the machine words that compute
them.
-/

namespace GooseOs.Integer

/-- Why an operation has no result. -/
inductive Undefined where
  | divisionByZero | overflow
  deriving DecidableEq

/-! ### Readings of a number -/

/-- The two's complement reading. -/
def signed (w i : Nat) : Int := if i < 2 ^ (w - 1) then i else i - 2 ^ w

/-- The number with this two's complement reading. -/
def unsigned (w : Nat) (z : Int) : Nat := (z % 2 ^ w).toNat

/-- Most significant first. -/
def bits : (w i : Nat) → List Bool
  | 0, _ => []
  | w + 1, i => i.testBit w :: bits w i

def ofBits : List Bool → Nat
  | [] => 0
  | bit :: rest => bit.toNat * 2 ^ rest.length + ofBits rest

/-! ### Operations -/

section Operations
variable (w i j : Nat)

def add : Nat := (i + j) % 2 ^ w

def sub : Nat := (i + 2 ^ w - j) % 2 ^ w

def mul : Nat := i * j % 2 ^ w

def quotient : Int := (signed w i).tdiv (signed w j)

def divU : Except Undefined Nat := if j = 0 then .error .divisionByZero else .ok (i / j)

def divS : Except Undefined Nat :=
  if j = 0 then .error .divisionByZero
  else if quotient w i j = 2 ^ (w - 1) then .error .overflow
  else .ok (unsigned w (quotient w i j))

def remU : Except Undefined Nat := if j = 0 then .error .divisionByZero else .ok (i - j * (i / j))

def remS : Except Undefined Nat :=
  if j = 0 then .error .divisionByZero else .ok (unsigned w (signed w i - signed w j * quotient w i j))

def bitwise (f : Bool → Bool → Bool) : Nat := ofBits (List.zipWith f (bits w i) (bits w j))

def shl : Nat := i * 2 ^ (j % w) % 2 ^ w

def shrU : Nat := i / 2 ^ (j % w)

def shrS : Nat := unsigned w (signed w i / 2 ^ (j % w))

def rotl : Nat := ofBits ((bits w i).rotate (j % w))

def rotr : Nat := ofBits ((bits w i).rotate (w - j % w))

def clz : Nat := ((bits w i).takeWhile not).length

def ctz : Nat := ((bits w i).reverse.takeWhile not).length

end Operations

/-! ### Bits -/

variable {w i : Nat} {x y : BitVec w}

@[simp] theorem length_bits : (bits w i).length = w := by
  induction w with
  | zero => rfl
  | succ w ih => simp [bits, ih]

theorem ofBits_bits : ofBits (bits w i) = i % 2 ^ w := by
  induction w with
  | zero => simp [bits, ofBits, Nat.mod_one]
  | succ w ih =>
    rw [bits, ofBits, length_bits, ih, Nat.toNat_testBit, Nat.mod_pow_succ, Nat.mul_comm]
    omega

theorem getElem_bits {m : Nat} (inside : m < (bits w i).length) : (bits w i)[m] = i.testBit (w - 1 - m) := by
  induction w generalizing m with
  | zero => simp [bits] at inside
  | succ w ih =>
    cases m with
    | zero => simp [bits]
    | succ m =>
      simp only [bits, List.getElem_cons_succ, ih]
      congr 1
      omega

theorem getElem_bits_toNat {m : Nat} (inside : m < (bits w x.toNat).length) : (bits w x.toNat)[m] = x.getMsbD m := by
  rw [getElem_bits, BitVec.testBit_toNat, BitVec.getMsbD_eq_getLsbD]
  simp_all

theorem ofBits_eq {l : List Bool} (length : l.length = w) (each : ∀ m (inside : m < l.length), l[m] = x.getMsbD m) :
    ofBits l = x.toNat := by
  have same : l = bits w x.toNat := by
    apply List.ext_getElem
    · simp [length]
    · intro m inside inside'
      rw [each m inside, getElem_bits_toNat]
  rw [same, ofBits_bits, Nat.mod_eq_of_lt x.isLt]

/-! ### Words -/

theorem signed_toNat : signed w x.toNat = x.toInt := by
  have small := x.isLt
  rw [BitVec.toInt_eq_toNat_cond, signed]
  cases w with
  | zero => simp [BitVec.of_length_zero]
  | succ w =>
    have double : 2 ^ (w + 1) = 2 ^ w * 2 := Nat.pow_succ 2 w
    rw [Nat.add_sub_cancel]
    by_cases low : x.toNat < 2 ^ w
    · rw [if_pos low, if_pos (by omega)]
    · rw [if_neg low, if_neg (by omega)]
      norm_cast

theorem unsigned_toInt : unsigned w x.toInt = x.toNat := by
  have back : (BitVec.ofInt w x.toInt).toNat = unsigned w x.toInt := by
    rw [BitVec.toNat_ofInt, unsigned]
    norm_cast
  rw [← back, BitVec.ofInt_toInt]

theorem add_toNat : add w x.toNat y.toNat = (x + y).toNat := (BitVec.toNat_add x y).symm

theorem sub_toNat : sub w x.toNat y.toNat = (x - y).toNat := by
  have small := y.isLt
  rw [BitVec.toNat_sub, sub]
  congr 1
  omega

theorem mul_toNat : mul w x.toNat y.toNat = (x * y).toNat := (BitVec.toNat_mul x y).symm

theorem toNat_eq_zero : y.toNat = 0 ↔ y = 0 := by
  rw [← BitVec.toNat_inj]
  rfl

theorem divU_toNat (some_ : y ≠ 0) : divU x.toNat y.toNat = .ok (x / y).toNat := by
  rw [divU, if_neg (mt toNat_eq_zero.mp some_), BitVec.toNat_udiv]

theorem remU_toNat (some_ : y ≠ 0) : remU x.toNat y.toNat = .ok (x % y).toNat := by
  rw [remU, if_neg (mt toNat_eq_zero.mp some_), BitVec.toNat_umod, Nat.mod_def]

theorem quotient_toNat : quotient w x.toNat y.toNat = x.toInt.tdiv y.toInt := by
  rw [quotient, signed_toNat, signed_toNat]

theorem toInt_neg_one (wide : 0 < w) : (-1 : BitVec w).toInt = -1 := by
  have ones : (-1 : BitVec w) = BitVec.allOnes w := BitVec.neg_one_eq_allOnes
  rw [ones, BitVec.toInt_allOnes, if_pos wide]

/-- The quotient is out of range for the least number and `-1` only. -/
theorem quotient_overflow (wide : 1 < w) :
    quotient w x.toNat y.toNat = 2 ^ (w - 1) ↔ x = BitVec.intMin w ∧ y = -1 := by
  rw [quotient_toNat]
  constructor
  · intro out
    by_contra other
    have within : (x.sdiv y).toInt = x.toInt.tdiv y.toInt :=
      BitVec.toInt_sdiv_of_ne_or_ne x y (by
        by_cases least : x = BitVec.intMin w
        · exact .inr fun minus => other ⟨least, minus⟩
        · exact .inl least)
    have bound := (x.sdiv y).toInt_lt
    omega
  · intro ⟨least, minus⟩
    subst least minus
    rw [BitVec.toInt_intMin_of_pos (by omega), toInt_neg_one (by omega)]
    simp

theorem divS_toNat (some_ : y ≠ 0) (wide : 1 < w) : divS w x.toNat y.toNat =
    if x = BitVec.intMin w ∧ y = -1 then .error .overflow else .ok (x.sdiv y).toNat := by
  rw [divS, if_neg (mt toNat_eq_zero.mp some_)]
  by_cases out : x = BitVec.intMin w ∧ y = -1
  · rw [if_pos out, if_pos ((quotient_overflow wide).mpr out)]
  · rw [if_neg out, if_neg (mt (quotient_overflow wide).mp out), quotient_toNat, ← BitVec.toInt_sdiv_of_ne_or_ne x y,
      unsigned_toInt]
    by_cases least : x = BitVec.intMin w
    · exact .inr fun minus => out ⟨least, minus⟩
    · exact .inl least

theorem remS_toNat (some_ : y ≠ 0) : remS w x.toNat y.toNat = .ok (x.srem y).toNat := by
  rw [remS, if_neg (mt toNat_eq_zero.mp some_), quotient_toNat, signed_toNat, signed_toNat, ← Int.tmod_def,
    ← BitVec.toInt_srem, unsigned_toInt]

theorem srem_overflow (wide : 1 < w) : (BitVec.intMin w).srem (-1) = 0 := by
  apply BitVec.eq_of_toInt_eq
  rw [BitVec.toInt_srem, toInt_neg_one (by omega)]
  simp

theorem bitwise_toNat {f : Bool → Bool → Bool} {z : BitVec w} (each : ∀ m, z.getMsbD m = f (x.getMsbD m) (y.getMsbD m)) :
    bitwise w x.toNat y.toNat f = z.toNat := by
  apply ofBits_eq
  · simp
  · intro m inside
    rw [List.getElem_zipWith, getElem_bits_toNat, getElem_bits_toNat, each]

theorem toNat_mask {k : Nat} {z : BitVec w} (narrow : k ≤ w) :
    (z &&& BitVec.ofNat w (2 ^ k - 1)).toNat = z.toNat % 2 ^ k := by
  have fits : 2 ^ k ≤ 2 ^ w := Nat.pow_le_pow_right (by decide) narrow
  have positive : 0 < 2 ^ k := Nat.two_pow_pos k
  rw [BitVec.toNat_and, BitVec.toNat_ofNat, Nat.mod_eq_of_lt (by omega), Nat.and_two_pow_sub_one_eq_mod]

theorem shl_toNat {k : BitVec w} (count : k.toNat = y.toNat % w) : shl w x.toNat y.toNat = (x <<< k).toNat := by
  rw [shl, BitVec.shiftLeft_eq', BitVec.toNat_shiftLeft, count, Nat.shiftLeft_eq]

theorem shrU_toNat {k : BitVec w} (count : k.toNat = y.toNat % w) : shrU w x.toNat y.toNat = (x >>> k).toNat := by
  rw [shrU, BitVec.ushiftRight_eq', BitVec.toNat_ushiftRight, count, Nat.shiftRight_eq_div_pow]

theorem shrS_toNat {k : BitVec w} (count : k.toNat = y.toNat % w) :
    shrS w x.toNat y.toNat = (x.sshiftRight' k).toNat := by
  have shifted : signed w x.toNat / 2 ^ (y.toNat % w) = (x.sshiftRight' k).toInt := by
    rw [signed_toNat, BitVec.toInt_sshiftRight', Int.shiftRight_eq_div_pow, count]
    norm_cast
  rw [shrS, shifted, unsigned_toInt]

theorem rotl_toNat : rotl w x.toNat y.toNat = (x.rotateLeft (y.toNat % w)).toNat := by
  apply ofBits_eq
  · simp
  · intro m inside
    rw [List.getElem_rotate, getElem_bits_toNat, BitVec.getMsbD_rotateLeft]
    simp_all [Nat.add_comm]

theorem rotr_toNat : rotr w x.toNat y.toNat = (x.rotateRight (y.toNat % w)).toNat := by
  apply ofBits_eq
  · simp
  · intro m inside
    rw [List.getElem_rotate, getElem_bits_toNat, BitVec.getMsbD_rotateRight]
    simp only [List.length_rotate, length_bits] at inside ⊢
    have count : y.toNat % w < w := Nat.mod_lt _ (by omega)
    rw [Nat.mod_mod, decide_eq_true inside, Bool.true_and]
    -- the bits that wrap round, then the others
    split
    · congr 2
      omega
    · rw [show m + (w - y.toNat % w) = m - y.toNat % w + w by omega, Nat.add_mod_right, Nat.mod_eq_of_lt (by omega)]

theorem clzAuxRec_toNat {m : Nat} (inside : m < w) :
    (x.clzAuxRec m).toNat = w - 1 - m + ((bits (m + 1) x.toNat).takeWhile not).length := by
  have small : w < 2 ^ w := Nat.lt_two_pow_self
  induction m with
  | zero =>
    rw [BitVec.clzAuxRec_zero, bits, BitVec.testBit_toNat]
    cases x.getLsbD 0 with
    | true =>
      simp [bits]
      exact Nat.mod_eq_of_lt (by omega)
    | false =>
      simp [bits, Nat.mod_eq_of_lt small]
      omega
  | succ m ih =>
    rw [BitVec.clzAuxRec_succ, bits, BitVec.testBit_toNat]
    cases x.getLsbD (m + 1) with
    | true =>
      simp
      exact Nat.mod_eq_of_lt (by omega)
    | false =>
      simp [ih (by omega)]
      omega

theorem clz_toNat : clz w x.toNat = x.clz.toNat := by
  cases w with
  | zero => simp [clz, bits, BitVec.of_length_zero]
  | succ w =>
    have counted := @clzAuxRec_toNat (w + 1) x w (Nat.lt_succ_self w)
    rw [BitVec.clz, clz]
    simp only [Nat.add_sub_cancel, Nat.sub_self, Nat.zero_add] at counted ⊢
    exact counted.symm

theorem ctz_toNat : ctz w x.toNat = x.ctz.toNat := by
  have turned : (bits w x.toNat).reverse = bits w x.reverse.toNat := by
    apply List.ext_getElem
    · simp
    · intro m inside inside'
      rw [List.getElem_reverse, getElem_bits_toNat, getElem_bits_toNat, BitVec.getMsbD_reverse, BitVec.getMsbD_eq_getLsbD]
      simp only [List.length_reverse, length_bits] at inside ⊢
      rw [decide_eq_true (by omega), Bool.true_and]
      congr 1
      omega
  rw [ctz, turned, BitVec.ctz]
  exact clz_toNat

end GooseOs.Integer
