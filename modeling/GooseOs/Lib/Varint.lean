import GooseOs.Lib.Leb128
import Mathlib.Data.List.Infix

/-!
LEB128 numbers in any encoding, padded ones included: what their bytes mean, and what loops that add seven bits a
round make of them. A loop of too few bits keeps the low ones.
-/

namespace GooseOs.Leb128

/-! ### Encodings -/

/-- The high bit is clear in the last byte and in no other. -/
def Complete : List Byte → Prop
  | [] => False
  | b :: rest => if b.toNat < 128 then rest = [] else Complete rest

/-- Seven bits as a signed number. -/
def sign (b : Byte) : Int := if b.toNat % 128 < 64 then 0 else -1

def value : List Byte → Nat
  | [] => 0
  | b :: rest => b.toNat % 128 + 128 * value rest

def signedValue : List Byte → Int
  | [] => 0
  | [b] => (b.toNat % 128 : Nat) + 128 * sign b
  | b :: rest => (b.toNat % 128 : Nat) + 128 * signedValue rest

/-- The encoding in front of the bytes, if it takes at most `limit` of them. -/
def front : (limit : Nat) → List Byte → Option (List Byte)
  | 0, _ => none
  | _ + 1, [] => none
  | limit + 1, b :: rest => if b.toNat < 128 then some [b] else (front limit rest).map (b :: ·)

section Encodings
variable {b : Byte} {bytes enc enc' rest : List Byte} {limit : Nat}

theorem complete_cons : Complete (b :: rest) ↔ b.toNat < 128 ∧ rest = [] ∨ 128 ≤ b.toNat ∧ Complete rest := by
  rw [Complete]
  split
  · next last => simp [last, Nat.not_le_of_lt last]
  · next more => simp [more, Nat.le_of_not_lt more]

theorem Complete.ne_nil (complete : Complete enc) : enc ≠ [] := by
  rintro rfl
  exact complete

theorem front_eq_some : front limit bytes = some enc ↔ Complete enc ∧ enc.length ≤ limit ∧ enc <+: bytes := by
  induction limit generalizing bytes enc with
  | zero =>
    simp only [front, Nat.le_zero, List.length_eq_zero_iff]
    constructor
    · nofun
    · intro ⟨complete, empty, _⟩
      exact absurd empty complete.ne_nil
  | succ limit ih =>
    cases bytes with
    | nil =>
      simp only [front, List.prefix_nil]
      constructor
      · nofun
      · intro ⟨complete, _, empty⟩
        exact absurd empty complete.ne_nil
    | cons b rest =>
      cases enc with
      | nil =>
        simp only [front, Complete, false_and, iff_false]
        split
        · simp
        · simp
      | cons c others =>
        rw [front, complete_cons, List.length_cons, Nat.succ_le_succ_iff, List.cons_prefix_cons]
        split
        · next last =>
          simp only [Option.some.injEq, List.cons.injEq]
          constructor
          · intro ⟨same, empty⟩
            subst same empty
            simp [last]
          · intro ⟨either, _, same, _⟩
            subst same
            refine ⟨rfl, ?_⟩
            rcases either with ⟨-, rfl⟩ | ⟨more, -⟩
            · rfl
            · omega
        · next more =>
          simp only [Option.map_eq_some_iff, List.cons.injEq]
          constructor
          · intro ⟨_, found, same, tail⟩
            subst same tail
            obtain ⟨complete, short, inside⟩ := ih.mp found
            exact ⟨.inr ⟨by omega, complete⟩, short, rfl, inside⟩
          · intro ⟨either, short, same, inside⟩
            subst same
            rcases either with ⟨last, -⟩ | ⟨-, complete⟩
            · omega
            · exact ⟨others, ih.mpr ⟨complete, short, inside⟩, rfl, rfl⟩

theorem Complete.unique (complete : Complete enc) (complete' : Complete enc') (inside : enc <+: bytes)
    (inside' : enc' <+: bytes) : enc = enc' := by
  have first : front (max enc.length enc'.length) bytes = some enc :=
    front_eq_some.mpr ⟨complete, Nat.le_max_left _ _, inside⟩
  have second : front (max enc.length enc'.length) bytes = some enc' :=
    front_eq_some.mpr ⟨complete', Nat.le_max_right _ _, inside'⟩
  exact Option.some.inj (first.symm.trans second)

/-- An encoding is bytes that go on, and one that does not. -/
theorem Complete.split (complete : Complete enc) : ∃ init last, enc = init ++ [last] ∧ last.toNat < 128 ∧
    value enc = value init + 128 ^ init.length * last.toNat ∧
    signedValue enc = value init + 128 ^ init.length * (last.toNat + 128 * sign last) := by
  induction enc with
  | nil => exact complete.elim
  | cons b rest ih =>
    rcases complete_cons.mp complete with ⟨small, rfl⟩ | ⟨-, complete⟩
    · refine ⟨[], b, rfl, small, ?_, ?_⟩
      · simp [value, Nat.mod_eq_of_lt small]
      · simp [value, signedValue, Nat.mod_eq_of_lt small]
    · obtain ⟨init, last, rfl, small, total, signed⟩ := ih complete
      refine ⟨b :: init, last, rfl, small, ?_, ?_⟩
      · simp only [value, total, List.length_cons, Nat.pow_succ]
        ring
      · rw [signedValue, signed]
        · simp only [value, List.length_cons, pow_succ]
          push_cast
          ring
        · simp

theorem signedValue_cons (more : rest ≠ []) :
    signedValue (b :: rest) = (b.toNat % 128 : Nat) + 128 * signedValue rest := by
  cases rest with
  | nil => exact absurd rfl more
  | cons => rfl

theorem sign_bits {w : Nat} :
    BitVec.ofInt w (sign b) = if b &&& 0x40 = 0 then 0 else BitVec.allOnes w := by
  have bit : b &&& 0x40 = 0 ↔ b.toNat % 128 < 64 := by
    revert b
    decide
  simp only [sign, bit]
  split
  · exact BitVec.ofInt_ofNat w 0
  · rw [BitVec.ofInt_neg, ← BitVec.neg_one_eq_allOnes]
    exact congrArg (-·) (BitVec.ofInt_ofNat w 1)

theorem value_lt (bytes : List Byte) : value bytes < 128 ^ bytes.length := by
  induction bytes with
  | nil => simp [value]
  | cons b rest ih =>
    rw [value, List.length_cons, Nat.pow_succ]
    omega

theorem signedValue_bounds (some : enc ≠ []) :
    -(64 * (128 ^ (enc.length - 1) : Nat)) ≤ signedValue enc ∧ signedValue enc < 64 * (128 ^ (enc.length - 1) : Nat) := by
  induction enc with
  | nil => exact absurd rfl some
  | cons b rest ih =>
    by_cases more : rest = []
    · subst more
      simp only [signedValue, sign, List.length_singleton]
      split <;> omega
    · obtain ⟨low, high⟩ := ih more
      have length : rest.length - 1 + 1 = rest.length :=
        Nat.sub_add_cancel (List.length_pos_iff.mpr more)
      have scale : 128 ^ rest.length = 128 * 128 ^ (rest.length - 1) := by
        rw [← length, Nat.pow_succ, Nat.mul_comm]
        rfl
      rw [signedValue_cons more, List.length_cons, Nat.add_sub_cancel, scale]
      omega

end Encodings

/-! ### Seven bits more -/

section Words
variable {w : Nat}

theorem ofInt_digit (k : Nat) (z : Int) (small : k < 128) :
    BitVec.ofInt w (k + 128 * z) = BitVec.ofNat w k ||| BitVec.ofInt w z <<< 7 := by
  have apart : BitVec.ofNat w k &&& BitVec.ofInt w z <<< 7 = 0 := by
    apply BitVec.eq_of_getLsbD_eq
    intro i inside
    simp only [BitVec.getLsbD_and, BitVec.getLsbD_ofNat, BitVec.getLsbD_shiftLeft]
    by_cases low : i < 7
    · simp [low]
    · have clear : k.testBit i = false := by
        apply Nat.testBit_lt_two_pow
        exact Nat.lt_of_lt_of_le small (Nat.pow_le_pow_right Nat.two_pos (show 7 ≤ i by omega))
      simp [clear]
  rw [← BitVec.add_eq_or_of_and_eq_zero _ _ apart, BitVec.shiftLeft_eq_mul_twoPow]
  have seven : BitVec.twoPow w 7 = BitVec.ofInt w 128 := by
    apply BitVec.eq_of_toNat_eq
    simp [BitVec.toNat_twoPow]
  rw [seven, ← BitVec.ofInt_mul, Int.mul_comm, BitVec.ofInt_add]
  simp

/-- The bits of a first byte at `shift`, those of the others above them. -/
theorem or_shift_digit (result : BitVec w) (k shift : Nat) (z : Int) (small : k < 128) :
    result ||| BitVec.ofInt w (k + 128 * z) <<< shift =
      result ||| BitVec.ofNat w k <<< shift ||| BitVec.ofInt w z <<< (shift + 7) := by
  rw [ofInt_digit k z small, BitVec.shiftLeft_or_distrib, BitVec.or_assoc, Nat.add_comm shift, BitVec.shiftLeft_add]

end Words

/-! ### Reading -/

section Reading
variable {ε σ : Type} {read : Prog ε σ Byte} {w : Nat} {loop : Nat → BitVec w → Nat → Prog ε σ (BitVec w)} {e : ε}

theorem supplies_cons {s t : σ} {b : Byte} {rest : List Byte} :
    Supplies read s (b :: rest) t ↔ ∃ u, read s = .ok b u ∧ Supplies read u rest t := Iff.rfl

/-- A loop that returns what `meaning` gives for the bytes it reads. -/
theorem reads_exactly (meaning : List Byte → Int)
    (empty : ∀ result shift s, loop 0 result shift s = (fail e : Prog ε σ _) s)
    (round : ∀ left result shift s v t, shift < w → shift + 7 < 2 ^ 32 → (loop (left + 1) result shift s = .ok v t ↔
      ∃ b u, read s = .ok b u ∧
        if b.toNat < 128 then v = result ||| BitVec.ofInt w (meaning [b]) <<< shift ∧ t = u
        else loop left (result ||| BitVec.ofNat w (b.toNat % 128) <<< shift) (shift + 7) u = .ok v t))
    (digit : ∀ b rest, rest ≠ [] → meaning (b :: rest) = (b.toNat % 128 : Nat) + 128 * meaning rest)
    (left : Nat) (result : BitVec w) (shift : Nat) (s t : σ) (v : BitVec w) (narrow : w < 2 ^ 31)
    (paced : shift + 7 * left < w + 7) :
    loop left result shift s = .ok v t ↔ ∃ enc, Complete enc ∧ enc.length ≤ left ∧ Supplies read s enc t ∧
      v = result ||| BitVec.ofInt w (meaning enc) <<< shift := by
  induction left generalizing result shift s with
  | zero =>
    rw [empty]
    constructor
    · exact fun fails => absurd fails fail_eq_ok
    · intro ⟨enc, complete, short, _⟩
      exact absurd (List.length_eq_zero_iff.mp (Nat.le_zero.mp short)) complete.ne_nil
  | succ left ih =>
    rw [round left result shift s v t (by omega) (by omega)]
    constructor
    · intro ⟨b, u, here, rest⟩
      split at rest
      · next last =>
        exact ⟨[b], complete_cons.mpr (.inl ⟨last, rfl⟩), by simp, ⟨u, here, rest.2.symm⟩, rest.1⟩
      · next more =>
        obtain ⟨enc, complete, short, supplies, total⟩ := (ih _ (shift + 7) u (by omega)).mp rest
        refine ⟨b :: enc, complete_cons.mpr (.inr ⟨by omega, complete⟩), by simpa using short, ⟨u, here, supplies⟩, ?_⟩
        rw [total, digit b enc complete.ne_nil, or_shift_digit _ _ _ _ (Nat.mod_lt _ (by decide))]
    · intro ⟨enc, complete, short, supplies, total⟩
      cases enc with
      | nil => exact complete.elim
      | cons b others =>
        obtain ⟨u, here, supplies⟩ := supplies
        refine ⟨b, u, here, ?_⟩
        rcases complete_cons.mp complete with ⟨last, rfl⟩ | ⟨more, complete⟩
        · rw [if_pos last]
          exact ⟨total, supplies.symm⟩
        · rw [if_neg (by omega)]
          refine (ih _ (shift + 7) u (by omega)).mpr ⟨others, complete, by simpa using short, supplies, ?_⟩
          rw [total, digit b others complete.ne_nil, or_shift_digit _ _ _ _ (Nat.mod_lt _ (by decide))]

/-- The loop of the unsigned readers returns the low bits of the number. -/
theorem reads_unsigned_exactly (empty : ∀ result shift s, loop 0 result shift s = (fail e : Prog ε σ _) s)
    (round : ∀ left result shift, loop (left + 1) result shift = (do
      let byte ← read
      let part ← shl ((byte &&& 0x7F).setWidth w) shift
      if byte &&& 0x80 = 0 then pure (result ||| part)
      else
        let shift ← plus 32 shift 7
        loop left (result ||| part) shift))
    {left : Nat} {s t : σ} {v : BitVec w} (narrow : w < 2 ^ 31) (paced : 7 * left < w + 7) :
    loop left 0 0 s = .ok v t ↔ ∃ enc, Complete enc ∧ enc.length ≤ left ∧ Supplies read s enc t ∧
      v = BitVec.ofInt w (value enc) := by
  have step : ∀ left result shift s v t, shift < w → shift + 7 < 2 ^ 32 → (loop (left + 1) result shift s = .ok v t ↔
      ∃ b u, read s = .ok b u ∧
        if b.toNat < 128 then v = result ||| BitVec.ofInt w (value [b]) <<< shift ∧ t = u
        else loop left (result ||| BitVec.ofNat w (b.toNat % 128) <<< shift) (shift + 7) u = .ok v t) := by
    intro left result shift s v t inside fits
    rw [round, bind_eq_ok]
    refine exists_congr fun b => exists_congr fun u => and_congr_right fun _ => ?_
    rw [bind_run (shl_eq_ok.mpr ⟨inside, rfl, rfl⟩), and_127]
    simp only [and_128]
    split
    · next last => simp [value, Nat.mod_eq_of_lt last]
    · rw [bind_run (plus_eq_ok.mpr ⟨fits, rfl, rfl⟩)]
  rw [reads_exactly (fun bytes => (value bytes : Int)) empty step (fun b rest _ => by simp [value]) left 0 0 s t v narrow
    (by omega)]
  simp

/-- The loop of the signed readers returns the low bits of the number. -/
theorem reads_signed_exactly (empty : ∀ result shift s, loop 0 result shift s = (fail e : Prog ε σ _) s)
    (round : ∀ left result shift, loop (left + 1) result shift = (do
      let byte ← read
      let part ← shl ((byte &&& 0x7F).setWidth w) shift
      let result := result ||| part
      let shift ← plus 32 shift 7
      if byte &&& 0x80 = 0 then
        if shift < w ∧ byte &&& 0x40 ≠ 0 then
          let sign ← shl (BitVec.allOnes w) shift
          pure (result ||| sign)
        else pure result
      else loop left result shift))
    {left : Nat} {s t : σ} {v : BitVec w} (narrow : w < 2 ^ 31) (paced : 7 * left < w + 7) :
    loop left 0 0 s = .ok v t ↔ ∃ enc, Complete enc ∧ enc.length ≤ left ∧ Supplies read s enc t ∧
      v = BitVec.ofInt w (signedValue enc) := by
  have step : ∀ left result shift s v t, shift < w → shift + 7 < 2 ^ 32 → (loop (left + 1) result shift s = .ok v t ↔
      ∃ b u, read s = .ok b u ∧
        if b.toNat < 128 then v = result ||| BitVec.ofInt w (signedValue [b]) <<< shift ∧ t = u
        else loop left (result ||| BitVec.ofNat w (b.toNat % 128) <<< shift) (shift + 7) u = .ok v t) := by
    intro left result shift s v t inside fits
    rw [round, bind_eq_ok]
    refine exists_congr fun b => exists_congr fun u => and_congr_right fun _ => ?_
    rw [bind_run (shl_eq_ok.mpr ⟨inside, rfl, rfl⟩), and_127]
    simp only [bind_run (plus_eq_ok.mpr ⟨fits, rfl, rfl⟩), and_128]
    split
    · next last =>
      rw [show signedValue [b] = (b.toNat % 128 : Nat) + 128 * sign b from rfl,
        or_shift_digit _ _ _ _ (Nat.mod_lt _ (by decide)), sign_bits]
      split
      · next both =>
        rw [if_neg both.2, bind_run (shl_eq_ok.mpr ⟨both.1, rfl, rfl⟩), pure_eq_ok]
      · next neither =>
        rw [pure_eq_ok]
        split
        · next clear => simp
        · next set_ =>
          have past : w ≤ shift + 7 := Nat.le_of_not_lt fun room => neither ⟨room, set_⟩
          simp [BitVec.shiftLeft_eq_zero past]
    · rfl
  rw [reads_exactly signedValue empty step (fun b rest more => signedValue_cons more) left 0 0 s t v narrow (by omega)]
  simp

theorem supplies_iff {data : List Byte} (place : Nat → σ)
    (here : ∀ pos b u, read (place pos) = .ok b u ↔ data[pos]? = some b ∧ u = place (pos + 1)) {pos : Nat}
    {enc : List Byte} {t : σ} : Supplies read (place pos) enc t ↔ enc <+: data.drop pos ∧ t = place (pos + enc.length) := by
  induction enc generalizing pos with
  | nil => simp [Supplies, eq_comm]
  | cons b rest ih =>
    rw [supplies_cons]
    constructor
    · intro ⟨u, first, others⟩
      obtain ⟨found, same⟩ := (here _ _ _).mp first
      subst same
      obtain ⟨inside, last⟩ := ih.mp others
      obtain ⟨bound, there⟩ := List.getElem?_eq_some_iff.mp found
      refine ⟨?_, by rw [last, List.length_cons, Nat.add_assoc, Nat.add_comm 1]⟩
      rw [List.drop_eq_getElem_cons bound, there]
      exact List.cons_prefix_cons.mpr ⟨rfl, inside⟩
    · intro ⟨inside, last⟩
      have bound : pos < data.length := by
        have := inside.length_le
        rw [List.length_cons, List.length_drop] at this
        omega
      rw [List.drop_eq_getElem_cons bound] at inside
      obtain ⟨same, inside⟩ := List.cons_prefix_cons.mp inside
      refine ⟨_, (here _ _ _).mpr ⟨List.getElem?_eq_some_iff.mpr ⟨bound, same.symm⟩, rfl⟩, ih.mpr ⟨inside, ?_⟩⟩
      rw [last, List.length_cons, Nat.add_assoc, Nat.add_comm 1]

end Reading

end GooseOs.Leb128
