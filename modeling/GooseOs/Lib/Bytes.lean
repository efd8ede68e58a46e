import Mathlib.Logic.Function.Basic
import Mathlib.Tactic.Ring

/-!
Byte-addressed memory with little-endian 64-bit accesses. Stores of different shapes (one
byte, one word, a filled range) share one frame rule: a word read depends on its eight bytes.
-/

namespace GooseOs

/-- One byte of memory. -/
abbrev Byte := BitVec 8

/-- Byte-addressed memory. -/
abbrev Memory := Nat → Byte

namespace Memory

/-- The little-endian word at `a`. -/
def read64 (m : Memory) (a : Nat) : BitVec 64 :=
  m (a + 7) ++ m (a + 6) ++ m (a + 5) ++ m (a + 4) ++ m (a + 3) ++ m (a + 2) ++ m (a + 1) ++ m a

/-- Store the little-endian word `v` at `a`. -/
def write64 (m : Memory) (a : Nat) (v : BitVec 64) : Memory := fun x =>
  if a ≤ x ∧ x < a + 8 then v.extractLsb' (8 * (x - a)) 8 else m x

/-- Fill `n` bytes from `a` with `b`. -/
def fill (m : Memory) (a n : Nat) (b : Byte) : Memory := fun x =>
  if a ≤ x ∧ x < a + n then b else m x

/-- Store one byte. -/
def write8 (m : Memory) (a : Nat) (b : Byte) : Memory := Function.update m a b

/-- Store a run of bytes from `a`. -/
def writeBytes (m : Memory) (a : Nat) : List Byte → Memory
  | [] => m
  | b :: rest => writeBytes (m.write8 a b) (a + 1) rest

/-- Store bytes one after another at a list of addresses. -/
def scatter (m : Memory) : List Nat → List Byte → Memory
  | a :: rest, b :: bs => scatter (m.write8 a b) rest bs
  | _, _ => m

theorem read64_congr {m m' : Memory} {a : Nat} (same : ∀ x, a ≤ x → x < a + 8 → m' x = m x) :
    m'.read64 a = m.read64 a := by
  unfold read64
  rw [same (a + 7) (by omega) (by omega), same (a + 6) (by omega) (by omega),
    same (a + 5) (by omega) (by omega), same (a + 4) (by omega) (by omega),
    same (a + 3) (by omega) (by omega), same (a + 2) (by omega) (by omega),
    same (a + 1) (by omega) (by omega), same a (by omega) (by omega)]

theorem write64_apply_of_disjoint {m : Memory} {a x : Nat} {v : BitVec 64}
    (outside : x < a ∨ a + 8 ≤ x) : m.write64 a v x = m x := by
  rw [write64, if_neg (by omega)]

theorem write64_apply_add {m : Memory} {a j : Nat} {v : BitVec 64} (inside : j < 8) :
    m.write64 a v (a + j) = v.extractLsb' (8 * j) 8 := by
  rw [write64, if_pos (by omega), show a + j - a = j by omega]

theorem extract_append (v : BitVec 64) :
    v.extractLsb' 56 8 ++ v.extractLsb' 48 8 ++ v.extractLsb' 40 8 ++ v.extractLsb' 32 8 ++
      v.extractLsb' 24 8 ++ v.extractLsb' 16 8 ++ v.extractLsb' 8 8 ++ v.extractLsb' 0 8 = v := by
  apply BitVec.eq_of_getLsbD_eq
  intro i bound
  simp only [BitVec.getLsbD_append, BitVec.getLsbD_extractLsb']
  repeat' split
  all_goals
    rw [decide_eq_true (by omega), Bool.true_and]
    congr 1
    omega

theorem read64_write64_same (m : Memory) (a : Nat) (v : BitVec 64) :
    (m.write64 a v).read64 a = v := by
  unfold read64
  rw [write64_apply_add (by omega), write64_apply_add (by omega), write64_apply_add (by omega),
    write64_apply_add (by omega), write64_apply_add (by omega), write64_apply_add (by omega),
    write64_apply_add (by omega), show m.write64 a v a = v.extractLsb' 0 8 from
      write64_apply_add (j := 0) (by omega)]
  exact extract_append v

theorem read64_write64_of_disjoint {m : Memory} {a b : Nat} {v : BitVec 64}
    (apart : b + 8 ≤ a ∨ a + 8 ≤ b) : (m.write64 a v).read64 b = m.read64 b :=
  read64_congr fun _ _ _ => write64_apply_of_disjoint (by omega)

theorem read64_zero {m : Memory} {a : Nat} (zero : ∀ x, a ≤ x → x < a + 8 → m x = 0) :
    m.read64 a = 0 := by
  unfold read64
  rw [zero (a + 7) (by omega) (by omega), zero (a + 6) (by omega) (by omega),
    zero (a + 5) (by omega) (by omega), zero (a + 4) (by omega) (by omega),
    zero (a + 3) (by omega) (by omega), zero (a + 2) (by omega) (by omega),
    zero (a + 1) (by omega) (by omega), zero a (by omega) (by omega)]
  decide

theorem fill_apply_inside {m : Memory} {a n x : Nat} {b : Byte} (inside : a ≤ x ∧ x < a + n) :
    m.fill a n b x = b := if_pos inside

theorem fill_apply_outside {m : Memory} {a n x : Nat} {b : Byte} (outside : x < a ∨ a + n ≤ x) :
    m.fill a n b x = m x := if_neg (by omega)

theorem write8_apply_ne {m : Memory} {a x : Nat} {b : Byte} (different : x ≠ a) :
    m.write8 a b x = m x := Function.update_of_ne different _ _

theorem writeBytes_apply_outside {m : Memory} {a x : Nat} {bs : List Byte}
    (outside : x < a ∨ a + bs.length ≤ x) : m.writeBytes a bs x = m x := by
  induction bs generalizing m a with
  | nil => rfl
  | cons b rest ih =>
    simp only [List.length_cons] at outside
    rw [writeBytes, ih (by omega), write8_apply_ne (by omega)]

/-! ### Scattered stores: the last one at an address wins -/

theorem scatter_apply_outside {m : Memory} {addrs : List Nat} {bs : List Byte} {x : Nat} (outside : x ∉ addrs) :
    m.scatter addrs bs x = m x := by
  induction addrs generalizing m bs with
  | nil => rfl
  | cons a rest ih =>
    rw [List.mem_cons, not_or] at outside
    cases bs with
    | nil => rfl
    | cons b bs => rw [scatter, ih outside.2, write8_apply_ne outside.1]

theorem scatter_append {m : Memory} {first later : List Nat} {bs : List Byte} :
    m.scatter (first ++ later) bs = (m.scatter first (bs.take first.length)).scatter later (bs.drop first.length) := by
  induction first generalizing m bs with
  | nil => rfl
  | cons a rest ih =>
    cases bs with
    | nil => cases later <;> rfl
    | cons b bs => exact ih

theorem scatter_apply_last {m : Memory} {first later : List Nat} {x : Nat} {bs : List Byte} {b : Byte}
    (stored : bs[first.length]? = some b) (last : x ∉ later) : m.scatter (first ++ x :: later) bs x = b := by
  rw [scatter_append]
  obtain ⟨short, rfl⟩ := List.getElem?_eq_some_iff.mp stored
  rw [List.drop_eq_getElem_cons short, scatter, scatter_apply_outside last]
  exact Function.update_self ..

theorem scatter_gather {m : Memory} {addrs : List Nat} {bs : List Byte} (distinct : addrs.Nodup)
    (same : addrs.length = bs.length) : addrs.map (m.scatter addrs bs) = bs := by
  induction addrs generalizing m bs with
  | nil => simpa using same.symm
  | cons a rest ih =>
    rw [List.nodup_cons] at distinct
    cases bs with
    | nil => cases same
    | cons b bs =>
      rw [List.map_cons, scatter, scatter_apply_outside distinct.1]
      have head : m.write8 a b a = b := Function.update_self ..
      rw [head, ih distinct.2 (by simpa using same)]

theorem writeBytes_eq_scatter {m : Memory} {a : Nat} {bs : List Byte} :
    m.writeBytes a bs = m.scatter (List.range' a bs.length) bs := by
  induction bs generalizing m a with
  | nil => rfl
  | cons b rest ih => rw [writeBytes, ih, List.length_cons, List.range'_succ, scatter]

end Memory

/-! ### Little-endian numbers -/

/-- The low bytes of a number. -/
def leBytes : (count val : Nat) → List Byte
  | 0, _ => []
  | count + 1, val => BitVec.ofNat 8 val :: leBytes count (val / 256)

def leValue : List Byte → Nat
  | [] => 0
  | b :: rest => b.toNat + 256 * leValue rest

@[simp] theorem length_leBytes {count val : Nat} : (leBytes count val).length = count := by
  induction count generalizing val with
  | zero => rfl
  | succ count ih => simp [leBytes, ih]

theorem getElem?_leBytes {count val j : Nat} :
    (leBytes count val)[j]? = if j < count then some (BitVec.ofNat 8 (val / 256 ^ j)) else none := by
  induction count generalizing val j with
  | zero => simp [leBytes]
  | succ count ih =>
    cases j with
    | zero => simp [leBytes]
    | succ j => simp [leBytes, ih, Nat.div_div_eq_div_mul, Nat.pow_succ']

theorem leValue_lt {bs : List Byte} : leValue bs < 256 ^ bs.length := by
  induction bs with
  | nil => decide
  | cons b rest ih =>
    have small := b.isLt
    rw [leValue, List.length_cons, Nat.pow_succ]
    omega

end GooseOs
