import GooseOs.Kernel.Process
import Mathlib.Algebra.GroupWithZero.Nat

/-!
`page_alloc.rs`: the bitmap allocator of physical pages, and what each operation does to the
set of allocated page indices.
-/

namespace GooseOs

def bitmapWords : Nat := 32768 / 64

/-- `AllocError`. -/
inductive AllocError where
  | outOfMemory | doubleFree | invalidAddress | notAligned
  deriving DecidableEq

structure BitmapAllocator where
  bitmap : Nat → BitVec 64
  baseAddr : Nat
  totalPages : Nat

namespace BitmapAllocator

/-- `BitmapAllocator::new`: every page free. -/
def new (base numPages : Nat) : BitmapAllocator := ⟨fun _ => 0, base, numPages⟩

def wordsUsed (a : BitmapAllocator) : Nat := (a.totalPages + 63) / 64

/-- The loop of `alloc` over the words `wordIdx .. wordIdx + n`. -/
def allocFrom (a : BitmapAllocator) (wordIdx : Nat) : Nat → Except AllocError (Nat × BitmapAllocator)
  | 0 => .error .outOfMemory
  | n + 1 =>
    let word := a.bitmap wordIdx
    if word = BitVec.allOnes 64 then allocFrom a (wordIdx + 1) n
    else
      let bitIdx := (~~~word).ctz.toNat
      let pageIdx := wordIdx * 64 + bitIdx
      if pageIdx ≥ a.totalPages then .error .outOfMemory
      else
        .ok (a.baseAddr + pageIdx * pageSize,
          { a with bitmap := Function.update a.bitmap wordIdx (word ||| 1#64 <<< bitIdx) })

def alloc (a : BitmapAllocator) : Except AllocError (Nat × BitmapAllocator) := a.allocFrom 0 a.wordsUsed

/-- The address checks shared by `free` and `mark_allocated`: the page index of `addr`. -/
def pageIndex (a : BitmapAllocator) (addr : Nat) : Except AllocError Nat :=
  if addr % pageSize ≠ 0 then .error .notAligned
  else if addr < a.baseAddr then .error .invalidAddress
  else
    let pageIdx := (addr - a.baseAddr) / pageSize
    if pageIdx ≥ a.totalPages then .error .invalidAddress else .ok pageIdx

def free (a : BitmapAllocator) (addr : Nat) : Except AllocError BitmapAllocator := do
  let pageIdx ← a.pageIndex addr
  let wordIdx := pageIdx / 64
  let mask := 1#64 <<< (pageIdx % 64)
  if a.bitmap wordIdx &&& mask = 0 then throw .doubleFree
  return { a with bitmap := Function.update a.bitmap wordIdx (a.bitmap wordIdx &&& ~~~mask) }

def isAllocated (a : BitmapAllocator) (addr : Nat) : Bool :=
  if addr % pageSize ≠ 0 ∨ addr < a.baseAddr then false
  else
    let pageIdx := (addr - a.baseAddr) / pageSize
    if pageIdx ≥ a.totalPages then false
    else a.bitmap (pageIdx / 64) &&& 1#64 <<< (pageIdx % 64) != 0

def allocatedCount (a : BitmapAllocator) : Nat :=
  ((List.range a.wordsUsed).map fun i => (a.bitmap i).cpop.toNat).sum

def freeCount (a : BitmapAllocator) : Nat := a.totalPages - a.allocatedCount

def markAllocated (a : BitmapAllocator) (addr : Nat) : Except AllocError BitmapAllocator := do
  let pageIdx ← a.pageIndex addr
  let wordIdx := pageIdx / 64
  let mask := 1#64 <<< (pageIdx % 64)
  if a.bitmap wordIdx &&& mask ≠ 0 then throw .doubleFree
  return { a with bitmap := Function.update a.bitmap wordIdx (a.bitmap wordIdx ||| mask) }

/-! ### The set of allocated pages -/

/-- Page index `i` is marked in the bitmap. -/
def Marked (a : BitmapAllocator) (i : Nat) : Prop := (a.bitmap (i / 64)).getLsbD (i % 64) = true

instance (a : BitmapAllocator) (i : Nat) : Decidable (a.Marked i) :=
  inferInstanceAs (Decidable ((a.bitmap (i / 64)).getLsbD (i % 64) = true))

/-- `addr` is the address of a managed page whose bit is set. -/
def Allocated (a : BitmapAllocator) (addr : Nat) : Prop :=
  ∃ i, i < a.totalPages ∧ addr = a.baseAddr + i * pageSize ∧ a.Marked i

/-- `a'` is `a` with page `i` newly marked. -/
structure Grows (a a' : BitmapAllocator) (i : Nat) : Prop where
  base : a'.baseAddr = a.baseAddr
  total : a'.totalPages = a.totalPages
  bound : i < a.totalPages
  fresh : ¬ a.Marked i
  marked : ∀ j, a'.Marked j ↔ j = i ∨ a.Marked j

/-- `a'` is `a` with page `i` released. -/
structure Shrinks (a a' : BitmapAllocator) (i : Nat) : Prop where
  base : a'.baseAddr = a.baseAddr
  total : a'.totalPages = a.totalPages
  bound : i < a.totalPages
  held : a.Marked i
  marked : ∀ j, a'.Marked j ↔ j ≠ i ∧ a.Marked j

theorem one_shiftLeft_getLsbD {b j : Nat} (bound : j < 64) :
    (1#64 <<< b).getLsbD j = decide (j = b) := by
  simp only [BitVec.getLsbD_shiftLeft, BitVec.getLsbD_one]
  rcases Nat.lt_trichotomy j b with below | same | above
  · simp [below, show j ≠ b by omega]
  · simp [same, show b < 64 by omega]
  · simp [bound, show ¬ j < b by omega, show j ≠ b by omega, show j - b ≠ 0 by omega]

theorem update_word_getLsbD {bitmap : Nat → BitVec 64} {i j : Nat} {v : BitVec 64} :
    (Function.update bitmap (i / 64) v (j / 64)).getLsbD (j % 64) =
      if j / 64 = i / 64 then v.getLsbD (j % 64) else (bitmap (j / 64)).getLsbD (j % 64) := by
  by_cases same : j / 64 = i / 64
  · rw [same, Function.update_self, if_pos rfl]
  · rw [Function.update_of_ne same, if_neg same]

theorem marked_set {a : BitmapAllocator} {i j : Nat} :
    ({ a with bitmap := Function.update a.bitmap (i / 64) (a.bitmap (i / 64) ||| 1#64 <<< (i % 64)) } :
      BitmapAllocator).Marked j ↔ j = i ∨ a.Marked j := by
  have inside : j % 64 < 64 := Nat.mod_lt _ (by decide)
  rw [Marked, update_word_getLsbD, Marked]
  by_cases same : j / 64 = i / 64
  · rw [if_pos same, BitVec.getLsbD_or, one_shiftLeft_getLsbD inside, ← same, Bool.or_eq_true,
      decide_eq_true_eq]
    constructor
    · rintro (held | equal)
      · exact Or.inr held
      · exact Or.inl (by omega)
    · rintro (equal | held)
      · exact Or.inr (by omega)
      · exact Or.inl held
  · rw [if_neg same]
    exact ⟨Or.inr, fun h => h.resolve_left fun equal => same (by rw [equal])⟩

theorem marked_clear {a : BitmapAllocator} {i j : Nat} :
    ({ a with bitmap := Function.update a.bitmap (i / 64) (a.bitmap (i / 64) &&& ~~~(1#64 <<< (i % 64))) } :
      BitmapAllocator).Marked j ↔ j ≠ i ∧ a.Marked j := by
  have inside : j % 64 < 64 := Nat.mod_lt _ (by decide)
  rw [Marked, update_word_getLsbD, Marked]
  by_cases same : j / 64 = i / 64
  · rw [if_pos same, BitVec.getLsbD_and, BitVec.getLsbD_not, one_shiftLeft_getLsbD inside, ← same,
      Bool.and_eq_true, Bool.and_eq_true, Bool.not_eq_true', decide_eq_false_iff_not, decide_eq_true_eq]
    constructor
    · rintro ⟨held, -, different⟩
      exact ⟨fun equal => different (by rw [equal]), held⟩
    · rintro ⟨different, held⟩
      exact ⟨held, inside, fun equal => different (by omega)⟩
  · rw [if_neg same]
    exact ⟨fun held => ⟨fun equal => same (by rw [equal]), held⟩, And.right⟩

theorem and_mask_eq_zero_iff {a : BitmapAllocator} {i : Nat} :
    a.bitmap (i / 64) &&& 1#64 <<< (i % 64) = 0 ↔ ¬ a.Marked i := by
  have inside : i % 64 < 64 := Nat.mod_lt _ (by decide)
  constructor
  · intro zero held
    have bit := congrArg (fun w => BitVec.getLsbD w (i % 64)) zero
    simp only [BitVec.getLsbD_and, one_shiftLeft_getLsbD inside] at bit
    rw [Marked] at held
    simp [held] at bit
  · intro clear
    apply BitVec.eq_of_getLsbD_eq
    intro j bound
    rw [BitVec.getLsbD_and, one_shiftLeft_getLsbD bound]
    by_cases same : j = i % 64
    · subst same
      rw [Marked, Bool.not_eq_true] at clear
      simp [clear]
    · simp [same]

/-- What the scan of `alloc` finds from word `w` on, all earlier pages being marked. -/
theorem allocFrom_spec {a : BitmapAllocator} {w n : Nat} (full : ∀ j, j < w * 64 → a.Marked j) :
    (∃ i a', a.allocFrom w n = .ok (a.baseAddr + i * pageSize, a') ∧ a.Grows a' i ∧
      ∀ j, j < i → a.Marked j) ∨
    (a.allocFrom w n = .error .outOfMemory ∧
      ∀ j, j < a.totalPages → j < (w + n) * 64 → a.Marked j) := by
  induction n generalizing w with
  | zero => exact Or.inr ⟨rfl, fun j _ below => full j below⟩
  | succ n ih =>
    rw [allocFrom]
    by_cases saturated : a.bitmap w = BitVec.allOnes 64
    · simp only [saturated, if_true]
      have next : ∀ j, j < (w + 1) * 64 → a.Marked j := by
        intro j below
        rcases Nat.lt_or_ge j (w * 64) with earlier | here
        · exact full j earlier
        · have word : j / 64 = w := by omega
          rw [Marked, word, saturated, BitVec.getLsbD_allOnes, decide_eq_true_eq]
          exact Nat.mod_lt _ (by decide)
      rcases ih next with found | ⟨none, all⟩
      · exact Or.inl found
      · exact Or.inr ⟨none, fun j inside below => all j inside (by omega)⟩
    · have nonzero : ~~~(a.bitmap w) ≠ 0 := by
        intro zero
        apply saturated
        have inverse := congrArg (~~~ ·) zero
        simpa using inverse
      have bit := BitVec.getLsbD_true_ctz_of_ne_zero nonzero
      have least : ∀ b, b < (~~~(a.bitmap w)).ctz.toNat → (a.bitmap w).getLsbD b = true := by
        intro b below
        have low := BitVec.getLsbD_false_of_lt_ctz below
        have small : b < 64 := by
          have := BitVec.ctz_lt_iff_ne_zero.mpr nonzero
          rw [BitVec.lt_def] at this
          simp at this
          omega
        simpa [BitVec.getLsbD_not, small] using low
      have small : (~~~(a.bitmap w)).ctz.toNat < 64 := by
        have := BitVec.ctz_lt_iff_ne_zero.mpr nonzero
        rw [BitVec.lt_def] at this
        simpa using this
      generalize (~~~(a.bitmap w)).ctz.toNat = b at bit least small
      simp only [saturated, if_false]
      have word : (w * 64 + b) / 64 = w := by omega
      have offset : (w * 64 + b) % 64 = b := by omega
      have before : ∀ j, j < w * 64 + b → a.Marked j := by
        intro j below
        rcases Nat.lt_or_ge j (w * 64) with earlier | here
        · exact full j earlier
        · rw [Marked, show j / 64 = w by omega]
          exact least _ (by omega)
      by_cases outside : w * 64 + b ≥ a.totalPages
      · rw [if_pos outside]
        exact Or.inr ⟨rfl, fun j inside _ => before j (by omega)⟩
      · rw [if_neg outside]
        refine Or.inl ⟨w * 64 + b, _, rfl, ⟨rfl, rfl, by omega, ?_, fun j => ?_⟩, before⟩
        · rw [Marked, word, offset]
          rw [BitVec.getLsbD_not] at bit
          simp at bit
          simp [bit.2]
        · have set := marked_set (a := a) (i := w * 64 + b) (j := j)
          rw [word, offset] at set
          exact set

/-- `alloc` marks the lowest free page, or reports that every page is marked. -/
theorem alloc_spec (a : BitmapAllocator) :
    (∃ i a', a.alloc = .ok (a.baseAddr + i * pageSize, a') ∧ a.Grows a' i ∧ ∀ j, j < i → a.Marked j) ∨
    (a.alloc = .error .outOfMemory ∧ ∀ j, j < a.totalPages → a.Marked j) := by
  rcases allocFrom_spec (a := a) (w := 0) (n := a.wordsUsed) (by omega) with found | ⟨none, all⟩
  · exact Or.inl found
  · refine Or.inr ⟨none, fun j inside => all j inside ?_⟩
    rw [wordsUsed]
    omega

theorem alloc_ok {a a' : BitmapAllocator} {addr : Nat} (h : a.alloc = .ok (addr, a')) :
    ∃ i, addr = a.baseAddr + i * pageSize ∧ a.Grows a' i := by
  rcases a.alloc_spec with ⟨i, a₁, found, grows, -⟩ | ⟨none, -⟩
  · rw [found, Except.ok.injEq, Prod.mk.injEq] at h
    obtain ⟨rfl, rfl⟩ := h
    exact ⟨i, rfl, grows⟩
  · rw [none] at h
    cases h

theorem isAllocated_iff {a : BitmapAllocator} (aligned : a.baseAddr % pageSize = 0) {addr : Nat} :
    a.isAllocated addr = true ↔ a.Allocated addr := by
  unfold isAllocated Allocated
  simp only [pageSize] at *
  by_cases bad : addr % 4096 ≠ 0 ∨ addr < a.baseAddr
  · rw [if_pos bad]
    simp only [Bool.false_eq_true, false_iff, not_exists, not_and]
    intro i _ place
    omega
  · rw [if_neg bad]
    simp only [not_or, ne_eq, not_not, Nat.not_lt] at bad
    have place : addr = a.baseAddr + (addr - a.baseAddr) / 4096 * 4096 := by omega
    have unique : ∀ i, addr = a.baseAddr + i * 4096 → i = (addr - a.baseAddr) / 4096 := by
      intro i equal
      omega
    split
    · simp only [Bool.false_eq_true, false_iff, not_exists, not_and]
      intro i inside equal
      have := unique i equal
      omega
    · rw [bne_iff_ne, ne_eq, and_mask_eq_zero_iff, not_not]
      constructor
      · exact fun held => ⟨_, by omega, place, held⟩
      · rintro ⟨i, -, equal, held⟩
        rwa [← unique i equal]

theorem free_ok {a a' : BitmapAllocator} {addr : Nat} (aligned : a.baseAddr % pageSize = 0)
    (h : a.free addr = .ok a') : ∃ i, addr = a.baseAddr + i * pageSize ∧ a.Shrinks a' i := by
  unfold free pageIndex at h
  simp only [pageSize] at *
  split at h
  · cases h
  split at h
  · cases h
  split at h
  · cases h
  rename_i whole above inside
  simp only [bind, Except.bind] at h
  split at h
  · cases h
  rename_i held
  rw [and_mask_eq_zero_iff, not_not] at held
  cases h
  exact ⟨(addr - a.baseAddr) / 4096, by omega, rfl, rfl, by omega, held, fun j => marked_clear⟩

theorem free_of_allocated {a : BitmapAllocator} {addr : Nat} (h : a.isAllocated addr = true) :
    ∃ a', a.free addr = .ok a' := by
  unfold isAllocated at h
  split at h
  · cases h
  rename_i ok
  simp only [not_or, ne_eq, not_not, Nat.not_lt] at ok
  dsimp only at h
  split at h
  · cases h
  rename_i inside
  rw [bne_iff_ne, ne_eq] at h
  unfold free pageIndex
  rw [if_neg (by omega), if_neg (by omega), if_neg inside]
  simp only [bind, Except.bind, if_neg h]
  exact ⟨_, rfl⟩

end BitmapAllocator
end GooseOs
