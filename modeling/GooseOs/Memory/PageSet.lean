import GooseOs.Kernel.PageAlloc
import Mathlib.Data.Nat.Count
import Mathlib.Data.Finset.Card

/-!
The bitmap allocator as a finite set. The specification keeps the set of held page indices; the
bitmap refines it through every history of calls, and its population counts are the set's size.
-/

namespace GooseOs

/-- A call on the page allocator. -/
inductive PageOp where
  | alloc
  | free (addr : Nat)
  | mark (addr : Nat)

/-- A set of held pages out of `total` pages from `base` on. -/
structure PageSet where
  base : Nat
  total : Nat
  held : Finset Nat
  inside : ∀ i ∈ held, i < total

namespace PageSet

def empty (base total : Nat) : PageSet := ⟨base, total, ∅, by simp⟩

def addr (s : PageSet) (i : Nat) : Nat := s.base + i * pageSize

/-- Hold page `i` as well. -/
def insert (s : PageSet) (i : Nat) (bound : i < s.total) : PageSet :=
  { s with
    held := Insert.insert i s.held
    inside := fun j member => by
      rcases Finset.mem_insert.mp member with rfl | before
      · exact bound
      · exact s.inside j before }

/-- Let page `i` go. -/
def erase (s : PageSet) (i : Nat) : PageSet :=
  { s with held := s.held.erase i, inside := fun j member => s.inside j (Finset.mem_of_mem_erase member) }

/-- A call on the set: its answer and the set after it. -/
inductive Call (s : PageSet) : PageOp → Except AllocError (Option Nat) → PageSet → Prop where
  /-- The lowest page that is not held. -/
  | alloc {i : Nat} (bound : i < s.total) (fresh : i ∉ s.held) (lowest : ∀ j, j < i → j ∈ s.held) :
      Call s .alloc (.ok (some (s.addr i))) (s.insert i bound)
  | full (all : s.held.card = s.total) : Call s .alloc (.error .outOfMemory) s
  | free {i : Nat} (member : i ∈ s.held) : Call s (.free (s.addr i)) (.ok none) (s.erase i)
  | freeTwice {i : Nat} (bound : i < s.total) (fresh : i ∉ s.held) : Call s (.free (s.addr i)) (.error .doubleFree) s
  | mark {i : Nat} (bound : i < s.total) (fresh : i ∉ s.held) : Call s (.mark (s.addr i)) (.ok none) (s.insert i bound)
  | markTwice {i : Nat} (member : i ∈ s.held) : Call s (.mark (s.addr i)) (.error .doubleFree) s
  | unaligned {op : PageOp} {addr : Nat} (target : op = .free addr ∨ op = .mark addr) (odd : addr % pageSize ≠ 0) :
      Call s op (.error .notAligned) s
  | outside {op : PageOp} {addr : Nat} (target : op = .free addr ∨ op = .mark addr) (even : addr % pageSize = 0)
      (away : addr < s.base ∨ s.base + s.total * pageSize ≤ addr) : Call s op (.error .invalidAddress) s

/-- A history of calls with their answers. -/
inductive History : PageSet → List (PageOp × Except AllocError (Option Nat)) → PageSet → Prop where
  | nil {s : PageSet} : History s [] s
  | cons {s s' s'' : PageSet} {op : PageOp} {answer : Except AllocError (Option Nat)}
      {rest : List (PageOp × Except AllocError (Option Nat))} (call : Call s op answer s') (later : History s' rest s'') :
      History s ((op, answer) :: rest) s''

end PageSet

namespace BitmapAllocator

/-- A call on the bitmap: its answer and the bitmap after it. -/
def call (a : BitmapAllocator) : PageOp → Except AllocError (Option Nat) × BitmapAllocator
  | .alloc => match a.alloc with
    | .ok (addr, a') => (.ok (some addr), a')
    | .error e => (.error e, a)
  | .free addr => match a.free addr with
    | .ok a' => (.ok none, a')
    | .error e => (.error e, a)
  | .mark addr => match a.markAllocated addr with
    | .ok a' => (.ok none, a')
    | .error e => (.error e, a)

/-- A history of calls on the bitmap: the answers and the bitmap after it. -/
def calls (a : BitmapAllocator) : List PageOp → List (PageOp × Except AllocError (Option Nat)) × BitmapAllocator
  | [] => ([], a)
  | op :: rest =>
    let (answer, a') := a.call op
    let (answers, a'') := calls a' rest
    ((op, answer) :: answers, a'')

/-- The bitmap has exactly the bits of the set. -/
structure Represents (a : BitmapAllocator) (s : PageSet) : Prop where
  base : a.baseAddr = s.base
  total : a.totalPages = s.total
  aligned : s.base % pageSize = 0
  marked : ∀ i, a.Marked i ↔ i ∈ s.held

/-! ### Population counts -/

theorem cpopNatRec_eq_count (w : BitVec 64) (n acc : Nat) :
    w.cpopNatRec n acc = acc + Nat.count (fun b => w.getLsbD b = true) n := by
  induction n generalizing acc with
  | zero => simp
  | succ n ih =>
    rw [BitVec.cpopNatRec_succ, ih, Nat.count_succ]
    cases w.getLsbD n <;> simp [Nat.add_assoc, Nat.add_comm]

theorem cpop_toNat (w : BitVec 64) : w.cpop.toNat = Nat.count (fun b => w.getLsbD b = true) 64 := by
  have bound : Nat.count (fun b => w.getLsbD b = true) 64 ≤ 64 := Nat.count_le _
  rw [BitVec.cpop, cpopNatRec_eq_count, BitVec.toNat_ofNat, Nat.zero_add]
  omega

/-- The popcounts of the first words count the marked pages they cover. -/
theorem popcounts_eq_count (a : BitmapAllocator) (words : Nat) :
    ((List.range words).map fun i => (a.bitmap i).cpop.toNat).sum = Nat.count a.Marked (words * 64) := by
  induction words with
  | zero => simp
  | succ words ih =>
    have word : Nat.count (fun b => (a.bitmap words).getLsbD b = true) 64 =
        Nat.count (fun b => a.Marked (words * 64 + b)) 64 := by
      rw [Nat.count_eq_card_filter_range, Nat.count_eq_card_filter_range]
      refine congrArg Finset.card (Finset.filter_congr fun b small => ?_)
      have small := Finset.mem_range.mp small
      rw [Marked, show (words * 64 + b) / 64 = words by omega, show (words * 64 + b) % 64 = b by omega]
    rw [List.range_succ, List.map_append, List.sum_append, ih, Nat.succ_mul, Nat.count_add]
    simp [cpop_toNat, word]

section Represents
variable {a a' : BitmapAllocator} {s : PageSet}

theorem Represents.count (rep : a.Represents s) : a.allocatedCount = s.held.card := by
  have bound : s.total ≤ a.wordsUsed * 64 := by
    rw [wordsUsed, rep.total]
    omega
  rw [allocatedCount, popcounts_eq_count, Nat.count_eq_card_filter_range]
  refine congrArg Finset.card (Finset.ext fun i => ?_)
  rw [Finset.mem_filter, Finset.mem_range, rep.marked]
  exact ⟨fun h => h.2, fun member => ⟨Nat.lt_of_lt_of_le (s.inside i member) bound, member⟩⟩

theorem held_card_le (s : PageSet) : s.held.card ≤ s.total := by
  have subset : s.held ⊆ Finset.range s.total := fun i member => Finset.mem_range.mpr (s.inside i member)
  simpa using Finset.card_le_card subset

/-- A set that holds every page is full, and a full set holds every page. -/
theorem held_card_eq_iff (s : PageSet) : s.held.card = s.total ↔ ∀ i, i < s.total → i ∈ s.held := by
  have subset : s.held ⊆ Finset.range s.total := fun i member => Finset.mem_range.mpr (s.inside i member)
  constructor
  · intro full i bound
    rw [Finset.eq_of_subset_of_card_le subset (by simp [full])]
    exact Finset.mem_range.mpr bound
  · intro all
    have same : s.held = Finset.range s.total :=
      Finset.Subset.antisymm subset fun i member => all i (Finset.mem_range.mp member)
    rw [same, Finset.card_range]

theorem Represents.insert {i : Nat} (rep : a.Represents s) (bound : i < s.total) (base : a'.baseAddr = a.baseAddr)
    (total : a'.totalPages = a.totalPages) (marked : ∀ j, a'.Marked j ↔ j = i ∨ a.Marked j) :
    a'.Represents (s.insert i bound) := by
  refine ⟨base.trans rep.base, total.trans rep.total, rep.aligned, fun j => ?_⟩
  rw [marked, rep.marked, PageSet.insert, Finset.mem_insert]

theorem Represents.erase {i : Nat} (rep : a.Represents s) (base : a'.baseAddr = a.baseAddr)
    (total : a'.totalPages = a.totalPages) (marked : ∀ j, a'.Marked j ↔ j ≠ i ∧ a.Marked j) :
    a'.Represents (s.erase i) := by
  refine ⟨base.trans rep.base, total.trans rep.total, rep.aligned, fun j => ?_⟩
  rw [marked, rep.marked, PageSet.erase, Finset.mem_erase]

/-! ### The calls -/

/-- The address checks decide between the error an address deserves and its page. -/
theorem Represents.pageIndex (rep : a.Represents s) (addr : Nat) :
    (∃ i, i < s.total ∧ addr = s.addr i ∧ a.pageIndex addr = .ok i) ∨
      (addr % pageSize ≠ 0 ∧ a.pageIndex addr = .error .notAligned) ∨
      (addr % pageSize = 0 ∧ (addr < s.base ∨ s.base + s.total * pageSize ≤ addr) ∧
        a.pageIndex addr = .error .invalidAddress) := by
  have aligned := rep.aligned
  unfold BitmapAllocator.pageIndex PageSet.addr
  rw [rep.base, rep.total]
  simp only [pageSize] at *
  split
  · exact Or.inr (Or.inl ⟨‹_›, rfl⟩)
  split
  · exact Or.inr (Or.inr ⟨by omega, Or.inl ‹_›, rfl⟩)
  split
  · exact Or.inr (Or.inr ⟨by omega, Or.inr (by omega), rfl⟩)
  · exact Or.inl ⟨(addr - s.base) / 4096, by omega, by omega, rfl⟩

theorem Represents.alloc (rep : a.Represents s) :
    ∃ s', PageSet.Call s .alloc (a.call .alloc).1 s' ∧ (a.call .alloc).2.Represents s' := by
  rcases a.alloc_spec with ⟨i, a', found, grows, before⟩ | ⟨none, all⟩
  · have bound : i < s.total := rep.total ▸ grows.bound
    refine ⟨s.insert i bound, ?_, ?_⟩
    · rw [call, found, rep.base]
      exact .alloc bound (fun member => grows.fresh ((rep.marked i).mpr member)) fun j below =>
        (rep.marked j).mp (before j below)
    · rw [call, found]
      exact rep.insert bound grows.base grows.total grows.marked
  · refine ⟨s, ?_, ?_⟩
    · rw [call, none]
      exact .full ((held_card_eq_iff s).mpr fun i bound => (rep.marked i).mp (all i (rep.total ▸ bound)))
    · rw [call, none]
      exact rep

theorem Represents.free (rep : a.Represents s) (addr : Nat) :
    ∃ s', PageSet.Call s (.free addr) (a.call (.free addr)).1 s' ∧ (a.call (.free addr)).2.Represents s' := by
  rcases rep.pageIndex addr with ⟨i, bound, rfl, index⟩ | ⟨odd, index⟩ | ⟨even, away, index⟩
  · by_cases member : i ∈ s.held
    · have freed : a.free (s.addr i) =
          .ok { a with bitmap := Function.update a.bitmap (i / 64) (a.bitmap (i / 64) &&& ~~~(1#64 <<< (i % 64))) } := by
        have held : ¬ a.bitmap (i / 64) &&& 1#64 <<< (i % 64) = 0 := by
          rw [and_mask_eq_zero_iff, not_not]
          exact (rep.marked i).mpr member
        simp only [BitmapAllocator.free, index, bind, Except.bind, if_neg held]
        rfl
      refine ⟨s.erase i, ?_, ?_⟩
      · rw [call, freed]
        exact .free member
      · rw [call, freed]
        exact rep.erase rfl rfl fun j => marked_clear
    · have refused : a.free (s.addr i) = .error .doubleFree := by
        have clear : a.bitmap (i / 64) &&& 1#64 <<< (i % 64) = 0 := by
          rw [and_mask_eq_zero_iff]
          exact fun held => member ((rep.marked i).mp held)
        simp only [BitmapAllocator.free, index, bind, Except.bind, if_pos clear]
        rfl
      refine ⟨s, ?_, ?_⟩
      · rw [call, refused]
        exact .freeTwice bound member
      · rw [call, refused]
        exact rep
  · have refused : a.free addr = .error .notAligned := by simp only [BitmapAllocator.free, index, bind, Except.bind]
    refine ⟨s, ?_, ?_⟩
    · rw [call, refused]
      exact .unaligned (Or.inl rfl) odd
    · rw [call, refused]
      exact rep
  · have refused : a.free addr = .error .invalidAddress := by simp only [BitmapAllocator.free, index, bind, Except.bind]
    refine ⟨s, ?_, ?_⟩
    · rw [call, refused]
      exact .outside (Or.inl rfl) even away
    · rw [call, refused]
      exact rep

theorem Represents.mark (rep : a.Represents s) (addr : Nat) :
    ∃ s', PageSet.Call s (.mark addr) (a.call (.mark addr)).1 s' ∧ (a.call (.mark addr)).2.Represents s' := by
  rcases rep.pageIndex addr with ⟨i, bound, rfl, index⟩ | ⟨odd, index⟩ | ⟨even, away, index⟩
  · by_cases member : i ∈ s.held
    · have refused : a.markAllocated (s.addr i) = .error .doubleFree := by
        have held : ¬ a.bitmap (i / 64) &&& 1#64 <<< (i % 64) = 0 := by
          rw [and_mask_eq_zero_iff, not_not]
          exact (rep.marked i).mpr member
        simp only [BitmapAllocator.markAllocated, index, bind, Except.bind, ne_eq, held, not_false_eq_true, if_true]
        rfl
      refine ⟨s, ?_, ?_⟩
      · rw [call, refused]
        exact .markTwice member
      · rw [call, refused]
        exact rep
    · have marked : a.markAllocated (s.addr i) =
          .ok { a with bitmap := Function.update a.bitmap (i / 64) (a.bitmap (i / 64) ||| 1#64 <<< (i % 64)) } := by
        have clear : a.bitmap (i / 64) &&& 1#64 <<< (i % 64) = 0 := by
          rw [and_mask_eq_zero_iff]
          exact fun held => member ((rep.marked i).mp held)
        simp only [BitmapAllocator.markAllocated, index, bind, Except.bind, ne_eq, clear, not_true_eq_false, if_false]
        rfl
      refine ⟨s.insert i bound, ?_, ?_⟩
      · rw [call, marked]
        exact .mark bound member
      · rw [call, marked]
        exact rep.insert bound rfl rfl fun j => marked_set
  · have refused : a.markAllocated addr = .error .notAligned := by
      simp only [BitmapAllocator.markAllocated, index, bind, Except.bind]
    refine ⟨s, ?_, ?_⟩
    · rw [call, refused]
      exact .unaligned (Or.inr rfl) odd
    · rw [call, refused]
      exact rep
  · have refused : a.markAllocated addr = .error .invalidAddress := by
      simp only [BitmapAllocator.markAllocated, index, bind, Except.bind]
    refine ⟨s, ?_, ?_⟩
    · rw [call, refused]
      exact .outside (Or.inr rfl) even away
    · rw [call, refused]
      exact rep

/-- Every call on the bitmap is the same call on the set. -/
theorem Represents.call (rep : a.Represents s) (op : PageOp) :
    ∃ s', PageSet.Call s op (a.call op).1 s' ∧ (a.call op).2.Represents s' := by
  cases op with
  | alloc => exact rep.alloc
  | free addr => exact rep.free addr
  | mark addr => exact rep.mark addr

theorem Represents.calls (rep : a.Represents s) (ops : List PageOp) :
    ∃ s', PageSet.History s (a.calls ops).1 s' ∧ (a.calls ops).2.Represents s' := by
  induction ops generalizing a s with
  | nil => exact ⟨s, .nil, rep⟩
  | cons op rest ih =>
    obtain ⟨s₁, called, rep₁⟩ := rep.call op
    obtain ⟨s₂, later, rep₂⟩ := ih rep₁
    exact ⟨s₂, .cons called later, rep₂⟩

end Represents

theorem new_represents {base n : Nat} (aligned : base % pageSize = 0) :
    (BitmapAllocator.new base n).Represents (.empty base n) :=
  ⟨rfl, rfl, aligned, fun i => by simp [Marked, BitmapAllocator.new, PageSet.empty]⟩

/-- What the queries of the bitmap say is what the set says. -/
structure Observes (a : BitmapAllocator) (s : PageSet) : Prop where
  allocated : ∀ addr, a.isAllocated addr = true ↔ ∃ i ∈ s.held, addr = s.addr i
  allocatedCount : a.allocatedCount = s.held.card
  freeCount : a.freeCount + s.held.card = s.total
  bits : ∀ i, a.Marked i → i < s.total
  words : a.wordsUsed ≤ bitmapWords

theorem Represents.observes {a : BitmapAllocator} {s : PageSet} (rep : a.Represents s) (small : s.total ≤ 32768) :
    a.Observes s := by
  refine ⟨fun addr => ?_, rep.count, ?_, fun i held => s.inside i ((rep.marked i).mp held), ?_⟩
  · rw [isAllocated_iff (by rw [rep.base]; exact rep.aligned), Allocated]
    constructor
    · rintro ⟨i, -, rfl, held⟩
      exact ⟨i, (rep.marked i).mp held, by rw [PageSet.addr, rep.base]⟩
    · rintro ⟨i, member, rfl⟩
      exact ⟨i, by rw [rep.total]; exact s.inside i member, by rw [PageSet.addr, rep.base], (rep.marked i).mpr member⟩
  · have bound := held_card_le s
    rw [BitmapAllocator.freeCount, rep.count, rep.total]
    omega
  · rw [wordsUsed, rep.total, bitmapWords]
    omega

/-- Calls keep the range of pages, and hand out addresses inside it only. -/
theorem history_range {s s' : PageSet} {answers : List (PageOp × Except AllocError (Option Nat))}
    (history : PageSet.History s answers s') :
    s'.base = s.base ∧ s'.total = s.total ∧
      ∀ op addr, (op, .ok (some addr)) ∈ answers → addr + pageSize ≤ s.base + s.total * pageSize := by
  induction history with
  | nil => exact ⟨rfl, rfl, by simp⟩
  | @cons s s₁ s₂ op answer rest called later ih =>
    obtain ⟨base, total, inside⟩ := ih
    have kept : s₁.base = s.base ∧ s₁.total = s.total := by cases called <;> exact ⟨rfl, rfl⟩
    refine ⟨base.trans kept.1, total.trans kept.2, fun op' addr member => ?_⟩
    rcases List.mem_cons.mp member with first | others
    · cases called with
      | alloc bound =>
        simp only [Prod.mk.injEq, Except.ok.injEq, Option.some.injEq] at first
        rw [first.2, PageSet.addr]
        simp only [pageSize]
        omega
      | _ => simp at first
    · rw [← kept.1, ← kept.2]
      exact inside op' addr others

end BitmapAllocator

open BitmapAllocator in
/-- From `new(base, n)` on, every history of calls is a history of the set, and every query then
answers what the set says. -/
theorem bitmap_refines_set {base n : Nat} (aligned : base % pageSize = 0) (small : n ≤ 32768)
    (fits : base + n * pageSize ≤ 2 ^ 64) (ops : List PageOp) :
    ∃ s, PageSet.History (.empty base n) ((BitmapAllocator.new base n).calls ops).1 s ∧
      ((BitmapAllocator.new base n).calls ops).2.Observes s ∧ s.base = base ∧ s.total = n ∧
      ∀ op addr, (op, .ok (some addr)) ∈ ((BitmapAllocator.new base n).calls ops).1 → addr + pageSize ≤ 2 ^ 64 := by
  obtain ⟨s, history, rep⟩ := (new_represents (n := n) aligned).calls ops
  obtain ⟨base', total, inside⟩ := history_range history
  have total : s.total = n := total
  refine ⟨s, history, rep.observes (by rw [total]; exact small), base', total, fun op addr member => ?_⟩
  exact Nat.le_trans (inside op addr member) fits

/-- Seventy pages, the last word partly used. -/
theorem bitmap_refines_set_seventy :
    ∃ s, PageSet.History (.empty 0x8000_0000 70)
        ((BitmapAllocator.new 0x8000_0000 70).calls [.alloc, .mark 0x8004_5000, .free 0x8000_0000]).1 s ∧
      ((BitmapAllocator.new 0x8000_0000 70).calls [.alloc, .mark 0x8004_5000, .free 0x8000_0000]).2.Observes s ∧
      s.base = 0x8000_0000 ∧ s.total = 70 ∧
      ∀ op addr, (op, .ok (some addr)) ∈
          ((BitmapAllocator.new 0x8000_0000 70).calls [.alloc, .mark 0x8004_5000, .free 0x8000_0000]).1 →
        addr + pageSize ≤ 2 ^ 64 :=
  bitmap_refines_set (by decide) (by decide) (by decide) _

end GooseOs
