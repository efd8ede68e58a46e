import GooseOs.Kernel.Security
import GooseOs.Lib.Bytes
import GooseOs.Lib.Radix

/-!
`page_table.rs`: Sv39 entries, address decomposition and the page walk. The tables of a memory
are read as a radix store whose tables are page numbers, and the walk is a lookup in it.
-/

namespace GooseOs

/-- The low ten bits of an entry. -/
structure PteFlags where
  bits : Word
  deriving DecidableEq

namespace PteFlags

def none : PteFlags := ⟨0⟩
def valid : PteFlags := ⟨1 <<< 0⟩
def read : PteFlags := ⟨1 <<< 1⟩
def write : PteFlags := ⟨1 <<< 2⟩
def execute : PteFlags := ⟨1 <<< 3⟩
def user : PteFlags := ⟨1 <<< 4⟩
def global : PteFlags := ⟨1 <<< 5⟩
def access : PteFlags := ⟨1 <<< 6⟩
def dirty : PteFlags := ⟨1 <<< 7⟩

def union (f g : PteFlags) : PteFlags := ⟨f.bits ||| g.bits⟩

def contains (f g : PteFlags) : Bool := f.bits &&& g.bits == g.bits

def fromBits (bits : Word) : PteFlags := ⟨bits &&& 0x3FF⟩

def isLeaf (f : PteFlags) : Bool := f.bits &&& (read.bits ||| write.bits ||| execute.bits) != 0

end PteFlags

section Permissions
open PteFlags

def kernelRx : PteFlags := ⟨valid.bits ||| read.bits ||| execute.bits ||| access.bits ||| global.bits⟩

def kernelRo : PteFlags := ⟨valid.bits ||| read.bits ||| access.bits ||| global.bits⟩

def kernelRw : PteFlags :=
  ⟨valid.bits ||| read.bits ||| write.bits ||| access.bits ||| dirty.bits ||| global.bits⟩

def kernelMmio : PteFlags :=
  ⟨valid.bits ||| read.bits ||| write.bits ||| access.bits ||| dirty.bits ||| global.bits⟩

def userRx : PteFlags := ⟨valid.bits ||| read.bits ||| execute.bits ||| user.bits ||| access.bits⟩

def userRw : PteFlags :=
  ⟨valid.bits ||| read.bits ||| write.bits ||| user.bits ||| access.bits ||| dirty.bits⟩

def userMmio : PteFlags :=
  ⟨valid.bits ||| read.bits ||| write.bits ||| user.bits ||| access.bits ||| dirty.bits⟩

end Permissions

/-- A page-table entry: flags in bits 0..9, the page number from bit 10. -/
structure Pte where
  bits : Word
  deriving DecidableEq

namespace Pte

def invalid : Pte := ⟨0⟩

/-- The page number of an address. The source's mask keeps 56 bits. -/
def ppnOf (physAddr : Nat) : Word := (BitVec.ofNat 64 physAddr >>> 12) &&& 0x00FF_FFFF_FFFF_FFFF

def new (physAddr : Nat) (flags : PteFlags) : Pte := ⟨(ppnOf physAddr <<< 10) ||| flags.bits⟩

def branch (tablePhysAddr : Nat) : Pte := ⟨(ppnOf tablePhysAddr <<< 10) ||| PteFlags.valid.bits⟩

def flags (p : Pte) : PteFlags := .fromBits p.bits

def isValid (p : Pte) : Bool := p.bits &&& PteFlags.valid.bits != 0

def isLeaf (p : Pte) : Bool := p.isValid && p.flags.isLeaf

def isBranch (p : Pte) : Bool := p.isValid && !p.flags.isLeaf

def ppn (p : Pte) : Word := (p.bits >>> 10) &&& 0x00FF_FFFF_FFFF_FFFF

def physAddr (p : Pte) : Nat := (p.ppn <<< 12).toNat

end Pte

/-- Entries in a table (`PT_ENTRIES`). -/
abbrev ptEntries : Nat := 512

/-- Level-2, level-1 and level-0 indices and the page offset of a virtual address. -/
def vaParts (va : Nat) : Fin ptEntries × Fin ptEntries × Fin ptEntries × Nat :=
  let index shift : Fin ptEntries := ⟨va >>> shift &&& 0x1FF, Nat.lt_of_le_of_lt Nat.and_le_right (by decide)⟩
  (index 30, index 21, index 12, va &&& 0xFFF)

def satpSv39 : Word := 8

def makeSatp (rootTablePhys : Nat) (asid : BitVec 16) : Word :=
  satpSv39 <<< 60 ||| asid.setWidth 64 <<< 44 ||| Pte.ppnOf rootTablePhys

/-- `kvm::satp_to_root`. -/
def satpToRoot (satp : Word) : Nat := ((satp &&& 0x0000_0FFF_FFFF_FFFF) <<< 12).toNat

structure WalkResult where
  phys : Nat
  flags : PteFlags
  deriving DecidableEq

/-- The loop of `walk` over the remaining level indices. A leaf above the last level is rejected. -/
def walkFrom (read : Nat → Word) (offset : Nat) : List (Fin ptEntries) → Nat → Option WalkResult
  | [], _ => none
  | idx :: rest, table =>
    let pte : Pte := ⟨read (table + idx * 8)⟩
    if !pte.isValid then none
    else if pte.isLeaf then
      if rest.isEmpty then some ⟨pte.physAddr + offset, pte.flags⟩ else none
    else walkFrom read offset rest pte.physAddr

def walk (root va : Nat) (read : Nat → Word) : Option WalkResult :=
  let (vpn2, vpn1, vpn0, offset) := vaParts va
  walkFrom read offset [vpn2, vpn1, vpn0] root

/-! ### Entries as numbers -/

theorem Pte.mask_toNat (w : Word) : (w &&& 0x00FF_FFFF_FFFF_FFFF).toNat = w.toNat % 2 ^ 56 := by
  rw [BitVec.toNat_and]
  exact Nat.and_two_pow_sub_one_eq_mod _ 56

theorem Pte.ppnOf_toNat {n : Nat} (bound : n < 2 ^ 52) : (ppnOf (n * pageSize)).toNat = n := by
  rw [ppnOf, mask_toNat, BitVec.toNat_ushiftRight, BitVec.toNat_ofNat, Nat.shiftRight_eq_div_pow]
  simp only [pageSize]
  omega

theorem Pte.pack_toNat {ppn flags : Word} (page : ppn.toNat < 2 ^ 52) (small : flags.toNat < 1024) :
    ((ppn <<< 10) ||| flags).toNat = ppn.toNat * 1024 + flags.toNat := by
  rw [BitVec.toNat_or, BitVec.toNat_shiftLeft, Nat.mod_eq_of_lt (by rw [Nat.shiftLeft_eq]; omega),
    ← Nat.shiftLeft_add_eq_or_of_lt (by omega), Nat.shiftLeft_eq]

theorem Pte.flags_toNat (p : Pte) : p.flags.bits.toNat = p.bits.toNat % 1024 := by
  rw [flags, PteFlags.fromBits, BitVec.toNat_and]
  exact Nat.and_two_pow_sub_one_eq_mod _ 10

theorem Pte.ppn_toNat (p : Pte) : p.ppn.toNat = p.bits.toNat / 1024 := by
  have bound := p.bits.isLt
  rw [ppn, mask_toNat, BitVec.toNat_ushiftRight, Nat.shiftRight_eq_div_pow]
  omega

/-- The page an entry points to: its page number without the bits an address cannot hold. -/
def Pte.page (p : Pte) : Nat := p.ppn.toNat % 2 ^ 52

theorem Pte.physAddr_eq (p : Pte) : p.physAddr = p.page * pageSize := by
  rw [physAddr, page, BitVec.toNat_shiftLeft, Nat.shiftLeft_eq]
  simp only [pageSize]
  omega

theorem Pte.isValid_iff (p : Pte) : p.isValid = true ↔ p.bits.toNat % 2 = 1 := by
  have bit : (p.bits &&& PteFlags.valid.bits).toNat = p.bits.toNat % 2 := by
    rw [BitVec.toNat_and]
    exact Nat.and_two_pow_sub_one_eq_mod _ 1
  rw [isValid, bne_iff_ne, ne_eq, ← BitVec.toNat_inj, bit]
  simp

theorem Pte.isLeaf_eq (p : Pte) (valid : p.isValid = true) : p.isLeaf = !p.isBranch := by
  rw [isLeaf, isBranch, valid]
  simp

section New
variable {n : Nat} {f : PteFlags} (bound : n < 2 ^ 52) (small : f.bits.toNat < 1024)
include bound small

theorem Pte.new_toNat : (new (n * pageSize) f).bits.toNat = n * 1024 + f.bits.toNat := by
  rw [new, pack_toNat (by rw [ppnOf_toNat bound]; exact bound) small, ppnOf_toNat bound]

theorem Pte.new_page : (new (n * pageSize) f).page = n := by
  rw [page, ppn_toNat, new_toNat bound small]
  omega

theorem Pte.new_physAddr : (new (n * pageSize) f).physAddr = n * pageSize := by
  rw [physAddr_eq, new_page bound small]

theorem Pte.new_flags : (new (n * pageSize) f).flags = f := by
  have number := flags_toNat (new (n * pageSize) f)
  rw [new_toNat bound small, show (n * 1024 + f.bits.toNat) % 1024 = f.bits.toNat by omega] at number
  cases packed : (new (n * pageSize) f).flags
  rw [packed] at number
  exact congrArg PteFlags.mk (BitVec.eq_of_toNat_eq number)

end New

theorem Pte.new_isValid {n : Nat} {f : PteFlags} (bound : n < 2 ^ 52) (small : f.bits.toNat < 1024)
    (valid : f.bits.toNat % 2 = 1) : (new (n * pageSize) f).isValid = true := by
  rw [isValid_iff, new_toNat bound small]
  omega

theorem Pte.new_isLeaf {n : Nat} {f : PteFlags} (bound : n < 2 ^ 52) (small : f.bits.toNat < 1024)
    (valid : f.bits.toNat % 2 = 1) (leaf : f.isLeaf = true) : (new (n * pageSize) f).isLeaf = true := by
  rw [isLeaf, new_isValid bound small valid, new_flags bound small, leaf]
  rfl

theorem Pte.branch_eq_new (a : Nat) : branch a = new a .valid := rfl

theorem Pte.branch_page {n : Nat} (bound : n < 2 ^ 52) : (branch (n * pageSize)).page = n := by
  rw [branch_eq_new, new_page bound (by decide)]

theorem Pte.branch_isValid {n : Nat} (bound : n < 2 ^ 52) : (branch (n * pageSize)).isValid = true := by
  rw [branch_eq_new, new_isValid bound (by decide) (by decide)]

theorem Pte.branch_isLeaf {n : Nat} (bound : n < 2 ^ 52) : (branch (n * pageSize)).isLeaf = false := by
  rw [isLeaf, branch_isValid bound, branch_eq_new, new_flags bound (by decide)]
  decide

theorem satpToRoot_makeSatp {n : Nat} {asid : BitVec 16} (bound : n < 2 ^ 44) :
    satpToRoot (makeSatp (n * pageSize) asid) = n * pageSize := by
  have page := Pte.ppnOf_toNat (n := n) (by omega)
  have low : (makeSatp (n * pageSize) asid &&& 0x0000_0FFF_FFFF_FFFF).toNat = n := by
    have masked : (makeSatp (n * pageSize) asid &&& 0x0000_0FFF_FFFF_FFFF).toNat =
        (makeSatp (n * pageSize) asid).toNat % 2 ^ 44 := by
      rw [BitVec.toNat_and]
      exact Nat.and_two_pow_sub_one_eq_mod _ 44
    have mode : (satpSv39 <<< 60).toNat % 2 ^ 44 = 0 := by decide
    have space : (asid.setWidth 64 <<< 44).toNat % 2 ^ 44 = 0 := by
      rw [BitVec.toNat_shiftLeft, Nat.shiftLeft_eq]
      omega
    rw [masked, makeSatp, BitVec.toNat_or, BitVec.toNat_or, Nat.or_mod_two_pow, Nat.or_mod_two_pow, mode, space,
      page]
    simp only [Nat.zero_or]
    exact Nat.mod_eq_of_lt bound
  rw [satpToRoot, BitVec.toNat_shiftLeft, low, Nat.shiftLeft_eq]
  simp only [pageSize]
  omega

theorem vaParts_fst_val (va : Nat) : ((vaParts va).1 : Nat) = va / 2 ^ 30 % 512 := by
  change va >>> 30 &&& 0x1FF = _
  rw [Nat.shiftRight_eq_div_pow]
  exact Nat.and_two_pow_sub_one_eq_mod _ 9

theorem vaParts_snd_val (va : Nat) : ((vaParts va).2.1 : Nat) = va / 2 ^ 21 % 512 := by
  change va >>> 21 &&& 0x1FF = _
  rw [Nat.shiftRight_eq_div_pow]
  exact Nat.and_two_pow_sub_one_eq_mod _ 9

theorem vaParts_trd_val (va : Nat) : ((vaParts va).2.2.1 : Nat) = va / 2 ^ 12 % 512 := by
  change va >>> 12 &&& 0x1FF = _
  rw [Nat.shiftRight_eq_div_pow]
  exact Nat.and_two_pow_sub_one_eq_mod _ 9

theorem vaParts_offset (va : Nat) : (vaParts va).2.2.2 = va % pageSize :=
  Nat.and_two_pow_sub_one_eq_mod _ 12

/-! ### Page tables as a radix store -/

/-- How the walk reads an entry. -/
def entryOf (p : Pte) : Entry Nat Pte :=
  if p.isValid then if p.isLeaf then .leaf p else .branch p.page else .empty

/-- The store of the tables in `m`: a table is a page number. -/
def entry (m : Memory) (table : Nat) (i : Fin ptEntries) : Entry Nat Pte :=
  entryOf ⟨m.read64 (table * pageSize + i * 8)⟩

theorem entryOf_branch {n : Nat} (bound : n < 2 ^ 52) : entryOf (.branch (n * pageSize)) = .branch n := by
  rw [entryOf, Pte.branch_isValid bound, Pte.branch_isLeaf bound, Pte.branch_page bound]
  rfl

theorem entryOf_of_isLeaf {p : Pte} (leaf : p.isLeaf = true) : entryOf p = .leaf p := by
  have valid : p.isValid = true := by
    rw [Pte.isLeaf, Bool.and_eq_true] at leaf
    exact leaf.1
  rw [entryOf, if_pos valid, if_pos leaf]

theorem slot_inside (table : Nat) (i : Fin ptEntries) :
    table * pageSize ≤ table * pageSize + i * 8 ∧ table * pageSize + i * 8 + 8 ≤ table * pageSize + pageSize := by
  have small := i.isLt
  simp only [pageSize, ptEntries] at *
  omega

theorem page_disjoint {s t : Nat} (different : s ≠ t) :
    s * pageSize + pageSize ≤ t * pageSize ∨ t * pageSize + pageSize ≤ s * pageSize := by
  simp only [pageSize]
  omega

theorem entry_congr {m m' : Memory} {table : Nat}
    (same : ∀ x, table * pageSize ≤ x → x < table * pageSize + pageSize → m' x = m x) :
    entry m' table = entry m table := by
  funext i
  have inside := slot_inside table i
  rw [entry, entry, Memory.read64_congr]
  intro x lower upper
  exact same x (Nat.le_trans inside.1 lower) (Nat.lt_of_lt_of_le upper inside.2)

/-- Storing an entry updates the radix store at that table and index only. -/
theorem entry_write64 (m : Memory) (table : Nat) (i : Fin ptEntries) (p : Pte) :
    entry (m.write64 (table * pageSize + i * 8) p.bits) = Radix.set (entry m) table i (entryOf p) := by
  funext t j
  by_cases own : t = table
  · subst own
    by_cases here : j = i
    · subst here
      rw [Radix.set_self, entry, Memory.read64_write64_same]
    · have apart : (j : Nat) ≠ i := fun same => here (Fin.ext same)
      rw [Radix.set_of_index_ne here, entry, Memory.read64_write64_of_disjoint (by omega), entry]
  · have first := slot_inside table i
    have second := slot_inside t j
    have disjoint := page_disjoint own
    rw [Radix.set_of_table_ne own, entry, Memory.read64_write64_of_disjoint, entry]
    simp only [pageSize] at first second disjoint ⊢
    omega

theorem entry_fill (m : Memory) (table : Nat) (i : Fin ptEntries) :
    entry (m.fill (table * pageSize) pageSize 0) table i = .empty := by
  have inside := slot_inside table i
  rw [entry, Memory.read64_zero]
  · rfl
  · intro x lower upper
    exact Memory.fill_apply_inside (by omega)

theorem walkFrom_eq (m : Memory) (offset : Nat) (p : List (Fin ptEntries)) (i : Fin ptEntries) (table : Nat) :
    walkFrom m.read64 offset (p ++ [i]) (table * pageSize) =
      (Radix.lookup (entry m) table p i).map fun pte => ⟨pte.physAddr + offset, pte.flags⟩ := by
  induction p generalizing table with
  | nil =>
    rw [List.nil_append, walkFrom, Radix.lookup, Radix.follow, Option.bind_some, entry, entryOf]
    generalize (⟨m.read64 (table * pageSize + i * 8)⟩ : Pte) = pte
    cases pte.isValid <;> cases pte.isLeaf <;> simp [walkFrom, Entry.leaf?]
  | cons j p ih =>
    rw [List.cons_append, walkFrom, Radix.lookup, Radix.follow, entry, entryOf]
    generalize (⟨m.read64 (table * pageSize + j * 8)⟩ : Pte) = pte
    cases pte.isValid
    · simp [Entry.branch?]
    · cases pte.isLeaf
      · simp only [Bool.not_true, Bool.false_eq_true, if_false, if_true, Entry.branch?, Option.bind_some]
        rw [Pte.physAddr_eq, ih]
        rfl
      · simp [Entry.branch?]

/-- The leaf that maps `va` in the tree of table `root`. -/
def leafAt (m : Memory) (root va : Nat) : Option Pte :=
  Radix.lookup (entry m) root [(vaParts va).1, (vaParts va).2.1] (vaParts va).2.2.1

theorem walk_eq (m : Memory) (root va : Nat) :
    walk (root * pageSize) va m.read64 =
      (leafAt m root va).map fun pte => ⟨pte.physAddr + va % pageSize, pte.flags⟩ := by
  rw [leafAt, ← vaParts_offset]
  exact walkFrom_eq m (vaParts va).2.2.2 [(vaParts va).1, (vaParts va).2.1] (vaParts va).2.2.1 root

end GooseOs
