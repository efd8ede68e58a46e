import Mathlib.Data.Nat.Notation

/-!
`security.rs`: the named argument checks of the system-call handlers and the table sizes.
-/

namespace GooseOs

/-- A machine word: `usize` and `u64` on rv64. -/
abbrev Word := BitVec 64

/-- `usize::MAX`, the error value of every system call (`abi::ERR`). -/
def usizeMax : Word := BitVec.allOnes 64

abbrev pageSize : Nat := 4096

abbrev maxProcs : Nat := 8

abbrev maxIrqs : Nat := 64

abbrev userVaStart : Nat := 0x5000_0000

abbrev userVaEnd : Nat := 0x8000_0000

namespace Security

def isPageAligned (addr : Nat) : Bool := addr % pageSize == 0

def isUserVa (va : Nat) : Bool := decide (va ≥ userVaStart) && decide (va < userVaEnd)

def isValidIpcTarget (target current : Nat) : Bool :=
  decide (target > 0) && decide (target < maxProcs) && target != current

def isValidMapFlags (flags : Nat) : Bool := decide (flags ≤ 1)

def isValidIrq (irq : Nat) : Bool := decide (irq < maxIrqs)

def isValidAllocCount (count : Nat) : Bool := count == 1

def isValidElfSize (len : Nat) : Bool := decide (len > 0) && decide (len ≤ 1024 * 1024)

theorem isValidIpcTarget_iff {target current : Nat} :
    isValidIpcTarget target current = true ↔ 0 < target ∧ target < maxProcs ∧ target ≠ current := by
  simp [isValidIpcTarget, and_assoc]

theorem isUserVa_iff {va : Nat} : isUserVa va = true ↔ userVaStart ≤ va ∧ va < userVaEnd := by
  simp [isUserVa]

theorem isPageAligned_iff {addr : Nat} : isPageAligned addr = true ↔ addr % pageSize = 0 := by
  simp [isPageAligned]

end Security
end GooseOs
