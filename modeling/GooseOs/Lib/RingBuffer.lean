import Mathlib.Data.List.Basic
import Mathlib.Data.Nat.ModEq
import Mathlib.Logic.Function.Basic
import Mathlib.Tactic.Ring

/-!
Ring buffers with free-running counters: the entries between two counters, read as a queue. The counters
wrap at their own width, the positions at the size of the ring.
-/

namespace GooseOs.RingBuffer
variable {α β : Type*} {w : Nat}

/-- The cell of a counter. -/
def cell (size : Nat) (counter : BitVec w) : Nat := counter.toNat % size

/-- The entries from counter `lo` up to counter `hi`, oldest first. -/
def window (size : Nat) (ring : Nat → α) (lo hi : BitVec w) : List α :=
  (List.range (hi - lo).toNat).map fun i => ring (cell size (lo + BitVec.ofNat w i))

variable {size : Nat} {ring : Nat → α} {lo hi : BitVec w}

@[simp] theorem length_window : (window size ring lo hi).length = (hi - lo).toNat := by simp [window]

@[simp] theorem window_self : window size ring lo lo = [] := by simp [window]

theorem window_congr {ring' : Nat → α}
    (same : ∀ i, i < (hi - lo).toNat → ring' (cell size (lo + BitVec.ofNat w i)) = ring (cell size (lo + BitVec.ofNat w i))) :
    window size ring' lo hi = window size ring lo hi :=
  List.map_congr_left fun i member => same i (List.mem_range.mp member)

theorem add_distance : lo + BitVec.ofNat w (hi - lo).toNat = hi := by
  rw [BitVec.ofNat_toNat, BitVec.setWidth_eq, BitVec.add_comm, BitVec.sub_add_cancel]

theorem one_toNat (wide : 1 < 2 ^ w) : (1 : BitVec w).toNat = 1 := by
  have exact := BitVec.toNat_ofNat 1 w
  rwa [Nat.mod_eq_of_lt wide] at exact

theorem distance_succ (room : (hi - lo).toNat + 1 < 2 ^ w) : (hi + 1 - lo).toNat = (hi - lo).toNat + 1 := by
  have shift : hi + 1 - lo = (hi - lo) + 1 := by
    rw [BitVec.sub_eq_add_neg, BitVec.sub_eq_add_neg, BitVec.add_assoc, BitVec.add_comm 1, ← BitVec.add_assoc]
  rw [shift, BitVec.toNat_add, one_toNat (by omega), Nat.mod_eq_of_lt room]

theorem distance_pred {d : BitVec w} (positive : d.toNat ≠ 0) : (d - 1).toNat = d.toNat - 1 := by
  have bound := d.isLt
  rw [BitVec.toNat_sub, one_toNat (by omega), show 2 ^ w - 1 + d.toNat = d.toNat - 1 + 2 ^ w by omega, Nat.add_mod_right,
    Nat.mod_eq_of_lt (by omega)]

theorem distance_next (pending : lo ≠ hi) : (hi - lo).toNat = (hi - (lo + 1)).toNat + 1 := by
  have positive : (hi - lo).toNat ≠ 0 := by
    intro zero
    have same := @add_distance w lo hi
    rw [zero, BitVec.add_zero] at same
    exact pending same
  have shift : hi - (lo + 1) = hi - lo - 1 := by
    rw [BitVec.sub_eq_add_neg, BitVec.neg_add, BitVec.sub_eq_add_neg, BitVec.sub_eq_add_neg, BitVec.sub_eq_add_neg,
      BitVec.add_assoc]
  rw [shift, distance_pred positive]
  omega

theorem window_snoc (room : (hi - lo).toNat + 1 < 2 ^ w) :
    window size ring lo (hi + 1) = window size ring lo hi ++ [ring (cell size hi)] := by
  rw [window, distance_succ room, List.range_succ, List.map_append, List.map_singleton, add_distance]
  rfl

theorem window_cons (pending : lo ≠ hi) :
    window size ring lo hi = ring (cell size lo) :: window size ring (lo + 1) hi := by
  rw [window, distance_next pending, List.range_succ_eq_map, List.map_cons, List.map_map, window]
  congr 1
  · rw [BitVec.add_zero]
  · refine List.map_congr_left fun i _ => ?_
    have next : lo + BitVec.ofNat w (i + 1) = lo + 1 + BitVec.ofNat w i := by
      rw [BitVec.ofNat_add, BitVec.add_assoc, BitVec.add_comm (BitVec.ofNat w i)]
      rfl
    simp only [Function.comp_apply, Nat.succ_eq_add_one, next]

theorem window_update (divides : size ∣ 2 ^ w) (room : (hi - lo).toNat < size) (x : α) :
    window size (Function.update ring (cell size hi) x) lo hi = window size ring lo hi := by
  refine window_congr fun i bound => Function.update_of_ne ?_ x ring
  intro same
  have reduce : ∀ j, cell size (lo + BitVec.ofNat w j) = (lo.toNat + j) % size := by
    intro j
    rw [cell, BitVec.toNat_add, BitVec.toNat_ofNat, Nat.mod_mod_of_dvd _ divides, Nat.add_mod,
      Nat.mod_mod_of_dvd _ divides, ← Nat.add_mod]
  rw [reduce i, ← @add_distance w lo hi, reduce] at same
  have apart : size ∣ (hi - lo).toNat - i := by
    have wrapped := (Nat.modEq_iff_dvd' (by omega : lo.toNat + i ≤ lo.toNat + (hi - lo).toNat)).mp same
    rwa [Nat.add_sub_add_left] at wrapped
  have large := Nat.le_of_dvd (by omega) apart
  omega

end GooseOs.RingBuffer
