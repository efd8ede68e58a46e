import GooseOs.Kernel.Virtio
import Mathlib.Data.List.Perm.Subperm
import Mathlib.Data.List.Nodup

/-!
A virtqueue and its device together: where each descriptor is. Whatever order the device returns them in, a
descriptor is in one place only.
-/

namespace GooseOs.Virtio
open RingBuffer

variable {q : Virtq} {d : Device}

/-- Offered in the available ring and not yet taken. -/
def offered (q : Virtq) (d : Device) : List Nat := (window queueSize q.availRing d.next q.availIdx).map BitVec.toNat

/-- Held by the device. -/
def Device.descriptors (d : Device) : List Nat := d.held.map BitVec.toNat

/-- In the unprocessed part of the used ring. -/
def Virtq.returned (q : Virtq) : List Nat := (window queueSize q.usedRing q.lastUsed q.usedIdx).map fun elem => elem.id.toNat

/-- Every descriptor on its way, once for each place it is in. -/
def inflight (q : Virtq) (d : Device) : List Nat := offered q d ++ d.descriptors ++ q.returned

/-- The descriptors with `out`, each in one place: in the driver's hands, or on its way. -/
structure Conserved (out : Nat → Prop) (claimed : List Nat) (q : Virtq) (d : Device) : Prop where
  once : (claimed ++ inflight q d).Nodup
  exact : ∀ i, i ∈ claimed ++ inflight q d ↔ out i

namespace Conserved
variable {out : Nat → Prop} {claimed : List Nat} {q' : Virtq} {d' : Device}

theorem perm {claimed' : List Nat} (conserved : Conserved out claimed q d)
    (moved : List.Perm (claimed' ++ inflight q' d') (claimed ++ inflight q d)) : Conserved out claimed' q' d' where
  once := moved.nodup_iff.mpr conserved.once
  exact i := (moved.mem_iff).trans (conserved.exact i)

/-- At most as many descriptors are on their way as there are. -/
theorem length_le {n : Nat} (conserved : Conserved out claimed q d) (bound : ∀ i, out i → i < n) :
    claimed.length + (inflight q d).length ≤ n := by
  have inside : claimed ++ inflight q d ⊆ List.range n := fun i member =>
    List.mem_range.mpr (bound i ((conserved.exact i).mp member))
  have short := (conserved.once.subperm inside).length_le
  rwa [List.length_append, List.length_range] at short

theorem offered_room {n : Nat} (conserved : Conserved out claimed q d) (bound : ∀ i, out i → i < n) :
    claimed.length + (q.availIdx - d.next).toNat ≤ n := by
  have total := conserved.length_le bound
  simp only [inflight, offered, List.length_append, List.length_map, length_window] at total
  omega

theorem returned_room {n : Nat} (conserved : Conserved out claimed q d) (bound : ∀ i, out i → i < n) :
    d.descriptors.length + (q.usedIdx - q.lastUsed).toNat ≤ n := by
  have total := conserved.length_le bound
  simp only [inflight, Virtq.returned, List.length_append, List.length_map, length_window] at total
  omega

end Conserved

/-! ### The device's steps -/

theorem take_perm (pending : d.next ≠ q.availIdx) : List.Perm (inflight q (d.take q)) (inflight q d) := by
  have first : offered q d = (q.availRing (cell queueSize d.next)).toNat :: offered q (d.take q) := by
    unfold offered
    rw [window_cons pending, List.map_cons]
    rfl
  have last : (d.take q).descriptors = d.descriptors ++ [(q.availRing (cell queueSize d.next)).toNat] := by
    simp [Device.take, Device.descriptors]
  unfold inflight
  rw [first, last]
  refine List.Perm.append_right _ ?_
  rw [← List.append_assoc]
  exact List.perm_append_singleton _ _

@[simp] theorem give_offered {i : BitVec 16} {len : BitVec 32} : offered (q.give i len) (d.drop i) = offered q d := rfl

theorem give_returned {i : BitVec 16} {len : BitVec 32} (room : (q.usedIdx - q.lastUsed).toNat < queueSize) :
    (q.give i len).returned = q.returned ++ [i.toNat] := by
  have wide : (i.setWidth 32).toNat = i.toNat := by
    rw [BitVec.toNat_setWidth, Nat.mod_eq_of_lt (by omega)]
  unfold Virtq.returned Virtq.give
  dsimp only
  rw [window_snoc (by simp only [queueSize] at room; omega), window_update (by decide) room, Function.update_self,
    List.map_append, List.map_singleton, wide]

theorem give_perm {i : BitVec 16} {len : BitVec 32} (held : i ∈ d.held)
    (room : (q.usedIdx - q.lastUsed).toNat < queueSize) :
    List.Perm (inflight (q.give i len) (d.drop i)) (inflight q d) := by
  have dropped : List.Perm (i.toNat :: (d.drop i).descriptors) d.descriptors :=
    (List.perm_cons_erase held).symm.map BitVec.toNat
  unfold inflight
  rw [give_offered, give_returned room, List.append_assoc, List.append_assoc]
  refine List.Perm.append_left _ ?_
  refine List.Perm.trans ?_ (dropped.append_right q.returned)
  rw [← List.append_assoc]
  exact List.perm_append_singleton _ _

theorem Conserved.take {out : Nat → Prop} {claimed : List Nat} (conserved : Conserved out claimed q d)
    (pending : d.next ≠ q.availIdx) : Conserved out claimed q (d.take q) :=
  conserved.perm ((take_perm pending).append_left claimed)

theorem Conserved.give {out : Nat → Prop} {claimed : List Nat} {n : Nat} {i : BitVec 16} {len : BitVec 32}
    (conserved : Conserved out claimed q d) (bound : ∀ i, out i → i < n) (small : n ≤ 32) (held : i ∈ d.held) :
    Conserved out claimed (q.give i len) (d.drop i) := by
  have room := conserved.returned_room bound
  refine conserved.perm ((give_perm held ?_).append_left claimed)
  simp only [queueSize]
  omega

/-! ### The driver's steps -/

/-- The driver processes the oldest used element. -/
def Virtq.processed (q : Virtq) : Virtq := { q with lastUsed := q.lastUsed + 1 }

theorem returned_cons (pending : q.lastUsed ≠ q.usedIdx) :
    q.returned = (q.usedRing (cell queueSize q.lastUsed)).id.toNat :: q.processed.returned := by
  unfold Virtq.returned
  rw [window_cons pending, List.map_cons]
  rfl

theorem processed_perm (pending : q.lastUsed ≠ q.usedIdx) :
    List.Perm ((q.usedRing (cell queueSize q.lastUsed)).id.toNat :: inflight q.processed d) (inflight q d) := by
  unfold inflight
  rw [returned_cons pending]
  exact List.perm_middle.symm

/-- The available ring after the next cell is written: nothing is offered yet. -/
theorem offered_update {i : BitVec 16} {desc : Nat → VirtqDesc} (room : (q.availIdx - d.next).toNat < queueSize) :
    offered { q with desc := desc, availRing := Function.update q.availRing (cell queueSize q.availIdx) i } d =
      offered q d := by
  unfold offered
  dsimp only
  rw [window_update (by decide) room]

/-- Publishing the index offers the descriptor in the next cell. -/
theorem offered_publish (room : (q.availIdx - d.next).toNat < queueSize) :
    offered { q with availIdx := q.availIdx + 1 } d =
      offered q d ++ [(q.availRing (cell queueSize q.availIdx)).toNat] := by
  unfold offered
  dsimp only
  rw [window_snoc (by simp only [queueSize] at room; omega), List.map_append, List.map_singleton]

end GooseOs.Virtio
