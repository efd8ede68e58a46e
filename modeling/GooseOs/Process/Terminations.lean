import GooseOs.Process.Endings
import GooseOs.Machine.Reference

/-!
Voluntary and forced termination. `sys_exit` and `kill_current` clean up alike and differ once
nobody is left: only `kill_current` gives CURRENT_PID back to the kernel.
-/

namespace GooseOs
open Sched Lifecycle Trap

section Law
variable [Platform]

/-- No terminated process is the current one; PID 0 is the kernel itself. -/
def Occupied (c : Core) : Prop := c.currentPid = 0 ∨ (c.procs c.currentPid).state ≠ .free

structure SameEnding (c d : Core) : Prop where
  procs : c.procs = d.procs
  irqOwner : c.irqOwner = d.irqOwner
  currentPid : c.currentPid = d.currentPid
  satp : c.satp = d.satp
  frame : c.frame = d.frame

/-- SYS_EXIT with `code` in `a0` and a kill with the same code leave the same state behind. -/
structure EndingsAgree (c : Core) (code : Word) : Prop where
  same : ∃ d, killCurrent (c.setA0 code) code = .ok d ∧ SameEnding (sysExit (c.setA0 code)) d ∧ Occupied d
  occupied : Occupied (sysExit (c.setA0 code))

variable {c : Core} {code : Word} {q : Nat}

omit [Platform] in
/-- The cleanup frees one slot and keeps the others in use. -/
theorem reap_live (other : q ≠ c.currentPid) :
    ((reap c c.currentPid code).procs q).state ≠ .free ↔ (c.procs q).state ≠ .free := by
  have kept : ∀ i, i ≠ c.currentPid → (clearSlot c c.currentPid code).procs i = c.procs i := fun i apart => by
    simp [clearSlot, Function.update_of_ne apart]
  unfold reap wakeParent
  split
  · rw [kept q other]
  · rename_i i found
    have waiting := List.find?_some found
    rw [Bool.and_eq_true, beq_iff_eq, beq_iff_eq] at waiting
    by_cases woken : q = i
    · subst woken
      rw [kept q other] at waiting
      simp [waiting.1]
    · simp [Function.update_of_ne woken, kept q other]

omit [Platform] in
theorem anyAlive_iff : anyAlive c.procs = true ↔ ∃ q, 1 ≤ q ∧ q < maxProcs ∧ (c.procs q).state ≠ .free := by
  simp only [anyAlive, List.any_eq_true, bne_iff_ne, mem_pids, and_assoc]

omit [Platform] in
/-- Somebody is left after the cleanup exactly if the caller was not alone. -/
theorem anyAlive_reap (cons : Consistent c) :
    anyAlive (reap c c.currentPid code).procs = true ↔ ∃ q, q ≠ c.currentPid ∧ (c.procs q).state ≠ .free := by
  have own : ((reap c c.currentPid code).procs c.currentPid).state = .free := by rw [reap_own]; rfl
  rw [anyAlive_iff]
  constructor
  · rintro ⟨q, -, -, live⟩
    have other : q ≠ c.currentPid := by
      rintro rfl
      exact live own
    exact ⟨q, other, (reap_live other).mp live⟩
  · rintro ⟨q, other, live⟩
    have range := cons.range q live
    exact ⟨q, range.1, range.2, (reap_live other).mpr live⟩

omit [Platform] in
theorem firstReady_of_dead (dead : anyAlive c.procs = false) : firstReady c.procs = none := by
  cases found : firstReady c.procs with
  | none => rfl
  | some next =>
    obtain ⟨ready, low, high⟩ := firstReady_some found
    have alive : anyAlive c.procs = true := anyAlive_iff.mpr ⟨next, low, high, by rw [ready]; nofun⟩
    rw [dead] at alive
    cases alive

omit [Platform] in
theorem load_occupied (next : Nat) : Occupied (load c next) := by
  refine .inr ?_
  simp [load]

/-- While somebody is left, the two handlers do the same. -/
theorem sameEnding_of_alive (used : c.currentPid ≠ 0) (alive : anyAlive (reap c c.currentPid code).procs = true)
    (argument : c.frame.a0 = code) : killCurrent c code = .ok (sysExit c) ∧ Occupied (sysExit c) := by
  unfold killCurrent sysExit
  dsimp only
  rw [if_neg used, argument]
  cases firstReady (reap c c.currentPid code).procs with
  | some next => exact ⟨rfl, load_occupied next⟩
  | none =>
    dsimp only
    rw [if_pos alive, if_pos alive]
    exact ⟨rfl, .inl rfl⟩

/-- When the last process exits, its PID stays the current one. -/
theorem sysExit_last (dead : anyAlive (reap c c.currentPid c.frame.a0).procs = false) :
    (sysExit c).currentPid = c.currentPid ∧ ((sysExit c).procs c.currentPid).state = .free := by
  have none := firstReady_of_dead dead
  have freed : ((reap c c.currentPid c.frame.a0).procs c.currentPid).state = .free := by rw [reap_own]; rfl
  have kept : (reap c c.currentPid c.frame.a0).currentPid = c.currentPid := by
    unfold reap wakeParent
    split <;> rfl
  unfold sysExit
  dsimp only
  rw [none]
  dsimp only
  rw [if_neg (by rw [dead]; nofun)]
  exact ⟨kept, freed⟩

/-- The two terminations agree exactly while another process is left. -/
theorem endingsAgree_iff (r : MachineRun) {n : Nat} (bound : n ≤ r.len) (user : (r.state n).inUser) (code : Word) :
    EndingsAgree (r.state n).toCore code ↔
      ∃ q, q ≠ (r.state n).currentPid ∧ ((r.state n).procs q).state ≠ .free := by
  have cons := r.consistent bound
  have used : (r.state n).currentPid ≠ 0 := (cons.running user).2
  have left : anyAlive (reap ((r.state n).toCore.setA0 code) (r.state n).currentPid code).procs = true ↔
      ∃ q, q ≠ (r.state n).currentPid ∧ ((r.state n).procs q).state ≠ .free := by
    have same : (reap ((r.state n).toCore.setA0 code) (r.state n).currentPid code).procs =
        (reap (r.state n).toCore (r.state n).currentPid code).procs := by
      simp only [reap, wakeParent, clearSlot, findWaiter, Core.modify, Core.setA0]
      split <;> rfl
    rw [same]
    exact anyAlive_reap cons
  rw [← left]
  constructor
  · intro agree
    by_contra alone
    rw [Bool.not_eq_true] at alone
    obtain ⟨pid, free⟩ := sysExit_last (c := (r.state n).toCore.setA0 code) alone
    rcases agree.occupied with kernel | live
    · exact used (pid.symm.trans kernel)
    · rw [pid] at live
      exact live free
  · intro alive
    obtain ⟨killed, occupied⟩ := sameEnding_of_alive (c := (r.state n).toCore.setA0 code) used alive rfl
    exact ⟨⟨_, killed, ⟨rfl, rfl, rfl, rfl, rfl⟩, occupied⟩, occupied⟩

end Law

section Reference
open Reference
attribute [local instance] Reference.platform

/-- PID 1 exits, and PID 2 is the last process. -/
noncomputable def lastRun : MachineRun := script [.user (calling sysExitNo 0 0), .ecall]

/-- PID 1 still has PID 2 behind it. -/
theorem endingsAgree_first : EndingsAgree (lastRun.state 1).toCore 7 :=
  (endingsAgree_iff lastRun (n := 1) (by decide) rfl 7).mpr ⟨2, by decide, by decide⟩

/-- When PID 2 exits, it stays the current process. -/
theorem endingsAgree_fails : (lastRun.state 2).inUser ∧ ¬ EndingsAgree (lastRun.state 2).toCore 7 := by
  refine ⟨rfl, fun agree => ?_⟩
  rcases agree.occupied with kernel | live
  · exact absurd kernel (by decide)
  · exact live (by decide)

end Reference
end GooseOs
