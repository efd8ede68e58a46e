import GooseOs.Lib.Prog
import Mathlib.Data.List.Induction

/-!
Stretches of an array written over each other: a cell holds what was written to it last.
-/

namespace GooseOs

/-- Entries written from `start` on. -/
structure Patch (α : Type) where
  start : Nat
  content : List α

variable {ε σ α : Type} {n : Nat}

namespace Patch

def stop (p : Patch α) : Nat := p.start + p.content.length

/-- What is written to a cell. -/
def at? (p : Patch α) (x : Nat) : Option α := if p.start ≤ x then p.content[x - p.start]? else none

/-- What the last of the patches that reach a cell writes to it. -/
def lastAt? (ps : List (Patch α)) (x : Nat) : Option α := ps.reverse.findSome? fun p => p.at? x

variable {p : Patch α} {ps : List (Patch α)} {x : Nat}

@[simp] theorem at?_inside {j : Nat} : p.at? (p.start + j) = p.content[j]? := by
  simp [at?]

theorem at?_outside (outside : x < p.start ∨ p.stop ≤ x) : p.at? x = none := by
  unfold at? stop at *
  split
  · exact List.getElem?_eq_none (by omega)
  · rfl

@[simp] theorem lastAt?_nil : lastAt? ([] : List (Patch α)) x = none := rfl

@[simp] theorem lastAt?_concat : lastAt? (ps ++ [p]) x = (p.at? x).or (lastAt? ps x) := by
  simp [lastAt?, List.findSome?_cons]
  cases p.at? x <;> rfl

end Patch

namespace FixedArray

def patch (a : FixedArray n α) (p : Patch α) : FixedArray n α := fun x => (p.at? x).getD (a x)

def patchAll (a : FixedArray n α) (ps : List (Patch α)) : FixedArray n α := ps.foldl patch a

variable {a : FixedArray n α} {p : Patch α} {ps : List (Patch α)}

theorem patchAll_apply (x : Fin n) : a.patchAll ps x = (Patch.lastAt? ps x).getD (a x) := by
  induction ps using List.reverseRecOn with
  | nil => rfl
  | append_singleton ps p ih =>
    rw [Patch.lastAt?_concat, patchAll, List.foldl_append, List.foldl_cons, List.foldl_nil, patch]
    cases p.at? x with
    | none => exact ih
    | some v => rfl

theorem patch_inside {x : Nat} {v : α} (inside : x < n) (written : p.at? x = some v) : a.patch p ⟨x, inside⟩ = v := by
  simp [patch, written]

theorem patch_outside {x : Fin n} (outside : x.val < p.start ∨ p.stop ≤ x) : a.patch p x = a x := by
  simp [patch, Patch.at?_outside outside]

theorem patch_update {start : Nat} {v : α} {vs : List α} (inside : start < n) :
    patch (Function.update a ⟨start, inside⟩ v) ⟨start + 1, vs⟩ = a.patch ⟨start, v :: vs⟩ := by
  funext ⟨x, bound⟩
  rcases Nat.lt_trichotomy x start with before | here | behind
  · rw [patch_outside (.inl (Nat.lt_succ_of_lt before)), patch_outside (.inl before),
      Function.update_of_ne (by simpa using Nat.ne_of_lt before)]
  · subst here
    rw [patch_outside (.inl (Nat.lt_succ_self x)), Function.update_self]
    exact (patch_inside bound (by simp [Patch.at?])).symm
  · have far : x - start = x - (start + 1) + 1 := by omega
    simp only [patch, Patch.at?, if_pos (show start + 1 ≤ x from behind), if_pos (Nat.le_of_lt behind), far,
      List.getElem?_cons_succ]
    rw [Function.update_of_ne (by simpa using Nat.ne_of_gt behind)]

@[simp] theorem patch_nil {start : Nat} : a.patch ⟨start, []⟩ = a := by
  funext x
  simp [patch, Patch.at?]

end FixedArray

end GooseOs
