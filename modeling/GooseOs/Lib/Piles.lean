import GooseOs.Lib.Prog
import Mathlib.Data.List.Forall2

/-!
Stacks kept in arrays. A list, the topmost entry first, says what stands from some slot on; what an entry asks of
its slot may depend on the entries below it.
-/

namespace GooseOs.FixedArray

variable {ε σ α τ : Type} {n : Nat} {a b : FixedArray n α} {i base : Nat} {v : α}

theorem at?_eq_some : a.at? i = some v ↔ ∃ inside : i < n, a ⟨i, inside⟩ = v := by
  unfold at?
  split
  · next inside => simp [inside]
  · next outside => simp [outside]

theorem at?_inside (inside : i < n) : a.at? i = some (a ⟨i, inside⟩) := dif_pos inside

theorem at?_update {j : Fin n} : at? (Function.update a j v) i = if i = j.val then some v else a.at? i := by
  by_cases same : i = j.val
  · subst same
    rw [if_pos rfl, at?_inside j.isLt, Function.update_self]
  · rw [if_neg same]
    unfold at?
    split
    · next inside =>
      have other : (⟨i, inside⟩ : Fin n) ≠ j := fun equal => same (congrArg Fin.val equal)
      rw [Function.update_of_ne other]
    · rfl

theorem load_at? {s t : σ} : (a.load i : Prog ε σ α) s = .ok v t ↔ a.at? i = some v ∧ t = s := by
  rw [load_eq_ok, at?_eq_some]
  constructor
  · rintro ⟨inside, rfl, rfl⟩
    exact ⟨⟨inside, rfl⟩, rfl⟩
  · rintro ⟨⟨inside, rfl⟩, rfl⟩
    exact ⟨inside, rfl, rfl⟩

/-- The slots from `base` on hold the entries, the last one lowest. -/
def Piles (R : τ → List τ → α → Prop) (a : FixedArray n α) (base : Nat) : List τ → Prop
  | [] => True
  | x :: rest => (∃ v, a.at? (base + rest.length) = some v ∧ R x rest v) ∧ Piles R a base rest

namespace Piles

variable {R S : τ → List τ → α → Prop} {x : τ} {xs ys : List τ}

theorem congr (piles : Piles R a base xs) (same : ∀ i, i < base + xs.length → b.at? i = a.at? i) : Piles R b base xs := by
  induction xs with
  | nil => trivial
  | cons x rest ih =>
    obtain ⟨⟨v, there, fits⟩, others⟩ := piles
    rw [List.length_cons] at same
    refine ⟨⟨v, ?_, fits⟩, ih others fun i below => same i (by omega)⟩
    rw [same _ (by omega), there]

theorem outer (piles : Piles R a base (xs ++ ys)) : Piles R a base ys := by
  induction xs with
  | nil => exact piles
  | cons x rest ih => exact ih piles.2

/-- A new topmost entry. -/
theorem push {place : Fin n} (piles : Piles R a base xs) (at_ : place.val = base + xs.length) (fits : R x xs v) :
    Piles R (Function.update a place v) base (x :: xs) := by
  refine ⟨⟨v, by rw [at?_update, if_pos at_.symm], fits⟩, piles.congr fun i below => ?_⟩
  rw [at?_update, if_neg (by omega)]

/-- The topmost entry asks for something else. -/
theorem replace {y : τ} (piles : Piles R a base (x :: xs)) (weaker : ∀ v, R x xs v → R y xs v) : Piles R a base (y :: xs) := by
  obtain ⟨⟨v, there, fits⟩, others⟩ := piles
  exact ⟨⟨v, there, weaker v fits⟩, others⟩

/-- The slot of the entry with `ys` below it. -/
theorem entry (piles : Piles R a base (xs ++ x :: ys)) : ∃ v, a.at? (base + ys.length) = some v ∧ R x ys v := piles.outer.1

end Piles

/-- A stack whose entries ask nothing of each other. -/
abbrev Carries (R : τ → α → Prop) : FixedArray n α → Nat → List τ → Prop := Piles fun x _ v => R x v

namespace Carries

variable {R : τ → α → Prop} {xs ys : List τ} {x : τ}

theorem append : Carries R a base (xs ++ ys) ↔ Carries R a (base + ys.length) xs ∧ Carries R a base ys := by
  induction xs with
  | nil => exact ⟨fun piles => ⟨trivial, piles⟩, fun both => both.2⟩
  | cons x rest ih =>
    show _ ∧ _ ↔ (_ ∧ _) ∧ _
    rw [and_assoc, List.append_eq, List.length_append, Nat.add_comm rest.length, ← Nat.add_assoc]
    exact and_congr_right fun _ => ih

/-- Entries that ask for less. -/
theorem mono {ω : Type} {S : ω → α → Prop} {zs : List ω} (carries : Carries R a base xs)
    (weaker : List.Forall₂ (fun x z => ∀ v, R x v → S z v) xs zs) : Carries S a base zs := by
  induction weaker with
  | nil => trivial
  | cons first rest ih =>
    obtain ⟨⟨v, there, fits⟩, others⟩ := carries
    rw [rest.length_eq] at there
    exact ⟨⟨v, there, first v fits⟩, ih others⟩

/-- Entries pushed one after another, the first of them lowest. -/
theorem pushed {k : Nat} (carries : Carries R a base (xs.reverse ++ ys)) (known : xs[k]? = some x) :
    ∃ v, a.at? (base + ys.length + k) = some v ∧ R x v := by
  obtain ⟨inside, rfl⟩ := List.getElem?_eq_some_iff.mp known
  have split : xs.reverse ++ ys = (xs.drop (k + 1)).reverse ++ xs[k] :: ((xs.take k).reverse ++ ys) := by
    have halves : xs = xs.take k ++ xs[k] :: xs.drop (k + 1) := by
      rw [← List.drop_eq_getElem_cons inside, List.take_append_drop]
    calc xs.reverse ++ ys = (xs.take k ++ xs[k] :: xs.drop (k + 1)).reverse ++ ys := by rw [← halves]
      _ = _ := by rw [List.reverse_append, List.reverse_cons, List.append_assoc, List.append_assoc, List.singleton_append]
  rw [split] at carries
  obtain ⟨v, there, fits⟩ := Piles.entry carries
  refine ⟨v, ?_, fits⟩
  rw [List.length_append, List.length_reverse, List.length_take_of_le (Nat.le_of_lt inside)] at there
  rw [← there, Nat.add_assoc, Nat.add_comm k]

end Carries

/-! ### Stacks with a depth -/

/-- Below `depth` the slots hold the list, its head on top. -/
structure Stacked (a : FixedArray n α) (depth : Nat) (xs : List α) : Prop where
  depth : depth = xs.length
  entries : Carries (fun x v => v = x) a 0 xs

namespace Stacked

variable {x : α} {xs ys : List α} {depth k : Nat}

theorem nil : Stacked a 0 [] := ⟨rfl, trivial⟩

theorem drop (stacked : Stacked a depth (xs ++ ys)) : Stacked a ys.length ys := ⟨rfl, stacked.entries.outer⟩

theorem pop (stacked : Stacked a depth (x :: xs)) : Stacked a (depth - 1) xs where
  depth := by rw [stacked.depth, List.length_cons, Nat.add_sub_cancel]
  entries := stacked.entries.2

theorem push (stacked : Stacked a depth xs) (inside : depth < n) :
    Stacked (Function.update a ⟨depth, inside⟩ x) (depth + 1) (x :: xs) where
  depth := by rw [stacked.depth, List.length_cons]
  entries := Piles.push stacked.entries (stacked.depth.trans (Nat.zero_add _).symm) rfl

/-- The entry `k` below the top. -/
theorem get (stacked : Stacked a depth xs) (there : xs[k]? = some x) : k < depth ∧ a.at? (depth - 1 - k) = some x := by
  obtain ⟨inside, rfl⟩ := List.getElem?_eq_some_iff.mp there
  have entries := stacked.entries
  rw [← List.take_append_drop k xs, List.drop_eq_getElem_cons inside] at entries
  obtain ⟨v, found, rfl⟩ := Piles.entry entries
  rw [stacked.depth]
  refine ⟨inside, ?_⟩
  rw [List.length_drop] at found
  rw [← found]
  congr 1
  omega

theorem top (stacked : Stacked a depth (x :: xs)) : 0 < depth ∧ a.at? (depth - 1) = some x :=
  stacked.get (show (x :: xs)[0]? = some x from List.getElem?_cons_zero)

theorem room (stacked : Stacked a depth xs) : depth ≤ n := by
  cases xs with
  | nil =>
    rw [stacked.depth]
    exact Nat.zero_le n
  | cons x xs =>
    obtain ⟨some_, there⟩ := stacked.top
    obtain ⟨inside, -⟩ := at?_eq_some.mp there
    omega

end Stacked

/-! ### Lists from the front -/

/-- The array starts with the list. -/
def Leads (a : FixedArray n α) (xs : List α) : Prop := ∀ i v, xs[i]? = some v → a.at? i = some v

theorem Stacked.leads {xs : List α} {depth : Nat} (stacked : Stacked a depth xs) : Leads a xs.reverse := by
  intro i v there
  have inside : i < xs.length := by
    have bound := (List.getElem?_eq_some_iff.mp there).1
    rwa [List.length_reverse] at bound
  rw [List.getElem?_reverse inside] at there
  rw [← (stacked.get there).2, stacked.depth]
  congr 1
  omega

namespace Leads

variable {xs ys : List α}

theorem front (leads : Leads a (xs ++ ys)) : Leads a xs := fun i v there =>
  leads i v (by rw [List.getElem?_append_left (List.getElem?_eq_some_iff.mp there).1, there])

theorem room (leads : Leads a xs) : xs.length ≤ n := by
  rcases Nat.eq_zero_or_pos xs.length with none_ | some_
  · omega
  · obtain ⟨inside, -⟩ := at?_eq_some.mp (leads _ _ (List.getElem?_eq_getElem (Nat.sub_one_lt_of_lt some_)))
    omega

theorem set (leads : Leads a xs) {place : Fin n} : Leads (Function.update a place v) (xs.set place v) := by
  intro i w there
  rw [at?_update]
  rw [List.getElem?_set] at there
  split
  · next same =>
    rw [if_pos same.symm] at there
    split at there
    · exact there
    · cases there
  · next other =>
    rw [if_neg (Ne.symm other)] at there
    exact leads i w there

end Leads

end GooseOs.FixedArray
