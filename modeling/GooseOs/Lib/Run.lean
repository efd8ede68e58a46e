import Mathlib.Data.Nat.Count

/-!
Finite runs of a labelled transition system. A run is indexed, so that statements about the
past of a state (what was sent, received, allocated) quantify over earlier indices.
-/

namespace GooseOs

variable {State Label : Type*} {initial : State → Prop} {step : State → Label → State → Prop}

/-- A run of `len` steps from an initial state; entries past `len` carry no meaning. -/
structure Run (initial : State → Prop) (step : State → Label → State → Prop) where
  len : Nat
  state : Nat → State
  label : Nat → Label
  start : initial (state 0)
  steps : ∀ n, n < len → step (state n) (label n) (state (n + 1))

namespace Run

/-- What holds initially and survives every step of the run holds throughout it. -/
theorem invariant_of_steps (r : Run initial step) {P : State → Prop}
    (base : ∀ s, initial s → P s)
    (preserved : ∀ n, n < r.len → P (r.state n) → P (r.state (n + 1))) :
    ∀ n, n ≤ r.len → P (r.state n) := by
  intro n
  induction n with
  | zero => exact fun _ => base _ r.start
  | succ n ih => exact fun bound => preserved n (by omega) (ih (by omega))

/-- The invariant rule: initial states satisfy `P` and every step preserves it. -/
theorem invariant (r : Run initial step) {P : State → Prop} (base : ∀ s, initial s → P s)
    (preserved : ∀ s l s', P s → step s l s' → P s') : ∀ n, n ≤ r.len → P (r.state n) :=
  r.invariant_of_steps base fun n bound before => preserved _ _ _ before (r.steps n bound)

/-- A list of steps from `s`, each with the state it leads to. -/
def Linked (step : State → Label → State → Prop) : State → List (Label × State) → Prop
  | _, [] => True
  | s, (l, s') :: rest => step s l s' ∧ Linked step s' rest

/-- The state after `n` steps of a list from `s`. -/
def stateAt (s : State) : List (Label × State) → Nat → State
  | _, 0 => s
  | [], _ => s
  | (_, s') :: rest, n + 1 => stateAt s' rest n

def labelAt [Inhabited Label] : List (Label × State) → Nat → Label
  | [], _ => default
  | (l, _) :: _, 0 => l
  | _ :: rest, n + 1 => labelAt rest n

theorem Linked.step_at [Inhabited Label] {s : State} {trace : List (Label × State)} (linked : Linked step s trace)
    {n : Nat} (bound : n < trace.length) : step (stateAt s trace n) (labelAt trace n) (stateAt s trace (n + 1)) := by
  induction trace generalizing s n with
  | nil => cases bound
  | cons first rest ih =>
    obtain ⟨here, later⟩ := linked
    cases n with
    | zero => cases rest <;> exact here
    | succ n => exact ih later (Nat.lt_of_succ_lt_succ bound)

theorem Linked.append {s : State} {first second : List (Label × State)} (here : Linked step s first)
    (later : Linked step (stateAt s first first.length) second) : Linked step s (first ++ second) := by
  induction first generalizing s with
  | nil => cases second <;> exact later
  | cons one rest ih => exact ⟨here.1, ih here.2 later⟩

/-- The run that takes the steps of a list. -/
def ofTrace [Inhabited Label] (s : State) (start : initial s) (trace : List (Label × State))
    (linked : Linked step s trace) : Run initial step where
  len := trace.length
  state := stateAt s trace
  label := labelAt trace
  start := by cases trace <;> exact start
  steps _ bound := linked.step_at bound

end Run

/-- A property that fails at `m` and holds at a later `n` was entered once for the last time. -/
theorem exists_last_entry {P : Nat → Prop} {m n : Nat} (before : ¬ P m) (after : P n) (le : m ≤ n) :
    ∃ b, m ≤ b ∧ b < n ∧ ¬ P b ∧ ∀ i, b < i → i ≤ n → P i := by
  induction n with
  | zero =>
    obtain rfl : m = 0 := by omega
    exact absurd after before
  | succ n ih =>
    by_cases held : P n
    · have earlier : m ≤ n := by
        rcases Nat.lt_or_ge n m with above | earlier
        · obtain rfl : m = n + 1 := by omega
          exact absurd after before
        · exact earlier
      obtain ⟨b, lower, upper, entry, stays⟩ := ih held earlier
      refine ⟨b, lower, by omega, entry, fun i above below => ?_⟩
      rcases Nat.lt_or_ge n i with last | inner
      · obtain rfl : i = n + 1 := by omega
        exact after
      · exact stays i above inner
    · refine ⟨n, ?_, by omega, held, fun i above below => ?_⟩
      · rcases Nat.lt_or_ge n m with above | earlier
        · obtain rfl : m = n + 1 := by omega
          exact absurd after before
        · exact earlier
      · obtain rfl : i = n + 1 := by omega
        exact after

/-- A property that holds at `m` and fails at a later `n` was left for the first time in between. -/
theorem exists_first_exit {P : Nat → Prop} {m n : Nat} (before : P m) (after : ¬ P n) (le : m ≤ n) :
    ∃ b, m ≤ b ∧ b < n ∧ (∀ i, m ≤ i → i ≤ b → P i) ∧ ¬ P (b + 1) := by
  obtain ⟨d, rfl⟩ := Nat.exists_eq_add_of_le le
  clear le
  induction d generalizing m with
  | zero => exact absurd before after
  | succ d ih =>
    by_cases next : P (m + 1)
    · obtain ⟨b, lower, upper, stays, exit⟩ := ih next (by rwa [Nat.add_right_comm])
      refine ⟨b, by omega, by omega, fun i above below => ?_, exit⟩
      rcases Nat.lt_or_eq_of_le above with later | rfl
      · exact stays i later below
      · exact before
    · refine ⟨m, Nat.le_refl m, by omega, fun i above below => ?_, next⟩
      obtain rfl : i = m := by omega
      exact before

/-! ### Counting over a run -/

/-- 1 if the proposition holds. -/
noncomputable def once (P : Prop) : Nat := open Classical in if P then 1 else 0

section Once
variable {P Q : Prop}

theorem once_pos (holds : P) : once P = 1 := if_pos holds

theorem once_neg (fails : ¬ P) : once P = 0 := if_neg fails

theorem once_congr (same : P ↔ Q) : once P = once Q := by rw [propext same]

end Once

/-- How often `P` holds strictly between `b` and `n`. -/
noncomputable def between (P : Nat → Prop) (b n : Nat) : Nat := open Classical in n.count fun i => b < i ∧ P i

section Between
variable {P : Nat → Prop} {b n : Nat}

open Classical in
theorem between_none (none : ∀ i, b < i → i < n → ¬ P i) : between P b n = 0 :=
  Nat.count_iff_forall_not.mpr fun i below here => none i here.1 below here.2

theorem between_start : between P b (b + 1) = 0 :=
  between_none fun _ above below => absurd (Nat.le_of_lt_succ below) (Nat.not_le_of_gt above)

open Classical in
theorem between_succ (after : b < n) : between P b (n + 1) = between P b n + once (P n) := by
  unfold between once
  rw [Nat.count_succ]
  simp only [after, true_and]

end Between

end GooseOs
