import Mathlib.Algebra.Group.Nat.Defs
import Mathlib.Logic.Function.Basic
import Mathlib.Order.Defs.Unbundled

/-!
Programs over a mutable state that may stop early. A program stops with an error of its own or
with a fault: an index outside an array, or arithmetic outside its type. What it had written by
then stays written.
-/

namespace GooseOs

/-- Why a program stopped early. -/
inductive Stop (ε : Type) where
  | error (e : ε)
  | fault
  deriving DecidableEq

abbrev Prog (ε σ α : Type) := EStateM (Stop ε) σ α

/-- An array whose length is part of its type. -/
abbrev FixedArray (n : Nat) (α : Type) := Fin n → α

variable {ε σ τ α β γ : Type} {n : Nat}

/-- Stop with an error of the program's own. -/
def fail (e : ε) : Prog ε σ α := throw (.error e)

/-- Stop with a fault. -/
def fault : Prog ε σ α := throw .fault

/-- Stop with `e` when `c` holds. -/
def failIf (c : Prop) [Decidable c] (e : ε) : Prog ε σ Unit := if c then fail e else pure ()

namespace FixedArray

/-- The entry at an index, if there is one. -/
def at? (a : FixedArray n α) (i : Nat) : Option α := if inside : i < n then some (a ⟨i, inside⟩) else none

/-- `a[i]`. -/
def load (a : FixedArray n α) (i : Nat) : Prog ε σ α :=
  if inside : i < n then pure (a ⟨i, inside⟩) else fault

/-- `a[i] = v`. -/
def store (a : FixedArray n α) (i : Nat) (v : α) : Prog ε σ (FixedArray n α) :=
  if inside : i < n then pure (Function.update a ⟨i, inside⟩ v) else fault

/-- Store a list from index `i` on. -/
def storeAll (a : FixedArray n α) : (i : Nat) → List α → Prog ε σ (FixedArray n α)
  | _, [] => pure a
  | i, v :: rest => do
    let a ← a.store i v
    storeAll a (i + 1) rest

/-- The array that starts with `xs` and holds `d` behind them. -/
def ofList (d : α) (xs : List α) : FixedArray n α := fun i => xs.getD i d

end FixedArray

/-- `a + b` in a type of `w` bits. -/
def plus (w a b : Nat) : Prog ε σ Nat := if a + b < 2 ^ w then pure (a + b) else fault

/-- `a - b` in an unsigned type. -/
def minus (a b : Nat) : Prog ε σ Nat := if b ≤ a then pure (a - b) else fault

/-- `x << k` in a type of `w` bits. -/
def shl {w : Nat} (x : BitVec w) (k : Nat) : Prog ε σ (BitVec w) := if k < w then pure (x <<< k) else fault

/-- `x.ok()`: an error of the program's own is dropped. -/
def attempt (x : Prog ε σ Unit) : Prog ε σ Unit := fun s =>
  match x s with
  | .ok _ t => .ok () t
  | .error (.error _) t => .ok () t
  | .error .fault t => .error .fault t

/-- Run `body` `count` times. -/
def times : (count : Nat) → (body : Prog ε σ Unit) → Prog ε σ Unit
  | 0, _ => pure ()
  | count + 1, body => do
    body
    times count body

/-- Run a program on a part of the state. -/
def onPart (part : σ → τ) (put : τ → σ → σ) (x : Prog ε τ α) : Prog ε σ α := fun s =>
  match x (part s) with
  | .ok a t => .ok a (put t s)
  | .error e t => .error e (put t s)

/-- The state in which a program returns or stops. -/
def after (x : Prog ε σ α) (s : σ) : σ :=
  match x s with
  | .ok _ t => t
  | .error _ t => t

/-! ### Weakest preconditions -/

/-- From `s`, the program returns into `Q` or stops in `E`. -/
def wp (x : Prog ε σ α) (Q : α → σ → Prop) (E : Stop ε → σ → Prop) (s : σ) : Prop :=
  match x s with
  | .ok a t => Q a t
  | .error e t => E e t

section Rules

variable {Q Q' : α → σ → Prop} {E E' : Stop ε → σ → Prop} {s : σ}

@[simp] theorem wp_pure {a : α} : wp (pure a) Q E s ↔ Q a s := Iff.rfl

@[simp] theorem wp_throw {e : Stop ε} : wp (throw e : Prog ε σ α) Q E s ↔ E e s := Iff.rfl

@[simp] theorem wp_fail {e : ε} : wp (fail e) Q E s ↔ E (.error e) s := Iff.rfl

@[simp] theorem wp_fault : wp fault Q E s ↔ E .fault s := Iff.rfl

@[simp] theorem wp_get {Q : σ → σ → Prop} : wp get Q E s ↔ Q s s := Iff.rfl

@[simp] theorem wp_set {Q : PUnit → σ → Prop} {t : σ} : wp (set t) Q E s ↔ Q () t := Iff.rfl

@[simp] theorem wp_modify {Q : PUnit → σ → Prop} {f : σ → σ} : wp (modify f) Q E s ↔ Q () (f s) := Iff.rfl

@[simp] theorem wp_bind {x : Prog ε σ α} {f : α → Prog ε σ β} {Q : β → σ → Prop} :
    wp (x >>= f) Q E s ↔ wp x (fun a => wp (f a) Q E) E s := by
  simp only [wp, bind, EStateM.bind]
  cases x s <;> rfl

@[simp] theorem wp_map {x : Prog ε σ α} {f : α → β} {Q : β → σ → Prop} :
    wp (f <$> x) Q E s ↔ wp x (fun a => Q (f a)) E s := by
  simp only [wp, Functor.map, EStateM.map]
  cases x s <;> rfl

@[simp] theorem wp_ite {c : Prop} [Decidable c] {x y : Prog ε σ α} :
    wp (if c then x else y) Q E s ↔ if c then wp x Q E s else wp y Q E s := by
  split <;> rfl

@[simp] theorem wp_failIf {c : Prop} [Decidable c] {e : ε} {Q : Unit → σ → Prop} :
    wp (failIf c e) Q E s ↔ if c then E (.error e) s else Q () s := by
  unfold failIf
  split <;> rfl

@[simp] theorem wp_load {a : FixedArray n α} {i : Nat} :
    wp (a.load i) Q E s ↔ if inside : i < n then Q (a ⟨i, inside⟩) s else E .fault s := by
  unfold FixedArray.load
  split <;> rfl

@[simp] theorem wp_store {a : FixedArray n α} {i : Nat} {v : α} {Q : FixedArray n α → σ → Prop} :
    wp (a.store i v) Q E s ↔ if inside : i < n then Q (Function.update a ⟨i, inside⟩ v) s else E .fault s := by
  unfold FixedArray.store
  split <;> rfl

@[simp] theorem wp_plus {w a b : Nat} {Q : Nat → σ → Prop} :
    wp (plus w a b) Q E s ↔ if a + b < 2 ^ w then Q (a + b) s else E .fault s := by
  unfold plus
  split <;> rfl

@[simp] theorem wp_minus {a b : Nat} {Q : Nat → σ → Prop} :
    wp (minus a b) Q E s ↔ if b ≤ a then Q (a - b) s else E .fault s := by
  unfold minus
  split <;> rfl

@[simp] theorem wp_shl {w k : Nat} {x : BitVec w} {Q : BitVec w → σ → Prop} :
    wp (shl x k) Q E s ↔ if k < w then Q (x <<< k) s else E .fault s := by
  unfold shl
  split <;> rfl

@[simp] theorem wp_attempt {x : Prog ε σ Unit} {Q : Unit → σ → Prop} :
    wp (attempt x) Q E s ↔
      wp x Q (fun e t => match e with | .error _ => Q () t | .fault => E .fault t) s := by
  simp only [wp, attempt]
  cases x s with
  | ok => rfl
  | error e t => cases e <;> rfl

@[simp] theorem wp_onPart {part : σ → τ} {put : τ → σ → σ} {x : Prog ε τ α} :
    wp (onPart part put x) Q E s ↔ wp x (fun a t => Q a (put t s)) (fun e t => E e (put t s)) (part s) := by
  simp only [wp, onPart]
  cases x (part s) <;> rfl

theorem wp_mono {x : Prog ε σ α} (holds : wp x Q E s) (returns : ∀ a t, Q a t → Q' a t)
    (stops : ∀ e t, E e t → E' e t) : wp x Q' E' s := by
  unfold wp at holds ⊢
  cases result : x s with
  | ok a t =>
    rw [result] at holds
    exact returns a t holds
  | error e t =>
    rw [result] at holds
    exact stops e t holds

theorem wp_and {x : Prog ε σ α} (first : wp x Q E s) (second : wp x Q' E' s) :
    wp x (fun a t => Q a t ∧ Q' a t) (fun e t => E e t ∧ E' e t) s := by
  unfold wp at first second ⊢
  cases result : x s <;> rw [result] at first second <;> exact ⟨first, second⟩

theorem after_of_wp {x : Prog ε σ α} {P : σ → Prop} (holds : wp x (fun _ => P) (fun _ => P) s) : P (after x s) := by
  unfold wp at holds
  unfold after
  split at holds <;> exact holds

/-- A precondition that `body` keeps holds after any number of runs of it. -/
theorem wp_times {body : Prog ε σ Unit} {P : σ → Prop} (keeps : ∀ s, P s → wp body (fun _ => P) E s)
    (count : Nat) (s : σ) (before : P s) : wp (times count body) (fun _ => P) E s := by
  induction count generalizing s with
  | zero => exact before
  | succ count ih =>
    rw [times, wp_bind]
    exact wp_mono (keeps s before) (fun _ t held => ih t held) (fun _ _ => id)

end Rules

theorem bind_run {x : Prog ε σ α} {f : α → Prog ε σ β} {s t : σ} {a : α} (returned : x s = .ok a t) :
    (x >>= f) s = f a t := by
  simp only [bind, EStateM.bind, returned]

theorem bind_stop {x : Prog ε σ α} {f : α → Prog ε σ β} {s t : σ} {e : Stop ε} (stopped : x s = .error e t) :
    (x >>= f) s = .error e t := by
  simp only [bind, EStateM.bind, stopped]

theorem failIf_stop {c : Prop} [Decidable c] {e : ε} {s : σ} (holds : c) :
    (failIf c e : Prog ε σ Unit) s = .error (.error e) s := by
  unfold failIf
  rw [if_pos holds]
  rfl

theorem failIf_pass {c : Prop} [Decidable c] {e : ε} {s : σ} (fails : ¬ c) :
    (failIf c e : Prog ε σ Unit) s = .ok () s := by
  unfold failIf
  rw [if_neg fails]
  rfl

theorem fail_run {e : ε} {s : σ} : (fail e : Prog ε σ α) s = .error (.error e) s := rfl

theorem minus_stop {a b : Nat} {s : σ} (below : a < b) : (minus a b : Prog ε σ Nat) s = .error .fault s := by
  unfold minus
  rw [if_neg (Nat.not_le_of_lt below)]
  rfl

theorem wp_ok {Q : α → σ → Prop} {E : Stop ε → σ → Prop} {x : Prog ε σ α} {s t : σ} {a : α} (returned : x s = .ok a t) :
    wp x Q E s ↔ Q a t := by
  unfold wp
  rw [returned]

/-- A first program that is known to return. -/
theorem wp_bind_ok {Q : β → σ → Prop} {E : Stop ε → σ → Prop} {x : Prog ε σ α} {f : α → Prog ε σ β} {s t : σ} {a : α}
    (returned : x s = .ok a t) : wp (x >>= f) Q E s ↔ wp (f a) Q E t := by
  unfold wp
  rw [bind_run returned]

/-- Whether a program returns `a`. -/
def returns [DecidableEq α] (x : Prog ε σ α) (a : α) (s : σ) : Bool :=
  match x s with
  | .ok b _ => a = b
  | .error _ _ => false

theorem ok_of_returns [DecidableEq α] {x : Prog ε σ α} {a : α} {s : σ} (returned : returns x a s) :
    x s = .ok a (after x s) := by
  unfold returns at returned
  unfold after
  split at returned
  · next b t result =>
    rw [result, of_decide_eq_true returned]
  · cases returned

/-! ### When a program returns -/

section Return

variable {s t : σ} {a : α} {k m : Nat}

@[simp] theorem pure_eq_ok {b : α} : (pure a : Prog ε σ α) s = .ok b t ↔ b = a ∧ t = s := by
  constructor
  · rintro ⟨⟩
    exact ⟨rfl, rfl⟩
  · rintro ⟨rfl, rfl⟩
    rfl

@[simp] theorem fail_eq_ok {e : ε} : ¬ (fail e : Prog ε σ α) s = .ok a t := nofun

@[simp] theorem fault_eq_ok : ¬ (fault : Prog ε σ α) s = .ok a t := nofun

@[simp] theorem get_eq_ok {u : σ} : (get : Prog ε σ σ) s = .ok u t ↔ u = s ∧ t = s := by
  constructor
  · rintro ⟨⟩
    exact ⟨rfl, rfl⟩
  · rintro ⟨rfl, rfl⟩
    rfl

@[simp] theorem set_eq_ok {u : σ} {v : PUnit} : (set u : Prog ε σ PUnit) s = .ok v t ↔ t = u := by
  constructor
  · rintro ⟨⟩
    rfl
  · rintro rfl
    rfl

@[simp] theorem modify_eq_ok {f : σ → σ} {v : PUnit} : (modify f : Prog ε σ PUnit) s = .ok v t ↔ t = f s := by
  constructor
  · rintro ⟨⟩
    rfl
  · rintro rfl
    rfl

@[simp] theorem bind_eq_ok {x : Prog ε σ α} {f : α → Prog ε σ β} {u : σ} {b : β} :
    (x >>= f) s = .ok b u ↔ ∃ a t, x s = .ok a t ∧ f a t = .ok b u := by
  simp only [bind, EStateM.bind]
  cases x s with
  | ok a t =>
    constructor
    · exact fun result => ⟨a, t, rfl, result⟩
    · rintro ⟨_, _, same, result⟩
      cases same
      exact result
  | error e t =>
    constructor
    · nofun
    · rintro ⟨_, _, same, _⟩
      cases same

@[simp] theorem map_eq_ok {x : Prog ε σ α} {f : α → β} {b : β} :
    (f <$> x) s = .ok b t ↔ ∃ a, x s = .ok a t ∧ b = f a := by
  simp only [Functor.map, EStateM.map]
  cases x s with
  | ok a u =>
    constructor
    · rintro ⟨⟩
      exact ⟨a, rfl, rfl⟩
    · rintro ⟨_, ⟨⟩, rfl⟩
      rfl
  | error e u =>
    constructor
    · nofun
    · rintro ⟨_, same, _⟩
      cases same

@[simp] theorem failIf_eq_ok {c : Prop} [Decidable c] {e : ε} {u : Unit} :
    (failIf c e : Prog ε σ Unit) s = .ok u t ↔ ¬ c ∧ t = s := by
  unfold failIf
  split
  · next holds => simp [holds]
  · next fails => simp [fails]

@[simp] theorem plus_eq_ok {w r : Nat} : (plus w k m : Prog ε σ Nat) s = .ok r t ↔ k + m < 2 ^ w ∧ r = k + m ∧ t = s := by
  unfold plus
  split
  · next fits => simp [fits]
  · next wraps => simp [wraps]

@[simp] theorem minus_eq_ok {r : Nat} : (minus k m : Prog ε σ Nat) s = .ok r t ↔ m ≤ k ∧ r = k - m ∧ t = s := by
  unfold minus
  split
  · next fits => simp [fits]
  · next wraps => simp [wraps]

@[simp] theorem shl_eq_ok {w : Nat} {x r : BitVec w} :
    (shl x k : Prog ε σ (BitVec w)) s = .ok r t ↔ k < w ∧ r = x <<< k ∧ t = s := by
  unfold shl
  split
  · next fits => simp [fits]
  · next wraps => simp [wraps]

@[simp] theorem onPart_eq_ok {part : σ → τ} {put : τ → σ → σ} {x : Prog ε τ α} :
    onPart part put x s = .ok a t ↔ ∃ u, x (part s) = .ok a u ∧ t = put u s := by
  unfold onPart
  cases x (part s) with
  | ok b u =>
    constructor
    · rintro ⟨⟩
      exact ⟨u, rfl, rfl⟩
    · rintro ⟨_, ⟨⟩, rfl⟩
      rfl
  | error e u =>
    constructor
    · nofun
    · rintro ⟨_, same, _⟩
      cases same

@[simp] theorem load_eq_ok {xs : FixedArray n α} :
    (xs.load k : Prog ε σ α) s = .ok a t ↔ ∃ inside : k < n, a = xs ⟨k, inside⟩ ∧ t = s := by
  unfold FixedArray.load
  split
  · next inside => simp [inside]
  · next outside => simp [outside]

@[simp] theorem store_eq_ok {xs ys : FixedArray n α} :
    (xs.store k a : Prog ε σ (FixedArray n α)) s = .ok ys t ↔
      ∃ inside : k < n, ys = Function.update xs ⟨k, inside⟩ a ∧ t = s := by
  unfold FixedArray.store
  split
  · next inside => simp [inside]
  · next outside => simp [outside]

end Return

/-! ### Arrays filled from the front -/

namespace FixedArray

variable {d v : α} {xs ys : List α} {s : σ}

theorem ofList_at? {i : Nat} (inside : i < n) (there : xs[i]? = some v) :
    (ofList d xs : FixedArray n α).at? i = some v := by
  rw [at?, dif_pos inside, ofList, List.getD_eq_getElem?_getD, there, Option.getD_some]

theorem update_ofList (inside : xs.length < n) :
    Function.update (ofList d xs : FixedArray n α) ⟨xs.length, inside⟩ v = ofList d (xs ++ [v]) := by
  funext ⟨i, bound⟩
  by_cases last : i = xs.length
  · subst last
    rw [Function.update_self, ofList, List.getD_eq_getElem?_getD, List.getElem?_concat_length, Option.getD_some]
  · rw [Function.update_of_ne (by simpa using last), ofList, ofList, List.getD_eq_getElem?_getD,
      List.getD_eq_getElem?_getD]
    rcases Nat.lt_or_gt_of_ne last with before | behind
    · rw [List.getElem?_append_left before]
    · rw [List.getElem?_eq_none (show (xs ++ [v]).length ≤ i by rw [List.length_append, List.length_singleton]; exact behind),
        List.getElem?_eq_none (show xs.length ≤ i from Nat.le_of_lt behind)]

theorem load_ofList {i : Nat} (inside : i < n) (there : xs[i]? = some v) :
    ((ofList d xs : FixedArray n α).load i : Prog ε σ α) s = .ok v s := by
  rw [load, dif_pos inside, ofList, List.getD_eq_getElem?_getD, there]
  rfl

theorem load_behind {i : Nat} (inside : i < n) (behind : xs.length ≤ i) :
    ((ofList d xs : FixedArray n α).load i : Prog ε σ α) s = .ok d s := by
  rw [load, dif_pos inside, ofList, List.getD_eq_getElem?_getD, List.getElem?_eq_none (show xs.length ≤ i from behind)]
  rfl

theorem store_ofList {i : Nat} (last : i = xs.length) (inside : xs.length < n) :
    ((ofList d xs : FixedArray n α).store i v : Prog ε σ _) s = .ok (ofList d (xs ++ [v])) s := by
  subst last
  rw [store, dif_pos inside, update_ofList inside]
  rfl

theorem storeAll_ofList {i : Nat} (last : i = xs.length) (fits : xs.length + ys.length ≤ n) :
    ((ofList d xs : FixedArray n α).storeAll i ys : Prog ε σ _) s = .ok (ofList d (xs ++ ys)) s := by
  induction ys generalizing xs i with
  | nil =>
    rw [List.append_nil]
    rfl
  | cons y ys ih =>
    rw [List.length_cons] at fits
    rw [storeAll]
    refine bind_eq_ok.mpr ⟨_, _, store_ofList last (by omega), ?_⟩
    rw [List.append_cons xs y ys]
    apply ih
    · rw [last, List.length_append, List.length_singleton]
    · rw [List.length_append, List.length_singleton]
      omega

end FixedArray

/-! ### Postconditions of a return only -/

theorem wp_of_ok {x : Prog ε σ α} {Q : α → σ → Prop} {E : Stop ε → σ → Prop} {s t : σ} {a : α} (holds : wp x Q E s)
    (result : x s = .ok a t) : Q a t := by
  unfold wp at holds
  rw [result] at holds
  exact holds

/-- No demand on a stop. -/
def anyStop : Stop ε → σ → Prop := fun _ _ => True

section Returns

variable {Q : β → σ → Prop} {s : σ}

theorem bind_of_wp {x : Prog ε σ α} {f : α → Prog ε σ β} {R : α → σ → Prop} (first : wp x R anyStop s)
    (second : ∀ a t, R a t → wp (f a) Q anyStop t) : wp (x >>= f) Q anyStop s :=
  wp_bind.mpr (wp_mono first second fun _ _ => id)

theorem bind_of_get {f : σ → Prog ε σ β} (rest : wp (f s) Q anyStop s) : wp (get >>= f) Q anyStop s := rest

theorem bind_of_set {t : σ} {f : PUnit → Prog ε σ β} (rest : wp (f ()) Q anyStop t) :
    wp (set t >>= f) Q anyStop s := rest

theorem bind_of_modify {g : σ → σ} {f : PUnit → Prog ε σ β} (rest : wp (f ()) Q anyStop (g s)) :
    wp (modify g >>= f) Q anyStop s := rest

theorem bind_of_check {c : Prop} [Decidable c] {e : ε} {f : Unit → Prog ε σ β}
    (rest : ¬ c → wp (f ()) Q anyStop s) : wp (failIf c e >>= f) Q anyStop s := by
  rw [wp_bind, wp_failIf]
  split
  · trivial
  · next passed => exact rest passed

theorem bind_of_load {a : FixedArray n α} {i : Nat} {f : α → Prog ε σ β}
    (rest : ∀ inside : i < n, wp (f (a ⟨i, inside⟩)) Q anyStop s) : wp (a.load i >>= f) Q anyStop s := by
  rw [wp_bind, wp_load]
  split
  · next inside => exact rest inside
  · trivial

theorem bind_of_store {a : FixedArray n α} {i : Nat} {v : α} {f : FixedArray n α → Prog ε σ β}
    (rest : ∀ inside : i < n, wp (f (Function.update a ⟨i, inside⟩ v)) Q anyStop s) :
    wp (a.store i v >>= f) Q anyStop s := by
  rw [wp_bind, wp_store]
  split
  · next inside => exact rest inside
  · trivial

theorem bind_of_plus {w a b : Nat} {f : Nat → Prog ε σ β} (rest : wp (f (a + b)) Q anyStop s) :
    wp (plus w a b >>= f) Q anyStop s := by
  rw [wp_bind, wp_plus]
  split
  · exact rest
  · trivial

theorem bind_of_shl {w k : Nat} {x : BitVec w} {f : BitVec w → Prog ε σ β}
    (rest : wp (f (x <<< k)) Q anyStop s) : wp (shl x k >>= f) Q anyStop s := by
  rw [wp_bind, wp_shl]
  split
  · exact rest
  · trivial

theorem bind_of_minus {a b : Nat} {f : Nat → Prog ε σ β} (rest : b ≤ a → wp (f (a - b)) Q anyStop s) :
    wp (minus a b >>= f) Q anyStop s := by
  rw [wp_bind, wp_minus]
  split
  · next within => exact rest within
  · trivial

end Returns

/-! ### Programs without faults -/

/-- A stop with an error of the program's own. -/
def noFault : Stop ε → σ → Prop := fun stop _ => stop ≠ .fault

theorem noFault_error {e : ε} {s : σ} : noFault (.error e) s := by
  simp [noFault]

section Faultless

variable {Q : β → σ → Prop} {s : σ}

theorem safe_bind {x : Prog ε σ α} {f : α → Prog ε σ β} {R : α → σ → Prop} (first : wp x R noFault s)
    (second : ∀ a t, R a t → wp (f a) Q noFault t) : wp (x >>= f) Q noFault s :=
  wp_bind.mpr (wp_mono first second fun _ _ => id)

theorem safe_fail {e : ε} {Q : α → σ → Prop} : wp (fail e) Q noFault s := wp_fail.mpr noFault_error

theorem safe_check {c : Prop} [Decidable c] {e : ε} {f : Unit → Prog ε σ β} (rest : ¬ c → wp (f ()) Q noFault s) :
    wp (failIf c e >>= f) Q noFault s := by
  rw [wp_bind, wp_failIf]
  split
  · exact noFault_error
  · next passed => exact rest passed

theorem safe_load {a : FixedArray n α} {i : Nat} {f : α → Prog ε σ β} (inside : i < n)
    (rest : wp (f (a ⟨i, inside⟩)) Q noFault s) : wp (a.load i >>= f) Q noFault s := by
  rw [wp_bind, wp_load, dif_pos inside]
  exact rest

theorem safe_store {a : FixedArray n α} {i : Nat} {v : α} {f : FixedArray n α → Prog ε σ β} (inside : i < n)
    (rest : wp (f (Function.update a ⟨i, inside⟩ v)) Q noFault s) : wp (a.store i v >>= f) Q noFault s := by
  rw [wp_bind, wp_store, dif_pos inside]
  exact rest

theorem safe_plus {w a b : Nat} {f : Nat → Prog ε σ β} (fits : a + b < 2 ^ w) (rest : wp (f (a + b)) Q noFault s) :
    wp (plus w a b >>= f) Q noFault s := by
  rw [wp_bind, wp_plus, if_pos fits]
  exact rest

theorem safe_shl {w k : Nat} {x : BitVec w} {f : BitVec w → Prog ε σ β} (fits : k < w)
    (rest : wp (f (x <<< k)) Q noFault s) : wp (shl x k >>= f) Q noFault s := by
  rw [wp_bind, wp_shl, if_pos fits]
  exact rest

end Faultless

/-! ### What a program changes -/

/-- Return or stop, the program only moves along `R`. -/
def Moves (R : σ → σ → Prop) (x : Prog ε σ α) : Prop := ∀ s, wp x (fun _ => R s) (fun _ => R s) s

namespace Moves

variable {R S : σ → σ → Prop}

theorem mono {x : Prog ε σ α} (moves : Moves R x) (less : ∀ s t, R s t → S s t) : Moves S x := fun s =>
  wp_mono (moves s) (fun _ t => less s t) fun _ t => less s t

theorem wp_and {x : Prog ε σ α} {Q : α → σ → Prop} {E : Stop ε → σ → Prop} {s : σ} (moves : Moves R x)
    (holds : wp x Q E s) : wp x (fun a t => R s t ∧ Q a t) (fun e t => R s t ∧ E e t) s :=
  GooseOs.wp_and (moves s) holds

theorem map {x : Prog ε σ α} (f : α → β) (moves : Moves R x) : Moves R (f <$> x) := by
  intro s
  rw [wp_map]
  exact moves s

theorem ite {c : Prop} [Decidable c] {x y : Prog ε σ α} (yes : Moves R x) (no : Moves R y) :
    Moves R (if c then x else y) := by
  split
  · exact yes
  · exact no

theorem attempt {x : Prog ε σ Unit} (moves : Moves R x) : Moves R (GooseOs.attempt x) := by
  intro s
  rw [wp_attempt]
  apply wp_mono (moves s) fun _ _ => id
  rintro (e | _) t moved
  · exact moved
  · exact moved

theorem modify {f : σ → σ} (moved : ∀ s, R s (f s)) : Moves R (modifyGet fun s => (PUnit.unit, f s) : Prog ε σ PUnit) := moved

variable [IsPreorder σ R]

theorem pure (a : α) : Moves R (Pure.pure a : Prog ε σ α) := refl_of R

theorem fail (e : ε) : Moves R (GooseOs.fail e : Prog ε σ α) := refl_of R

theorem fault : Moves R (GooseOs.fault : Prog ε σ α) := refl_of R

theorem throw (e : Stop ε) : Moves R (MonadExcept.throw e : Prog ε σ α) := refl_of R

theorem get : Moves R (MonadState.get : Prog ε σ σ) := refl_of R

theorem bind {x : Prog ε σ α} {f : α → Prog ε σ β} (first : Moves R x) (second : ∀ a, Moves R (f a)) :
    Moves R (x >>= f) := by
  intro s
  rw [wp_bind]
  apply wp_mono (first s)
  · intro a t moved
    exact wp_mono (second a t) (fun _ _ => trans_of R moved) fun _ _ => trans_of R moved
  · exact fun _ _ => id

theorem failIf {c : Prop} [Decidable c] {e : ε} : Moves R (GooseOs.failIf c e : Prog ε σ Unit) :=
  (fail e).ite (pure ())

theorem load {a : FixedArray n α} {i : Nat} : Moves R (a.load i : Prog ε σ α) := by
  unfold FixedArray.load
  split
  · exact pure _
  · exact fault

theorem store {a : FixedArray n α} {i : Nat} {v : α} : Moves R (a.store i v : Prog ε σ (FixedArray n α)) := by
  unfold FixedArray.store
  split
  · exact pure _
  · exact fault

theorem plus {w a b : Nat} : Moves R (GooseOs.plus w a b : Prog ε σ Nat) := (pure _).ite fault

theorem shl {w k : Nat} {x : BitVec w} : Moves R (GooseOs.shl x k : Prog ε σ (BitVec w)) := (pure _).ite fault

theorem minus {a b : Nat} : Moves R (GooseOs.minus a b : Prog ε σ Nat) := (pure _).ite fault

end Moves

theorem moves_ok {R : σ → σ → Prop} {x : Prog ε σ α} {s t : σ} {a : α} (moves : Moves R x) (returned : x s = .ok a t) :
    R s t := wp_of_ok (Q := fun _ => R s) (moves s) returned

/-- Both what the first program changes and what it establishes are known to the second. -/
theorem bind_of_moves {R : σ → σ → Prop} {x : Prog ε σ α} {f : α → Prog ε σ β} {P : α → σ → Prop} {Q : β → σ → Prop}
    {s : σ} (moves : Moves R x) (first : wp x P anyStop s) (second : ∀ a t, R s t → P a t → wp (f a) Q anyStop t) :
    wp (x >>= f) Q anyStop s := by
  rw [wp_bind]
  apply wp_mono (moves.wp_and first)
  · exact fun a t both => second a t both.1 both.2
  · exact fun _ _ _ => trivial

/-! ### Which errors a program stops with -/

/-- From `s`, the errors of its own that a program stops with are among these. -/
structure Only (E : ε → Prop) (x : Prog ε σ α) (s : σ) : Prop where
  among : ∀ e t, x s = .error (.error e) t → E e

namespace Only

variable {E F : ε → Prop} {x : Prog ε σ α} {f : α → Prog ε σ β} {s t : σ}

theorem mono (only : Only E x s) (less : ∀ e, E e → F e) : Only F x s where
  among e t stopped := less e (only.among e t stopped)

/-- A program that returns does not stop. -/
theorem returned {a : α} (returns : x s = .ok a t) : Only E x s where
  among e u stopped := by cases returns.symm.trans stopped

theorem pure (a : α) : Only E (Pure.pure a : Prog ε σ α) s := returned rfl

theorem fail {e : ε} (allowed : E e) : Only E (GooseOs.fail e : Prog ε σ α) s where
  among e t stopped := by
    cases stopped
    exact allowed

theorem fault : Only E (GooseOs.fault : Prog ε σ α) s := ⟨nofun⟩

theorem ite {c : Prop} [Decidable c] {y : Prog ε σ α} (yes : c → Only E x s) (no : ¬ c → Only E y s) :
    Only E (if c then x else y) s := by
  split
  · next holds => exact yes holds
  · next fails => exact no fails

theorem bind (first : Only E x s) (second : ∀ a t, x s = .ok a t → Only E (f a) t) : Only E (x >>= f) s where
  among e u stopped := by
    cases result : x s with
    | ok a t =>
      rw [bind_run result] at stopped
      exact (second a t result).among e u stopped
    | error stop t =>
      rw [bind_stop result] at stopped
      cases stopped
      exact first.among e u result

theorem map (g : α → β) (only : Only E x s) : Only E (g <$> x) s where
  among e t stopped := by
    cases result : x s with
    | ok a u => cases (map_eq_ok.mpr ⟨a, result, rfl⟩ : (g <$> x) s = .ok (g a) u).symm.trans stopped
    | error stop u =>
      cases (bind_stop result : (g <$> x) s = .error stop u).symm.trans stopped
      exact only.among e t result

theorem attempt {x : Prog ε σ Unit} : Only E (GooseOs.attempt x) s where
  among e t stopped := by
    unfold GooseOs.attempt at stopped
    split at stopped <;> cases stopped

theorem load {a : FixedArray n α} {i : Nat} : Only E (a.load i : Prog ε σ α) s := by
  unfold FixedArray.load
  split
  · exact pure _
  · exact fault

theorem plus {w a b : Nat} : Only E (GooseOs.plus w a b : Prog ε σ Nat) s := ite (fun _ => pure _) fun _ => fault

theorem get_bind {f : σ → Prog ε σ β} (rest : Only E (f s) s) : Only E (get >>= f) s := ⟨rest.among⟩

theorem set_bind {f : PUnit → Prog ε σ β} (rest : Only E (f ()) t) : Only E (set t >>= f) s := ⟨rest.among⟩

theorem modify_bind {g : σ → σ} {f : PUnit → Prog ε σ β} (rest : Only E (f ()) (g s)) :
    Only E (modify g >>= f) s := ⟨rest.among⟩

theorem check_bind {c : Prop} [Decidable c] {e : ε} {f : Unit → Prog ε σ β} (allowed : c → E e)
    (rest : ¬ c → Only E (f ()) s) : Only E (failIf c e >>= f) s := by
  apply bind (ite (fun holds => fail (allowed holds)) fun _ => pure ())
  intro _ t passed
  obtain ⟨fails, rfl⟩ := failIf_eq_ok.mp passed
  exact rest fails

theorem load_bind {a : FixedArray n α} {i : Nat} (rest : ∀ v ∈ a.at? i, Only E (f v) s) : Only E (a.load i >>= f) s := by
  unfold FixedArray.load
  split
  · next inside => exact ⟨(rest (a ⟨i, inside⟩) (dif_pos inside)).among⟩
  · exact ⟨nofun⟩

theorem store_bind {a : FixedArray n α} {i : Nat} {v : α} {f : FixedArray n α → Prog ε σ β}
    (rest : ∀ inside : i < n, Only E (f (Function.update a ⟨i, inside⟩ v)) s) : Only E (a.store i v >>= f) s := by
  unfold FixedArray.store
  split
  · next inside => exact ⟨(rest inside).among⟩
  · exact ⟨nofun⟩

theorem plus_bind {w a b : Nat} {f : Nat → Prog ε σ β} (rest : Only E (f (a + b)) s) :
    Only E (GooseOs.plus w a b >>= f) s := by
  unfold GooseOs.plus
  split
  · exact ⟨rest.among⟩
  · exact ⟨nofun⟩

theorem minus_bind {a b : Nat} {f : Nat → Prog ε σ β} (rest : b ≤ a → Only E (f (a - b)) s) :
    Only E (minus a b >>= f) s := by
  unfold minus
  split
  · next fits => exact ⟨(rest fits).among⟩
  · exact ⟨nofun⟩

end Only

end GooseOs
