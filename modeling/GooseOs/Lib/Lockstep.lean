import GooseOs.Lib.Prog

/-!
Two runs of programs side by side: they return together or stop together, and a relation between
their states is kept.
-/

namespace GooseOs

variable {ε σ τ α β : Type} {n : Nat}

/-! ### Arrays with a common front -/

/-- The entries below `k` are the same. -/
def FixedArray.SameBelow (k : Nat) (a b : FixedArray n α) : Prop := ∀ i : Fin n, i.val < k → b i = a i

namespace FixedArray.SameBelow

variable {a b : FixedArray n α} {k l : Nat}

theorem weaken (same : SameBelow k a b) (less : l ≤ k) : SameBelow l a b := fun i below => same i (by omega)

theorem update (same : SameBelow k a b) (i : Fin n) (v : α) :
    SameBelow k (Function.update a i v) (Function.update b i v) := by
  intro j below
  by_cases here : j = i
  · rw [here, Function.update_self, Function.update_self]
  · rw [Function.update_of_ne here, Function.update_of_ne here, same j below]

/-- A common entry right behind the common front. -/
theorem grow (inside : k < n) (same : SameBelow k a b) (v : α) :
    SameBelow (k + 1) (Function.update a ⟨k, inside⟩ v) (Function.update b ⟨k, inside⟩ v) := by
  intro j below
  by_cases here : j = ⟨k, inside⟩
  · rw [here, Function.update_self, Function.update_self]
  · have other : j.val ≠ k := Fin.val_ne_iff.mpr here
    rw [Function.update_of_ne here, Function.update_of_ne here, same j (by omega)]

end FixedArray.SameBelow

/-! ### Two runs -/

/-- From `s` and from `t`, the programs return values related by `A` in states related by `R`, or stop
for the same reason in states related by `E`. -/
def Lockstep (A : α → β → Prop) (R E : σ → τ → Prop) (x : Prog ε σ α) (y : Prog ε τ β) (s : σ) (t : τ) : Prop :=
  match x s, y t with
  | .ok a s', .ok b t' => A a b ∧ R s' t'
  | .error e s', .error e' t' => e = e' ∧ E s' t'
  | _, _ => False

namespace Lockstep

variable {R R' E : σ → σ → Prop} {s t : σ} {A : α → α → Prop} {B : β → β → Prop}

theorem pure {a b : α} (related : A a b) (states : R s t) :
    Lockstep A R E (Pure.pure a : Prog ε σ α) (Pure.pure b) s t := ⟨related, states⟩

theorem throw (e : Stop ε) (states : E s t) : Lockstep A R E (MonadExcept.throw e : Prog ε σ α) (MonadExcept.throw e) s t :=
  ⟨rfl, states⟩

theorem set {s' t' : σ} (states : R s' t') :
    Lockstep Eq R E (MonadState.set s' : Prog ε σ PUnit) (MonadState.set t') s t := ⟨rfl, states⟩

theorem bind {x y : Prog ε σ α} {f g : α → Prog ε σ β} (first : Lockstep A R E x y s t)
    (second : ∀ a b s t, A a b → R s t → Lockstep B R' E (f a) (g b) s t) : Lockstep B R' E (x >>= f) (y >>= g) s t := by
  unfold Lockstep at first ⊢
  simp only [Bind.bind, EStateM.bind]
  cases left : x s <;> cases right : y t <;> rw [left, right] at first
  case ok.ok a s' b t' => exact second a b s' t' first.1 first.2
  case error.error => exact first
  all_goals exact first.elim

theorem map {x y : Prog ε σ α} (f : α → β) (first : Lockstep Eq R E x y s t) : Lockstep Eq R E (f <$> x) (f <$> y) s t := by
  unfold Lockstep at first ⊢
  simp only [Functor.map, EStateM.map]
  cases left : x s <;> cases right : y t <;> rw [left, right] at first
  case ok.ok => exact ⟨congrArg f first.1, first.2⟩
  case error.error => exact first
  all_goals exact first.elim

theorem mono {E' : σ → σ → Prop} {x y : Prog ε σ α} (both : Lockstep A R E x y s t) (returns : ∀ s t, R s t → R' s t)
    (stops : ∀ s t, E s t → E' s t) : Lockstep A R' E' x y s t := by
  unfold Lockstep at both ⊢
  cases left : x s <;> cases right : y t <;> rw [left, right] at both
  case ok.ok => exact ⟨both.1, returns _ _ both.2⟩
  case error.error => exact ⟨both.1, stops _ _ both.2⟩
  all_goals exact both

theorem and_moves {x y : Prog ε σ α} {M : σ → σ → Prop} (moves : Moves M x) (both : Lockstep A R E x y s t) :
    Lockstep A (fun s' t' => R s' t' ∧ M s s') E x y s t := by
  have moved := moves s
  unfold Lockstep at both ⊢
  unfold wp at moved
  cases left : x s <;> cases right : y t <;> rw [left, right] at both <;> rw [left] at moved
  case ok.ok => exact ⟨both.1, both.2, moved⟩
  case error.error => exact both
  all_goals exact both

theorem ite {c : Prop} [Decidable c] {x y x' y' : Prog ε σ α} (yes : c → Lockstep A R E x y s t)
    (no : ¬ c → Lockstep A R E x' y' s t) : Lockstep A R E (if c then x else x') (if c then y else y') s t := by
  split
  · next holds => exact yes holds
  · next fails => exact no fails

theorem bind_get {f g : σ → Prog ε σ β} (rest : Lockstep B R E (f s) (g t) s t) :
    Lockstep B R E (get >>= f) (get >>= g) s t := rest

theorem bind_set {s' t' : σ} {f g : PUnit → Prog ε σ β} (rest : Lockstep B R E (f ()) (g ()) s' t') :
    Lockstep B R E (MonadState.set s' >>= f) (MonadState.set t' >>= g) s t := rest

theorem bind_modify {h h' : σ → σ} {f g : PUnit → Prog ε σ β} (rest : Lockstep B R E (f ()) (g ()) (h s) (h' t)) :
    Lockstep B R E (modify h >>= f) (modify h' >>= g) s t := rest

section Checks
variable (states : E s t)
include states

theorem bind_failIf {c : Prop} [Decidable c] {e : ε} {f g : Unit → Prog ε σ β}
    (rest : ¬ c → Lockstep B R E (f ()) (g ()) s t) : Lockstep B R E (failIf c e >>= f) (failIf c e >>= g) s t := by
  unfold failIf
  split
  · exact ⟨rfl, states⟩
  · next passed => exact rest passed

theorem bind_plus {w a b : Nat} {f g : Nat → Prog ε σ β} (rest : Lockstep B R E (f (a + b)) (g (a + b)) s t) :
    Lockstep B R E (plus w a b >>= f) (plus w a b >>= g) s t := by
  unfold plus
  split
  · exact rest
  · exact ⟨rfl, states⟩

theorem bind_minus {a b : Nat} {f g : Nat → Prog ε σ β} (rest : b ≤ a → Lockstep B R E (f (a - b)) (g (a - b)) s t) :
    Lockstep B R E (minus a b >>= f) (minus a b >>= g) s t := by
  unfold minus
  split
  · next within => exact rest within
  · exact ⟨rfl, states⟩

theorem bind_load {xs ys : FixedArray n α} {i : Nat} {f g : α → Prog ε σ β}
    (rest : ∀ inside : i < n, Lockstep B R E (f (xs ⟨i, inside⟩)) (g (ys ⟨i, inside⟩)) s t) :
    Lockstep B R E (xs.load i >>= f) (ys.load i >>= g) s t := by
  unfold FixedArray.load
  split
  · next inside => exact rest inside
  · exact ⟨rfl, states⟩

theorem load {xs ys : FixedArray n α} {i : Nat} (rest : ∀ inside : i < n, A (xs ⟨i, inside⟩) (ys ⟨i, inside⟩) ∧ R s t) :
    Lockstep A R E (xs.load i : Prog ε σ α) (ys.load i) s t := by
  unfold FixedArray.load
  split
  · next inside => exact rest inside
  · exact ⟨rfl, states⟩

theorem bind_store {xs ys : FixedArray n α} {i : Nat} {v w : α} {f g : FixedArray n α → Prog ε σ β}
    (rest : ∀ inside : i < n, Lockstep B R E (f (Function.update xs ⟨i, inside⟩ v)) (g (Function.update ys ⟨i, inside⟩ w)) s t) :
    Lockstep B R E (xs.store i v >>= f) (ys.store i w >>= g) s t := by
  unfold FixedArray.store
  split
  · next inside => exact rest inside
  · exact ⟨rfl, states⟩

end Checks

end Lockstep

/-- Run from related states, the two programs return related values or stop for the same reason,
in related states. -/
def Agrees (R : σ → σ → Prop) (A : α → α → Prop) (x y : Prog ε σ α) : Prop :=
  ∀ s t, R s t → Lockstep A R R x y s t

namespace Agrees

variable {R : σ → σ → Prop} {A : α → α → Prop}

theorem pure {a b : α} (related : A a b) : Agrees R A (Pure.pure a : Prog ε σ α) (Pure.pure b) :=
  fun _ _ states => ⟨related, states⟩

theorem throw (e : Stop ε) : Agrees R A (throw e : Prog ε σ α) (throw e) :=
  fun _ _ states => ⟨rfl, states⟩

theorem fail (e : ε) : Agrees R A (fail e : Prog ε σ α) (fail e) := throw _

theorem fault : Agrees R A (fault : Prog ε σ α) fault := throw _

theorem bind {B : β → β → Prop} {x y : Prog ε σ α} {f g : α → Prog ε σ β}
    (first : Agrees R A x y) (second : ∀ a b, A a b → Agrees R B (f a) (g b)) : Agrees R B (x >>= f) (y >>= g) :=
  fun s t states => (first s t states).bind fun a b s t related => second a b related s t

theorem map {x y : Prog ε σ α} (f : α → β) (first : Agrees R Eq x y) : Agrees R Eq (f <$> x) (f <$> y) :=
  fun s t states => (first s t states).map f

theorem ite {c : Prop} [Decidable c] {x y x' y' : Prog ε σ α} (yes : Agrees R A x y) (no : Agrees R A x' y') :
    Agrees R A (if c then x else x') (if c then y else y') := by
  split
  · exact yes
  · exact no

theorem failIf {c : Prop} [Decidable c] {e : ε} : Agrees R Eq (failIf c e : Prog ε σ Unit) (GooseOs.failIf c e) :=
  (fail e).ite (pure rfl)

theorem attempt {x y : Prog ε σ Unit} (first : Agrees R Eq x y) : Agrees R Eq (attempt x) (GooseOs.attempt y) := by
  intro s t states
  have met := first s t states
  unfold Lockstep at met ⊢
  unfold GooseOs.attempt
  cases left : x s <;> cases right : y t <;> rw [left, right] at met
  case ok.ok => exact met
  case error.error e s' e' t' =>
    obtain ⟨rfl, states'⟩ := met
    cases e with
    | error => exact ⟨rfl, states'⟩
    | fault => exact ⟨rfl, states'⟩
  all_goals exact met.elim

end Agrees

end GooseOs
