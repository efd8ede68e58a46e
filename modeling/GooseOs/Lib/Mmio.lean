import GooseOs.Lib.Prog
import Mathlib.Data.List.Basic

/-!
Programs that talk to a device through its registers. Nothing is known of the device: it may answer a read by
anything, depending on all accesses before. A protocol is an automaton over the accesses, and a program keeps to it
when no answer of the device leads it astray.
-/

namespace GooseOs.Mmio

variable {A : Type} {V : A → Type} {ε σ α β M : Type}

/-- One access to a register; the register says what kind of value it has. -/
inductive Access (A : Type) (V : A → Type) where
  | read (a : A) (v : V a)
  | write (a : A) (v : V a)

/-- What the device answers to a read, from the accesses before. -/
abbrev Responder (A : Type) (V : A → Type) := List (Access A V) → (a : A) → V a

/-- The driver's state, and its accesses so far. -/
structure Session (A : Type) (V : A → Type) (σ : Type) where
  state : σ
  history : List (Access A V) := []

abbrev Driver (A : Type) (V : A → Type) (ε σ α : Type) := Prog ε (Session A V σ) α

def read (r : Responder A V) (a : A) : Driver A V ε σ (V a) := fun s =>
  .ok (r s.history a) { s with history := s.history ++ [.read a (r s.history a)] }

def write (a : A) (v : V a) : Driver A V ε σ Unit :=
  modify fun s => { s with history := s.history ++ [.write a v] }

/-- The driver's own state. -/
def own : Driver A V ε σ σ := Session.state <$> get

def update (f : σ → σ) : Driver A V ε σ Unit := modify fun s => { s with state := f s.state }

/-! ### Protocols -/

/-- A protocol: where an access leads, if it is allowed. -/
abbrev Protocol (A : Type) (V : A → Type) (M : Type) := M → Access A V → Option M

variable {δ : Protocol A V M}

/-- Where a history leads. -/
def Protocol.follow (δ : Protocol A V M) (m : M) (history : List (Access A V)) : Option M := history.foldlM δ m

@[simp] theorem Protocol.follow_nil {m : M} : δ.follow m [] = some m := rfl

theorem Protocol.follow_append {m m' : M} {history more : List (Access A V)} (before : δ.follow m history = some m') :
    δ.follow m (history ++ more) = δ.follow m' more := by
  unfold follow at before ⊢
  rw [List.foldlM_append, before]
  rfl

theorem Protocol.follow_snoc {m m' m'' : M} {history : List (Access A V)} {x : Access A V}
    (before : δ.follow m history = some m') (allowed : δ m' x = some m'') : δ.follow m (history ++ [x]) = some m'' := by
  rw [follow_append before]
  simp [follow, allowed]

/-- Whatever the device answers, a program that starts with the protocol in `m` and the driver in `s` keeps to the
protocol, and returns into `Q` or stops in `E`. -/
def Keeps (δ : Protocol A V M) (x : Driver A V ε σ α) (Q : α → M → σ → Prop) (E : Stop ε → M → σ → Prop) (m : M) (s : σ) :
    Prop :=
  ∀ m₀ history, δ.follow m₀ history = some m →
    wp x (fun a t => ∃ m', δ.follow m₀ t.history = some m' ∧ Q a m' t.state)
      (fun e t => ∃ m', δ.follow m₀ t.history = some m' ∧ E e m' t.state) ⟨s, history⟩

section Rules
variable {r : Responder A V} {Q Q' : α → M → σ → Prop} {E E' : Stop ε → M → σ → Prop} {m : M} {s : σ}

theorem keeps_pure {a : α} (returned : Q a m s) : Keeps δ (pure a) Q E m s :=
  fun _ _ before => ⟨m, before, returned⟩

theorem keeps_fail {e : ε} (stopped : E (.error e) m s) : Keeps δ (fail e : Driver A V ε σ α) Q E m s :=
  fun _ _ before => ⟨m, before, stopped⟩

theorem keeps_bind {x : Driver A V ε σ α} {f : α → Driver A V ε σ β} {Q : β → M → σ → Prop}
    (first : Keeps δ x (fun a => Keeps δ (f a) Q E) E m s) : Keeps δ (x >>= f) Q E m s := by
  intro m₀ history before
  rw [wp_bind]
  exact wp_mono (first m₀ history before) (fun _ t ⟨_, there, next⟩ => next m₀ t.history there) fun _ _ => id

theorem keeps_read {a : A} {Q : V a → M → σ → Prop} (allowed : ∀ v, ∃ m', δ m (.read a v) = some m' ∧ Q v m' s) :
    Keeps δ (read r a) Q E m s := by
  intro _ history before
  obtain ⟨m', step, returned⟩ := allowed (r history a)
  exact ⟨m', Protocol.follow_snoc before step, returned⟩

theorem keeps_write {a : A} {v : V a} {Q : Unit → M → σ → Prop} {m' : M} (allowed : δ m (.write a v) = some m')
    (returned : Q () m' s) : Keeps δ (write a v) Q E m s :=
  fun _ _ before => ⟨m', Protocol.follow_snoc before allowed, returned⟩

theorem keeps_own {Q : σ → M → σ → Prop} (returned : Q s m s) : Keeps δ own Q E m s :=
  fun _ _ before => ⟨m, before, returned⟩

theorem keeps_update {f : σ → σ} {Q : Unit → M → σ → Prop} (returned : Q () m (f s)) : Keeps δ (update f) Q E m s :=
  fun _ _ before => ⟨m, before, returned⟩

theorem keeps_mono {x : Driver A V ε σ α} (keeps : Keeps δ x Q E m s) (returns : ∀ a m t, Q a m t → Q' a m t)
    (stops : ∀ e m t, E e m t → E' e m t) : Keeps δ x Q' E' m s :=
  fun m₀ history before => wp_mono (keeps m₀ history before)
    (fun a t ⟨m', there, returned⟩ => ⟨m', there, returns a m' t.state returned⟩)
    (fun e t ⟨m', there, stopped⟩ => ⟨m', there, stops e m' t.state stopped⟩)

/-- What one round keeps for every entry of a list, the loop keeps. -/
theorem keeps_forM {l : List α} {body : α → Driver A V ε σ PUnit} {I : List α → M → σ → Prop}
    (round : ∀ a rest, a ∈ l → ∀ m s, I (a :: rest) m s → Keeps δ (body a) (fun _ => I rest) E m s)
    (start : I l m s) : Keeps δ (l.forM body) (fun _ => I []) E m s := by
  induction l generalizing m s with
  | nil => exact keeps_pure start
  | cons a l ih =>
    change Keeps δ (body a >>= fun _ => l.forM body) _ _ _ _
    refine keeps_bind (keeps_mono (round a l List.mem_cons_self m s start) (fun _ _ _ held => ?_) fun _ _ _ => id)
    exact ih (fun b rest member => round b rest (List.mem_cons_of_mem a member)) held

end Rules

/-- A program that keeps to the protocol, run. -/
theorem Keeps.after {x : Driver A V ε σ α} {P : M → σ → Prop} {m m₀ : M} {s : Session A V σ}
    (keeps : Keeps δ x (fun _ => P) (fun _ => P) m s.state) (before : δ.follow m₀ s.history = some m) :
    ∃ m', δ.follow m₀ (after x s).history = some m' ∧ P m' (after x s).state :=
  after_of_wp (P := fun t : Session A V σ => ∃ m', δ.follow m₀ t.history = some m' ∧ P m' t.state) (keeps m₀ s.history before)

end GooseOs.Mmio
