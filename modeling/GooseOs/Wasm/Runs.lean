import GooseOs.Wasm.Activations

/-!
Runs of regular steps. The types hold throughout, and as long as a construct stays open the operands below it are left
alone.
-/

namespace GooseOs.Wasm

open FixedArray

variable {n : Nat} {σ : Type} {p : Program} {h : HostFunctions n σ} {narrow : Prop} {bottom : Nat} {s t : Machine n σ}

/-! ### A construct that stays open -/

/-- Above `below` runs a function in which `x` is open, with `outer` around it. -/
def Marked (frame : CallFrame) (l : Listing) (x : Ctrl) (outer : List Ctrl) (below acts : List Activation) : Prop :=
  ∃ upper inner x', x.Same x' ∧ acts = upper ++ ⟨frame, l, inner ++ x' :: outer⟩ :: below

/-- What runs is a function called from there, or the function itself within more constructs than `outer`. -/
def Deeper (outer : List Ctrl) (below acts : List Activation) : Prop :=
  below.length + 1 < acts.length ∨ acts.length = below.length + 1 ∧ ∀ a ∈ acts.head?, outer.length < a.blocks.length

section Marks
variable {frame : CallFrame} {l : Listing} {x : Ctrl} {outer : List Ctrl} {below acts acts' : List Activation} {low : Nat}

/-- The operands of a function start above those of its callers. -/
theorem FramesHold.above {s : Interpreter} {upper : List Activation} {a b : Activation} {pending : List Byte}
    {pc sp localsEnd labelEnd : Nat}
    (chain : FramesHold narrow p bottom s (a :: upper ++ b :: below) pending pc sp localsEnd labelEnd) :
    b.frame.stackDepth + (operandTypes b.blocks).length ≤ a.frame.stackDepth := by
  induction upper generalizing a pending pc sp localsEnd labelEnd with
  | nil =>
    obtain ⟨-, -, -, -, -, -, -, -, caller, -⟩ := chain
    exact Nat.le_of_eq caller.height.symm
  | cons next upper ih =>
    obtain ⟨-, -, -, -, -, -, rest⟩ := chain
    have caller := rest.2.2.1.height
    exact (ih rest).trans (by omega)

theorem kept_split {gone new kept inner : List Ctrl} {x x' y : Ctrl} (same : x.Same x') (one : gone = [] ∨ new = [])
    (before : inner ++ y :: outer = gone ++ x :: kept) (stays : outer.length < (new ++ x' :: kept).length) :
    ∃ inner' y' lower, y.Same y' ∧ new ++ x' :: kept = inner' ++ y' :: outer ∧ kept = lower ++ outer := by
  have lengths := congrArg List.length before
  simp only [List.length_append, List.length_cons] at lengths stays
  have enough : outer.length ≤ kept.length := by
    rcases one with rfl | rfl
    · rw [List.length_nil] at lengths
      omega
    · rw [List.length_nil] at stays
      omega
  obtain ⟨lower, front, back⟩ : ∃ lower, inner ++ [y] = gone ++ [x] ++ lower ∧ kept = lower ++ outer := by
    have whole : (inner ++ [y]) ++ outer = (gone ++ [x]) ++ kept := by simpa using before
    rcases List.append_eq_append_iff.mp whole with ⟨as, front, back⟩ | split
    · rw [back, List.length_append] at enough
      obtain rfl : as = [] := List.eq_nil_of_length_eq_zero (by omega)
      exact ⟨[], by simpa using front.symm, back.symm⟩
    · exact split
  subst back
  rcases List.eq_nil_or_concat lower with rfl | ⟨upper, last, rfl⟩
  · rw [List.append_nil] at front
    obtain ⟨-, rfl⟩ := List.append_inj' front rfl |>.imp_right List.singleton_inj.mp
    exact ⟨new, x', [], same, rfl, rfl⟩
  · rw [List.concat_eq_append, ← List.append_assoc] at front
    obtain ⟨-, rfl⟩ := List.append_inj' front rfl |>.imp_right List.singleton_inj.mp
    exact ⟨new ++ x' :: upper, y, _, .refl y, by simp, rfl⟩

theorem operandTypes_above {inner : List Ctrl} {c : Ctrl} :
    (operandTypes outer).length ≤ (operandTypes (inner ++ c :: outer)).length := by
  simp only [operandTypes_append, operandTypes_cons, List.length_append]
  omega

/-- While it stays open, nothing below its operands is written. -/
theorem Evolves.marked {s : Interpreter} (evolves : Evolves acts acts' low) (typed : Typed narrow p bottom acts s)
    (marked : Marked frame l x outer below acts) (stays : Deeper outer below acts') :
    Marked frame l x outer below acts' ∧ frame.stackDepth + (operandTypes outer).length ≤ low := by
  obtain ⟨upper, inner, y, same, rfl⟩ := marked
  have height : ∀ a upper', upper = a :: upper' →
    frame.stackDepth + (operandTypes outer).length ≤ a.frame.stackDepth := by
    intro a upper' first
    subst first
    have above := typed.2.above
    have inside := @operandTypes_above outer inner y
    dsimp only at above
    omega
  have floor := @operandTypes_above outer inner y
  cases upper with
  | nil =>
    cases evolves with
    | @within _ _ blocks' gone new kept z z' before after same' one =>
      have open_ : outer.length < blocks'.length := by
        rcases stays with deep | ⟨-, open_⟩
        · exact absurd deep (Nat.lt_irrefl _)
        · exact open_ _ rfl
      subst after
      obtain ⟨inner', y', lower, same'', whole, rfl⟩ := kept_split same' one before open_
      refine ⟨⟨[], inner', y', same.trans same'', by rw [whole]; rfl⟩, ?_⟩
      rw [operandTypes_append, List.length_append]
      show _ ≤ frame.stackDepth + _
      omega
    | @enters _ _ _ c d rest before same' =>
      refine ⟨?_, Nat.add_le_add_left floor _⟩
      cases inner with
      | nil =>
        cases before
        exact ⟨[_], [], d, same.trans same', rfl⟩
      | cons c inner =>
        cases before
        exact ⟨[_], d :: inner, y, same, rfl⟩
    | leaves =>
      rcases stays with deep | ⟨none_, -⟩
      · simp at deep
      · simp at none_
    | exits =>
      rcases stays with deep | ⟨none_, -⟩
      · simp at deep
      · simp at none_
  | cons a upper =>
    have height := height a upper rfl
    rw [List.cons_append] at evolves
    generalize whole : upper ++ ⟨frame, l, inner ++ y :: outer⟩ :: below = others at evolves
    cases evolves with
    | within =>
      subst whole
      exact ⟨⟨_ :: upper, inner, y, same, rfl⟩, height.trans (Nat.le_add_right _ _)⟩
    | enters =>
      subst whole
      exact ⟨⟨_ :: _ :: upper, inner, y, same, rfl⟩, height.trans (Nat.le_add_right _ _)⟩
    | leaves =>
      refine ⟨?_, height⟩
      cases upper with
      | nil =>
        cases whole
        cases inner with
        | nil => exact ⟨[], [], y.pushAll a.listing.context.results, same.trans ⟨rfl, rfl⟩, rfl⟩
        | cons c inner => exact ⟨[], c.pushAll _ :: inner, y, same, rfl⟩
      | cons b upper =>
        cases whole
        exact ⟨_ :: upper, inner, y, same, rfl⟩
    | exits => exact absurd whole (List.append_ne_nil_of_right_ne_nil _ nofun)

end Marks

/-! ### Runs -/

/-- Labels, operands and locals of the functions above `bottom` are as the text says. -/
structure Held (narrow : Prop) (p : Program) (bottom : Nat) (acts : List Activation) (s : Machine n σ) : Prop where
  nested : Nested p bottom s.toInterpreter
  typed : Typed narrow p bottom acts s.toInterpreter

section Runs
variable {acts : List Activation}

theorem Held.step (held : Held narrow p bottom acts s) (inside : bottom < s.frameDepth) (fitting : p.Fitting)
    (regular : Regular narrow p h s) (next : Next p h s t) :
    ∃ acts' low, Held narrow p bottom acts' t ∧ Evolves acts acts' low ∧
      ∀ i, i < low → t.stack.at? i = s.stack.at? i := by
  obtain ⟨acts', low, typed, evolves, same⟩ := typed_step held.nested held.typed inside fitting regular next
  exact ⟨acts', low, ⟨nested_step held.nested inside regular.toPlain next, typed⟩, evolves, same⟩

theorem held_entered {funcIdx : BitVec 32} {returnPc : Nat} {e : Entry} (entered : Entered p funcIdx returnPc e s t)
    (valid : p.ValidBody funcIdx) (fitting : p.Fitting)
    (args : narrow → Carries (Fits narrow) s.stack (e.stackDepth s.toInterpreter) (e.funcType.paramTypes.reverse.map some)) :
    ∃ l, p.listing funcIdx = some l ∧ l.context.results = e.funcType.resultTypes ∧ Held narrow p s.frameDepth
      [⟨e.frame funcIdx returnPc s.toInterpreter, l, [{ kind := .function, results := l.context.results }]⟩] t := by
  have nested := @FramesNest.entered _ _ _ _ _ _ 0 _ _ _ trivial rfl entered valid
  obtain ⟨l, known, results, typed⟩ := @FramesHold.entered _ _ _ _ _ _ _ [] _ _ _ trivial rfl entered fitting
    (fun other => absurd rfl other) args
  exact ⟨l, known, results, nested, typed⟩

theorem held_run {u : Machine n σ} (held : Held narrow p bottom acts s) (fitting : p.Fitting)
    (run : Relation.ReflTransGen (fun a b => bottom < a.frameDepth ∧ Next p h a b ∧ Regular narrow p h a) s u) :
    ∃ acts', Held narrow p bottom acts' u := by
  induction run with
  | refl => exact ⟨acts, held⟩
  | tail _ last ih =>
    obtain ⟨inside, next, regular⟩ := last
    obtain ⟨acts', held⟩ := ih
    obtain ⟨acts'', -, held, -⟩ := held.step inside fitting regular next
    exact ⟨acts'', held⟩

/-- While a construct stays open, the operands below it stay as they are. -/
theorem marked_run {frame : CallFrame} {l : Listing} {x : Ctrl} {outer : List Ctrl} {below : List Activation}
    {u : Machine n σ}
    (held : Held narrow p bottom acts s) (marked : Marked frame l x outer below acts) (fitting : p.Fitting)
    (run : Relation.ReflTransGen (fun a b => Next p h a b ∧ Regular narrow p h a ∧
      ∀ acts', Typed narrow p bottom acts' b.toInterpreter → Deeper outer below acts') s u) :
    ∃ acts', Held narrow p bottom acts' u ∧ Marked frame l x outer below acts' ∧
      ∀ i, i < frame.stackDepth + (operandTypes outer).length → u.stack.at? i = s.stack.at? i := by
  induction run with
  | refl => exact ⟨acts, held, marked, fun _ _ => rfl⟩
  | @tail v w _ last ih =>
    obtain ⟨next, regular, stays⟩ := last
    obtain ⟨acts', held, marked, same⟩ := ih
    have inside : bottom < v.frameDepth := by
      obtain ⟨upper, inner, x', -, rfl⟩ := marked
      have depth := held.typed.1
      rw [List.length_append, List.length_cons] at depth
      omega
    obtain ⟨acts'', low, held', evolves, kept⟩ := held.step inside fitting regular next
    obtain ⟨marked', above⟩ := evolves.marked held.typed marked (stays acts'' held'.typed)
    exact ⟨acts'', held', marked', fun i less => (kept i (less.trans_le above)).trans (same i less)⟩

end Runs

end GooseOs.Wasm
