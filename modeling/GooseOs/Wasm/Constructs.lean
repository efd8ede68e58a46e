import GooseOs.Wasm.Runs
import GooseOs.Wasm.Reuse

/-!
Blocks, loops and ifs from their opening to the step that leaves them: the operands end where they stood at the opening,
with the construct's result on top.
-/

namespace GooseOs.Wasm

open FixedArray

variable {n : Nat} {σ : Type} {p : Program} {h : HostFunctions n σ} {narrow : Prop} {bottom : Nat}
  {s t u v w : Machine n σ}

/-! ### Visits of a construct -/

/-- The constructs open where the running function stands. -/
def Program.OpenAt (p : Program) (s : Interpreter) (blocks : List Ctrl) : Prop :=
  ∃ frame l, s.running = some frame ∧ p.listing frame.funcIdx = some l ∧ l.At p.code s.pc blocks

/-- A construct at its opening: its results, how many constructs are around it and how many operands are below it. -/
structure Opening where
  kind : Construct
  results : List Byte
  outer : Nat
  height : Nat

/-- The next instruction opens the construct. -/
structure Program.Opens (p : Program) (s : Interpreter) (o : Opening) : Prop where
  instr : ∃ instr blockType, p.instrAt s.pc = some instr ∧ instr.opens = some (o.kind, blockType) ∧
    blockTypes blockType = some o.results
  around : ∃ blocks, p.OpenAt s blocks ∧ blocks.length = o.outer
  height : s.sp = if o.kind = .ifThen then o.height + 1 else o.height

/-- In the construct, or in a function called from there; the function of the construct has the frames up to `depth`. -/
def Program.Inside (p : Program) (depth : Nat) (o : Opening) (s : Interpreter) : Prop :=
  depth < s.frameDepth ∨ s.frameDepth = depth ∧ ∃ blocks, p.OpenAt s blocks ∧ o.outer < blocks.length

/-- How a step from `s` to `t` leaves the construct, with the number of operands above the body's result. -/
inductive Program.Exits (p : Program) (o : Opening) (s t : Interpreter) : Nat → Prop
  | ended {blocks : List Ctrl} (known : p.instrAt s.pc = some .endOp ∨ p.instrAt s.pc = some .elseOp)
    (here : p.OpenAt s blocks)
      (last : blocks.length = o.outer + 1) : Exits p o s t 0
  | branch {depth : BitVec 32} {blocks : List Ctrl} (known : p.instrAt s.pc = some (.br depth)) (here : p.OpenAt s blocks)
      (target : blocks.length = o.outer + 1 + depth.toNat) (forward : o.kind ≠ .loop) : Exits p o s t 0
  | branchIf {depth : BitVec 32} {blocks : List Ctrl} {word : Word} (known : p.instrAt s.pc = some (.brIf depth))
      (cond : s.operand 0 = some word) (taken : Meaning.low word ≠ 0) (here : p.OpenAt s blocks)
      (target : blocks.length = o.outer + 1 + depth.toNat) (forward : o.kind ≠ .loop) : Exits p o s t 1
  -- an `if` that is not entered and has no `else`
  | skipped {blockType : Byte} {blocks past : List Ctrl} (known : p.instrAt s.pc = some (.ifOp blockType))
    (here : p.OpenAt s blocks)
      (around : blocks.length = o.outer) (there : p.OpenAt t past) (same : past.length = o.outer) : Exits p o s t 0

/-- The construct is opened in `u` and left by the step from `v` to `w`; the steps up to `v` meet `R`. -/
structure Visited (p : Program) (h : HostFunctions n σ) (R : Machine n σ → Prop) (o : Opening) (u v w : Machine n σ)
    (above : Nat) : Prop where
  opens : p.Opens u.toInterpreter o
  body : Relation.ReflTransGen (fun a b => Next p h a b ∧ R a ∧ p.Inside u.frameDepth o b.toInterpreter) u v
  back : v.frameDepth = u.frameDepth
  exits : p.Exits o v.toInterpreter w.toInterpreter above
  leaves : Next p h v w

/-- The operands are as high as at the opening and the results higher, with the body's result on top. -/
structure LeavesResult (o : Opening) (u v w : Interpreter) (above : Nat) : Prop where
  height : w.sp = o.height + o.results.length
  result : 0 < o.results.length → ∃ word, w.operand 0 = some word ∧ v.operand above = some word
  below : ∀ i, i < o.height → w.stack.at? i = u.stack.at? i

/-! ### The last step -/

namespace Transition
variable {frame : CallFrame} {l : Listing} {c : Ctrl} {rest : List Ctrl}

theorem of_end (transition : Transition p h frame l c rest s t) (known : p.instrAt s.pc = some .endOp)
    (inner : rest ≠ []) : c.closed ∧ ∃ label pc mid, s.topmostLabel = some label ∧ Settles label { s with pc } mid ∧
      t = { mid with labelDepth := mid.labelDepth - 1 } := by
  cases transition with
  | ends _ closed _ onTop settles _ => exact ⟨closed, _, _, _, onTop, settles, rfl⟩
  | computes known' simple =>
    cases known.symm.trans known'
    cases simple
  | opens known' opens =>
    cases known.symm.trans known'
    cases opens
  | continues branches | breaks branches =>
    rcases branches with ⟨known', -⟩ | ⟨known', -⟩
    · cases known.symm.trans known'
    · cases known.symm.trans known'
  | leaves last =>
    rcases last with ⟨-, none_⟩ | known'
    · exact absurd none_ inner
    · cases known.symm.trans known'
  | passes known' | skips known' | switches known' | enters known' => cases known.symm.trans known'

theorem of_else (transition : Transition p h frame l c rest s t) (known : p.instrAt s.pc = some .elseOp) :
    c.closed ∧ c.kind = .ifThen ∧ ∃ label pc mid, s.topmostLabel = some label ∧
      Lays label.stackDepth (s.passed label.resultCount label.stackDepth) { s with pc } mid ∧
        t = { mid with labelDepth := mid.labelDepth - 1, pc := label.targetPc } := by
  cases transition with
  | switches _ kind closed _ onTop lays _ => exact ⟨closed, kind, _, _, _, onTop, lays, rfl⟩
  | computes known' simple =>
    cases known.symm.trans known'
    cases simple
  | opens known' opens =>
    cases known.symm.trans known'
    cases opens
  | continues branches | breaks branches =>
    rcases branches with ⟨known', -⟩ | ⟨known', -⟩
    · cases known.symm.trans known'
    · cases known.symm.trans known'
  | leaves last =>
    rcases last with ⟨known', -⟩ | known'
    · cases known.symm.trans known'
    · cases known.symm.trans known'
  | passes known' | skips known' | ends known' | enters known' => cases known.symm.trans known'

/-- The branch instruction at `pc` is taken: back to the innermost loop, or out of the target. -/
theorem of_branch {instr : Instr} {depth : BitVec 32} {above : Nat} (transition : Transition p h frame l c rest s t)
    (known : p.instrAt s.pc = some instr)
    (branch : instr = .br depth ∧ above = 0 ∨
      instr = .brIf depth ∧ above = 1 ∧ ∃ word, s.operand 0 = some word ∧ Meaning.low word ≠ 0) :
    c.kind = .loop ∧ depth.toNat = 0 ∨ ∃ d e target innermost outer label pc mid, Takes s.toInterpreter c d (s.sp - above) ∧
      d.popAll target.labelTypes = some e ∧ c :: rest = innermost ++ target :: outer ∧ innermost.length = depth.toNat ∧
      outer ≠ [] ∧ target.kind ≠ .loop ∧ s.labels.at? (frame.labelBase + outer.length) = some label ∧
      Lays label.stackDepth (({ s with sp := s.sp - above } : Machine n σ).passed label.resultCount 0)
        { s with pc, sp := s.sp - above } mid ∧
      t = { mid with labelDepth := s.labelDepth - (depth.toNat + 1), pc := label.targetPc } := by
  have same : ∀ {depth' sp}, p.BranchesWith s.toInterpreter depth' sp → depth' = depth ∧ sp = s.sp - above := by
    intro depth' sp branches
    rcases branch with ⟨rfl, rfl⟩ | ⟨rfl, rfl, -⟩
    · rcases branches with ⟨known', rfl⟩ | ⟨known', -⟩
      · cases known.symm.trans known'
        exact ⟨rfl, rfl⟩
      · cases known.symm.trans known'
    · rcases branches with ⟨known', -⟩ | ⟨known', rfl⟩
      · cases known.symm.trans known'
      · cases known.symm.trans known'
        exact ⟨rfl, rfl⟩
  have isBranch : ∀ {instr'}, p.instrAt s.pc = some instr' → instr' = .br depth ∨ instr' = .brIf depth := by
    intro instr' known'
    cases known.symm.trans known'
    exact branch.imp And.left And.left
  cases transition with
  | continues branches innermost kind _ _ _ =>
    obtain ⟨rfl, rfl⟩ := same branches
    exact .inl ⟨kind, innermost⟩
  | breaks branches takes popped whole inside inner kind there lays _ =>
    obtain ⟨rfl, rfl⟩ := same branches
    exact .inr ⟨_, _, _, _, _, _, _, _, takes, popped, whole, inside, inner, kind, there, lays, rfl⟩
  | passes known' _ _ cond zero =>
    rcases branch with ⟨rfl, -⟩ | ⟨rfl, -, word, cond', taken⟩
    · cases known.symm.trans known'
    · cases cond.symm.trans cond'
      exact absurd zero taken
  | computes known' simple =>
    rcases isBranch known' with rfl | rfl
    · cases simple
    · cases simple
  | opens known' opens =>
    rcases isBranch known' with rfl | rfl
    · cases opens
    · cases opens
  | leaves last =>
    rcases last with ⟨known', -⟩ | known'
    · rcases isBranch known' with other | other <;> cases other
    · rcases isBranch known' with other | other <;> cases other
  | skips known' | ends known' | switches known' | enters known' =>
    rcases isBranch known' with other | other <;> cases other

theorem of_open {instr : Instr} {kind : Construct} {blockType : Byte} (transition : Transition p h frame l c rest s t)
    (known : p.instrAt s.pc = some instr) (opens : instr.opens = some (kind, blockType)) :
    (∃ new d label pc sp, blockTypes blockType = some new.results ∧ (new.operands = [] ∧ new.unreachable = false) ∧
      (new.kind = .loop ↔ kind = .loop) ∧ Takes s.toInterpreter c d sp ∧ s.sp = (if kind = .ifThen then sp + 1 else sp) ∧
      l.At p.code pc (new :: d :: rest) ∧ LabelFits p.code l label new (d :: rest) ∧ label.stackDepth = sp ∧
      label.resultCount = new.labelTypes.length ∧ pushLabel label { s with pc, sp } = .ok () t) ∨
    kind = .ifThen ∧ blockTypes blockType = some [] ∧ 0 < s.sp ∧
      ∃ d pc, l.At p.code pc (d :: rest) ∧ t = { s with pc, sp := s.sp - 1 } := by
  have clash : ∀ {instr'}, p.instrAt s.pc = some instr' → instr'.opens = some (kind, blockType) := by
    intro instr' known'
    cases known.symm.trans known'
    exact opens
  cases transition with
  | @opens _ _ _ new d label pc sp _ known' opens' types fresh loop takes consumed there leads height arity pushes =>
    cases (clash known').symm.trans opens'
    exact .inl ⟨new, d, label, pc, sp, types, fresh, loop, takes, consumed, there, leads, height, arity, pushes⟩
  | skips known' _ cond types there =>
    cases clash known'
    exact .inr ⟨rfl, types, Nat.zero_lt_of_lt (Interpreter.operand_inside cond).1, _, _, there, rfl⟩
  | @computes instr' _ _ _ known' simple =>
    have opens' := clash known'
    cases instr' with
    | block | loop | ifOp => cases simple
    | _ => cases opens'
  | continues branches | breaks branches => rcases branches with ⟨known', -⟩ | ⟨known', -⟩ <;> cases clash known'
  | leaves last => rcases last with ⟨known', -⟩ | known' <;> cases clash known'
  | passes known' | ends known' | switches known' | enters known' => cases clash known'

end Transition

theorem fitting_of_parse (accepted : parse p.code = .ok p.module) : p.Fitting := by
  intro target type known
  have sound := sound_of_parse accepted
  have fits : ∀ i : Nat, p.module.types.at? i = some type → type.paramCount ≤ 8 ∧ type.resultCount ≤ 4 := by
    intro i there
    obtain ⟨inside, rfl⟩ := at?_eq_some.mp there
    have signature := sound.signature ⟨i, inside⟩
    exact ⟨signature.params, signature.results⟩
  unfold Program.signature at known
  split at known
  · obtain ⟨typeIdx, -, there⟩ := Option.bind_eq_some_iff.mp known
    exact fits _ there
  · obtain ⟨typeIdx, -, there⟩ := Option.bind_eq_some_iff.mp known
    exact fits _ there

section Last
variable {frame : CallFrame} {l : Listing} {c d : Ctrl} {rest inner outer blocks : List Ctrl} {below : List Activation}
  {pc sp under : Nat}

theorem Typed.openAt (typed : Typed narrow p bottom (⟨frame, l, blocks⟩ :: below) s.toInterpreter) {blocks' : List Ctrl}
    (here : p.OpenAt s.toInterpreter blocks') : blocks' = blocks := by
  obtain ⟨frame', l', running, known, there⟩ := here
  cases running.symm.trans typed.running
  cases known.symm.trans typed.holds.known
  exact there.unique typed.here

/-- A result laid where the operands of the construct begin. -/
theorem laid_result {o : Opening} {locals : List Byte} {ts : List (Option Byte)} {mid : Machine n σ}
    (stock : Stock narrow frame locals o.height ts s t) (takes : ∀ type ∈ o.results, ∃ top ∈ ts.head?, Admits top type)
    (short : o.results.length ≤ 1) (least : under ≤ o.height)
    (lays : Lays o.height (t.passed o.results.length under) t mid) :
    mid.sp = o.height + o.results.length ∧
      (0 < o.results.length → ∃ word, mid.operand 0 = some word ∧ t.operand 0 = some word) ∧
      ∀ i, i < o.height → mid.stack.at? i = s.stack.at? i := by
  have low := lays.below
  have kept := stock.below
  refine ⟨?_, ?_, fun i less => (low i less).trans (kept i less)⟩
  · rcases stock.passed takes short least with ⟨none_, passed⟩ | ⟨type, word, some_, passed, -, -⟩
    · rw [passed] at lays
      rw [none_]
      cases lays
      rfl
    · rw [passed] at lays
      obtain ⟨inside, rfl⟩ := lays
      rw [some_]
      rfl
  · intro positive
    rcases stock.passed takes short least with ⟨none_, -⟩ | ⟨type, word, -, passed, onTop, -⟩
    · rw [none_] at positive
      cases positive
    · rw [passed] at lays
      obtain ⟨inside, rfl⟩ := lays
      refine ⟨word, ?_, onTop⟩
      unfold Interpreter.operand
      rw [if_pos (Nat.succ_pos _)]
      exact at?_update.trans (if_pos rfl)

theorem Settles.drops {floor : Nat} {label : Label} {mid : Machine n σ} (settles : Settles label s mid)
    (measures : Measures floor c rest label) (loop : c.kind = .loop)
    (above : floor + (operandTypes rest).length < s.sp) : mid.sp = floor + (operandTypes rest).length := by
  have arity : label.resultCount = 0 := by
    rw [measures.arity, Ctrl.labelTypes, if_pos loop]
    rfl
  have isLoop : label.isLoop = true := measures.isLoop.trans (decide_eq_true loop)
  unfold Settles at settles
  rw [if_neg (by rw [isLoop]; simp), arity, measures.height, if_pos (by omega)] at settles
  rw [settles]

/-- How the operands stand once a construct with `rest` around it is left. -/
structure Delivers (o : Opening) (v w : Interpreter) (above : Nat) : Prop where
  height : w.sp = o.height + o.results.length
  result : 0 < o.results.length → ∃ word, w.operand 0 = some word ∧ v.operand above = some word
  below : ∀ i, i < o.height → w.stack.at? i = v.stack.at? i

/-- A construct is left by its end or by the `else` of its first branch. -/
theorem Typed.ended {o : Opening} {label : Label} {mid : Machine n σ} {labelDepth q : Nat}
    (typed : Typed narrow p bottom (⟨frame, l, c :: rest⟩ :: below) v.toInterpreter) (closed : c.closed)
    (inside : rest ≠ [])
    (height : o.height = frame.stackDepth + (operandTypes rest).length) (results : c.results = o.results)
    (onTop : v.topmostLabel = some label)
    (lays : Lays label.stackDepth (v.passed c.results.length label.stackDepth) { v with pc } mid) :
    Delivers o v.toInterpreter ({ mid with labelDepth, pc := q } : Machine n σ).toInterpreter 0 := by
  have live : c.unreachable = false := typed.holds.live c (List.mem_cons_self ..)
  have kind : c.kind ≠ .function := @Rooted.inner [] rest c typed.here.rooted inside
  have short := typed.here.short c (List.mem_cons_self ..) kind
  have takes := closed_head live closed short
  obtain ⟨stock, -⟩ := typed.innermost
  rw [(typed.topmost onTop).height] at lays
  rw [← height] at stock lays
  rw [results] at takes short lays
  have stock : Stock narrow frame l.context.locals o.height c.operands v ({ v with pc } : Machine n σ) := { stock with }
  obtain ⟨sum, result, same⟩ := laid_result stock takes short (Nat.le_refl _) lays
  exact ⟨sum, result, same⟩

/-- A branch to the label of `c`, which need not be the innermost construct. -/
theorem Held.branched {o : Opening} {instr : Instr} {depth : BitVec 32} {above : Nat}
    (held : Held narrow p bottom (⟨frame, l, inner ++ c :: rest⟩ :: below) v) (plain : Plain p v.toInterpreter)
    (next : Next p h v w)
    (known : p.instrAt v.pc = some instr)
    (branch : instr = .br depth ∧ above = 0 ∨
      instr = .brIf depth ∧ above = 1 ∧ ∃ word, v.operand 0 = some word ∧ Meaning.low word ≠ 0)
    (target : inner.length = depth.toNat) (forward : c.kind ≠ .loop)
    (height : o.height = frame.stackDepth + (operandTypes rest).length) (results : c.results = o.results) :
    Delivers o v.toInterpreter w.toInterpreter above := by
  obtain ⟨nested, typed⟩ := held
  obtain ⟨c', rest', whole, transition⟩ := typed.transition nested plain next
  rcases transition.of_branch known branch with ⟨isLoop, innermost⟩ |
    ⟨d, e, target', innermost, outer, label, pc, mid, takes, popped, whole', inside, around, kind, there, lays, rfl⟩
  · obtain rfl : inner = [] := List.eq_nil_of_length_eq_zero (target.trans innermost)
    cases whole
    exact absurd isLoop forward
  · obtain ⟨rfl, same⟩ := List.append_inj (whole.trans whole') (target.trans inside.symm)
    cases same
    rw [whole] at typed
    obtain ⟨depth', arity, short, ts, stock, takes⟩ :=
      @Typed.aims _ _ _ _ _ _ _ _ _ _ _ _ _ pc _ _ _ _ _ typed takes popped
      whole' around kind there
    rw [depth', arity, ← height] at lays
    rw [← height] at stock
    rw [results] at short takes lays
    obtain ⟨sum, result, same⟩ := laid_result stock takes short (Nat.zero_le _) lays
    refine ⟨sum, fun some_ => ?_, same⟩
    obtain ⟨word, there, onTop⟩ := result some_
    refine ⟨word, there, Eq.trans ?_ onTop⟩
    rcases branch with ⟨-, rfl⟩ | ⟨-, rfl, -⟩
    · rfl
    · exact Interpreter.operand_pop.symm

/-- The step that leaves a construct lays its result, unless it is the end of a loop that has one. -/
theorem Held.exits {o : Opening} {above : Nat} (held : Held narrow p bottom (⟨frame, l, inner ++ c :: rest⟩ :: below) v)
    (plain : Plain p v.toInterpreter) (next : Next p h v w) (exits : p.Exits o v.toInterpreter w.toInterpreter above)
    (height : o.height = frame.stackDepth + (operandTypes rest).length) (results : c.results = o.results)
    (loop : c.kind = .loop ↔ o.kind = .loop) (around : o.outer = rest.length) (inside : rest ≠ []) :
    (p.instrAt v.pc = some .endOp ∧ o.kind = .loop ∧ o.results ≠ []) ∧ w.sp = o.height ∨
      ¬ (p.instrAt v.pc = some .endOp ∧ o.kind = .loop ∧ o.results ≠ []) ∧
      Delivers o v.toInterpreter w.toInterpreter above := by
  cases exits with
  | @ended blocks known here last =>
    obtain ⟨nested, typed⟩ := held
    rw [typed.openAt here, List.length_append, List.length_cons] at last
    obtain rfl : inner = [] := List.eq_nil_of_length_eq_zero (by omega)
    rw [List.nil_append] at typed
    have live : c.unreachable = false := typed.holds.live c (List.mem_cons_self ..)
    obtain ⟨c', rest', whole, transition⟩ := typed.transition nested plain next
    cases whole
    rcases known with known | known
    · obtain ⟨closed, label, pc, mid, onTop, settles, rfl⟩ := transition.of_end known inside
      have sum := typed.innermost.1.height
      rw [closed_length live closed] at sum
      by_cases dropped : c.kind = .loop ∧ c.results ≠ []
      · obtain ⟨isLoop, some_⟩ := dropped
        have positive := List.length_pos_iff.mpr some_
        refine .inl ⟨⟨known, loop.mp isLoop, results ▸ some_⟩, ?_⟩
        rw [height]
        exact settles.drops (typed.topmost onTop) isLoop (by show _ < v.sp; omega)
      · have lays := settles.lays (typed.topmost onTop) sum fun isLoop => not_not.mp fun some_ => dropped ⟨isLoop, some_⟩
        refine .inr ⟨?_, typed.ended closed inside height results onTop lays⟩
        rintro ⟨-, isLoop, some_⟩
        exact dropped ⟨loop.mpr isLoop, results ▸ some_⟩
    · obtain ⟨closed, kind, label, pc, mid, onTop, lays, rfl⟩ := transition.of_else known
      have other : c.kind ≠ .loop := by
        rw [kind]
        decide
      have arity := (typed.topmost onTop).arity
      rw [Ctrl.labelTypes, if_neg other] at arity
      rw [arity] at lays
      refine .inr ⟨?_, typed.ended closed inside height results onTop lays⟩
      rintro ⟨other, -⟩
      cases known.symm.trans other
  | @branch depth blocks known here target forward =>
    rw [held.typed.openAt here, List.length_append, List.length_cons] at target
    refine .inr ⟨fun dropped => forward dropped.2.1, ?_⟩
    exact held.branched plain next known (.inl ⟨rfl, rfl⟩) (by omega) (mt loop.mp forward) height results
  | @branchIf depth blocks word known cond taken here target forward =>
    rw [held.typed.openAt here, List.length_append, List.length_cons] at target
    refine .inr ⟨fun dropped => forward dropped.2.1, ?_⟩
    exact held.branched plain next known (.inr ⟨rfl, rfl, word, cond, taken⟩) (by omega)
      (mt loop.mp forward) height results
  | skipped known here same =>
    rw [held.typed.openAt here, List.length_append, List.length_cons] at same
    omega

end Last

/-! ### From the opening to the last step -/

section Visits
variable {frame : CallFrame} {l : Listing} {c x : Ctrl} {rest outer : List Ctrl} {below acts : List Activation}
  {o : Opening}
  {above : Nat}

/-- Inside the construct of the machine is inside that of the functions. -/
theorem Typed.deeper {depth : Nat} (typed : Typed narrow p bottom acts s.toInterpreter)
    (inside : p.Inside depth o s.toInterpreter) (same : depth = bottom + below.length + 1)
    (around : o.outer = outer.length) : Deeper outer below acts := by
  have height := typed.1
  rcases inside with deep | ⟨level, blocks, here, more⟩
  · exact .inl (by omega)
  · refine .inr ⟨by omega, fun a first => ?_⟩
    cases acts with
    | nil => cases first
    | cons a acts =>
      cases first
      rw [← typed.openAt here, ← around]
      exact more

theorem Held.opened (held : Held narrow p bottom (⟨frame, l, c :: rest⟩ :: below) u) (plain : Plain p u.toInterpreter)
    (opens : p.Opens u.toInterpreter o) (next : Next p h u t) (inside : p.Inside u.frameDepth o t.toInterpreter) :
    ∃ x d, Held narrow p bottom (⟨frame, l, x :: d :: rest⟩ :: below) t ∧ x.results = o.results ∧
    (x.kind = .loop ↔ o.kind = .loop) ∧
      o.height = frame.stackDepth + (operandTypes (d :: rest)).length ∧ o.outer = (d :: rest).length ∧
      t.frameDepth = u.frameDepth ∧ t.stack = u.stack := by
  have nested := nested_step held.nested (by have depth := held.typed.1; rw [List.length_cons] at depth; omega) plain next
  obtain ⟨⟨instr, blockType, known, opens, types⟩, ⟨blocks, here, around⟩, height⟩ := opens
  rw [held.typed.openAt here, List.length_cons] at around
  obtain ⟨c', rest', whole, transition⟩ := held.typed.transition held.nested plain next
  cases whole
  rcases transition.of_open known opens with
    ⟨new, d, label, pc, sp, types', fresh, loop, takes, consumed, there, leads, depth, arity, pushes⟩ |
    ⟨-, -, -, d, pc, there, rfl⟩
  · obtain ⟨typed, stack⟩ := held.typed.opens takes fresh there leads depth arity pushes
    obtain ⟨-, stock⟩ := @Typed.takes _ _ _ _ _ _ _ _ _ _ _ _ _ pc held.typed takes
    have sum : sp = _ := stock.height
    refine ⟨new, d, ⟨nested, typed⟩, Option.some.inj (types'.symm.trans types), loop, ?_, around.symm, ?_, stack⟩
    · rw [operandTypes_cons, List.length_append]
      split at consumed
      · next isIf =>
        rw [if_pos isIf] at height
        omega
      · next other =>
        rw [if_neg other] at height
        omega
    · obtain ⟨_, rfl⟩ := pushLabel_ok.mp pushes
      rfl
  · rcases inside with deep | ⟨-, blocks', here', more⟩
    · exact absurd deep (Nat.lt_irrefl _)
    · obtain ⟨frame', l', running, known', there'⟩ := here'
      cases running.symm.trans held.typed.running
      cases known'.symm.trans held.typed.holds.known
      rw [there'.unique there, List.length_cons] at more
      omega

/-- An `if` that is not entered takes its condition, and has no result. -/
theorem Held.skipped (held : Held narrow p bottom (⟨frame, l, c :: rest⟩ :: below) u) (plain : Plain p u.toInterpreter)
    (opens : p.Opens u.toInterpreter o) (next : Next p h u w) (exits : p.Exits o u.toInterpreter w.toInterpreter above) :
    ¬ p.instrAt u.pc = some .endOp ∧ LeavesResult o u.toInterpreter u.toInterpreter w.toInterpreter above := by
  obtain ⟨⟨instr, blockType, known, opens, types⟩, ⟨blocks, here, around⟩, height⟩ := opens
  have clash : ∀ {instr'}, p.instrAt u.pc = some instr' → instr'.opens = some (o.kind, blockType) := by
    intro instr' known'
    cases known.symm.trans known'
    exact opens
  refine ⟨fun other => (by cases clash other), ?_⟩
  rw [held.typed.openAt here, List.length_cons] at around
  obtain ⟨c', rest', whole, transition⟩ := held.typed.transition held.nested plain next
  cases whole
  rcases transition.of_open known opens with
    ⟨new, d, label, pc, sp, types', fresh, loop, takes, consumed, there, leads, depth, arity, pushes⟩ |
    ⟨isIf, none_, some_, d, pc, there, rfl⟩
  · obtain ⟨typed, -⟩ := held.typed.opens takes fresh there leads depth arity pushes
    cases exits with
    | ended known' => rcases known' with other | other <;> cases clash other
    | branch known' | branchIf known' => cases clash known'
    | skipped _ _ _ past same =>
      rw [typed.openAt past, List.length_cons, List.length_cons] at same
      omega
  · have empty : o.results = [] := Option.some.inj (types.symm.trans none_)
    rw [if_pos isIf] at height
    refine ⟨?_, fun positive => ?_, fun _ _ => rfl⟩
    · show u.sp - 1 = _
      rw [empty, List.length_nil]
      omega
    · rw [empty] at positive
      cases positive

/-- In a valid function, with regular steps, a construct leaves exactly its result; only the end of a loop drops it. -/
theorem visit_leaves_iff {funcIdx : BitVec 32} {returnPc : Nat} (accepted : parse p.code = .ok p.module)
    (valid : p.ValidBody funcIdx) (enters : enterFunction p funcIdx returnPc s = .ok () t)
    (before : Relation.ReflTransGen (fun a b => s.frameDepth < a.frameDepth ∧ Next p h a b ∧ Regular False p h a) t u)
    (inside : s.frameDepth < u.frameDepth) (visited : Visited p h (Regular False p h) o u v w above)
    (plain : Plain p v.toInterpreter) :
    LeavesResult o u.toInterpreter v.toInterpreter w.toInterpreter above ↔
      ¬ (p.instrAt v.pc = some .endOp ∧ o.kind = .loop ∧ o.results ≠ []) := by
  have fitting := fitting_of_parse accepted
  obtain ⟨e, entered⟩ := wp_of_ok (enterFunction_ok funcIdx returnPc) enters
  obtain ⟨l₀, -, -, start⟩ := @held_entered _ _ _ False _ _ _ _ _ entered valid fitting False.elim
  obtain ⟨acts, held⟩ := held_run start fitting before
  obtain ⟨opens, body, back, exits, last⟩ := visited
  obtain ⟨frame, l, c, rest, below, count, rfl, -⟩ := held.typed.top held.nested inside
  rcases body.cases_head with rfl | ⟨u', ⟨next, regular, within⟩, later⟩
  · obtain ⟨other, leaves⟩ := held.skipped plain opens last exits
    exact ⟨fun _ dropped => other dropped.1, fun _ => leaves⟩
  · obtain ⟨x, d, held', results, loop, height, around, depth, stack⟩ := held.opened regular.toPlain opens next within
    have level := held.typed.1
    rw [List.length_cons] at level
    have marked : Marked frame l x (d :: rest) below (⟨frame, l, x :: d :: rest⟩ :: below) := ⟨[], [], x, .refl x, rfl⟩
    obtain ⟨acts', held'', ⟨upper, inner, x', same, rfl⟩, kept⟩ := marked_run held' marked fitting
      (Relation.ReflTransGen.mono
        (fun a b step => ⟨step.1, step.2.1, fun acts' typed => typed.deeper step.2.2 (by omega) around⟩) _ _ later)
    have level' := held''.typed.1
    rw [List.length_append, List.length_cons] at level'
    obtain rfl : upper = [] := List.eq_nil_of_length_eq_zero (by omega)
    rw [← height, stack] at kept
    have left := held''.exits plain last exits height (same.2.trans results) (by rw [same.1]; exact loop) around nofun
    rcases left with ⟨dropped, sp⟩ | ⟨other, sp, result, low⟩
    · refine ⟨fun leaves => ?_, fun other => absurd dropped other⟩
      have positive := List.length_pos_iff.mpr dropped.2.2
      have sum := leaves.height
      omega
    · exact ⟨fun _ => other, fun _ => ⟨sp, result, fun i less => (low i less).trans (kept i less)⟩⟩

end Visits

/-! ### A loop with a result -/

/-- The place behind some instructions in text order. -/
def Listing.place (l : Listing) (code : List Byte) : Nat → Option Place
  | 0 => some l.entry
  | count + 1 => (l.place code count).bind (advance code l.context)

theorem Listing.at_of_place {l : Listing} {code : List Byte} {count pc : Nat} {blocks : List Ctrl}
    (known : l.place code count = some (pc, blocks)) : l.At code pc blocks := by
  induction count generalizing pc blocks with
  | zero =>
    cases known
    exact .refl
  | succ count ih =>
    obtain ⟨⟨pc', blocks'⟩, before, last⟩ := Option.bind_eq_some_iff.mp known
    exact (ih before).tail last

theorem Program.openAt_of_place {s : Interpreter} {count length : Nat}
    (known : s.running.any fun frame => (p.listing frame.funcIdx).any fun l => (l.place p.code count).any fun place =>
      place.1 = s.pc ∧ place.2.length = length) :
    ∃ blocks, p.OpenAt s blocks ∧ blocks.length = length := by
  obtain ⟨frame, running, known⟩ := (Option.any_eq_true _ _).mp known
  obtain ⟨l, listing, known⟩ := (Option.any_eq_true _ _).mp known
  obtain ⟨⟨pc, blocks⟩, place, same⟩ := (Option.any_eq_true _ _).mp known
  obtain ⟨rfl, outer⟩ := of_decide_eq_true same
  exact ⟨blocks, ⟨frame, l, running, listing, Listing.at_of_place place⟩, outer⟩

/-- A construct with an i32 result, whose body is `i32.const 7`, and a `drop` behind it. -/
def yielding (opening : Byte) : List Byte := oneFunction [] [opening, 0x7F, 0x41, 0x07, 0x0B, 0x1A, 0x0B]

namespace yielding

/-- The state after some rounds. -/
def state (opening : Byte) (count : Nat) : Machine 0 Unit :=
  rounds (loaded (yielding opening)) (noHost 0) (started (loaded (yielding opening)) 0 [] nofun ()) count

/-- The block or the loop. -/
def opened (opening : Byte) : Opening where
  kind := if opening = 0x03 then .loop else .block
  results := [valI32]
  outer := 1
  height := 0

theorem computed : ∀ opening ∈ [(0x02 : Byte), 0x03], accepts (yielding opening) ∧
    (loaded (yielding opening)).validBody 0 9 ∧
    returns (do pushArgs []; enterFunction (loaded (yielding opening)) 0 0) ()
      ({ memory := nofun, host := () } : Machine 0 Unit) ∧
    ∀ count < 3, returns (step (loaded (yielding opening)) (noHost 0)) .next (state opening count) ∧
      (state opening count).frameDepth = 1 ∧ ∀ i < (state opening count).frameDepth,
        ((state opening count).frames.at? i).any fun frame =>
        (loaded (yielding opening)).validBody frame.funcIdx 9 := by
  decide +kernel

theorem instrs : ∀ opening ∈ [(0x02 : Byte), 0x03],
    (loaded (yielding opening)).instrAt (state opening 0).pc = some (if opening = 0x03 then .loop 0x7F else .block 0x7F) ∧
    (loaded (yielding opening)).instrAt (state opening 1).pc = some (.i32Const 7) ∧
    (loaded (yielding opening)).instrAt (state opening 2).pc = some .endOp := by
  decide +kernel

theorem places : ∀ opening ∈ [(0x02 : Byte), 0x03], ∀ count < 3, (state opening count).running.any fun frame =>
    ((loaded (yielding opening)).listing frame.funcIdx).any fun l =>
    (l.place (loaded (yielding opening)).code count).any fun place =>
      place.1 = (state opening count).pc ∧ place.2.length = if count = 0 then 1 else 2 := by
  decide +kernel

theorem heights : ∀ opening ∈ [(0x02 : Byte), 0x03], (state opening 0).sp = 0 ∧
    (state opening 3).sp = if opening = 0x03 then 0 else 1 := by
  decide +kernel

variable {opening : Byte}

theorem goes (known : opening ∈ [(0x02 : Byte), 0x03]) (count next : Nat) (few : count < 3) (after : next = count + 1) :
    Next (loaded (yielding opening)) (noHost 0) (state opening count) (state opening next) ∧
    (state opening count).frameDepth = 1 := by
  obtain ⟨-, -, -, all⟩ := computed opening known
  subst after
  obtain ⟨step, depth, -⟩ := all count few
  exact ⟨next_rounds step, depth⟩

/-- The construct is opened in the function's first state and left by its third step. -/
theorem visited (known : opening ∈ [(0x02 : Byte), 0x03]) {R : Machine 0 Unit → Prop}
    (meets : R (state opening 0) ∧ R (state opening 1)) :
    Visited (loaded (yielding opening)) (noHost 0) R (opened opening) (state opening 0) (state opening 2)
      (state opening 3) 0 := by
  obtain ⟨first, depth⟩ := goes known 0 1 (by decide) rfl
  obtain ⟨second, depth'⟩ := goes known 1 2 (by decide) rfl
  obtain ⟨third, depth''⟩ := goes known 2 3 (by decide) rfl
  obtain ⟨opens, -, ends⟩ := instrs opening known
  obtain ⟨outside, around, here⟩ := Program.openAt_of_place (places opening known 0 (by decide))
  obtain ⟨inside, around', here'⟩ := Program.openAt_of_place (places opening known 1 (by decide))
  obtain ⟨inside', around'', here''⟩ := Program.openAt_of_place (places opening known 2 (by decide))
  have height := (heights opening known).1
  generalize state opening 0 = t, state opening 1 = u, state opening 2 = v, state opening 3 = w at *
  obtain ⟨meets, meets'⟩ := meets
  refine ⟨⟨⟨_, 0x7F, opens, ?_, rfl⟩, ⟨outside, around, here⟩, ?_⟩, ?_, depth''.trans depth.symm, ?_, third⟩
  · unfold opened
    split <;> rfl
  · rw [height]
    unfold opened
    split <;> simp
  · refine (Relation.ReflTransGen.single ⟨first, meets, .inr ⟨depth'.trans depth.symm, inside, around', ?_⟩⟩).tail
      ⟨second, meets', .inr ⟨depth''.trans depth.symm, inside', around'', ?_⟩⟩
    · rw [here'']
      exact Nat.lt_succ_self 1
    · rw [here']
      exact Nat.lt_succ_self 1
  · exact .ended (.inl ends) around'' here''

theorem runsValid (known : opening ∈ [(0x02 : Byte), 0x03]) (count : Nat) (few : count < 3) :
    (state opening count).RunsValid (loaded (yielding opening)) := by
  obtain ⟨-, -, -, all⟩ := computed opening known
  obtain ⟨-, -, runs⟩ := all count few
  exact Interpreter.runsValid_of_any runs

theorem enters (known : opening ∈ [(0x02 : Byte), 0x03]) :
    (∃ s, enterFunction (loaded (yielding opening)) 0 0 s = .ok () (state opening 0) ∧
    s.frameDepth < (state opening 0).frameDepth) ∧
      Reached (loaded (yielding opening)) (noHost 0) (state opening 0) := by
  obtain ⟨-, -, enters, -⟩ := computed opening known
  have depth := (goes known 0 1 (by decide) rfl).2
  obtain ⟨s, entered, outside⟩ := started_enters enters
  exact ⟨⟨s, entered, by rw [outside, depth]; exact Nat.zero_lt_one⟩, reached_rounds (reached_started enters) 0 nofun⟩

end yielding

open yielding in
theorem visit_leaves_iff_yielding : ∃ u v w : Machine 0 Unit,
    LeavesResult (opened 0x02) u.toInterpreter v.toInterpreter w.toInterpreter 0 ↔
      ¬ ((loaded (yielding 0x02)).instrAt v.pc = some .endOp ∧ (opened 0x02).kind = .loop ∧
      (opened 0x02).results ≠ []) := by
  obtain ⟨accepted, valid, -⟩ := computed 0x02 (by simp)
  obtain ⟨⟨s, entered, inside⟩, -⟩ := @enters 0x02 (by simp)
  obtain ⟨first, second, last⟩ := instrs 0x02 (by simp)
  have visited := @visited 0x02 (by simp) (Regular False (loaded (yielding 0x02)) (noHost 0))
    ⟨regular_other first nofun nofun trivial, regular_other second nofun nofun trivial⟩
  exact ⟨_, _, _, visit_leaves_iff (parse_loaded accepted) (Program.validBody_sound valid) entered .refl inside
    visited (plain_other last nofun)⟩

open yielding in
/-- The end of a loop drops the loop's result. -/
theorem loop_result_dropped : ¬ ∀ (p : Program) (o : Opening) (u v w : Machine 0 Unit) (above : Nat),
    parse p.code = .ok p.module → p.numImports.toNat = p.module.importCount → Reached p (noHost 0) u →
    Visited p (noHost 0) (fun a => a.RunsValid p) o u v w above →
    LeavesResult o u.toInterpreter v.toInterpreter w.toInterpreter above := by
  intro all
  obtain ⟨accepted, -⟩ := computed 0x03 (by simp)
  have visited := @visited 0x03 (by simp) (fun a => a.RunsValid (loaded (yielding 0x03)))
    ⟨runsValid (by simp) 0 (by decide), runsValid (by simp) 1 (by decide)⟩
  have height := (heights 0x03 (by simp)).2
  have reached := (@enters 0x03 (by simp)).2
  generalize state 0x03 0 = u, state 0x03 2 = v, state 0x03 3 = w at *
  have leaves := all _ _ _ _ _ _ (parse_loaded accepted) (imports_loaded accepted) reached visited
  cases height.symm.trans leaves.height

end GooseOs.Wasm
