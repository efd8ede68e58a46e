import GooseOs.Wasm.Operands

/-!
The stack of running functions, each with the constructs open where it stands. Every operand and every local is what
its type asks, and every label remembers how high the operands were when its construct was opened.
-/

namespace GooseOs.Wasm

open FixedArray

variable {n : Nat} {σ : Type} {p : Program} {h : HostFunctions n σ} {narrow : Prop} {bottom : Nat} {s t : Machine n σ}

/-- A running function: what it is validated as and the constructs open where it stands. -/
structure Activation where
  frame : CallFrame
  listing : Listing
  blocks : List Ctrl

/-- The types of the operands pushed in these constructs, the topmost first. -/
def operandTypes (blocks : List Ctrl) : List (Option Byte) := blocks.flatMap Ctrl.operands

@[simp] theorem operandTypes_nil : operandTypes [] = [] := rfl

@[simp] theorem operandTypes_cons {c : Ctrl} {rest : List Ctrl} :
  operandTypes (c :: rest) = c.operands ++ operandTypes rest :=
  List.flatMap_cons

@[simp] theorem operandTypes_append {inner rest : List Ctrl} :
    operandTypes (inner ++ rest) = operandTypes inner ++ operandTypes rest := List.flatMap_append

theorem operandTypes_resume {results : List Byte} {c : Ctrl} {rest : List Ctrl} :
    operandTypes (resume results (c :: rest)) = results.reverse.map some ++ operandTypes (c :: rest) := by
  simp [resume, Ctrl.pushAll]

/-- A label remembers the height of the operands below its construct, and how many a branch to it takes. -/
structure Measures (floor : Nat) (c : Ctrl) (rest : List Ctrl) (label : Label) : Prop where
  height : label.stackDepth = floor + (operandTypes rest).length
  arity : label.resultCount = c.labelTypes.length
  isLoop : label.isLoop = decide (c.kind = .loop)

theorem Measures.same {floor : Nat} {c d : Ctrl} {rest : List Ctrl} {label : Label}
    (measures : Measures floor c rest label)
    (same : c.Same d) : Measures floor d rest label := by
  obtain ⟨height, arity, isLoop⟩ := measures
  refine ⟨height, arity.trans ?_, isLoop.trans ?_⟩
  · unfold Ctrl.labelTypes
    rw [same.1, same.2]
  · rw [same.1]

/-- What the arrays hold of a running function whose operands end at `sp`. -/
structure Activation.Holds (narrow : Prop) (p : Program) (s : Interpreter) (a : Activation) (sp : Nat) : Prop where
  known : p.listing a.frame.funcIdx = some a.listing
  results : a.frame.resultCount = a.listing.context.results.length
  window : a.frame.localCount = a.listing.context.locals.length
  inside : a.blocks ≠ []
  live : ∀ c ∈ a.blocks, c.unreachable = false
  labels : Piles (Measures a.frame.stackDepth) s.labels a.frame.labelBase a.blocks
  height : sp = a.frame.stackDepth + (operandTypes a.blocks).length
  operands : Carries (Fits narrow) s.stack a.frame.stackDepth (operandTypes a.blocks)
  locals : LocalsFit narrow a.listing.context.locals a.frame.localsBase s.locals

/-- The functions above `bottom`, the topmost first. The first one stands at `pc` and has yet to get `pending` from the
function it called; its operands, locals and labels end where it is said. -/
def FramesHold (narrow : Prop) (p : Program) (bottom : Nat) (s : Interpreter) :
    (acts : List Activation) → (pending : List Byte) → (pc sp localsEnd labelEnd : Nat) → Prop
  | [], _, _, _, _, _ => True
  | a :: below, pending, pc, sp, localsEnd, labelEnd =>
    s.frames.at? (bottom + below.length) = some a.frame ∧ a.listing.At p.code pc (resume pending a.blocks) ∧
      a.Holds narrow p s sp ∧ a.frame.localsBase + a.frame.localCount ≤ localsEnd ∧
      labelEnd = a.frame.labelBase + a.blocks.length ∧ (below ≠ [] → a.listing.context.results.length ≤ 1) ∧
      FramesHold narrow p bottom s below a.listing.context.results a.frame.returnPc a.frame.stackDepth a.frame.localsBase
        a.frame.labelBase

/-- The machine is within these functions. -/
def Typed (narrow : Prop) (p : Program) (bottom : Nat) (acts : List Activation) (s : Interpreter) : Prop :=
  s.frameDepth = bottom + acts.length ∧ FramesHold narrow p bottom s acts [] s.pc s.sp s.nextLocal s.labelDepth

/-! ### Frames of a step -/

section Congruence
variable {s s' : Interpreter} {a : Activation} {acts : List Activation} {pending : List Byte}
  {pc sp localsEnd labelEnd : Nat}

theorem LocalsFit.congr {types : List Byte} {base : Nat} {locals locals' : FixedArray (maxLocals * maxCallDepth) Word}
    (fit : LocalsFit narrow types base locals) (same : ∀ i, i < base + types.length → locals'.at? i = locals.at? i) :
    LocalsFit narrow types base locals' := by
  intro k type word known there
  obtain ⟨inside, -⟩ := List.getElem?_eq_some_iff.mp known
  rw [same _ (by omega)] at there
  exact fit k type word known there

theorem Activation.Holds.congr (holds : a.Holds narrow p s sp)
    (labels : ∀ i, i < a.frame.labelBase + a.blocks.length → s'.labels.at? i = s.labels.at? i)
    (stack : ∀ i, i < sp → s'.stack.at? i = s.stack.at? i)
    (locals : ∀ i, i < a.frame.localsBase + a.frame.localCount → s'.locals.at? i = s.locals.at? i) :
    a.Holds narrow p s' sp := by
  have height := holds.height
  have window := holds.window
  exact { holds with
    labels := holds.labels.congr labels
    operands := Piles.congr holds.operands fun i below => stack i (by omega)
    locals := holds.locals.congr fun i below => locals i (by omega) }

theorem FramesHold.congr (chain : FramesHold narrow p bottom s acts pending pc sp localsEnd labelEnd)
    (frames : ∀ i, i < bottom + acts.length → s'.frames.at? i = s.frames.at? i)
    (labels : ∀ i, i < labelEnd → s'.labels.at? i = s.labels.at? i)
    (stack : ∀ i, i < sp → s'.stack.at? i = s.stack.at? i)
    (locals : ∀ i, i < localsEnd → s'.locals.at? i = s.locals.at? i) :
    FramesHold narrow p bottom s' acts pending pc sp localsEnd labelEnd := by
  induction acts generalizing pending pc sp localsEnd labelEnd with
  | nil => trivial
  | cons a below ih =>
    obtain ⟨there, here, holds, window, height, single, rest⟩ := chain
    have sum := holds.height
    rw [List.length_cons] at frames
    refine ⟨?_, here, ?_, window, height, single, ?_⟩
    · rw [frames _ (by omega), there]
    · exact holds.congr (fun i low => labels i (by omega)) stack fun i low => locals i (by omega)
    · exact ih rest (fun i low => frames i (by omega)) (fun i low => labels i (by omega))
        (fun i low => stack i (by omega))
        fun i low => locals i (by omega)

end Congruence

/-! ### The topmost function -/

@[simp] theorem resume_nil (blocks : List Ctrl) : resume [] blocks = blocks := by
  cases blocks <;> rfl

theorem nextLocal_eq {s : Interpreter} {frame : CallFrame} (running : s.running = some frame) :
    s.nextLocal = frame.localsBase + frame.localCount := by
  rw [Interpreter.nextLocal, running]

section Top
variable {frame : CallFrame} {locals : List Byte} {floor : Nat} {ts us kept : List (Option Byte)} {a : Activation}
  {below : List Activation} {blocks' : List Ctrl} {u : Machine n σ}

theorem Stock.upper (stock : Stock narrow frame locals floor (ts ++ us) s t) :
    Stock narrow frame locals (floor + us.length) ts t t := by
  have height := stock.height
  rw [List.length_append] at height
  exact { stock with
    height := by omega
    operands := (Carries.append.mp stock.operands).1
    below := fun _ _ => rfl
    others := fun _ _ => rfl }

theorem Stock.whole (stock : Stock narrow frame locals (floor + us.length) ts s t)
    (under : Carries (Fits narrow) s.stack floor us) :
    Stock narrow frame locals floor (ts ++ us) s t := by
  have height := stock.height
  exact { stock with
    height := by
      rw [List.length_append]
      omega
    operands := Carries.append.mpr ⟨stock.operands, under.congr fun i low => stock.below i low⟩
    below := fun i low => stock.below i (by omega) }

namespace Typed

theorem running (typed : Typed narrow p bottom (a :: below) s.toInterpreter) : s.running = some a.frame := by
  obtain ⟨depth, there, -⟩ := typed
  rw [List.length_cons] at depth
  unfold Interpreter.running
  rw [if_pos (by omega), show s.frameDepth - 1 = bottom + below.length by omega, there]

theorem holds (typed : Typed narrow p bottom (a :: below) s.toInterpreter) : a.Holds narrow p s.toInterpreter s.sp :=
  typed.2.2.2.1

theorem here (typed : Typed narrow p bottom (a :: below) s.toInterpreter) : a.listing.At p.code s.pc a.blocks := by
  have there := typed.2.2.1
  rwa [resume_nil] at there

theorem labelled (typed : Typed narrow p bottom (a :: below) s.toInterpreter) :
    s.labelDepth = a.frame.labelBase + a.blocks.length := typed.2.2.2.2.2.1

theorem stock (typed : Typed narrow p bottom (a :: below) s.toInterpreter) :
    Stock narrow a.frame a.listing.context.locals a.frame.stackDepth (operandTypes a.blocks) s s where
  height := typed.holds.height
  operands := typed.holds.operands
  below _ _ := rfl
  running := typed.running
  locals := typed.holds.locals
  others _ _ := rfl

/-- The topmost function goes on, with other operands above those that are kept. -/
theorem within (typed : Typed narrow p bottom (a :: below) s.toInterpreter)
    (stock : Stock narrow a.frame a.listing.context.locals (a.frame.stackDepth + kept.length) us s t)
    (under : Carries (Fits narrow) s.stack a.frame.stackDepth kept) (split : operandTypes blocks' = us ++ kept)
    (frames : t.frames = s.frames) (here : a.listing.At p.code t.pc blocks')
    (inside : blocks' ≠ []) (live : ∀ c ∈ blocks', c.unreachable = false)
    (labelled : t.labelDepth = a.frame.labelBase + blocks'.length)
    (labels : Piles (Measures a.frame.stackDepth) t.labels a.frame.labelBase blocks')
    (lower : ∀ i, i < a.frame.labelBase → t.labels.at? i = s.labels.at? i) (depth : t.frameDepth = s.frameDepth) :
    Typed narrow p bottom ({ a with blocks := blocks' } :: below) t.toInterpreter := by
  have holds := typed.holds
  obtain ⟨depth', there, -, -, window, -, single, chain⟩ := typed
  have goes : Activation.Holds narrow p t.toInterpreter { a with blocks := blocks' } t.sp := {
    known := holds.known
    results := holds.results
    window := holds.window
    inside := inside
    live := live
    labels := labels
    height := by
      show t.sp = a.frame.stackDepth + (operandTypes blocks').length
      rw [stock.height, split, List.length_append]
      omega
    operands := by
      rw [split]
      exact (stock.whole under).operands
    locals := stock.locals }
  refine ⟨by rw [depth, depth', List.length_cons, List.length_cons], ?_, ?_, goes, ?_, labelled, single, ?_⟩
  · rw [frames]
    exact there
  · rwa [resume_nil]
  · rw [nextLocal_eq stock.running]
  · refine chain.congr (fun i _ => by rw [frames]) lower (fun i low => stock.below i ?_) stock.others
    exact Nat.lt_of_lt_of_le low (Nat.le_add_right _ _)

end Typed

end Top

/-! ### Steps of the topmost function -/

/-- What a step must meet besides being plain: it finds the values it asks for, no loop with a result is left by its
end, and the functions called have one result at most. -/
structure Regular (narrow : Prop) (p : Program) (h : HostFunctions n σ) (s : Machine n σ) : Prop
    extends Plain p s.toInterpreter where
  asks : ∀ instr ∈ p.instrAt s.pc, instr.Asks narrow p h s
  loopEnd : p.instrAt s.pc = some .endOp → ∀ frame l c rest, s.running = some frame → p.listing frame.funcIdx = some l →
    l.At p.code s.pc (c :: rest) → c.kind = .loop → c.results = []
  single : ∀ target type, p.instrAt s.pc = some (.call target) → ¬ target < p.numImports →
    p.signature target = some type →
    type.resultCount ≤ 1

theorem regular_other {instr : Instr} (known : p.instrAt s.pc = some instr) (other : ¬ instr.jumps)
    (ends : instr ≠ .endOp) (asks : instr.Asks narrow p h s) : Regular narrow p h s where
  toPlain := plain_other known other
  asks := by
    intro instr' known'
    cases known.symm.trans known'
    exact asks
  loopEnd known' := absurd (Option.some.inj (known.symm.trans known')) ends
  single target type known' := by
    cases known.symm.trans known'
    exact absurd rfl other

/-- The signatures are within the arrays of the parser. -/
def Program.Fitting (p : Program) : Prop :=
  ∀ target type, p.signature target = some type → type.paramCount ≤ 8 ∧ type.resultCount ≤ 4

/-- How a step changes the functions that run, and from which slot on it may write operands. -/
inductive Evolves : List Activation → List Activation → Nat → Prop
  | within {a : Activation} {below : List Activation} {blocks' gone new kept : List Ctrl} {x x' : Ctrl}
      (before : a.blocks = gone ++ x :: kept) (after : blocks' = new ++ x' :: kept) (same : x.Same x')
      (one : gone = [] ∨ new = []) :
      Evolves (a :: below) ({ a with blocks := blocks' } :: below) (a.frame.stackDepth + (operandTypes kept).length)
  | enters {a callee : Activation} {below : List Activation} {c d : Ctrl} {rest : List Ctrl}
      (before : a.blocks = c :: rest) (same : c.Same d) : Evolves (a :: below)
        (callee :: { a with blocks := d :: rest } :: below)
        (a.frame.stackDepth + (operandTypes a.blocks).length)
  | leaves {a b : Activation} {below : List Activation} :
      Evolves (a :: b :: below)
        ({ b with blocks := resume a.listing.context.results b.blocks } :: below) a.frame.stackDepth
  | exits {a : Activation} : Evolves [a] [] a.frame.stackDepth

/-- After a step the machine is within other functions, and the operands below some slot are as before. -/
def Steps (narrow : Prop) (p : Program) (bottom : Nat) (acts : List Activation) (s t : Machine n σ) : Prop :=
  ∃ acts' low, Typed narrow p bottom acts' t.toInterpreter ∧ Evolves acts acts' low ∧
    ∀ i, i < low → t.stack.at? i = s.stack.at? i

section Steps
variable {frame : CallFrame} {l : Listing} {c d : Ctrl} {rest : List Ctrl} {below : List Activation} {sp pc : Nat}

namespace Typed

theorem innermost (typed : Typed narrow p bottom (⟨frame, l, c :: rest⟩ :: below) s.toInterpreter) :
    Stock narrow frame l.context.locals (frame.stackDepth + (operandTypes rest).length) c.operands s s ∧
      Carries (Fits narrow) s.stack frame.stackDepth (operandTypes rest) := by
  have stock := typed.stock
  simp only [operandTypes_cons] at stock
  exact ⟨stock.upper, (Carries.append.mp stock.operands).2⟩

theorem topmost (typed : Typed narrow p bottom (⟨frame, l, c :: rest⟩ :: below) s.toInterpreter) {label : Label}
    (onTop : s.topmostLabel = some label) : Measures frame.stackDepth c rest label := by
  obtain ⟨⟨label', there, measures⟩, -⟩ := typed.holds.labels
  have labelled : s.labelDepth = frame.labelBase + (rest.length + 1) := typed.labelled
  unfold Interpreter.topmostLabel at onTop
  rw [if_pos (by omega), show s.labelDepth - 1 = frame.labelBase + rest.length by omega, there] at onTop
  cases onTop
  exact measures

theorem takes (typed : Typed narrow p bottom (⟨frame, l, c :: rest⟩ :: below) s.toInterpreter)
    (takes : Takes s.toInterpreter c d sp) : d.unreachable = false ∧
      Stock narrow frame l.context.locals (frame.stackDepth + (operandTypes rest).length) d.operands s
        { s with pc, sp } := by
  have live : c.unreachable = false := typed.holds.live c (List.mem_cons_self ..)
  obtain ⟨stock, -⟩ := typed.innermost
  cases takes with
  | nothing => exact ⟨live, { stock with }⟩
  | condition popped there =>
    obtain ⟨top, -, operands, live⟩ := Ctrl.pop_live live popped
    rw [operands] at stock
    have taken := (stock.pop (pop_ok.mpr ⟨there, rfl⟩)).2
    exact ⟨live, { taken with }⟩

theorem stays (typed : Typed narrow p bottom (⟨frame, l, c :: rest⟩ :: below) s.toInterpreter) (same : c.Same d)
    (live : d.unreachable = false)
    (stock : Stock narrow frame l.context.locals (frame.stackDepth + (operandTypes rest).length) d.operands s t)
    (here : l.At p.code t.pc (d :: rest)) (frames : t.frames = s.frames) (depth : t.frameDepth = s.frameDepth)
    (labels : t.labels = s.labels) (labelDepth : t.labelDepth = s.labelDepth) :
    Steps narrow p bottom (⟨frame, l, c :: rest⟩ :: below) s t := by
  obtain ⟨-, under⟩ := typed.innermost
  have liveAll := typed.holds.live
  refine ⟨_, _, typed.within stock under operandTypes_cons frames here nofun ?_ ?_ ?_ (fun i _ => by rw [labels]) depth,
    .within (List.nil_append _).symm (List.nil_append _).symm same (.inl rfl), stock.below⟩
  · intro e member
    rcases List.mem_cons.mp member with rfl | deeper
    · exact live
    · exact liveAll e (List.mem_cons_of_mem _ deeper)
  · rw [labelDepth]
    exact typed.labelled
  · rw [labels]
    exact Piles.replace typed.holds.labels fun _ measures => measures.same same

theorem opens (typed : Typed narrow p bottom (⟨frame, l, c :: rest⟩ :: below) s.toInterpreter) {new : Ctrl}
    {label : Label}
    (taken : Takes s.toInterpreter c d sp) (fresh : new.operands = [] ∧ new.unreachable = false)
    (there : l.At p.code pc (new :: d :: rest)) (leads : LabelFits p.code l label new (d :: rest))
    (height : label.stackDepth = sp)
    (arity : label.resultCount = new.labelTypes.length) (pushes : pushLabel label { s with pc, sp } = .ok () t) :
    Typed narrow p bottom (⟨frame, l, new :: d :: rest⟩ :: below) t.toInterpreter ∧ t.stack = s.stack := by
  obtain ⟨inside, rfl⟩ := pushLabel_ok.mp pushes
  obtain ⟨-, under⟩ := typed.innermost
  obtain ⟨live, stock⟩ := @takes _ _ _ _ _ _ _ _ _ _ _ _ _ pc typed taken
  have liveAll := typed.holds.live
  have labelled : s.labelDepth = frame.labelBase + (rest.length + 1) := typed.labelled
  have sum : sp = _ := stock.height
  have measures : Measures frame.stackDepth new (d :: rest) label := by
    refine ⟨?_, arity, leads.1⟩
    rw [height, sum, operandTypes_cons, List.length_append]
    omega
  have stock : Stock narrow frame l.context.locals (frame.stackDepth + (operandTypes rest).length) d.operands s
    { s with pc, sp, labels := Function.update s.labels ⟨s.labelDepth, inside⟩ label, labelDepth := s.labelDepth + 1 } :=
    { stock with }
  have kept : Piles (Measures frame.stackDepth) s.labels frame.labelBase (d :: rest) :=
    Piles.replace typed.holds.labels fun _ measures => measures.same taken.same
  refine ⟨typed.within stock under ?_ rfl there nofun ?_ ?_ ?_ (fun i low => at?_update.trans (if_neg ?_)) rfl, rfl⟩
  · rw [operandTypes_cons, operandTypes_cons, fresh.1, List.nil_append]
  · intro e member
    rcases List.mem_cons.mp member with rfl | deeper
    · exact fresh.2
    · rcases List.mem_cons.mp deeper with rfl | deepest
      · exact live
      · exact liveAll e (List.mem_cons_of_mem _ deepest)
  · show s.labelDepth + 1 = frame.labelBase + (rest.length + 1 + 1)
    omega
  · exact kept.push labelled measures
  · have low : i < frame.labelBase := low
    show i ≠ s.labelDepth
    omega

theorem resumes {gone outer : List Ctrl} {target e : Ctrl}
    (typed : Typed narrow p bottom (⟨frame, l, gone ++ target :: e :: outer⟩ :: below) s.toInterpreter)
    (stock : Stock narrow frame l.context.locals (frame.stackDepth + (operandTypes (e :: outer)).length)
      (target.results.reverse.map some) s t)
    (here : l.At p.code t.pc (resume target.results (e :: outer))) (frames : t.frames = s.frames)
    (depth : t.frameDepth = s.frameDepth) (labels : t.labels = s.labels)
    (labelDepth : t.labelDepth = frame.labelBase + (e :: outer).length) :
    Steps narrow p bottom (⟨frame, l, gone ++ target :: e :: outer⟩ :: below) s t := by
  have holds := typed.holds
  have whole : gone ++ target :: e :: outer = (gone ++ [target]) ++ e :: outer := by
    rw [List.append_assoc, List.singleton_append]
  have under : Carries (Fits narrow) s.stack frame.stackDepth (operandTypes (e :: outer)) := by
    have all := holds.operands
    simp only [whole] at all
    rw [operandTypes_append] at all
    exact Piles.outer all
  have kept : Piles (Measures frame.stackDepth) s.labels frame.labelBase (e :: outer) := by
    have all := holds.labels
    simp only [whole] at all
    exact Piles.outer all
  refine ⟨_, _, typed.within stock under operandTypes_resume frames here nofun ?_ labelDepth ?_ (fun i _ => by rw [labels]) depth,
    .within whole (List.nil_append _).symm ⟨rfl, rfl⟩ (.inr rfl), fun i low => stock.below i ?_⟩
  · intro d member
    rcases List.mem_cons.mp member with rfl | deeper
    · exact holds.live e (by simp)
    · exact holds.live d (by simp [deeper])
  · rw [labels]
    exact Piles.replace kept fun _ measures => measures.same ⟨rfl, rfl⟩
  · rw [operandTypes_cons, List.length_append]
    have low : i < frame.stackDepth + (operandTypes outer).length := low
    omega

end Typed

theorem tops_head {tops : List (Option Byte)} {types : List Byte} {others : List (Option Byte)}
    (admits : List.Forall₂ Admits tops types)
    (short : types.length ≤ 1) : ∀ type ∈ types, ∃ top ∈ (tops.reverse ++ others).head?, Admits top type := by
  intro type member
  match types, short, admits with
  | [_], _, .cons first .nil =>
    cases List.mem_singleton.mp member
    exact ⟨_, rfl, first⟩

theorem closed_head (live : c.unreachable = false) (closed : c.closed) (short : c.results.length ≤ 1) :
    ∀ type ∈ c.results, ∃ top ∈ c.operands.head?, Admits top type := by
  obtain ⟨tops, admits, operands⟩ := Ctrl.closed_live live closed
  have head := @tops_head _ _ [] admits short
  rwa [List.append_nil, ← operands] at head

theorem closed_length (live : c.unreachable = false) (closed : c.closed) : c.operands.length = c.results.length := by
  obtain ⟨tops, admits, operands⟩ := Ctrl.closed_live live closed
  rw [operands, List.length_reverse, admits.length_eq]

/-- The end of a construct lays its result where its operands began. -/
theorem Settles.lays {floor : Nat} {label : Label} {mid : Machine n σ} (settles : Settles label s mid)
    (measures : Measures floor c rest label) (height : s.sp = floor + (operandTypes rest).length + c.results.length)
    (loop : c.kind = .loop → c.results = []) :
    Lays label.stackDepth (s.passed c.results.length label.stackDepth) s mid := by
  have depth := measures.height
  have arity : label.resultCount = c.results.length := by
    rw [measures.arity, Ctrl.labelTypes]
    split
    · next isLoop => rw [loop isLoop]
    · rfl
  unfold Settles at settles
  split at settles
  · next wanted =>
    obtain ⟨val, there, lays⟩ := settles
    rwa [Interpreter.passed, if_pos ⟨arity ▸ wanted.2.1, wanted.2.2⟩, there]
  · next unwanted =>
    have none_ : c.results = [] := by
      by_contra some_
      have positive := List.length_pos_iff.mpr some_
      exact unwanted ⟨measures.isLoop.trans (decide_eq_false fun isLoop => some_ (loop isLoop)), by omega, by omega⟩
    rw [none_, List.length_nil] at height arity
    rw [if_neg (by omega)] at settles
    rw [none_, Interpreter.passed, if_neg (by simp)]
    show mid = { s with sp := label.stackDepth }
    rw [settles, depth]
    rw [Nat.add_zero] at height
    rw [← height]

namespace Typed

theorem closes {label : Label} {mid : Machine n σ} {q : Nat}
    (typed : Typed narrow p bottom (⟨frame, l, c :: rest⟩ :: below) s.toInterpreter) (closed : c.closed)
    (inner : rest ≠ [])
    (onTop : s.topmostLabel = some label)
    (lays : Lays label.stackDepth (s.passed c.results.length label.stackDepth) { s with pc } mid)
    (there : l.At p.code q (resume c.results rest)) :
    Steps narrow p bottom (⟨frame, l, c :: rest⟩ :: below) s { mid with labelDepth := mid.labelDepth - 1, pc := q } := by
  have live : c.unreachable = false := typed.holds.live c (List.mem_cons_self ..)
  have depth := (typed.topmost onTop).height
  have labelled : s.labelDepth = frame.labelBase + (rest.length + 1) := typed.labelled
  cases rest with
  | nil => exact absurd rfl inner
  | cons e outer =>
    have short := typed.here.short c (List.mem_cons_self ..) typed.here.rooted.1
    obtain ⟨stock, -⟩ := typed.innermost
    have stock : Stock narrow frame l.context.locals (frame.stackDepth + (operandTypes (e :: outer)).length) c.operands s
      { s with pc } := { stock with }
    rw [depth] at lays
    have laid := stock.delivers (closed_head live closed short) short (Nat.le_refl _) lays
    obtain ⟨stack, rfl⟩ := lays.shape
    refine @resumes _ _ _ _ _ _ _ _ _ _ [] outer c e typed { laid with } there rfl rfl rfl ?_
    show s.labelDepth - 1 = _
    rw [List.length_cons] at labelled ⊢
    omega

theorem ends {label : Label} {mid : Machine n σ}
    (typed : Typed narrow p bottom (⟨frame, l, c :: rest⟩ :: below) s.toInterpreter)
    (closed : c.closed) (inner : rest ≠ []) (loop : c.kind = .loop → c.results = []) (onTop : s.topmostLabel = some label)
    (settles : Settles label { s with pc } mid) (there : l.At p.code pc (resume c.results rest)) :
    Steps narrow p bottom (⟨frame, l, c :: rest⟩ :: below) s { mid with labelDepth := mid.labelDepth - 1 } := by
  have live : c.unreachable = false := typed.holds.live c (List.mem_cons_self ..)
  have height := typed.innermost.1.height
  rw [closed_length live closed] at height
  have lays := settles.lays (typed.topmost onTop) height loop
  obtain ⟨stack, sp, rfl⟩ := settles.shape
  exact typed.closes closed inner onTop lays there

/-- What a branch to the label of `target` finds: the result on top of operands that began at the label's height. -/
theorem aims {e target : Ctrl} {innermost outer : List Ctrl} {label : Label}
    (typed : Typed narrow p bottom (⟨frame, l, c :: rest⟩ :: below) s.toInterpreter)
    (taken : Takes s.toInterpreter c d sp)
    (popped : d.popAll target.labelTypes = some e) (whole : c :: rest = innermost ++ target :: outer) (inner : outer ≠ [])
    (kind : target.kind ≠ .loop) (there : s.labels.at? (frame.labelBase + outer.length) = some label) :
    label.stackDepth = frame.stackDepth + (operandTypes outer).length ∧ label.resultCount = target.results.length ∧
      target.results.length ≤ 1 ∧
      ∃ ts, Stock narrow frame l.context.locals (frame.stackDepth + (operandTypes outer).length) ts s { s with pc, sp } ∧
        ∀ type ∈ target.results, ∃ top ∈ ts.head?, Admits top type := by
  obtain ⟨stock, under⟩ := typed.innermost
  obtain ⟨live, stock⟩ := @takes _ _ _ _ _ _ _ _ _ _ _ _ _ pc typed taken
  obtain ⟨tops, admits, operands, -⟩ := Ctrl.popAll_live live popped
  have labels : Piles (Measures frame.stackDepth) s.labels frame.labelBase (c :: rest) := typed.holds.labels
  have rooted : Rooted (c :: rest) := typed.here.rooted
  have shorts := typed.here.short
  rw [whole] at labels rooted
  obtain ⟨label', there', measures⟩ := labels.entry
  cases there.symm.trans there'
  have short := shorts target (by simp [whole]) (rooted.inner inner)
  have labelTypes : target.labelTypes = target.results := if_neg kind
  have arity := measures.arity
  rw [labelTypes] at admits arity
  -- the operands above those outside the target
  obtain ⟨others, split⟩ :
    ∃ others, d.operands ++ operandTypes rest = (tops.reverse ++ others) ++ operandTypes outer := by
    cases innermost with
    | nil =>
      cases whole
      exact ⟨e.operands, by rw [operands]⟩
    | cons top innermost =>
      cases whole
      exact ⟨e.operands ++ (operandTypes innermost ++ target.operands), by simp [operands]⟩
  have flat := stock.whole under
  rw [split] at flat
  exact ⟨measures.height, arity, short, _, { flat.upper with }, tops_head admits short⟩

theorem breaks {depth : BitVec 32} {e target : Ctrl} {innermost outer : List Ctrl} {label : Label} {mid : Machine n σ}
    (typed : Typed narrow p bottom (⟨frame, l, c :: rest⟩ :: below) s.toInterpreter)
    (taken : Takes s.toInterpreter c d sp)
    (popped : d.popAll target.labelTypes = some e) (whole : c :: rest = innermost ++ target :: outer)
    (inside : innermost.length = depth.toNat) (inner : outer ≠ []) (kind : target.kind ≠ .loop)
    (there : s.labels.at? (frame.labelBase + outer.length) = some label)
    (lays : Lays label.stackDepth (({ s with sp } : Machine n σ).passed label.resultCount 0) { s with pc, sp } mid)
    (here : l.At p.code label.targetPc (resume target.results outer)) :
    Steps narrow p bottom (⟨frame, l, c :: rest⟩ :: below) s
      { mid with labelDepth := s.labelDepth - (depth.toNat + 1), pc := label.targetPc } := by
  obtain ⟨height, arity, short, ts, stock, takes⟩ := @aims _ _ _ _ _ _ _ _ _ _ _ _ _ pc _ _ _ _ _ typed taken popped whole
    inner kind there
  have labelled : s.labelDepth = frame.labelBase + (c :: rest).length := typed.labelled
  rw [height, arity] at lays
  have laid := stock.delivers takes short (Nat.zero_le _) lays
  obtain ⟨stack, rfl⟩ := lays.shape
  rw [whole] at typed labelled ⊢
  cases outer with
  | nil => exact absurd rfl inner
  | cons e' outer =>
    refine typed.resumes { laid with } here rfl rfl rfl ?_
    show s.labelDepth - (depth.toNat + 1) = _
    rw [List.length_append, List.length_cons] at labelled
    omega

end Typed

/-- The caller goes on, with the results it has waited for. -/
theorem FramesHold.returned {b : Activation} {results : List Byte} {returnPc stackDepth localsEnd labelEnd : Nat}
    (chain : FramesHold narrow p bottom s.toInterpreter (b :: below) results returnPc stackDepth localsEnd labelEnd)
    (height : t.sp = stackDepth + results.length)
    (operands : Carries (Fits narrow) t.stack stackDepth (results.reverse.map some))
    (low : ∀ i, i < stackDepth → t.stack.at? i = s.stack.at? i) (frames : t.frames = s.frames)
    (depth : t.frameDepth = bottom + (b :: below).length) (labels : t.labels = s.labels)
    (labelDepth : t.labelDepth = labelEnd)
    (locals : t.locals = s.locals) (pc : t.pc = returnPc) :
    Typed narrow p bottom ({ b with blocks := resume results b.blocks } :: below) t.toInterpreter := by
  obtain ⟨frame, l, blocks⟩ := b
  obtain ⟨there, here, caller, window, labelled, single, chain⟩ := chain
  have sum : stackDepth = frame.stackDepth + (operandTypes blocks).length := caller.height
  have found : t.frames.at? (bottom + below.length) = some frame := by
    rw [frames]
    exact there
  have running : t.running = some frame := by
    rw [List.length_cons] at depth
    unfold Interpreter.running
    rw [if_pos (by omega), show t.frameDepth - 1 = bottom + below.length by omega, found]
  cases blocks with
  | nil => exact absurd rfl caller.inside
  | cons e outer =>
    have goes : Activation.Holds narrow p t.toInterpreter ⟨frame, l, resume results (e :: outer)⟩ t.sp := {
      known := caller.known
      results := caller.results
      window := caller.window
      inside := nofun
      live := by
        intro x member
        rcases List.mem_cons.mp member with rfl | deeper
        · exact caller.live e (List.mem_cons_self ..)
        · exact caller.live x (List.mem_cons_of_mem _ deeper)
      labels := by
        rw [labels]
        exact Piles.replace caller.labels fun _ measures => measures.same ⟨rfl, rfl⟩
      height := by
        show _ = frame.stackDepth + (operandTypes (resume results (e :: outer))).length
        rw [operandTypes_resume, List.length_append, List.length_map, List.length_reverse, height, sum]
        omega
      operands := by
        show Carries _ _ _ (operandTypes (resume results (e :: outer)))
        rw [operandTypes_resume]
        rw [sum] at operands low
        exact Carries.append.mpr ⟨operands, Piles.congr caller.operands low⟩
      locals := by
        rw [locals]
        exact caller.locals }
    refine ⟨depth, found, ?_, goes, ?_, labelDepth.trans labelled, single, ?_⟩
    · rwa [resume_nil, pc]
    · rw [nextLocal_eq running]
    · refine chain.congr (fun i _ => by rw [frames]) (fun i _ => by rw [labels]) (fun i less => low i ?_)
        fun i _ => by rw [locals]
      exact Nat.lt_of_lt_of_le less (by rw [sum]; exact Nat.le_add_right _ _)

namespace Typed

theorem leaves {mid : Machine n σ} (typed : Typed narrow p bottom (⟨frame, l, c :: rest⟩ :: below) s.toInterpreter)
    (popped : c.popAll l.context.results = some d)
    (lays : Lays frame.stackDepth (s.passed frame.resultCount 0) { s with pc } mid) :
    Steps narrow p bottom (⟨frame, l, c :: rest⟩ :: below) s
      { mid with labelDepth := frame.labelBase, frameDepth := s.frameDepth - 1, pc := frame.returnPc } := by
  have low := lays.below
  have holds := typed.holds
  have live : c.unreachable = false := holds.live c (List.mem_cons_self ..)
  have whole : Stock narrow frame l.context.locals frame.stackDepth (operandTypes (c :: rest)) s { s with pc } :=
    { typed.stock with }
  obtain ⟨depth, -, -, -, -, -, single, chain⟩ := typed
  have fewer : s.frameDepth - 1 = bottom + below.length := by
    rw [depth]
    rfl
  cases below with
  | nil => exact ⟨[], _, ⟨fewer, trivial⟩, .exits, low⟩
  | cons b below =>
    have short : l.context.results.length ≤ 1 := single nofun
    obtain ⟨tops, admits, operands, -⟩ := Ctrl.popAll_live live popped
    have results : frame.resultCount = l.context.results.length := holds.results
    rw [operandTypes_cons, operands, List.append_assoc] at whole
    rw [results] at lays
    have laid := whole.delivers (tops_head admits short) short (Nat.zero_le _) lays
    have height := laid.height
    rw [List.length_map, List.length_reverse] at height
    obtain ⟨stack, rfl⟩ := lays.shape
    exact ⟨_, _, chain.returned height laid.operands low rfl fewer rfl rfl rfl rfl, .leaves, low⟩

end Typed

/-- The arguments and the other locals get words of their types. -/
theorem Entered.locals_fit {funcIdx : BitVec 32} {returnPc : Nat} {e : Entry} (entered : Entered p funcIdx returnPc e s t)
    (few : e.funcType.paramCount ≤ 8) {declared : List Byte}
    (length : declared.length = e.localCount - e.funcType.paramCount)
    (args : narrow → Carries (Fits narrow) s.stack (e.stackDepth s.toInterpreter) (e.funcType.paramTypes.reverse.map some)) :
    LocalsFit narrow (e.funcType.paramTypes ++ declared) s.nextLocal e.locals := by
  intro k type word known there asked
  have params := paramTypes_length few
  have supplied := entered.supplied
  obtain ⟨inside, rfl⟩ := at?_eq_some.mp there
  revert asked
  rcases Nat.lt_or_ge k e.funcType.paramCount with low | high
  · rw [List.getElem?_append_left (by omega)] at known
    have known : (e.funcType.paramTypes.map some)[k]? = some (some type) := by rw [List.getElem?_map, known]; rfl
    intro asked
    have carried := args asked
    rw [List.map_reverse, ← List.append_nil (List.reverse _)] at carried
    obtain ⟨word, found, fits⟩ := Carries.pushed carried known
    obtain ⟨within, rfl⟩ := at?_eq_some.mp found
    rw [entered.binds.args _ ⟨_, within⟩ k low rfl rfl]
    exact fits asked
  · obtain ⟨below, -⟩ := List.getElem?_eq_some_iff.mp known
    rw [List.length_append] at below
    rw [entered.binds.zeros _ k high (by omega) rfl]
    exact fits_small (by decide)

theorem resultTypes_length {type : FuncType} (few : type.resultCount ≤ 4) :
    type.resultTypes.length = type.resultCount := by
  rw [FuncType.resultTypes, List.length_take, List.length_ofFn]
  exact Nat.min_eq_left few

theorem FramesHold.entered {acts : List Activation} {funcIdx : BitVec 32} {returnPc : Nat} {e : Entry}
    (chain : FramesHold narrow p bottom s.toInterpreter acts e.funcType.resultTypes returnPc (e.stackDepth s.toInterpreter) s.nextLocal
      s.labelDepth)
    (depth : s.frameDepth = bottom + acts.length) (entered : Entered p funcIdx returnPc e s t) (fitting : p.Fitting)
    (single : acts ≠ [] → e.funcType.resultCount ≤ 1)
    (args : narrow → Carries (Fits narrow) s.stack (e.stackDepth s.toInterpreter) (e.funcType.paramTypes.reverse.map some)) :
    ∃ l, p.listing funcIdx = some l ∧ l.context.results = e.funcType.resultTypes ∧ Typed narrow p bottom
      (⟨e.frame funcIdx returnPc s.toInterpreter, l, [{ kind := .function, results := l.context.results }]⟩ :: acts)
      t.toInterpreter := by
  obtain ⟨declared, length, listing⟩ := entered.listing
  obtain ⟨few, few'⟩ := fitting funcIdx e.funcType entered.signature
  have results := resultTypes_length few'
  have locals := entered.locals_fit few length args
  have params := entered.params
  have window := paramTypes_length few
  obtain ⟨frameRoom, labelRoom, -, -, -, -, -, -, binds, rfl⟩ := entered
  have running : (({ s with
      pc := e.pc
      sp := e.stackDepth s.toInterpreter
      frames := Function.update s.frames ⟨s.frameDepth, frameRoom⟩ (e.frame funcIdx returnPc s.toInterpreter)
      frameDepth := s.frameDepth + 1
      locals := e.locals
      labels := Function.update s.labels ⟨s.labelDepth, labelRoom⟩ (e.label s.toInterpreter)
      labelDepth := s.labelDepth + 1 } : Machine n σ)).running = some (e.frame funcIdx returnPc s.toInterpreter) := by
    unfold Interpreter.running
    rw [if_pos (Nat.succ_pos _)]
    exact at?_update.trans (if_pos rfl)
  refine ⟨_, listing, rfl, by rw [List.length_cons, ← Nat.add_assoc, ← depth], ?_, ?_, ?_, ?_, rfl, ?_, ?_⟩
  · rw [← depth]
    exact at?_update.trans (if_pos rfl)
  · exact .refl
  · exact {
      known := listing
      results := results.symm
      window := by
        show e.localCount = (e.funcType.paramTypes ++ declared).length
        rw [List.length_append]
        omega
      inside := nofun
      live := by simp
      labels := by
        refine ⟨⟨e.label s.toInterpreter, at?_update.trans (if_pos rfl), rfl, results.symm, rfl⟩, trivial⟩
      height := rfl
      operands := trivial
      locals := locals }
  · exact Nat.le_of_eq (nextLocal_eq running).symm
  · intro below
    show e.funcType.resultTypes.length ≤ 1
    rw [results]
    exact single below
  · refine chain.congr (fun i less => at?_update.trans (if_neg ?_))
      (fun i less => at?_update.trans (if_neg (Nat.ne_of_lt less)))
      (fun i _ => rfl) fun i less => ?_
    · show i ≠ s.frameDepth
      omega
    · have less : i < s.nextLocal := less
      by_cases inside : i < maxLocals * maxCallDepth
      · show e.locals.at? i = s.locals.at? i
        rw [at?_inside inside, at?_inside inside, binds.below ⟨i, inside⟩ less]
      · show e.locals.at? i = s.locals.at? i
        rw [at?, at?, dif_neg inside, dif_neg inside]

theorem listing_signature {funcIdx : BitVec 32} (known : p.listing funcIdx = some l) :
    l.context.signature = p.signature := by
  obtain ⟨type, -, rest⟩ := Option.bind_eq_some_iff.mp known
  obtain ⟨body, -, rest⟩ := Option.bind_eq_some_iff.mp rest
  split at rest
  · cases rest
    rfl
  · cases rest

theorem listing_results {funcIdx : BitVec 32} {type : FuncType} (known : p.listing funcIdx = some l)
    (signature : p.signature funcIdx = some type) : l.context.results = type.resultTypes := by
  obtain ⟨type', signature', rest⟩ := Option.bind_eq_some_iff.mp known
  cases signature.symm.trans signature'
  obtain ⟨body, -, rest⟩ := Option.bind_eq_some_iff.mp rest
  split at rest
  · cases rest
    rfl
  · cases rest

namespace Typed

theorem enters {target : BitVec 32} {e : Entry}
    (typed : Typed narrow p bottom (⟨frame, l, c :: rest⟩ :: below) s.toInterpreter)
    (checked : checkFlat l.context (c :: rest) c (.call target) = some d) (there : l.At p.code pc (d :: rest))
    (entered : Entered p target pc e { s with pc } t) (fitting : p.Fitting) (single : e.funcType.resultCount ≤ 1) :
    Steps narrow p bottom (⟨frame, l, c :: rest⟩ :: below) s t := by
  have holds := typed.holds
  have live : c.unreachable = false := holds.live c (List.mem_cons_self ..)
  obtain ⟨type, known, checked⟩ := Option.bind_eq_some_iff.mp checked
  obtain ⟨d', popped, same⟩ := Option.bind_eq_some_iff.mp checked
  cases same
  rw [listing_signature holds.known, entered.signature] at known
  cases known
  obtain ⟨few, -⟩ := fitting target e.funcType entered.signature
  obtain ⟨tops, admits, operands, live'⟩ := Ctrl.popAll_live live popped
  have same : c.Same d' := Ctrl.stays_popAll _ d' popped
  have params := paramTypes_length few
  have running := typed.running
  -- the caller without the arguments
  have flat := typed.stock
  simp only [operandTypes_cons, operands, List.append_assoc] at flat
  have sum := flat.height
  rw [List.length_append, List.length_reverse, admits.length_eq, params] at sum
  have arguments := (flat.retype admits).operands
  obtain ⟨arguments, kept⟩ := Carries.append.mp arguments
  have bottom_ : e.stackDepth s.toInterpreter = frame.stackDepth + (d'.operands ++ operandTypes rest).length := by
    unfold Entry.stackDepth
    omega
  have caller : Activation.Holds narrow p s.toInterpreter ⟨frame, l, d' :: rest⟩ (e.stackDepth s.toInterpreter) := {
    known := holds.known
    results := holds.results
    window := holds.window
    inside := nofun
    live := by
      intro x member
      rcases List.mem_cons.mp member with rfl | deeper
      · exact live'
      · exact holds.live x (List.mem_cons_of_mem _ deeper)
    labels := Piles.replace holds.labels fun _ measures => measures.same same
    height := by
      show _ = frame.stackDepth + (operandTypes (d' :: rest)).length
      rw [bottom_, operandTypes_cons]
    operands := by
      show Carries _ _ _ (operandTypes (d' :: rest))
      rw [operandTypes_cons]
      exact kept
    locals := holds.locals }
  obtain ⟨depth, found, -, -, window, labelled, one, chain⟩ := typed
  have chained : FramesHold narrow p bottom ({ s with pc } : Machine n σ).toInterpreter (⟨frame, l, d' :: rest⟩ :: below)
      e.funcType.resultTypes pc (e.stackDepth s.toInterpreter) s.nextLocal s.labelDepth :=
    ⟨found, there, caller.congr (fun _ _ => rfl) (fun _ _ => rfl) fun _ _ => rfl, window, labelled, one,
      chain.congr (fun _ _ => rfl) (fun _ _ => rfl) (fun _ _ => rfl) fun _ _ => rfl⟩
  obtain ⟨l', -, -, typed⟩ :=
    @FramesHold.entered _ _ _ _ _ ({ s with pc } : Machine n σ) _ _ _ _ _ chained depth entered fitting
    (fun _ => single) fun _ => by
      show Carries _ s.stack (e.stackDepth s.toInterpreter) _
      rw [bottom_]
      exact arguments
  refine ⟨_, _, typed, .enters rfl same, fun i _ => ?_⟩
  rw [entered.state]

end Typed

theorem Typed.top {acts : List Activation} (typed : Typed narrow p bottom acts s.toInterpreter)
    (nested : Nested p bottom s.toInterpreter) (inside : bottom < s.frameDepth) :
    ∃ frame l c rest below count, acts = ⟨frame, l, c :: rest⟩ :: below ∧
      Top p bottom count s.toInterpreter frame l c rest := by
  obtain ⟨count, frame, l, c, rest, top⟩ := nested.top inside
  cases acts with
  | nil =>
    have depth := typed.1
    rw [List.length_nil] at depth
    omega
  | cons a below =>
    obtain ⟨frame', l', blocks⟩ := a
    cases top.running.symm.trans typed.running
    cases top.encloses.known.symm.trans typed.holds.known
    cases typed.here.unique top.encloses.here
    exact ⟨_, _, c, rest, below, count, rfl, top⟩

theorem Typed.transition {blocks : List Ctrl}
    (typed : Typed narrow p bottom (⟨frame, l, blocks⟩ :: below) s.toInterpreter)
    (nested : Nested p bottom s.toInterpreter) (plain : Plain p s.toInterpreter) (next : Next p h s t) :
    ∃ c rest, blocks = c :: rest ∧ Transition p h frame l c rest s t := by
  have depth := typed.1
  rw [List.length_cons] at depth
  obtain ⟨frame', l', c, rest, below', count, same, top⟩ := typed.top nested (by omega)
  cases same
  exact ⟨c, rest, rfl, top.transition plain next⟩

theorem typed_step {acts : List Activation} (nested : Nested p bottom s.toInterpreter)
    (typed : Typed narrow p bottom acts s.toInterpreter) (inside : bottom < s.frameDepth) (fitting : p.Fitting)
    (regular : Regular narrow p h s) (next : Next p h s t) : Steps narrow p bottom acts s t := by
  obtain ⟨frame, l, c, rest, below, count, rfl, top⟩ := typed.top nested inside
  have transition := top.transition regular.toPlain next
  have live : c.unreachable = false := typed.holds.live c (List.mem_cons_self ..)
  obtain ⟨stock, -⟩ := typed.innermost
  cases transition with
  | @computes instr d pc _ known simple checked there does =>
    have asks : instr.Asks narrow p h ({ s with pc } : Machine n σ) := regular.asks instr known
    have stock : Stock narrow frame l.context.locals (frame.stackDepth + (operandTypes rest).length) c.operands s
      ({ s with pc } : Machine n σ) := { stock with }
    obtain ⟨live', stock'⟩ := stock.execSimple live simple (listing_signature typed.holds.known) checked asks does
    obtain ⟨stack, sp, locals, memory, host, rfl⟩ := moves_ok (values_execSimple simple) does
    exact typed.stays (Ctrl.stays_checkFlat _ _ _ _ _ checked) live' stock' there rfl rfl rfl rfl
  | @passes depth d word pc known checked there cond zero =>
    have same := Ctrl.stays_checkFlat _ _ _ _ _ checked
    obtain ⟨d', first, checked⟩ := Option.bind_eq_some_iff.mp checked
    obtain ⟨target, -, checked⟩ := Option.bind_eq_some_iff.mp checked
    obtain ⟨e, popped, checked⟩ := Option.bind_eq_some_iff.mp checked
    cases checked
    obtain ⟨live', taken⟩ := @Typed.takes _ _ _ _ _ _ _ _ _ _ _ _ _ pc typed (.condition first cond)
    obtain ⟨tops, admits, operands, live''⟩ := Ctrl.popAll_live live' popped
    rw [operands] at taken
    exact typed.stays same live'' (taken.retype admits) there rfl rfl rfl rfl
  | opens _ _ _ fresh _ taken _ there leads height arity pushes =>
    obtain ⟨typed', stack⟩ := typed.opens taken fresh there leads height arity pushes
    exact ⟨_, _, typed', .within (List.nil_append _).symm List.singleton_append.symm taken.same (.inl rfl),
      fun i _ => by rw [stack]⟩
  | @skips _ _ _ pc _ popped cond _ there =>
    obtain ⟨live', taken⟩ := @Typed.takes _ _ _ _ _ _ _ _ _ _ _ _ _ pc typed (.condition popped cond)
    exact typed.stays (Ctrl.stays_pop _ _ popped) live' taken there rfl rfl rfl rfl
  | ends known closed inner onTop settles there =>
    have loop := regular.loopEnd known frame l c rest typed.running typed.holds.known typed.here
    exact typed.ends closed inner loop onTop settles there
  | switches known kind closed inner onTop lays there =>
    have arity := (typed.topmost onTop).arity
    rw [Ctrl.labelTypes, if_neg (by rw [kind]; nofun)] at arity
    rw [arity] at lays
    exact typed.closes closed inner onTop lays there
  | continues branches innermost kind taken onTop there =>
    have same : c.Same { kind := .loop, results := c.results } := ⟨kind.symm, rfl⟩
    refine typed.stays same rfl { stock with height := ?_, operands := trivial } there rfl rfl rfl rfl
    exact (typed.topmost onTop).height
  | breaks _ taken popped whole inside' inner kind there lays here =>
    exact typed.breaks taken popped whole inside' inner kind there lays here
  | leaves _ popped _ lays => exact typed.leaves popped lays
  | enters known valid checked there entered =>
    have own := entered.local_
    exact typed.enters checked there entered fitting (regular.single _ _ known own entered.signature)

end Steps

end GooseOs.Wasm
