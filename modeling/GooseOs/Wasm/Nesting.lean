import GooseOs.Wasm.Operations
import GooseOs.Wasm.Frames
import GooseOs.Wasm.Reuse

/-!
The label stack against the constructs of the text. Every running function has one label for each construct that
is open where it stands, and each label leads where validation says.
-/

namespace GooseOs.Wasm

open FixedArray

variable {n : Nat} {σ α : Type} {p : Program} {h : HostFunctions n σ} {s t : Machine n σ} {code : List Byte} {l : Listing}

/-! ### Labels of open constructs -/

/-- The label leads behind the end of the construct `c` inside `rest`, that of a loop to the start of its body. -/
def LabelFits (code : List Byte) (l : Listing) (label : Label) (c : Ctrl) (rest : List Ctrl) : Prop :=
  label.isLoop = decide (c.kind = .loop) ∧ l.At code label.targetPc
    (if c.kind = .loop then { kind := .loop, results := c.results } :: rest else resume c.results rest)

/-- The labels from `base` on are those of the open constructs, the innermost last. -/
def LabelsFit (code : List Byte) (l : Listing) (labels : FixedArray maxLabels Label) (base : Nat) : List Ctrl → Prop
  | [] => True
  | c :: rest => (∃ label, labels.at? (base + rest.length) = some label ∧ LabelFits code l label c rest) ∧
      LabelsFit code l labels base rest

section Labels
variable {labels labels' : FixedArray maxLabels Label} {base : Nat} {c d : Ctrl} {blocks inner rest : List Ctrl}

theorem LabelFits.same {label : Label} (fits : LabelFits code l label c rest) (same : c.Same d) :
    LabelFits code l label d rest := by
  obtain ⟨kind, results⟩ := same
  rwa [LabelFits, kind, results]

theorem LabelsFit.congr (fits : LabelsFit code l labels base blocks)
    (same : ∀ i, i < base + blocks.length → labels'.at? i = labels.at? i) : LabelsFit code l labels' base blocks := by
  induction blocks with
  | nil => trivial
  | cons c rest ih =>
    obtain ⟨⟨label, there, leads⟩, others⟩ := fits
    rw [List.length_cons] at same
    refine ⟨⟨label, ?_, leads⟩, ih others fun i below => same i (by omega)⟩
    rw [same _ (by omega), there]

theorem LabelsFit.same (fits : LabelsFit code l labels base (c :: rest)) (same : c.Same d) :
    LabelsFit code l labels base (d :: rest) := by
  obtain ⟨⟨label, there, leads⟩, others⟩ := fits
  exact ⟨⟨label, there, leads.same same⟩, others⟩

theorem LabelsFit.outer (fits : LabelsFit code l labels base (inner ++ blocks)) : LabelsFit code l labels base blocks := by
  induction inner with
  | nil => exact fits
  | cons c inner ih => exact ih fits.2

theorem LabelsFit.push {label : Label} {place : Fin maxLabels} (fits : LabelsFit code l labels base rest)
    (at_ : place.val = base + rest.length) (leads : LabelFits code l label c rest) :
    LabelsFit code l (Function.update labels place label) base (c :: rest) := by
  refine ⟨⟨label, by rw [at?_update, if_pos at_.symm], leads⟩, fits.congr fun i below => ?_⟩
  rw [at?_update, if_neg (by omega)]

end Labels

/-! ### Running functions -/

/-- A function stands at `pc`, its labels end at `labelEnd`. -/
structure Encloses (p : Program) (labels : FixedArray maxLabels Label) (frame : CallFrame) (pc labelEnd : Nat) (l : Listing)
    (c : Ctrl) (rest : List Ctrl) : Prop where
  known : p.listing frame.funcIdx = some l
  valid : l.Valid p.code
  here : l.At p.code pc (c :: rest)
  height : labelEnd = frame.labelBase + (c :: rest).length
  labels : LabelsFit p.code l labels frame.labelBase (c :: rest)

/-- The topmost `count` frames above `bottom`, the last of which stands at `pc`. -/
def FramesNest (p : Program) (frames : FixedArray maxCallDepth CallFrame) (labels : FixedArray maxLabels Label) (bottom : Nat) :
    (count pc labelEnd : Nat) → Prop
  | 0, _, _ => True
  | count + 1, pc, labelEnd => ∃ frame l c rest, frames.at? (bottom + count) = some frame ∧
      Encloses p labels frame pc labelEnd l c rest ∧ FramesNest p frames labels bottom count frame.returnPc frame.labelBase

/-- The functions above `bottom` are enclosed as their labels say. -/
def Nested (p : Program) (bottom : Nat) (s : Interpreter) : Prop :=
  ∃ count, s.frameDepth = bottom + count ∧ FramesNest p s.frames s.labels bottom count s.pc s.labelDepth

theorem FramesNest.congr {frames frames' : FixedArray maxCallDepth CallFrame} {labels labels' : FixedArray maxLabels Label}
    {bottom count pc labelEnd : Nat} (nest : FramesNest p frames labels bottom count pc labelEnd)
    (same : ∀ i, i < bottom + count → frames'.at? i = frames.at? i)
    (same' : ∀ i, i < labelEnd → labels'.at? i = labels.at? i) :
    FramesNest p frames' labels' bottom count pc labelEnd := by
  induction count generalizing pc labelEnd with
  | zero => trivial
  | succ count ih =>
    obtain ⟨frame, l, c, rest, there, encloses, below⟩ := nest
    have height := encloses.height
    refine ⟨frame, l, c, rest, ?_, { encloses with labels := encloses.labels.congr fun i less => same' i (by omega) }, ?_⟩
    · rw [same _ (by omega), there]
    · exact ih below (fun i less => same i (by omega)) fun i less => same' i (by omega)

/-- The topmost function, with the functions it was called from. -/
structure Top (p : Program) (bottom count : Nat) (s : Interpreter) (frame : CallFrame) (l : Listing) (c : Ctrl)
    (rest : List Ctrl) : Prop where
  depth : s.frameDepth = bottom + count + 1
  running : s.running = some frame
  encloses : Encloses p s.labels frame s.pc s.labelDepth l c rest
  below : FramesNest p s.frames s.labels bottom count frame.returnPc frame.labelBase

theorem Nested.top {bottom : Nat} {s : Interpreter} (nested : Nested p bottom s) (inside : bottom < s.frameDepth) :
    ∃ count frame l c rest, Top p bottom count s frame l c rest := by
  obtain ⟨count, depth, nest⟩ := nested
  cases count with
  | zero => omega
  | succ count =>
    obtain ⟨frame, l, c, rest, there, encloses, below⟩ := nest
    refine ⟨count, frame, l, c, rest, depth, ?_, encloses, below⟩
    unfold Interpreter.running
    rw [if_pos (by omega), show s.frameDepth - 1 = bottom + count by omega, there]

namespace Top
variable {bottom count : Nat} {frame : CallFrame} {c d : Ctrl} {rest blocks : List Ctrl}

theorem at_top {s : Interpreter} (top : Top p bottom count s frame l c rest) : s.frames.at? (bottom + count) = some frame := by
  have running := top.running
  have depth := top.depth
  unfold Interpreter.running at running
  rwa [if_pos (by omega), show s.frameDepth - 1 = bottom + count by omega] at running

/-- The topmost function goes on: the frames stay, and so do the labels of the others. -/
theorem moves (top : Top p bottom count s.toInterpreter frame l c rest) (frames : t.frames = s.frames)
    (depth : t.frameDepth = s.frameDepth) (same : ∀ i, i < frame.labelBase → t.labels.at? i = s.labels.at? i) {c' : Ctrl}
    {rest' : List Ctrl} (here : l.At p.code t.pc (c' :: rest')) (height : t.labelDepth = frame.labelBase + (c' :: rest').length)
    (labels : LabelsFit p.code l t.labels frame.labelBase (c' :: rest')) : Nested p bottom t.toInterpreter := by
  refine ⟨count + 1, by rw [depth, top.depth]; rfl, frame, l, c', rest', ?_,
    ⟨top.encloses.known, top.encloses.valid, here, height, labels⟩, ?_⟩
  · rw [frames]
    exact top.at_top
  · exact top.below.congr (fun i _ => by rw [frames]) same

/-- The topmost function is left. -/
theorem leaves (top : Top p bottom count s.toInterpreter frame l c rest) {mid : Machine n σ}
    (frames : mid.frames = s.frames) (labels : mid.labels = s.labels) :
    Nested p bottom ({ mid with labelDepth := frame.labelBase, frameDepth := s.frameDepth - 1, pc := frame.returnPc } :
      Machine n σ).toInterpreter := by
  refine ⟨count, by show s.frameDepth - 1 = _; rw [top.depth]; rfl, ?_⟩
  exact top.below.congr (fun i _ => by rw [frames]) fun i _ => by rw [labels]

end Top

/-! ### Instructions that only compute -/

/-- Program counter, frames and labels are as before. -/
def OnValues (s t : Machine n σ) : Prop :=
  ∃ stack sp locals memory host, t = { s with stack, sp, locals, memory, host }

instance : IsPreorder (Machine n σ) OnValues where
  refl s := ⟨s.stack, s.sp, s.locals, s.memory, s.host, rfl⟩
  trans := by
    rintro s _ _ ⟨_, _, _, _, _, rfl⟩ ⟨_, _, _, _, _, rfl⟩
    exact ⟨_, _, _, _, _, rfl⟩

theorem OnData.values (moved : OnData s t) : OnValues s t := by
  obtain ⟨stack, sp, memory, host, rfl⟩ := moved
  exact ⟨stack, sp, s.locals, memory, host, rfl⟩

/-- The instructions after which the next one is executed, calls of local functions apart. -/
def Instr.isSimple (p : Program) : Instr → Bool
  | .block _ | .loop _ | .ifOp _ | .elseOp | .endOp | .br _ | .brIf _ | .returnOp => false
  | .call target => target < p.numImports
  | _ => true

section Values

theorem values_stack {x : Exec n σ α} (moves : Moves OnStack x) : Moves OnValues x :=
  moves.mono fun _ _ moved => moved.data.values

theorem values_memory {x : Exec n σ α} (moves : Moves OnMemory x) : Moves OnValues x :=
  moves.mono fun _ _ moved => moved.data.values

theorem values_localSlot (idx : BitVec 32) : Moves OnValues (localSlot idx : Exec n σ Nat) :=
  Moves.get.bind fun _ => Moves.failIf.bind fun _ => (Moves.get.bind fun _ => Moves.minus.bind fun _ => Moves.load).bind
    fun _ => Moves.plus.bind fun _ => Moves.failIf.bind fun _ => Moves.pure _

theorem values_localGet (idx : BitVec 32) : Moves OnValues (localGet idx : Exec n σ Word) :=
  (values_localSlot idx).bind fun _ => Moves.get.bind fun _ => Moves.load

theorem values_localSet (idx : BitVec 32) (val : Word) : Moves OnValues (localSet idx val : Exec n σ Unit) := by
  apply (values_localSlot idx).bind
  intro abs s
  rw [wp_bind, wp_get, wp_bind, wp_store]
  split
  · exact ⟨_, _, _, _, _, rfl⟩
  · exact refl_of OnValues s

theorem values_execSimple {instr : Instr} (simple : instr.isSimple p) : Moves OnValues (execSimple p h instr) := by
  cases instr with
  | block | loop | ifOp | elseOp | endOp | br | brIf | returnOp => cases simple
  | call target =>
    rw [execSimple, execCall, if_pos (of_decide_eq_true simple)]
    exact (moves_callHost p h target).mono fun _ _ moved => moved.values
  | drop => exact (values_stack moves_pop).bind fun _ => Moves.pure ()
  | select => exact values_stack moves_execSelect
  | localGet idx => exact (values_localGet idx).bind fun _ => values_stack (moves_push _)
  | localSet idx => exact (values_stack moves_pop).bind fun val => values_localSet idx val
  | localTee idx =>
    exact Moves.get.bind fun _ => Moves.failIf.bind fun _ => (values_stack moves_top).bind fun _ => values_localSet idx _
  | load op align offset =>
    exact (values_stack moves_popU32).bind fun addr => (moves_fetch op addr offset).bind fun _ =>
      values_stack (moves_push _)
  | store op align offset =>
    exact (values_stack moves_pop).bind fun val => (values_stack moves_popU32).bind fun addr =>
      values_memory (moves_write op addr offset val)
  | memorySize => exact values_stack (moves_push _)
  | memoryGrow => exact (values_stack moves_popU32).bind fun _ => values_stack (moves_push _)
  | i32Const val => exact values_stack (moves_push _)
  | i64Const val => exact values_stack (moves_push _)
  | numeric op => exact values_stack (moves_execNumeric op)
  | unreachable => exact Moves.fail _
  | unknown opcode => exact Moves.fail _
  | nop => exact Moves.pure _

end Values

/-! ### Steps -/

/-- The instruction at `pc` is a branch of this depth that is taken. -/
def Program.Branches (p : Program) (s : Interpreter) (depth : BitVec 32) : Prop :=
  p.instrAt s.pc = some (.br depth) ∨
    p.instrAt s.pc = some (.brIf depth) ∧ ∃ word ∈ s.operand 0, Meaning.low word ≠ 0

/-- A taken branch to a loop goes to the innermost construct, none goes to the function's own label, and the
functions called are valid. -/
structure Plain (p : Program) (s : Interpreter) : Prop where
  loop : ∀ depth, p.Branches s depth → ∀ label ∈ s.branchTarget depth, label.isLoop → depth = 0
  inner : ∀ depth, p.Branches s depth → ∀ frame ∈ s.running, s.labelDepth ≠ frame.labelBase + 1 + depth.toNat
  callee : ∀ target, p.instrAt s.pc = some (.call target) → ¬ target < p.numImports → p.ValidBody target

theorem blockTypes_length {blockType : Byte} {results : List Byte} (known : blockTypes blockType = some results) :
    blockResults blockType = results.length := by
  unfold blockTypes at known
  unfold blockResults
  split at known
  · next empty =>
    cases known
    rw [if_pos empty]
    rfl
  · next other =>
    rw [if_neg other]
    split at known
    · cases known
      rfl
    · cases known

section Steps
variable {bottom count : Nat} {frame : CallFrame} {c d : Ctrl} {rest blocks : List Ctrl} {pc : Nat}

/-- The machine once it has read the instruction: still at the top, the pass is one instruction further. -/
theorem Top.reads {instr : Instr} (top : Top p bottom count s.toInterpreter frame l c rest)
    (fetched : Reader.fetch p.code s.pc = .ok instr pc) :
    ∃ blocks, check l.context instr (c :: rest) = some blocks ∧ l.At p.code pc blocks := by
  obtain ⟨instr', next, blocks, fetched', checked, there⟩ := top.encloses.here.next top.encloses.valid
  cases fetched.symm.trans fetched'
  exact ⟨blocks, checked, there⟩

theorem Top.opens (top : Top p bottom count s.toInterpreter frame l c rest) {label : Label} {new : Ctrl} {sp : Nat}
    (pushes : pushLabel label { s with sp, pc } = .ok () t) (here : l.At p.code pc (new :: d :: rest)) (same : c.Same d)
    (leads : LabelFits p.code l label new (d :: rest)) : Nested p bottom t.toInterpreter := by
  obtain ⟨inside, rfl⟩ := pushLabel_ok.mp pushes
  have height := top.encloses.height
  rw [List.length_cons] at height
  refine top.moves rfl rfl (fun i below => at?_update.trans (if_neg ?_)) here ?_ ?_
  · show i ≠ s.labelDepth
    omega
  · show s.labelDepth + 1 = frame.labelBase + (rest.length + 1 + 1)
    omega
  · exact (top.encloses.labels.same same).push height leads

/-- The innermost construct is left for what validation has behind it. -/
theorem Top.resumes (top : Top p bottom count s.toInterpreter frame l c rest) {mid : Machine n σ} (nonempty : rest ≠ [])
    (frames : mid.frames = s.frames) (depth : mid.frameDepth = s.frameDepth) (labels : mid.labels = s.labels)
    (height : mid.labelDepth = s.labelDepth - 1) (here : l.At p.code mid.pc (resume c.results rest)) :
    Nested p bottom mid.toInterpreter := by
  cases rest with
  | nil => exact absurd rfl nonempty
  | cons d outer =>
    have whole := top.encloses.height
    refine top.moves frames depth (fun i _ => by rw [labels]) here ?_ ?_
    · rw [height, whole]
      simp only [List.length_cons]
      omega
    · rw [labels]
      exact top.encloses.labels.2.same ⟨rfl, rfl⟩

theorem LabelsFit.label {labels : FixedArray maxLabels Label} {base : Nat} {inner : List Ctrl}
    (fits : LabelsFit code l labels base (inner ++ c :: rest)) :
    ∃ label, labels.at? (base + rest.length) = some label ∧ LabelFits code l label c rest := fits.outer.1

theorem Top.label (top : Top p bottom count s.toInterpreter frame l c rest) :
    ∃ label, s.topmostLabel = some label ∧ LabelFits p.code l label c rest := by
  obtain ⟨⟨label, there, leads⟩, -⟩ := top.encloses.labels
  have height := top.encloses.height
  rw [List.length_cons] at height
  refine ⟨label, ?_, leads⟩
  unfold Interpreter.topmostLabel
  rw [if_pos (by omega), show s.labelDepth - 1 = frame.labelBase + rest.length by omega, there]

theorem FramesNest.entered {funcIdx : BitVec 32} {returnPc : Nat} {e : Entry}
    (below : FramesNest p s.frames s.labels bottom count returnPc s.labelDepth) (depth : s.frameDepth = bottom + count)
    (entered : Entered p funcIdx returnPc e s t) (valid : p.ValidBody funcIdx) : Nested p bottom t.toInterpreter := by
  obtain ⟨declared, -, listing⟩ := entered.listing
  obtain ⟨l, known, passes⟩ := valid
  obtain rfl := Option.some.inj (known.symm.trans listing)
  obtain ⟨frameRoom, labelRoom, -, -, -, -, -, -, -, rfl⟩ := entered
  refine ⟨count + 1, by show s.frameDepth + 1 = _; rw [depth]; rfl, e.frame funcIdx returnPc s.toInterpreter, _,
    { kind := .function, results := _ }, [], ?_, ⟨listing, passes, .refl, rfl, ?_⟩, ?_⟩
  · rw [← depth]
    exact at?_update.trans (if_pos rfl)
  · exact @LabelsFit.push _ _ _ _ _ [] _ _ trivial rfl ⟨rfl, passes⟩
  · refine below.congr (fun i less => at?_update.trans (if_neg ?_)) fun i less => at?_update.trans (if_neg ?_)
    · show i ≠ s.frameDepth
      omega
    · exact Nat.ne_of_lt less

theorem instrAt_eq {instr : Instr} (fetched : Reader.fetch p.code s.pc = .ok instr pc) : p.instrAt s.pc = some instr := by
  rw [Program.instrAt, fetched]

/-! ### What a step does -/

/-- What an instruction takes before it opens a construct or branches: nothing, or a condition. -/
inductive Takes (s : Interpreter) (c : Ctrl) : Ctrl → Nat → Prop
  | nothing : Takes s c c s.sp
  | condition {d : Ctrl} {word : Word} (popped : c.pop valI32 = some d) (there : s.operand 0 = some word) :
      Takes s c d (s.sp - 1)

/-- A branch of this depth is taken with the operands up to `sp`. -/
def Program.BranchesWith (p : Program) (s : Interpreter) (depth : BitVec 32) (sp : Nat) : Prop :=
  p.instrAt s.pc = some (.br depth) ∧ sp = s.sp ∨ p.instrAt s.pc = some (.brIf depth) ∧ sp = s.sp - 1

theorem Takes.same {s : Interpreter} {sp : Nat} (takes : Takes s c d sp) : c.Same d := by
  cases takes with
  | nothing => exact .refl c
  | condition popped _ => exact Ctrl.stays_pop _ d popped

/-- What a plain step does inside the construct `c`, with the constructs `rest` around it. -/
inductive Transition (p : Program) (h : HostFunctions n σ) (frame : CallFrame) (l : Listing) (c : Ctrl) (rest : List Ctrl)
    (s : Machine n σ) : Machine n σ → Prop
  | computes {instr : Instr} {d : Ctrl} {pc : Nat} {t : Machine n σ} (known : p.instrAt s.pc = some instr)
      (simple : instr.isSimple p) (checked : checkFlat l.context (c :: rest) c instr = some d)
      (there : l.At p.code pc (d :: rest)) (does : execSimple p h instr { s with pc } = .ok () t) :
      Transition p h frame l c rest s t
  -- a branch that is not taken
  | passes {depth : BitVec 32} {d : Ctrl} {word : Word} {pc : Nat} (known : p.instrAt s.pc = some (.brIf depth))
      (checked : checkFlat l.context (c :: rest) c (.brIf depth) = some d) (there : l.At p.code pc (d :: rest))
      (cond : s.operand 0 = some word) (zero : Meaning.low word = 0) :
      Transition p h frame l c rest s { s with pc, sp := s.sp - 1 }
  | opens {instr : Instr} {kind : Construct} {blockType : Byte} {new d : Ctrl} {label : Label} {pc sp : Nat} {t : Machine n σ}
      (known : p.instrAt s.pc = some instr) (opens : instr.opens = some (kind, blockType))
      (types : blockTypes blockType = some new.results) (fresh : new.operands = [] ∧ new.unreachable = false)
      (loop : new.kind = .loop ↔ kind = .loop) (takes : Takes s.toInterpreter c d sp)
      (consumed : s.sp = if kind = .ifThen then sp + 1 else sp) (there : l.At p.code pc (new :: d :: rest))
      (leads : LabelFits p.code l label new (d :: rest)) (height : label.stackDepth = sp)
      (arity : label.resultCount = new.labelTypes.length) (pushes : pushLabel label { s with pc, sp } = .ok () t) :
      Transition p h frame l c rest s t
  -- an `if` that is not entered and has no `else`
  | skips {blockType : Byte} {d : Ctrl} {word : Word} {pc : Nat} (known : p.instrAt s.pc = some (.ifOp blockType))
      (popped : c.pop valI32 = some d) (cond : s.operand 0 = some word) (types : blockTypes blockType = some [])
      (there : l.At p.code pc (d :: rest)) : Transition p h frame l c rest s { s with pc, sp := s.sp - 1 }
  | ends {label : Label} {pc : Nat} {mid : Machine n σ} (known : p.instrAt s.pc = some .endOp) (closed : c.closed)
      (inner : rest ≠ []) (onTop : s.topmostLabel = some label) (settles : Settles label { s with pc } mid)
      (there : l.At p.code pc (resume c.results rest)) :
      Transition p h frame l c rest s { mid with labelDepth := mid.labelDepth - 1 }
  -- the end of a then-branch
  | switches {label : Label} {pc : Nat} {mid : Machine n σ} (known : p.instrAt s.pc = some .elseOp) (kind : c.kind = .ifThen)
      (closed : c.closed) (inner : rest ≠ []) (onTop : s.topmostLabel = some label)
      (lays : Lays label.stackDepth (s.passed label.resultCount label.stackDepth) { s with pc } mid)
      (there : l.At p.code label.targetPc (resume c.results rest)) :
      Transition p h frame l c rest s { mid with labelDepth := mid.labelDepth - 1, pc := label.targetPc }
  | continues {depth : BitVec 32} {d : Ctrl} {label : Label} {sp : Nat} (branches : p.BranchesWith s.toInterpreter depth sp)
      (innermost : depth.toNat = 0) (kind : c.kind = .loop) (takes : Takes s.toInterpreter c d sp)
      (onTop : s.topmostLabel = some label)
      (there : l.At p.code label.targetPc ({ kind := .loop, results := c.results } :: rest)) :
      Transition p h frame l c rest s { s with sp := label.stackDepth, pc := label.targetPc }
  | breaks {depth : BitVec 32} {d e target : Ctrl} {innermost outer : List Ctrl} {label : Label} {pc sp : Nat}
      {mid : Machine n σ}
      (branches : p.BranchesWith s.toInterpreter depth sp) (takes : Takes s.toInterpreter c d sp)
      (popped : d.popAll target.labelTypes = some e) (whole : c :: rest = innermost ++ target :: outer)
      (inside : innermost.length = depth.toNat) (inner : outer ≠ []) (kind : target.kind ≠ .loop)
      (there_ : s.labels.at? (frame.labelBase + outer.length) = some label)
      (lays : Lays label.stackDepth (({ s with sp } : Machine n σ).passed label.resultCount 0) { s with pc, sp } mid)
      (there : l.At p.code label.targetPc (resume target.results outer)) :
      Transition p h frame l c rest s { mid with labelDepth := s.labelDepth - (depth.toNat + 1), pc := label.targetPc }
  | leaves {d : Ctrl} {pc : Nat} {mid : Machine n σ}
      (known : p.instrAt s.pc = some .endOp ∧ rest = [] ∨ p.instrAt s.pc = some .returnOp)
      (popped : c.popAll l.context.results = some d) (deep : s.frameDepth ≠ 1)
      (lays : Lays frame.stackDepth (s.passed frame.resultCount 0) { s with pc } mid) :
      Transition p h frame l c rest s
        { mid with labelDepth := frame.labelBase, frameDepth := s.frameDepth - 1, pc := frame.returnPc }
  | enters {target : BitVec 32} {e : Entry} {d : Ctrl} {pc : Nat} {t : Machine n σ}
      (known : p.instrAt s.pc = some (.call target))
      (valid : p.ValidBody target) (checked : checkFlat l.context (c :: rest) c (.call target) = some d)
      (there : l.At p.code pc (d :: rest)) (entered : Entered p target pc e { s with pc } t) : Transition p h frame l c rest s t

/-- A branch of the topmost function, once its condition is gone. -/
theorem Top.branched (top : Top p bottom count s.toInterpreter frame l c rest) {depth : BitVec 32} {u : Unit} {sp : Nat}
    {target e : Ctrl} (taken : p.Branches s.toInterpreter depth) (consumes : p.BranchesWith s.toInterpreter depth sp)
    (plain : Plain p s.toInterpreter)
    (takes : Takes s.toInterpreter c d sp) (aims : (c :: rest)[depth.toNat]? = some target)
    (popped : d.popAll target.labelTypes = some e) (branches : doBranch depth { s with pc, sp } = .ok u t) :
    Transition p h frame l c rest s t := by
  have running : ({ s with pc, sp } : Machine n σ).running = some frame := top.running
  obtain ⟨label, there, deep, own, moved⟩ := doBranch_ok running branches
  have there : s.branchTarget depth = some label := there
  have inner := plain.inner depth taken frame top.running
  have deep : depth.toNat < s.labelDepth := deep
  have own : frame.labelBase ≤ s.labelDepth - 1 - depth.toNat := own
  have height := top.encloses.height
  rw [List.length_cons] at height
  -- the constructs around the target: not the function itself, so at least one is outside
  obtain ⟨below, same⟩ := List.getElem?_eq_some_iff.mp aims
  obtain ⟨innermost, outer, whole, count_⟩ : ∃ innermost outer, c :: rest = innermost ++ target :: outer ∧
      innermost.length = depth.toNat := by
    have split := List.take_append_drop depth.toNat (c :: rest)
    rw [List.drop_eq_getElem_cons below, same] at split
    exact ⟨_, _, split.symm, List.length_take_of_le (Nat.le_of_lt below)⟩
  have lengths := congrArg List.length whole
  rw [List.length_cons, List.length_append, List.length_cons] at lengths
  have labels := top.encloses.labels
  rw [whole] at labels
  obtain ⟨label', there', leads⟩ := labels.label
  obtain rfl : label' = label := by
    unfold Interpreter.branchTarget at there
    rw [show s.labelDepth - 1 - depth.toNat = frame.labelBase + outer.length by omega] at there
    exact Option.some.inj (there'.symm.trans there)
  split at moved
  · next isLoop =>
    subst moved
    have zero : depth.toNat = 0 := congrArg BitVec.toNat (plain.loop depth taken label' there isLoop)
    obtain rfl := List.eq_nil_of_length_eq_zero (count_.trans zero)
    cases whole
    have kind : c.kind = .loop := of_decide_eq_true (leads.1.symm.trans isLoop)
    have lands := leads.2
    rw [if_pos kind] at lands
    have onTop : s.topmostLabel = some label' := by
      unfold Interpreter.topmostLabel
      rw [if_pos (by omega), show s.labelDepth - 1 = frame.labelBase + rest.length by omega, there']
    exact .continues consumes zero kind takes onTop lands
  · next other =>
    obtain ⟨mid, lays, rfl⟩ := moved
    have kind : ¬ target.kind = .loop := fun kind => other (leads.1.trans (decide_eq_true kind))
    have lands := leads.2
    rw [if_neg kind] at lands
    refine .breaks consumes takes popped whole count_ ?_ kind there' lays lands
    rintro rfl
    rw [List.length_nil] at lengths
    omega

/-- The labels an instruction that opens a construct pushes. -/
theorem Top.opened (_ : Top p bottom count s.toInterpreter frame l c rest) {instr : Instr} {kind : Construct}
    {blockType : Byte} (known : p.instrAt s.pc = some instr) (opens : instr.opens = some (kind, blockType)) {results : List Byte}
    (types : blockTypes blockType = some results) {sp : Nat} (takes : Takes s.toInterpreter c d sp)
    (consumed : s.sp = if kind = .ifThen then sp + 1 else sp) {new : Construct}
    (loop : new = .loop ↔ kind = .loop) (there : l.At p.code pc ({ kind := new, results } :: d :: rest)) {label : Label}
    (leads : LabelFits p.code l label { kind := new, results } (d :: rest)) (height : label.stackDepth = sp)
    (arity : label.resultCount = if new = .loop then 0 else blockResults blockType)
    (pushes : pushLabel label { s with pc, sp } = .ok () t) : Transition p h frame l c rest s t := by
  refine .opens known opens types ⟨rfl, rfl⟩ loop takes consumed there leads height ?_ pushes
  rw [arity, blockTypes_length types]
  unfold Ctrl.labelTypes
  split <;> rfl

/-- Where the function is left, its results are on the operands. -/
theorem Top.delivers (top : Top p bottom count s.toInterpreter frame l c rest)
    (last : p.instrAt s.pc = some .endOp ∧ rest = [] ∨ p.instrAt s.pc = some .returnOp) :
    ∃ d, c.popAll l.context.results = some d := by
  obtain ⟨instr, pc, blocks, fetched, checked, -⟩ := top.encloses.here.next top.encloses.valid
  have known : p.instrAt s.pc = some instr := instrAt_eq fetched
  rcases last with ⟨other, rfl⟩ | other
  · cases known.symm.trans other
    obtain ⟨closed, -, -⟩ := check_end checked
    have results : c.results = l.context.results := @Listing.At.outermost _ _ _ [] _ top.encloses.here
    unfold Ctrl.closed at closed
    rw [results] at closed
    split at closed
    · next d popped => exact ⟨d, popped⟩
    · cases closed
  · cases known.symm.trans other
    obtain ⟨d, checks, -, rfl⟩ := check_flat_some rfl checked
    obtain ⟨e, popped, -⟩ := Option.bind_eq_some_iff.mp checks
    exact ⟨e, popped⟩

/-- A plain step of the topmost function does one of these. -/
theorem Top.transition (top : Top p bottom count s.toInterpreter frame l c rest) (plain : Plain p s.toInterpreter)
    (next : Next p h s t) : Transition p h frame l c rest s t := by
  obtain ⟨instr, pc, fetched, done⟩ := step_eq_ok.mp next
  obtain ⟨blocks, checked, there⟩ := top.reads fetched
  have known := instrAt_eq fetched
  have height := top.encloses.height
  rw [List.length_cons] at height
  have valid := top.encloses.valid
  have labelled : 0 < s.labelDepth := by omega
  have running : ({ s with pc } : Machine n σ).running = some frame := top.running
  have simple : instr.isSimple p → Transition p h frame l c rest s t := by
    intro isSimple
    have flat : instr.isFlat := by
      cases instr <;> first | rfl | cases isSimple
    obtain ⟨d, checks, -, rfl⟩ := check_flat_some flat checked
    obtain ⟨-, does⟩ := exec_ok done (by cases instr <;> first | rfl | cases isSimple)
    exact .computes known isSimple checks there does
  have leaves : (p.instrAt s.pc = some .endOp ∧ rest = [] ∨ p.instrAt s.pc = some .returnOp) →
      leaveFunction { s with pc } = .ok .next t → Transition p h frame l c rest s t := by
    intro last returns
    obtain ⟨d, popped⟩ := top.delivers last
    obtain ⟨frame', mid, running', lays, ⟨-, done'⟩ | ⟨deep, -, rfl⟩⟩ := leaveFunction_ok returns
    · cases done'
    · obtain rfl := Option.some.inj (running.symm.trans running')
      exact .leaves last popped deep lays
  cases instr with
  | block blockType =>
    obtain ⟨-, does⟩ := exec_ok done rfl
    obtain ⟨results, d, types, same, rfl, rfl⟩ := check_open rfl checked
    obtain ⟨endPc, skipped, pushes⟩ := execBlock_ok does
    have ends := @Reader.skipToEndFrom_lands _ _ _ _ _ [] _ _ valid there skipped
    exact top.opened known rfl types .nothing rfl Iff.rfl there ⟨rfl, ends⟩ rfl rfl pushes
  | loop blockType =>
    obtain ⟨-, does⟩ := exec_ok done rfl
    obtain ⟨results, d, types, same, rfl, rfl⟩ := check_open rfl checked
    have leads : LabelFits p.code l { targetPc := pc, stackDepth := s.sp, resultCount := 0, isLoop := true }
      { kind := .loop, results }
        (d :: rest) := ⟨rfl, there⟩
    exact top.opened known rfl types .nothing rfl Iff.rfl there leads rfl rfl does
  | ifOp blockType =>
    obtain ⟨-, does⟩ := exec_ok done rfl
    obtain ⟨results, d, types, same, rfl, popped⟩ := check_open rfl checked
    obtain ⟨word, endPc, cond, skipped, pc', branch⟩ := execIf_ok does
    have popped : c.pop valI32 = some d := popped
    have takes : Takes s.toInterpreter c d (s.sp - 1) := .condition popped cond
    have consumed : s.sp = s.sp - 1 + 1 := by
      have some_ := (Interpreter.operand_inside cond).1
      dsimp only at some_
      omega
    have ends := @Reader.skipToEndFrom_lands _ _ _ _ _ [] _ _ valid there skipped
    split at branch
    · obtain ⟨rfl, pushes⟩ := branch
      exact top.opened known rfl types takes consumed Iff.rfl there ⟨rfl, ends⟩ rfl rfl pushes
    · obtain ⟨hasElse, scanned, branch⟩ := branch
      have lands := @Reader.skipToElseOrEndFrom_lands _ _ _ _ _ [] _ _ _ valid there scanned
      cases hasElse with
      | true =>
        have loop : Construct.elseOp = .loop ↔ Construct.ifThen = .loop := by decide
        exact top.opened known rfl types takes consumed loop lands ⟨rfl, ends⟩ rfl rfl branch
      | false =>
        obtain rfl := @Reader.skipToElseOrEndFrom_empty _ _ _ _ _ [] _ _ valid there rfl scanned
        subst branch
        exact .skips known popped cond types lands
  | elseOp =>
    obtain ⟨-, does⟩ := exec_ok done rfl
    obtain ⟨kind, closed, rfl⟩ := check_else checked
    obtain ⟨label, mid, onTop, lays, rfl⟩ := execElse_ok does labelled
    obtain ⟨label', onTop', leads⟩ := top.label
    obtain rfl := Option.some.inj (onTop'.symm.trans onTop)
    have lands := leads.2
    rw [if_neg (by rw [kind]; nofun)] at lands
    refine .switches known kind closed ?_ onTop' lays lands
    rintro rfl
    exact absurd (kind.symm.trans top.encloses.here.rooted) nofun
  | endOp =>
    obtain ⟨closed, -, rfl⟩ := check_end checked
    have ends := execEnd_ok running labelled done
    split at ends
    · next last =>
      have last : s.labelDepth - 1 = frame.labelBase := last
      obtain rfl : rest = [] := List.eq_nil_of_length_eq_zero (by omega)
      exact leaves (.inl ⟨known, rfl⟩) ends
    · next inner =>
      obtain ⟨-, does⟩ := ends
      obtain ⟨label, mid, onTop, settles, rfl⟩ := endBlock_ok does
      refine .ends known closed ?_ onTop settles there
      rintro rfl
      exact inner (by show s.labelDepth - 1 = _; rw [height]; rfl)
  | br depth =>
    obtain ⟨-, does⟩ := exec_ok done rfl
    obtain ⟨d, checks, -, rfl⟩ := check_flat_some rfl checked
    obtain ⟨target, aims, rest'⟩ := Option.bind_eq_some_iff.mp checks
    obtain ⟨e, popped, -⟩ := Option.bind_eq_some_iff.mp rest'
    exact top.branched (.inl known) (.inl ⟨known, rfl⟩) plain .nothing aims popped does
  | brIf depth =>
    obtain ⟨-, does⟩ := exec_ok done rfl
    obtain ⟨word, cond, branch⟩ := execBrIf_ok does
    obtain ⟨d, checks, -, rfl⟩ := check_flat_some rfl checked
    split at branch
    · next taken =>
      obtain ⟨d', first, rest'⟩ := Option.bind_eq_some_iff.mp checks
      obtain ⟨target, aims, rest'⟩ := Option.bind_eq_some_iff.mp rest'
      obtain ⟨e, popped, -⟩ := Option.bind_eq_some_iff.mp rest'
      exact top.branched (.inr ⟨known, word, cond, taken⟩) (.inr ⟨known, rfl⟩) plain (.condition first cond) aims popped branch
    · next zero =>
      subst branch
      exact .passes known checks there cond (not_not.mp zero)
  | returnOp =>
    exact leaves (.inr known) (execReturn_ok running done)
  | call target =>
    by_cases own : target < p.numImports
    · exact simple (decide_eq_true own)
    · obtain ⟨-, does⟩ := exec_ok done rfl
      obtain ⟨e, entered⟩ := execCall_ok own does
      obtain ⟨d, checks, -, rfl⟩ := check_flat_some rfl checked
      exact .enters known (plain.callee target known own) checks there entered
  | _ => exact simple rfl

/-- A plain step of a function above `bottom` keeps labels and text together. -/
theorem nested_step (nested : Nested p bottom s.toInterpreter) (inside : bottom < s.frameDepth)
    (plain : Plain p s.toInterpreter) (next : Next p h s t) : Nested p bottom t.toInterpreter := by
  obtain ⟨count, frame, l, c, rest, top⟩ := nested.top inside
  have height := top.encloses.height
  rw [List.length_cons] at height
  have stays : ∀ {d pc}, c.Same d → l.At p.code pc (d :: rest) → t.frames = s.frames → t.frameDepth = s.frameDepth →
      t.labels = s.labels → t.labelDepth = s.labelDepth → t.pc = pc → Nested p bottom t.toInterpreter := by
    rintro d _ same there frames depth labels labelDepth rfl
    refine top.moves frames depth (fun i _ => by rw [labels]) there ?_ ?_
    · rw [labelDepth, height, List.length_cons]
    · rw [labels]
      exact top.encloses.labels.same same
  cases top.transition plain next with
  | computes _ simple checked there does =>
    obtain ⟨stack, sp, locals, memory, host, rfl⟩ := moves_ok (values_execSimple simple) does
    exact stays (Ctrl.stays_checkFlat _ _ _ _ _ checked) there rfl rfl rfl rfl rfl
  | passes _ checked there => exact stays (Ctrl.stays_checkFlat _ _ _ _ _ checked) there rfl rfl rfl rfl rfl
  | skips _ popped _ _ there => exact stays (Ctrl.stays_pop _ _ popped) there rfl rfl rfl rfl rfl
  | continues _ _ kind _ _ there =>
    have same : c.Same { kind := .loop, results := c.results } := ⟨kind.symm, rfl⟩
    exact stays same there rfl rfl rfl rfl rfl
  | opens _ _ _ _ _ takes _ there leads _ _ pushes => exact top.opens pushes there takes.same leads
  | @ends label pc mid _ _ inner _ settles there =>
    obtain ⟨stack, sp, rfl⟩ := settles.shape
    exact top.resumes inner rfl rfl rfl rfl there
  | switches _ _ _ inner _ lays there =>
    obtain ⟨stack, rfl⟩ := lays.shape
    exact top.resumes inner rfl rfl rfl rfl there
  | @breaks depth _ _ target innermost outer _ _ _ _ _ _ _ whole inside inner _ _ lays there =>
    obtain ⟨stack, rfl⟩ := lays.shape
    have labels := top.encloses.labels
    rw [whole] at labels
    have lengths := congrArg List.length whole
    rw [List.length_cons, List.length_append, List.length_cons] at lengths
    cases outer with
    | nil => exact absurd rfl inner
    | cons d outer =>
      refine top.moves rfl rfl (fun _ _ => rfl) there ?_ (labels.outer.2.same ⟨rfl, rfl⟩)
      show s.labelDepth - (depth.toNat + 1) = _
      rw [List.length_cons] at lengths ⊢
      omega
  | leaves _ _ _ lays =>
    obtain ⟨stack, rfl⟩ := lays.shape
    exact top.leaves rfl rfl
  | @enters target e d pc _ _ valid checked there entered =>
    have same := Ctrl.stays_checkFlat _ _ _ _ _ checked
    have callers : FramesNest p s.frames s.labels bottom (count + 1) pc s.labelDepth :=
      ⟨frame, l, d, rest, top.at_top, ⟨top.encloses.known, top.encloses.valid, there, by rw [List.length_cons]; exact height,
        top.encloses.labels.same same⟩, top.below⟩
    have depth : ({ s with pc } : Machine n σ).frameDepth = bottom + (count + 1) := top.depth
    exact FramesNest.entered (s := ({ s with pc } : Machine n σ)) callers depth entered valid

end Steps

/-! ### Runs -/

/-- The constructs that enclose an instruction within its function. -/
def enclosing (blocks : List Ctrl) : Nat := (blocks.filter fun c => c.kind ≠ .function).length

theorem Rooted.enclosing {c : Ctrl} {rest : List Ctrl} (rooted : Rooted (c :: rest)) :
    (c :: rest).length = 1 + enclosing (c :: rest) := by
  induction rest generalizing c with
  | nil =>
    have kind : c.kind = .function := rooted
    simp [Wasm.enclosing, kind]
  | cons d rest ih =>
    have inner := ih rooted.2
    have kind := rooted.1
    unfold Wasm.enclosing at inner ⊢
    rw [List.filter_cons_of_pos (by simpa using kind), List.length_cons, inner, List.length_cons]
    omega

/-- The topmost function has its own label and one for each construct around its `pc`. -/
def LabelsMatch (p : Program) (s : Interpreter) : Prop :=
  ∃ frame l blocks, s.running = some frame ∧ p.listing frame.funcIdx = some l ∧ l.At p.code s.pc blocks ∧
    s.labelDepth = frame.labelBase + (1 + enclosing blocks)

theorem Nested.matches {bottom : Nat} {s : Interpreter} (nested : Nested p bottom s) (inside : bottom < s.frameDepth) :
    LabelsMatch p s := by
  obtain ⟨count, frame, l, c, rest, top⟩ := nested.top inside
  refine ⟨frame, l, c :: rest, top.running, top.encloses.known, top.encloses.here, ?_⟩
  rw [top.encloses.height, top.encloses.here.rooted.enclosing]

theorem nested_entered {funcIdx : BitVec 32} {returnPc : Nat} (enters : enterFunction p funcIdx returnPc s = .ok () t)
    (valid : p.ValidBody funcIdx) : Nested p s.frameDepth t.toInterpreter := by
  obtain ⟨e, entered⟩ := wp_of_ok (enterFunction_ok funcIdx returnPc) enters
  exact @FramesNest.entered _ _ _ _ _ _ 0 _ _ _ trivial rfl entered valid

/-- In every plain run of a valid function the label stack is as the text is nested. -/
theorem plain_run_matches {funcIdx : BitVec 32} {returnPc : Nat} {u : Machine n σ}
    (enters : enterFunction p funcIdx returnPc s = .ok () t) (valid : p.ValidBody funcIdx)
    (run : Relation.ReflTransGen (fun a b => Callee p h s a b ∧ Plain p a.toInterpreter) t u)
    (inside : s.frameDepth < u.frameDepth) : LabelsMatch p u.toInterpreter := by
  suffices Nested p s.frameDepth u.toInterpreter from this.matches inside
  clear inside
  induction run with
  | refl => exact nested_entered enters valid
  | tail _ last ih =>
    obtain ⟨⟨deep, next⟩, plain⟩ := last
    exact nested_step ih deep plain next

/-- Branches and calls. -/
def Instr.jumps : Instr → Bool
  | .br _ | .brIf _ | .call _ => true
  | _ => false

section Plain
variable {s : Interpreter} {instr : Instr}

theorem plain_other (known : p.instrAt s.pc = some instr) (other : ¬ instr.jumps) : Plain p s := by
  have clash : ∀ {instr'}, p.instrAt s.pc = some instr' → ¬ instr'.jumps := by
    intro instr' known'
    cases known.symm.trans known'
    exact other
  have none_ : ∀ depth, ¬ p.Branches s depth := by
    rintro depth (found | ⟨found, -⟩) <;> exact clash found rfl
  exact ⟨fun depth branches => absurd branches (none_ depth), fun depth branches => absurd branches (none_ depth),
    fun _ found => absurd rfl (clash found)⟩

theorem plain_br (known : p.instrAt s.pc = some (.br 0))
    (inner : ∀ frame ∈ s.running, s.labelDepth ≠ frame.labelBase + 1) : Plain p s := by
  have depth_eq : ∀ depth, p.Branches s depth → depth = 0 := by
    rintro depth (found | ⟨found, -⟩)
    · cases known.symm.trans found
      rfl
    · cases known.symm.trans found
  refine ⟨fun depth branches _ _ _ => depth_eq depth branches, ?_, ?_⟩
  · intro depth branches
    rw [depth_eq depth branches]
    exact inner
  · intro target found
    cases known.symm.trans found

end Plain

/-! ### A loop that is continued -/

/-- `loop`, the body and two `end`s. -/
def looping (body : List Byte) : List Byte := oneFunction [] ([0x03, 0x40] ++ body ++ [0x0B, 0x0B])

namespace looping

/-- `br 0` -/
def direct : List Byte := [0x0C, 0x00]

/-- `block`, `br 1` and `end` -/
def inner : List Byte := [0x02, 0x40, 0x0C, 0x01, 0x0B]

/-- The state after some rounds. -/
def state (body : List Byte) (count : Nat) : Machine 0 Unit :=
  rounds (loaded (looping body)) (noHost 0) (started (loaded (looping body)) 0 [] nofun ()) count

/-- Three rounds of both, from the function's start. -/
theorem computed : ∀ body ∈ [direct, inner], accepts (looping body) ∧ (loaded (looping body)).validBody 0 9 ∧
    returns (do pushArgs []; enterFunction (loaded (looping body)) 0 0) () ({ memory := nofun, host := () } : Machine 0 Unit) ∧
    ∀ count < 3, returns (step (loaded (looping body)) (noHost 0)) .next (state body count) ∧
      0 < (state body count).frameDepth ∧ 0 < (state body (count + 1)).frameDepth := by
  decide +kernel

theorem direct_enters : ∃ s, enterFunction (loaded (looping direct)) 0 0 s = .ok () (state direct 0) ∧ s.frameDepth = 0 := by
  obtain ⟨-, -, entered, -⟩ := computed direct (by simp)
  obtain ⟨s, enters, outside⟩ := started_enters entered
  exact ⟨s, enters, outside⟩

theorem direct_goes (count next : Nat) (few : count < 2) (after : next = count + 1) :
    Next (loaded (looping direct)) (noHost 0) (state direct count) (state direct next) ∧
      0 < (state direct count).frameDepth ∧ 0 < (state direct next).frameDepth := by
  obtain ⟨-, -, -, all⟩ := computed direct (by simp)
  subst after
  obtain ⟨goes, deep⟩ := all count (by omega)
  exact ⟨next_rounds goes, deep⟩

theorem direct_plain : Plain (loaded (looping direct)) (state direct 0).toInterpreter ∧
    Plain (loaded (looping direct)) (state direct 1).toInterpreter := by
  have first : (loaded (looping direct)).instrAt (state direct 0).pc = some (.loop 0x40) := by decide +kernel
  have second : (loaded (looping direct)).instrAt (state direct 1).pc = some (.br 0) := by decide +kernel
  have deep : (state direct 1).running.all fun frame => (state direct 1).labelDepth ≠ frame.labelBase + 1 := by
    decide +kernel
  generalize (state direct 0).toInterpreter = s, (state direct 1).toInterpreter = t at *
  refine ⟨plain_other first nofun, plain_br second fun frame running => ?_⟩
  rw [Option.mem_def.mp running] at deep
  exact of_decide_eq_true deep

theorem inner_reached : Reached (loaded (looping inner)) (noHost 0) (state inner 3) := by
  obtain ⟨-, -, entered, all⟩ := computed inner (by simp)
  exact reached_rounds (reached_started entered) 3 fun k less => (all k less).1

/-- Once round the loop there are three labels where the text has the loop and the function. -/
theorem inner_labels : (state inner 3).frameDepth = 1 ∧ (state inner 3).labelDepth = 3 ∧
    (∀ i < (state inner 3).frameDepth, ((state inner 3).frames.at? i).any fun frame =>
      (loaded (looping inner)).validBody frame.funcIdx 9) ∧
    (((state inner 3).frames.at? 0).any fun frame => frame.funcIdx = 0 ∧ frame.labelBase = 0) ∧
    ((loaded (looping inner)).listing 0).any fun l => advance (loaded (looping inner)).code l.context l.entry =
      some ((state inner 3).pc, [{ kind := .loop, results := [] }, { kind := .function, results := [] }]) := by
  decide +kernel

end looping

/-- The function is entered, the loop is opened and continued once. -/
theorem looping.direct_run : ∃ s t u v : Machine 0 Unit, enterFunction (loaded (looping direct)) 0 0 s = .ok () t ∧
    (Next (loaded (looping direct)) (noHost 0) t u ∧ s.frameDepth < t.frameDepth) ∧
    (Next (loaded (looping direct)) (noHost 0) u v ∧ s.frameDepth < u.frameDepth) ∧ s.frameDepth < v.frameDepth ∧
    Plain (loaded (looping direct)) t.toInterpreter ∧ Plain (loaded (looping direct)) u.toInterpreter := by
  obtain ⟨s, entered, outside⟩ := direct_enters
  obtain ⟨first, deep, -⟩ := direct_goes 0 1 (by decide) rfl
  obtain ⟨second, deep', deep''⟩ := direct_goes 1 2 (by decide) rfl
  have plain := direct_plain
  generalize state direct 0 = t, state direct 1 = u, state direct 2 = v at *
  have above : ∀ {depth : Nat}, 0 < depth → s.frameDepth < depth := fun positive => outside.trans_lt positive
  exact ⟨s, t, u, v, entered, ⟨first, above deep⟩, ⟨second, above deep'⟩, above deep'', plain⟩

open looping in
theorem plain_run_matches_looping : ∃ u v : Machine 0 Unit, Next (loaded (looping direct)) (noHost 0) u v ∧
    LabelsMatch (loaded (looping direct)) v.toInterpreter := by
  obtain ⟨s, t, u, v, entered, ⟨first, deep⟩, ⟨second, deep'⟩, inside, plain, plain'⟩ := direct_run
  refine ⟨u, v, second,
    plain_run_matches (h := noHost 0) entered (Program.validBody_sound (computed direct (by simp)).2.1) ?_ inside⟩
  exact (Relation.ReflTransGen.single ⟨⟨deep, first⟩, plain⟩).tail ⟨⟨deep', second⟩, plain'⟩

/-- The functions on the call stack are valid. -/
def Interpreter.RunsValid (p : Program) (s : Interpreter) : Prop :=
  ∀ i < s.frameDepth, ∀ frame ∈ s.frames.at? i, p.ValidBody frame.funcIdx

theorem Interpreter.runsValid_of_any {s : Interpreter} {fuel : Nat}
    (checked : ∀ i < s.frameDepth, (s.frames.at? i).any fun frame => p.validBody frame.funcIdx fuel) : s.RunsValid p := by
  intro i below frame there
  have valid := checked i below
  rw [Option.mem_def.mp there] at valid
  exact Program.validBody_sound valid

open looping in
/-- After one iteration through the inner block the loop has a label too many. -/
theorem labels_unmatched : ¬ ∀ (p : Program) (s : Machine 0 Unit), parse p.code = .ok p.module →
    p.numImports.toNat = p.module.importCount → Reached p (noHost 0) s → s.RunsValid p → LabelsMatch p s.toInterpreter := by
  intro all
  obtain ⟨depth, labels, runs, bottom, place⟩ := inner_labels
  have reached := inner_reached
  obtain ⟨accepted, -⟩ := computed inner (by simp)
  generalize state inner 3 = s at *
  obtain ⟨frame, there, own⟩ := (Option.any_eq_true _ _).mp bottom
  obtain ⟨function, base⟩ := of_decide_eq_true own
  have running : s.running = some frame := by
    unfold Interpreter.running
    rw [if_pos (by omega), depth, there]
  obtain ⟨frame', l, blocks, running', known, here, count⟩ := all _ s (parse_loaded accepted) (imports_loaded accepted) reached
    (Interpreter.runsValid_of_any runs)
  cases running.symm.trans running'
  rw [function] at known
  rw [known, Option.any_some] at place
  cases here.unique (.single (of_decide_eq_true place))
  rw [labels, base] at count
  cases count

end GooseOs.Wasm
