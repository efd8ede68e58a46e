import GooseOs.Wasm.Footprint

/-!
What entering a function does when it succeeds: one description of the new state that every later
invariant is read off.
-/

namespace GooseOs.Wasm

variable {n : Nat} {σ α : Type} {p : Program} {s t : Machine n σ}

/-- The signature `call target` uses. -/
def Program.signature (p : Program) (target : BitVec 32) : Option FuncType :=
  if target < p.numImports then do
    let typeIdx ← p.module.importTypes.at? target.toNat
    p.module.types.at? typeIdx.toNat
  else do
    let typeIdx ← p.module.funcTypes.at? (target.toNat - p.numImports.toNat)
    p.module.types.at? typeIdx.toNat

/-- The body of a local function. -/
def Program.body (p : Program) (target : BitVec 32) : Option FuncBody :=
  p.module.bodies.at? (target.toNat - p.numImports.toNat)

/-- The running frame. -/
def Interpreter.running (s : Interpreter) : Option CallFrame :=
  if 0 < s.frameDepth then s.frames.at? (s.frameDepth - 1) else none

/-- The first local past the running frame's. -/
def Interpreter.nextLocal (s : Interpreter) : Nat :=
  match s.running with
  | some frame => frame.localsBase + frame.localCount
  | none => 0

/-- What a call settles before the function runs. -/
structure Entry where
  funcType : FuncType
  body : FuncBody
  localCount : Nat
  pc : Nat
  locals : FixedArray (maxLocals * maxCallDepth) Word

/-- The stack depth below the arguments. -/
def Entry.stackDepth (e : Entry) (s : Interpreter) : Nat := s.sp - e.funcType.paramCount

def Entry.frame (e : Entry) (funcIdx : BitVec 32) (returnPc : Nat) (s : Interpreter) : CallFrame where
  returnPc := returnPc
  funcIdx := funcIdx
  localsBase := s.nextLocal
  localCount := e.localCount
  stackDepth := e.stackDepth s
  resultCount := e.funcType.resultCount
  labelBase := s.labelDepth

def Entry.label (e : Entry) (s : Interpreter) : Label where
  targetPc := e.body.offset + e.body.length
  stackDepth := e.stackDepth s
  resultCount := e.funcType.resultCount
  isLoop := false

/-- The locals of a new frame: the arguments, then zeros; the locals below are as they were. -/
structure Entry.Binds (e : Entry) (s : Interpreter) : Prop where
  args : ∀ i j k, k < e.funcType.paramCount → i.val = s.nextLocal + k → j.val = e.stackDepth s + k →
    e.locals i = s.stack j
  zeros : ∀ i k, e.funcType.paramCount ≤ k → k < e.localCount → i.val = s.nextLocal + k → e.locals i = 0
  below : ∀ i, i.val < s.nextLocal → e.locals i = s.locals i

/-- The function is entered: its frame and its label are on top. -/
structure Entered (p : Program) (funcIdx : BitVec 32) (returnPc : Nat) (e : Entry) (s t : Machine n σ) : Prop where
  frameRoom : s.frameDepth < maxCallDepth
  labelRoom : s.labelDepth < maxLabels
  local_ : ¬ funcIdx < p.numImports
  signature : p.signature funcIdx = some e.funcType
  known : p.body funcIdx = some e.body
  declared : Reader.readLocals p.code e.body.offset = .ok (e.localCount - e.funcType.paramCount) e.pc
  params : e.funcType.paramCount ≤ e.localCount
  supplied : e.funcType.paramCount ≤ s.sp
  binds : e.Binds s.toInterpreter
  state : t = { s with
    pc := e.pc
    sp := e.stackDepth s.toInterpreter
    frames := Function.update s.frames ⟨s.frameDepth, frameRoom⟩ (e.frame funcIdx returnPc s.toInterpreter)
    frameDepth := s.frameDepth + 1
    locals := e.locals
    labels := Function.update s.labels ⟨s.labelDepth, labelRoom⟩ (e.label s.toInterpreter)
    labelDepth := s.labelDepth + 1 }

/-- A step that returns reads an instruction and executes it. -/
theorem step_eq_ok {h : HostFunctions n σ} {outcome : Outcome} :
    step p h s = .ok outcome t ↔
      ∃ instr pc, Reader.fetch p.code s.pc = .ok instr pc ∧ exec p h instr { s with pc } = .ok outcome t := by
  unfold step onPc
  simp only [bind_eq_ok, onPart_eq_ok]
  constructor
  · rintro ⟨instr, _, ⟨pc, read, rfl⟩, result⟩
    exact ⟨instr, pc, read, result⟩
  · rintro ⟨instr, pc, read, result⟩
    exact ⟨instr, _, ⟨pc, read, rfl⟩, result⟩

/-! ### The parts of a call -/

theorem bind_of_topFrame {f : CallFrame → Exec n σ α} {Q : α → Machine n σ → Prop}
    (rest : ∀ frame, s.running = some frame → wp (f frame) Q anyStop s) : wp (topFrame >>= f) Q anyStop s := by
  unfold topFrame
  rw [bind_assoc]
  apply bind_of_get
  rw [bind_assoc]
  apply bind_of_minus
  intro running
  apply bind_of_load
  intro inside
  refine rest _ ?_
  unfold Interpreter.running FixedArray.at?
  rw [if_pos (Nat.lt_of_succ_le running), dif_pos inside]

theorem wp_resolve_ok (funcIdx : BitVec 32) :
    wp (resolve p funcIdx)
      (fun found u => ¬ funcIdx < p.numImports ∧ p.signature funcIdx = some found.1 ∧
        p.body funcIdx = some found.2 ∧ u = s) anyStop s := by
  apply bind_of_check
  intro own
  apply bind_of_minus
  intro _
  apply bind_of_check
  intro _
  apply bind_of_load
  intro first
  apply bind_of_check
  intro _
  apply bind_of_load
  intro second
  apply bind_of_load
  intro third
  refine ⟨own, ?_, dif_pos third, rfl⟩
  unfold Program.signature FixedArray.at?
  rw [if_neg own, dif_pos first]
  exact dif_pos second

theorem wp_nextLocalsBase_ok : wp nextLocalsBase (fun base u => base = s.nextLocal ∧ u = s) anyStop s := by
  apply bind_of_get
  rw [wp_ite]
  split
  · apply bind_of_topFrame
    intro frame running
    rw [wp_plus]
    split
    · refine ⟨?_, rfl⟩
      unfold Interpreter.nextLocal
      rw [running]
    · trivial
  · next idle =>
    refine ⟨?_, rfl⟩
    unfold Interpreter.nextLocal Interpreter.running
    rw [if_neg idle]

theorem wp_reserveLocals_ok (paramCount offset : Nat) :
    wp (reserveLocals p paramCount offset)
      (fun room u => ∃ pc, room.1 = s.nextLocal ∧ paramCount ≤ room.2 ∧
        Reader.readLocals p.code offset = .ok (room.2 - paramCount) pc ∧ u = { s with pc })
      anyStop s := by
  apply bind_of_modify
  rw [wp_bind, onPc, wp_onPart]
  unfold wp
  cases read : Reader.readLocals p.code offset with
  | error e pc => trivial
  | ok declared pc =>
    show wp _ _ anyStop ({ s with pc } : Machine n σ)
    apply bind_of_plus
    apply bind_of_check
    intro _
    apply bind_of_wp wp_nextLocalsBase_ok
    rintro base _ ⟨rfl, rfl⟩
    apply bind_of_plus
    apply bind_of_check
    intro _
    refine ⟨pc, rfl, Nat.le_add_right _ _, ?_, rfl⟩
    rw [Nat.add_sub_cancel_left]

/-- Locals `base + i` to `base + i + count - 1` are filled by `value`; nothing else changes. -/
def Filled (base i count : Nat) (value : Nat → Word → Prop) (s t : Machine n σ) : Prop :=
  ∃ locals, t = { s with locals } ∧ (∀ j k, i ≤ k → k < i + count → j.val = base + k → value k (locals j)) ∧
    ∀ j, j.val < base + i ∨ base + i + count ≤ j.val → locals j = s.locals j

theorem Filled.none {base i : Nat} {value : Nat → Word → Prop} : Filled base i 0 value s s :=
  ⟨s.locals, rfl, fun _ _ low high => by omega, fun _ _ => rfl⟩

theorem Filled.cons {base i count : Nat} {value : Nat → Word → Prop} {val : Word}
    (inside : base + i < maxLocals * maxCallDepth) (first : value i val)
    (rest : Filled base (i + 1) count value
      { s with locals := Function.update s.locals ⟨base + i, inside⟩ val } t) :
    Filled base i (count + 1) value s t := by
  obtain ⟨locals, rfl, filled, kept⟩ := rest
  refine ⟨locals, rfl, fun j k low high place => ?_, fun j outside => ?_⟩
  · rcases Nat.lt_or_ge i k with later | first'
    · exact filled j k later (by omega) place
    · obtain rfl : k = i := by omega
      obtain rfl : j = ⟨base + k, inside⟩ := Fin.ext place
      rw [kept _ (.inl (by show base + k < base + (k + 1); omega))]
      show value k (Function.update s.locals _ val _)
      rw [Function.update_self]
      exact first
  · have other : j ≠ ⟨base + i, inside⟩ := Fin.val_ne_iff.mp (by show j.val ≠ base + i; omega)
    exact (kept j (by omega)).trans (Function.update_of_ne other _ _)

theorem wp_copyArgs_ok (base stackDepth count i : Nat) :
    wp (copyArgs base stackDepth count i)
      (fun _ t => Filled base i count (fun k v => ∀ j, j.val = stackDepth + k → v = s.stack j) s t) anyStop s := by
  induction count generalizing i s with
  | zero =>
    rw [copyArgs, wp_pure]
    exact Filled.none
  | succ count ih =>
    apply bind_of_get
    apply bind_of_plus
    apply bind_of_plus
    apply bind_of_load
    intro inside
    apply bind_of_store
    intro room
    apply bind_of_set
    apply wp_mono (ih (i + 1)) _ fun _ _ => id
    intro _ t later
    apply Filled.cons room _ later
    rintro j place
    exact congrArg s.stack (Fin.ext place.symm)

theorem wp_zeroLocals_ok (base count i : Nat) :
    wp (zeroLocals base count i) (fun _ t => Filled base i count (fun _ v => v = 0) s t) anyStop s := by
  induction count generalizing i s with
  | zero =>
    rw [zeroLocals, wp_pure]
    exact Filled.none
  | succ count ih =>
    apply bind_of_get
    apply bind_of_plus
    apply bind_of_store
    intro room
    apply bind_of_set
    apply wp_mono (ih (i + 1)) _ fun _ _ => id
    intro _ t later
    exact Filled.cons room rfl later

/-- The arguments move into the locals, the other locals are cleared and the stack goes down. -/
theorem wp_bindArgs_ok (paramCount base total : Nat) (enough : paramCount ≤ total) :
    wp (bindArgs paramCount base total)
      (fun stackDepth t => paramCount ≤ s.sp ∧ stackDepth = s.sp - paramCount ∧
        ∃ locals, t = { s with sp := stackDepth, locals } ∧
          (∀ i j k, k < paramCount → i.val = base + k → j.val = stackDepth + k → locals i = s.stack j) ∧
          (∀ i k, paramCount ≤ k → k < total → i.val = base + k → locals i = 0) ∧
          ∀ i, i.val < base → locals i = s.locals i)
      anyStop s := by
  apply bind_of_get
  apply bind_of_check
  intro supplied
  apply bind_of_get
  apply bind_of_minus
  intro _
  apply bind_of_wp (wp_copyArgs_ok base _ paramCount 0)
  rintro _ _ ⟨copied, rfl, args, kept⟩
  apply bind_of_modify
  apply bind_of_wp (wp_zeroLocals_ok base _ paramCount)
  rintro _ _ ⟨locals, rfl, zeros, stays⟩
  refine ⟨Nat.le_of_not_lt supplied, rfl, locals, rfl, ?_, ?_, ?_⟩
  · intro i j k low place source
    rw [stays i (.inl (by omega))]
    exact args i k (Nat.zero_le k) (by omega) place j source
  · intro i k low high place
    exact zeros i k low (by omega) place
  · intro i low
    rw [stays i (.inl (by omega))]
    exact kept i (.inl (by omega))

theorem enterFunction_ok (funcIdx : BitVec 32) (returnPc : Nat) :
    wp (enterFunction p funcIdx returnPc) (fun _ t => ∃ e, Entered p funcIdx returnPc e s t) anyStop s := by
  apply bind_of_get
  apply bind_of_check
  intro frameRoom
  apply bind_of_wp (wp_resolve_ok funcIdx)
  rintro ⟨funcType, body⟩ _ ⟨own, signature, known, rfl⟩
  rename_i s
  apply bind_of_wp (wp_reserveLocals_ok funcType.paramCount body.offset)
  rintro ⟨base, total⟩ _ ⟨pc, rfl, enough, declared, rfl⟩
  apply bind_of_wp (wp_bindArgs_ok funcType.paramCount s.nextLocal total enough)
  rintro stackDepth _ ⟨supplied, rfl, locals, rfl, args, zeros, below⟩
  apply bind_of_get
  apply bind_of_wp (R := fun _ t => ∃ room : s.frameDepth < maxCallDepth, t = ({ s with
      pc, sp := s.sp - funcType.paramCount, locals, frameDepth := s.frameDepth + 1
      frames := Function.update s.frames ⟨s.frameDepth, room⟩
        { returnPc, funcIdx, localsBase := s.nextLocal, localCount := total
          stackDepth := s.sp - funcType.paramCount, resultCount := funcType.resultCount
          labelBase := s.labelDepth } } : Machine n σ))
  · apply bind_of_get
    apply bind_of_store
    intro room
    apply bind_of_plus
    exact ⟨room, rfl⟩
  rintro _ _ ⟨room, rfl⟩
  apply bind_of_plus
  apply bind_of_get
  apply bind_of_check
  intro _
  apply bind_of_store
  intro labelRoom
  apply bind_of_plus
  exact ⟨⟨funcType, body, total, pc, locals⟩, {
    frameRoom := room, labelRoom := labelRoom, local_ := own, signature := signature, known := known
    declared := declared, params := enough, supplied := supplied
    binds := ⟨args, zeros, below⟩, state := rfl }⟩

/-! ### Leaving the outermost function -/

section Leaving
variable {frame : CallFrame} (depth : s.frameDepth = 1) (top : s.running = some frame)
include depth top

theorem topFrame_outermost : topFrame s = .ok frame s := by
  refine bind_eq_ok.mpr ⟨_, _, get_eq_ok.mpr ⟨rfl, rfl⟩, bind_eq_ok.mpr ⟨_, _, minus_eq_ok.mpr ⟨by omega, rfl, rfl⟩, ?_⟩⟩
  unfold Interpreter.running FixedArray.at? at top
  rw [if_pos (by omega)] at top
  split at top
  · next inside =>
    cases top
    exact load_eq_ok.mpr ⟨inside, rfl, rfl⟩
  · cases top

theorem labelBase_outermost : labelBase s = .ok frame.labelBase s := by
  refine bind_eq_ok.mpr ⟨_, _, get_eq_ok.mpr ⟨rfl, rfl⟩, ?_⟩
  rw [if_pos (by omega)]
  exact map_eq_ok.mpr ⟨frame, topFrame_outermost depth top, rfl⟩

/-- Without a result, the stacks go back to where they were. -/
theorem leaveFunction_empty (empty : frame.resultCount = 0 ∨ s.sp = 0) : leaveFunction s =
    .ok (.done none) { s with sp := frame.stackDepth, labelDepth := frame.labelBase, frameDepth := 0 } := by
  have passed : passResult frame s = .ok none { s with sp := frame.stackDepth } := by
    refine bind_eq_ok.mpr ⟨none, s, bind_eq_ok.mpr ⟨_, _, get_eq_ok.mpr ⟨rfl, rfl⟩, ?_⟩, rfl⟩
    rw [if_neg (by omega)]
    rfl
  refine bind_eq_ok.mpr ⟨_, _, topFrame_outermost depth top, bind_eq_ok.mpr ⟨_, _, passed, bind_eq_ok.mpr ⟨_, _,
    get_eq_ok.mpr ⟨rfl, rfl⟩, bind_eq_ok.mpr ⟨_, _, minus_eq_ok.mpr ⟨by show 1 ≤ s.frameDepth; omega, rfl, rfl⟩, ?_⟩⟩⟩⟩
  have outermost : s.frameDepth - 1 = 0 := by omega
  refine bind_eq_ok.mpr ⟨(), _, set_eq_ok.mpr rfl, ?_⟩
  rw [if_pos outermost]
  show EStateM.Result.ok _ _ = _
  rw [outermost]

theorem execEnd_empty (empty : frame.resultCount = 0 ∨ s.sp = 0) (labels : s.labelDepth = frame.labelBase + 1) :
    execEnd s = .ok (.done none) { s with sp := frame.stackDepth, labelDepth := frame.labelBase, frameDepth := 0 } := by
  refine bind_eq_ok.mpr ⟨_, _, get_eq_ok.mpr ⟨rfl, rfl⟩, ?_⟩
  rw [if_pos (by omega)]
  refine bind_eq_ok.mpr ⟨_, _, labelBase_outermost depth top, bind_eq_ok.mpr ⟨_, _, minus_eq_ok.mpr ⟨by omega, rfl, rfl⟩, ?_⟩⟩
  rw [if_pos (by omega)]
  exact leaveFunction_empty depth top empty

end Leaving

end GooseOs.Wasm
