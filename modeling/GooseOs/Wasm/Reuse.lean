import GooseOs.Wasm.Encoding
import GooseOs.Wasm.Frames
import GooseOs.Wasm.Leftovers

/-!
Using one interpreter for several calls: each call does what it would do on a new interpreter as
long as the calls before it put the three stacks back.
-/

namespace GooseOs.Wasm

open FixedArray

variable {n : Nat} {σ α β : Type} {p : Program} {h : HostFunctions n σ} {s t u : Machine n σ}

/-! ### The frames below -/

/-- No frame comes or goes. -/
def SameFrames (s t : Machine n σ) : Prop := t.frames = s.frames ∧ t.frameDepth = s.frameDepth

instance : IsPreorder (Machine n σ) SameFrames where
  refl _ := ⟨rfl, rfl⟩
  trans _ _ _ first second := ⟨second.1.trans first.1, second.2.trans first.2⟩

theorem OnData.frames (moved : OnData s t) : SameFrames s t := by
  obtain ⟨stack, sp, memory, host, rfl⟩ := moved
  exact ⟨rfl, rfl⟩

theorem InFrame.frames (moved : InFrame s t) : SameFrames s t := by
  obtain ⟨_, _, _, _, _, _, rfl⟩ := moved
  exact ⟨rfl, rfl⟩

theorem moves_inFrame {x : Exec n σ α} (moves : Moves InFrame x) : Moves SameFrames x :=
  moves.mono fun _ _ moved => moved.frames

theorem moves_onStack {x : Exec n σ α} (moves : Moves OnStack x) : Moves SameFrames x := moves_inFrame (inFrame_stack moves)

theorem moves_execSimple {instr : Instr} (other : ∀ target, instr ≠ .call target) : Moves SameFrames (execSimple p h instr) := by
  by_cases store : ∃ op align offset, instr = .store op align offset
  · obtain ⟨op, align, offset, rfl⟩ := store
    exact (moves_onStack moves_pop).bind fun val => (moves_onStack moves_popU32).bind fun addr =>
      (moves_write op addr offset val).mono fun _ _ moved => moved.data.frames
  · exact moves_inFrame (inFrame_execSimple other fun op align offset same => store ⟨op, align, offset, same⟩)

/-- The outermost function's frame, with its own stack and labels from the bottom up. -/
def Outermost (frame : CallFrame) (s : Interpreter) : Prop := 0 < s.frameDepth ∧ s.frames.at? 0 = some frame

theorem Outermost.same {frame : CallFrame} (outermost : Outermost frame s.toInterpreter) (same : SameFrames s t) :
    Outermost frame t.toInterpreter := by
  rw [Outermost, same.1, same.2]
  exact outermost

theorem leaveFunction_next {frame : CallFrame} (outermost : Outermost frame s.toInterpreter) :
    wp leaveFunction (fun outcome t => outcome = .next → Outermost frame t.toInterpreter) anyStop s := by
  apply bind_of_wp (wp_mono (moves_inFrame moves_topFrame s) (fun _ _ => id) fun _ _ _ => trivial)
  intro running t same
  apply bind_of_wp (wp_mono (moves_onStack (moves_passResult running) t) (fun _ _ => id) fun _ _ _ => trivial)
  intro result u same'
  have still := outermost.same (trans_of SameFrames same same')
  apply bind_of_get
  apply bind_of_minus
  intro _
  apply bind_of_set
  rw [wp_ite]
  split
  · exact nofun
  · next more => exact fun _ => ⟨Nat.pos_of_ne_zero more, still.2⟩

theorem Outermost.entered {frame : CallFrame} {funcIdx : BitVec 32} {returnPc : Nat} {e : Entry}
    (outermost : Outermost frame s.toInterpreter) (entered : Entered p funcIdx returnPc e s t) :
    Outermost frame t.toInterpreter := by
  obtain ⟨frameRoom, -, -, -, -, -, -, -, -, rfl⟩ := entered
  refine ⟨Nat.succ_pos _, ?_⟩
  have first : (⟨0, by decide⟩ : Fin maxCallDepth) ≠ ⟨s.frameDepth, frameRoom⟩ := Fin.val_ne_iff.mp (Nat.ne_of_lt outermost.1)
  have same := outermost.2
  unfold FixedArray.at? at same ⊢
  rw [dif_pos (by decide)] at same ⊢
  simp only [Function.update_of_ne first]
  exact same

theorem Outermost.next {frame : CallFrame} (outermost : Outermost frame s.toInterpreter) (next : Next p h s t) :
    Outermost frame t.toInterpreter := by
  obtain ⟨instr, pc, -, done⟩ := step_eq_ok.mp next
  have start : Outermost frame ({ s with pc } : Machine n σ).toInterpreter := outermost
  suffices wp (exec p h instr) (fun outcome t => outcome = .next → Outermost frame t.toInterpreter) anyStop { s with pc } from
    wp_of_ok this done rfl
  have simple : ∀ (x : Exec n σ Unit), Moves SameFrames x →
      wp (do x; pure Outcome.next : Exec n σ Outcome) (fun outcome t => outcome = .next → Outermost frame t.toInterpreter) anyStop { s with pc } := by
    intro x moves
    apply bind_of_wp (wp_mono (moves { s with pc }) (fun _ _ => id) fun _ _ _ => trivial)
    exact fun _ t same _ => start.same same
  cases instr with
  | endOp =>
    apply bind_of_get
    rw [wp_ite]
    split
    · apply bind_of_wp (wp_mono (moves_inFrame moves_labelBase { s with pc }) (fun _ _ => id) fun _ _ _ => trivial)
      intro base t same
      apply bind_of_minus
      intro _
      rw [wp_ite]
      split
      · exact leaveFunction_next (start.same same)
      · apply bind_of_wp (wp_mono (moves_inFrame moves_endBlock t) (fun _ _ => id) fun _ _ _ => trivial)
        exact fun _ u same' _ => start.same (trans_of SameFrames same same')
    · apply bind_of_get
      rw [wp_ite, wp_map]
      split
      · exact wp_mono (moves_top { s with pc }) (fun _ _ _ => nofun) fun _ _ _ => trivial
      · exact nofun
  | returnOp =>
    apply bind_of_get
    rw [wp_ite, if_neg (Nat.ne_of_gt start.1)]
    exact leaveFunction_next start
  | call target =>
    by_cases imported : target < p.numImports
    · apply simple
      rw [execSimple, execCall, if_pos imported]
      exact (moves_callHost p h target).mono fun _ _ moved => moved.frames
    · apply bind_of_wp (R := fun _ t => Outermost frame t.toInterpreter)
      · rw [execSimple, execCall, if_neg imported]
        apply bind_of_get
        apply wp_mono (enterFunction_ok target _) _ fun _ _ => id
        rintro _ t ⟨e, entered⟩
        exact start.entered entered
      · exact fun _ _ still _ => still
  | _ => exact simple _ (moves_execSimple (by intro _ same; cases same))

/-! ### Refused calls -/

/-- The three stacks are as high as before. -/
def SameDepths (s t : Interpreter) : Prop := t.sp = s.sp ∧ t.frameDepth = s.frameDepth ∧ t.labelDepth = s.labelDepth

/-- The stacks stay, whatever else changes. -/
def OnDepths (s t : Machine n σ) : Prop := SameDepths s.toInterpreter t.toInterpreter

instance : IsPreorder (Machine n σ) OnDepths where
  refl _ := ⟨rfl, rfl, rfl⟩
  trans _ _ _ first second :=
    ⟨second.1.trans first.1, second.2.1.trans first.2.1, second.2.2.trans first.2.2⟩

theorem wp_copyArgs_depths (base depth count i : Nat) :
    wp (copyArgs base depth count i) (fun _ t => OnDepths s t) (fun e _ => e = .fault) s := by
  induction count generalizing i s with
  | zero => exact ⟨rfl, rfl, rfl⟩
  | succ count ih =>
    simp only [copyArgs, wp_bind, wp_get, wp_plus, wp_load, wp_store, wp_set]
    split
    · split
      · split
        · split
          · exact @ih { s with locals := _ } (i + 1)
          · trivial
        · trivial
      · trivial
    · trivial

theorem wp_zeroLocals_depths (base count i : Nat) :
    wp (zeroLocals base count i) (fun _ t => OnDepths s t) (fun e _ => e = .fault) s := by
  induction count generalizing i s with
  | zero => exact ⟨rfl, rfl, rfl⟩
  | succ count ih =>
    simp only [zeroLocals, wp_bind, wp_get, wp_plus, wp_store, wp_set]
    split
    · split
      · exact @ih { s with locals := _ } (i + 1)
      · trivial
    · trivial

theorem moves_nextLocalsBase : Moves OnDepths (nextLocalsBase : Exec n σ Nat) := by
  apply Moves.get.bind
  intro _
  refine Moves.ite ?_ (Moves.pure 0)
  exact (Moves.get.bind fun _ => Moves.minus.bind fun _ => Moves.load).bind fun _ => Moves.plus

theorem moves_reserveLocals (paramCount offset : Nat) : Moves OnDepths (reserveLocals p paramCount offset : Exec n σ _) := by
  apply Moves.bind
  · exact Moves.modify fun _ => ⟨rfl, rfl, rfl⟩
  intro _
  apply Moves.bind
  · apply (moves_onPc (Reader.readLocals p.code)).mono
    rintro _ _ ⟨pc, rfl⟩
    exact ⟨rfl, rfl, rfl⟩
  intro declared
  exact Moves.plus.bind fun _ => Moves.failIf.bind fun _ => moves_nextLocalsBase.bind fun _ => Moves.plus.bind fun _ =>
    Moves.failIf.bind fun _ => Moves.pure _

theorem moves_resolve (funcIdx : BitVec 32) : Moves OnDepths (resolve p funcIdx : Exec n σ _) :=
  Moves.failIf.bind fun _ => Moves.minus.bind fun _ => Moves.failIf.bind fun _ => Moves.load.bind fun _ =>
    Moves.failIf.bind fun _ => Moves.load.bind fun _ => Moves.load.bind fun _ => Moves.pure _

/-- Arguments are missing before anything is moved, or the function is entered. -/
theorem enterFunction_refused (funcIdx : BitVec 32) (returnPc : Nat) (room : s.labelDepth < maxLabels) :
    wp (enterFunction p funcIdx returnPc) (fun _ _ => True) (fun e t => e ≠ .fault → OnDepths s t) s := by
  rw [enterFunction, wp_bind, wp_get, wp_bind, wp_failIf]
  split
  · exact fun _ => refl_of OnDepths s
  rw [wp_bind]
  refine wp_mono (moves_resolve funcIdx s) ?_ fun _ _ moved _ => moved
  rintro ⟨funcType, body⟩ t moved
  dsimp only
  rw [wp_bind]
  refine wp_mono (moves_reserveLocals funcType.paramCount body.offset t) ?_
    fun _ _ moved' _ => trans_of OnDepths moved moved'
  rintro ⟨base, total⟩ u moved'
  have same := trans_of OnDepths moved moved'
  dsimp only
  rw [wp_bind, bindArgs, wp_bind, wp_get, wp_bind, wp_failIf]
  split
  · exact fun _ => same
  rw [wp_bind, wp_get, wp_bind, wp_minus, if_pos (by omega), wp_bind]
  refine wp_mono (wp_copyArgs_depths _ _ _ _) ?_ fun _ _ fault trap => absurd fault trap
  intro _ v copied
  rw [wp_bind, setSp, wp_modify, wp_bind]
  refine wp_mono (wp_zeroLocals_depths _ _ _) ?_ fun _ _ fault trap => absurd fault trap
  intro _ w zeroed
  have depth : w.labelDepth = s.labelDepth := zeroed.2.2.trans (copied.2.2.trans same.2.2)
  simp only [wp_pure, wp_bind, wp_get, pushFrame, pushLabel, wp_store, wp_plus, wp_set, wp_failIf]
  repeat' split
  all_goals first | trivial | exact fun trap => absurd rfl trap | omega

/-! ### Series of calls -/

/-- One use of an interpreter: the function with its arguments, memory and host, and enough rounds. -/
structure Invocation where
  n : Nat
  σ : Type
  host : HostFunctions n σ
  funcIdx : BitVec 32
  args : List Word
  memory : LinearMemory n
  hostState : σ
  fuel : Nat

namespace Invocation

variable (c : Invocation) (p : Program)

/-- An interpreter with this call's memory and host. -/
def machine (i : Interpreter) : Machine c.n c.σ := { i with memory := c.memory, host := c.hostState }

def call : Exec c.n c.σ Outcome := callFunction p c.host c.funcIdx c.args c.fuel

/-- The call up to the function's first instruction. -/
def enter : Exec c.n c.σ Unit := do
  pushArgs c.args
  enterFunction p c.funcIdx 0

/-- The interpreter the call leaves. -/
def left (i : Interpreter) : Interpreter := (after (c.call p) (c.machine i)).toInterpreter

/-- The arguments match the callee's parameters, and the call returns or traps. -/
structure Ends (i : Interpreter) : Prop where
  arity : ∀ funcType, p.signature c.funcIdx = some funcType → c.args.length = funcType.paramCount
  ends : wp (c.call p) (fun outcome _ => outcome ≠ .next) (fun e _ => e ≠ .fault) (c.machine i)

/-- The same result and the same changes to memory and host as on a new interpreter, and the stacks as high as
before. -/
structure Reuses (i : Interpreter) : Prop where
  same : Lockstep Eq (fun s t => t.memory = s.memory ∧ t.host = s.host) (fun s t => t.memory = s.memory ∧ t.host = s.host)
    (c.call p) (c.call p) (c.machine i) (c.machine {})
  depths : SameDepths i (c.left p i)

end Invocation

/-- The instruction here is the `end` or `return` of the outermost function, and no result is passed. -/
def LeavesEmpty (p : Program) (s : Interpreter) : Prop :=
  s.frameDepth = 1 ∧ ∃ frame, s.running = some frame ∧ (frame.resultCount = 0 ∨ s.sp = 0) ∧
    (p.instrAt s.pc = some .returnOp ∨ p.instrAt s.pc = some .endOp ∧ s.labelDepth = frame.labelBase + 1)

/-- A call that cannot be entered has no arguments, and no step of one that is entered stops but one that leaves
the outermost function without a result. -/
structure Invocation.Clean (c : Invocation) (p : Program) (i : Interpreter) : Prop where
  refused : ∀ e t, c.enter p (c.machine i) = .error e t → c.args = []
  runs : ∀ t u, c.enter p (c.machine i) = .ok () t → Relation.ReflTransGen (Next p c.host) t u →
    (∃ v, Next p c.host u v) ∨ LeavesEmpty p u.toInterpreter

/-- `P` holds of every call of the series, on the interpreter the calls before it left. -/
def Series (P : Invocation → Interpreter → Prop) (p : Program) : Interpreter → List Invocation → Prop
  | _, [] => True
  | i, c :: rest => P c i ∧ Series P p (c.left p i) rest

/-! ### A call puts the stacks back -/

theorem leavesEmpty_step {frame : CallFrame} (outermost : Outermost frame s.toInterpreter)
    (leaves : LeavesEmpty p s.toInterpreter) : ∃ t, step p h s = .ok (.done none) t ∧ t.sp = frame.stackDepth ∧
      t.frameDepth = 0 ∧ t.labelDepth = frame.labelBase := by
  obtain ⟨depth, top, running, empty, instr⟩ := leaves
  obtain rfl : frame = top := by
    have same := outermost.2
    unfold Interpreter.running at running
    rw [if_pos (by omega), depth] at running
    exact Option.some.inj (same.symm.trans running)
  rcases instr with last | ⟨last, labels⟩
  · obtain ⟨pc, read⟩ := fetch_of_instrAt last
    have left := @leaveFunction_empty n σ { s with pc } frame depth running empty
    have stepped : exec p h .returnOp { s with pc } =
        .ok (.done none) { s with pc, sp := frame.stackDepth, labelDepth := frame.labelBase, frameDepth := 0 } := by
      refine bind_eq_ok.mpr ⟨_, _, get_eq_ok.mpr ⟨rfl, rfl⟩, ?_⟩
      rw [if_neg (by show ¬ s.frameDepth = 0; omega)]
      exact left
    exact ⟨_, step_eq_ok.mpr ⟨_, pc, read, stepped⟩, rfl, rfl, rfl⟩
  · obtain ⟨pc, read⟩ := fetch_of_instrAt last
    have left := @execEnd_empty n σ { s with pc } frame depth running empty labels
    exact ⟨_, step_eq_ok.mpr ⟨_, pc, read, left⟩, rfl, rfl, rfl⟩

theorem run_leaves {frame : CallFrame} {fuel : Nat} (outermost : Outermost frame s.toInterpreter)
    (clean : ∀ t, Relation.ReflTransGen (Next p h) s t → (∃ u, Next p h t u) ∨ LeavesEmpty p t.toInterpreter)
    (ends : wp (run p h fuel) (fun outcome _ => outcome ≠ .next) (fun e _ => e ≠ .fault) s) :
    wp (run p h fuel) (fun _ t => t.sp = frame.stackDepth ∧ t.frameDepth = 0 ∧ t.labelDepth = frame.labelBase)
      (fun _ _ => False) s := by
  induction fuel generalizing s with
  | zero => exact absurd rfl ends
  | succ fuel ih =>
    rw [run, wp_bind] at ends ⊢
    rcases clean s .refl with ⟨t, next⟩ | leaves
    · unfold Next at next
      unfold wp at ends ⊢
      rw [next] at ends ⊢
      exact ih (outermost.next next) (fun u path => clean u (.head next path)) ends
    · obtain ⟨t, done, depths⟩ := @leavesEmpty_step n σ p h s frame outermost leaves
      unfold wp
      rw [done]
      exact depths

/-- A new function on an interpreter that is not in a call: its frame is the outermost one, at the bottom. -/
theorem entered_outermost {funcIdx : BitVec 32} {e : Entry} (entered : Entered p funcIdx 0 e s t)
    (idle : s.frameDepth = 0) :
    Outermost (e.frame funcIdx 0 s.toInterpreter) t.toInterpreter := by
  obtain ⟨frameRoom, -, -, -, -, -, -, -, -, rfl⟩ := entered
  refine ⟨Nat.succ_pos _, ?_⟩
  have first : (⟨s.frameDepth, frameRoom⟩ : Fin maxCallDepth) = ⟨0, by decide⟩ := Fin.ext idle
  unfold FixedArray.at?
  rw [dif_pos (by decide)]
  simp only [first, Function.update_self]

theorem wp_push (val : Word) : wp (push val) (fun _ t => ∃ stack, t = { s with stack, sp := s.sp + 1 }) anyStop s := by
  apply bind_of_get
  apply bind_of_check
  intro _
  apply bind_of_store
  intro inside
  apply bind_of_plus
  exact ⟨_, rfl⟩

theorem wp_pushArgs (args : List Word) :
    wp (pushArgs args) (fun _ t => ∃ stack, t = { s with stack, sp := s.sp + args.length }) anyStop s := by
  induction args generalizing s with
  | nil => exact ⟨s.stack, rfl⟩
  | cons arg rest ih =>
    apply bind_of_wp (wp_push arg)
    rintro _ _ ⟨stack, rfl⟩
    apply wp_mono ih _ fun _ _ => id
    rintro _ _ ⟨stack', rfl⟩
    refine ⟨stack', ?_⟩
    rw [List.length_cons, Nat.add_comm rest.length 1, ← Nat.add_assoc]

/-- Nothing is on the three stacks. -/
def Idle (i : Interpreter) : Prop := i.sp = 0 ∧ i.frameDepth = 0 ∧ i.labelDepth = 0

namespace Invocation

variable {c : Invocation} {i : Interpreter}

theorem same_as_new (idle : Idle i) : Lockstep Eq (Alike False) (Alike False) (c.call p) (c.call p) (c.machine i) (c.machine {}) := by
  obtain ⟨pc, stack, sp, frames, frameDepth, locals, labels, labelDepth⟩ := i
  obtain ⟨rfl, rfl, rfl⟩ := idle
  apply tracks_callFunction
  exact {
    shape := ⟨_, _, _, _, _, rfl⟩
    pc := nofun
    stack := fun _ below => absurd below (Nat.not_lt_zero _)
    label := by
      rintro i (below | ⟨f, running, -⟩)
      · exact absurd below (Nat.not_lt_zero _)
      · exact absurd running (Nat.not_lt_zero _)
    frame := fun _ below => absurd below (Nat.not_lt_zero _) }

theorem depths_back (idle : Idle i) (ends : c.Ends p i) (clean : c.Clean p i) : SameDepths i (c.left p i) := by
  have split : c.call p = (do c.enter p; run p c.host c.fuel) := by
    unfold call enter callFunction
    rw [bind_assoc]
  have ended := ends.ends
  suffices wp (c.call p) (fun _ t => SameDepths i t.toInterpreter) (fun _ t => SameDepths i t.toInterpreter) (c.machine i) from
    after_of_wp this
  rw [split, wp_bind] at ended ⊢
  cases entered : c.enter p (c.machine i) with
  | error e t =>
    have empty := clean.refused e t entered
    unfold wp at ended ⊢
    rw [entered] at ended ⊢
    unfold enter at entered
    rw [empty] at entered
    have room : (c.machine i).labelDepth < maxLabels := by
      rw [show (c.machine i).labelDepth = 0 from idle.2.2]
      decide
    have refused := @enterFunction_refused c.n c.σ p (c.machine i) c.funcIdx 0 room
    unfold wp at refused
    rw [show enterFunction p c.funcIdx 0 (c.machine i) = .error e t from entered] at refused
    exact refused ended
  | ok _ t =>
    unfold wp at ended ⊢
    rw [entered] at ended ⊢
    obtain ⟨_, u, pushed, enters⟩ := bind_eq_ok.mp entered
    obtain ⟨stack, rfl⟩ := wp_of_ok (wp_pushArgs c.args) pushed
    obtain ⟨e, function⟩ := wp_of_ok (enterFunction_ok c.funcIdx 0) enters
    have outermost := entered_outermost function idle.2.1
    have arity := ends.arity _ function.signature
    have bottom : (e.frame c.funcIdx 0 { (c.machine i) with stack, sp := (c.machine i).sp + c.args.length }.toInterpreter).stackDepth = 0 := by
      show (c.machine i).sp + c.args.length - e.funcType.paramCount = 0
      rw [show (c.machine i).sp = 0 from idle.1, arity]
      omega
    have back := run_leaves outermost (fun u path => clean.runs t u entered path) ended
    refine wp_mono back (fun _ v depths => ?_) fun _ _ => False.elim
    exact ⟨(depths.1.trans bottom).trans idle.1.symm, depths.2.1.trans idle.2.1.symm, depths.2.2⟩

end Invocation

/-- As long as every call puts the stacks back, each one does what it would do on a new interpreter. -/
theorem reuses_of_clean (calls : List Invocation) {i : Interpreter} (idle : Idle i)
    (ends : Series (fun c => c.Ends p) p i calls)
    (clean : Series (fun c => c.Clean p) p i calls) : Series (fun c => c.Reuses p) p i calls := by
  induction calls generalizing i with
  | nil => trivial
  | cons c rest ih =>
    obtain ⟨ends, ends'⟩ := ends
    obtain ⟨clean, clean'⟩ := clean
    have depths := Invocation.depths_back idle ends clean
    have idle' : Idle (c.left p i) := ⟨depths.1.trans idle.1, depths.2.1.trans idle.2.1, depths.2.2.trans idle.2.2⟩
    refine ⟨⟨?_, depths⟩, ih idle' ends' clean'⟩
    have data : ∀ s t : Machine c.n c.σ, Alike False s t → t.memory = s.memory ∧ t.host = s.host := by
      intro s t alike
      obtain ⟨_, _, _, _, _, rfl⟩ := alike.shape
      exact ⟨rfl, rfl⟩
    exact (Invocation.same_as_new idle).mono data data

/-! ### A result that stays behind -/

/-- A module with one function without parameters, of this result type and body. -/
def oneFunction (results body : List Byte) : List Byte :=
  wasmMagic ++ wasmVersion ++ Section.bytes (secType, [0x01, 0x60, 0x00] ++ counted results) ++
    Section.bytes (secFunction, [0x01, 0x00]) ++ Section.bytes (secCode, [0x01] ++ counted ([0x00] ++ body))

/-- A call of its function on no memory and no host. -/
def oneCall (fuel : Nat) : Invocation where
  n := 0
  σ := Unit
  host := noHost 0
  funcIdx := 0
  args := []
  memory := nofun
  hostState := ()
  fuel := fuel

/-- `i32.const 42` and `end`. -/
def answer42 : List Byte := oneFunction [valI32] [0x41, 0x2A, 0x0B]

theorem Invocation.ends_of_returns {c : Invocation} {p : Program} {i : Interpreter} (result : Option Word)
    (signature : (p.signature c.funcIdx).map FuncType.paramCount = some c.args.length)
    (done : returns (c.call p) (.done result) (c.machine i)) : c.Ends p i where
  arity funcType known := by
    rw [known] at signature
    exact (Option.some.inj signature).symm
  ends := by
    unfold wp
    rw [ok_of_returns done]
    exact nofun

theorem not_reused : ¬ ∀ (p : Program) (calls : List Invocation), parse p.code = .ok p.module →
    p.numImports.toNat = p.module.importCount → Series (fun c => c.Ends p) p {} calls →
    Series (fun c => c.Reuses p) p {} calls := by
  intro reused
  have accepted : accepts answer42 := by decide +kernel
  have ends : (oneCall 2).Ends (loaded answer42) {} :=
    Invocation.ends_of_returns (some 42) (by decide +kernel) (by decide +kernel)
  have reuses := reused _ [oneCall 2] (parse_loaded accepted) (imports_loaded accepted) ⟨ends, trivial⟩
  have height := reuses.1.depths.1
  revert height
  decide +kernel

/-! ### A call that stores -/

section Rolls
variable {n : Nat} {σ : Type} {p : Program} {h : HostFunctions n σ}

instance (p : Program) (s : Interpreter) : Decidable (LeavesEmpty p s) :=
  decidable_of_iff (s.frameDepth = 1 ∧ ∃ frame ∈ s.running, (frame.resultCount = 0 ∨ s.sp = 0) ∧
    (p.instrAt s.pc = some .returnOp ∨ p.instrAt s.pc = some .endOp ∧ s.labelDepth = frame.labelBase + 1)) Iff.rfl

/-- Within `fuel` rounds the program stops, at an instruction that leaves the outermost function without a result. -/
def rollsOut (p : Program) (h : HostFunctions n σ) : (fuel : Nat) → Machine n σ → Bool
  | 0, _ => false
  | fuel + 1, s =>
    match step p h s with
    | .ok .next t => rollsOut p h fuel t
    | _ => decide (LeavesEmpty p s.toInterpreter)

theorem clean_of_rollsOut {fuel : Nat} {s u : Machine n σ} (rolls : rollsOut p h fuel s = true)
    (path : Relation.ReflTransGen (Next p h) s u) : (∃ v, Next p h u v) ∨ LeavesEmpty p u.toInterpreter := by
  induction fuel generalizing s with
  | zero => cases rolls
  | succ fuel ih =>
    rw [rollsOut] at rolls
    split at rolls
    · rename_i t next
      rcases path.cases_head with rfl | ⟨v, first, rest⟩
      · exact .inl ⟨t, next⟩
      · cases next.symm.trans first
        exact ih rolls rest
    · rename_i stops
      rcases path.cases_head with rfl | ⟨v, first, -⟩
      · exact .inr (of_decide_eq_true rolls)
      · exact absurd first (stops v)

theorem Invocation.clean_of_rollsOut {c : Invocation} {i : Interpreter} (fuel : Nat)
    (enters : returns (c.enter p) () (c.machine i))
    (rolls : rollsOut p c.host fuel (after (c.enter p) (c.machine i)) = true) : c.Clean p i where
  refused e t failed := by
    cases (ok_of_returns enters).symm.trans failed
  runs t u entered path := by
    have first : after (c.enter p) (c.machine i) = t := by
      unfold after
      rw [entered]
    exact Wasm.clean_of_rollsOut (first ▸ rolls) path

end Rolls

/-- Function 0 hands its argument to function 1, which stores it at address 0. -/
def storing : List Byte :=
  wasmMagic ++ wasmVersion ++ Section.bytes (secType, [0x01, 0x60, 0x01, valI32, 0x00]) ++
    Section.bytes (secFunction, [0x02, 0x00, 0x00]) ++
    Section.bytes (secCode, [0x02] ++ counted ([0x00] ++ [0x20, 0x00, 0x10, 0x01, 0x0B]) ++
      counted ([0x00] ++ [0x41, 0x00, 0x20, 0x00, 0x36, 0x02, 0x00, 0x0B]))

/-- A call of function 0 with a memory of eight bytes. -/
def storeCall (arg : Word) : Invocation where
  n := 8
  σ := Unit
  host := noHost 8
  funcIdx := 0
  args := [arg]
  memory := fun _ => 0
  hostState := ()
  fuel := 7

theorem reuses_of_clean_storing :
    Series (fun c => c.Reuses (loaded storing)) (loaded storing) {} [storeCall 7, storeCall 300] := by
  have known : (((loaded storing).signature 0).map FuncType.paramCount) = some 1 := by decide +kernel
  apply reuses_of_clean _ ⟨rfl, rfl, rfl⟩
  · exact ⟨Invocation.ends_of_returns none known (by decide +kernel), Invocation.ends_of_returns none known (by decide +kernel),
      trivial⟩
  · exact ⟨Invocation.clean_of_rollsOut 7 (by decide +kernel) (by decide +kernel),
      Invocation.clean_of_rollsOut 7 (by decide +kernel) (by decide +kernel), trivial⟩

end GooseOs.Wasm
