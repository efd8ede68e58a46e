import GooseOs.Wasm.Operations
import GooseOs.Wasm.Reuse

/-!
Branches to a function's own label. WebAssembly takes such a branch for a return; the interpreter takes it for
a branch to a block's end and keeps the frame.
-/

namespace GooseOs.Wasm

variable {n : Nat} {σ : Type} {p : Program} {h : HostFunctions n σ} {s u : Machine n σ} {frame : CallFrame}
  {depth : BitVec 32}

/-! ### What an instruction leaves -/

/-- The part of an interpreter in use. -/
structure View where
  pc : Nat
  operands : List Word
  labels : List Label
  frames : List CallFrame

def Interpreter.view (s : Interpreter) : View where
  pc := s.pc
  operands := (List.ofFn s.stack).take s.sp
  labels := (List.ofFn s.labels).take s.labelDepth
  frames := (List.ofFn s.frames).take s.frameDepth

/-- The interpreter goes on, `call_function` returns, or it traps. -/
inductive Effect where
  | goesOn (view : View)
  | finishes (result : Option Word)
  | stops (stop : Stop TrapKind)

def effect (x : Exec n σ Outcome) (s : Machine n σ) : Effect :=
  match x s with
  | .ok .next t => .goesOn t.view
  | .ok (.done result) _ => .finishes result
  | .error stop _ => .stops stop

/-- The branch instruction is taken in `s`; `u` is `s` without the condition. -/
inductive Taken (depth : BitVec 32) : Instr → Machine n σ → Machine n σ → Prop
  | br (s : Machine n σ) : Taken depth (.br depth) s s
  | brIf {s u : Machine n σ} (cond : BitVec 32) (popped : popU32 s = .ok cond u) (nonzero : cond ≠ 0) :
      Taken depth (.brIf depth) s u

/-- A branch of this depth goes to the running function's own label, which is as `enter_function` pushed it. -/
structure TargetsFunction (p : Program) (depth : BitVec 32) (frame : CallFrame) (s : Interpreter) : Prop where
  running : s.running = some frame
  outermost : s.labelDepth = frame.labelBase + 1 + depth.toNat
  label : ∃ body ∈ p.body frame.funcIdx, s.branchTarget depth = some
    { targetPc := body.offset + body.length, stackDepth := frame.stackDepth, resultCount := frame.resultCount }

/-- A function that has just been entered has no other label. -/
theorem targetsFunction_entered {funcIdx : BitVec 32} {returnPc : Nat} {e : Entry}
    (entered : Entered p funcIdx returnPc e s u) :
    TargetsFunction p 0 (e.frame funcIdx returnPc s.toInterpreter) u.toInterpreter := by
  have known := entered.known
  obtain ⟨frameRoom, labelRoom, -, -, -, -, -, -, -, rfl⟩ := entered
  refine ⟨?_, rfl, e.body, known, ?_⟩
  · unfold Interpreter.running
    rw [if_pos (Nat.succ_pos _)]
    exact FixedArray.at?_update.trans (if_pos rfl)
  · exact FixedArray.at?_update.trans (if_pos rfl)

/-! ### Both ways to leave -/

/-- The result does not fit on the stack below the frame. -/
def NoRoom (frame : CallFrame) (s : Interpreter) : Prop :=
  maxStack ≤ frame.stackDepth ∧ 0 < frame.resultCount ∧ 0 < s.sp

theorem wp_resultAbove {resultCount floor : Nat} {Q : Option Word → Machine n σ → Prop}
    {E : Stop TrapKind → Machine n σ → Prop} (room : 0 < resultCount → s.sp ≤ maxStack)
    (rest : (0 < resultCount ∧ floor < s.sp → ∀ val, Q (some val) s) ∧ (¬ (0 < resultCount ∧ floor < s.sp) → Q none s)) :
    wp (resultAbove resultCount floor) Q E s := by
  rw [resultAbove, wp_bind, wp_get, wp_ite]
  split
  · next wanted =>
    rw [wp_map, top, wp_bind, wp_get, wp_bind, wp_minus, if_pos (by omega), wp_load,
      dif_pos (by have room := room wanted.1; omega)]
    exact rest.1 wanted _
  · next unwanted => exact rest.2 unwanted

theorem wp_pushResult {result : Option Word} {Q : Unit → Machine n σ → Prop} {E : Stop TrapKind → Machine n σ → Prop}
    (fits : (s.sp < maxStack ∨ result = none) → ∀ stack sp, Q () { s with stack, sp })
    (full : maxStack ≤ s.sp → result ≠ none → E (.error .stackOverflow) s) : wp (pushResult result) Q E s := by
  cases result with
  | none => exact fits (.inr rfl) s.stack s.sp
  | some val =>
    rw [pushResult, push, wp_bind, wp_get, wp_bind, wp_failIf]
    split
    · next high => exact full high (Option.some_ne_none val)
    · next room =>
      have : maxStack = 256 := rfl
      rw [wp_bind, wp_store, dif_pos (Nat.lt_of_not_le room), wp_bind, wp_plus, if_pos (by omega), wp_set]
      exact fits (.inl (Nat.lt_of_not_le room)) _ _

theorem wp_doBranch_home (targets : TargetsFunction p depth frame s.toInterpreter) (room : s.sp ≤ maxStack) :
    wp (doBranch depth) (fun _ t => ¬ NoRoom frame s.toInterpreter ∧ t.frameDepth = s.frameDepth)
      (fun stop _ => stop = .error .stackOverflow ∧ NoRoom frame s.toInterpreter) s := by
  obtain ⟨running, outermost, body, -, there⟩ := targets
  have found : getLabel depth s = .ok _ s := (getLabel_ok running).mpr ⟨by omega, by omega, there, rfl⟩
  have popped := (@popLabels_ok n σ { s with sp := frame.stackDepth } _ depth ()
    (by show depth.toNat < s.labelDepth; omega)).mpr rfl
  rw [doBranch, wp_bind, wp_ok found]
  show wp (branchOut _ depth) _ _ s
  rw [branchOut, wp_bind]
  apply wp_resultAbove fun _ => room
  constructor
  · intro wanted val
    rw [wp_bind, setSp, wp_modify, wp_bind, wp_ok popped, wp_bind, if_pos wanted.1]
    apply wp_pushResult
    · exact fun fits stack sp => ⟨fun full => by rcases fits with low | ⟨⟨⟩⟩; exact absurd full.1 (Nat.not_le_of_lt low), rfl⟩
    · exact fun full _ => ⟨rfl, full, wanted⟩
  · intro unwanted
    rw [wp_bind, setSp, wp_modify, wp_bind, wp_ok popped, wp_bind, ite_self]
    exact ⟨fun full => unwanted full.2, rfl⟩

theorem wp_leaveFunction_home (running : s.running = some frame) (room : 0 < frame.resultCount → s.sp ≤ maxStack) :
    wp leaveFunction (fun outcome t => ¬ NoRoom frame s.toInterpreter ∧ (outcome = .next → t.frameDepth + 1 = s.frameDepth))
      (fun stop _ => stop = .error .stackOverflow ∧ NoRoom frame s.toInterpreter) s := by
  have deep := (frameDepth_of_running running).1
  have rest : ∀ (t : Machine n σ) (result : Option Word), t.frameDepth = s.frameDepth → ¬ NoRoom frame s.toInterpreter →
      wp (do
        let s ← get
        let frameDepth ← minus s.frameDepth 1
        set { s with labelDepth := frame.labelBase, frameDepth }
        if frameDepth = 0 then pure (.done result)
        else
          setPc frame.returnPc
          pure .next : Exec n σ Outcome)
        (fun outcome t => ¬ NoRoom frame s.toInterpreter ∧ (outcome = .next → t.frameDepth + 1 = s.frameDepth))
        (fun stop _ => stop = .error .stackOverflow ∧ NoRoom frame s.toInterpreter) t := by
    intro t result same fits
    rw [wp_bind, wp_get, wp_bind, wp_minus, if_pos (by omega), wp_bind, wp_set, wp_ite]
    split
    · exact ⟨fits, nofun⟩
    · exact ⟨fits, fun _ => by show t.frameDepth - 1 + 1 = s.frameDepth; omega⟩
  rw [leaveFunction, wp_bind, wp_ok (topFrame_ok.mpr ⟨running, rfl⟩), wp_bind, passResult, wp_bind]
  apply wp_resultAbove room
  constructor
  · intro wanted val
    rw [wp_bind, setSp, wp_modify, wp_bind]
    apply wp_pushResult
    · intro fits stack sp
      refine rest _ _ rfl fun full => ?_
      rcases fits with low | ⟨⟨⟩⟩
      exact absurd full.1 (Nat.not_le_of_lt low)
    · exact fun full _ => ⟨rfl, full, wanted⟩
  · intro unwanted
    rw [wp_bind, setSp, wp_modify, wp_bind]
    exact rest _ _ rfl fun full => unwanted full.2

/-! ### Branch and return -/

theorem exec_return (running : u.running = some frame) : exec p h .returnOp u = leaveFunction u := by
  have deep := (frameDepth_of_running running).1
  rw [exec, execReturn, bind_run (get_eq_ok.mpr ⟨rfl, rfl⟩), if_neg (by omega)]

theorem Taken.exec {instr : Instr} (taken : Taken depth instr s u) :
    exec p h instr s = (do doBranch depth; pure .next : Exec n σ Outcome) u := by
  cases taken with
  | br => rfl
  | brIf cond popped nonzero =>
    rw [Wasm.exec, execSimple, bind_assoc, bind_run popped, if_pos nonzero]
    all_goals
      intro same
      cases same

theorem effects_full {instr : Instr} (taken : Taken depth instr s u)
    (targets : TargetsFunction p depth frame u.toInterpreter) (room : u.sp ≤ maxStack)
    (full : NoRoom frame u.toInterpreter) :
    effect (exec p h instr) s = effect (exec p h .returnOp) u := by
  have branch := wp_doBranch_home targets room
  have back := wp_leaveFunction_home targets.running fun _ => room
  unfold wp at branch back
  unfold effect
  rw [exec_return targets.running, taken.exec]
  simp only [bind, EStateM.bind]
  cases first : doBranch depth u with
  | ok _ t =>
    rw [first] at branch
    exact absurd full branch.1
  | error stop t =>
    rw [first] at branch
    cases second : leaveFunction u with
    | ok outcome t' =>
      rw [second] at back
      exact absurd full back.1
    | error stop' t' =>
      rw [second] at back
      rw [branch.1, back.1]

theorem effects_differ {instr : Instr} (taken : Taken depth instr s u)
    (targets : TargetsFunction p depth frame u.toInterpreter) (room : u.sp ≤ maxStack)
    (fits : ¬ NoRoom frame u.toInterpreter) : effect (exec p h instr) s ≠ effect (exec p h .returnOp) u := by
  have branch := wp_doBranch_home targets room
  have back := wp_leaveFunction_home targets.running fun _ => room
  unfold wp at branch back
  unfold effect
  rw [exec_return targets.running, taken.exec]
  simp only [bind, EStateM.bind]
  cases first : doBranch depth u with
  | error stop t =>
    rw [first] at branch
    exact absurd branch.2 fits
  | ok _ t =>
    rw [first] at branch
    cases second : leaveFunction u with
    | error stop' t' =>
      rw [second] at back
      exact absurd back.2 fits
    | ok outcome t' =>
      rw [second] at back
      cases outcome with
      | done result => nofun
      | next =>
        intro same
        obtain ⟨deep, few⟩ := frameDepth_of_running targets.running
        have kept := branch.2
        have left := back.2 rfl
        have frames := congrArg (fun view => view.frames.length) (Effect.goesOn.inj same)
        simp only [Interpreter.view, List.length_take, List.length_ofFn] at frames
        omega

/-- A taken branch to the function's label does what `return` does there only where both trap because the result
does not fit. -/
theorem branch_returns_iff {instr : Instr} (taken : Taken depth instr s u)
    (targets : TargetsFunction p depth frame u.toInterpreter) (room : u.sp ≤ maxStack) :
    effect (exec p h instr) s = effect (exec p h .returnOp) u ↔ NoRoom frame u.toInterpreter :=
  ⟨fun same => by_contra fun fits => effects_differ taken targets room fits same, effects_full taken targets room⟩

/-- `br 0` and `end` -/
def branchHome : List Byte := oneFunction [] [0x0C, 0x00, 0x0B]

namespace branchHome

/-- The state in which its function starts. -/
def start : Machine 0 Unit := started (loaded branchHome) 0 [] nofun ()

theorem computed : accepts branchHome ∧ (loaded branchHome).validBody 0 2 ∧
    returns (do pushArgs []; enterFunction (loaded branchHome) 0 0) () ({ memory := nofun, host := () } : Machine 0 Unit) ∧
    returns (Reader.fetch (loaded branchHome).code) (.br 0) start.pc ∧ start.sp = 0 := by
  decide +kernel

theorem entered : ∃ e s, Entered (loaded branchHome) 0 0 e s start := by
  obtain ⟨s, entered, -⟩ := started_enters computed.2.2.1
  obtain ⟨e, entered⟩ := wp_of_ok (enterFunction_ok 0 0) entered
  exact ⟨e, s, entered⟩

theorem targets : ∃ frame, TargetsFunction (loaded branchHome) 0 frame start.toInterpreter ∧ frame.funcIdx = 0 := by
  obtain ⟨e, s, entered⟩ := entered
  exact ⟨_, targetsFunction_entered entered, rfl⟩

end branchHome

open branchHome in
theorem branch_returns_iff_branchHome : ∃ frame, effect (exec (loaded branchHome) (noHost 0) (.br 0)) start =
    effect (exec (loaded branchHome) (noHost 0) .returnOp) start ↔ NoRoom frame start.toInterpreter := by
  obtain ⟨-, -, -, -, empty⟩ := computed
  obtain ⟨frame, targets, -⟩ := targets
  exact ⟨frame, branch_returns_iff (.br start) targets (by rw [empty]; exact Nat.zero_le maxStack)⟩

open branchHome in
theorem branchHome_reached : ∃ s : Machine 0 Unit, Reached (loaded branchHome) (noHost 0) s ∧ s.sp = 0 ∧
    (∃ pc, Reader.fetch (loaded branchHome).code s.pc = .ok (.br 0) pc) ∧
    ∃ frame, TargetsFunction (loaded branchHome) 0 frame s.toInterpreter ∧ frame.funcIdx = 0 := by
  obtain ⟨-, -, enters, fetched, empty⟩ := computed
  exact ⟨start, reached_started enters, empty, ⟨_, ok_of_returns fetched⟩, targets⟩

theorem branch_not_return : ¬ ∀ (p : Program) (s u : Machine 0 Unit) (instr : Instr) (pc : Nat) (depth : BitVec 32)
    (frame : CallFrame), parse p.code = .ok p.module → p.numImports.toNat = p.module.importCount →
    p.ValidBody frame.funcIdx → Reached p (noHost 0) s → Reader.fetch p.code s.pc = .ok instr pc →
    Taken depth instr { s with pc } u → TargetsFunction p depth frame u.toInterpreter →
    effect (exec p (noHost 0) instr) { s with pc } = effect (exec p (noHost 0) .returnOp) u := by
  intro same
  obtain ⟨accepted, valid, -⟩ := branchHome.computed
  obtain ⟨s, reached, empty, ⟨pc, fetched⟩, frame, ⟨running, outermost, label⟩, function⟩ := branchHome_reached
  have targets : TargetsFunction (loaded branchHome) 0 frame ({ s with pc } : Machine 0 Unit).toInterpreter :=
    ⟨running, outermost, label⟩
  have equal := same _ s { s with pc } _ pc _ frame (parse_loaded accepted) (imports_loaded accepted)
    (function ▸ Program.validBody_sound valid) reached fetched (.br _) targets
  have positive : ¬ 0 < s.sp := by omega
  exact effects_differ (.br _) targets (by show s.sp ≤ _; omega) (fun full => positive full.2.2) equal

end GooseOs.Wasm
