import GooseOs.Lib.Piles
import GooseOs.Wasm.Validation

/-!
What each operation of the interpreter does when it returns, as equations between the machine before and after.
The invariants of execution are read off these.
-/

namespace GooseOs.Wasm

variable {n : Nat} {σ α : Type} {p : Program} {h : HostFunctions n σ} {s t : Machine n σ}

/-! ### Operand stack -/

/-- The operand `k` below the top. -/
def Interpreter.operand (s : Interpreter) (k : Nat) : Option Word :=
  if k < s.sp then s.stack.at? (s.sp - 1 - k) else none

theorem Interpreter.operand_inside {s : Interpreter} {k : Nat} {v : Word} (there : s.operand k = some v) :
    k < s.sp ∧ s.sp - 1 - k < maxStack := by
  unfold Interpreter.operand at there
  split at there
  · next above =>
    obtain ⟨inside, _⟩ := FixedArray.at?_eq_some.mp there
    exact ⟨above, inside⟩
  · cases there

/-- The second operand is on top when the first is popped. -/
theorem Interpreter.operand_pop {s : Interpreter} : ({ s with sp := s.sp - 1 } : Interpreter).operand 0 = s.operand 1 := by
  unfold Interpreter.operand
  by_cases deep : 1 < s.sp
  · rw [if_pos deep, if_pos (show 0 < s.sp - 1 by omega)]
    rfl
  · rw [if_neg deep, if_neg (show ¬ 0 < s.sp - 1 by omega)]

theorem push_ok {val : Word} {u : Unit} : push val s = .ok u t ↔ ∃ inside : s.sp < maxStack,
    t = { s with stack := Function.update s.stack ⟨s.sp, inside⟩ val, sp := s.sp + 1 } := by
  unfold push
  simp only [bind_eq_ok, get_eq_ok, failIf_eq_ok, store_eq_ok, plus_eq_ok, set_eq_ok]
  constructor
  · rintro ⟨_, _, ⟨rfl, rfl⟩, _, _, ⟨room, rfl⟩, _, _, ⟨inside, rfl, rfl⟩, _, _, ⟨-, rfl, rfl⟩, rfl⟩
    exact ⟨inside, rfl⟩
  · rintro ⟨inside, rfl⟩
    refine ⟨_, _, ⟨rfl, rfl⟩, (), _, ⟨Nat.not_le_of_lt inside, rfl⟩, _, _, ⟨inside, rfl, rfl⟩, _, _, ⟨?_, rfl, rfl⟩, rfl⟩
    have : maxStack = 256 := rfl
    omega

theorem pop_ok {val : Word} : pop s = .ok val t ↔ s.operand 0 = some val ∧ t = { s with sp := s.sp - 1 } := by
  unfold pop Interpreter.operand
  simp only [bind_eq_ok, get_eq_ok, failIf_eq_ok, minus_eq_ok, set_eq_ok, FixedArray.load_at?]
  constructor
  · rintro ⟨_, _, ⟨rfl, rfl⟩, _, _, ⟨some_, rfl⟩, _, _, ⟨-, rfl, rfl⟩, _, _, rfl, there, rfl⟩
    rw [if_pos (by omega)]
    exact ⟨there, rfl⟩
  · rintro ⟨there, rfl⟩
    split at there
    · next some_ => exact ⟨_, _, ⟨rfl, rfl⟩, (), _, ⟨by omega, rfl⟩, _, _, ⟨by omega, rfl, rfl⟩, (), _, rfl, there, rfl⟩
    · cases there

theorem popU32_ok {val : BitVec 32} : popU32 s = .ok val t ↔
    ∃ word, s.operand 0 = some word ∧ val = Meaning.low word ∧ t = { s with sp := s.sp - 1 } := by
  unfold popU32
  rw [map_eq_ok]
  constructor
  · rintro ⟨word, popped, rfl⟩
    obtain ⟨there, rfl⟩ := pop_ok.mp popped
    exact ⟨word, there, rfl, rfl⟩
  · rintro ⟨word, there, rfl, rfl⟩
    exact ⟨word, pop_ok.mpr ⟨there, rfl⟩, rfl⟩

theorem top_ok {val : Word} : top s = .ok val t ↔ s.operand 0 = some val ∧ t = s := by
  unfold top Interpreter.operand
  simp only [bind_eq_ok, get_eq_ok, minus_eq_ok, FixedArray.load_at?]
  constructor
  · rintro ⟨_, _, ⟨rfl, rfl⟩, _, _, ⟨some_, rfl, rfl⟩, there, rfl⟩
    rw [if_pos (by omega)]
    exact ⟨there, rfl⟩
  · rintro ⟨there, rfl⟩
    split at there
    · exact ⟨_, _, ⟨rfl, rfl⟩, _, _, ⟨by omega, rfl, rfl⟩, there, rfl⟩
    · cases there

/-- The value that is passed on, if one is wanted and the stack is above `floor`. -/
def Interpreter.passed (s : Interpreter) (resultCount floor : Nat) : Option Word :=
  if 0 < resultCount ∧ floor < s.sp then s.operand 0 else none

theorem resultAbove_ok {resultCount floor : Nat} {result : Option Word}
    (returns : resultAbove resultCount floor s = .ok result t) :
    t = s ∧ result = s.passed resultCount floor ∧ (0 < resultCount → floor < s.sp → ∃ val, result = some val) := by
  obtain ⟨_, _, got, rest⟩ := bind_eq_ok.mp returns
  obtain ⟨rfl, rfl⟩ := get_eq_ok.mp got
  unfold Interpreter.passed
  split at rest
  · next wanted =>
    obtain ⟨val, taken, rfl⟩ := map_eq_ok.mp rest
    obtain ⟨there, rfl⟩ := top_ok.mp taken
    exact ⟨rfl, by rw [if_pos wanted, there], fun _ _ => ⟨val, rfl⟩⟩
  · next unwanted =>
    cases rest
    exact ⟨rfl, by rw [if_neg unwanted], fun one two => absurd ⟨one, two⟩ unwanted⟩

/-- The stack goes back to `height` and gets the result on top. -/
def Lays (height : Nat) (result : Option Word) (s t : Machine n σ) : Prop :=
  match result with
  | none => t = { s with sp := height }
  | some val => ∃ inside : height < maxStack,
      t = { s with stack := Function.update s.stack ⟨height, inside⟩ val, sp := height + 1 }

theorem pushResult_ok {result : Option Word} {u : Unit} {height : Nat}
    (returns : pushResult result { s with sp := height } = .ok u t) : Lays height result s t := by
  cases result with
  | none =>
    cases returns
    rfl
  | some val =>
    obtain ⟨inside, rfl⟩ := push_ok.mp returns
    exact ⟨inside, rfl⟩

theorem Lays.pushed {result : Option Word} {height : Nat} (lays : Lays height result s t) :
    pushResult result { s with sp := height } = .ok () t := by
  cases result with
  | none =>
    cases lays
    rfl
  | some val =>
    obtain ⟨inside, rfl⟩ := lays
    exact push_ok.mpr ⟨inside, rfl⟩

theorem Lays.shape {height : Nat} {result : Option Word} (lays : Lays height result s t) :
    ∃ stack, t = { s with stack, sp := height + result.toList.length } := by
  cases result with
  | none => exact ⟨s.stack, lays⟩
  | some val =>
    obtain ⟨inside, rfl⟩ := lays
    exact ⟨_, rfl⟩

theorem Lays.below {height : Nat} {result : Option Word} (lays : Lays height result s t) :
    ∀ i, i < height → t.stack.at? i = s.stack.at? i := by
  intro i low
  cases result with
  | none =>
    cases lays
    rfl
  | some val =>
    obtain ⟨inside, rfl⟩ := lays
    exact FixedArray.at?_update.trans (if_neg (Nat.ne_of_lt low))

theorem Lays.relabel {height pc labelDepth : Nat} {result : Option Word}
    (lays : Lays height result { s with labelDepth } t) :
    ∃ mid, Lays height result s mid ∧ ({ t with pc } : Machine n σ) = { mid with labelDepth, pc } := by
  cases result with
  | none =>
    cases lays
    exact ⟨_, rfl, rfl⟩
  | some val =>
    obtain ⟨inside, rfl⟩ := lays
    exact ⟨_, ⟨inside, rfl⟩, rfl⟩

/-! ### Frames and labels -/

theorem frameDepth_of_running {s : Interpreter} {frame : CallFrame} (running : s.running = some frame) :
    0 < s.frameDepth ∧ s.frameDepth ≤ maxCallDepth := by
  unfold Interpreter.running at running
  split at running
  · obtain ⟨inside, -⟩ := FixedArray.at?_eq_some.mp running
    exact ⟨by omega, by omega⟩
  · cases running

theorem topFrame_ok {frame : CallFrame} : topFrame s = .ok frame t ↔ s.running = some frame ∧ t = s := by
  unfold topFrame Interpreter.running
  simp only [bind_eq_ok, get_eq_ok, minus_eq_ok, FixedArray.load_at?]
  constructor
  · rintro ⟨_, _, ⟨rfl, rfl⟩, _, _, ⟨some_, rfl, rfl⟩, there, rfl⟩
    rw [if_pos (by omega)]
    exact ⟨there, rfl⟩
  · rintro ⟨there, rfl⟩
    split at there
    · exact ⟨_, _, ⟨rfl, rfl⟩, _, _, ⟨by omega, rfl, rfl⟩, there, rfl⟩
    · cases there

theorem labelBase_ok {frame : CallFrame} {base : Nat} (running : s.running = some frame) :
    labelBase s = .ok base t ↔ base = frame.labelBase ∧ t = s := by
  have deep := (frameDepth_of_running running).1
  unfold labelBase
  simp only [bind_eq_ok, get_eq_ok]
  constructor
  · rintro ⟨_, _, ⟨rfl, rfl⟩, rest⟩
    rw [if_pos deep] at rest
    obtain ⟨frame', found, rfl⟩ := map_eq_ok.mp rest
    obtain ⟨there, rfl⟩ := topFrame_ok.mp found
    rw [running] at there
    cases there
    exact ⟨rfl, rfl⟩
  · rintro ⟨rfl, rfl⟩
    refine ⟨_, _, ⟨rfl, rfl⟩, ?_⟩
    rw [if_pos deep]
    exact map_eq_ok.mpr ⟨frame, topFrame_ok.mpr ⟨running, rfl⟩, rfl⟩

/-- The label a branch of this depth goes to. -/
def Interpreter.branchTarget (s : Interpreter) (depth : BitVec 32) : Option Label :=
  s.labels.at? (s.labelDepth - 1 - depth.toNat)

theorem getLabel_ok {frame : CallFrame} {depth : BitVec 32} {label : Label} (running : s.running = some frame) :
    getLabel depth s = .ok label t ↔ depth.toNat < s.labelDepth ∧ frame.labelBase ≤ s.labelDepth - 1 - depth.toNat ∧
      s.branchTarget depth = some label ∧ t = s := by
  unfold getLabel Interpreter.branchTarget
  simp only [bind_eq_ok, get_eq_ok, failIf_eq_ok, minus_eq_ok, FixedArray.load_at?]
  constructor
  · rintro ⟨_, _, ⟨rfl, rfl⟩, _, _, ⟨deep, rfl⟩, base, _, based, _, _, ⟨-, rfl, rfl⟩, _, _, ⟨-, rfl, rfl⟩, _, _, ⟨own, rfl⟩,
      there, rfl⟩
    obtain ⟨rfl, rfl⟩ := (labelBase_ok running).mp based
    exact ⟨Nat.lt_of_not_le deep, Nat.le_of_not_lt own, there, rfl⟩
  · rintro ⟨deep, own, there, rfl⟩
    exact ⟨_, _, ⟨rfl, rfl⟩, (), _, ⟨Nat.not_le_of_lt deep, rfl⟩, frame.labelBase, _, (labelBase_ok running).mpr ⟨rfl, rfl⟩,
      _, _, ⟨by omega, rfl, rfl⟩, _, _, ⟨by omega, rfl, rfl⟩, (), _, ⟨Nat.not_lt_of_le own, rfl⟩, there, rfl⟩

theorem popLabels_ok {depth : BitVec 32} {u : Unit} (deep : depth.toNat < s.labelDepth) :
    popLabels depth s = .ok u t ↔ t = { s with labelDepth := s.labelDepth - (depth.toNat + 1) } := by
  have small := depth.isLt
  unfold popLabels dropLabels
  simp only [bind_eq_ok, get_eq_ok, plus_eq_ok]
  constructor
  · rintro ⟨_, _, ⟨-, rfl, rfl⟩, _, _, ⟨rfl, rfl⟩, rest⟩
    rw [if_pos (by omega)] at rest
    simp only [bind_eq_ok, get_eq_ok, minus_eq_ok, set_eq_ok] at rest
    obtain ⟨_, _, ⟨rfl, rfl⟩, _, _, ⟨-, rfl, rfl⟩, rfl⟩ := rest
    rfl
  · rintro rfl
    refine ⟨_, _, ⟨by omega, rfl, rfl⟩, _, _, ⟨rfl, rfl⟩, ?_⟩
    rw [if_pos (by omega)]
    simp only [bind_eq_ok, get_eq_ok, minus_eq_ok, set_eq_ok]
    exact ⟨_, _, ⟨rfl, rfl⟩, _, _, ⟨by omega, rfl, rfl⟩, rfl⟩

/-- A branch of the running function: to a loop header the labels stay; otherwise they go with the target's. -/
theorem doBranch_ok {frame : CallFrame} {depth : BitVec 32} {u : Unit} (running : s.running = some frame)
    (returns : doBranch depth s = .ok u t) : ∃ label, s.branchTarget depth = some label ∧ depth.toNat < s.labelDepth ∧
      frame.labelBase ≤ s.labelDepth - 1 - depth.toNat ∧
      if label.isLoop then t = { s with sp := label.stackDepth, pc := label.targetPc }
      else ∃ mid, Lays label.stackDepth (s.passed label.resultCount 0) s mid ∧
        t = { mid with labelDepth := s.labelDepth - (depth.toNat + 1), pc := label.targetPc } := by
  obtain ⟨label, here, found, rest⟩ := bind_eq_ok.mp returns
  obtain ⟨deep, own, there, same⟩ := (getLabel_ok running).mp found
  subst here
  refine ⟨label, there, deep, own, ?_⟩
  split
  · next isLoop =>
    rw [if_pos isLoop] at rest
    obtain ⟨_, _, first, second⟩ := bind_eq_ok.mp rest
    cases first
    cases second
    rfl
  · next other =>
    rw [if_neg other] at rest
    obtain ⟨result, here, first, rest⟩ := bind_eq_ok.mp rest
    obtain ⟨same, rfl, -⟩ := resultAbove_ok first
    subst here
    obtain ⟨_, _, lowered, rest⟩ := bind_eq_ok.mp rest
    cases lowered
    obtain ⟨_, _, popped, rest⟩ := bind_eq_ok.mp rest
    obtain rfl := (popLabels_ok (s := ({ s with sp := label.stackDepth } : Machine n σ)) deep).mp popped
    obtain ⟨_, _, pushed, rest⟩ := bind_eq_ok.mp rest
    cases rest
    have wanted : (if 0 < label.resultCount then s.passed label.resultCount 0 else none) = s.passed label.resultCount 0 := by
      unfold Interpreter.passed
      split
      · rfl
      · next none_ => rw [if_neg fun both => none_ both.1]
    rw [wanted] at pushed
    exact (pushResult_ok pushed).relabel

theorem pushLabel_ok {label : Label} {u : Unit} : pushLabel label s = .ok u t ↔ ∃ inside : s.labelDepth < maxLabels,
    t = { s with labels := Function.update s.labels ⟨s.labelDepth, inside⟩ label, labelDepth := s.labelDepth + 1 } := by
  unfold pushLabel
  simp only [bind_eq_ok, get_eq_ok, failIf_eq_ok, store_eq_ok, plus_eq_ok, set_eq_ok]
  constructor
  · rintro ⟨_, _, ⟨rfl, rfl⟩, _, _, ⟨room, rfl⟩, _, _, ⟨inside, rfl, rfl⟩, _, _, ⟨-, rfl, rfl⟩, rfl⟩
    exact ⟨inside, rfl⟩
  · rintro ⟨inside, rfl⟩
    refine ⟨_, _, ⟨rfl, rfl⟩, (), _, ⟨Nat.not_le_of_lt inside, rfl⟩, _, _, ⟨inside, rfl, rfl⟩, _, _, ⟨?_, rfl, rfl⟩, rfl⟩
    have : maxLabels = 32 := rfl
    omega

/-- The label on top. -/
def Interpreter.topmostLabel (s : Interpreter) : Option Label :=
  if 0 < s.labelDepth then s.labels.at? (s.labelDepth - 1) else none

theorem topLabel_ok {label : Label} : topLabel s = .ok label t ↔ s.topmostLabel = some label ∧ t = s := by
  unfold topLabel Interpreter.topmostLabel
  simp only [bind_eq_ok, get_eq_ok, minus_eq_ok, FixedArray.load_at?]
  constructor
  · rintro ⟨_, _, ⟨rfl, rfl⟩, _, _, ⟨some_, rfl, rfl⟩, there, rfl⟩
    rw [if_pos (by omega)]
    exact ⟨there, rfl⟩
  · rintro ⟨there, rfl⟩
    split at there
    · exact ⟨_, _, ⟨rfl, rfl⟩, _, _, ⟨by omega, rfl, rfl⟩, there, rfl⟩
    · cases there

theorem dropLabels_ok {count : Nat} {u : Unit} :
    dropLabels count s = .ok u t ↔ count ≤ s.labelDepth ∧ t = { s with labelDepth := s.labelDepth - count } := by
  unfold dropLabels
  simp only [bind_eq_ok, get_eq_ok, minus_eq_ok, set_eq_ok]
  constructor
  · rintro ⟨_, _, ⟨rfl, rfl⟩, _, _, ⟨enough, rfl, rfl⟩, rfl⟩
    exact ⟨enough, rfl⟩
  · rintro ⟨enough, rfl⟩
    exact ⟨_, _, ⟨rfl, rfl⟩, _, _, ⟨enough, rfl, rfl⟩, rfl⟩

/-! ### Ends -/

/-- Leaving a function: its result is laid on its stack depth, its labels and its frame go. -/
theorem leaveFunction_ok {outcome : Outcome} (returns : leaveFunction s = .ok outcome t) :
    ∃ frame mid, s.running = some frame ∧ Lays frame.stackDepth (s.passed frame.resultCount 0) s mid ∧
      ((s.frameDepth = 1 ∧ outcome = .done (s.passed frame.resultCount 0)) ∨
        (s.frameDepth ≠ 1 ∧ outcome = .next ∧ t = { mid with
          labelDepth := frame.labelBase, frameDepth := s.frameDepth - 1, pc := frame.returnPc })) := by
  obtain ⟨frame, here, found, rest⟩ := bind_eq_ok.mp returns
  obtain ⟨running, same⟩ := topFrame_ok.mp found
  subst here
  obtain ⟨result, mid, passes, rest⟩ := bind_eq_ok.mp rest
  obtain ⟨result', here, taken, passes⟩ := bind_eq_ok.mp passes
  obtain ⟨same, rfl, -⟩ := resultAbove_ok taken
  subst here
  obtain ⟨_, _, lowered, passes⟩ := bind_eq_ok.mp passes
  cases lowered
  obtain ⟨_, _, pushed, passes⟩ := bind_eq_ok.mp passes
  cases passes
  have lays := pushResult_ok pushed
  obtain ⟨stack, rfl⟩ := lays.shape
  refine ⟨frame, _, running, lays, ?_⟩
  obtain ⟨_, _, got, rest⟩ := bind_eq_ok.mp rest
  cases got
  obtain ⟨_, _, fewer, rest⟩ := bind_eq_ok.mp rest
  obtain ⟨positive, rfl, rfl⟩ := minus_eq_ok.mp fewer
  obtain ⟨_, _, kept, rest⟩ := bind_eq_ok.mp rest
  cases kept
  dsimp only at positive rest
  split at rest
  · next bottom =>
    cases rest
    exact .inl ⟨by omega, rfl⟩
  · next inner =>
    cases rest
    exact .inr ⟨by omega, rfl, rfl⟩

/-- What the end of a block, loop or if leaves of the operands. -/
def Settles (label : Label) (s t : Machine n σ) : Prop :=
  if label.isLoop = false ∧ 0 < label.resultCount ∧ label.stackDepth < s.sp then
    ∃ val, s.operand 0 = some val ∧ Lays label.stackDepth (some val) s t
  else if label.stackDepth + label.resultCount < s.sp then t = { s with sp := label.stackDepth }
  else t = s

theorem Settles.shape {label : Label} (settles : Settles label s t) : ∃ stack sp, t = { s with stack, sp } := by
  unfold Settles at settles
  split at settles
  · obtain ⟨val, -, lays⟩ := settles
    obtain ⟨stack, rfl⟩ := lays.shape
    exact ⟨_, _, rfl⟩
  · split at settles
    · exact ⟨_, _, settles⟩
    · exact ⟨_, _, settles⟩

theorem settle_ok {label : Label} {u : Unit} (returns : settle label s = .ok u t) : Settles label s t := by
  obtain ⟨_, _, got, rest⟩ := bind_eq_ok.mp returns
  cases got
  unfold Settles
  split at rest
  · next wanted =>
    rw [if_pos wanted]
    obtain ⟨val, here, taken, rest⟩ := bind_eq_ok.mp rest
    obtain ⟨there, same⟩ := top_ok.mp taken
    subst here
    obtain ⟨_, _, lowered, rest⟩ := bind_eq_ok.mp rest
    cases lowered
    exact ⟨val, there, @pushResult_ok _ _ _ _ (some val) _ _ rest⟩
  · next unwanted =>
    rw [if_neg unwanted]
    obtain ⟨_, _, sum, rest⟩ := bind_eq_ok.mp rest
    obtain ⟨-, rfl, same⟩ := plus_eq_ok.mp sum
    cases same
    split at rest
    · next above =>
      cases rest
      rw [if_pos above]
    · next below =>
      cases rest
      rw [if_neg below]

theorem endBlock_ok {u : Unit} (returns : endBlock s = .ok u t) : ∃ label mid, s.topmostLabel = some label ∧
    Settles label s mid ∧ t = { mid with labelDepth := mid.labelDepth - 1 } := by
  obtain ⟨label, here, found, rest⟩ := bind_eq_ok.mp returns
  obtain ⟨there, same⟩ := topLabel_ok.mp found
  subst here
  obtain ⟨_, mid, settles, rest⟩ := bind_eq_ok.mp rest
  obtain ⟨-, rfl⟩ := dropLabels_ok.mp rest
  exact ⟨label, mid, there, settle_ok settles, rfl⟩

theorem settleElse_ok {label : Label} {u : Unit} (returns : settleElse label s = .ok u t) :
    Lays label.stackDepth (s.passed label.resultCount label.stackDepth) s t := by
  obtain ⟨result, here, taken, rest⟩ := bind_eq_ok.mp returns
  obtain ⟨same, rfl, -⟩ := resultAbove_ok taken
  subst here
  obtain ⟨_, _, lowered, rest⟩ := bind_eq_ok.mp rest
  cases lowered
  unfold attempt at rest
  split at rest
  · next pushed =>
    cases rest
    exact pushResult_ok pushed
  · next stop _ refused =>
    -- a value to push comes from above the label's stack depth, so there is room for it
    unfold Interpreter.passed Interpreter.operand at refused
    split at refused
    · next wanted =>
      split at refused
      · cases found : s.stack.at? (s.sp - 1 - 0) with
        | none =>
          rw [found] at refused
          cases refused
        | some val =>
          obtain ⟨inside, -⟩ := FixedArray.at?_eq_some.mp found
          rw [found] at refused
          have room : label.stackDepth < maxStack := by omega
          have pushed := (@push_ok n σ { s with sp := label.stackDepth } _ val ()).mpr
            ⟨room, rfl⟩
          cases pushed.symm.trans refused
      · cases refused
    · cases refused
  · cases rest

theorem execElse_ok {u : Unit} (returns : execElse s = .ok u t) (labelled : 0 < s.labelDepth) :
    ∃ label mid, s.topmostLabel = some label ∧ Lays label.stackDepth (s.passed label.resultCount label.stackDepth) s mid ∧
      t = { mid with labelDepth := mid.labelDepth - 1, pc := label.targetPc } := by
  obtain ⟨_, _, got, rest⟩ := bind_eq_ok.mp returns
  cases got
  rw [if_pos labelled] at rest
  obtain ⟨label, here, found, rest⟩ := bind_eq_ok.mp rest
  obtain ⟨there, same⟩ := topLabel_ok.mp found
  subst here
  obtain ⟨_, mid, settles, rest⟩ := bind_eq_ok.mp rest
  obtain ⟨_, _, dropped, rest⟩ := bind_eq_ok.mp rest
  obtain ⟨-, rfl⟩ := dropLabels_ok.mp dropped
  cases rest
  exact ⟨label, mid, there, settleElse_ok settles, rfl⟩

/-- `END` of a function or of a block of the running function. -/
theorem execEnd_ok {frame : CallFrame} {outcome : Outcome} (running : s.running = some frame)
    (labelled : 0 < s.labelDepth)
    (returns : execEnd s = .ok outcome t) :
    if s.labelDepth - 1 = frame.labelBase then leaveFunction s = .ok outcome t
    else outcome = .next ∧ endBlock s = .ok () t := by
  obtain ⟨_, _, got, rest⟩ := bind_eq_ok.mp returns
  cases got
  rw [if_pos labelled] at rest
  obtain ⟨base, here, based, rest⟩ := bind_eq_ok.mp rest
  obtain ⟨rfl, same⟩ := (labelBase_ok running).mp based
  subst here
  obtain ⟨_, here, fewer, rest⟩ := bind_eq_ok.mp rest
  obtain ⟨-, rfl, same⟩ := minus_eq_ok.mp fewer
  subst here
  split at rest
  · next last => rwa [if_pos last]
  · next inner =>
    rw [if_neg inner]
    obtain ⟨_, _, ends, rest⟩ := bind_eq_ok.mp rest
    cases rest
    exact ⟨rfl, ends⟩

theorem execReturn_ok {frame : CallFrame} {outcome : Outcome} (running : s.running = some frame)
    (returns : execReturn s = .ok outcome t) : leaveFunction s = .ok outcome t := by
  have deep := (frameDepth_of_running running).1
  rwa [execReturn, bind_run (get_eq_ok.mpr ⟨rfl, rfl⟩), if_neg (by omega)] at returns

/-! ### Openings -/

theorem findEnd_ok {endPc : Nat} (returns : findEnd p s = .ok endPc t) :
    t = s ∧ Reader.skipToEnd p.code s.pc = .ok () endPc := by
  obtain ⟨_, _, got, rest⟩ := bind_eq_ok.mp returns
  cases got
  obtain ⟨_, _, skips, rest⟩ := bind_eq_ok.mp rest
  obtain ⟨stop, skipped, rfl⟩ := onPart_eq_ok.mp skips
  cases rest
  exact ⟨rfl, skipped⟩

theorem execBlock_ok {blockType : Byte} {u : Unit} (returns : execBlock p blockType s = .ok u t) :
    ∃ endPc, Reader.skipToEnd p.code s.pc = .ok () endPc ∧ pushLabel
      { targetPc := endPc, stackDepth := s.sp, resultCount := blockResults blockType, isLoop := false } s = .ok () t := by
  obtain ⟨endPc, here, found, rest⟩ := bind_eq_ok.mp returns
  obtain ⟨same, skipped⟩ := findEnd_ok found
  subst here
  exact ⟨endPc, skipped, rest⟩

/-- `IF`: the condition is popped; a true one enters the first branch, a false one goes to the second or past the end. -/
theorem execIf_ok {blockType : Byte} {u : Unit} (returns : execIf p blockType s = .ok u t) :
    ∃ word endPc, s.operand 0 = some word ∧ Reader.skipToEnd p.code s.pc = .ok () endPc ∧
      ∃ pc, (if Meaning.low word ≠ 0 then pc = s.pc ∧ pushLabel
          { targetPc := endPc, stackDepth := s.sp - 1, resultCount := blockResults blockType, isLoop := false }
            { s with sp := s.sp - 1, pc } = .ok () t
        else ∃ hasElse, Reader.skipToElseOrEnd p.code s.pc = .ok hasElse pc ∧
          if hasElse then pushLabel
            { targetPc := endPc, stackDepth := s.sp - 1, resultCount := blockResults blockType, isLoop := false }
              { s with sp := s.sp - 1, pc } = .ok () t
          else t = { s with sp := s.sp - 1, pc }) := by
  obtain ⟨cond, _, popped, rest⟩ := bind_eq_ok.mp returns
  obtain ⟨word, there, rfl, rfl⟩ := popU32_ok.mp popped
  obtain ⟨endPc, here, found, rest⟩ := bind_eq_ok.mp rest
  obtain ⟨same, skipped⟩ := findEnd_ok found
  subst here
  refine ⟨word, endPc, there, skipped, ?_⟩
  obtain ⟨_, _, got, rest⟩ := bind_eq_ok.mp rest
  cases got
  split at rest
  · next taken =>
    refine ⟨s.pc, ?_⟩
    rw [if_pos taken]
    exact ⟨rfl, rest⟩
  · next skippedOver =>
    obtain ⟨hasElse, _, skips, rest⟩ := bind_eq_ok.mp rest
    obtain ⟨pc, scanned, rfl⟩ := onPart_eq_ok.mp skips
    refine ⟨pc, ?_⟩
    rw [if_neg skippedOver]
    refine ⟨hasElse, scanned, ?_⟩
    cases hasElse with
    | true => exact rest
    | false =>
      cases rest
      rfl

/-! ### Instructions -/

/-- Every instruction but `end` and `return`. -/
def Instr.goesOn : Instr → Bool
  | .endOp | .returnOp => false
  | _ => true

theorem step_fetched {instr : Instr} {pc : Nat} (fetched : Reader.fetch p.code s.pc = .ok instr pc) :
    step p h s = exec p h instr { s with pc } := by
  have read : onPc (Reader.fetch p.code) s = .ok instr { s with pc } := onPart_eq_ok.mpr ⟨pc, fetched, rfl⟩
  rw [step, bind_run read]

theorem exec_ok {instr : Instr} {outcome : Outcome} (done : exec p h instr s = .ok outcome t) (goes : instr.goesOn) :
    outcome = .next ∧ execSimple p h instr s = .ok () t := by
  have split : exec p h instr = (do execSimple p h instr; pure .next : Exec n σ Outcome) := by
    unfold exec
    split <;> first | cases goes | rfl
  rw [split] at done
  obtain ⟨_, _, does, last⟩ := bind_eq_ok.mp done
  cases last
  exact ⟨rfl, does⟩

theorem execBrIf_ok {depth : BitVec 32} {u : Unit} (returns : execSimple p h (.brIf depth) s = .ok u t) :
    ∃ word, s.operand 0 = some word ∧
      if Meaning.low word ≠ 0 then doBranch depth { s with sp := s.sp - 1 } = .ok () t else t = { s with sp := s.sp - 1 } := by
  obtain ⟨cond, _, popped, rest⟩ := bind_eq_ok.mp returns
  obtain ⟨word, there, rfl, rfl⟩ := popU32_ok.mp popped
  refine ⟨word, there, ?_⟩
  split at rest
  · next taken => rwa [if_pos taken]
  · next not =>
    rw [if_neg not]
    cases rest
    rfl

theorem execCall_ok {target : BitVec 32} {u : Unit} (own : ¬ target < p.numImports)
    (returns : execSimple p h (.call target) s = .ok u t) : ∃ e, Entered p target s.pc e s t := by
  rw [execSimple, execCall, if_neg own] at returns
  obtain ⟨_, _, got, rest⟩ := bind_eq_ok.mp returns
  cases got
  exact wp_of_ok (enterFunction_ok target s.pc) rest

end GooseOs.Wasm
