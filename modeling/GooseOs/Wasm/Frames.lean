import GooseOs.Wasm.Entry
import GooseOs.Wasm.Safety
import Mathlib.Logic.Relation

/-!
What a call leaves alone. Frames share the operand stack, the locals and the labels; `Inside`
says that everything the callee can still reach lies above its caller's part.
-/

namespace GooseOs.Wasm

variable {n : Nat} {σ α β : Type}

/-- How many operands an instruction pops. -/
def Program.operands (p : Program) : Instr → Nat
  | .ifOp _ | .brIf _ | .drop | .localSet _ | .load _ _ _ | .memoryGrow _ => 1
  | .store _ _ _ => 2
  | .select => 3
  | .call target => ((p.signature target).map FuncType.paramCount).getD 0
  | .numeric op =>
    match op.meaning with
    | .unary _ => 1
    | .binary _ => 2
  | _ => 0

/-- The next instruction pops no more than the frame has pushed, and `else` and `end` find a label
of the frame. -/
def Guarded (p : Program) (s : Interpreter) : Prop :=
  ∀ instr pc frame, Reader.fetch p.code s.pc = .ok instr pc → s.running = some frame →
    p.operands instr ≤ s.sp - frame.stackDepth ∧
      (instr = .elseOp ∨ instr = .endOp → frame.labelBase < s.labelDepth)

/-- The instruction at the program counter. -/
def Program.instrAt (p : Program) (pc : Nat) : Option Instr :=
  match Reader.fetch p.code pc with
  | .ok instr _ => some instr
  | .error _ _ => none

theorem fetch_of_instrAt {p : Program} {pc : Nat} {instr : Instr} (known : p.instrAt pc = some instr) :
    ∃ next, Reader.fetch p.code pc = .ok instr next := by
  unfold Program.instrAt at known
  split at known
  · next read =>
    cases known
    exact ⟨_, read⟩
  · cases known

theorem guarded_iff {p : Program} {s : Interpreter} :
    Guarded p s ↔ ∀ instr ∈ p.instrAt s.pc, ∀ frame ∈ s.running, p.operands instr ≤ s.sp - frame.stackDepth ∧
      (instr = .elseOp ∨ instr = .endOp → frame.labelBase < s.labelDepth) := by
  unfold Guarded Program.instrAt
  cases read : Reader.fetch p.code s.pc with
  | error e pc => simp
  | ok instr pc =>
    constructor
    · rintro guarded _ ⟨⟩ frame running
      exact guarded instr pc frame rfl running
    · rintro guarded _ _ frame ⟨⟩ running
      exact guarded instr rfl frame running

instance (p : Program) (s : Interpreter) : Decidable (Guarded p s) := decidable_of_iff' _ guarded_iff

/-! ### The part of the machine below a call -/

/-- How much of each array belongs to a frame's callers. -/
structure Region where
  depth : Nat
  stack : Nat
  labels : Nat
  locals : Nat

/-- The callers' part is as it was. -/
structure Untouched (r : Region) (s t : Interpreter) : Prop where
  stack : ∀ i, i.val < r.stack → t.stack i = s.stack i
  locals : ∀ i, i.val < r.locals → t.locals i = s.locals i
  labels : ∀ i, i.val < r.labels → t.labels i = s.labels i
  frames : ∀ i, i.val < r.depth → t.frames i = s.frames i

/-- A frame whose part of each array lies above the region. -/
structure CallFrame.Above (r : Region) (frame : CallFrame) : Prop where
  stackDepth : r.stack ≤ frame.stackDepth
  labelBase : r.labels ≤ frame.labelBase
  localsBase : r.locals ≤ frame.localsBase

/-- Inside the call, with at least `k` operands above the region. -/
structure Inside (r : Region) (k : Nat) (s t : Interpreter) : Prop extends Untouched r s t where
  depth : r.depth < t.frameDepth
  room : t.frameDepth ≤ maxCallDepth
  sp : r.stack + k ≤ t.sp
  labelDepth : r.labels ≤ t.labelDepth
  frame : ∀ i, r.depth ≤ i.val → i.val < t.frameDepth → (t.frames i).Above r
  label : ∃ high, t.labelDepth ≤ high ∧
    (∀ i, r.depth ≤ i.val → i.val < t.frameDepth → (t.frames i).labelBase ≤ high) ∧
    ∀ i, r.labels ≤ i.val → i.val < high → r.stack ≤ (t.labels i).stackDepth
  base : ∀ i, i.val = r.depth → (t.frames i).labelBase = r.labels

variable {r : Region} {k l : Nat} {s t : Machine n σ}

theorem Inside.weaken {s t : Interpreter} (held : Inside r k s t) (less : l ≤ k) : Inside r l s t :=
  { held with sp := (Nat.add_le_add_left less _).trans held.sp }

/-- From inside the call with `k` operands to inside it with `l`. -/
def Stays (r : Region) (s : Machine n σ) (k l : Nat) (x : Exec n σ α) : Prop :=
  ∀ t, Inside r k s.toInterpreter t.toInterpreter →
    wp x (fun _ u => Inside r l s.toInterpreter u.toInterpreter) anyStop t

namespace Stays

theorem pure (a : α) : Stays r s k k (Pure.pure a : Exec n σ α) := fun _ held => held

theorem fail (e : TrapKind) : Stays r s k l (GooseOs.fail e : Exec n σ α) := fun _ _ => trivial

theorem weaken {j : Nat} {x : Exec n σ α} (stays : Stays r s k l x) (more : k ≤ j) : Stays r s j l x :=
  fun t held => stays t (held.weaken more)

theorem bind {m : Nat} {x : Exec n σ α} {f : α → Exec n σ β} (first : Stays r s k l x)
    (second : ∀ a, Stays r s l m (f a)) : Stays r s k m (x >>= f) := fun t held =>
  bind_of_wp (first t held) fun a u => second a u

theorem map {x : Exec n σ α} (f : α → β) (stays : Stays r s k l x) : Stays r s k l (f <$> x) := by
  intro t held
  rw [wp_map]
  exact stays t held

theorem ite {c : Prop} [Decidable c] {x y : Exec n σ α} (yes : Stays r s k l x) (no : Stays r s k l y) :
    Stays r s k l (if c then x else y) := by
  split
  · exact yes
  · exact no

end Stays

theorem stays_onPc (x : Reader α) : Stays r s k k (onPc x : Exec n σ α) := by
  intro t held
  apply wp_mono (moves_onPc x t)
  · rintro _ _ ⟨pc, rfl⟩
    exact { held with }
  · exact fun _ _ _ => trivial

theorem stays_onMemory {x : Exec n σ α} (moves : Moves OnMemory x) : Stays r s k k x := by
  intro t held
  apply wp_mono (moves t)
  · rintro _ _ ⟨memory, rfl⟩
    exact held
  · exact fun _ _ _ => trivial

/-! ### Operand stack -/

theorem stays_push (val : Word) : Stays r s k (k + 1) (push val : Exec n σ Unit) := by
  intro t held
  have above := held.sp
  apply bind_of_get
  apply bind_of_check
  intro room
  apply bind_of_store
  intro inside
  apply bind_of_plus
  refine { held with sp := by show r.stack + (k + 1) ≤ t.sp + 1; omega, stack := ?_ }
  intro i low
  have other : i ≠ ⟨t.sp, inside⟩ := Fin.val_ne_iff.mp (by show i.val ≠ t.sp; omega)
  exact (Function.update_of_ne other _ _).trans (held.stack i low)

theorem stays_pop : Stays r s (k + 1) k (pop : Exec n σ Word) := by
  intro t held
  have above := held.sp
  apply bind_of_get
  apply bind_of_check
  intro nonempty
  apply bind_of_minus
  intro _
  apply bind_of_set
  rw [wp_load]
  split
  · exact { held with sp := by show r.stack + k ≤ t.sp - 1; omega }
  · trivial

theorem stays_popU32 : Stays r s (k + 1) k (popU32 : Exec n σ (BitVec 32)) := stays_pop.map _

theorem stays_top : Stays r s k k (top : Exec n σ Word) := by
  intro t held
  apply bind_of_get
  apply bind_of_minus
  intro _
  rw [wp_load]
  split
  · exact held
  · trivial

theorem stays_resultAbove (resultCount floor : Nat) :
    Stays r s k k (resultAbove resultCount floor : Exec n σ (Option Word)) := by
  intro t held
  apply bind_of_get
  exact (stays_top.map some).ite (Stays.pure none) t held

theorem stays_pushResult (result : Option Word) : Stays r s k k (pushResult result : Exec n σ Unit) := by
  cases result with
  | none => exact Stays.pure ()
  | some val =>
    intro t held
    exact wp_mono (stays_push val t held) (fun _ _ more => more.weaken (Nat.le_succ k)) fun _ _ => id

theorem stays_setSp {sp : Nat} (above : r.stack + l ≤ sp) : Stays r s k l (setSp sp : Exec n σ Unit) :=
  fun _ held => { held with sp := above }

theorem stays_setPc (pc : Nat) : Stays r s k k (setPc pc : Exec n σ Unit) := fun _ held => { held with }

/-! ### Frames, locals and labels -/

theorem Inside.running {s t : Interpreter} (held : Inside r k s t) {frame : CallFrame}
    (running : t.running = some frame) : frame.Above r := by
  have depth := held.depth
  unfold Interpreter.running FixedArray.at? at running
  rw [if_pos (by omega)] at running
  split at running
  · cases running
    exact held.frame _ (by show r.depth ≤ t.frameDepth - 1; omega) (by show t.frameDepth - 1 < _; omega)
  · cases running

theorem stays_localSlot (idx : BitVec 32) (held : Inside r k s.toInterpreter t.toInterpreter) :
    wp (localSlot idx) (fun abs u => r.locals ≤ abs ∧ u = t) anyStop t := by
  apply bind_of_get
  apply bind_of_check
  intro _
  apply bind_of_topFrame
  intro frame running
  have above := (held.running running).localsBase
  apply bind_of_plus
  apply bind_of_check
  intro _
  exact ⟨by omega, rfl⟩

theorem stays_localGet (idx : BitVec 32) : Stays r s k k (localGet idx : Exec n σ Word) := by
  intro t held
  apply bind_of_wp (stays_localSlot idx held)
  rintro abs _ ⟨_, rfl⟩
  apply bind_of_get
  rw [wp_load]
  split
  · exact held
  · trivial

theorem stays_localSet (idx : BitVec 32) (val : Word) : Stays r s k k (localSet idx val : Exec n σ Unit) := by
  intro t held
  apply bind_of_wp (stays_localSlot idx held)
  rintro abs _ ⟨above, rfl⟩
  apply bind_of_get
  apply bind_of_store
  intro inside
  refine { held with locals := ?_ }
  intro i low
  have other : i ≠ ⟨abs, inside⟩ := Fin.val_ne_iff.mp (by show i.val ≠ abs; omega)
  exact (Function.update_of_ne other _ _).trans (held.locals i low)

theorem stays_pushLabel {label : Label} (above : r.stack ≤ label.stackDepth) :
    Stays r s k k (pushLabel label : Exec n σ Unit) := by
  intro t held
  have bound := held.labelDepth
  apply bind_of_get
  apply bind_of_check
  intro room
  apply bind_of_store
  intro inside
  apply bind_of_plus
  refine { held with labelDepth := by show r.labels ≤ t.labelDepth + 1; omega, labels := ?_, label := ?_ }
  · intro i low
    have other : i ≠ ⟨t.labelDepth, inside⟩ := Fin.val_ne_iff.mp (by show i.val ≠ t.labelDepth; omega)
    exact (Function.update_of_ne other _ _).trans (held.labels i low)
  · obtain ⟨high, depth, bases, labels⟩ := held.label
    refine ⟨max high (t.labelDepth + 1), Nat.le_max_right _ _,
      fun i low below => (bases i low below).trans (Nat.le_max_left _ _), fun i low below => ?_⟩
    show r.stack ≤ (Function.update t.labels _ label i).stackDepth
    rcases eq_or_ne i ⟨t.labelDepth, inside⟩ with rfl | other
    · rw [Function.update_self]
      exact above
    · rw [Function.update_of_ne other]
      have apart := Fin.val_ne_iff.mpr other
      exact labels i low (by simp only at apart; omega)

theorem Inside.dropTo {s t : Interpreter} (held : Inside r k s t) {labelDepth : Nat} (above : r.labels ≤ labelDepth)
    (fewer : labelDepth ≤ t.labelDepth) : Inside r k s { t with labelDepth } :=
  { held with
    labelDepth := above
    label := by
      obtain ⟨high, depth, rest⟩ := held.label
      exact ⟨high, fewer.trans depth, rest⟩ }

/-- A label the running frame may branch to lies above the region, with every label up to it. -/
theorem stays_getLabel (depth : BitVec 32) (held : Inside r k s.toInterpreter t.toInterpreter) :
    wp (getLabel depth)
      (fun label u => r.stack ≤ label.stackDepth ∧ r.labels + depth.toNat + 1 ≤ t.labelDepth ∧ u = t) anyStop t := by
  apply bind_of_get
  apply bind_of_check
  intro deep
  have running := held.depth
  have base : wp labelBase (fun base u => r.labels ≤ base ∧ u = t) anyStop t := by
    apply bind_of_get
    rw [wp_ite, if_pos (by omega), map_eq_pure_bind]
    apply bind_of_topFrame
    intro frame running
    exact ⟨(held.running running).labelBase, rfl⟩
  apply bind_of_wp base
  rintro base _ ⟨above, rfl⟩
  rename_i t
  apply bind_of_minus
  intro _
  apply bind_of_minus
  intro _
  apply bind_of_check
  intro own
  rw [wp_load]
  split
  · next inside =>
    obtain ⟨high, bound, -, labels⟩ := held.label
    exact ⟨labels _ (by show r.labels ≤ t.labelDepth - 1 - depth.toNat; omega)
      (by show t.labelDepth - 1 - depth.toNat < high; omega), by omega, rfl⟩
  · trivial

theorem stays_branchBack {label : Label} (above : r.stack ≤ label.stackDepth) :
    Stays r s k 0 (branchBack label : Exec n σ Unit) :=
  (stays_setSp above).bind fun _ => stays_setPc _

theorem stays_branchOut {label : Label} (above : r.stack ≤ label.stackDepth) (depth : BitVec 32)
    (held : Inside r k s.toInterpreter t.toInterpreter) (own : r.labels + depth.toNat + 1 ≤ t.labelDepth) :
    wp (branchOut label depth) (fun _ u => Inside r 0 s.toInterpreter u.toInterpreter) anyStop t := by
  apply bind_of_moves (moves_resultAbove _ _) (stays_resultAbove (k := k) label.resultCount 0 t held)
  rintro result _ ⟨stack, sp, rfl⟩ held
  apply bind_of_modify
  have lower : Inside r 0 s.toInterpreter { t.toInterpreter with stack, sp := label.stackDepth } :=
    { held with sp := above }
  have popped : wp (popLabels depth) (fun _ u => Inside r 0 s.toInterpreter u.toInterpreter) anyStop
      { t with stack, sp := label.stackDepth } := by
    apply bind_of_plus
    apply bind_of_get
    rw [wp_ite, if_pos (by show depth.toNat + 1 ≤ t.labelDepth; omega)]
    apply bind_of_get
    apply bind_of_minus
    intro _
    exact lower.dropTo (by show r.labels ≤ t.labelDepth - (depth.toNat + 1); omega) (Nat.sub_le _ _)
  apply bind_of_wp popped
  intro _ u held
  exact (stays_pushResult _).bind (fun _ => stays_setPc _) u held

theorem stays_doBranch (depth : BitVec 32) : Stays r s k 0 (doBranch depth : Exec n σ Unit) := by
  intro t held
  apply bind_of_wp (stays_getLabel depth held)
  rintro label _ ⟨above, own, rfl⟩
  rw [wp_ite]
  split
  · exact stays_branchBack above _ held
  · exact stays_branchOut above depth held own

/-! ### Entering and leaving functions -/

/-- Entering a function, its arguments being above the region, is entering one frame deeper. -/
theorem Inside.enter {p : Program} {funcIdx : BitVec 32} {returnPc : Nat} {e : Entry} {u : Machine n σ}
    (held : Inside r k s.toInterpreter t.toInterpreter) (entered : Entered p funcIdx returnPc e t u)
    (own : r.stack + e.funcType.paramCount ≤ t.sp) : Inside r 0 s.toInterpreter u.toInterpreter := by
  have depth := held.depth
  have labelDepth := held.labelDepth
  have locals : r.locals ≤ t.nextLocal := by
    unfold Interpreter.nextLocal
    have running : t.running = some (t.frames ⟨t.frameDepth - 1, by have := entered.frameRoom; omega⟩) := by
      unfold Interpreter.running FixedArray.at?
      rw [if_pos (by omega), dif_pos]
    rw [running]
    exact (held.running running).localsBase.trans (Nat.le_add_right _ _)
  have sp : r.stack ≤ e.stackDepth t.toInterpreter := by
    unfold Entry.stackDepth
    omega
  obtain ⟨frameRoom, labelRoom, -, -, -, -, -, -, binds, rfl⟩ := entered
  refine {
    stack := held.stack
    locals := fun i low => (binds.below i (by omega)).trans (held.locals i low)
    labels := ?_, frames := ?_
    depth := Nat.lt_succ_of_lt depth, room := frameRoom, sp := sp, labelDepth := Nat.le_succ_of_le labelDepth
    frame := ?_, label := ?_, base := ?_ }
  · intro i low
    have other : i ≠ ⟨t.labelDepth, labelRoom⟩ := Fin.val_ne_iff.mp (by show i.val ≠ t.labelDepth; omega)
    exact (Function.update_of_ne other _ _).trans (held.labels i low)
  · intro i low
    have other : i ≠ ⟨t.frameDepth, frameRoom⟩ := Fin.val_ne_iff.mp (by show i.val ≠ t.frameDepth; omega)
    exact (Function.update_of_ne other _ _).trans (held.frames i low)
  · intro i low high
    show (Function.update t.frames _ _ i).Above r
    rcases eq_or_ne i ⟨t.frameDepth, frameRoom⟩ with rfl | other
    · rw [Function.update_self]
      exact ⟨sp, labelDepth, locals⟩
    · rw [Function.update_of_ne other]
      have apart := Fin.val_ne_iff.mpr other
      exact held.frame i low (Nat.lt_of_le_of_ne (Nat.lt_succ_iff.mp high) apart)
  · obtain ⟨high, bound, bases, labels⟩ := held.label
    refine ⟨max high (t.labelDepth + 1), Nat.le_max_right _ _, fun i low below => ?_, fun i low below => ?_⟩
    · show (Function.update t.frames _ _ i).labelBase ≤ _
      rcases eq_or_ne i ⟨t.frameDepth, frameRoom⟩ with rfl | other
      · rw [Function.update_self]
        exact bound.trans (Nat.le_max_left _ _)
      · rw [Function.update_of_ne other]
        have apart := Fin.val_ne_iff.mpr other
        exact (bases i low (Nat.lt_of_le_of_ne (Nat.lt_succ_iff.mp below) apart)).trans (Nat.le_max_left _ _)
    · show r.stack ≤ (Function.update t.labels _ _ i).stackDepth
      rcases eq_or_ne i ⟨t.labelDepth, labelRoom⟩ with rfl | other
      · rw [Function.update_self]
        exact sp
      · rw [Function.update_of_ne other]
        have apart := Fin.val_ne_iff.mpr other
        exact labels i low (by simp only at apart; omega)
  · intro i place
    have other : i ≠ ⟨t.frameDepth, frameRoom⟩ := Fin.val_ne_iff.mp (by show i.val ≠ t.frameDepth; omega)
    show (Function.update t.frames _ _ i).labelBase = _
    rw [Function.update_of_ne other]
    exact held.base i place

/-- Back in the caller: its part is as it was. -/
structure Back (r : Region) (s t : Interpreter) : Prop extends Untouched r s t where
  depth : t.frameDepth = r.depth
  sp : r.stack ≤ t.sp
  labelDepth : t.labelDepth = r.labels

/-- A step from inside the call stays inside it or returns to the caller. -/
def Leaves (r : Region) (s : Machine n σ) (outcome : Outcome) (t : Machine n σ) : Prop :=
  outcome = .next → Inside r 0 s.toInterpreter t.toInterpreter ∨ Back r s.toInterpreter t.toInterpreter

theorem leaveFunction_leaves (held : Inside r k s.toInterpreter t.toInterpreter) :
    wp leaveFunction (Leaves r s) anyStop t := by
  apply bind_of_topFrame
  intro frame running
  have above := held.running running
  have depth := held.depth
  obtain ⟨inside, found⟩ : ∃ inside : t.frameDepth - 1 < maxCallDepth, t.frames ⟨t.frameDepth - 1, inside⟩ = frame := by
    unfold Interpreter.running FixedArray.at? at running
    rw [if_pos (by omega)] at running
    split at running
    · next inside => exact ⟨inside, Option.some.inj running⟩
    · cases running
  have passed : Stays r s k 0 (passResult frame : Exec n σ (Option Word)) :=
    (stays_resultAbove _ _).bind fun result => (stays_setSp above.stackDepth).bind fun _ =>
      (stays_pushResult result).bind fun _ => Stays.pure result
  apply bind_of_moves (moves_passResult frame) (passed t held)
  rintro result _ ⟨stack, sp, rfl⟩ held
  apply bind_of_get
  apply bind_of_minus
  intro _
  apply bind_of_set
  rw [wp_ite]
  split
  · exact nofun
  · next more =>
    intro _
    rcases Nat.lt_or_ge (r.depth + 1) t.frameDepth with deeper | last
    · left
      obtain ⟨high, bound, bases, labels⟩ := held.label
      exact { held with
        depth := by show r.depth < t.frameDepth - 1; omega
        room := (Nat.sub_le _ _).trans held.room
        labelDepth := above.labelBase
        frame := fun i low below => held.frame i low (by change i.val < t.frameDepth - 1 at below; show _ < t.frameDepth; omega)
        label := ⟨high, found ▸ bases ⟨t.frameDepth - 1, inside⟩ (by show r.depth ≤ t.frameDepth - 1; omega)
            (by show t.frameDepth - 1 < t.frameDepth; omega),
          fun i low below => bases i low (by change i.val < t.frameDepth - 1 at below; show _ < t.frameDepth; omega),
          labels⟩ }
    · right
      exact { held with
        depth := by show t.frameDepth - 1 = r.depth; omega
        labelDepth := found ▸ held.base ⟨t.frameDepth - 1, inside⟩ (by show t.frameDepth - 1 = r.depth; omega) }

/-! ### Instructions -/

theorem stays_popArgs (count : Nat) (args : FixedArray 8 Word) :
    Stays r s (k + count) k (popArgs count args : Exec n σ (FixedArray 8 Word)) := by
  induction count generalizing args with
  | zero => exact Stays.pure args
  | succ count ih =>
    apply Stays.bind (l := k + count) stays_pop
    intro val t held
    apply bind_of_store
    intro _
    exact ih _ t held

theorem stays_callHost (p : Program) (h : HostFunctions n σ) {target : BitVec 32} (imported : target < p.numImports) :
    Stays r s (p.operands (.call target)) 0 (callHost p h target : Exec n σ Unit) := by
  intro t held
  apply bind_of_load
  intro first
  apply bind_of_load
  intro second
  have operands : p.operands (.call target) =
      (p.module.types ⟨(p.module.importTypes ⟨target.toNat, first⟩).toNat, second⟩).paramCount := by
    have signature : p.signature target =
        some (p.module.types ⟨(p.module.importTypes ⟨target.toNat, first⟩).toNat, second⟩) := by
      unfold Program.signature FixedArray.at?
      rw [if_pos imported, dif_pos first]
      exact dif_pos second
    show ((p.signature target).map FuncType.paramCount).getD 0 = _
    rw [signature]
    rfl
  rw [operands] at held
  apply bind_of_get
  apply bind_of_check
  intro _
  apply bind_of_wp (stays_popArgs (k := 0) _ _ t (held.weaken (by omega)))
  intro args t held
  have sliced : Stays r s 0 0 (slice args
      (p.module.types ⟨(p.module.importTypes ⟨target.toNat, first⟩).toNat, second⟩).paramCount : Exec n σ (List Word)) :=
    (Stays.pure _).ite fun _ _ => trivial
  apply bind_of_wp (sliced t held)
  intro args t held
  apply bind_of_get
  apply bind_of_set
  split
  · trivial
  · next result _ => exact stays_pushResult result _ held

theorem stays_execCall (p : Program) (h : HostFunctions n σ) (target : BitVec 32) :
    Stays r s (p.operands (.call target)) 0 (execCall p h target : Exec n σ Unit) := by
  intro t held
  rw [execCall, wp_ite]
  split
  · next imported => exact stays_callHost p h imported t held
  · apply bind_of_get
    apply wp_mono (enterFunction_ok target t.pc) _ fun _ _ => id
    rintro _ u ⟨e, entered⟩
    have sp := held.sp
    have operands : p.operands (.call target) = e.funcType.paramCount := by
      show ((p.signature target).map FuncType.paramCount).getD 0 = _
      rw [entered.signature]
      rfl
    exact held.enter entered (by rwa [operands] at sp)

theorem stays_topLabel (held : Inside r k s.toInterpreter t.toInterpreter) (labelled : r.labels < t.labelDepth) :
    wp topLabel (fun label u => r.stack ≤ label.stackDepth ∧ u = t) anyStop t := by
  apply bind_of_get
  apply bind_of_minus
  intro _
  rw [wp_load]
  split
  · obtain ⟨high, bound, -, labels⟩ := held.label
    exact ⟨labels _ (by show r.labels ≤ t.labelDepth - 1; omega) (by show t.labelDepth - 1 < high; omega), rfl⟩
  · trivial

theorem stays_settle {label : Label} (above : r.stack ≤ label.stackDepth) :
    Stays r s k 0 (settle label : Exec n σ Unit) := by
  intro t held
  apply bind_of_get
  rw [wp_ite]
  split
  · apply bind_of_wp (stays_top t held)
    intro result t held
    exact ((stays_setSp (l := 0) above).bind fun _ => stays_pushResult (some result)) t held
  · apply bind_of_plus
    have kept : Stays r s k 0 (Pure.pure () : Exec n σ Unit) := fun _ held => held.weaken (Nat.zero_le k)
    exact ((stays_setSp above).ite kept) t held

theorem push_refused (val : Word) : wp (push val) (fun _ _ => True) (fun e u => e ≠ .fault → u = t) t := by
  rw [push, wp_bind, wp_get, wp_bind, wp_failIf]
  split
  · exact fun _ => rfl
  · rw [wp_bind, wp_store]
    split
    · rw [wp_bind, wp_plus]
      split
      · trivial
      · exact fun _ => rfl
    · exact fun _ => rfl

theorem stays_keepResult (result : Option Word) : Stays r s k k (attempt (pushResult result) : Exec n σ Unit) := by
  cases result with
  | none => exact fun _ held => held
  | some val =>
    intro t held
    rw [wp_attempt]
    apply wp_mono (wp_and (stays_push val t held) (push_refused val))
    · exact fun _ _ pushed => pushed.1.weaken (Nat.le_succ k)
    · rintro (e | _) u ⟨-, same⟩
      · rw [same nofun]
        exact held
      · trivial

theorem stays_settleElse {label : Label} (above : r.stack ≤ label.stackDepth) :
    Stays r s k 0 (settleElse label : Exec n σ Unit) :=
  (stays_resultAbove _ _).bind fun result => (stays_setSp above).bind fun _ => stays_keepResult result

theorem stays_dropLabel (held : Inside r k s.toInterpreter t.toInterpreter) (labelled : r.labels < t.labelDepth) :
    wp (dropLabels 1) (fun _ u => Inside r k s.toInterpreter u.toInterpreter) anyStop t := by
  apply bind_of_get
  apply bind_of_minus
  intro _
  exact held.dropTo (by omega) (Nat.sub_le _ _)

theorem stays_execElse (held : Inside r k s.toInterpreter t.toInterpreter) (labelled : r.labels < t.labelDepth) :
    wp execElse (fun _ u => Inside r 0 s.toInterpreter u.toInterpreter) anyStop t := by
  apply bind_of_get
  rw [wp_ite, if_pos (by omega)]
  apply bind_of_wp (stays_topLabel held labelled)
  rintro label _ ⟨above, rfl⟩
  apply bind_of_moves (moves_settleElse label) (stays_settleElse above _ held)
  rintro _ _ ⟨stack, sp, rfl⟩ held
  apply bind_of_wp (stays_dropLabel held labelled)
  exact fun _ u held => stays_setPc _ u held

theorem stays_endBlock (held : Inside r k s.toInterpreter t.toInterpreter) (labelled : r.labels < t.labelDepth) :
    wp endBlock (fun _ u => Inside r 0 s.toInterpreter u.toInterpreter) anyStop t := by
  apply bind_of_wp (stays_topLabel held labelled)
  rintro label _ ⟨above, rfl⟩
  apply bind_of_moves (moves_settle label) (stays_settle above _ held)
  rintro _ _ ⟨stack, sp, rfl⟩ held
  exact stays_dropLabel held labelled

theorem execEnd_leaves (held : Inside r k s.toInterpreter t.toInterpreter) (labelled : r.labels < t.labelDepth) :
    wp execEnd (Leaves r s) anyStop t := by
  have depth := held.depth
  apply bind_of_get
  rw [wp_ite, if_pos (by omega)]
  have base : wp labelBase (fun _ u => u = t) anyStop t := by
    apply bind_of_get
    rw [wp_ite, if_pos (by omega), map_eq_pure_bind]
    apply bind_of_topFrame
    intro frame _
    rfl
  apply bind_of_wp base
  rintro base _ rfl
  apply bind_of_minus
  intro _
  rw [wp_ite]
  split
  · exact leaveFunction_leaves held
  · apply bind_of_wp (stays_endBlock held labelled)
    exact fun _ _ held _ => .inl held

theorem execReturn_leaves (held : Inside r k s.toInterpreter t.toInterpreter) :
    wp execReturn (Leaves r s) anyStop t := by
  have depth := held.depth
  apply bind_of_get
  rw [wp_ite, if_neg (by omega)]
  exact leaveFunction_leaves held

theorem stays_findEnd (p : Program) : Stays r s k k (findEnd p : Exec n σ Nat) := by
  intro t held
  apply bind_of_get
  apply bind_of_wp (stays_onPc _ t held)
  intro _ u held
  apply bind_of_get
  exact ((stays_setPc t.pc).bind fun _ => Stays.pure _) u held

theorem stays_execBlock (p : Program) (blockType : Byte) : Stays r s 0 0 (execBlock p blockType : Exec n σ Unit) := by
  apply (stays_findEnd p).bind
  intro endPc t held
  have above := held.sp
  apply bind_of_get
  exact stays_pushLabel (by show r.stack ≤ t.sp; omega) t held

theorem stays_execLoop : Stays r s 0 0 (execLoop : Exec n σ Unit) := by
  intro t held
  have above := held.sp
  apply bind_of_get
  exact stays_pushLabel (by show r.stack ≤ t.sp; omega) t held

theorem stays_execIf (p : Program) (blockType : Byte) : Stays r s 1 0 (execIf p blockType : Exec n σ Unit) := by
  apply stays_popU32.bind
  intro cond
  apply (stays_findEnd p).bind
  intro endPc t held
  have above := held.sp
  apply bind_of_get
  have labelled : Stays r s 0 0 (pushLabel { targetPc := endPc, stackDepth := t.sp, resultCount := blockResults blockType, isLoop := false } : Exec n σ Unit) :=
    stays_pushLabel (by show r.stack ≤ t.sp; omega)
  rw [wp_ite]
  split
  · exact labelled t held
  · exact ((stays_onPc _).bind fun hasElse => labelled.ite (Stays.pure ())) t held

theorem stays_execSelect : Stays r s 3 0 (execSelect : Exec n σ Unit) := by
  apply (stays_popU32 (k := 2)).bind
  intro cond
  apply (stays_pop (k := 1)).bind
  intro val2
  apply (stays_pop (k := 0)).bind
  intro val1 t held
  exact wp_mono (stays_push _ t held) (fun _ _ more => more.weaken (Nat.zero_le _)) fun _ _ => id

theorem stays_pushOne (val : Word) : Stays r s k 0 (push val : Exec n σ Unit) := fun t held =>
  wp_mono (stays_push val t held) (fun _ _ more => more.weaken (Nat.zero_le _)) fun _ _ => id

theorem stays_execTee (idx : BitVec 32) : Stays r s 0 0 (execTee idx : Exec n σ Unit) := by
  intro t held
  apply bind_of_get
  apply bind_of_check
  intro _
  exact (stays_top.bind fun val => stays_localSet idx val) t held

theorem stays_execNumeric (p : Program) (op : Numeric) :
    Stays r s (p.operands (.numeric op)) 0 (execNumeric op : Exec n σ Unit) := by
  unfold execNumeric
  show Stays r s (match op.meaning with | .unary _ => 1 | .binary _ => 2) 0 _
  cases op.meaning with
  | unary f => exact (stays_pop (k := 0)).bind fun a => stays_pushOne _
  | binary f =>
    apply (stays_pop (k := 1)).bind
    intro b
    apply (stays_pop (k := 0)).bind
    intro a
    cases f a b with
    | ok val => exact stays_pushOne val
    | error stop => exact fun _ _ => trivial

/-- An instruction that goes on to the next one and pops no label. -/
theorem stays_execSimple (p : Program) (h : HostFunctions n σ) (instr : Instr) (other : instr ≠ .elseOp) :
    Stays r s (p.operands instr) 0 (execSimple p h instr : Exec n σ Unit) := by
  cases instr with
  | unreachable | unknown opcode => exact Stays.fail _
  | nop | endOp | returnOp => exact Stays.pure ()
  | block blockType => exact stays_execBlock p blockType
  | loop _ => exact stays_execLoop
  | ifOp blockType => exact stays_execIf p blockType
  | elseOp => exact absurd rfl other
  | br depth => exact stays_doBranch depth
  | brIf depth => exact (stays_popU32 (k := 0)).bind fun cond => (stays_doBranch depth).ite (Stays.pure ())
  | call target => exact stays_execCall p h target
  | drop => exact (stays_pop (k := 0)).bind fun _ => Stays.pure ()
  | select => exact stays_execSelect
  | localGet idx => exact (stays_localGet idx).bind fun val => stays_pushOne val
  | localSet idx => exact (stays_pop (k := 0)).bind fun val => stays_localSet idx val
  | localTee idx => exact stays_execTee idx
  | load op _ offset =>
    apply (stays_popU32 (k := 0)).bind
    intro addr
    exact (stays_onMemory (moves_fetch op addr offset)).bind fun val => stays_pushOne val
  | store op _ offset =>
    apply (stays_pop (k := 1)).bind
    intro val
    apply (stays_popU32 (k := 0)).bind
    intro addr
    exact stays_onMemory (moves_write op addr offset val)
  | memorySize _ => exact stays_pushOne _
  | memoryGrow _ => exact (stays_popU32 (k := 0)).bind fun _ => stays_pushOne _
  | i32Const val => exact stays_pushOne _
  | i64Const val => exact stays_pushOne _
  | numeric op => exact stays_execNumeric p op

/-- A guarded step from inside the call stays inside it or returns to the caller. -/
theorem inside_step {p : Program} {h : HostFunctions n σ} {u : Machine n σ}
    (held : Inside r 0 s.toInterpreter t.toInterpreter) (guarded : Guarded p t.toInterpreter) (next : Next p h t u) :
    Inside r 0 s.toInterpreter u.toInterpreter ∨ Back r s.toInterpreter u.toInterpreter := by
  have depth := held.depth
  have inside : t.frameDepth - 1 < maxCallDepth := by have room := held.room; omega
  have running : t.running = some (t.frames ⟨t.frameDepth - 1, inside⟩) := by
    unfold Interpreter.running FixedArray.at?
    rw [if_pos (by omega), dif_pos inside]
  obtain ⟨instr, pc, fetched, result⟩ := step_eq_ok.mp next
  obtain ⟨operands, labelled⟩ := guarded _ _ _ fetched running
  have above := held.running running
  have sp := held.sp
  have stackDepth := above.stackDepth
  have loaded : Inside r (p.operands instr) s.toInterpreter ({ t with pc } : Machine n σ).toInterpreter :=
    { held with sp := by show r.stack + p.operands instr ≤ t.sp; omega }
  have leaves : wp (exec p h instr) (Leaves r s) anyStop { t with pc } := by
    by_cases isElse : instr = .elseOp
    · subst isElse
      have base := labelled (.inl rfl)
      have stays := stays_execElse (t := { t with pc }) loaded (above.labelBase.trans_lt base)
      exact wp_bind.mpr (wp_mono stays (fun _ _ held _ => .inl held) fun _ _ => id)
    by_cases isEnd : instr = .endOp
    · subst isEnd
      have base := labelled (.inr rfl)
      exact execEnd_leaves loaded (above.labelBase.trans_lt base)
    by_cases isReturn : instr = .returnOp
    · subst isReturn
      exact execReturn_leaves loaded
    have simple : exec p h instr = (do execSimple p h instr; pure .next : Exec n σ Outcome) := by
      unfold exec
      split <;> first | contradiction | rfl
    rw [simple]
    apply bind_of_wp (stays_execSimple p h instr isElse _ loaded)
    exact fun _ _ held _ => .inl held
  exact wp_of_ok leaves result rfl

/-! ### A call and its return -/

/-- The step that enters a local function. -/
structure Calls (p : Program) (h : HostFunctions n σ) (target : BitVec 32) (s t : Machine n σ) : Prop where
  local_ : ¬ target < p.numImports
  fetches : ∃ pc, Reader.fetch p.code s.pc = .ok (.call target) pc
  enters : Next p h s t

/-- A step of the called function or of a function it calls. -/
def Callee (p : Program) (h : HostFunctions n σ) (s t u : Machine n σ) : Prop :=
  s.frameDepth < t.frameDepth ∧ Next p h t u

/-- What belongs to the callers of a function that is called in `s`. -/
def Program.callers (p : Program) (target : BitVec 32) (s : Interpreter) : Region where
  depth := s.frameDepth
  stack := s.sp - p.operands (.call target)
  labels := s.labelDepth
  locals := s.nextLocal

/-- The region of a call's callers is what lies below the frame it pushes. -/
theorem start_of_call {p : Program} {target : BitVec 32} {pc : Nat} :
    wp (do let returnPc := (← get).pc; enterFunction p target returnPc)
      (fun _ t => Inside (p.callers target s.toInterpreter) 0 s.toInterpreter t.toInterpreter) anyStop
      { s with pc } := by
  apply bind_of_get
  apply wp_mono (enterFunction_ok target pc) _ fun _ _ => id
  rintro _ t ⟨e, entered⟩
  have operands : p.operands (.call target) = e.funcType.paramCount := by
    show ((p.signature target).map FuncType.paramCount).getD 0 = _
    rw [entered.signature]
    rfl
  have region : p.callers target s.toInterpreter =
      ⟨s.frameDepth, e.stackDepth s.toInterpreter, s.labelDepth, s.nextLocal⟩ := by
    unfold Program.callers
    rw [operands]
    rfl
  rw [region]
  obtain ⟨frameRoom, labelRoom, -, -, -, -, -, -, binds, rfl⟩ := entered
  exact {
    stack := fun _ _ => rfl
    locals := fun i low => binds.below i low
    labels := fun i low => Function.update_of_ne (Fin.ne_of_lt low) _ _
    frames := fun i low => Function.update_of_ne (Fin.ne_of_lt low) _ _
    depth := Nat.lt_succ_self s.frameDepth
    room := frameRoom
    sp := Nat.le_refl (e.stackDepth s.toInterpreter)
    labelDepth := Nat.le_succ s.labelDepth
    frame := by
      intro i low high
      obtain rfl : i = ⟨s.frameDepth, frameRoom⟩ := Fin.ext (Nat.le_antisymm (Nat.lt_succ_iff.mp high) low)
      show (Function.update s.frames _ _ _).Above _
      rw [Function.update_self]
      exact ⟨Nat.le_refl _, Nat.le_refl _, Nat.le_refl _⟩
    label := by
      refine ⟨s.labelDepth + 1, Nat.le_refl _, fun i low high => ?_, fun i low high => ?_⟩
      · obtain rfl : i = ⟨s.frameDepth, frameRoom⟩ := Fin.ext (Nat.le_antisymm (Nat.lt_succ_iff.mp high) low)
        show (Function.update s.frames _ _ _).labelBase ≤ _
        rw [Function.update_self]
        exact Nat.le_succ s.labelDepth
      · obtain rfl : i = ⟨s.labelDepth, labelRoom⟩ := Fin.ext (Nat.le_antisymm (Nat.lt_succ_iff.mp high) low)
        show _ ≤ (Function.update s.labels _ _ _).stackDepth
        rw [Function.update_self]
        exact Nat.le_refl (e.stackDepth s.toInterpreter)
    base := by
      intro i place
      obtain rfl : i = ⟨s.frameDepth, frameRoom⟩ := Fin.ext place
      show (Function.update s.frames _ _ _).labelBase = _
      rw [Function.update_self]
      rfl }

/-- Every step of the called function is guarded until it is back in its caller: the caller's frame,
locals, labels and operands are as they were. -/
theorem guarded_call_keeps_caller {p : Program} {h : HostFunctions n σ} {target : BitVec 32} {u : Machine n σ}
    (calls : Calls p h target s t)
    (body : Relation.ReflTransGen (fun a b => Callee p h s a b ∧ Guarded p a.toInterpreter) t u)
    (returned : u.frameDepth = s.frameDepth) : Back (p.callers target s.toInterpreter) s.toInterpreter u.toInterpreter := by
  obtain ⟨own, ⟨pc, fetches⟩, enters⟩ := calls
  obtain ⟨instr, pc', fetched, result⟩ := step_eq_ok.mp enters
  obtain ⟨rfl, rfl⟩ : .call target = instr ∧ pc = pc' := by
    rw [fetches] at fetched
    cases fetched
    exact ⟨rfl, rfl⟩
  obtain ⟨_, _, called, last⟩ := bind_eq_ok.mp result
  cases last
  rw [execSimple, execCall, if_neg own] at called
  have start := wp_of_ok start_of_call called
  suffices Inside (p.callers target s.toInterpreter) 0 s.toInterpreter u.toInterpreter ∨
      Back (p.callers target s.toInterpreter) s.toInterpreter u.toInterpreter by
    rcases this with inside | back
    · exact absurd returned inside.depth.ne'
    · exact back
  clear returned
  induction body with
  | refl => exact .inl start
  | tail _ step ih =>
    obtain ⟨⟨deep, next⟩, guarded⟩ := step
    rcases ih with inside | back
    · exact inside_step inside guarded next
    · exact absurd back.depth deep.ne'

/-! ### A callee that pops its caller's operand -/

/-- A function that pushes 7 and calls a function of no argument and no result, whose body is
`first`, `i32.const 9` and `end`. -/
def callPushing (first : Byte) : List Byte :=
  [0x00, 0x61, 0x73, 0x6D, 0x01, 0x00, 0x00, 0x00,
    0x01, 0x08, 0x02, 0x60, 0x00, 0x01, 0x7F, 0x60, 0x00, 0x00,
    0x03, 0x03, 0x02, 0x00, 0x01,
    0x0A, 0x0E, 0x02, 0x06, 0x00, 0x41, 0x07, 0x10, 0x01, 0x0B, 0x05, 0x00, first, 0x41, 0x09, 0x0B]

/-- The state after some rounds of its first function. -/
def callPushing.state (first : Byte) (count : Nat) : Machine 0 Unit :=
  rounds (loaded (callPushing first)) (noHost 0) (started (loaded (callPushing first)) 0 [] nofun ()) count

open callPushing

/-- Both modules call their second function in the second round and are back after five. -/
theorem callPushing_runs : ∀ first ∈ [(0x01 : Byte), 0x1A], accepts (callPushing first) ∧
    returns (do pushArgs []; enterFunction (loaded (callPushing first)) 0 0) () ({ memory := nofun, host := () } : Machine 0 Unit) ∧
    ¬ 1 < (loaded (callPushing first)).numImports ∧
    returns (Reader.fetch (loaded (callPushing first)).code) (.call 1) (state first 1).pc ∧
    (∀ count < 5, returns (step (loaded (callPushing first)) (noHost 0)) .next (state first count) ∧
      (2 ≤ count → (state first 1).frameDepth < (state first count).frameDepth)) ∧
    (state first 5).frameDepth = (state first 1).frameDepth := by
  decide +kernel

theorem callPushing_reached : Reached (loaded (callPushing 0x1A)) (noHost 0) (state 0x1A 1) := by
  obtain ⟨-, enters, -, -, goes, -⟩ := callPushing_runs 0x1A (by simp)
  exact reached_rounds (reached_started enters) 1 fun k less => (goes k (by omega)).1

theorem callPushing_calls (first : Byte) (known : first ∈ [(0x01 : Byte), 0x1A]) :
    Calls (loaded (callPushing first)) (noHost 0) 1 (state first 1) (state first 2) := by
  obtain ⟨-, -, own, fetched, goes, -⟩ := callPushing_runs first known
  exact ⟨own, ⟨_, ok_of_returns fetched⟩, next_rounds (goes 1 (by omega)).1⟩

theorem callPushing_callee (first : Byte) (known : first ∈ [(0x01 : Byte), 0x1A]) (count : Nat) (after : 2 ≤ count)
    (few : count < 5) :
    Callee (loaded (callPushing first)) (noHost 0) (state first 1) (state first count) (state first (count + 1)) := by
  obtain ⟨-, -, -, -, goes, -⟩ := callPushing_runs first known
  obtain ⟨step, deep⟩ := goes count few
  exact ⟨deep after, next_rounds step⟩

/-- No local call changes anything of its callers. -/
def KeepsCallers (p : Program) : Prop :=
  ∀ (n : Nat) (σ : Type) (h : HostFunctions n σ) (s t u : Machine n σ) (target : BitVec 32), Reached p h s →
    Calls p h target s t → Relation.ReflTransGen (Callee p h s) t u → u.frameDepth = s.frameDepth →
    Back (p.callers target s.toInterpreter) s.toInterpreter u.toInterpreter

theorem callers_not_kept :
    ¬ ∀ p : Program, parse p.code = .ok p.module → p.numImports.toNat = p.module.importCount → KeepsCallers p := by
  intro kept
  obtain ⟨accepted, -, -, -, -, returned⟩ := callPushing_runs 0x1A (by simp)
  have callee := callPushing_callee 0x1A (by simp)
  have body : Relation.ReflTransGen (Callee (loaded (callPushing 0x1A)) (noHost 0) (state 0x1A 1)) (state 0x1A 2)
      (state 0x1A 5) :=
    ((Relation.ReflTransGen.single (callee 2 (by decide) (by decide))).tail (callee 3 (by decide) (by decide))).tail
      (callee 4 (by decide) (by decide))
  have back := kept _ (parse_loaded accepted) (imports_loaded accepted) 0 Unit (noHost 0) _ _ _ 1 callPushing_reached
    (callPushing_calls 0x1A (by simp)) body returned
  have differs : ∃ i : Fin maxStack, i.val < ((loaded (callPushing 0x1A)).callers 1 (state 0x1A 1).toInterpreter).stack ∧
      (state 0x1A 5).stack i ≠ (state 0x1A 1).stack i := ⟨⟨0, by decide⟩, by decide +kernel⟩
  obtain ⟨i, below, other⟩ := differs
  exact other (back.stack i below)

theorem guarded_call_keeps_caller_callPushing :
    Back ((loaded (callPushing 0x01)).callers 1 (state 0x01 1).toInterpreter) (state 0x01 1).toInterpreter
      (state 0x01 5).toInterpreter := by
  have guarded : ∀ count < 5, 2 ≤ count → Guarded (loaded (callPushing 0x01)) (state 0x01 count).toInterpreter := by
    decide +kernel
  obtain ⟨-, -, -, -, -, returned⟩ := callPushing_runs 0x01 (by simp)
  have callee := callPushing_callee 0x01 (by simp)
  apply guarded_call_keeps_caller (callPushing_calls 0x01 (by simp)) _ returned
  apply Relation.ReflTransGen.tail
  · apply Relation.ReflTransGen.tail
    · exact .single ⟨callee 2 (by decide) (by decide), guarded 2 (by decide) (by decide)⟩
    · exact ⟨callee 3 (by decide) (by decide), guarded 3 (by decide) (by decide)⟩
  · exact ⟨callee 4 (by decide) (by decide), guarded 4 (by decide) (by decide)⟩

end GooseOs.Wasm
