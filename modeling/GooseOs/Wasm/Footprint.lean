import GooseOs.Kernel.Interp

/-!
What each operation of the interpreter may change. The relations are preorders, so a program
built from operations of one footprint has that footprint.
-/

namespace GooseOs.Wasm

variable {n : Nat} {σ α : Type}

/-- Only the program counter differs. -/
def OnPc (s t : Machine n σ) : Prop := ∃ pc, t = { s with pc }

/-- Only the operand stack differs. -/
def OnStack (s t : Machine n σ) : Prop := ∃ stack sp, t = { s with stack, sp }

/-- Only linear memory differs. -/
def OnMemory (s t : Machine n σ) : Prop := ∃ memory, t = { s with memory }

/-- Only the operand stack, memory and the host differ. -/
def OnData (s t : Machine n σ) : Prop := ∃ stack sp memory host, t = { s with stack, sp, memory, host }

instance : IsPreorder (Machine n σ) OnStack where
  refl s := ⟨s.stack, s.sp, rfl⟩
  trans := by
    rintro s _ _ ⟨_, _, rfl⟩ ⟨_, _, rfl⟩
    exact ⟨_, _, rfl⟩

instance : IsPreorder (Machine n σ) OnMemory where
  refl s := ⟨s.memory, rfl⟩
  trans := by
    rintro s _ _ ⟨_, rfl⟩ ⟨_, rfl⟩
    exact ⟨_, rfl⟩

instance : IsPreorder (Machine n σ) OnData where
  refl s := ⟨s.stack, s.sp, s.memory, s.host, rfl⟩
  trans := by
    rintro s _ _ ⟨_, _, _, _, rfl⟩ ⟨_, _, _, _, rfl⟩
    exact ⟨_, _, _, _, rfl⟩

theorem OnStack.data {s t : Machine n σ} (moved : OnStack s t) : OnData s t := by
  obtain ⟨stack, sp, rfl⟩ := moved
  exact ⟨stack, sp, _, _, rfl⟩

theorem OnMemory.data {s t : Machine n σ} (moved : OnMemory s t) : OnData s t := by
  obtain ⟨memory, rfl⟩ := moved
  exact ⟨_, _, memory, _, rfl⟩

theorem moves_onPc (r : Reader α) : Moves OnPc (onPc r : Exec n σ α) := by
  intro s
  rw [onPc, wp_onPart]
  unfold wp
  split
  · exact ⟨_, rfl⟩
  · exact ⟨_, rfl⟩

/-! ### Operand stack -/

theorem moves_push (val : Word) : Moves OnStack (push val : Exec n σ Unit) := by
  intro s
  simp only [push, wp_bind, wp_get, wp_failIf, wp_store, wp_plus, wp_set]
  repeat' split
  all_goals exact ⟨_, _, rfl⟩

theorem moves_pop : Moves OnStack (pop : Exec n σ Word) := by
  intro s
  simp only [pop, wp_bind, wp_get, wp_failIf, wp_minus, wp_set, wp_load]
  repeat' split
  all_goals exact ⟨_, _, rfl⟩

theorem moves_popU32 : Moves OnStack (popU32 : Exec n σ (BitVec 32)) := moves_pop.map _

theorem moves_top : Moves OnStack (top : Exec n σ Word) :=
  Moves.get.bind fun _ => Moves.minus.bind fun _ => Moves.load

theorem moves_resultAbove (resultCount floor : Nat) :
    Moves OnStack (resultAbove resultCount floor : Exec n σ (Option Word)) :=
  Moves.get.bind fun _ => (moves_top.map some).ite (Moves.pure none)

theorem moves_pushResult (result : Option Word) : Moves OnStack (pushResult result : Exec n σ Unit) := by
  cases result with
  | none => exact Moves.pure ()
  | some val => exact moves_push val

theorem moves_setSp (sp : Nat) : Moves OnStack (setSp sp : Exec n σ Unit) := fun s => ⟨s.stack, sp, rfl⟩

theorem moves_passResult (frame : CallFrame) : Moves OnStack (passResult frame : Exec n σ (Option Word)) :=
  (moves_resultAbove _ _).bind fun result => (moves_setSp _).bind fun _ =>
    (moves_pushResult result).bind fun _ => Moves.pure result

theorem moves_settle (label : Label) : Moves OnStack (settle label : Exec n σ Unit) := by
  apply Moves.get.bind
  intro s
  apply Moves.ite
  · exact moves_top.bind fun result => (moves_setSp _).bind fun _ => moves_push result
  · exact Moves.plus.bind fun _ => (moves_setSp _).ite (Moves.pure ())

theorem moves_settleElse (label : Label) : Moves OnStack (settleElse label : Exec n σ Unit) :=
  (moves_resultAbove _ _).bind fun result => (moves_setSp _).bind fun _ => (moves_pushResult result).attempt

theorem moves_execSelect : Moves OnStack (execSelect : Exec n σ Unit) :=
  moves_popU32.bind fun _ => moves_pop.bind fun _ => moves_pop.bind fun _ => moves_push _

theorem moves_execNumeric (op : Numeric) : Moves OnStack (execNumeric op : Exec n σ Unit) := by
  unfold execNumeric
  split
  · exact moves_pop.bind fun _ => moves_push _
  · apply moves_pop.bind
    intro b
    apply moves_pop.bind
    intro a
    split
    · exact moves_push _
    · exact Moves.throw _

/-! ### Memory and the host -/

theorem loadLe_same (memory : LinearMemory n) (ea bytes : Nat) : Moves Eq (loadLe memory ea bytes : Exec n σ Nat) := by
  induction bytes generalizing ea with
  | zero => exact Moves.pure 0
  | succ bytes ih => exact Moves.load.bind fun _ => (ih _).bind fun _ => Moves.pure _

theorem moves_storeLe (memory : LinearMemory n) (ea val bytes : Nat) :
    Moves OnMemory (storeLe memory ea val bytes : Exec n σ (LinearMemory n)) := by
  induction bytes generalizing memory ea val with
  | zero => exact Moves.pure memory
  | succ bytes ih => exact Moves.store.bind fun _ => ih _ _ _

theorem memLoad_same (bytes : Nat) (addr offset : BitVec 32) : Moves Eq (memLoad bytes addr offset : Exec n σ Nat) :=
  Moves.get.bind fun _ => Moves.plus.bind fun _ => Moves.plus.bind fun _ => Moves.failIf.bind fun _ => loadLe_same _ _ _

theorem memLoadU8_same (addr offset : BitVec 32) : Moves Eq (memLoadU8 addr offset : Exec n σ Nat) :=
  Moves.get.bind fun _ => Moves.plus.bind fun _ => Moves.failIf.bind fun _ => loadLe_same _ _ _

theorem fetch_same (op : Load) (addr offset : BitVec 32) : Moves Eq (op.fetch addr offset : Exec n σ Word) := by
  cases op with
  | i32Load => exact (memLoad_same 4 addr offset).map _
  | i64Load => exact (memLoad_same 8 addr offset).map _
  | i32Load8S | i32Load8U => exact (memLoadU8_same addr offset).map _
  | i32Load16S | i32Load16U => exact (memLoad_same 2 addr offset).map _

theorem moves_fetch {R : Machine n σ → Machine n σ → Prop} [IsPreorder (Machine n σ) R] (op : Load)
    (addr offset : BitVec 32) :
    Moves R (op.fetch addr offset : Exec n σ Word) :=
  (fetch_same op addr offset).mono fun s _ same => same ▸ refl_of R s

theorem moves_setMemory (memory : LinearMemory n) :
    Moves OnMemory (modify fun s => { s with memory } : Exec n σ Unit) := fun _ => ⟨memory, rfl⟩

theorem moves_memStore (bytes : Nat) (addr offset : BitVec 32) (val : Nat) :
    Moves OnMemory (memStore bytes addr offset val : Exec n σ Unit) :=
  Moves.get.bind fun _ => Moves.plus.bind fun _ => Moves.plus.bind fun _ => Moves.failIf.bind fun _ =>
    (moves_storeLe _ _ _ _).bind moves_setMemory

theorem moves_memStoreU8 (addr offset : BitVec 32) (val : Nat) :
    Moves OnMemory (memStoreU8 addr offset val : Exec n σ Unit) :=
  Moves.get.bind fun _ => Moves.plus.bind fun _ => Moves.failIf.bind fun _ =>
    (moves_storeLe _ _ _ _).bind moves_setMemory

theorem moves_write (op : Store) (addr offset : BitVec 32) (val : Word) :
    Moves OnMemory (op.write addr offset val : Exec n σ Unit) := by
  cases op with
  | i32Store => exact moves_memStore 4 addr offset _
  | i64Store => exact moves_memStore 8 addr offset _
  | i32Store8 => exact moves_memStoreU8 addr offset _
  | i32Store16 => exact moves_memStore 2 addr offset _

theorem moves_popArgs (count : Nat) (args : FixedArray 8 Word) :
    Moves OnStack (popArgs count args : Exec n σ (FixedArray 8 Word)) := by
  induction count generalizing args with
  | zero => exact Moves.pure args
  | succ count ih => exact moves_pop.bind fun _ => Moves.store.bind fun _ => ih _

theorem moves_callHost (p : Program) (h : HostFunctions n σ) (target : BitVec 32) :
    Moves OnData (callHost p h target : Exec n σ Unit) := by
  apply Moves.load.bind
  intro typeIdx
  apply Moves.load.bind
  intro funcType
  apply Moves.get.bind
  intro s
  apply Moves.failIf.bind
  intro _
  apply ((moves_popArgs _ _).mono fun _ _ => OnStack.data).bind
  intro args
  apply ((Moves.pure _).ite Moves.fault).bind
  intro args s
  rw [wp_bind, wp_get, wp_bind, wp_set]
  split
  · exact ⟨_, _, _, _, rfl⟩
  · next result _ =>
    apply wp_mono (moves_pushResult result _)
    · rintro _ _ ⟨_, _, rfl⟩
      exact ⟨_, _, _, _, rfl⟩
    · rintro _ _ ⟨_, _, rfl⟩
      exact ⟨_, _, _, _, rfl⟩

/-! ### Instructions that stay in their function -/

section InFrame
variable {p : Program} {h : HostFunctions n σ} {s t : Machine n σ}

/-- Frames, memory and the host are as before. -/
def InFrame (s t : Machine n σ) : Prop :=
  ∃ pc stack sp locals labels labelDepth, t = { s with pc, stack, sp, locals, labels, labelDepth }

instance : IsPreorder (Machine n σ) InFrame where
  refl s := ⟨s.pc, s.stack, s.sp, s.locals, s.labels, s.labelDepth, rfl⟩
  trans _ _ _ := by
    intro ⟨_, _, _, _, _, _, first⟩ ⟨_, _, _, _, _, _, second⟩
    subst first second
    exact ⟨_, _, _, _, _, _, rfl⟩

theorem OnStack.inFrame (moved : OnStack s t) : InFrame s t := by
  obtain ⟨stack, sp, rfl⟩ := moved
  exact ⟨s.pc, stack, sp, s.locals, s.labels, s.labelDepth, rfl⟩

theorem inFrame_stack {x : Exec n σ α} (moves : Moves OnStack x) : Moves InFrame x :=
  moves.mono fun _ _ moved => moved.inFrame

theorem moves_reader (r : Reader α) : Moves InFrame (onPc r : Exec n σ α) :=
  (moves_onPc r).mono fun s _ moved => by
    obtain ⟨pc, rfl⟩ := moved
    exact ⟨pc, s.stack, s.sp, s.locals, s.labels, s.labelDepth, rfl⟩

theorem moves_setPc (pc : Nat) : Moves InFrame (setPc pc : Exec n σ Unit) :=
  Moves.modify fun s => ⟨pc, s.stack, s.sp, s.locals, s.labels, s.labelDepth, rfl⟩

theorem moves_topFrame : Moves InFrame (topFrame : Exec n σ CallFrame) :=
  Moves.get.bind fun _ => Moves.minus.bind fun _ => Moves.load

theorem moves_labelBase : Moves InFrame (labelBase : Exec n σ Nat) :=
  Moves.get.bind fun _ => (moves_topFrame.map _).ite (Moves.pure 0)

theorem moves_localSlot (idx : BitVec 32) : Moves InFrame (localSlot idx : Exec n σ Nat) :=
  Moves.get.bind fun _ => Moves.failIf.bind fun _ => moves_topFrame.bind fun _ => Moves.plus.bind fun _ =>
    Moves.failIf.bind fun _ => Moves.pure _

theorem moves_localGet (idx : BitVec 32) : Moves InFrame (localGet idx : Exec n σ Word) :=
  (moves_localSlot idx).bind fun _ => Moves.get.bind fun _ => Moves.load

theorem moves_localSet (idx : BitVec 32) (val : Word) : Moves InFrame (localSet idx val : Exec n σ Unit) := by
  apply (moves_localSlot idx).bind
  intro abs s
  rw [wp_bind, wp_get, wp_bind, wp_store]
  split
  · exact ⟨s.pc, s.stack, s.sp, _, s.labels, s.labelDepth, rfl⟩
  · exact refl_of InFrame s

theorem moves_pushLabel (label : Label) : Moves InFrame (pushLabel label : Exec n σ Unit) := by
  intro s
  simp only [pushLabel, wp_bind, wp_get, wp_failIf, wp_store, wp_plus, wp_set]
  repeat' split
  all_goals first | exact refl_of InFrame s | exact ⟨s.pc, s.stack, s.sp, s.locals, _, _, rfl⟩

theorem moves_topLabel : Moves InFrame (topLabel : Exec n σ Label) :=
  Moves.get.bind fun _ => Moves.minus.bind fun _ => Moves.load

theorem moves_dropLabels (count : Nat) : Moves InFrame (dropLabels count : Exec n σ Unit) := by
  intro s
  rw [dropLabels, wp_bind, wp_get, wp_bind, wp_minus]
  split
  · exact ⟨s.pc, s.stack, s.sp, s.locals, s.labels, _, rfl⟩
  · exact refl_of InFrame s

theorem moves_getLabel (depth : BitVec 32) : Moves InFrame (getLabel depth : Exec n σ Label) :=
  Moves.get.bind fun _ => Moves.failIf.bind fun _ => moves_labelBase.bind fun _ => Moves.minus.bind fun _ =>
    Moves.minus.bind fun _ => Moves.failIf.bind fun _ => Moves.load

theorem moves_doBranch (depth : BitVec 32) : Moves InFrame (doBranch depth : Exec n σ Unit) := by
  apply (moves_getLabel depth).bind
  intro label
  apply Moves.ite
  · exact (inFrame_stack (moves_setSp _)).bind fun _ => moves_setPc _
  · apply (inFrame_stack (moves_resultAbove _ _)).bind
    intro result
    apply (inFrame_stack (moves_setSp _)).bind
    intro _
    apply Moves.bind
    · exact Moves.plus.bind fun _ => Moves.get.bind fun _ => (moves_dropLabels _).ite (Moves.pure ())
    · exact fun _ => (inFrame_stack (moves_pushResult _)).bind fun _ => moves_setPc _

theorem moves_findEnd : Moves InFrame (findEnd p : Exec n σ Nat) :=
  Moves.get.bind fun _ => (moves_reader _).bind fun _ => Moves.get.bind fun _ => (moves_setPc _).bind fun _ => Moves.pure _

theorem moves_execIf (blockType : Byte) : Moves InFrame (execIf p blockType : Exec n σ Unit) := by
  apply (inFrame_stack moves_popU32).bind
  intro cond
  apply moves_findEnd.bind
  intro endPc
  apply Moves.get.bind
  intro _
  apply (moves_pushLabel _).ite
  exact (moves_reader _).bind fun _ => (moves_pushLabel _).ite (Moves.pure ())

theorem moves_execElse : Moves InFrame (execElse : Exec n σ Unit) := by
  apply Moves.get.bind
  intro _
  refine Moves.ite ?_ (Moves.pure ())
  exact moves_topLabel.bind fun label => (inFrame_stack (moves_settleElse label)).bind fun _ =>
    (moves_dropLabels 1).bind fun _ => moves_setPc _

theorem moves_endBlock : Moves InFrame (endBlock : Exec n σ Unit) :=
  moves_topLabel.bind fun label => (inFrame_stack (moves_settle label)).bind fun _ => moves_dropLabels 1

/-- Every instruction but a call, a store and the ends of a function. -/
theorem inFrame_execSimple {instr : Instr} (other : ∀ target, instr ≠ .call target)
    (other' : ∀ op align offset, instr ≠ .store op align offset) : Moves InFrame (execSimple p h instr) := by
  cases instr with
  | block blockType => exact moves_findEnd.bind fun _ => Moves.get.bind fun _ => moves_pushLabel _
  | loop => exact Moves.get.bind fun _ => moves_pushLabel _
  | ifOp blockType => exact moves_execIf blockType
  | elseOp => exact moves_execElse
  | br depth => exact moves_doBranch depth
  | brIf depth => exact (inFrame_stack moves_popU32).bind fun _ => (moves_doBranch depth).ite (Moves.pure ())
  | call target => exact absurd rfl (other target)
  | drop => exact (inFrame_stack moves_pop).bind fun _ => Moves.pure ()
  | select => exact inFrame_stack moves_execSelect
  | localGet idx => exact (moves_localGet idx).bind fun _ => inFrame_stack (moves_push _)
  | localSet idx => exact (inFrame_stack moves_pop).bind fun val => moves_localSet idx val
  | localTee idx =>
    exact Moves.get.bind fun _ => Moves.failIf.bind fun _ => (inFrame_stack moves_top).bind fun _ => moves_localSet idx _
  | load op align offset =>
    exact (inFrame_stack moves_popU32).bind fun addr => (moves_fetch op addr offset).bind fun _ => inFrame_stack (moves_push _)
  | store op align offset => exact absurd rfl (other' op align offset)
  | memorySize => exact inFrame_stack (moves_push _)
  | memoryGrow => exact (inFrame_stack moves_popU32).bind fun _ => inFrame_stack (moves_push _)
  | i32Const val => exact inFrame_stack (moves_push _)
  | i64Const val => exact inFrame_stack (moves_push _)
  | numeric op => exact inFrame_stack (moves_execNumeric op)
  | unreachable => exact Moves.fail _
  | unknown opcode => exact Moves.fail _
  | nop | endOp | returnOp => exact Moves.pure ()

end InFrame

end GooseOs.Wasm
