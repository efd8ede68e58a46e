import GooseOs.Lib.Lockstep
import GooseOs.Wasm.Footprint

/-!
What earlier calls leave in an interpreter's arrays does not matter: two machines that agree on
every entry in use run in lockstep.
-/

namespace GooseOs.Wasm

open FixedArray

variable {n : Nat} {σ α β : Type} {known : Prop} {s t : Machine n σ}

/-- The label is on the label stack, or will be again when a running function returns. -/
def Interpreter.LiveLabel (s : Interpreter) (i : Nat) : Prop :=
  i < s.labelDepth ∨ ∃ f : Fin maxCallDepth, f.val < s.frameDepth ∧ i < (s.frames f).labelBase

/-- Only entries that are not in use differ, and the program counter unless it is `known`. -/
structure Alike (known : Prop) (s t : Machine n σ) : Prop where
  shape : ∃ pc stack frames locals labels, t = { s with pc, stack, frames, locals, labels }
  pc : known → t.pc = s.pc
  stack : SameBelow s.sp s.stack t.stack
  label : ∀ i : Fin maxLabels, s.LiveLabel i → t.labels i = s.labels i ∧ SameBelow (s.labels i).stackDepth s.stack t.stack
  frame : ∀ i : Fin maxCallDepth, i.val < s.frameDepth → t.frames i = s.frames i ∧
    SameBelow (s.frames i).stackDepth s.stack t.stack ∧
      SameBelow ((s.frames i).localsBase + (s.frames i).localCount) s.locals t.locals

/-- Run from two alike machines, the program does the same. -/
def Tracks (known : Prop) (x : Exec n σ α) : Prop := Agrees (Alike known) Eq x x

namespace Tracks

theorem pure (a : α) : Tracks known (Pure.pure a : Exec n σ α) := Agrees.pure rfl

theorem fail (e : TrapKind) : Tracks known (GooseOs.fail e : Exec n σ α) := Agrees.fail e

theorem bind {x : Exec n σ α} {f : α → Exec n σ β} (first : Tracks known x) (second : ∀ a, Tracks known (f a)) :
    Tracks known (x >>= f) := by
  apply Agrees.bind first
  rintro a _ rfl
  exact second a

theorem map {x : Exec n σ α} (f : α → β) (first : Tracks known x) : Tracks known (f <$> x) := Agrees.map f first

theorem ite {c : Prop} [Decidable c] {x y : Exec n σ α} (yes : Tracks known x) (no : Tracks known y) :
    Tracks known (if c then x else y) := Agrees.ite yes no

theorem failIf {c : Prop} [Decidable c] {e : TrapKind} : Tracks known (GooseOs.failIf c e : Exec n σ Unit) := Agrees.failIf

theorem load {k : Nat} {a : FixedArray k α} {i : Nat} : Tracks known (a.load i : Exec n σ α) := by
  unfold FixedArray.load
  split
  · exact pure _
  · exact Agrees.fault

theorem store {k : Nat} {a : FixedArray k α} {i : Nat} {v : α} : Tracks known (a.store i v : Exec n σ _) := by
  unfold FixedArray.store
  split
  · exact pure _
  · exact Agrees.fault

theorem plus {w a b : Nat} : Tracks known (GooseOs.plus w a b : Exec n σ Nat) := Agrees.ite (pure _) Agrees.fault

theorem minus {a b : Nat} : Tracks known (GooseOs.minus a b : Exec n σ Nat) := Agrees.ite (pure _) Agrees.fault

/-- What is read off the state is nothing that may differ. -/
theorem get {f : Machine n σ → Exec n σ α}
    (same : ∀ s pc stack frames locals labels, f { s with pc, stack, frames, locals, labels } = f s)
    (rest : ∀ s, Tracks known (f s)) : Tracks known (MonadState.get >>= f) := by
  intro s t alike
  apply Lockstep.bind_get
  obtain ⟨pc, stack, frames, locals, labels, rfl⟩ := alike.shape
  rw [same s pc stack frames locals labels]
  exact rest s _ _ alike

theorem get_pc {f : Machine n σ → Exec n σ α}
    (same : ∀ s stack frames locals labels, f { s with stack, frames, locals, labels } = f s)
    (rest : ∀ s, Tracks True (f s)) : Tracks True (MonadState.get >>= f) := by
  intro s t alike
  apply Lockstep.bind_get
  obtain ⟨pc, stack, frames, locals, labels, rfl⟩ := alike.shape
  obtain rfl := alike.pc trivial
  rw [same s stack frames locals labels]
  exact rest s _ _ alike

end Tracks

/-- Two runs from alike machines end alike. -/
abbrev Both (known : Prop) (x y : Exec n σ α) (s t : Machine n σ) : Prop := Lockstep Eq (Alike known) (Alike known) x y s t

theorem tracks_onPc (r : Reader α) : Tracks True (onPc r : Exec n σ α) := by
  intro s t alike
  obtain ⟨pc, stack, frames, locals, labels, rfl⟩ := alike.shape
  obtain rfl := alike.pc trivial
  unfold onPc onPart Lockstep
  dsimp only
  cases r s.pc with
  | ok a pc => exact ⟨rfl, { alike with shape := ⟨_, _, _, _, _, rfl⟩, pc := fun _ => rfl }⟩
  | error e pc => exact ⟨rfl, { alike with shape := ⟨_, _, _, _, _, rfl⟩, pc := fun _ => rfl }⟩

/-! ### Operand stack -/

theorem Alike.withSp (alike : Alike known s t) {sp : Nat} (below : SameBelow sp s.stack t.stack) :
    Alike known { s with sp } { t with sp } := by
  obtain ⟨pc, stack, frames, locals, labels, rfl⟩ := alike.shape
  exact { alike with shape := ⟨_, _, _, _, _, rfl⟩, stack := below }

theorem tracks_push (val : Word) : Tracks known (push val : Exec n σ Unit) := by
  intro s t alike
  obtain ⟨pc, stack, frames, locals, labels, rfl⟩ := alike.shape
  apply Lockstep.bind_get
  apply Lockstep.bind_failIf alike
  intro _
  apply Lockstep.bind_store alike
  intro inside
  apply Lockstep.bind_plus alike
  refine Lockstep.set { alike with shape := ⟨_, _, _, _, _, rfl⟩, stack := ?_, label := ?_, frame := ?_ }
  · exact alike.stack.grow inside val
  · exact fun i live => ⟨(alike.label i live).1, (alike.label i live).2.update _ val⟩
  · exact fun i below => ⟨(alike.frame i below).1, (alike.frame i below).2.1.update _ val, (alike.frame i below).2.2⟩

theorem tracks_pop : Tracks known (pop : Exec n σ Word) := by
  intro s t alike
  obtain ⟨pc, stack, frames, locals, labels, rfl⟩ := alike.shape
  apply Lockstep.bind_get
  apply Lockstep.bind_failIf alike
  intro _
  apply Lockstep.bind_minus alike
  intro nonempty
  have less := alike.withSp (alike.stack.weaken (Nat.sub_le s.sp 1))
  apply Lockstep.bind_set
  apply Lockstep.load less
  exact fun inside => ⟨(alike.stack _ (Nat.sub_lt nonempty Nat.one_pos)).symm, less⟩

theorem tracks_popU32 : Tracks known (popU32 : Exec n σ (BitVec 32)) := tracks_pop.map _

/-- The states stay as they are. -/
abbrev Still (s t : Machine n σ) : Machine n σ → Machine n σ → Prop := fun s' t' => s = s' ∧ t = t'

theorem Tracks.of_still {x : Exec n σ α}
    (still : ∀ s t, Alike known s t → Lockstep Eq (Still s t) (Alike known) x x s t) : Tracks known x := by
  intro s t alike
  have both := still s t alike
  unfold Lockstep at both ⊢
  cases left : x s <;> cases right : x t <;> rw [left, right] at both
  case ok.ok =>
    obtain ⟨same, rfl, rfl⟩ := both
    exact ⟨same, alike⟩
  case error.error => exact both
  all_goals exact both

theorem Alike.top (alike : Alike known s t) : Lockstep Eq (Still s t) (Alike known) top top s t := by
  have shape := alike.shape
  unfold Wasm.top
  obtain ⟨pc, stack, frames, locals, labels, rfl⟩ := shape
  apply Lockstep.bind_get
  apply Lockstep.bind_minus alike
  intro nonempty
  apply Lockstep.load alike
  exact fun inside => ⟨(alike.stack _ (Nat.sub_lt nonempty Nat.one_pos)).symm, rfl, rfl⟩

theorem tracks_top : Tracks known (top : Exec n σ Word) := Tracks.of_still fun _ _ => Alike.top

theorem Alike.resultAbove (alike : Alike known s t) (resultCount floor : Nat) :
    Lockstep Eq (Still s t) (Alike known) (resultAbove resultCount floor) (resultAbove resultCount floor) s t := by
  have shape := alike.shape
  unfold Wasm.resultAbove
  obtain ⟨pc, stack, frames, locals, labels, rfl⟩ := shape
  apply Lockstep.bind_get
  apply Lockstep.ite
  · exact fun _ => alike.top.map some
  · exact fun _ => ⟨rfl, rfl, rfl⟩

theorem tracks_pushResult (result : Option Word) : Tracks known (pushResult result : Exec n σ Unit) := by
  cases result with
  | none => exact Tracks.pure ()
  | some val => exact tracks_push val

theorem Alike.setSp (alike : Alike known s t) {sp : Nat} (below : SameBelow sp s.stack t.stack) :
    Both known (setSp sp) (setSp sp) s t := ⟨rfl, alike.withSp below⟩

theorem tracks_setPc (pc : Nat) : Tracks known (setPc pc : Exec n σ Unit) := by
  intro s t alike
  obtain ⟨pc', stack, frames, locals, labels, rfl⟩ := alike.shape
  exact ⟨rfl, { alike with shape := ⟨_, _, _, _, _, rfl⟩, pc := fun _ => rfl }⟩

/-! ### Frames, locals and labels -/

/-- The running frame in front of a program: the stacks and the locals agree as far as it uses them. -/
theorem Alike.bind_topFrame (alike : Alike known s t) {A : α → α → Prop} {R : Machine n σ → Machine n σ → Prop}
    {f : CallFrame → Exec n σ α} (rest : ∀ (i : Fin maxCallDepth), i.val + 1 = s.frameDepth →
      Lockstep A R (Alike known) (f (s.frames i)) (f (s.frames i)) s t) :
    Lockstep A R (Alike known) (topFrame >>= f) (topFrame >>= f) s t := by
  have shape := alike.shape
  unfold topFrame
  rw [bind_assoc]
  obtain ⟨pc, stack, frames, locals, labels, rfl⟩ := shape
  apply Lockstep.bind_get
  rw [bind_assoc, bind_assoc]
  apply Lockstep.bind_minus alike
  intro running
  apply Lockstep.bind_load alike
  intro inside
  have last : s.frameDepth - 1 < s.frameDepth := Nat.sub_lt running Nat.one_pos
  rw [(alike.frame ⟨s.frameDepth - 1, inside⟩ last).1]
  exact rest ⟨s.frameDepth - 1, inside⟩ (Nat.sub_add_cancel running)

theorem Alike.labelBase (alike : Alike known s t) :
    Lockstep Eq (Still s t) (Alike known) labelBase labelBase s t := by
  have shape := alike.shape
  unfold Wasm.labelBase
  obtain ⟨pc, stack, frames, locals, labels, rfl⟩ := shape
  apply Lockstep.bind_get
  apply Lockstep.ite
  · intro _
    rw [← bind_pure_comp]
    apply alike.bind_topFrame
    exact fun i _ => ⟨rfl, rfl, rfl⟩
  · exact fun _ => ⟨rfl, rfl, rfl⟩

/-- The place of a local, which both machines hold alike. -/
theorem Alike.localSlot (alike : Alike known s t) (idx : BitVec 32) :
    Lockstep (fun a b => b = a ∧ ∀ inside : a < maxLocals * maxCallDepth, t.locals ⟨a, inside⟩ = s.locals ⟨a, inside⟩)
      (Still s t) (Alike known) (localSlot idx) (localSlot idx) s t := by
  have shape := alike.shape
  unfold Wasm.localSlot
  obtain ⟨pc, stack, frames, locals, labels, rfl⟩ := shape
  apply Lockstep.bind_get
  apply Lockstep.bind_failIf alike
  intro _
  apply alike.bind_topFrame
  intro i last
  apply Lockstep.bind_plus alike
  apply Lockstep.bind_failIf alike
  intro known
  refine Lockstep.pure ⟨rfl, fun inside => (alike.frame i (by omega)).2.2 _ ?_⟩ ⟨rfl, rfl⟩
  exact Nat.add_lt_add_left (Nat.lt_of_not_le fun outside => known (.inl outside)) _

theorem tracks_localGet (idx : BitVec 32) : Tracks known (localGet idx : Exec n σ Word) := by
  intro s t alike
  apply (alike.localSlot idx).bind
  rintro abs _ _ _ ⟨rfl, same⟩ ⟨rfl, rfl⟩
  apply Lockstep.bind_get
  exact Lockstep.load alike fun inside => ⟨(same inside).symm, alike⟩

theorem tracks_localSet (idx : BitVec 32) (val : Word) : Tracks known (localSet idx val : Exec n σ Unit) := by
  intro s t alike
  apply (alike.localSlot idx).bind
  rintro abs _ _ _ ⟨rfl, -⟩ ⟨rfl, rfl⟩
  apply Lockstep.bind_get
  apply Lockstep.bind_store alike
  intro inside
  obtain ⟨pc, stack, frames, locals, labels, rfl⟩ := alike.shape
  refine Lockstep.set { alike with shape := ⟨_, _, _, _, _, rfl⟩, frame := ?_ }
  exact fun i below => ⟨(alike.frame i below).1, (alike.frame i below).2.1, (alike.frame i below).2.2.update _ val⟩

/-- A label no higher than the common part of the stacks. -/
theorem Alike.pushLabel (alike : Alike known s t) {label : Label} (below : SameBelow label.stackDepth s.stack t.stack) :
    Both known (pushLabel label) (pushLabel label) s t := by
  obtain ⟨pc, stack, frames, locals, labels, rfl⟩ := alike.shape
  apply Lockstep.bind_get
  apply Lockstep.bind_failIf alike
  intro _
  apply Lockstep.bind_store alike
  intro inside
  apply Lockstep.bind_plus alike
  refine Lockstep.set { alike with shape := ⟨_, _, _, _, _, rfl⟩, label := ?_ }
  intro i live
  by_cases new : i = ⟨s.labelDepth, inside⟩
  · subst new
    simp only [Function.update_self]
    exact ⟨trivial, below⟩
  · simp only [Function.update_of_ne new]
    apply alike.label i
    rcases live with below | later
    · exact .inl (Nat.lt_of_le_of_ne (Nat.le_of_lt_succ below) (Fin.val_ne_iff.mpr new))
    · exact .inr later

theorem Alike.bind_topLabel (alike : Alike known s t) {f : Label → Exec n σ α}
    (rest : ∀ label : Label, SameBelow label.stackDepth s.stack t.stack → Both known (f label) (f label) s t) :
    Both known (topLabel >>= f) (topLabel >>= f) s t := by
  have shape := alike.shape
  unfold topLabel
  rw [bind_assoc]
  obtain ⟨pc, stack, frames, locals, labels, rfl⟩ := shape
  apply Lockstep.bind_get
  rw [bind_assoc, bind_assoc]
  apply Lockstep.bind_minus alike
  intro labelled
  apply Lockstep.bind_load alike
  intro inside
  have live : s.LiveLabel (s.labelDepth - 1) := .inl (Nat.sub_lt labelled Nat.one_pos)
  rw [(alike.label ⟨s.labelDepth - 1, inside⟩ live).1]
  exact rest _ (alike.label ⟨s.labelDepth - 1, inside⟩ live).2

theorem Alike.withDepths (alike : Alike known s t) {labelDepth frameDepth : Nat} (live : ∀ i < labelDepth, s.LiveLabel i)
    (less : frameDepth ≤ s.frameDepth) :
    Alike known { s with labelDepth, frameDepth } { t with labelDepth, frameDepth } := by
  obtain ⟨pc, stack, frames, locals, labels, rfl⟩ := alike.shape
  refine { alike with shape := ⟨_, _, _, _, _, rfl⟩, label := fun i => ?_, frame := fun i below => ?_ }
  · rintro (below | ⟨f, running, below⟩)
    · exact alike.label i (live i below)
    · exact alike.label i (.inr ⟨f, Nat.lt_of_lt_of_le running less, below⟩)
  · exact alike.frame i (Nat.lt_of_lt_of_le below less)

theorem tracks_dropLabels (count : Nat) : Tracks known (dropLabels count : Exec n σ Unit) := by
  intro s t alike
  have less := fun l (below : l ≤ s.labelDepth) =>
    alike.withDepths (fun i inside => .inl (Nat.lt_of_lt_of_le inside below)) (Nat.le_refl s.frameDepth)
  obtain ⟨pc, stack, frames, locals, labels, rfl⟩ := alike.shape
  apply Lockstep.bind_get
  apply Lockstep.bind_minus alike
  intro _
  exact Lockstep.set (less _ (Nat.sub_le _ _))

theorem tracks_popLabels (depth : BitVec 32) : Tracks known (popLabels depth : Exec n σ Unit) := by
  apply Tracks.plus.bind
  intro popCount
  exact Tracks.get (fun _ _ _ _ _ _ => rfl) fun _ => (tracks_dropLabels popCount).ite (Tracks.pure ())

theorem Alike.getLabel (alike : Alike known s t) (depth : BitVec 32) :
    Lockstep (fun a b => b = a ∧ SameBelow a.stackDepth s.stack t.stack) (Still s t) (Alike known)
      (getLabel depth) (getLabel depth) s t := by
  have shape := alike.shape
  unfold Wasm.getLabel
  obtain ⟨pc, stack, frames, locals, labels, rfl⟩ := shape
  apply Lockstep.bind_get
  apply Lockstep.bind_failIf alike
  intro inside
  apply alike.labelBase.bind
  rintro base _ _ _ rfl ⟨rfl, rfl⟩
  apply Lockstep.bind_minus alike
  intro labelled
  apply Lockstep.bind_minus alike
  intro _
  apply Lockstep.bind_failIf alike
  intro _
  apply Lockstep.load alike
  intro within
  have live : s.LiveLabel (s.labelDepth - 1 - depth.toNat) := .inl (by omega)
  exact ⟨alike.label ⟨_, within⟩ live, rfl, rfl⟩

theorem Alike.branchBack (alike : Alike True s t) {label : Label} (below : SameBelow label.stackDepth s.stack t.stack) :
    Both True (branchBack label) (branchBack label) s t := by
  apply (alike.setSp below).bind
  rintro _ _ s t - alike
  exact tracks_setPc _ s t alike

theorem Alike.branchOut (alike : Alike True s t) {label : Label} (below : SameBelow label.stackDepth s.stack t.stack)
    (depth : BitVec 32) : Both True (branchOut label depth) (branchOut label depth) s t := by
  apply (alike.resultAbove label.resultCount 0).bind
  rintro result _ _ _ rfl ⟨rfl, rfl⟩
  apply (alike.setSp below).bind
  rintro _ _ s t - alike
  have rest : Tracks True (do
      popLabels depth
      pushResult (if 0 < label.resultCount then result else none)
      setPc label.targetPc : Exec n σ Unit) :=
    (tracks_popLabels depth).bind fun _ => (tracks_pushResult _).bind fun _ => tracks_setPc _
  exact rest s t alike

theorem tracks_doBranch (depth : BitVec 32) : Tracks True (doBranch depth : Exec n σ Unit) := by
  intro s t alike
  apply (alike.getLabel depth).bind
  rintro label _ _ _ ⟨rfl, below⟩ ⟨rfl, rfl⟩
  exact Lockstep.ite (fun _ => alike.branchBack below) fun _ => alike.branchOut below depth

/-! ### Memory -/

theorem tracks_loadLe (memory : LinearMemory n) (ea bytes : Nat) : Tracks known (loadLe memory ea bytes : Exec n σ Nat) := by
  induction bytes generalizing ea with
  | zero => exact Tracks.pure 0
  | succ bytes ih => exact Tracks.load.bind fun _ => (ih _).bind fun _ => Tracks.pure _

theorem tracks_storeLe (memory : LinearMemory n) (ea val bytes : Nat) :
    Tracks known (storeLe memory ea val bytes : Exec n σ (LinearMemory n)) := by
  induction bytes generalizing memory ea val with
  | zero => exact Tracks.pure memory
  | succ bytes ih => exact Tracks.store.bind fun _ => ih _ _ _

theorem tracks_memLoad (bytes : Nat) (addr offset : BitVec 32) : Tracks known (memLoad bytes addr offset : Exec n σ Nat) :=
  Tracks.get (fun _ _ _ _ _ _ => rfl) fun _ => Tracks.plus.bind fun _ => Tracks.plus.bind fun _ =>
    Tracks.failIf.bind fun _ => tracks_loadLe _ _ _

theorem tracks_memLoadU8 (addr offset : BitVec 32) : Tracks known (memLoadU8 addr offset : Exec n σ Nat) :=
  Tracks.get (fun _ _ _ _ _ _ => rfl) fun _ => Tracks.plus.bind fun _ => Tracks.failIf.bind fun _ => tracks_loadLe _ _ _

theorem tracks_fetch (op : Load) (addr offset : BitVec 32) : Tracks known (op.fetch addr offset : Exec n σ Word) := by
  cases op with
  | i32Load => exact (tracks_memLoad 4 addr offset).map _
  | i64Load => exact (tracks_memLoad 8 addr offset).map _
  | i32Load8S | i32Load8U => exact (tracks_memLoadU8 addr offset).map _
  | i32Load16S | i32Load16U => exact (tracks_memLoad 2 addr offset).map _

theorem tracks_setMemory (memory : LinearMemory n) :
    Tracks known (modify fun s => { s with memory } : Exec n σ Unit) := by
  intro s t alike
  obtain ⟨pc, stack, frames, locals, labels, rfl⟩ := alike.shape
  exact ⟨rfl, { alike with shape := ⟨_, _, _, _, _, rfl⟩ }⟩

theorem tracks_memStore (bytes : Nat) (addr offset : BitVec 32) (val : Nat) :
    Tracks known (memStore bytes addr offset val : Exec n σ Unit) :=
  Tracks.get (fun _ _ _ _ _ _ => rfl) fun _ => Tracks.plus.bind fun _ => Tracks.plus.bind fun _ =>
    Tracks.failIf.bind fun _ => (tracks_storeLe _ _ _ _).bind tracks_setMemory

theorem tracks_memStoreU8 (addr offset : BitVec 32) (val : Nat) :
    Tracks known (memStoreU8 addr offset val : Exec n σ Unit) :=
  Tracks.get (fun _ _ _ _ _ _ => rfl) fun _ => Tracks.plus.bind fun _ => Tracks.failIf.bind fun _ =>
    (tracks_storeLe _ _ _ _).bind tracks_setMemory

theorem tracks_write (op : Store) (addr offset : BitVec 32) (val : Word) :
    Tracks known (op.write addr offset val : Exec n σ Unit) := by
  cases op with
  | i32Store => exact tracks_memStore 4 addr offset _
  | i64Store => exact tracks_memStore 8 addr offset _
  | i32Store8 => exact tracks_memStoreU8 addr offset _
  | i32Store16 => exact tracks_memStore 2 addr offset _

/-! ### Calls -/

variable {p : Program}

theorem tracks_resolve (funcIdx : BitVec 32) : Tracks known (resolve p funcIdx : Exec n σ _) :=
  Tracks.failIf.bind fun _ => Tracks.minus.bind fun _ => Tracks.failIf.bind fun _ => Tracks.load.bind fun _ =>
    Tracks.failIf.bind fun _ => Tracks.load.bind fun _ => Tracks.load.bind fun _ => Tracks.pure _

theorem Alike.nextLocalsBase (alike : Alike known s t) :
    Lockstep (fun a b => b = a ∧ SameBelow a s.locals t.locals) (Still s t) (Alike known) nextLocalsBase nextLocalsBase s t := by
  have shape := alike.shape
  unfold Wasm.nextLocalsBase
  obtain ⟨pc, stack, frames, locals, labels, rfl⟩ := shape
  apply Lockstep.bind_get
  apply Lockstep.ite
  · intro running
    apply alike.bind_topFrame
    intro i last
    rw [← bind_pure (plus 64 (s.frames i).localsBase (s.frames i).localCount)]
    apply Lockstep.bind_plus alike
    exact ⟨⟨rfl, (alike.frame i (by omega)).2.2⟩, rfl, rfl⟩
  · exact fun _ => ⟨⟨rfl, fun _ below => absurd below (Nat.not_lt_zero _)⟩, rfl, rfl⟩

/-- Alike, with the same locals below `k` and this stack pointer. -/
structure AlikeUpTo (k sp : Nat) (s t : Machine n σ) : Prop extends Alike True s t where
  same : SameBelow k s.locals t.locals
  height : s.sp = sp

/-- The local behind the common ones gets the same value. -/
theorem AlikeUpTo.grow {k sp : Nat} (alike : AlikeUpTo k sp s t) (inside : k < maxLocals * maxCallDepth) (val : Word) :
    AlikeUpTo (k + 1) sp { s with locals := Function.update s.locals ⟨k, inside⟩ val }
      { t with locals := Function.update t.locals ⟨k, inside⟩ val } := by
  obtain ⟨pc, stack, frames, locals, labels, rfl⟩ := alike.shape
  exact { alike with
    shape := ⟨_, _, _, _, _, rfl⟩
    frame := fun i below => ⟨(alike.frame i below).1, (alike.frame i below).2.1, (alike.frame i below).2.2.update _ val⟩
    same := alike.same.grow inside val }

theorem AlikeUpTo.copyArgs {base depth count i sp : Nat} (alike : AlikeUpTo (base + i) sp s t)
    (supplied : depth + i + count ≤ sp) :
    Lockstep Eq (AlikeUpTo (base + i + count) sp) (Alike True) (copyArgs base depth count i) (copyArgs base depth count i) s t := by
  induction count generalizing i s t with
  | zero => exact ⟨rfl, alike⟩
  | succ count ih =>
    have shape := alike.shape
    rw [Wasm.copyArgs]
    obtain ⟨pc, stack, frames, locals, labels, rfl⟩ := shape
    apply Lockstep.bind_get
    apply Lockstep.bind_plus alike.toAlike
    apply Lockstep.bind_plus alike.toAlike
    apply Lockstep.bind_load alike.toAlike
    intro within
    apply Lockstep.bind_store alike.toAlike
    intro inside
    have height := alike.height
    rw [alike.stack ⟨depth + i, within⟩ (by show depth + i < s.sp; omega)]
    apply Lockstep.bind_set
    rw [show base + i + (count + 1) = base + (i + 1) + count by omega]
    exact ih (alike.grow inside _) (by omega)

theorem AlikeUpTo.zeroLocals {base count i sp : Nat} (alike : AlikeUpTo (base + i) sp s t) :
    Lockstep Eq (AlikeUpTo (base + i + count) sp) (Alike True) (zeroLocals base count i) (zeroLocals base count i) s t := by
  induction count generalizing i s t with
  | zero => exact ⟨rfl, alike⟩
  | succ count ih =>
    have shape := alike.shape
    rw [Wasm.zeroLocals]
    obtain ⟨pc, stack, frames, locals, labels, rfl⟩ := shape
    apply Lockstep.bind_get
    apply Lockstep.bind_plus alike.toAlike
    apply Lockstep.bind_store alike.toAlike
    intro inside
    apply Lockstep.bind_set
    rw [show base + i + (count + 1) = base + (i + 1) + count by omega]
    exact ih (alike.grow inside 0)

theorem Alike.bind_reserveLocals (alike : Alike True s t) {paramCount offset : Nat} {f : Nat × Nat → Exec n σ α}
    (rest : ∀ base total s' t', paramCount ≤ total → AlikeUpTo base s.sp s' t' →
      Both True (f (base, total)) (f (base, total)) s' t') :
    Both True (reserveLocals p paramCount offset >>= f) (reserveLocals p paramCount offset >>= f) s t := by
  simp only [reserveLocals, bind_assoc, pure_bind]
  have moved : Alike True { s with pc := offset } { t with pc := offset } := (tracks_setPc offset s t alike).2
  apply Lockstep.bind_modify
  apply (Lockstep.and_moves (moves_onPc _) (tracks_onPc (Reader.readLocals p.code) _ _ moved)).bind
  rintro declared _ _ t' rfl ⟨alike', pc, rfl⟩
  apply Lockstep.bind_plus alike'
  apply Lockstep.bind_failIf alike'
  intro _
  apply alike'.nextLocalsBase.bind
  rintro base _ _ _ ⟨rfl, same⟩ ⟨rfl, rfl⟩
  apply Lockstep.bind_plus alike'
  apply Lockstep.bind_failIf alike'
  exact fun _ => rest _ _ _ _ (Nat.le_add_right _ _) { alike' with same := same, height := rfl }

/-- Arguments and zeros fill the locals of a new function. -/
theorem AlikeUpTo.bindArgs {paramCount base total sp : Nat} (enough : paramCount ≤ total)
    (alike : AlikeUpTo base sp s t) :
    Lockstep (fun a b => b = a ∧ a = sp - paramCount) (AlikeUpTo (base + total) (sp - paramCount)) (Alike True)
      (bindArgs paramCount base total) (bindArgs paramCount base total) s t := by
  have shape := alike.shape
  have height := alike.height
  unfold Wasm.bindArgs
  obtain ⟨pc, stack, frames, locals, labels, rfl⟩ := shape
  apply Lockstep.bind_get
  apply Lockstep.bind_failIf alike.toAlike
  intro supplied
  apply Lockstep.bind_get
  apply Lockstep.bind_minus alike.toAlike
  intro _
  have copied := @AlikeUpTo.copyArgs n σ s _ base (s.sp - paramCount) paramCount 0 sp alike (by omega)
  apply copied.bind
  rintro _ _ s' t' - alike'
  have lowered := alike'.withSp (alike'.stack.weaken (show s.sp - paramCount ≤ s'.sp by rw [alike'.height]; omega))
  apply Lockstep.bind_modify
  have zeroed := @AlikeUpTo.zeroLocals n σ _ _ base (total - paramCount) paramCount (s.sp - paramCount)
    { lowered with same := alike'.same, height := rfl }
  apply zeroed.bind
  rintro _ _ s'' t'' - alike''
  rw [show base + paramCount + (total - paramCount) = base + total by omega, height] at alike''
  refine ⟨⟨rfl, by rw [height]⟩, alike''⟩

theorem AlikeUpTo.pushFrame {frame : CallFrame} {sp : Nat}
    (alike : AlikeUpTo (frame.localsBase + frame.localCount) sp s t)
    (depth : frame.stackDepth = sp) (base : frame.labelBase = s.labelDepth) :
    Lockstep Eq (AlikeUpTo (frame.localsBase + frame.localCount) sp) (Alike True) (pushFrame frame) (pushFrame frame) s t := by
  have height := alike.height
  obtain ⟨pc, stack, frames, locals, labels, rfl⟩ := alike.shape
  apply Lockstep.bind_get
  apply Lockstep.bind_store alike.toAlike
  intro inside
  apply Lockstep.bind_plus alike.toAlike
  refine Lockstep.set { alike with shape := ⟨_, _, _, _, _, rfl⟩, label := ?_, frame := ?_ }
  · rintro i (below | ⟨f, running, below⟩)
    · exact alike.label i (.inl below)
    · apply alike.label i
      by_cases new : f = ⟨s.frameDepth, inside⟩
      · simp only [new, Function.update_self] at below
        exact .inl (base ▸ below)
      · simp only [Function.update_of_ne new] at below
        exact .inr ⟨f, Nat.lt_of_le_of_ne (Nat.le_of_lt_succ running) (Fin.val_ne_iff.mpr new), below⟩
  · intro i running
    by_cases new : i = ⟨s.frameDepth, inside⟩
    · simp only [new, Function.update_self]
      exact ⟨trivial, by rw [depth, ← height]; exact alike.stack, alike.same⟩
    · simp only [Function.update_of_ne new]
      exact alike.frame i (Nat.lt_of_le_of_ne (Nat.le_of_lt_succ running) (Fin.val_ne_iff.mpr new))

/-- The part of a function's entry that sets the program counter first. -/
def enterBody (p : Program) (funcIdx : BitVec 32) (returnPc : Nat) (funcType : FuncType) (body : FuncBody) : Exec n σ Unit := do
  let (localsBase, localCount) ← reserveLocals p funcType.paramCount body.offset
  let stackDepth ← bindArgs funcType.paramCount localsBase localCount
  let resultCount := funcType.resultCount
  let labelBase := (← get).labelDepth
  pushFrame { returnPc, funcIdx, localsBase, localCount, stackDepth, resultCount, labelBase }
  let bodyEnd ← plus 64 body.offset body.length
  pushLabel { targetPc := bodyEnd, stackDepth, resultCount, isLoop := false }

theorem tracks_enterBody (funcIdx : BitVec 32) (returnPc : Nat) (funcType : FuncType) (body : FuncBody) :
    Tracks True (enterBody p funcIdx returnPc funcType body : Exec n σ Unit) := by
  intro s t alike
  apply alike.bind_reserveLocals
  intro base total s₁ t₁ enough alike₁
  apply (alike₁.bindArgs enough).bind
  rintro depth _ s₂ t₂ ⟨rfl, rfl⟩ alike₂
  have shape := alike₂.shape
  obtain ⟨pc, stack, frames, locals, labels, rfl⟩ := shape
  apply Lockstep.bind_get
  let frame : CallFrame :=
    { returnPc, funcIdx, localsBase := base, localCount := total, stackDepth := s.sp - funcType.paramCount
      resultCount := funcType.resultCount, labelBase := s₂.labelDepth }
  have framed := @AlikeUpTo.pushFrame n σ s₂ _ frame _ alike₂ rfl rfl
  apply framed.bind
  rintro _ _ s₃ t₃ - alike₃
  apply Lockstep.bind_plus alike₃.toAlike
  exact alike₃.pushLabel (by have same := alike₃.stack; rwa [alike₃.height] at same)

theorem tracks_enterFunction (funcIdx : BitVec 32) (returnPc : Nat) :
    Tracks True (enterFunction p funcIdx returnPc : Exec n σ Unit) := by
  apply Tracks.get fun _ _ _ _ _ _ => rfl
  intro s
  apply Tracks.failIf.bind
  intro _
  apply (tracks_resolve funcIdx).bind
  rintro ⟨funcType, body⟩
  exact tracks_enterBody funcIdx returnPc funcType body

/-! ### Leaving a function -/

theorem Alike.passResult (alike : Alike True s t) {frame : CallFrame}
    (below : SameBelow frame.stackDepth s.stack t.stack) :
    Both True (passResult frame) (passResult frame) s t := by
  apply (alike.resultAbove frame.resultCount 0).bind
  rintro result _ _ _ rfl ⟨rfl, rfl⟩
  apply (alike.setSp below).bind
  rintro _ _ s t - alike
  exact (tracks_pushResult result).bind (fun _ => Tracks.pure result) s t alike

theorem tracks_leaveFunction : Tracks True (leaveFunction : Exec n σ Outcome) := by
  intro s t alike
  apply alike.bind_topFrame
  intro i last
  obtain ⟨-, below, -⟩ := alike.frame i (by omega)
  apply (Lockstep.and_moves (moves_passResult _) (alike.passResult below)).bind
  rintro result _ _ t' rfl ⟨alike', stack, sp, rfl⟩
  obtain ⟨pc', stack', frames', locals', labels', rfl⟩ := alike'.shape
  apply Lockstep.bind_get
  apply Lockstep.bind_minus alike'
  intro _
  have left := alike'.withDepths (fun j (inside : j < (s.frames i).labelBase) => .inr ⟨i, by show i.val < s.frameDepth; omega, inside⟩)
    (Nat.sub_le s.frameDepth 1)
  apply Lockstep.bind_set
  apply Lockstep.ite
  · exact fun _ => ⟨rfl, left⟩
  · exact fun _ => (tracks_setPc _).bind (fun _ => Tracks.pure _) _ _ left

theorem tracks_answerTop : Tracks known (answerTop : Exec n σ Outcome) :=
  Tracks.get (fun _ _ _ _ _ _ => rfl) fun _ => (tracks_top.map _).ite (Tracks.pure _)

/-! ### Instructions -/

theorem tracks_popArgs (count : Nat) (args : FixedArray 8 Word) : Tracks known (popArgs count args : Exec n σ _) := by
  induction count generalizing args with
  | zero => exact Tracks.pure args
  | succ count ih => exact tracks_pop.bind fun _ => Tracks.store.bind fun _ => ih _

theorem tracks_callHost (h : HostFunctions n σ) (target : BitVec 32) : Tracks known (callHost p h target) := by
  apply Tracks.load.bind
  intro typeIdx
  apply Tracks.load.bind
  intro funcType
  apply Tracks.get fun _ _ _ _ _ _ => rfl
  intro _
  apply Tracks.failIf.bind
  intro _
  apply (tracks_popArgs _ _).bind
  intro args
  have sliced : Tracks known (slice args funcType.paramCount : Exec n σ _) := Tracks.ite (Tracks.pure _) Agrees.fault
  apply sliced.bind
  rintro args s t alike
  obtain ⟨pc, stack, frames, locals, labels, rfl⟩ := alike.shape
  refine Lockstep.bind_get ?_
  cases h.call s.host target args s.memory with
  | mk result rest =>
  obtain ⟨host, memory⟩ := rest
  have answered : Alike known { s with host, memory } { s with pc, stack, frames, locals, labels, host, memory } :=
    { alike with shape := ⟨_, _, _, _, _, rfl⟩ }
  apply Lockstep.bind_set
  cases result with
  | error code => exact Tracks.fail _ _ _ answered
  | ok result => exact tracks_pushResult result _ _ answered

theorem tracks_findEnd : Tracks True (findEnd p : Exec n σ Nat) := by
  apply Tracks.get_pc fun _ _ _ _ _ => rfl
  intro s
  apply (tracks_onPc _).bind
  intro _
  apply Tracks.get_pc fun _ _ _ _ _ => rfl
  exact fun s => (tracks_setPc _).bind fun _ => Tracks.pure _

theorem tracks_execBlock (blockType : Byte) : Tracks True (execBlock p blockType : Exec n σ Unit) := by
  apply tracks_findEnd.bind
  intro endPc s t alike
  have shape := alike.shape
  obtain ⟨pc, stack, frames, locals, labels, rfl⟩ := shape
  exact alike.pushLabel alike.stack

theorem tracks_execLoop : Tracks True (execLoop : Exec n σ Unit) := by
  intro s t alike
  have shape := alike.shape
  obtain ⟨pc, stack, frames, locals, labels, rfl⟩ := shape
  obtain rfl := alike.pc trivial
  exact alike.pushLabel alike.stack

theorem tracks_execIf (blockType : Byte) : Tracks True (execIf p blockType : Exec n σ Unit) := by
  apply tracks_popU32.bind
  intro cond
  apply tracks_findEnd.bind
  intro endPc s t alike
  have shape := alike.shape
  obtain ⟨pc, stack, frames, locals, labels, rfl⟩ := shape
  apply Lockstep.bind_get
  apply Lockstep.ite
  · exact fun _ => alike.pushLabel alike.stack
  · intro _
    apply (Lockstep.and_moves (moves_onPc _) (tracks_onPc _ _ _ alike)).bind
    rintro hasElse _ _ t' rfl ⟨alike', pc', rfl⟩
    exact Lockstep.ite (fun _ => alike'.pushLabel alike'.stack) fun _ => ⟨rfl, alike'⟩

theorem Alike.settleElse (alike : Alike True s t) {label : Label} (below : SameBelow label.stackDepth s.stack t.stack) :
    Both True (settleElse label) (settleElse label) s t := by
  apply (alike.resultAbove label.resultCount label.stackDepth).bind
  rintro result _ _ _ rfl ⟨rfl, rfl⟩
  apply (alike.setSp below).bind
  rintro _ _ s t - alike
  exact Agrees.attempt (tracks_pushResult result) s t alike

theorem tracks_execElse : Tracks True (execElse : Exec n σ Unit) := by
  apply Tracks.get fun _ _ _ _ _ _ => rfl
  intro _
  refine Tracks.ite ?_ (Tracks.pure ())
  intro s t alike
  apply alike.bind_topLabel
  intro label below
  apply (alike.settleElse below).bind
  rintro _ _ s t - alike
  exact (tracks_dropLabels 1).bind (fun _ => tracks_setPc label.targetPc) s t alike

theorem Alike.settle (alike : Alike True s t) {label : Label} (below : SameBelow label.stackDepth s.stack t.stack) :
    Both True (settle label) (settle label) s t := by
  have shape := alike.shape
  unfold Wasm.settle
  obtain ⟨pc, stack, frames, locals, labels, rfl⟩ := shape
  apply Lockstep.bind_get
  apply Lockstep.ite
  · intro _
    apply alike.top.bind
    rintro result _ _ _ rfl ⟨rfl, rfl⟩
    apply (alike.setSp below).bind
    rintro _ _ s t - alike
    exact tracks_push result s t alike
  · intro _
    apply Lockstep.bind_plus alike
    exact Lockstep.ite (fun _ => alike.setSp below) fun _ => ⟨rfl, alike⟩

theorem tracks_endBlock : Tracks True (endBlock : Exec n σ Unit) := by
  intro s t alike
  apply alike.bind_topLabel
  intro label below
  apply (alike.settle below).bind
  rintro _ _ s t - alike
  exact tracks_dropLabels 1 s t alike

theorem tracks_execEnd : Tracks True (execEnd : Exec n σ Outcome) := by
  apply Tracks.get fun _ _ _ _ _ _ => rfl
  intro _
  refine Tracks.ite ?_ tracks_answerTop
  apply (Tracks.of_still fun _ _ => Alike.labelBase).bind
  intro base
  apply Tracks.minus.bind
  intro last
  exact tracks_leaveFunction.ite (tracks_endBlock.bind fun _ => Tracks.pure _)

theorem tracks_execReturn : Tracks True (execReturn : Exec n σ Outcome) :=
  Tracks.get (fun _ _ _ _ _ _ => rfl) fun _ => tracks_answerTop.ite tracks_leaveFunction

theorem tracks_execCall (h : HostFunctions n σ) (target : BitVec 32) : Tracks True (execCall p h target) := by
  apply (tracks_callHost h target).ite
  exact Tracks.get_pc (fun _ _ _ _ _ => rfl) fun _ => tracks_enterFunction target _

theorem tracks_execSelect : Tracks True (execSelect : Exec n σ Unit) :=
  tracks_popU32.bind fun _ => tracks_pop.bind fun _ => tracks_pop.bind fun _ => tracks_push _

theorem tracks_execTee (idx : BitVec 32) : Tracks True (execTee idx : Exec n σ Unit) :=
  Tracks.get (fun _ _ _ _ _ _ => rfl) fun _ => Tracks.failIf.bind fun _ => tracks_top.bind fun _ => tracks_localSet idx _

theorem tracks_execNumeric (op : Numeric) : Tracks True (execNumeric op : Exec n σ Unit) := by
  unfold execNumeric
  split
  · exact tracks_pop.bind fun _ => tracks_push _
  · apply tracks_pop.bind
    intro b
    apply tracks_pop.bind
    intro a
    split
    · exact tracks_push _
    · exact Agrees.throw _

theorem tracks_execSimple (h : HostFunctions n σ) (instr : Instr) : Tracks True (execSimple p h instr) := by
  cases instr with
  | block blockType => exact tracks_execBlock blockType
  | loop => exact tracks_execLoop
  | ifOp blockType => exact tracks_execIf blockType
  | elseOp => exact tracks_execElse
  | br depth => exact tracks_doBranch depth
  | brIf depth => exact tracks_popU32.bind fun _ => (tracks_doBranch depth).ite (Tracks.pure ())
  | call target => exact tracks_execCall h target
  | drop => exact tracks_pop.bind fun _ => Tracks.pure ()
  | select => exact tracks_execSelect
  | localGet idx => exact (tracks_localGet idx).bind fun _ => tracks_push _
  | localSet idx => exact tracks_pop.bind fun val => tracks_localSet idx val
  | localTee idx => exact tracks_execTee idx
  | load op align offset => exact tracks_popU32.bind fun addr => (tracks_fetch op addr offset).bind fun _ => tracks_push _
  | store op align offset => exact tracks_pop.bind fun val => tracks_popU32.bind fun addr => tracks_write op addr offset val
  | memorySize => exact tracks_push _
  | memoryGrow => exact tracks_popU32.bind fun _ => tracks_push _
  | i32Const val => exact tracks_push _
  | i64Const val => exact tracks_push _
  | numeric op => exact tracks_execNumeric op
  | unreachable => exact Tracks.fail _
  | unknown opcode => exact Tracks.fail _
  | nop | endOp | returnOp => exact Tracks.pure ()

theorem tracks_exec (h : HostFunctions n σ) (instr : Instr) : Tracks True (exec p h instr) := by
  cases instr with
  | endOp => exact tracks_execEnd
  | returnOp => exact tracks_execReturn
  | _ => exact (tracks_execSimple h _).bind fun _ => Tracks.pure _

theorem tracks_step (h : HostFunctions n σ) : Tracks True (step p h) := (tracks_onPc _).bind fun instr => tracks_exec h instr

theorem tracks_run (h : HostFunctions n σ) (fuel : Nat) : Tracks True (run p h fuel) := by
  induction fuel with
  | zero => exact Tracks.pure _
  | succ fuel ih =>
    apply (tracks_step h).bind
    intro outcome
    cases outcome with
    | next => exact ih
    | done result => exact Tracks.pure _

/-! ### Whole calls -/

/-- A program that sets the program counter first need not know it. -/
theorem Tracks.forget {x : Exec n σ α} (tracks : Tracks True x)
    (sets : ∀ s pc, x { s with pc } = x s) : Tracks known x := by
  intro s t alike
  obtain ⟨pc, stack, frames, locals, labels, rfl⟩ := alike.shape
  have both := tracks s { s with stack, frames, locals, labels }
    { alike with shape := ⟨_, _, _, _, _, rfl⟩, pc := fun _ => rfl }
  have same := sets { s with stack, frames, locals, labels } pc
  unfold Lockstep at both ⊢
  rw [← same] at both
  cases left : x s <;> cases right : x { s with pc, stack, frames, locals, labels } <;> rw [left, right] at both
  case ok.ok => exact ⟨both.1, { both.2 with pc := fun _ => both.2.pc trivial }⟩
  case error.error => exact ⟨both.1, { both.2 with pc := fun _ => both.2.pc trivial }⟩
  all_goals exact both

theorem tracks_pushArgs (args : List Word) : Tracks known (pushArgs args : Exec n σ Unit) := by
  induction args with
  | nil => exact Tracks.pure ()
  | cons arg rest ih => exact (tracks_push arg).bind fun _ => ih

theorem tracks_callFunction (h : HostFunctions n σ) (funcIdx : BitVec 32) (args : List Word) (fuel : Nat) :
    Tracks known (callFunction p h funcIdx args fuel) := by
  apply (tracks_pushArgs args).bind
  intro _
  have split : (do enterFunction p funcIdx 0; run p h fuel : Exec n σ Outcome) = (do
      failIf (maxCallDepth ≤ (← get).frameDepth) .callStackOverflow
      let found ← resolve p funcIdx
      enterBody p funcIdx 0 found.1 found.2
      run p h fuel) := by
    simp only [enterFunction, enterBody, bind_assoc]
  rw [split]
  apply Tracks.get fun _ _ _ _ _ _ => rfl
  intro _
  apply Tracks.failIf.bind
  intro _
  apply (tracks_resolve funcIdx).bind
  intro found
  have tail : Tracks True (do enterBody p funcIdx 0 found.1 found.2; run p h fuel : Exec n σ Outcome) :=
    (tracks_enterBody funcIdx 0 found.1 found.2).bind fun _ => tracks_run h fuel
  exact tail.forget fun _ _ => rfl

end GooseOs.Wasm
