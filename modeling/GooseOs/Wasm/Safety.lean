import GooseOs.Wasm.Footprint
import GooseOs.Wasm.Parsed
import GooseOs.Wasm.Readers

/-!
The interpreter stays inside its arrays. The invariant bounds every entry of the frame and label
arrays, used or not, so that no bytecode can bring a bad entry into use: nothing is assumed about
how frames and labels nest.
-/

namespace GooseOs.Wasm

structure CallFrame.Within (code : List Byte) (frame : CallFrame) : Prop where
  returnPc : frame.returnPc ≤ code.length
  locals : frame.localsBase + frame.localCount ≤ maxLocals * maxCallDepth
  stackDepth : frame.stackDepth ≤ maxStack
  labelBase : frame.labelBase ≤ maxLabels

structure Label.Within (code : List Byte) (label : Label) : Prop where
  targetPc : label.targetPc ≤ code.length
  stackDepth : label.stackDepth ≤ maxStack
  resultCount : label.resultCount ≤ maxResults

/-- Every index is within its array, with at least `d` frames. -/
structure Interpreter.Within (code : List Byte) (d : Nat) (s : Interpreter) : Prop where
  pc : s.pc ≤ code.length
  sp : s.sp ≤ maxStack
  frameDepth : s.frameDepth ≤ maxCallDepth
  labelDepth : s.labelDepth ≤ maxLabels
  frame : ∀ i, (s.frames i).Within code
  label : ∀ i, (s.labels i).Within code
  running : d ≤ s.frameDepth

theorem Interpreter.within_new (code : List Byte) : ({} : Interpreter).Within code 0 where
  pc := Nat.zero_le _
  sp := Nat.zero_le _
  frameDepth := Nat.zero_le _
  labelDepth := Nat.zero_le _
  frame _ := ⟨Nat.zero_le _, Nat.zero_le _, Nat.zero_le _, Nat.zero_le _⟩
  label _ := ⟨Nat.zero_le _, Nat.zero_le _, Nat.zero_le _⟩
  running := Nat.le_refl _

theorem Interpreter.Within.weaken {code : List Byte} {d e : Nat} {s : Interpreter} (held : s.Within code d)
    (less : e ≤ d) : s.Within code e :=
  { held with running := less.trans held.running }

variable {n : Nat} {σ α β : Type} {code : List Byte} {d : Nat} {s : Machine n σ}

/-- Stopped by a trap, with every index within its array. -/
def Trapped (code : List Byte) (d : Nat) (stop : Stop TrapKind) (s : Machine n σ) : Prop :=
  stop ≠ .fault ∧ s.Within code d

/-- The program never faults and keeps every index within its array. -/
def Keeps (code : List Byte) (d : Nat) (x : Exec n σ α) : Prop :=
  ∀ s, s.Within code d → wp x (fun _ t => t.Within code d) (Trapped code d) s

namespace Keeps

theorem pure (a : α) : Keeps code d (Pure.pure a : Exec n σ α) := fun _ held => held

theorem fail (e : TrapKind) : Keeps code d (GooseOs.fail e : Exec n σ α) := fun _ held =>
  ⟨by simp, held⟩

theorem bind {x : Exec n σ α} {f : α → Exec n σ β} (first : Keeps code d x) (second : ∀ a, Keeps code d (f a)) :
    Keeps code d (x >>= f) := by
  intro s held
  rw [wp_bind]
  apply wp_mono (first s held)
  · exact fun a t => second a t
  · exact fun _ _ => id

theorem then_wp {x : Exec n σ α} {f : α → Exec n σ β} {Q : β → Machine n σ → Prop} (keeps : Keeps code d x)
    (held : s.Within code d) (rest : ∀ a t, t.Within code d → wp (f a) Q (Trapped code d) t) :
    wp (x >>= f) Q (Trapped code d) s := by
  rw [wp_bind]
  exact wp_mono (keeps s held) rest fun _ _ => id

theorem map {x : Exec n σ α} (f : α → β) (keeps : Keeps code d x) : Keeps code d (f <$> x) := by
  intro s held
  rw [wp_map]
  exact keeps s held

theorem ite {c : Prop} [Decidable c] {x y : Exec n σ α} (yes : Keeps code d x) (no : Keeps code d y) :
    Keeps code d (if c then x else y) := by
  split
  · exact yes
  · exact no

end Keeps

theorem wp_check {c : Prop} [Decidable c] {e : TrapKind} {f : Unit → Exec n σ α} {Q : α → Machine n σ → Prop}
    (held : s.Within code d) (rest : ¬ c → wp (f ()) Q (Trapped code d) s) :
    wp (failIf c e >>= f) Q (Trapped code d) s := by
  rw [wp_bind, wp_failIf]
  split
  · exact ⟨by simp, held⟩
  · next passed => exact rest passed

theorem keeps_onPc {r : Reader α} (forward : Reader.Forward code 0 r) : Keeps code d (onPc r : Exec n σ α) := by
  intro s held
  rw [onPc, wp_onPart]
  apply wp_mono (forward s.pc held.pc)
  · rintro _ pc ⟨_, inside⟩
    exact { held with pc := inside }
  · rintro stop pc ⟨trap, inside⟩
    exact ⟨trap, { held with pc := inside }⟩

/-! ### Operand stack -/

theorem keeps_push (val : Word) : Keeps code d (push val : Exec n σ Unit) := by
  intro s held
  apply wp_check held
  intro room
  rw [wp_bind, wp_store, dif_pos (by omega), wp_bind, wp_plus, if_pos (by simp only [maxStack] at room; omega)]
  exact { held with sp := by show s.sp + 1 ≤ maxStack; omega }

theorem keeps_pop : Keeps code d (pop : Exec n σ Word) := by
  intro s held
  have bound := held.sp
  apply wp_check held
  intro nonempty
  rw [wp_bind, wp_minus, if_pos (by omega), wp_bind, wp_set, wp_load, dif_pos (by omega)]
  exact { held with sp := by show s.sp - 1 ≤ maxStack; omega }

theorem keeps_popU32 : Keeps code d (popU32 : Exec n σ (BitVec 32)) := keeps_pop.map _

theorem wp_top {Q : Word → Machine n σ → Prop} {E : Stop TrapKind → Machine n σ → Prop} (held : s.Within code d)
    (nonempty : 0 < s.sp) (rest : ∀ val, Q val s) : wp top Q E s := by
  have bound := held.sp
  rw [top, wp_bind, wp_get, wp_bind, wp_minus, if_pos (by omega), wp_load, dif_pos (by omega)]
  exact rest _

theorem keeps_resultAbove (resultCount floor : Nat) :
    Keeps code d (resultAbove resultCount floor : Exec n σ (Option Word)) := by
  intro s held
  rw [resultAbove, wp_bind, wp_get, wp_ite]
  split
  · next above =>
    rw [wp_map]
    exact wp_top held (by omega) fun _ => held
  · exact held

theorem keeps_pushResult (result : Option Word) : Keeps code d (pushResult result : Exec n σ Unit) := by
  cases result with
  | none => exact Keeps.pure ()
  | some val => exact keeps_push val

theorem keeps_setSp {sp : Nat} (inside : sp ≤ maxStack) : Keeps code d (setSp sp : Exec n σ Unit) := fun _ held =>
  { held with sp := inside }

theorem keeps_setPc {pc : Nat} (inside : pc ≤ code.length) : Keeps code d (setPc pc : Exec n σ Unit) :=
  fun _ held => { held with pc := inside }

/-! ### Frames, locals and labels -/

theorem wp_topFrame {Q : CallFrame → Machine n σ → Prop} {E : Stop TrapKind → Machine n σ → Prop}
    (held : s.Within code 1) (rest : ∀ frame : CallFrame, frame.Within code → Q frame s) :
    wp topFrame Q E s := by
  have bound := held.frameDepth
  have running := held.running
  rw [topFrame, wp_bind, wp_get, wp_bind, wp_minus, if_pos running, wp_load, dif_pos (by omega)]
  exact rest _ (held.frame _)

theorem wp_labelBase {Q : Nat → Machine n σ → Prop} {E : Stop TrapKind → Machine n σ → Prop}
    (held : s.Within code d) (rest : ∀ base, Q base s) : wp labelBase Q E s := by
  rw [labelBase, wp_bind, wp_get, wp_ite]
  split
  · next running =>
    rw [wp_map]
    exact wp_topFrame { held with running := running } fun _ _ => rest _
  · exact rest 0

theorem wp_localSlot (idx : BitVec 32) (held : s.Within code d) :
    wp (localSlot idx) (fun abs t => abs < maxLocals * maxCallDepth ∧ t = s) (Trapped code d) s := by
  apply wp_check held
  intro running
  rw [wp_bind]
  apply wp_topFrame { held with running := Nat.pos_of_ne_zero running }
  intro frame within
  have limit := within.locals
  have index := idx.isLt
  simp only [maxLocals, maxCallDepth] at limit
  rw [wp_bind, wp_plus, if_pos (by omega)]
  apply wp_check held
  intro inside
  exact ⟨Nat.lt_of_not_le fun outside => inside (.inr outside), rfl⟩

theorem keeps_localGet (idx : BitVec 32) : Keeps code d (localGet idx : Exec n σ Word) := by
  intro s held
  rw [localGet, wp_bind]
  apply wp_mono (wp_localSlot idx held) _ fun _ _ => id
  rintro abs _ ⟨inside, rfl⟩
  rw [wp_bind, wp_get, wp_load, dif_pos inside]
  exact held

theorem keeps_localSet (idx : BitVec 32) (val : Word) : Keeps code d (localSet idx val : Exec n σ Unit) := by
  intro s held
  rw [localSet, wp_bind]
  apply wp_mono (wp_localSlot idx held) _ fun _ _ => id
  rintro abs _ ⟨inside, rfl⟩
  rw [wp_bind, wp_get, wp_bind, wp_store, dif_pos inside]
  exact { held with }

theorem keeps_pushLabel {label : Label} (within : label.Within code) :
    Keeps code d (pushLabel label : Exec n σ Unit) := by
  intro s held
  apply wp_check held
  intro room
  rw [wp_bind, wp_store, dif_pos (by omega), wp_bind, wp_plus, if_pos (by simp only [maxLabels] at room; omega)]
  refine { held with labelDepth := by show s.labelDepth + 1 ≤ maxLabels; omega, label := ?_ }
  intro i
  show (Function.update s.labels _ label i).Within code
  rcases eq_or_ne i ⟨s.labelDepth, by omega⟩ with rfl | other
  · rw [Function.update_self]
    exact within
  · rw [Function.update_of_ne other]
    exact held.label i

theorem wp_topLabel {Q : Label → Machine n σ → Prop} {E : Stop TrapKind → Machine n σ → Prop}
    (held : s.Within code d) (nonempty : 0 < s.labelDepth) (rest : ∀ label : Label, label.Within code → Q label s) :
    wp topLabel Q E s := by
  have bound := held.labelDepth
  rw [topLabel, wp_bind, wp_get, wp_bind, wp_minus, if_pos (by omega), wp_load, dif_pos (by omega)]
  exact rest _ (held.label _)

theorem wp_dropLabels {count : Nat} (held : s.Within code d) (enough : count ≤ s.labelDepth) :
    wp (dropLabels count) (fun _ t => t.Within code d) (Trapped code d) s := by
  have bound := held.labelDepth
  rw [dropLabels, wp_bind, wp_get, wp_bind, wp_minus, if_pos enough]
  exact { held with labelDepth := by show s.labelDepth - count ≤ maxLabels; omega }

theorem wp_getLabel (depth : BitVec 32) (held : s.Within code d) :
    wp (getLabel depth) (fun label t => label.Within code ∧ t = s) (Trapped code d) s := by
  have bound := held.labelDepth
  apply wp_check held
  intro deep
  rw [wp_bind]
  apply wp_labelBase held
  intro base
  rw [wp_bind, wp_minus, if_pos (by omega), wp_bind, wp_minus, if_pos (by omega)]
  apply wp_check held
  intro _
  rw [wp_load, dif_pos (by omega)]
  exact ⟨held.label _, rfl⟩

theorem keeps_popLabels (depth : BitVec 32) : Keeps code d (popLabels depth : Exec n σ Unit) := by
  intro s held
  have index := depth.isLt
  rw [popLabels, wp_bind, wp_plus, if_pos (by omega), wp_bind, wp_get, wp_ite]
  split
  · next enough => exact wp_dropLabels held enough
  · exact held

theorem keeps_branchOut {label : Label} (within : label.Within code) (depth : BitVec 32) :
    Keeps code d (branchOut label depth : Exec n σ Unit) := by
  apply (keeps_resultAbove _ _).bind
  intro result
  apply (keeps_setSp within.stackDepth).bind
  intro _
  apply (keeps_popLabels depth).bind
  intro _
  apply (keeps_pushResult _).bind
  intro _
  exact keeps_setPc within.targetPc

theorem keeps_doBranch (depth : BitVec 32) : Keeps code d (doBranch depth : Exec n σ Unit) := by
  intro s held
  rw [doBranch, wp_bind]
  apply wp_mono (wp_getLabel depth held) _ fun _ _ => id
  rintro label _ ⟨within, rfl⟩
  have backwards : Keeps code d (branchBack label : Exec n σ Unit) :=
    (keeps_setSp within.stackDepth).bind fun _ => keeps_setPc within.targetPc
  exact backwards.ite (keeps_branchOut within depth) _ held

/-! ### Linear memory -/

theorem keeps_loadLe (memory : LinearMemory n) (ea bytes : Nat) (inside : ea + bytes ≤ n) :
    Keeps code d (loadLe memory ea bytes : Exec n σ Nat) := by
  induction bytes generalizing ea with
  | zero => exact Keeps.pure 0
  | succ bytes ih =>
    intro s held
    rw [loadLe, wp_bind, wp_load, dif_pos (by omega)]
    exact (ih (ea + 1) (by omega)).bind (fun _ => Keeps.pure _) s held

theorem keeps_storeLe (memory : LinearMemory n) (ea val bytes : Nat) (inside : ea + bytes ≤ n) :
    Keeps code d (storeLe memory ea val bytes : Exec n σ (LinearMemory n)) := by
  induction bytes generalizing memory ea val with
  | zero => exact Keeps.pure memory
  | succ bytes ih =>
    intro s held
    rw [storeLe, wp_bind, wp_store, dif_pos (by omega)]
    exact ih _ (ea + 1) _ (by omega) s held

theorem keeps_memLoad (bytes : Nat) (short : bytes ≤ 8) (addr offset : BitVec 32) :
    Keeps code d (memLoad bytes addr offset : Exec n σ Nat) := by
  intro s held
  have low := addr.isLt
  have more := offset.isLt
  rw [memLoad, wp_bind, wp_get, wp_bind, wp_plus, if_pos (by omega), wp_bind, wp_plus, if_pos (by omega)]
  apply wp_check held
  intro inside
  exact keeps_loadLe s.memory _ bytes (by omega) s held

theorem keeps_memLoadU8 (addr offset : BitVec 32) : Keeps code d (memLoadU8 addr offset : Exec n σ Nat) := by
  intro s held
  have low := addr.isLt
  have more := offset.isLt
  rw [memLoadU8, wp_bind, wp_get, wp_bind, wp_plus, if_pos (by omega)]
  apply wp_check held
  intro inside
  exact keeps_loadLe s.memory _ 1 (by omega) s held

theorem keeps_fetch (op : Load) (addr offset : BitVec 32) :
    Keeps code d (op.fetch addr offset : Exec n σ Word) := by
  cases op with
  | i32Load => exact (keeps_memLoad 4 (by omega) addr offset).map _
  | i64Load => exact (keeps_memLoad 8 (by omega) addr offset).map _
  | i32Load8S | i32Load8U => exact (keeps_memLoadU8 addr offset).map _
  | i32Load16S | i32Load16U => exact (keeps_memLoad 2 (by omega) addr offset).map _

theorem keeps_setMemory (memory : LinearMemory n) :
    Keeps code d (modify fun s => { s with memory } : Exec n σ Unit) := fun _ held => held

theorem keeps_memStore (bytes : Nat) (short : bytes ≤ 8) (addr offset : BitVec 32) (val : Nat) :
    Keeps code d (memStore bytes addr offset val : Exec n σ Unit) := by
  intro s held
  have low := addr.isLt
  have more := offset.isLt
  rw [memStore, wp_bind, wp_get, wp_bind, wp_plus, if_pos (by omega), wp_bind, wp_plus, if_pos (by omega)]
  apply wp_check held
  intro inside
  exact (keeps_storeLe s.memory _ val bytes (by omega)).bind keeps_setMemory s held

theorem keeps_memStoreU8 (addr offset : BitVec 32) (val : Nat) :
    Keeps code d (memStoreU8 addr offset val : Exec n σ Unit) := by
  intro s held
  have low := addr.isLt
  have more := offset.isLt
  rw [memStoreU8, wp_bind, wp_get, wp_bind, wp_plus, if_pos (by omega)]
  apply wp_check held
  intro inside
  exact (keeps_storeLe s.memory _ val 1 (by omega)).bind keeps_setMemory s held

theorem keeps_write (op : Store) (addr offset : BitVec 32) (val : Word) :
    Keeps code d (op.write addr offset val : Exec n σ Unit) := by
  cases op with
  | i32Store => exact keeps_memStore 4 (by omega) addr offset _
  | i64Store => exact keeps_memStore 8 (by omega) addr offset _
  | i32Store8 => exact keeps_memStoreU8 addr offset _
  | i32Store16 => exact keeps_memStore 2 (by omega) addr offset _

/-! ### Function entry -/

section Module

variable {p : Program} (sound : p.module.Sound p.code) (imports : p.numImports.toNat = p.module.importCount)
  (small : p.code.length < 2 ^ 32)

include sound in
/-- A function index that resolves has a signature and a body within bounds. -/
theorem wp_resolve (funcIdx : BitVec 32) (held : s.Within code d) :
    wp (resolve p funcIdx)
      (fun found t => found.1.Sound ∧ found.2.offset + found.2.length ≤ p.code.length ∧ t = s) (Trapped code d) s := by
  have funcs := sound.funcs
  have types := sound.types
  apply wp_check held
  intro imported
  rw [wp_bind, wp_minus, if_pos (Nat.le_of_not_lt imported)]
  apply wp_check held
  intro known
  rw [wp_bind, wp_load, dif_pos (by omega)]
  apply wp_check held
  intro typed
  rw [wp_bind, wp_load, dif_pos (by omega), wp_bind, wp_load, dif_pos (by omega)]
  exact ⟨sound.signature _, sound.body _, rfl⟩

/-- The locals of a new frame start where the running frame's end. -/
def Interpreter.freeLocal (s : Interpreter) (base : Nat) : Prop :=
  ∀ inside : s.frameDepth - 1 < maxCallDepth, 0 < s.frameDepth →
    (s.frames ⟨s.frameDepth - 1, inside⟩).localsBase + (s.frames ⟨s.frameDepth - 1, inside⟩).localCount = base

theorem wp_nextLocalsBase (held : s.Within code d) :
    wp nextLocalsBase (fun base t => s.freeLocal base ∧ base ≤ maxLocals * maxCallDepth ∧ t = s) (Trapped code d) s := by
  have bound := held.frameDepth
  rw [nextLocalsBase, wp_bind, wp_get, wp_ite]
  split
  · next running =>
    rw [topFrame, wp_bind, wp_bind, wp_get, wp_bind, wp_minus, if_pos (by omega), wp_load, dif_pos (by omega)]
    have limit := (held.frame ⟨s.frameDepth - 1, by omega⟩).locals
    rw [wp_plus, if_pos (limit.trans_lt (by decide))]
    exact ⟨fun _ _ => rfl, limit, rfl⟩
  · next idle => exact ⟨fun _ running => absurd running idle, Nat.zero_le _, rfl⟩

/-- Only locals from `base` on differ. -/
def LocalsFrom (base : Nat) (s t : Machine n σ) : Prop :=
  ∃ locals, t = { s with locals } ∧ ∀ i, i.val < base → locals i = s.locals i

theorem LocalsFrom.update {base i : Nat} (inside : base + i < maxLocals * maxCallDepth) (val : Word) :
    LocalsFrom base s { s with locals := Function.update s.locals ⟨base + i, inside⟩ val } :=
  ⟨_, rfl, fun _ below => Function.update_of_ne (Fin.val_ne_iff.mp (by show _ ≠ base + i; omega)) _ _⟩

theorem LocalsFrom.trans {base : Nat} {s t u : Machine n σ} (first : LocalsFrom base s t)
    (second : LocalsFrom base t u) : LocalsFrom base s u := by
  obtain ⟨locals, rfl, kept⟩ := first
  obtain ⟨later, rfl, stays⟩ := second
  exact ⟨later, rfl, fun i below => (stays i below).trans (kept i below)⟩

theorem LocalsFrom.within {base : Nat} {s t : Machine n σ} (placed : LocalsFrom base s t) (held : s.Within code d) :
    t.Within code d := by
  obtain ⟨locals, rfl, -⟩ := placed
  exact { held with }

theorem wp_copyArgs (localsBase stackDepth count i : Nat) (source : stackDepth + i + count ≤ maxStack)
    (target : localsBase + i + count ≤ maxLocals * maxCallDepth) {E : Stop TrapKind → Machine n σ → Prop} :
    wp (copyArgs localsBase stackDepth count i) (fun _ t => LocalsFrom localsBase s t) E s := by
  induction count generalizing i s with
  | zero => exact ⟨s.locals, rfl, fun _ _ => rfl⟩
  | succ count ih =>
    have low : stackDepth + i < 2 ^ 64 := by simp only [maxStack] at source; omega
    have high : localsBase + i < 2 ^ 64 := by simp only [maxLocals, maxCallDepth] at target; omega
    rw [copyArgs, wp_bind, wp_get, wp_bind, wp_plus, if_pos low, wp_bind, wp_plus, if_pos high, wp_bind, wp_load,
      dif_pos (by omega), wp_bind, wp_store, dif_pos (by omega), wp_bind, wp_set]
    apply wp_mono (ih (i + 1) (by omega) (by omega)) _ fun _ _ => id
    intro _ t later
    exact (LocalsFrom.update _ _).trans later

theorem wp_zeroLocals (localsBase count i : Nat) (target : localsBase + i + count ≤ maxLocals * maxCallDepth)
    {E : Stop TrapKind → Machine n σ → Prop} :
    wp (zeroLocals localsBase count i) (fun _ t => LocalsFrom localsBase s t) E s := by
  induction count generalizing i s with
  | zero => exact ⟨s.locals, rfl, fun _ _ => rfl⟩
  | succ count ih =>
    have high : localsBase + i < 2 ^ 64 := by simp only [maxLocals, maxCallDepth] at target; omega
    rw [zeroLocals, wp_bind, wp_get, wp_bind, wp_plus, if_pos high, wp_bind, wp_store, dif_pos (by omega), wp_bind,
      wp_set]
    apply wp_mono (ih (i + 1) (by omega)) _ fun _ _ => id
    intro _ t later
    exact (LocalsFrom.update _ _).trans later

include small in
/-- Room for a frame's locals: only the program counter moves. -/
theorem wp_reserveLocals {paramCount offset : Nat} (inside : offset ≤ p.code.length) (few : paramCount ≤ maxParams)
    (held : s.Within p.code d) :
    wp (reserveLocals p paramCount offset)
      (fun room t => s.freeLocal room.1 ∧ paramCount ≤ room.2 ∧ room.1 + room.2 ≤ maxLocals * maxCallDepth ∧
        ∃ pc, pc ≤ p.code.length ∧ t = { s with pc })
      (Trapped p.code d) s := by
  rw [reserveLocals, wp_bind, setPc, wp_modify, wp_bind, onPc, wp_onPart]
  apply wp_mono (Reader.forward_readLocals small _ inside)
  case stops => exact fun stop pc stopped => ⟨stopped.1, { held with pc := stopped.2 }⟩
  rintro declared pc ⟨within, bound⟩
  have fits : paramCount + declared < 2 ^ 64 := by simp only [maxParams] at few; omega
  have here : Interpreter.Within p.code d { s.toInterpreter with pc } := { held with pc := within }
  rw [wp_bind, wp_plus, if_pos fits]
  apply wp_check here
  intro short
  rw [wp_bind]
  apply wp_mono (wp_nextLocalsBase here) _ fun _ _ => id
  rintro base _ ⟨free, low, rfl⟩
  have fits : base + (paramCount + declared) < 2 ^ 64 := by
    simp only [maxLocals, maxCallDepth] at low short
    omega
  rw [wp_bind, wp_plus, if_pos fits]
  apply wp_check here
  intro room
  exact ⟨free, by show paramCount ≤ paramCount + declared; omega, Nat.le_of_not_lt room, pc, within, rfl⟩

/-- The arguments move into the locals of the new frame; nothing else changes but the stack's height. -/
theorem wp_bindArgs {paramCount base total : Nat} (enough : paramCount ≤ total)
    (room : base + total ≤ maxLocals * maxCallDepth) (held : s.Within code d) :
    wp (bindArgs paramCount base total)
      (fun stackDepth t => paramCount ≤ s.sp ∧ stackDepth = s.sp - paramCount ∧
        LocalsFrom base { s with sp := stackDepth } t)
      (Trapped code d) s := by
  have bound := held.sp
  rw [bindArgs, wp_bind, wp_get]
  apply wp_check held
  intro supplied
  rw [wp_bind, wp_get, wp_bind, wp_minus, if_pos (by omega), wp_bind]
  apply wp_mono (wp_copyArgs base _ paramCount 0 (by omega) (by omega)) _ fun _ _ => id
  rintro _ _ ⟨locals, rfl, copied⟩
  rw [wp_bind, setSp, wp_modify, wp_bind]
  apply wp_mono (wp_zeroLocals base _ _ (by omega)) _ fun _ _ => id
  rintro _ _ ⟨cleared, rfl, zeroed⟩
  exact ⟨Nat.le_of_not_lt supplied, rfl, cleared, rfl, fun i below => (zeroed i below).trans (copied i below)⟩

theorem wp_pushFrame {frame : CallFrame} (room : s.frameDepth < maxCallDepth) {Q : Unit → Machine n σ → Prop}
    {E : Stop TrapKind → Machine n σ → Prop}
    (rest : Q () { s with
      frames := Function.update s.frames ⟨s.frameDepth, room⟩ frame, frameDepth := s.frameDepth + 1 }) :
    wp (pushFrame frame) Q E s := by
  have fits : s.frameDepth + 1 < 2 ^ 64 := by simp only [maxCallDepth] at room; omega
  rw [pushFrame, wp_bind, wp_get, wp_bind, wp_store, dif_pos room, wp_bind, wp_plus, if_pos fits]
  exact rest

theorem Interpreter.Within.pushFrame {s : Interpreter} {frame : CallFrame} (held : s.Within code d)
    (within : frame.Within code) (room : s.frameDepth < maxCallDepth) :
    Interpreter.Within code (d + 1) { s with
      frames := Function.update s.frames ⟨s.frameDepth, room⟩ frame, frameDepth := s.frameDepth + 1 } := by
  refine { held with frameDepth := room, frame := ?_, running := Nat.succ_le_succ held.running }
  intro i
  show (Function.update s.frames _ frame i).Within code
  rcases eq_or_ne i ⟨s.frameDepth, room⟩ with rfl | other
  · rw [Function.update_self]
    exact within
  · rw [Function.update_of_ne other]
    exact held.frame i

include sound small in
/-- A function is entered with its frame and its label, or a trap says why not. -/
theorem wp_enterFunction (funcIdx : BitVec 32) {returnPc : Nat} (back : returnPc ≤ p.code.length)
    (held : s.Within p.code d) :
    wp (enterFunction p funcIdx returnPc) (fun _ t => t.Within p.code (d + 1)) (Trapped p.code d) s := by
  rw [enterFunction, wp_bind, wp_get]
  apply wp_check held
  intro depth
  rw [wp_bind]
  apply wp_mono (wp_resolve sound funcIdx held) _ fun _ _ => id
  rintro ⟨funcType, body⟩ _ ⟨typed, inside, rfl⟩
  obtain ⟨params, results, -, -⟩ := typed
  change body.offset + body.length ≤ p.code.length at inside
  change funcType.paramCount ≤ maxParams at params
  change funcType.resultCount ≤ maxResults at results
  rename_i s
  rw [wp_bind]
  apply wp_mono (wp_reserveLocals small (by omega) params held) _ fun _ _ => id
  rintro ⟨base, total⟩ _ ⟨-, enough, room, pc, within, rfl⟩
  have here : Interpreter.Within p.code d { s.toInterpreter with pc } := { held with pc := within }
  rw [wp_bind]
  apply wp_mono (wp_bindArgs enough room here) _ fun _ _ => id
  rintro stackDepth t ⟨supplied, rfl, placed⟩
  have bound := held.sp
  have low : s.sp - funcType.paramCount ≤ maxStack := by omega
  have here : t.Within p.code d := placed.within { here with sp := low }
  have room' : t.frameDepth < maxCallDepth := by
    obtain ⟨locals, rfl, -⟩ := placed
    exact Nat.lt_of_not_le depth
  rw [wp_bind, wp_get, wp_bind]
  apply wp_pushFrame room'
  rw [wp_bind, wp_plus, if_pos (by omega)]
  apply wp_mono (keeps_pushLabel ⟨inside, low, results⟩ _ (here.pushFrame ⟨back, room, low, here.labelDepth⟩ room'))
  · exact fun _ _ => id
  · exact fun stop t ⟨trap, held⟩ => ⟨trap, held.weaken (Nat.le_succ d)⟩

end Module

/-! ### Function exit -/

/-- After a step that goes on there is still a frame. -/
def Stepped (code : List Byte) (outcome : Outcome) (s : Machine n σ) : Prop :=
  s.Within code (if outcome = .next then 1 else 0)

theorem keeps_passResult {frame : CallFrame} (within : frame.Within code) :
    Keeps code d (passResult frame : Exec n σ (Option Word)) := by
  apply (keeps_resultAbove _ _).bind
  intro result
  apply (keeps_setSp within.stackDepth).bind
  intro _
  apply (keeps_pushResult result).bind
  intro _
  exact Keeps.pure result

theorem wp_leaveFunction (held : s.Within code 1) : wp leaveFunction (Stepped code) (Trapped code 1) s := by
  rw [leaveFunction, wp_bind]
  apply wp_topFrame held
  intro frame within
  apply (keeps_passResult within).then_wp held
  intro result t held
  have low := held.frameDepth
  have running := held.running
  rw [wp_bind, wp_get, wp_bind, wp_minus, if_pos running, wp_bind, wp_set, wp_ite]
  split
  · exact { held with
      labelDepth := within.labelBase, frameDepth := by show t.frameDepth - 1 ≤ _; omega, running := Nat.zero_le _ }
  · next more =>
    exact { held with
      pc := within.returnPc, labelDepth := within.labelBase
      frameDepth := by show t.frameDepth - 1 ≤ _; omega
      running := Nat.one_le_iff_ne_zero.mpr more }

theorem wp_answerTop {E : Stop TrapKind → Machine n σ → Prop} (held : s.Within code d) :
    wp answerTop (Stepped code) E s := by
  rw [answerTop, wp_bind, wp_get, wp_ite]
  split
  · next nonempty =>
    rw [wp_map]
    exact wp_top held nonempty fun _ => held.weaken (Nat.zero_le d)
  · exact held.weaken (Nat.zero_le d)

/-! ### Host calls -/

theorem keeps_popArgs (count : Nat) (args : FixedArray 8 Word) (few : count ≤ 8) :
    Keeps code d (popArgs count args : Exec n σ (FixedArray 8 Word)) := by
  induction count generalizing args with
  | zero => exact Keeps.pure args
  | succ count ih =>
    apply keeps_pop.bind
    intro val s held
    rw [wp_bind, wp_store, dif_pos (by omega)]
    exact ih _ (by omega) s held

section Module

variable {p : Program} (sound : p.module.Sound p.code) (imports : p.numImports.toNat = p.module.importCount)
  (small : p.code.length < 2 ^ 32)

include sound imports in
theorem wp_callHost (h : HostFunctions n σ) {target : BitVec 32} (imported : target < p.numImports)
    (held : s.Within code d) : wp (callHost p h target) (fun _ t => t.Within code d) (Trapped code d) s := by
  have index : target.toNat < p.module.importCount := imports ▸ imported
  have few := sound.imports
  have typed := sound.importType ⟨target.toNat, by omega⟩ index
  have types := sound.types
  rw [callHost, wp_bind, wp_load, dif_pos (by omega), wp_bind, wp_load, dif_pos (by omega), wp_bind, wp_get]
  have params := (sound.signature ⟨_, typed.trans_le types⟩).params
  apply wp_check held
  intro supplied
  refine ((keeps_popArgs _ _ params).bind fun args t kept => ?_) s held
  have fits : (p.module.types ⟨_, typed.trans_le types⟩).paramCount ≤ 8 := params
  rw [slice, if_pos fits, wp_bind, wp_pure, wp_bind, wp_get, wp_bind, wp_set]
  have same : Interpreter.Within code d t.toInterpreter := kept
  split
  · exact ⟨by simp, same⟩
  · next result _ => exact keeps_pushResult result _ same

/-! ### Instructions -/

include small in
/-- The scan for a block's end restores the program counter. -/
theorem wp_findEnd (held : s.Within p.code d) :
    wp (findEnd p) (fun endPc t => endPc ≤ p.code.length ∧ t = s) (Trapped p.code d) s := by
  rw [findEnd, wp_bind, wp_get, wp_bind, onPc, wp_onPart]
  apply wp_mono (Reader.forward_skipToEnd small s.pc held.pc)
  · rintro _ pc ⟨_, inside⟩
    exact ⟨inside, rfl⟩
  · rintro stop pc ⟨trap, inside⟩
    exact ⟨trap, { held with pc := inside }⟩

theorem blockResults_le (blockType : Byte) : blockResults blockType ≤ maxResults := by
  unfold blockResults maxResults
  split <;> omega

include small in
theorem keeps_execBlock (blockType : Byte) : Keeps p.code d (execBlock p blockType : Exec n σ Unit) := by
  intro s held
  rw [execBlock, wp_bind]
  apply wp_mono (wp_findEnd small held) _ fun _ _ => id
  rintro endPc _ ⟨inside, rfl⟩
  rw [wp_bind, wp_get]
  exact keeps_pushLabel ⟨inside, held.sp, blockResults_le blockType⟩ _ held

theorem keeps_execLoop : Keeps code d (execLoop : Exec n σ Unit) := by
  intro s held
  exact keeps_pushLabel ⟨held.pc, held.sp, Nat.zero_le _⟩ s held

include small in
theorem keeps_execIf (blockType : Byte) : Keeps p.code d (execIf p blockType : Exec n σ Unit) := by
  apply keeps_popU32.bind
  intro cond s held
  rw [wp_bind]
  apply wp_mono (wp_findEnd small held) _ fun _ _ => id
  rintro endPc _ ⟨inside, rfl⟩
  rename_i s
  rw [wp_bind, wp_get]
  have entered : Keeps p.code d
      (pushLabel { targetPc := endPc, stackDepth := s.sp, resultCount := blockResults blockType } : Exec n σ Unit) :=
    keeps_pushLabel ⟨inside, held.sp, blockResults_le blockType⟩
  apply entered.ite _ s held
  apply (keeps_onPc (Reader.forward_skipToElseOrEnd small)).bind
  intro hasElse
  exact entered.ite (Keeps.pure ())

theorem keeps_attempt {x : Exec n σ Unit} (keeps : Keeps code d x) : Keeps code d (attempt x) := by
  intro s held
  rw [wp_attempt]
  apply wp_mono (keeps s held) fun _ _ => id
  rintro (e | _) t ⟨trap, kept⟩
  · exact kept
  · exact (trap rfl).elim

/-- A label goes after the operand stack has been settled. -/
theorem wp_settled {x : Exec n σ Unit} (keeps : Keeps code d x) (moves : Moves OnStack x) (held : s.Within code d)
    (labelled : 0 < s.labelDepth) :
    wp (do x; dropLabels 1) (fun _ t => t.Within code d) (Trapped code d) s := by
  rw [wp_bind]
  apply wp_mono (moves.wp_and (keeps s held)) _ fun _ _ => And.right
  rintro _ t ⟨⟨stack, sp, rfl⟩, kept⟩
  exact wp_dropLabels kept labelled

theorem keeps_settle {label : Label} (within : label.Within code) :
    Keeps code d (settle label : Exec n σ Unit) := by
  intro s held
  rw [settle, wp_bind, wp_get, wp_ite]
  split
  · next above =>
    rw [wp_bind]
    apply wp_top held (by omega)
    intro result
    exact (keeps_setSp within.stackDepth).bind (fun _ => keeps_push result) s held
  · have height := within.stackDepth
    have results := within.resultCount
    simp only [maxStack, maxResults] at height results
    rw [wp_bind, wp_plus, if_pos (by omega)]
    exact (keeps_setSp within.stackDepth).ite (Keeps.pure ()) s held

theorem keeps_settleElse {label : Label} (within : label.Within code) :
    Keeps code d (settleElse label : Exec n σ Unit) := by
  apply (keeps_resultAbove _ _).bind
  intro result
  apply (keeps_setSp within.stackDepth).bind
  intro _
  exact keeps_attempt (keeps_pushResult result)

theorem keeps_execElse : Keeps code d (execElse : Exec n σ Unit) := by
  intro s held
  rw [execElse, wp_bind, wp_get, wp_ite]
  split
  · next labelled =>
    rw [wp_bind]
    apply wp_topLabel held labelled
    intro label within
    have settled := wp_settled (keeps_settleElse within) (moves_settleElse label) held labelled
    rw [← bind_assoc, wp_bind]
    exact wp_mono settled (fun _ => keeps_setPc within.targetPc) fun _ _ => id
  · exact held

theorem wp_endBlock (held : s.Within code d) (labelled : 0 < s.labelDepth) :
    wp endBlock (fun _ t => t.Within code d) (Trapped code d) s := by
  rw [endBlock, wp_bind]
  apply wp_topLabel held labelled
  intro label within
  exact wp_settled (keeps_settle within) (moves_settle label) held labelled

theorem wp_execEnd (held : s.Within code 1) : wp execEnd (Stepped code) (Trapped code 1) s := by
  have bound := held.labelDepth
  rw [execEnd, wp_bind, wp_get, wp_ite]
  split
  · next labelled =>
    rw [wp_bind]
    apply wp_labelBase held
    intro base
    rw [wp_bind, wp_minus, if_pos (by omega), wp_ite]
    split
    · exact wp_leaveFunction held
    · rw [wp_bind]
      exact wp_mono (wp_endBlock held labelled) (fun _ _ => id) fun _ _ => id
  · exact wp_answerTop held

theorem wp_execReturn (held : s.Within code 1) : wp execReturn (Stepped code) (Trapped code 1) s := by
  have running := held.running
  rw [execReturn, wp_bind, wp_get, wp_ite, if_neg (by omega)]
  exact wp_leaveFunction held

include sound imports small in
theorem keeps_execCall (h : HostFunctions n σ) (target : BitVec 32) :
    Keeps p.code d (execCall p h target : Exec n σ Unit) := by
  intro s held
  rw [execCall, wp_ite]
  split
  · next imported => exact wp_callHost sound imports h imported held
  · rw [wp_bind, wp_get]
    apply wp_mono (wp_enterFunction sound small target held.pc held) _ fun _ _ => id
    exact fun _ t kept => kept.weaken (Nat.le_succ d)

theorem keeps_execSelect : Keeps code d (execSelect : Exec n σ Unit) := by
  apply keeps_popU32.bind
  intro cond
  apply keeps_pop.bind
  intro val2
  apply keeps_pop.bind
  intro val1
  exact keeps_push _

theorem keeps_execTee (idx : BitVec 32) : Keeps code d (execTee idx : Exec n σ Unit) := by
  intro s held
  rw [execTee, wp_bind, wp_get]
  apply wp_check held
  intro nonempty
  rw [wp_bind]
  exact wp_top held (Nat.pos_of_ne_zero nonempty) fun val => keeps_localSet idx val s held

end Module

/-- A meaning that never makes the machine panic. -/
def Meaning.Total : Meaning → Prop
  | .unary _ => True
  | .binary f => ∀ a b, f a b ≠ .error .fault

namespace Meaning

variable {w : Nat} (a b : BitVec w)

theorem divS_total : divS a b ≠ .error .fault := by
  unfold divS wrappingDiv
  split
  · nofun
  · split
    · nofun
    · nofun

theorem divU_total : divU a b ≠ .error .fault := by
  unfold divU
  split
  · nofun
  · nofun

theorem remS_total : remS a b ≠ .error .fault := by
  unfold remS rem
  split
  · nofun
  · next nonzero =>
    split
    · nofun
    · next fits =>
      rw [if_neg (not_or.mpr ⟨nonzero, fits⟩)]
      nofun

theorem remU_total : remU a b ≠ .error .fault := by
  unfold remU
  split
  · nofun
  · nofun

theorem i32Division_total {f : BitVec 32 → BitVec 32 → Except (Stop TrapKind) (BitVec 32)}
    (total : ∀ a b, f a b ≠ .error .fault) : (i32Division f).Total := by
  intro a b
  have here := total (low a) (low b)
  cases result : f (low a) (low b) with
  | ok v => simp [Functor.map, Except.map, result]
  | error stop =>
    rw [result] at here
    simpa [Functor.map, Except.map, result] using here

end Meaning

/-- A numeric instruction checks its divisor before the machine would panic on it. -/
theorem Numeric.total (op : Numeric) : op.meaning.Total := by
  cases op with
  | i32DivS => exact Meaning.i32Division_total Meaning.divS_total
  | i32DivU => exact Meaning.i32Division_total Meaning.divU_total
  | i32RemS => exact Meaning.i32Division_total Meaning.remS_total
  | i32RemU => exact Meaning.i32Division_total Meaning.remU_total
  | i64DivS => exact Meaning.divS_total
  | i64DivU => exact Meaning.divU_total
  | i64RemS => exact Meaning.remS_total
  | i64RemU => exact Meaning.remU_total
  | i32Eqz | i64Eqz | i32Clz | i32Ctz | i64Clz | i64Ctz | i32WrapI64 | i64ExtendI32S | i64ExtendI32U => trivial
  | _ => exact fun _ _ => nofun

theorem keeps_execNumeric (op : Numeric) : Keeps code d (execNumeric op : Exec n σ Unit) := by
  have total := op.total
  unfold execNumeric
  split
  · apply keeps_pop.bind
    intro a
    exact keeps_push _
  · next f same =>
    rw [same] at total
    apply keeps_pop.bind
    intro b
    apply keeps_pop.bind
    intro a
    split
    · exact keeps_push _
    · next stop failed => exact fun s held => ⟨fun panics => total a b (panics ▸ failed), held⟩

section Module

variable {p : Program} (sound : p.module.Sound p.code) (imports : p.numImports.toNat = p.module.importCount)
  (small : p.code.length < 2 ^ 32) (h : HostFunctions n σ)

include sound imports small

theorem keeps_execSimple (instr : Instr) : Keeps p.code d (execSimple p h instr) := by
  cases instr with
  | unreachable => exact Keeps.fail _
  | unknown opcode => exact Keeps.fail _
  | nop | endOp | returnOp => exact Keeps.pure ()
  | block blockType => exact keeps_execBlock small blockType
  | loop blockType => exact keeps_execLoop
  | ifOp blockType => exact keeps_execIf small blockType
  | elseOp => exact keeps_execElse
  | br depth => exact keeps_doBranch depth
  | brIf depth =>
    apply keeps_popU32.bind
    intro cond
    exact (keeps_doBranch depth).ite (Keeps.pure ())
  | call target => exact keeps_execCall sound imports small h target
  | drop => exact keeps_pop.bind fun _ => Keeps.pure ()
  | select => exact keeps_execSelect
  | localGet idx => exact (keeps_localGet idx).bind fun _ => keeps_push _
  | localSet idx => exact keeps_pop.bind fun _ => keeps_localSet idx _
  | localTee idx => exact keeps_execTee idx
  | load op align offset =>
    apply keeps_popU32.bind
    intro addr
    exact (keeps_fetch op addr offset).bind fun _ => keeps_push _
  | store op align offset =>
    apply keeps_pop.bind
    intro val
    exact keeps_popU32.bind fun addr => keeps_write op addr offset val
  | memorySize memIdx => exact keeps_push _
  | memoryGrow memIdx => exact keeps_popU32.bind fun _ => keeps_push _
  | i32Const val => exact keeps_push _
  | i64Const val => exact keeps_push _
  | numeric op => exact keeps_execNumeric op

theorem wp_exec (instr : Instr) (held : s.Within p.code 1) :
    wp (exec p h instr) (Stepped p.code) (Trapped p.code 1) s := by
  have simple : wp (do execSimple p h instr; pure .next) (Stepped p.code) (Trapped p.code 1) s := by
    rw [wp_bind]
    exact wp_mono (keeps_execSimple sound imports small h instr s held) (fun _ _ => id) fun _ _ => id
  cases instr with
  | endOp => exact wp_execEnd held
  | returnOp => exact wp_execReturn held
  | _ => exact simple

theorem wp_step (held : s.Within p.code 1) : wp (step p h) (Stepped p.code) (Trapped p.code 1) s :=
  (keeps_onPc ((Reader.forward_fetch small).weaken (Nat.zero_le 1))).then_wp held fun instr _ kept =>
    wp_exec sound imports small h instr kept

theorem wp_run (fuel : Nat) (held : s.Within p.code 1) :
    wp (run p h fuel) (fun _ t => t.Within p.code 0) (Trapped p.code 0) s := by
  have weaker : ∀ (e : Stop TrapKind) (t : Machine n σ), Trapped p.code 1 e t → Trapped p.code 0 e t :=
    fun _ _ trapped => ⟨trapped.1, trapped.2.weaken (Nat.zero_le 1)⟩
  induction fuel generalizing s with
  | zero => exact held.weaken (Nat.zero_le 1)
  | succ fuel ih =>
    rw [run, wp_bind]
    apply wp_mono (wp_step sound imports small h held) _ weaker
    intro outcome t stepped
    cases outcome with
    | next => exact ih stepped
    | done result => exact stepped

omit sound imports small in
theorem keeps_pushArgs (args : List Word) : Keeps code d (pushArgs args : Exec n σ Unit) := by
  induction args with
  | nil => exact Keeps.pure ()
  | cons arg rest ih => exact (keeps_push arg).bind fun _ => ih

theorem wp_callFunction (funcIdx : BitVec 32) (args : List Word) (fuel : Nat) (held : s.Within p.code 0) :
    wp (callFunction p h funcIdx args fuel) (fun _ t => t.Within p.code 0) (Trapped p.code 0) s := by
  rw [callFunction, wp_bind]
  apply wp_mono (keeps_pushArgs args s held) _ fun _ _ => id
  intro _ t held
  rw [wp_bind]
  apply wp_mono (wp_enterFunction sound small funcIdx (Nat.zero_le _) held) _ fun _ _ => id
  intro _ t held
  exact wp_run sound imports small h fuel held

end Module

/-! ### Any use of an interpreter -/

/-- A machine whose interpreter is new or has been used, to any end, before. Memory and host are
anything at any time. -/
inductive Used (p : Program) (h : HostFunctions n σ) : Machine n σ → Prop
  | fresh (memory : LinearMemory n) (host : σ) : Used p h { memory, host }
  | call {s : Machine n σ} (funcIdx : BitVec 32) (args : List Word) (fuel : Nat) (before : Used p h s) :
      Used p h (after (callFunction p h funcIdx args fuel) s)
  | touch {s : Machine n σ} (memory : LinearMemory n) (host : σ) (before : Used p h s) :
      Used p h { s with memory, host }

/-- A round of `run` that goes on. -/
def Next (p : Program) (h : HostFunctions n σ) (s t : Machine n σ) : Prop := step p h s = .ok .next t

/-- A state in the middle of a call of `call_function`. -/
inductive Reached (p : Program) (h : HostFunctions n σ) : Machine n σ → Prop
  | entered {s t : Machine n σ} (used : Used p h s) (funcIdx : BitVec 32) (args : List Word)
      (enters : (do pushArgs args; enterFunction p funcIdx 0) s = .ok () t) : Reached p h t
  | next {s t : Machine n σ} (before : Reached p h s) (goes : Next p h s t) : Reached p h t

/-- The state after a number of rounds of `run`. -/
def rounds (p : Program) (h : HostFunctions n σ) (s : Machine n σ) : (count : Nat) → Machine n σ
  | 0 => s
  | count + 1 => after (step p h) (rounds p h s count)

/-- The state in which `run` starts, in the first call of a new interpreter. -/
def started (p : Program) (funcIdx : BitVec 32) (args : List Word) (memory : LinearMemory n) (host : σ) : Machine n σ :=
  after (do pushArgs args; enterFunction p funcIdx 0) { memory, host }

theorem next_rounds {p : Program} {h : HostFunctions n σ} {count : Nat}
    (goes : returns (step p h) .next (rounds p h s count)) : Next p h (rounds p h s count) (rounds p h s (count + 1)) :=
  ok_of_returns goes

theorem reached_started {p : Program} {h : HostFunctions n σ} {funcIdx : BitVec 32} {args : List Word}
    {memory : LinearMemory n} {host : σ}
    (enters : returns (do pushArgs args; enterFunction p funcIdx 0) () ({ memory, host } : Machine n σ)) :
    Reached p h (started p funcIdx args memory host) :=
  .entered (.fresh memory host) funcIdx args (ok_of_returns enters)

theorem started_enters {p : Program} {funcIdx : BitVec 32} {memory : LinearMemory n} {host : σ}
    (enters : returns (do pushArgs []; enterFunction p funcIdx 0) () ({ memory, host } : Machine n σ)) :
    ∃ s, enterFunction p funcIdx 0 s = .ok () (started p funcIdx [] memory host) ∧ s.frameDepth = 0 := by
  obtain ⟨_, s, same, entered⟩ := bind_eq_ok.mp (ok_of_returns enters)
  cases same
  exact ⟨_, entered, rfl⟩

theorem reached_rounds {p : Program} {h : HostFunctions n σ} (reached : Reached p h s) (count : Nat)
    (goes : ∀ k < count, returns (step p h) .next (rounds p h s k)) : Reached p h (rounds p h s count) := by
  induction count with
  | zero => exact reached
  | succ count ih =>
    have before := ih fun k less => goes k (Nat.lt_succ_of_lt less)
    exact before.next (next_rounds (goes count (Nat.lt_succ_self count)))

theorem Used.within {p : Program} (accepted : parse p.code = .ok p.module) (small : p.code.length < 2 ^ 32)
    (imports : p.numImports.toNat = p.module.importCount) {h : HostFunctions n σ} (used : Used p h s) :
    s.Within p.code 0 := by
  induction used with
  | fresh memory host => exact Interpreter.within_new p.code
  | @call s funcIdx args fuel before ih =>
    apply after_of_wp (P := fun t : Machine n σ => t.Within p.code 0)
    exact wp_mono (wp_callFunction (sound_of_parse accepted) imports small h funcIdx args fuel ih)
      (fun _ _ => id) fun _ _ => And.right
  | touch memory host before ih => exact { ih with }

/-- For any accepted binary, bytecode, arguments, memory and host, no run of `call_function` of any
length leaves an array or overflows. -/
theorem callFunction_never_faults {p : Program} (accepted : parse p.code = .ok p.module)
    (small : p.code.length < 2 ^ 32) (imports : p.numImports.toNat = p.module.importCount) (h : HostFunctions n σ)
    (used : Used p h s) (funcIdx : BitVec 32) (args : List Word) (fuel : Nat) (t : Machine n σ) :
    callFunction p h funcIdx args fuel s ≠ .error .fault t := by
  intro faulted
  have safe := wp_callFunction (sound_of_parse accepted) imports small h funcIdx args fuel
    (used.within accepted small imports)
  unfold wp at safe
  rw [faulted] at safe
  exact safe.1 rfl

/-- The interpreter of a binary, with the imports the parser counted. -/
def loaded (code : List Byte) : Program :=
  { module := parsed code, code, numImports := BitVec.ofNat 32 (parsed code).importCount }

theorem parse_loaded {code : List Byte} (accepted : accepts code) :
    parse (loaded code).code = .ok (loaded code).module := parse_parsed accepted

theorem imports_loaded {code : List Byte} (accepted : accepts code) :
    (loaded code).numImports.toNat = (loaded code).module.importCount := by
  have few := (sound_of_parse (parse_parsed accepted)).imports
  simp only [maxImports] at few
  show (BitVec.ofNat 32 (parsed code).importCount).toNat = (parsed code).importCount
  rw [BitVec.toNat_ofNat, Nat.mod_eq_of_lt (by omega)]

theorem callFunction_never_faults_strayElse :
    callFunction (loaded strayElse) (noHost 0) 0 [] 9 { memory := nofun, host := () } ≠
      .error .fault (started (loaded strayElse) 0 [] nofun ()) := by
  have small : (loaded strayElse).code.length < 2 ^ 32 := by
    show strayElse.length < 2 ^ 32
    decide
  apply callFunction_never_faults (parse_loaded strayElse_accepted) small (imports_loaded strayElse_accepted)
  exact Used.fresh _ _

end GooseOs.Wasm
