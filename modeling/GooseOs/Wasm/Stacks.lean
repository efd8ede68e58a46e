import GooseOs.Wasm.Progress
import GooseOs.Wasm.Semantics

/-!
The interpreter's arrays as lists. Each operation is described on the lists; where one can fail at all, an array is full.
-/

namespace GooseOs.Wasm

open FixedArray

variable {n : Nat} {σ α : Type} {p : Program} {h : HostFunctions n σ} {s t : Machine n σ}
  {E : Stop TrapKind → Machine n σ → Prop}

/-- The functions with a body that can be read. -/
def Program.function (p : Program) (target : BitVec 32) : Option Function :=
  if p.numImports ≤ target ∧ target.toNat < p.numImports.toNat + p.module.funcCount then do
    let type ← p.signature target
    let body ← p.body target
    match Reader.readLocals p.code body.offset with
    | .ok declared start => do
      let (code, last) ← Reader.readBody p.code (p.code.length + 1) start
      match Reader.fetch p.code last with
      | .ok .endOp _ => some { type, declared, body := code }
      | _ => none
    | .error _ _ => none
  else none

/-- The machine with lists for its arrays. The topmost operand, label and frame come first. -/
structure Stacks (n : Nat) (σ : Type) where
  pc : Nat
  operands : List Word
  labels : List Label
  frames : List CallFrame
  locals : List Word
  memory : LinearMemory n
  host : σ

structure Shown (x : Stacks n σ) (s : Machine n σ) : Prop where
  pc : s.pc = x.pc
  operands : s.stack.Stacked s.sp x.operands
  labels : s.labels.Stacked s.labelDepth x.labels
  frames : s.frames.Stacked s.frameDepth x.frames
  locals : s.locals.Leads x.locals
  memory : s.memory = x.memory
  host : s.host = x.host

/-- The traps that belong to the interpreter: one of its arrays is full. -/
inductive AtLimit (p : Program) : TrapKind → Machine n σ → Prop
  | operands {s : Machine n σ} (full : s.sp = maxStack) : AtLimit p .stackOverflow s
  | calls {s : Machine n σ} (full : s.frameDepth = maxCallDepth) : AtLimit p .callStackOverflow s
  | labels {s : Machine n σ} (full : s.labelDepth = maxLabels) : AtLimit p .labelStackOverflow s
  | locals {s : Machine n σ} {target : BitVec 32} {f : Function} (known : p.function target = some f)
      (wide : maxLocals < f.type.paramCount + f.declared ∨
        maxLocals * maxCallDepth < s.nextLocal + (f.type.paramCount + f.declared)) : AtLimit p .invalidLocal s

/-- Stopped because an array is full. -/
def Limited (p : Program) (stop : Stop TrapKind) (s : Machine n σ) : Prop := ∃ kind, stop = .error kind ∧ AtLimit p kind s

namespace Shown
variable {x : Stacks n σ} {frame : CallFrame} {callers : List CallFrame} {val : Word} {rest : List Word}

/-! ### Operands -/

theorem push (shown : Shown x s) (val : Word) :
    wp (push val) (fun _ t => Shown { x with operands := val :: x.operands } t) (Limited p) s := by
  have room := shown.operands.room
  unfold Wasm.push
  rw [wp_bind, wp_get, wp_bind, wp_failIf]
  split
  · next full => exact ⟨_, rfl, .operands (by omega)⟩
  · next inside =>
    have low : s.sp < maxStack := Nat.lt_of_not_le inside
    have small : s.sp + 1 < 2 ^ 64 := by
      have : maxStack = 256 := rfl
      omega
    rw [wp_bind, wp_store, dif_pos low, wp_bind, wp_plus, if_pos small]
    exact { shown with operands := shown.operands.push low }

/-- Where a value has been taken off, there is room for one. -/
theorem push_room (shown : Shown x s) (val : Word) (room : x.operands.length < maxStack) :
    wp (Wasm.push val) (fun _ t => Shown { x with operands := val :: x.operands } t) E s := by
  have inside : s.sp < maxStack := shown.operands.depth ▸ room
  refine (wp_ok (a := ()) (push_ok.mpr ⟨inside, rfl⟩)).mpr ?_
  exact { shown with operands := shown.operands.push inside }

theorem lower {rest : List Word} (shown : Shown x s) {upper : List Word} (split : x.operands = upper ++ rest) :
    Shown { x with operands := rest } { s with sp := rest.length } where
  __ := shown
  operands := (split ▸ shown.operands : s.stack.Stacked s.sp (upper ++ rest)).drop

theorem operand (shown : Shown x s) {k : Nat} (there : x.operands[k]? = some val) : s.operand k = some val := by
  obtain ⟨inside, found⟩ := shown.operands.get there
  unfold Interpreter.operand
  rw [if_pos inside, found]

theorem popped (shown : Shown x s) (top : x.operands = val :: rest) :
    Shown { x with operands := rest } { s with sp := s.sp - 1 } where
  __ := shown
  operands := (top ▸ shown.operands : s.stack.Stacked s.sp (val :: rest)).pop

theorem top (shown : Shown x s) (top : x.operands = val :: rest) : s.operand 0 = some val :=
  shown.operand (by rw [top, List.getElem?_cons_zero])

theorem pop (shown : Shown x s) (top : x.operands = val :: rest) :
    wp pop (fun v t => v = val ∧ Shown { x with operands := rest } t) E s :=
  (wp_ok (pop_ok.mpr ⟨shown.top top, rfl⟩)).mpr ⟨rfl, shown.popped top⟩

theorem popU32 (shown : Shown x s) (top : x.operands = val :: rest) :
    wp popU32 (fun v t => v = Meaning.low val ∧ Shown { x with operands := rest } t) E s :=
  (wp_ok (popU32_ok.mpr ⟨val, shown.top top, rfl, rfl⟩)).mpr ⟨rfl, shown.popped top⟩

/-! ### Frames and locals -/

theorem running (shown : Shown x s) (frames : x.frames = frame :: callers) : s.running = some frame := by
  obtain ⟨some_, there⟩ := (frames ▸ shown.frames : s.frames.Stacked s.frameDepth (frame :: callers)).top
  unfold Interpreter.running
  rw [if_pos some_, there]

theorem localSlot (shown : Shown x s) (frames : x.frames = frame :: callers) {idx : BitVec 32}
    (inside : idx.toNat < frame.localCount) (room : frame.localsBase + frame.localCount ≤ x.locals.length) :
    localSlot idx s = .ok (frame.localsBase + idx.toNat) s := by
  have running := shown.running frames
  have deep := (frameDepth_of_running running).1
  have fits : x.locals.length ≤ 1024 := shown.locals.room
  refine bind_eq_ok.mpr ⟨_, _, get_eq_ok.mpr ⟨rfl, rfl⟩, bind_eq_ok.mpr ⟨(), _, failIf_eq_ok.mpr ⟨by omega, rfl⟩,
    bind_eq_ok.mpr ⟨_, _, topFrame_ok.mpr ⟨running, rfl⟩, bind_eq_ok.mpr ⟨_, _, plus_eq_ok.mpr ⟨by omega, rfl, rfl⟩,
      bind_eq_ok.mpr ⟨(), _, failIf_eq_ok.mpr ⟨?_, rfl⟩, rfl⟩⟩⟩⟩⟩
  have bound : maxLocals * maxCallDepth = 1024 := rfl
  omega

theorem localGet (shown : Shown x s) (frames : x.frames = frame :: callers) {idx : BitVec 32}
    (inside : idx.toNat < frame.localCount) (room : frame.localsBase + frame.localCount ≤ x.locals.length)
    (there : x.locals[frame.localsBase + idx.toNat]? = some val) : Wasm.localGet idx s = .ok val s :=
  bind_eq_ok.mpr ⟨_, _, shown.localSlot frames inside room, bind_eq_ok.mpr ⟨_, _, get_eq_ok.mpr ⟨rfl, rfl⟩,
    load_at?.mpr ⟨shown.locals _ _ there, rfl⟩⟩⟩

theorem localSet (shown : Shown x s) (frames : x.frames = frame :: callers) {idx : BitVec 32} (val : Word)
    (inside : idx.toNat < frame.localCount) (room : frame.localsBase + frame.localCount ≤ x.locals.length) :
    wp (Wasm.localSet idx val)
      (fun _ t => Shown { x with locals := x.locals.set (frame.localsBase + idx.toNat) val } t) E s := by
  have fits := shown.locals.room
  unfold Wasm.localSet
  rw [wp_bind_ok (shown.localSlot frames inside room), wp_bind, wp_get, wp_bind, wp_store, dif_pos (by omega)]
  exact { shown with locals := shown.locals.set }

/-! ### Labels -/

theorem pushLabel (shown : Shown x s) (label : Label) :
    wp (pushLabel label) (fun _ t => Shown { x with labels := label :: x.labels } t) (Limited p) s := by
  have room := shown.labels.room
  unfold Wasm.pushLabel
  rw [wp_bind, wp_get, wp_bind, wp_failIf]
  split
  · next full => exact ⟨_, rfl, .labels (by omega)⟩
  · next inside =>
    have low : s.labelDepth < maxLabels := Nat.lt_of_not_le inside
    have small : s.labelDepth + 1 < 2 ^ 64 := by
      have : maxLabels = 32 := rfl
      omega
    rw [wp_bind, wp_store, dif_pos low, wp_bind, wp_plus, if_pos small]
    exact { shown with labels := shown.labels.push low }

theorem topmostLabel (shown : Shown x s) {label : Label} {labels : List Label} (top : x.labels = label :: labels) :
    s.topmostLabel = some label := by
  obtain ⟨some_, there⟩ := (top ▸ shown.labels : s.labels.Stacked s.labelDepth (label :: labels)).top
  unfold Interpreter.topmostLabel
  rw [if_pos some_, there]

theorem dropped (shown : Shown x s) {gone labels : List Label} (split : x.labels = gone ++ labels) :
    Shown { x with labels } { s with labelDepth := labels.length } where
  __ := shown
  labels := (split ▸ shown.labels : s.labels.Stacked s.labelDepth (gone ++ labels)).drop

/-! ### Results -/

/-- The value passed on is the topmost one, when one is asked for and there is one. -/
theorem resultAbove (shown : Shown x s) {count floor : Nat} (few : count ≤ 1)
    (supplied : 0 < count → x.operands ≠ [] ∧ floor < s.sp) :
    Wasm.resultAbove count floor s = .ok (x.operands.take count).head? s := by
  refine bind_eq_ok.mpr ⟨_, _, get_eq_ok.mpr ⟨rfl, rfl⟩, ?_⟩
  rcases Nat.eq_zero_or_pos count with rfl | some_
  · rfl
  · obtain rfl : count = 1 := by omega
    obtain ⟨there, above⟩ := supplied some_
    rw [if_pos ⟨some_, above⟩]
    cases operands : x.operands with
    | nil => exact absurd operands there
    | cons val rest => exact map_eq_ok.mpr ⟨val, top_ok.mpr ⟨shown.top operands, rfl⟩, rfl⟩

theorem pushResult (shown : Shown x s) (result : Option Word) (room : result.isSome → x.operands.length < maxStack) :
    wp (pushResult result) (fun _ t => Shown { x with operands := result.toList ++ x.operands } t) E s := by
  cases result with
  | none => exact shown
  | some val => exact shown.push_room val (room rfl)

theorem room (shown : Shown x s) {upper rest : List Word} (split : x.operands = upper ++ rest) (some_ : upper ≠ []) :
    rest.length < maxStack := by
  have room := shown.operands.room
  have depth := shown.operands.depth
  have positive := List.length_pos_iff.mpr some_
  rw [split, List.length_append] at depth
  omega

section Leaving
variable {upper rest : List Word} {count : Nat} (shown : Shown x s) (split : x.operands = upper ++ rest) (few : count ≤ 1)
  (enough : count ≤ upper.length)
include shown split few enough

/-- The topmost operand, when one is asked for, with what is below it. -/
theorem result_split : (x.operands.take count).head?.toList = upper.take count ∧
    ((x.operands.take count).head?.isSome → rest.length < maxStack) := by
  rw [split, List.take_append_of_le_length enough]
  rcases Nat.eq_zero_or_pos count with rfl | some_
  · exact ⟨rfl, nofun⟩
  · obtain rfl : count = 1 := by omega
    cases upper with
    | nil => exact absurd enough (by decide)
    | cons val upper => exact ⟨rfl, fun _ => shown.room split (List.cons_ne_nil _ _)⟩

theorem resultBelow {floor : Nat} (low : floor ≤ rest.length) :
    Wasm.resultAbove count floor s = .ok (x.operands.take count).head? s := by
  apply shown.resultAbove few
  intro some_
  have depth := shown.operands.depth
  rw [split, List.length_append] at depth
  refine ⟨fun none_ => ?_, by omega⟩
  rw [none_, eq_comm, List.append_eq_nil_iff] at split
  rw [split.1, List.length_nil] at enough
  omega

/-- `s.sp` goes down and the result is put back. -/
theorem laid : wp (Wasm.pushResult (x.operands.take count).head?)
    (fun _ t => Shown { x with operands := upper.take count ++ rest } t) E { s with sp := rest.length } := by
  obtain ⟨same, room⟩ := shown.result_split split few enough
  rw [← same]
  exact (shown.lower split).pushResult _ room

end Leaving

end Shown

end GooseOs.Wasm
