import GooseOs.Wasm.Decoding
import GooseOs.Wasm.Entry
import GooseOs.Wasm.LinearMemory
import Mathlib.Data.List.Induction
import Mathlib.Data.List.GetD

/-!
Straight-line code: what each instruction does on a stack whose values are known, read from bytes
that stand at the program counter.
-/

namespace GooseOs.Wasm

open Leb128

variable {n : Nat} {σ α : Type} {code : List Byte} {pos : Nat}

/-! ### Reading instructions -/

namespace Reader

section Fetch
variable (slice : code.length < 2 ^ 63)
include slice

theorem readByte_at {x : Byte} {rest : List Byte} (place : At code pos (x :: rest)) : readByte code pos = .ok x (pos + 1) := by
  have inside := place.le
  rw [List.length_cons] at inside
  rw [readByte, bind_run (get_eq_ok.mpr ⟨rfl, rfl⟩), place.head]
  exact bind_eq_ok.mpr ⟨_, _, plus_eq_ok.mpr ⟨by omega, rfl, rfl⟩, rfl⟩

theorem readByte_supplies {bytes : List Byte} (place : At code pos bytes) :
    Supplies (readByte code) pos bytes (pos + bytes.length) := by
  induction bytes generalizing pos with
  | nil => rfl
  | cons x rest ih =>
    refine ⟨_, readByte_at slice place, ?_⟩
    have later := ih (@At.append code pos [x] rest place).2
    rwa [List.length_singleton, Nat.add_assoc, Nat.add_comm 1] at later

theorem readU32_at {k : Nat} (fits : k < 2 ^ 32) (place : At code pos (unsigned k)) :
    readU32Leb128 code pos = .ok (BitVec.ofNat 32 k) (pos + (unsigned k).length) :=
  reads_unsigned (fun _ _ _ => rfl) (Nat.le_refl _) (by omega) fits (readByte_supplies slice place)

theorem readI32_at {k : Nat} (fits : k < 2 ^ 31) (place : At code pos (signed k)) :
    readI32Leb128 code pos = .ok (BitVec.ofNat 32 k) (pos + (signed k).length) :=
  reads_signed (fun _ _ _ => rfl) fits (readByte_supplies slice place)

theorem fetch_plain {opcode : Byte} {instr : Instr} (place : At code pos [opcode])
    (plain : (match Op.ofByte opcode with
      | .drop => some Instr.drop
      | .endOp => some .endOp
      | _ => none) = some instr) : fetch code pos = .ok instr (pos + 1) := by
  refine bind_eq_ok.mpr ⟨_, _, readByte_at slice place, ?_⟩
  cases op : Op.ofByte opcode <;> rw [op] at plain <;> cases plain <;> rfl

theorem fetch_i32Const {k : Nat} (fits : k < 2 ^ 31) (place : At code pos ([0x41] ++ signed k)) :
    fetch code pos = .ok (.i32Const (BitVec.ofNat 32 k)) (pos + 1 + (signed k).length) := by
  obtain ⟨first, rest⟩ := place.append
  refine bind_eq_ok.mpr ⟨_, _, readByte_at slice first, ?_⟩
  exact map_eq_ok.mpr ⟨_, readI32_at slice fits rest, rfl⟩

theorem fetch_call {k : Nat} (fits : k < 2 ^ 32) (place : At code pos ([0x10] ++ unsigned k)) :
    fetch code pos = .ok (.call (BitVec.ofNat 32 k)) (pos + 1 + (unsigned k).length) := by
  obtain ⟨first, rest⟩ := place.append
  refine bind_eq_ok.mpr ⟨_, _, readByte_at slice first, ?_⟩
  exact map_eq_ok.mpr ⟨_, readU32_at slice fits rest, rfl⟩

theorem fetch_i32Store {align offset : Nat} (fits : align < 2 ^ 32) (fits' : offset < 2 ^ 32)
    (place : At code pos ([0x36] ++ (unsigned align ++ unsigned offset))) :
    fetch code pos = .ok (.store .i32Store (BitVec.ofNat 32 align) (BitVec.ofNat 32 offset))
      (pos + 1 + (unsigned align).length + (unsigned offset).length) := by
  obtain ⟨first, rest⟩ := place.append
  obtain ⟨second, third⟩ := rest.append
  refine bind_eq_ok.mpr ⟨_, _, readByte_at slice first, ?_⟩
  refine bind_eq_ok.mpr ⟨_, _, readU32_at slice fits second, bind_eq_ok.mpr ⟨_, _, readU32_at slice fits' third, rfl⟩⟩

end Fetch

end Reader

/-! ### Known operands -/

/-- The stack starts with these values. -/
def Holds (stack : FixedArray maxStack Word) (vals : List Word) : Prop := ∀ i v, vals[i]? = some v → stack.at? i = some v

theorem load_of_at? {k i : Nat} {ε : Type} {a : FixedArray k α} {v : α} {s : σ} (there : a.at? i = some v) :
    (a.load i : Prog ε σ α) s = .ok v s := by
  unfold FixedArray.at? at there
  split at there
  · next inside =>
    cases there
    rw [FixedArray.load, dif_pos inside]
    rfl
  · cases there

section Operands
variable {s : Machine n σ} {vals : List Word} {v : Word}

theorem Holds.prefix {rest : List Word} (holds : Holds s.stack (vals ++ rest)) : Holds s.stack vals := fun i v there =>
  holds i v (by rw [List.getElem?_append_left (List.getElem?_eq_some_iff.mp there).1, there])

theorem push_holds (v : Word) (holds : Holds s.stack vals) (height : s.sp = vals.length) (room : vals.length < maxStack) :
    ∃ stack, push v s = .ok () { s with stack, sp := vals.length + 1 } ∧ Holds stack (vals ++ [v]) := by
  have inside : s.sp < maxStack := height ▸ room
  refine ⟨Function.update s.stack ⟨s.sp, inside⟩ v, ?_, fun i w there => ?_⟩
  · refine bind_eq_ok.mpr ⟨_, _, get_eq_ok.mpr ⟨rfl, rfl⟩, bind_eq_ok.mpr ⟨(), _, failIf_eq_ok.mpr ⟨by omega, rfl⟩,
      bind_eq_ok.mpr ⟨_, _, store_eq_ok.mpr ⟨inside, rfl, rfl⟩, bind_eq_ok.mpr ⟨_, _, plus_eq_ok.mpr ⟨?_, rfl, rfl⟩, ?_⟩⟩⟩⟩
    · simp only [maxStack] at inside
      omega
    · rw [← height]
      rfl
  · unfold FixedArray.at?
    by_cases last : i = vals.length
    · subst last
      rw [List.getElem?_concat_length] at there
      cases there
      rw [dif_pos room]
      congr 1
      have same : (⟨vals.length, room⟩ : Fin maxStack) = ⟨s.sp, inside⟩ := Fin.ext height.symm
      rw [same, Function.update_self]
    · have below : i < vals.length := by
        have bound := (List.getElem?_eq_some_iff.mp there).1
        rw [List.length_append, List.length_singleton] at bound
        omega
      rw [List.getElem?_append_left below] at there
      have before := holds i w there
      unfold FixedArray.at? at before
      rw [dif_pos (by omega)] at before ⊢
      rw [Function.update_of_ne (Fin.val_ne_iff.mp (by show i ≠ s.sp; omega))]
      exact before

theorem pop_holds (holds : Holds s.stack (vals ++ [v])) (height : s.sp = vals.length + 1) :
    pop s = .ok v { s with sp := vals.length } := by
  have there : s.stack.at? vals.length = some v := holds _ v (List.getElem?_concat_length)
  refine bind_eq_ok.mpr ⟨_, _, get_eq_ok.mpr ⟨rfl, rfl⟩, bind_eq_ok.mpr ⟨(), _, failIf_eq_ok.mpr ⟨by omega, rfl⟩,
    bind_eq_ok.mpr ⟨_, _, minus_eq_ok.mpr ⟨by omega, rfl, rfl⟩, bind_eq_ok.mpr ⟨(), _, set_eq_ok.mpr rfl, ?_⟩⟩⟩⟩
  rw [height, Nat.add_sub_cancel]
  exact load_of_at? there

theorem popU32_holds (holds : Holds s.stack (vals ++ [v])) (height : s.sp = vals.length + 1) :
    popU32 s = .ok (v.setWidth 32) { s with sp := vals.length } :=
  map_eq_ok.mpr ⟨v, pop_holds holds height, rfl⟩

theorem popArgs_holds {args : List Word} {slots : FixedArray 8 Word} (holds : Holds s.stack (vals ++ args))
    (height : s.sp = vals.length + args.length) (few : args.length ≤ 8) :
    popArgs args.length slots s = .ok (fun i => args.getD i (slots i)) { s with sp := vals.length } := by
  induction args using List.reverseRecOn generalizing slots s with
  | nil =>
    rw [List.length_nil, Nat.add_zero] at height
    rw [← height]
    rfl
  | append_singleton args v ih =>
    rw [List.length_append, List.length_singleton] at height few ⊢
    rw [← List.append_assoc] at holds
    rw [popArgs]
    refine bind_eq_ok.mpr ⟨_, _, pop_holds holds (by rw [List.length_append]; omega),
      bind_eq_ok.mpr ⟨_, _, store_eq_ok.mpr ⟨few, rfl, rfl⟩, ?_⟩⟩
    refine (@ih { s with sp := (vals ++ args).length } _ holds.prefix List.length_append (by omega)).trans ?_
    congr 1
    funext i
    by_cases last : i.val = args.length
    · have place : i = ⟨args.length, few⟩ := Fin.ext last
      rw [place, List.getD_eq_default _ _ (Nat.le_refl _), Function.update_self, List.getD_eq_getElem?_getD,
        List.getElem?_concat_length, Option.getD_some]
    · rw [Function.update_of_ne (Fin.val_ne_iff.mp last), List.getD_eq_getElem?_getD, List.getD_eq_getElem?_getD]
      rcases Nat.lt_or_gt_of_ne last with before | behind
      · rw [List.getElem?_append_left before]
      · rw [List.getElem?_eq_none (by omega), List.getElem?_eq_none (by rw [List.length_append, List.length_singleton]; omega)]

theorem slice_args {args : List Word} (few : args.length ≤ 8) :
    (slice (fun i => args.getD i 0) args.length : Exec n σ _) s = .ok args s := by
  rw [slice, if_pos few]
  have same : (List.ofFn fun i : Fin 8 => args.getD i 0).take args.length = args := by
    apply List.ext_getElem?
    intro i
    rw [List.getElem?_take]
    split
    · next below =>
      rw [List.getElem?_ofFn, dif_pos (by omega), List.getD_eq_getElem?_getD, List.getElem?_eq_getElem below]
      rfl
    · next beyond => rw [List.getElem?_eq_none (by omega)]
  rw [same]
  rfl

end Operands

/-! ### Stores -/

theorem storeLe_word {memory : LinearMemory n} {ea : Nat} {val : BitVec 32} {s : Machine n σ} (inside : ea + 4 ≤ n) :
    storeLe memory ea val.toNat 4 s = .ok (memory.writeLe ea val) s := by
  rw [storeLe_ok inside, writeLe_eq]

/-! ### Steps -/

section Steps
variable {p : Program} {h : HostFunctions n σ} {s : Machine n σ} {vals : List Word} {pc : Nat} {instr : Instr}

theorem step_simple {t : Machine n σ} (read : Reader.fetch p.code s.pc = .ok instr pc)
    (simple : exec p h instr = (do execSimple p h instr; pure .next))
    (done : execSimple p h instr { s with pc } = .ok () t) :
    step p h s = .ok .next t := by
  rw [step_eq_ok]
  refine ⟨instr, pc, read, ?_⟩
  rw [simple]
  exact bind_eq_ok.mpr ⟨(), t, done, rfl⟩

theorem i32Const_step {k : Nat} (read : Reader.fetch p.code s.pc = .ok (.i32Const (BitVec.ofNat 32 k)) pc)
    (fits : k < 2 ^ 31) (holds : Holds s.stack vals) (height : s.sp = vals.length) (room : vals.length < maxStack) :
    ∃ stack, step p h s = .ok .next { s with pc, stack, sp := vals.length + 1 } ∧
      Holds stack (vals ++ [BitVec.ofNat 64 k]) := by
  obtain ⟨stack, pushed, after⟩ := @push_holds n σ { s with pc } vals (BitVec.ofNat 64 k) holds height room
  have wide : (BitVec.ofNat 32 k).setWidth 64 = BitVec.ofNat 64 k := by
    apply BitVec.eq_of_toNat_eq
    rw [BitVec.toNat_setWidth, BitVec.toNat_ofNat, BitVec.toNat_ofNat]
    omega
  refine ⟨stack, step_simple read rfl ?_, after⟩
  rw [execSimple, wide]
  exact pushed

theorem i32Store_step {align offset : BitVec 32} {addr val : Word} {ea : Nat}
    (read : Reader.fetch p.code s.pc = .ok (.store .i32Store align offset) pc)
    (holds : Holds s.stack (vals ++ [addr, val]))
    (height : s.sp = vals.length + 2) (place : (addr.setWidth 32).toNat + offset.toNat = ea) (inside : ea + 4 ≤ n) :
    step p h s =
      .ok .next { s with pc, sp := vals.length, memory := s.memory.writeLe ea (val.setWidth 32) } := by
  subst place
  have below : Holds s.stack (vals ++ [addr] ++ [val]) := by
    rw [List.append_assoc]
    exact holds
  have first : pop { s with pc } = .ok val { s with pc, sp := vals.length + 1 } := by
    have popped := @pop_holds n σ { s with pc } (vals ++ [addr]) val below (by rw [List.length_append]; exact height)
    rwa [List.length_append, List.length_singleton] at popped
  have second : popU32 { s with pc, sp := vals.length + 1 } = .ok (addr.setWidth 32) { s with pc, sp := vals.length } :=
    @popU32_holds n σ { s with pc, sp := vals.length + 1 } vals addr below.prefix rfl
  have bound := (addr.setWidth 32).isLt
  have bound' := offset.isLt
  refine step_simple read rfl (bind_eq_ok.mpr ⟨_, _, first, bind_eq_ok.mpr ⟨_, _, second, ?_⟩⟩)
  refine bind_eq_ok.mpr ⟨_, _, get_eq_ok.mpr ⟨rfl, rfl⟩, bind_eq_ok.mpr ⟨_, _, plus_eq_ok.mpr ⟨by omega, rfl, rfl⟩,
    bind_eq_ok.mpr ⟨_, _, plus_eq_ok.mpr ⟨by omega, rfl, rfl⟩, bind_eq_ok.mpr ⟨(), _, failIf_eq_ok.mpr ⟨by omega, rfl⟩,
      bind_eq_ok.mpr ⟨_, _, storeLe_word inside, rfl⟩⟩⟩⟩⟩

theorem hostCall_step {target typeIdx : BitVec 32} {funcType : FuncType} {args : List Word} {result : Word} {host : σ}
    {memory : LinearMemory n} (read : Reader.fetch p.code s.pc = .ok (.call target) pc) (imported : target < p.numImports)
    (typed : p.module.importTypes.at? target.toNat = some typeIdx)
    (signature : p.module.types.at? typeIdx.toNat = some funcType) (arity : funcType.paramCount = args.length)
    (few : args.length ≤ 8) (holds : Holds s.stack (vals ++ args)) (height : s.sp = vals.length + args.length)
    (room : vals.length < maxStack) (answer : h.call s.host target args s.memory = (.ok (some result), host, memory)) :
    ∃ stack, step p h s = .ok .next { s with pc, stack, sp := vals.length + 1, host, memory } ∧
      Holds stack (vals ++ [result]) := by
  obtain ⟨stack, pushed, after⟩ :=
    @push_holds n σ { s with pc, sp := vals.length, host, memory } vals result holds.prefix rfl room
  refine ⟨stack, step_simple read rfl ?_, after⟩
  have popped := @popArgs_holds n σ { s with pc } vals args (fun _ => 0) holds height few
  have call : execSimple p h (.call target) = callHost p h target := by
    rw [execSimple, execCall, if_pos imported]
  rw [call]
  refine bind_eq_ok.mpr ⟨_, _, load_of_at? typed, bind_eq_ok.mpr ⟨_, _, load_of_at? signature,
    bind_eq_ok.mpr ⟨_, _, get_eq_ok.mpr ⟨rfl, rfl⟩, bind_eq_ok.mpr ⟨(), _, failIf_eq_ok.mpr ⟨?_, rfl⟩, ?_⟩⟩⟩⟩
  · rw [arity]
    exact Nat.not_lt.mpr (by show args.length ≤ s.sp; omega)
  · rw [arity]
    refine bind_eq_ok.mpr ⟨_, _, popped, bind_eq_ok.mpr ⟨_, _, slice_args few, ?_⟩⟩
    refine bind_eq_ok.mpr ⟨_, _, get_eq_ok.mpr ⟨rfl, rfl⟩, ?_⟩
    simp only [answer]
    exact bind_eq_ok.mpr ⟨(), _, rfl, pushed⟩

theorem drop_step {v : Word} (read : Reader.fetch p.code s.pc = .ok .drop pc) (holds : Holds s.stack (vals ++ [v]))
    (height : s.sp = vals.length + 1) : step p h s = .ok .next { s with pc, sp := vals.length } := by
  have popped : pop { s with pc } = .ok v { s with pc, sp := vals.length } := pop_holds holds height
  have done : execSimple p h .drop { s with pc } = .ok () { s with pc, sp := vals.length } :=
    bind_eq_ok.mpr ⟨v, _, popped, rfl⟩
  exact step_simple read rfl done

/-- The end of the outermost function, which has no result. -/
theorem lastEnd_step {frame : CallFrame} (read : Reader.fetch p.code s.pc = .ok .endOp pc) (depth : s.frameDepth = 1)
    (top : s.frames.at? 0 = some frame) (results : frame.resultCount = 0) (labels : s.labelDepth = frame.labelBase + 1) :
    step p h s = .ok (.done none)
      { s with pc, sp := frame.stackDepth, labelDepth := frame.labelBase, frameDepth := 0 } := by
  have running : ({ s with pc } : Machine n σ).running = some frame := by
    unfold Interpreter.running
    rw [if_pos (by show 0 < s.frameDepth; omega)]
    show s.frames.at? (s.frameDepth - 1) = some frame
    rw [depth]
    exact top
  exact step_eq_ok.mpr ⟨_, pc, read, @execEnd_empty n σ { s with pc } frame depth running (.inl results) labels⟩

theorem run_next {t : Machine n σ} {fuel : Nat} (stepped : step p h s = .ok .next t) : run p h (fuel + 1) s = run p h fuel t := by
  rw [run]
  simp only [bind, EStateM.bind, stepped]

theorem run_done {t : Machine n σ} {fuel : Nat} {result : Option Word} (stepped : step p h s = .ok (.done result) t) :
    run p h (fuel + 1) s = .ok (.done result) t := by
  rw [run]
  simp only [bind, EStateM.bind, stepped]
  rfl

end Steps

/-! ### Known states -/

/-- In the outermost function, in front of these bytes, with these operands, this memory and this host. -/
structure Stands (code : List Byte) (frame : CallFrame) (rest : List Byte) (vals : List Word) (memory : LinearMemory n)
    (host : σ) (s : Machine n σ) : Prop where
  place : At code s.pc rest
  holds : Holds s.stack vals
  height : s.sp = vals.length
  depth : s.frameDepth = 1
  top : s.frames.at? 0 = some frame
  labels : s.labelDepth = frame.labelBase + 1
  memory : s.memory = memory
  host : s.host = host

namespace Stands

variable {p : Program} {h : HostFunctions n σ} {s : Machine n σ} {frame : CallFrame} {rest : List Byte} {vals : List Word}
  {memory : LinearMemory n} {host : σ} (slice : p.code.length < 2 ^ 63)
include slice

theorem i32Const {k : Nat} (fits : k < 2 ^ 31) (room : vals.length < maxStack)
    (stands : Stands p.code frame ([0x41] ++ Leb128.signed k ++ rest) vals memory host s) :
    ∃ t, (∀ fuel, run p h (fuel + 1) s = run p h fuel t) ∧
      Stands p.code frame rest (vals ++ [BitVec.ofNat 64 k]) memory host t := by
  obtain ⟨first, later⟩ := stands.place.append
  obtain ⟨stack, stepped, holds⟩ :=
    @i32Const_step n σ p h s vals _ k (Reader.fetch_i32Const slice fits first) fits stands.holds stands.height room
  refine ⟨_, fun fuel => run_next stepped, { stands with place := ?_, holds := holds, height := ?_ }⟩
  · rwa [List.length_append, List.length_singleton, ← Nat.add_assoc] at later
  · rw [List.length_append, List.length_singleton]

theorem i32Store {align offset : Nat} {addr val : Word} {ea : Nat} (fits : align < 2 ^ 32) (fits' : offset < 2 ^ 32)
    (target : (addr.setWidth 32).toNat + offset = ea) (inside : ea + 4 ≤ n)
    (stands : Stands p.code frame ([0x36] ++ (unsigned align ++ unsigned offset) ++ rest) (vals ++ [addr, val]) memory host s) :
    ∃ t, (∀ fuel, run p h (fuel + 1) s = run p h fuel t) ∧
      Stands p.code frame rest vals (memory.writeLe ea (val.setWidth 32)) host t := by
  obtain ⟨first, later⟩ := stands.place.append
  have place : (addr.setWidth 32).toNat + (BitVec.ofNat 32 offset).toNat = ea := by
    rw [BitVec.toNat_ofNat, Nat.mod_eq_of_lt fits', target]
  have stepped := @i32Store_step n σ p h s vals _ _ _ addr val ea (Reader.fetch_i32Store slice fits fits' first) stands.holds
    (by rw [stands.height, List.length_append]; rfl) place inside
  rw [stands.memory] at stepped
  refine ⟨_, fun fuel => run_next stepped,
    { stands with place := ?_, holds := stands.holds.prefix, height := rfl, memory := rfl }⟩
  rwa [List.length_append, List.length_append, List.length_singleton, ← Nat.add_assoc, ← Nat.add_assoc] at later

theorem hostCall {target : Nat} {typeIdx : BitVec 32} {funcType : FuncType} {args : List Word} {result : Word} {host' : σ}
    {memory' : LinearMemory n} (fits : target < 2 ^ 32) (imported : BitVec.ofNat 32 target < p.numImports)
    (typed : p.module.importTypes.at? target = some typeIdx)
    (signature : p.module.types.at? typeIdx.toNat = some funcType) (arity : funcType.paramCount = args.length)
    (few : args.length ≤ 8) (room : vals.length < maxStack)
    (answer : h.call host (BitVec.ofNat 32 target) args memory = (.ok (some result), host', memory'))
    (stands : Stands p.code frame ([0x10] ++ unsigned target ++ rest) (vals ++ args) memory host s) :
    ∃ t, (∀ fuel, run p h (fuel + 1) s = run p h fuel t) ∧ Stands p.code frame rest (vals ++ [result]) memory' host' t := by
  obtain ⟨first, later⟩ := stands.place.append
  rw [← stands.host, ← stands.memory] at answer
  have typed' : p.module.importTypes.at? (BitVec.ofNat 32 target).toNat = some typeIdx := by
    rw [BitVec.toNat_ofNat, Nat.mod_eq_of_lt fits, typed]
  obtain ⟨stack, stepped, holds⟩ := @hostCall_step n σ p h s vals _ _ typeIdx funcType args result host' memory'
    (Reader.fetch_call slice fits first) imported typed' signature arity few stands.holds
    (by rw [stands.height, List.length_append]) room answer
  refine ⟨_, fun fuel => run_next stepped,
    { stands with place := ?_, holds := holds, height := ?_, memory := rfl, host := rfl }⟩
  · rwa [List.length_append, List.length_singleton, ← Nat.add_assoc] at later
  · rw [List.length_append, List.length_singleton]

theorem drop {v : Word} (stands : Stands p.code frame ([0x1A] ++ rest) (vals ++ [v]) memory host s) :
    ∃ t, (∀ fuel, run p h (fuel + 1) s = run p h fuel t) ∧ Stands p.code frame rest vals memory host t := by
  obtain ⟨first, later⟩ := stands.place.append
  have stepped := @drop_step n σ p h s vals _ v (Reader.fetch_plain slice first rfl) stands.holds
    (by rw [stands.height, List.length_append, List.length_singleton])
  exact ⟨_, fun fuel => run_next stepped,
    { stands with place := later, holds := stands.holds.prefix, height := rfl }⟩

theorem lastEnd (results : frame.resultCount = 0) (stands : Stands p.code frame [0x0B] vals memory host s) :
    ∃ t, (∀ fuel, run p h (fuel + 1) s = .ok (.done none) t) ∧ t.memory = memory ∧ t.host = host := by
  have stepped := @lastEnd_step n σ p h s _ frame (Reader.fetch_plain slice stands.place rfl) stands.depth stands.top results
    stands.labels
  exact ⟨_, fun fuel => run_done stepped, stands.memory, stands.host⟩

omit slice in
/-- The frame and the label of a function without parameters and locals on a new interpreter. -/
theorem pushed {frame : CallFrame} {pc : Nat} (bodyEnd : Nat) (room : 0 < maxCallDepth) (room' : 0 < maxLabels)
    (place : At p.code pc rest) (first : frame.labelBase = 0) :
    Stands p.code frame rest [] memory host
      { pc, memory, host, frames := Function.update (fun _ => {}) ⟨0, room⟩ frame, frameDepth := 1, labelDepth := 1
        labels := Function.update (fun _ => {}) ⟨0, room'⟩ { targetPc := bodyEnd, resultCount := frame.resultCount } } where
  place := place
  holds _ _ there := by cases there
  height := rfl
  depth := rfl
  top := by
    unfold FixedArray.at?
    rw [dif_pos room]
    simp only [Function.update_self]
  labels := by rw [first]
  memory := rfl
  host := rfl

theorem enter {i : Nat} {funcIdx typeIdx : BitVec 32} {funcType : FuncType} {body : FuncBody}
    (own : ¬ funcIdx < p.numImports) (index : funcIdx.toNat - p.numImports.toNat = i) (known : i < p.module.funcCount)
    (typed : p.module.funcTypes.at? i = some typeIdx) (known' : typeIdx.toNat < p.module.typeCount)
    (signature : p.module.types.at? typeIdx.toNat = some funcType) (params : funcType.paramCount = 0)
    (compiled : p.module.bodies.at? i = some body) (place : At p.code body.offset (unsigned 0 ++ rest))
    (fits : body.offset + body.length < 2 ^ 64) :
    ∃ t, enterFunction p funcIdx 0 ({ memory, host } : Machine n σ) = .ok () t ∧
      Stands p.code { funcIdx, resultCount := funcType.resultCount } rest [] memory host t := by
  subst index
  obtain ⟨first, later⟩ := place.append
  have room : 0 < maxCallDepth := by decide
  have room' : 0 < maxLabels := by decide
  have found : resolve p funcIdx ({ memory, host } : Machine n σ) = .ok (funcType, body) { memory, host } := by
    refine bind_eq_ok.mpr ⟨(), _, failIf_eq_ok.mpr ⟨own, rfl⟩, bind_eq_ok.mpr ⟨_, _, minus_eq_ok.mpr ⟨?_, rfl, rfl⟩,
      bind_eq_ok.mpr ⟨(), _, failIf_eq_ok.mpr ⟨Nat.not_le.mpr known, rfl⟩, bind_eq_ok.mpr ⟨_, _, load_of_at? typed,
        bind_eq_ok.mpr ⟨(), _, failIf_eq_ok.mpr ⟨Nat.not_le.mpr known', rfl⟩, bind_eq_ok.mpr ⟨_, _, load_of_at? signature,
          bind_eq_ok.mpr ⟨_, _, load_of_at? compiled, rfl⟩⟩⟩⟩⟩⟩⟩
    exact BitVec.not_lt.mp own
  have groups : Reader.readLocals p.code body.offset = .ok 0 (body.offset + 1) :=
    bind_eq_ok.mpr ⟨0, _, Reader.readU32_at slice (by decide) first, rfl⟩
  have read : onPc (Reader.readLocals p.code) ({ pc := body.offset, memory, host } : Machine n σ) =
      .ok 0 { pc := body.offset + 1, memory, host } := onPart_eq_ok.mpr ⟨_, groups, rfl⟩
  have reserved : reserveLocals p 0 body.offset ({ memory, host } : Machine n σ) =
      .ok (0, 0) { pc := body.offset + 1, memory, host } := bind_eq_ok.mpr ⟨(), _, rfl, bind_eq_ok.mpr ⟨0, _, read, rfl⟩⟩
  refine ⟨_, ?_, pushed (body.offset + body.length) room room' later rfl⟩
  rw [enterFunction]
  refine bind_eq_ok.mpr ⟨_, _, get_eq_ok.mpr ⟨rfl, rfl⟩, bind_eq_ok.mpr ⟨(), _, failIf_eq_ok.mpr ⟨Nat.not_le.mpr room, rfl⟩,
    bind_eq_ok.mpr ⟨_, _, found, ?_⟩⟩⟩
  dsimp only
  rw [params]
  refine bind_eq_ok.mpr ⟨_, _, reserved, bind_eq_ok.mpr ⟨_, _, rfl, bind_eq_ok.mpr ⟨_, _, get_eq_ok.mpr ⟨rfl, rfl⟩, ?_⟩⟩⟩
  refine bind_eq_ok.mpr ⟨(), _, bind_eq_ok.mpr ⟨_, _, get_eq_ok.mpr ⟨rfl, rfl⟩, bind_eq_ok.mpr ⟨_, _,
    store_eq_ok.mpr ⟨room, rfl, rfl⟩, rfl⟩⟩, bind_eq_ok.mpr ⟨_, _, plus_eq_ok.mpr ⟨fits, rfl, rfl⟩, ?_⟩⟩
  exact bind_eq_ok.mpr ⟨_, _, get_eq_ok.mpr ⟨rfl, rfl⟩, bind_eq_ok.mpr ⟨(), _, failIf_eq_ok.mpr ⟨Nat.not_le.mpr room', rfl⟩,
    bind_eq_ok.mpr ⟨_, _, store_eq_ok.mpr ⟨room', rfl, rfl⟩, rfl⟩⟩⟩

end Stands

end GooseOs.Wasm
