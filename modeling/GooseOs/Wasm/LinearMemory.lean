import GooseOs.Kernel.Wasi
import GooseOs.Lib.Integer
import GooseOs.Lib.Patch
import GooseOs.Wasm.Operations

/-!
Linear memory. Along a run it holds what was stored last, and a load reads that as a number.
-/

namespace GooseOs.Wasm

variable {n : Nat} {σ : Type} {p : Program} {h : HostFunctions n σ} {s t u : Machine n σ} {ea val : Nat}
  {memory : LinearMemory n}

/-! ### Widths -/

/-- The bytes of memory that a load reads. -/
def Load.width : Load → Nat
  | .i32Load => 4
  | .i64Load => 8
  | .i32Load8S | .i32Load8U => 1
  | .i32Load16S | .i32Load16U => 2

def Load.resultWidth : Load → Nat
  | .i64Load => 64
  | _ => 32

/-- The number as the opcode extends it to its result type. -/
def Load.extend (v : Nat) : Load → Nat
  | .i32Load8S => Integer.unsigned 32 (Integer.signed 8 v)
  | .i32Load16S => Integer.unsigned 32 (Integer.signed 16 v)
  | _ => v

def Store.width : Store → Nat
  | .i32Store => 4
  | .i64Store => 8
  | .i32Store8 => 1
  | .i32Store16 => 2

/-- What a store writes. -/
def Store.patch (op : Store) (addr offset : BitVec 32) (val : Word) : Patch Byte where
  start := addr.toNat + offset.toNat
  content := leBytes op.width val.toNat

/-! ### Bytes -/

theorem bytes_succ (inside : ea < n) {count : Nat} :
    memory.bytes ea (count + 1) = memory ⟨ea, inside⟩ :: memory.bytes (ea + 1) count := by
  have first : memory.at? (ea + 0) = some (memory ⟨ea, inside⟩) := FixedArray.at?_inside inside
  unfold LinearMemory.bytes
  rw [List.range_succ_eq_map, @List.filterMap_cons_some _ _ (fun j => memory.at? (ea + j)) _ _ _ first, List.filterMap_map]
  congr 2
  funext j
  simp only [Function.comp_apply, Nat.succ_eq_add_one]
  congr 1
  omega

theorem loadLe_ok {count : Nat} (inside : ea + count ≤ n) :
    (loadLe memory ea count : Exec n σ Nat) s = .ok (leValue (memory.bytes ea count)) s := by
  induction count generalizing ea with
  | zero => rfl
  | succ count ih =>
    have here : ea < n := by omega
    rw [loadLe, bind_run (load_eq_ok.mpr ⟨here, rfl, rfl⟩), bind_run (ih (by omega)), bytes_succ here]
    rfl

theorem storeLe_ok {count : Nat} (inside : ea + count ≤ n) :
    (storeLe memory ea val count : Exec n σ (LinearMemory n)) s = .ok (memory.patch ⟨ea, leBytes count val⟩) s := by
  induction count generalizing memory ea val with
  | zero => simp [storeLe, leBytes]
  | succ count ih =>
    have here : ea < n := by omega
    rw [storeLe, bind_run (store_eq_ok.mpr ⟨here, rfl, rfl⟩), ih (by omega), FixedArray.patch_update]
    rfl

theorem writeLe_eq {addr : Nat} {val : BitVec 32} : memory.writeLe addr val = memory.patch ⟨addr, leBytes 4 val.toNat⟩ := by
  funext x
  simp only [LinearMemory.writeLe, FixedArray.patch, Patch.at?, getElem?_leBytes]
  by_cases low : addr ≤ x.val
  · by_cases within : x.val < addr + 4
    · rw [if_pos ⟨low, within⟩, if_pos low, if_pos (by omega), Option.getD_some]
      apply BitVec.eq_of_toNat_eq
      rw [BitVec.toNat_ofNat, BitVec.extractLsb'_toNat, Nat.shiftRight_eq_div_pow, Nat.pow_mul]
    · rw [if_neg (by omega), if_pos low, if_neg (by omega), Option.getD_none]
  · rw [if_neg (by omega), if_neg low, Option.getD_none]

theorem leBytes_mod {count w : Nat} (wide : 8 * count ≤ w) : leBytes count (val % 2 ^ w) = leBytes count val := by
  induction count generalizing val w with
  | zero => rfl
  | succ count ih =>
    obtain ⟨w, rfl⟩ : ∃ k, w = k + 8 := ⟨w - 8, by omega⟩
    have low : val % 2 ^ (w + 8) % 256 = val % 256 := by
      rw [Nat.pow_add]
      exact Nat.mod_mul_left_mod val (2 ^ w) 256
    have high : val % 2 ^ (w + 8) / 256 = val / 256 % 2 ^ w := by
      rw [Nat.pow_add, Nat.mul_comm, Nat.mod_mul_right_div_self]
    rw [leBytes, leBytes, high, ih (by omega)]
    congr 1
    apply BitVec.eq_of_toNat_eq
    simpa using low

/-! ### Loads -/

theorem memLoad_spec {addr offset : BitVec 32} {count : Nat} (short : count ≤ 8) : (memLoad count addr offset : Exec n σ Nat) s =
    if n < addr.toNat + offset.toNat + count then .error (.error .outOfBounds) s
    else .ok (leValue (s.memory.bytes (addr.toNat + offset.toNat) count)) s := by
  have low := addr.isLt
  have low' := offset.isLt
  rw [memLoad, bind_run (get_eq_ok.mpr ⟨rfl, rfl⟩), bind_run (plus_eq_ok.mpr ⟨by omega, rfl, rfl⟩),
    bind_run (plus_eq_ok.mpr ⟨by omega, rfl, rfl⟩)]
  split
  · next outside => exact bind_stop (failIf_stop outside)
  · next inside =>
    rw [bind_run (failIf_pass inside)]
    exact loadLe_ok (by omega)

theorem memLoadU8_spec {addr offset : BitVec 32} : (memLoadU8 addr offset : Exec n σ Nat) s =
    if n < addr.toNat + offset.toNat + 1 then .error (.error .outOfBounds) s
    else .ok (leValue (s.memory.bytes (addr.toNat + offset.toNat) 1)) s := by
  have low := addr.isLt
  have low' := offset.isLt
  rw [memLoadU8, bind_run (get_eq_ok.mpr ⟨rfl, rfl⟩), bind_run (plus_eq_ok.mpr ⟨by omega, rfl, rfl⟩)]
  split
  · next outside => exact bind_stop (failIf_stop (Nat.le_of_lt_succ outside))
  · next inside =>
    rw [bind_run (failIf_pass (by omega))]
    exact loadLe_ok (by omega)

/-- What a load does to the bytes it reads. -/
def Load.word (op : Load) (v : Nat) : Word :=
  match op with
  | .i32Load8S => (BitVec.ofNat 8 v).signExtend 64
  | .i32Load16S => (BitVec.ofNat 16 v).signExtend 64
  | _ => BitVec.ofNat 64 v

theorem fetch_spec {op : Load} {addr offset : BitVec 32} : (op.fetch addr offset : Exec n σ Word) s =
    if n < addr.toNat + offset.toNat + op.width then .error (.error .outOfBounds) s
    else .ok (op.word (leValue (s.memory.bytes (addr.toNat + offset.toNat) op.width))) s := by
  have mapped : ∀ (x : Exec n σ Nat) (f : Nat → Word) (c : Prop) [Decidable c] (e : Stop TrapKind) (v : Nat),
      x s = (if c then .error e s else .ok v s) → (f <$> x) s = if c then .error e s else .ok (f v) s := by
    intro x f c _ e v result
    split at result
    · next holds =>
      rw [if_pos holds]
      exact bind_stop result
    · next fails =>
      rw [if_neg fails]
      exact map_eq_ok.mpr ⟨v, result, rfl⟩
  cases op with
  | i32Load => exact mapped _ _ _ _ _ (memLoad_spec (by decide))
  | i64Load => exact mapped _ _ _ _ _ (memLoad_spec (by decide))
  | i32Load8S | i32Load8U => exact mapped _ _ _ _ _ memLoadU8_spec
  | i32Load16S | i32Load16U => exact mapped _ _ _ _ _ (memLoad_spec (by decide))

theorem word_extends (op : Load) {v : Nat} (fits : v < 256 ^ op.width) :
    (op.word v).toNat % 2 ^ op.resultWidth = op.extend v := by
  have signs : ∀ {w : Nat} (x : BitVec w), w ≤ 32 →
      (x.signExtend 64).toNat % 2 ^ 32 = Integer.unsigned 32 (Integer.signed w x.toNat) := by
    intro w x narrow
    have same : (x.signExtend 64).setWidth 32 = x.signExtend 32 := by
      apply BitVec.eq_of_getLsbD_eq
      intro i low
      simp only [BitVec.getLsbD_setWidth, BitVec.getLsbD_signExtend, low, show i < 64 by omega, decide_true, Bool.true_and]
    rw [Integer.signed_toNat, ← BitVec.toInt_signExtend_of_le narrow, Integer.unsigned_toInt, ← same, BitVec.toNat_setWidth]
  have small : 256 ^ op.width ≤ 2 ^ op.resultWidth := by cases op <;> decide
  cases op with
  | i32Load8S =>
    have back : (BitVec.ofNat 8 v).toNat = v := Nat.mod_eq_of_lt fits
    exact (signs (BitVec.ofNat 8 v) (by decide)).trans (by rw [back]; rfl)
  | i32Load16S =>
    have back : (BitVec.ofNat 16 v).toNat = v := Nat.mod_eq_of_lt fits
    exact (signs (BitVec.ofNat 16 v) (by decide)).trans (by rw [back]; rfl)
  | _ =>
    simp only [Load.word, Load.extend, BitVec.toNat_ofNat]
    simp only [Load.resultWidth, Load.width] at *
    omega

/-! ### Stores -/

theorem memStore_spec {addr offset : BitVec 32} {count : Nat} (short : count ≤ 8) :
    (memStore count addr offset val : Exec n σ Unit) s =
      if n < addr.toNat + offset.toNat + count then .error (.error .outOfBounds) s
      else .ok () { s with memory := s.memory.patch ⟨addr.toNat + offset.toNat, leBytes count val⟩ } := by
  have low := addr.isLt
  have low' := offset.isLt
  rw [memStore, bind_run (get_eq_ok.mpr ⟨rfl, rfl⟩), bind_run (plus_eq_ok.mpr ⟨by omega, rfl, rfl⟩),
    bind_run (plus_eq_ok.mpr ⟨by omega, rfl, rfl⟩)]
  split
  · next outside => exact bind_stop (failIf_stop outside)
  · next inside =>
    rw [bind_run (failIf_pass inside), bind_run (storeLe_ok (by omega))]
    rfl

theorem memStoreU8_spec {addr offset : BitVec 32} : (memStoreU8 addr offset val : Exec n σ Unit) s =
    if n < addr.toNat + offset.toNat + 1 then .error (.error .outOfBounds) s
    else .ok () { s with memory := s.memory.patch ⟨addr.toNat + offset.toNat, leBytes 1 val⟩ } := by
  have low := addr.isLt
  have low' := offset.isLt
  rw [memStoreU8, bind_run (get_eq_ok.mpr ⟨rfl, rfl⟩), bind_run (plus_eq_ok.mpr ⟨by omega, rfl, rfl⟩)]
  split
  · next outside => exact bind_stop (failIf_stop (Nat.le_of_lt_succ outside))
  · next inside =>
    rw [bind_run (failIf_pass (by omega)), bind_run (storeLe_ok (by omega))]
    rfl

theorem write_spec {op : Store} {addr offset : BitVec 32} {val : Word} : (op.write addr offset val : Exec n σ Unit) s =
    if n < addr.toNat + offset.toNat + op.width then .error (.error .outOfBounds) s
    else .ok () { s with memory := s.memory.patch (op.patch addr offset val) } := by
  have low : ∀ count w, 8 * count ≤ w → leBytes count (val.setWidth w).toNat = leBytes count val.toNat := by
    intro count w wide
    rw [BitVec.toNat_setWidth, leBytes_mod wide]
  cases op with
  | i32Store =>
    rw [Store.write, memStoreU32, memStore_spec (by decide), low 4 32 (by decide)]
    rfl
  | i64Store => exact memStore_spec (by decide)
  | i32Store8 =>
    rw [Store.write, memStoreU8_spec, low 1 8 (by decide)]
    rfl
  | i32Store16 =>
    rw [Store.write, memStoreU16, memStore_spec (by decide), low 2 16 (by decide)]
    rfl

/-! ### Steps -/

theorem load_step {op : Load} {align offset : BitVec 32} {pc : Nat} {addr : Word}
    (fetched : Reader.fetch p.code s.pc = .ok (.load op align offset) pc) (top : s.operand 0 = some addr) :
    if n < (Meaning.low addr).toNat + offset.toNat + op.width then
      step p h s = .error (.error .outOfBounds) { s with pc, sp := s.sp - 1 }
    else ∃ t, step p h s = .ok .next t ∧ Lays (s.sp - 1)
      (some (op.word (leValue (s.memory.bytes ((Meaning.low addr).toNat + offset.toNat) op.width)))) { s with pc } t := by
  have popped : popU32 ({ s with pc } : Machine n σ) = .ok (Meaning.low addr) { s with pc, sp := s.sp - 1 } :=
    popU32_ok.mpr ⟨addr, top, rfl, rfl⟩
  have ran : step p h s = (do execSimple p h (.load op align offset); pure .next : Exec n σ Outcome) { s with pc } :=
    step_fetched fetched
  have loads := @fetch_spec n σ { s with pc, sp := s.sp - 1 } op (Meaning.low addr) offset
  rw [ran]
  split
  · next outside =>
    rw [if_pos outside] at loads
    exact bind_stop ((bind_run popped).trans (bind_stop loads))
  · next inside =>
    rw [if_neg inside] at loads
    obtain ⟨_, room⟩ := Interpreter.operand_inside top
    exact ⟨_, bind_run ((bind_run popped).trans ((bind_run loads).trans
      ((@push_ok n σ { s with pc, sp := s.sp - 1 } _ _ ()).mpr ⟨room, rfl⟩))), room, rfl⟩

theorem store_step {op : Store} {align offset : BitVec 32} {pc : Nat} {addr val : Word}
    (fetched : Reader.fetch p.code s.pc = .ok (.store op align offset) pc) (top : s.operand 0 = some val)
    (next : s.operand 1 = some addr) : step p h s =
      if n < (Meaning.low addr).toNat + offset.toNat + op.width then
        .error (.error .outOfBounds) { s with pc, sp := s.sp - 2 }
      else .ok .next { s with pc, sp := s.sp - 2, memory := s.memory.patch (op.patch (Meaning.low addr) offset val) } := by
  have first : pop ({ s with pc } : Machine n σ) = .ok val { s with pc, sp := s.sp - 1 } := pop_ok.mpr ⟨top, rfl⟩
  have second : popU32 ({ s with pc, sp := s.sp - 1 } : Machine n σ) = .ok (Meaning.low addr) { s with pc, sp := s.sp - 2 } :=
    popU32_ok.mpr ⟨addr, Interpreter.operand_pop.trans next, rfl, rfl⟩
  have ran : step p h s = (do execSimple p h (.store op align offset); pure .next : Exec n σ Outcome) { s with pc } :=
    step_fetched fetched
  have writes := @write_spec n σ { s with pc, sp := s.sp - 2 } op (Meaning.low addr) offset val
  rw [ran]
  split
  · next outside =>
    rw [if_pos outside] at writes
    exact bind_stop ((bind_run first).trans ((bind_run second).trans writes))
  · next inside =>
    rw [if_neg inside] at writes
    exact bind_run ((bind_run first).trans ((bind_run second).trans writes))

/-! ### Runs -/

def SameMemory (s t : Machine n σ) : Prop := t.memory = s.memory

instance : IsPreorder (Machine n σ) SameMemory where
  refl _ := rfl
  trans _ _ _ first second := second.trans first

theorem InFrame.sameMemory (moved : InFrame s t) : SameMemory s t := by
  obtain ⟨_, _, _, _, _, _, rfl⟩ := moved
  rfl

theorem moves_leaveFunction : Moves SameMemory (leaveFunction : Exec n σ Outcome) := by
  apply (moves_topFrame.mono fun _ _ moved => moved.sameMemory).bind
  intro frame
  apply ((inFrame_stack (moves_passResult frame)).mono fun _ _ moved => moved.sameMemory).bind
  intro result s
  simp only [wp_bind, wp_get, wp_minus, wp_set, wp_ite, wp_pure, setPc, wp_modify]
  repeat' split
  all_goals rfl

theorem moves_execEnd : Moves SameMemory (execEnd : Exec n σ Outcome) := by
  apply Moves.get.bind
  intro s
  apply Moves.ite
  · apply (moves_labelBase.mono fun _ _ moved => moved.sameMemory).bind
    intro base
    apply Moves.minus.bind
    intro last
    exact moves_leaveFunction.ite ((moves_endBlock.mono fun _ _ moved => moved.sameMemory).bind fun _ => Moves.pure _)
  · apply Moves.get.bind
    intro s
    exact ((inFrame_stack moves_top).map _ |>.mono fun _ _ moved => moved.sameMemory).ite (Moves.pure _)

theorem moves_execReturn : Moves SameMemory (execReturn : Exec n σ Outcome) := by
  apply Moves.get.bind
  intro s
  refine Moves.ite ?_ moves_leaveFunction
  apply Moves.get.bind
  intro s
  exact ((inFrame_stack moves_top).map _ |>.mono fun _ _ moved => moved.sameMemory).ite (Moves.pure _)

/-- What an instruction stores. -/
def Instr.stores (s : Interpreter) : Instr → List (Patch Byte)
  | .store op _ offset =>
    match s.operand 1, s.operand 0 with
    | some addr, some val => [op.patch (Meaning.low addr) offset val]
    | _, _ => []
  | _ => []

/-- The instruction does not call the host. -/
def Instr.isOwn (p : Program) : Instr → Bool
  | .call target => ¬ target < p.numImports
  | _ => true

theorem step_stores {instr : Instr} {pc : Nat} (fetched : Reader.fetch p.code s.pc = .ok instr pc) (own : instr.isOwn p)
    (stepped : step p h s = .ok .next t) : t.memory = s.memory.patchAll (instr.stores s.toInterpreter) := by
  have done := stepped
  rw [step_fetched fetched] at done
  have simple : ∀ goes : instr.goesOn, (∀ target, instr ≠ .call target) → (∀ op align offset, instr ≠ .store op align offset) →
      t.memory = s.memory := by
    intro goes other other'
    have same := moves_ok (inFrame_execSimple (p := p) (h := h) other other') (exec_ok done goes).2
    exact same.sameMemory
  cases instr with
  | store op align offset =>
    obtain ⟨_, does⟩ := exec_ok done rfl
    obtain ⟨val, _, popped, rest⟩ := bind_eq_ok.mp does
    obtain ⟨top, same⟩ := pop_ok.mp popped
    subst same
    obtain ⟨_, _, popped', _⟩ := bind_eq_ok.mp rest
    obtain ⟨addr, there, _⟩ := popU32_ok.mp popped'
    have next : s.operand 1 = some addr := Interpreter.operand_pop.symm.trans there
    have top : s.operand 0 = some val := top
    rw [store_step fetched top next] at stepped
    split at stepped
    · cases stepped
    · cases stepped
      simp [Instr.stores, top, next, FixedArray.patchAll]
  | call target =>
    obtain ⟨_, does⟩ := exec_ok done rfl
    obtain ⟨e, entered⟩ := execCall_ok (by simpa [Instr.isOwn] using own) does
    rw [entered.state]
    rfl
  | endOp =>
    have same : SameMemory _ t := moves_ok moves_execEnd done
    exact same
  | returnOp =>
    have same : SameMemory _ t := moves_ok moves_execReturn done
    exact same
  | _ => exact simple rfl (by simp) (by simp)

/-- Steps from `s` that do not call the host, with what their stores write. -/
inductive Writes (p : Program) (h : HostFunctions n σ) (s : Machine n σ) : List (Patch Byte) → Machine n σ → Prop
  | start : Writes p h s [] s
  | step {ps : List (Patch Byte)} {t u : Machine n σ} {instr : Instr} {pc : Nat} (before : Writes p h s ps t)
      (fetched : Reader.fetch p.code t.pc = .ok instr pc) (own : instr.isOwn p) (stepped : step p h t = .ok .next u) :
      Writes p h s (ps ++ instr.stores t.toInterpreter) u

theorem Writes.patched {ps : List (Patch Byte)} (writes : Writes p h s ps t) : t.memory = s.memory.patchAll ps := by
  induction writes with
  | start => rfl
  | step _ fetched own stepped ih =>
    rw [step_stores fetched own stepped, ih]
    simp [FixedArray.patchAll]

/-- The byte that was stored last at an address. -/
def LinearMemory.written (memory : LinearMemory n) (ps : List (Patch Byte)) (x : Nat) : Byte :=
  ((Patch.lastAt? ps x).or (memory.at? x)).getD 0

theorem bytes_patchAll {ps : List (Patch Byte)} {count : Nat} (inside : ea + count ≤ n) :
    LinearMemory.bytes (memory.patchAll ps) ea count = (List.range count).map fun j => memory.written ps (ea + j) := by
  unfold LinearMemory.bytes
  rw [← List.filterMap_eq_map]
  apply List.filterMap_congr
  intro j member
  have low := List.mem_range.mp member
  have here : ea + j < n := by omega
  rw [FixedArray.at?_inside here, FixedArray.patchAll_apply, Function.comp_apply, LinearMemory.written,
    FixedArray.at?_inside here]
  cases Patch.lastAt? ps (ea + j) <;> rfl

/-- A load after a run, and a store: either stops outside the memory, and only there. The load gives the number stored
last in its bytes, whatever stores made them; the store writes the low bytes of its operand and nothing else. -/
theorem memory_laws (p : Program) (h : HostFunctions n σ) :
    (∀ (s t : Machine n σ) ps op align offset pc addr, Writes p h s ps t →
      Reader.fetch p.code t.pc = .ok (.load op align offset) pc → t.operand 0 = some addr →
      if n < (Meaning.low addr).toNat + offset.toNat + op.width then
        step p h t = .error (.error .outOfBounds) { t with pc, sp := t.sp - 1 }
      else ∃ u val, step p h t = .ok .next u ∧ Lays (t.sp - 1) (some val) { t with pc } u ∧
        val.toNat % 2 ^ op.resultWidth = op.extend (leValue ((List.range op.width).map fun j =>
          s.memory.written ps ((Meaning.low addr).toNat + offset.toNat + j)))) ∧
    ∀ (s : Machine n σ) op align offset pc addr val, Reader.fetch p.code s.pc = .ok (.store op align offset) pc →
      s.operand 0 = some val → s.operand 1 = some addr →
      step p h s = if n < (Meaning.low addr).toNat + offset.toNat + op.width then
          .error (.error .outOfBounds) { s with pc, sp := s.sp - 2 }
        else .ok .next { s with pc, sp := s.sp - 2, memory := s.memory.patch (op.patch (Meaning.low addr) offset val) } := by
  refine ⟨fun s t ps op align offset pc addr writes fetched top => ?_, fun s op align offset pc addr val fetched top next =>
    store_step fetched top next⟩
  have loaded := load_step (h := h) fetched top
  split
  · next outside => rwa [if_pos outside] at loaded
  · next inside =>
    rw [if_neg inside] at loaded
    obtain ⟨u, stepped, lays⟩ := loaded
    refine ⟨u, _, stepped, lays, ?_⟩
    have bytes := @bytes_patchAll n _ s.memory ps op.width (Nat.le_of_not_lt inside)
    rw [writes.patched, bytes, word_extends]
    have fits := @leValue_lt ((List.range op.width).map fun j =>
      s.memory.written ps ((Meaning.low addr).toNat + offset.toNat + j))
    simpa using fits

/-- A word, a byte over it and a load of all four bytes. -/
def overwriting : Program := { module := {}, code := [0x36, 0, 0, 0x38, 0, 0, 0x28, 0, 0], numImports := 0 }

def beforeStores : Machine 4 Unit :=
  { stack := .ofList 0 [0, 1, 0xEE, 0, 0xAABBCCDD], sp := 5, memory := fun _ => 0, host := () }

def betweenStores : Machine 4 Unit :=
  { beforeStores with pc := 3, sp := 3, memory := beforeStores.memory.patch (Store.i32Store.patch 0 0 0xAABBCCDD) }

theorem memory_laws_overwriting : ∃ t u val, step overwriting (noHost 4) t = .ok .next u ∧
    Lays 0 (some val) { t with pc := 9 } u ∧ val.toNat % 2 ^ 32 = 0xAABBEEDD := by
  have first := (memory_laws overwriting (noHost 4)).2 beforeStores .i32Store 0 0 3 0 0xAABBCCDD rfl rfl rfl
  have second := (memory_laws overwriting (noHost 4)).2 betweenStores .i32Store8 0 0 6 1 0xEE rfl rfl rfl
  rw [if_neg (by decide)] at first second
  have loaded := (memory_laws overwriting (noHost 4)).1 beforeStores _ _ .i32Load 0 0 9 0
    (.step (.step .start rfl rfl first) rfl rfl second) rfl rfl
  rw [if_neg (by decide)] at loaded
  obtain ⟨u, val, stepped, lays, same⟩ := loaded
  exact ⟨_, u, val, stepped, lays, same.trans (by decide)⟩

end GooseOs.Wasm
