import GooseOs.Kernel.TrapVector
import Mathlib.Logic.Relation

/-!
The trap vector saves and restores every register. Runs of stores and of loads are handled as lists of
registers, so that the offsets of the listing are compared with the frame's layout once.
-/

namespace GooseOs.TrapVector

/-! ### Registers -/

namespace Cpu
variable {c : Cpu} {r s : Reg} {v : Word} {csr : Csr}

theorem get_of_ne (nonzero : r ≠ 0) : c.get r = c.x r := if_neg nonzero

@[simp] theorem set_csr : (c.set r v).csr = c.csr := rfl

@[simp] theorem set_mem : (c.set r v).mem = c.mem := rfl

@[simp] theorem setCsr_get : (c.setCsr csr v).get r = c.get r := rfl

@[simp] theorem setCsr_x : (c.setCsr csr v).x = c.x := rfl

@[simp] theorem setCsr_mem : (c.setCsr csr v).mem = c.mem := rfl

@[simp] theorem setCsr_self : (c.setCsr csr v).csr csr = v := Function.update_self ..

theorem setCsr_of_ne {other : Csr} (apart : other ≠ csr) : (c.setCsr csr v).csr other = c.csr other :=
  Function.update_of_ne apart ..

@[simp] theorem store_get {m : Memory} : (c.store m).get r = c.get r := rfl

@[simp] theorem store_x {m : Memory} : (c.store m).x = c.x := rfl

@[simp] theorem store_csr {m : Memory} : (c.store m).csr = c.csr := rfl

@[simp] theorem store_mem {m : Memory} : (c.store m).mem = m := rfl

@[simp] theorem set_x_self : (c.set r v).x r = v := Function.update_self ..

theorem set_x_of_ne (other : s ≠ r) : (c.set r v).x s = c.x s := Function.update_of_ne other ..

theorem set_get_of_ne (other : s ≠ r) : (c.set r v).get s = c.get s := by
  unfold get
  rw [set_x_of_ne other]

theorem set_get_self (nonzero : r ≠ 0) : (c.set r v).get r = v := by
  rw [get_of_ne nonzero, set_x_self]

end Cpu

/-! ### Slots -/

theorem signExtend_slot {i : Nat} (small : i < 33) :
    (BitVec.ofNat 12 (8 * i)).signExtend 64 = BitVec.ofNat 64 (8 * i) := by
  have all : ∀ i : Fin 33, (BitVec.ofNat 12 (8 * i.val)).signExtend 64 = BitVec.ofNat 64 (8 * i.val) := by decide
  exact all ⟨i, small⟩

theorem address_slot {c : Cpu} {base : Reg} {i : Nat} (small : i < 33) :
    c.address base (BitVec.ofNat 12 (8 * i)) = (c.get base + BitVec.ofNat 64 (8 * i)).toNat := by
  rw [Cpu.address, signExtend_slot small]

theorem slot_write {m : Memory} {base v : Word} {i j : Nat} (first : i < 33) (second : j < 33) :
    slot (m.write64 (base + BitVec.ofNat 64 (8 * i)).toNat v) base j = if j = i then v else slot m base j := by
  unfold slot
  split
  · next same => rw [same, Memory.read64_write64_same]
  · refine Memory.read64_write64_of_disjoint ?_
    have bound := base.isLt
    rw [BitVec.toNat_add, BitVec.toNat_add, BitVec.toNat_ofNat, BitVec.toNat_ofNat]
    omega

/-! ### Instructions -/

section Equations
variable {c : Cpu} {fuel : Nat} {rest : List Instr} {r q : Reg} {s : Csr} {imm : BitVec 12}

theorem exec_sd {i : Nat} (small : i < 33) : exec (fuel + 1) (.sd r (BitVec.ofNat 12 (8 * i)) sp :: rest) c =
    exec fuel rest (c.store (c.mem.write64 (c.get sp + BitVec.ofNat 64 (8 * i)).toNat (c.get r))) := by
  rw [← address_slot small]
  rfl

theorem exec_ld {i : Nat} (small : i < 33) : exec (fuel + 1) (.ld r (BitVec.ofNat 12 (8 * i)) sp :: rest) c =
    exec fuel rest (c.set r (slot c.mem (c.get sp) i)) := by
  rw [slot, ← address_slot small]
  rfl

theorem exec_addi : exec (fuel + 1) (.addi r q imm :: rest) c = exec fuel rest (c.set r (c.get q + imm.signExtend 64)) := rfl

theorem exec_csrr : exec (fuel + 1) (.csrr r s :: rest) c = exec fuel rest (c.set r (c.csr s)) := rfl

theorem exec_csrw : exec (fuel + 1) (.csrw s r :: rest) c = exec fuel rest (c.setCsr s (c.get r)) := rfl

theorem exec_mv : exec (fuel + 1) (.mv r q :: rest) c = exec fuel rest (c.set r (c.get q)) := rfl

theorem exec_csrrw : exec (fuel + 1) (.csrrw r s q :: rest) c = exec fuel rest ((c.setCsr s (c.get q)).set r (c.csr s)) := rfl

theorem exec_andi : exec (fuel + 1) (.andi r q imm :: rest) c = exec fuel rest (c.set r (c.get q &&& imm.signExtend 64)) := rfl

theorem exec_bnez {target : Label} : exec (fuel + 1) (.bnez r target :: rest) c =
    if c.get r ≠ 0 then exec fuel (codeAt target) c else exec fuel rest c := rfl

theorem exec_sret : exec (fuel + 1) (.sret :: rest) c = some (.returns c) := rfl

theorem exec_call : exec (fuel + 1) (.call :: rest) c = some (.calls rest c) := rfl

end Equations

/-! ### Runs of stores and loads -/

/-- The slot of a register in the frame. -/
def home (r : Reg) : Nat := r.val - 1

theorem home_lt (r : Reg) : home r < 33 := by
  unfold home
  omega

theorem home_inj {r s : Reg} (first : r ≠ 0) (second : s ≠ 0) (same : home r = home s) : r = s := by
  unfold home at same
  have := Fin.val_ne_of_ne first
  have := Fin.val_ne_of_ne second
  exact Fin.ext (by omega)

def saves (l : List Reg) : List Instr := l.map fun r => .sd r (BitVec.ofNat 12 (8 * home r)) sp

def restores (l : List Reg) : List Instr := l.map fun r => .ld r (BitVec.ofNat 12 (8 * home r)) sp

/-- The instructions `l` take `c` to `c'`. -/
def Runs (l : List Instr) (c c' : Cpu) : Prop :=
  ∀ n fuel rest, n = fuel + l.length → exec n (l ++ rest) c = exec fuel rest c'

theorem Runs.cons {l : List Instr} {i : Instr} {c c' c'' : Cpu}
    (first : ∀ fuel rest, exec (fuel + 1) (i :: rest) c = exec fuel rest c') (later : Runs l c' c'') : Runs (i :: l) c c'' := by
  intro n fuel rest count
  subst count
  exact (first (fuel + l.length) (l ++ rest)).trans (later _ fuel rest rfl)

theorem exec_saves {l : List Reg} {c : Cpu} (nonzero : 0 ∉ l) :
    ∃ m, Runs (saves l) c (c.store m) ∧
      (∀ r ∈ l, slot m (c.get sp) (home r) = c.get r) ∧
      ∀ i, i < 33 → (∀ r ∈ l, home r ≠ i) → slot m (c.get sp) i = slot c.mem (c.get sp) i := by
  induction l generalizing c with
  | nil => exact ⟨c.mem, fun n fuel rest count => by rw [count]; rfl, by simp, fun _ _ _ => rfl⟩
  | cons r l ih =>
    rw [List.mem_cons, not_or] at nonzero
    obtain ⟨m, runs, saved, kept⟩ :=
      ih (c := c.store (c.mem.write64 (c.get sp + BitVec.ofNat 64 (8 * home r)).toNat (c.get r))) nonzero.2
    refine ⟨m, .cons (fun fuel rest => exec_sd (home_lt r)) runs, fun s member => ?_, fun i small other => ?_⟩
    · by_cases later : s ∈ l
      · exact saved s later
      · have first : s = r := (List.mem_cons.mp member).resolve_right later
        subst first
        have apart : ∀ r ∈ l, home r ≠ home s := by
          intro r member same
          have zero : r ≠ 0 := fun zero => nonzero.2 (zero ▸ member)
          exact later (home_inj zero (Ne.symm nonzero.1) same ▸ member)
        exact (kept (home s) (home_lt s) apart).trans ((slot_write (home_lt s) (home_lt s)).trans (if_pos rfl))
    · have before := kept i small fun s member => other s (List.mem_cons_of_mem r member)
      exact before.trans ((slot_write (home_lt r) small).trans (if_neg (Ne.symm (other r List.mem_cons_self))))

theorem exec_restores {l : List Reg} {c : Cpu} (stack : sp ∉ l) :
    ∃ x, Runs (restores l) c { c with x := x } ∧
      (∀ r ∈ l, x r = slot c.mem (c.get sp) (home r)) ∧ ∀ r, r ∉ l → x r = c.x r := by
  induction l generalizing c with
  | nil => exact ⟨c.x, fun n fuel rest count => by rw [count]; rfl, by simp, fun _ _ => rfl⟩
  | cons r l ih =>
    rw [List.mem_cons, not_or] at stack
    obtain ⟨x, runs, loaded, kept⟩ := ih (c := c.set r (slot c.mem (c.get sp) (home r))) stack.2
    rw [Cpu.set_get_of_ne stack.1] at loaded
    refine ⟨x, .cons (fun fuel rest => exec_ld (home_lt r)) runs, fun s member => ?_, fun s other => ?_⟩
    · by_cases later : s ∈ l
      · exact loaded s later
      · have first : s = r := (List.mem_cons.mp member).resolve_right later
        subst first
        rw [kept s later, Cpu.set_x_self]
    · rw [List.mem_cons, not_or] at other
      rw [kept s other.2, Cpu.set_x_of_ne other.1]

/-! ### Frames -/

/-- The register the `i`-th field of a frame names. -/
def Cpu.named (c : Cpu) (i : Nat) : Word :=
  if i < 31 then c.x (Fin.ofNat 32 (i + 1)) else if i = 31 then c.csr .sstatus else c.csr .sepc

theorem registers_named (c : Cpu) : c.registers = ofSlots c.named := rfl

theorem ofSlots_congr {f g : Nat → Word} (same : ∀ i, i < 33 → f i = g i) : ofSlots f = ofSlots g := by
  simp [ofSlots, same]

theorem ofSlots_sp (f : Nat → Word) (v : Word) : { ofSlots f with sp := v } = ofSlots (Function.update f 1 v) := rfl

/-- The general registers come before `sstatus` and `sepc`. -/
theorem home_general {r : Reg} (nonzero : r ≠ 0) : home r < 31 := by
  have positive := Fin.val_ne_of_ne nonzero
  simp only [home, Fin.val_zero] at *
  omega

theorem named_home {c : Cpu} {r : Reg} (nonzero : r ≠ 0) : c.named (home r) = c.x r := by
  have positive := Fin.val_ne_of_ne nonzero
  have inside := home_general nonzero
  have back : Fin.ofNat 32 (home r + 1) = r := by
    apply Fin.ext
    simp only [home, Fin.ofNat]
    simp at positive
    omega
  rw [Cpu.named, if_pos inside, back]

/-- A slot belongs to a register, to `sstatus` or to `sepc`. -/
theorem slot_cases {i : Nat} (small : i < 33) : (∃ r : Reg, r ≠ 0 ∧ home r = i) ∨ i = 31 ∨ i = 32 := by
  have all : ∀ i : Fin 33, (∃ r : Reg, r ≠ 0 ∧ home r = i.val) ∨ i.val = 31 ∨ i.val = 32 := by decide
  exact all ⟨i, small⟩

theorem registers_eq {c : Cpu} {f : Nat → Word} (general : ∀ r, r ≠ 0 → c.x r = f (home r))
    (status : c.csr .sstatus = f 31) (pc : c.csr .sepc = f 32) : c.registers = ofSlots f := by
  rw [registers_named]
  refine ofSlots_congr fun i small => ?_
  rcases slot_cases small with ⟨r, nonzero, rfl⟩ | rfl | rfl
  · rw [named_home nonzero, general r nonzero]
  · exact status
  · exact pc

/-! ### Entry -/

inductive Mode where
  | user | supervisor
  deriving DecidableEq

/-- `sscratch` holds the kernel stack pointer in U-mode and zero in S-mode. -/
def Convention (ksp : Word) : Mode → Cpu → Prop
  | .user, c => c.csr .sscratch = ksp
  | .supervisor, c => c.x sp = ksp ∧ c.csr .sscratch = 0

/-- On the kernel stack, with the interrupted `sp` in `sscratch`. -/
def Cpu.swapped (c : Cpu) (ksp : Word) : Cpu := (c.setCsr .sscratch (c.x sp)).set sp ksp

section Entry
variable {c : Cpu} {ksp : Word} {fuel : Nat}

/-- From either mode the vector gets to the kernel stack. -/
theorem exec_swap {mode : Mode} (nonzero : ksp ≠ 0) (convention : Convention ksp mode c) :
    ∃ extra, exec (fuel + 3) (codeAt .trapVector) c = exec (fuel + extra) (codeAt .trapSave) (c.swapped ksp) := by
  have first : exec (fuel + 3) (codeAt .trapVector) c =
      if c.csr .sscratch ≠ 0 then exec (fuel + 1) (codeAt .trapSave) (c.swapped (c.csr .sscratch))
      else exec fuel (codeAt .trapSave) ((c.swapped (c.csr .sscratch)).set sp (c.x sp)) := rfl
  cases mode with
  | user =>
    have scratch : c.csr .sscratch = ksp := convention
    rw [scratch, if_pos nonzero] at first
    exact ⟨1, first⟩
  | supervisor =>
    obtain ⟨stack, scratch⟩ := convention
    rw [scratch, if_neg (by simp), stack] at first
    refine ⟨0, first.trans ?_⟩
    simp only [Cpu.swapped, Cpu.set, Cpu.setCsr, Function.update_idem]
    rfl

/-- The registers saved between `sp` and the control registers, and restored before `sp`. -/
def others : List Reg := [3, 4, 6, 7, 8, 9, 10, 11, 12, 13, 14, 15, 16, 17, 18, 19, 20, 21, 22, 23, 24, 25, 26, 27, 28, 29,
  30, 31]

theorem mem_others {r : Reg} (zero : r ≠ 0) (ra : r ≠ 1) (stack : r ≠ sp) (temp : r ≠ t0) : r ∈ others := by
  revert r
  decide

theorem others_apart : ∀ r ∈ others, r ≠ sp ∧ r ≠ t0 ∧ home r ≠ 1 := by decide

theorem others_nonzero : ∀ r ∈ others, r ≠ 0 := by decide

/-- What the handler finds: the frame below the kernel stack pointer. -/
structure Saved (c saved : Cpu) : Prop where
  stack : saved.x sp = c.get sp - 272
  argument : saved.x a0 = saved.x sp
  scratch : saved.csr .sscratch = 0
  frame : ∀ i, i < 33 → slot saved.mem (saved.x sp) i = if i = 1 then c.csr .sscratch else c.named i

/-- The code behind the call. -/
def afterCall : List Instr := trapSave.drop 40 ++ trapRestoreUmode ++ trapRestoreSmode

theorem trapSave_shape : codeAt .trapSave = .addi sp sp (-272) :: (saves [1, 5] ++ .csrr t0 .sscratch ::
    .sd t0 (BitVec.ofNat 12 (8 * 1)) sp :: (saves others ++ .csrr t0 .sstatus :: .sd t0 (BitVec.ofNat 12 (8 * 31)) sp ::
      .csrr t0 .sepc :: .sd t0 (BitVec.ofNat 12 (8 * 32)) sp :: .csrw .sscratch 0 :: .mv a0 sp :: .call :: afterCall)) := rfl

theorem frame_base (v : Word) : v + (-272 : BitVec 12).signExtend 64 = v - 272 := by
  rw [show (-272 : BitVec 12).signExtend 64 = -272 by decide]
  exact (BitVec.sub_eq_add_neg v 272).symm

theorem exec_save : ∃ saved, exec (fuel + 40) (codeAt .trapSave) c = some (.calls afterCall saved) ∧ Saved c saved := by
  generalize base : c.get sp - 272 = b
  -- `ra` and `t0`, which the next instruction overwrites.
  obtain ⟨m₁, runs₁, saved₁, kept₁⟩ := exec_saves (c := c.set sp b) (l := [1, 5]) (by decide)
  rw [Cpu.set_get_self (by decide)] at saved₁ kept₁
  -- The interrupted `sp`.
  generalize middle : ((c.set sp b).store m₁).set t0 (c.csr .sscratch) = c₂
  have stack₂ : c₂.get sp = b := by
    rw [← middle, Cpu.set_get_of_ne (by decide), Cpu.store_get, Cpu.set_get_self (by decide)]
  have temp₂ : c₂.get t0 = c.csr .sscratch := by rw [← middle, Cpu.set_get_self (by decide)]
  have csr₂ : c₂.csr = c.csr := by rw [← middle, Cpu.set_csr, Cpu.store_csr, Cpu.set_csr]
  have mem₂ : c₂.mem = m₁ := by rw [← middle, Cpu.set_mem, Cpu.store_mem]
  have rest₂ : ∀ r, r ≠ sp → r ≠ t0 → c₂.get r = c.get r := by
    intro r stack temp
    rw [← middle, Cpu.set_get_of_ne temp, Cpu.store_get, Cpu.set_get_of_ne stack]
  generalize written₂ : c₂.mem.write64 (b + BitVec.ofNat 64 (8 * 1)).toNat (c.csr .sscratch) = m₂
  -- The other registers.
  obtain ⟨m₃, runs₃, saved₃, kept₃⟩ := exec_saves (c := c₂.store m₂) (l := others) (by decide)
  rw [Cpu.store_get, stack₂] at saved₃ kept₃
  rw [trapSave_shape, exec_addi, frame_base, base, runs₁ (fuel + 39) (fuel + 37) _ rfl, exec_csrr, Cpu.store_csr, Cpu.set_csr, middle,
    exec_sd (by decide), stack₂, temp₂, written₂, runs₃ (fuel + 35) (fuel + 7) _ rfl, exec_csrr, exec_sd (by decide),
    exec_csrr, exec_sd (by decide), exec_csrw, exec_mv, exec_call]
  have zero : ∀ c : Cpu, c.get 0 = 0 := fun c => rfl
  generalize writtenS : m₃.write64 (b + BitVec.ofNat 64 (8 * 31)).toNat (c.csr .sstatus) = m₄
  generalize writtenE : m₄.write64 (b + BitVec.ofNat 64 (8 * 32)).toNat (c.csr .sepc) = m₅
  have slots : ∀ i, i < 33 → slot m₅ b i = if i = 1 then c.csr .sscratch else c.named i := by
    intro i small
    have ends : slot m₅ b i = if i = 32 then c.csr .sepc else if i = 31 then c.csr .sstatus else slot m₃ b i := by
      rw [← writtenE, slot_write (by decide) small, ← writtenS, slot_write (by decide) small]
    have early : (∀ r ∈ others, home r ≠ i) → slot m₃ b i = if i = 1 then c.csr .sscratch else slot m₁ b i := by
      intro other
      rw [kept₃ i small other, Cpu.store_mem, ← written₂, mem₂, slot_write (by decide) small]
    rw [ends]
    rcases slot_cases small with ⟨r, nonzero, rfl⟩ | rfl | rfl
    · have low : home r < 31 := home_general nonzero
      rw [if_neg (by omega), if_neg (by omega), named_home nonzero, ← Cpu.get_of_ne nonzero]
      by_cases member : r ∈ others
      · have kept : r ≠ sp ∧ r ≠ t0 ∧ home r ≠ 1 := others_apart r member
        rw [saved₃ r member, Cpu.store_get, rest₂ r kept.1 kept.2.1, if_neg kept.2.2]
      · have rest : ∀ s ∈ others, home s ≠ home r := fun s inside same =>
          member (home_inj (others_nonzero s inside) nonzero same ▸ inside)
        rw [early rest]
        by_cases stack : r = sp
        · rw [stack, if_pos (by decide), if_pos (by decide)]
        · have first : r ∈ [(1 : Reg), 5] := by
            by_contra neither
            rw [List.mem_cons, List.mem_singleton, not_or] at neither
            exact member (mem_others nonzero neither.1 stack neither.2)
          have apart : home r ≠ 1 := fun same => stack (home_inj nonzero (by decide) same)
          rw [if_neg apart, if_neg apart, saved₁ r first, Cpu.set_get_of_ne stack]
    · rfl
    · rfl
  simp only [Cpu.set_get_of_ne (show sp ≠ t0 by decide), Cpu.store_get, stack₂, Cpu.set_csr, Cpu.store_csr, csr₂, Cpu.set_mem,
    Cpu.store_mem, Cpu.set_get_self (show t0 ≠ 0 by decide), writtenS, writtenE, zero, Cpu.setCsr_get]
  have stack : c₂.x sp = b := stack₂
  refine ⟨_, rfl, ?_, ?_, ?_, ?_⟩
  · simp [Cpu.set_x_of_ne (show sp ≠ a0 by decide), Cpu.set_x_of_ne (show sp ≠ t0 by decide), stack]
    exact base.symm
  · simp [Cpu.set_x_of_ne (show sp ≠ a0 by decide), Cpu.set_x_of_ne (show sp ≠ t0 by decide), stack]
  · simp
  · simpa [Cpu.set_x_of_ne (show sp ≠ a0 by decide), Cpu.set_x_of_ne (show sp ≠ t0 by decide), stack] using slots

end Entry

/-! ### Exit -/

section Exit
variable {c : Cpu} {fuel : Nat}

theorem afterCall_shape : afterCall = .ld t0 (BitVec.ofNat 12 (8 * 32)) sp :: .csrw .sepc t0 ::
    .ld t0 (BitVec.ofNat 12 (8 * 31)) sp :: .csrw .sstatus t0 :: .andi t0 t0 0x100 :: .bnez t0 .trapRestoreSmode ::
      codeAt .trapRestoreUmode := rfl

theorem trapRestoreUmode_shape : codeAt .trapRestoreUmode = restores (1 :: others) ++
    .ld t0 (BitVec.ofNat 12 (8 * 1)) sp :: .csrw .sscratch t0 :: .ld 5 (BitVec.ofNat 12 (8 * home t0)) sp ::
      .addi sp sp 272 :: .csrrw sp .sscratch sp :: .sret :: codeAt .trapRestoreSmode := rfl

theorem trapRestoreSmode_shape : codeAt .trapRestoreSmode =
    restores (1 :: 3 :: 4 :: 5 :: others.drop 2) ++ [.addi sp sp 272, .sret] := rfl

theorem andi_spp (v : Word) : v &&& (0x100 : BitVec 12).signExtend 64 ≠ 0 ↔ v.getLsbD 8 = true := by
  rw [show (0x100 : BitVec 12).signExtend 64 = BitVec.twoPow 64 8 by decide, BitVec.and_twoPow]
  split
  · next set => exact iff_of_true (by decide) set
  · next clear => exact iff_of_false (by simp) clear

/-- The control registers are restored first, and decide where the rest is. -/
theorem exec_return : ∃ c', exec (fuel + 6) afterCall c =
      exec fuel (codeAt (if (frameAt c.mem (c.get sp)).spp then .trapRestoreSmode else .trapRestoreUmode)) c' ∧
    c'.get sp = c.get sp ∧ c'.mem = c.mem ∧ c'.csr .sepc = slot c.mem (c.get sp) 32 ∧
    c'.csr .sstatus = slot c.mem (c.get sp) 31 ∧ c'.csr .sscratch = c.csr .sscratch := by
  have apart : sp ≠ t0 := by decide
  have nonzero : t0 ≠ 0 := by decide
  generalize ending : ((c.set t0 (slot c.mem (c.get sp) 32)).setCsr .sepc (slot c.mem (c.get sp) 32)) = c₁
  have stack₁ : c₁.get sp = c.get sp := by rw [← ending, Cpu.setCsr_get, Cpu.set_get_of_ne apart]
  have mem₁ : c₁.mem = c.mem := by rw [← ending, Cpu.setCsr_mem, Cpu.set_mem]
  generalize status : slot c.mem (c.get sp) 31 = v
  generalize done : ((c₁.set t0 v).setCsr .sstatus v).set t0 (v &&& (0x100 : BitVec 12).signExtend 64) = c₂
  have run : exec (fuel + 6) afterCall c =
      if c₂.get t0 ≠ 0 then exec fuel (codeAt .trapRestoreSmode) c₂ else exec fuel (codeAt .trapRestoreUmode) c₂ := by
    rw [afterCall_shape, exec_ld (by decide), exec_csrw, Cpu.set_get_self nonzero, ending, exec_ld (by decide), mem₁, stack₁,
      status, exec_csrw, Cpu.set_get_self nonzero, exec_andi, Cpu.setCsr_get, Cpu.set_get_self nonzero, done, exec_bnez]
  have temp₂ : c₂.get t0 = v &&& (0x100 : BitVec 12).signExtend 64 := by rw [← done, Cpu.set_get_self nonzero]
  have spp : (frameAt c.mem (c.get sp)).spp = v.getLsbD 8 := by rw [← status]; rfl
  refine ⟨c₂, ?_, ?_, ?_, ?_, ?_, ?_⟩
  · rw [run, temp₂, spp]
    by_cases kernel : v.getLsbD 8 = true
    · rw [if_pos ((andi_spp v).mpr kernel), if_pos kernel]
    · rw [if_neg (mt (andi_spp v).mp kernel), if_neg kernel]
  · rw [← done, Cpu.set_get_of_ne apart, Cpu.setCsr_get, Cpu.set_get_of_ne apart, stack₁]
  · rw [← done, Cpu.set_mem, Cpu.setCsr_mem, Cpu.set_mem, mem₁]
  · rw [← done, Cpu.set_csr, Cpu.setCsr_of_ne (by decide), Cpu.set_csr, ← ending, Cpu.setCsr_self]
  · rw [← done, Cpu.set_csr, Cpu.setCsr_self]
  · rw [← done, Cpu.set_csr, Cpu.setCsr_of_ne (by decide), Cpu.set_csr, ← ending, Cpu.setCsr_of_ne (by decide), Cpu.set_csr]

section Restore
variable {f : Nat → Word} {b : Word} (stack : c.get sp = b) (slots : slot c.mem b = f) (status : c.csr .sstatus = f 31)
  (pc : c.csr .sepc = f 32)
include stack slots status pc

/-- Back to U-mode: every register from the frame, and the kernel stack pointer in `sscratch`. -/
theorem exec_umode : ∃ out, exec (fuel + 35) (codeAt .trapRestoreUmode) c = some (.returns out) ∧
    out.registers = ofSlots f ∧ out.csr .sscratch = b + 272 := by
  obtain ⟨x, runs, loaded, kept⟩ := exec_restores (c := c) (l := 1 :: others) (by decide)
  rw [stack, slots] at loaded
  have apart : sp ≠ t0 := by decide
  generalize restored : ({ c with x := x } : Cpu) = c₁ at runs
  have stack₁ : c₁.get sp = b := by
    rw [← restored, ← stack]
    exact kept sp (by decide)
  have mem₁ : c₁.mem = c.mem := by rw [← restored]
  have csr₁ : c₁.csr = c.csr := by rw [← restored]
  have x₁ : c₁.x = x := by rw [← restored]
  have scratched : (((c₁.set t0 (f 1)).setCsr .sscratch (f 1)).set 5 (f (home t0))).get sp = b := by
    rw [Cpu.set_get_of_ne apart, Cpu.setCsr_get, Cpu.set_get_of_ne apart, stack₁]
  generalize before : ((c₁.set t0 (f 1)).setCsr .sscratch (f 1)).set 5 (f (home t0)) = c₂ at scratched
  have user : c₂.csr .sscratch = f 1 := by rw [← before, Cpu.set_csr, Cpu.setCsr_self]
  have run : exec (fuel + 35) (codeAt .trapRestoreUmode) c =
      some (.returns (((c₂.set sp (b + 272)).setCsr .sscratch (b + 272)).set sp (f 1))) := by
    have first : slot c₁.mem b 1 = f 1 := by rw [mem₁, slots]
    have second : slot c₁.mem b (home t0) = f (home t0) := by rw [mem₁, slots]
    rw [trapRestoreUmode_shape, runs (fuel + 35) (fuel + 6) _ rfl, exec_ld (by decide), stack₁, first, exec_csrw,
      Cpu.set_get_self (by decide), exec_ld (by decide), Cpu.setCsr_get, Cpu.set_get_of_ne apart, stack₁, Cpu.setCsr_mem,
      Cpu.set_mem, second, before, exec_addi, scratched, exec_csrrw, Cpu.set_get_self (by decide), Cpu.set_csr, user, exec_sret]
    rfl
  refine ⟨_, run, registers_eq (fun r nonzero => ?_) ?_ ?_, ?_⟩
  · by_cases pointer : r = sp
    · rw [pointer, Cpu.set_x_self]
      rfl
    · rw [Cpu.set_x_of_ne pointer, Cpu.setCsr_x, Cpu.set_x_of_ne pointer, ← before]
      by_cases temp : r = t0
      · rw [temp, Cpu.set_x_self]
      · rw [Cpu.set_x_of_ne temp, Cpu.setCsr_x, Cpu.set_x_of_ne temp, x₁]
        by_cases ra : r = 1
        · exact loaded r (by simp [ra])
        · exact loaded r (List.mem_cons_of_mem 1 (mem_others nonzero ra pointer temp))
  · rw [Cpu.set_csr, Cpu.setCsr_of_ne (by decide), Cpu.set_csr, ← before, Cpu.set_csr, Cpu.setCsr_of_ne (by decide), Cpu.set_csr,
      csr₁, status]
  · rw [Cpu.set_csr, Cpu.setCsr_of_ne (by decide), Cpu.set_csr, ← before, Cpu.set_csr, Cpu.setCsr_of_ne (by decide), Cpu.set_csr,
      csr₁, pc]
  · rw [Cpu.set_csr, Cpu.setCsr_self]

/-- Back to S-mode: every register but `sp`, which is the kernel stack pointer again. -/
theorem exec_smode : ∃ out, exec (fuel + 32) (codeAt .trapRestoreSmode) c = some (.returns out) ∧
    out.registers = { ofSlots f with sp := b + 272 } ∧ out.csr .sscratch = c.csr .sscratch := by
  obtain ⟨x, runs, loaded, kept⟩ := exec_restores (c := c) (l := 1 :: 3 :: 4 :: 5 :: others.drop 2) (by decide)
  rw [stack, slots] at loaded
  have all : ∀ r : Reg, r ≠ 0 → r ≠ sp → r ∈ (1 :: 3 :: 4 :: 5 :: others.drop 2 : List Reg) := by decide
  generalize restored : ({ c with x := x } : Cpu) = c₁ at runs
  have stack₁ : c₁.get sp = b := by
    rw [← restored, ← stack]
    exact kept sp (by decide)
  have csr₁ : c₁.csr = c.csr := by rw [← restored]
  have x₁ : c₁.x = x := by rw [← restored]
  have run : exec (fuel + 32) (codeAt .trapRestoreSmode) c = some (.returns (c₁.set sp (b + 272))) := by
    rw [trapRestoreSmode_shape, runs (fuel + 32) (fuel + 2) _ rfl, exec_addi, stack₁, exec_sret]
    rfl
  rw [ofSlots_sp]
  refine ⟨_, run, registers_eq (fun r nonzero => ?_) ?_ ?_, ?_⟩
  · by_cases pointer : r = sp
    · rw [pointer, Cpu.set_x_self]
      rfl
    · have apart : home r ≠ 1 := fun same => pointer (home_inj nonzero (by decide) same)
      rw [Cpu.set_x_of_ne pointer, x₁, Function.update_of_ne apart]
      exact loaded r (all r nonzero pointer)
  · rw [Cpu.set_csr, csr₁]
    exact status
  · rw [Cpu.set_csr, csr₁]
    exact pc
  · rw [Cpu.set_csr, csr₁]

end Restore

end Exit

/-! ### Traps -/

/-- `trap_handler` returns on the stack it was called on and leaves `sscratch` alone. The frame may hold anything. -/
structure Handled (saved after : Cpu) : Prop where
  stack : after.x sp = saved.x sp
  scratch : after.csr .sscratch = saved.csr .sscratch

/-- The registers and `sscratch` after `sret` from a frame. -/
def Restored (ksp : Word) (frame : TrapFrame) (out : Cpu) : Prop :=
  if frame.spp then out.registers = { frame with sp := ksp } ∧ out.csr .sscratch = 0
  else out.registers = frame ∧ out.csr .sscratch = ksp

/-- The mode a frame returns to. -/
def resumed (frame : TrapFrame) : Mode := if frame.spp then .supervisor else .user

/-- What runs between two traps: a user program, or the kernel's idle loop. -/
def Between : Mode → Cpu → Cpu → Prop
  | .user, c, c' => c'.csr .sscratch = c.csr .sscratch
  | .supervisor, c, c' => c'.x sp = c.x sp ∧ c'.csr .sscratch = c.csr .sscratch

/-- From the entry of one trap to the entry of the next. -/
inductive Round : Mode × Cpu → Mode × Cpu → Prop
  | trap {mode : Mode} {c saved after out c' : Cpu} {rest : List Instr}
      (calls : exec budget (codeAt .trapVector) c = some (.calls rest saved)) (handled : Handled saved after)
      (returns : exec budget rest after = some (.returns out))
      (between : Between (resumed (frameAt after.mem (saved.x a0))) out c') :
      Round (mode, c) (resumed (frameAt after.mem (saved.x a0)), c')

/-- The vector's contract for a kernel stack pointer. -/
structure Correct (ksp : Word) : Prop where
  pass : ∀ mode c, Convention ksp mode c → ∃ rest saved, exec budget (codeAt .trapVector) c = some (.calls rest saved) ∧
    saved.x a0 = ksp - 272 ∧ frameAt saved.mem (saved.x a0) = c.registers ∧ saved.csr .sscratch = 0 ∧
    ∀ after, Handled saved after → ∃ out, exec budget rest after = some (.returns out) ∧
      Restored ksp (frameAt after.mem (saved.x a0)) out
  steady : ∀ {s s' : Mode × Cpu}, Relation.ReflTransGen Round s s' → Convention ksp s.1 s.2 → Convention ksp s'.1 s'.2

section Traps
variable {c : Cpu} {ksp : Word} {mode : Mode}

theorem swapped_named {i : Nat} (small : i < 33) :
    (if i = 1 then (c.swapped ksp).csr .sscratch else (c.swapped ksp).named i) = c.named i := by
  rcases slot_cases small with ⟨r, nonzero, rfl⟩ | rfl | rfl
  · rw [named_home nonzero, named_home nonzero]
    split
    · next same =>
      rw [home_inj nonzero (show sp ≠ 0 by decide) same]
      simp [Cpu.swapped]
    · next other =>
      have apart : r ≠ sp := fun same => other (by rw [same]; rfl)
      exact Cpu.set_x_of_ne apart
  · rfl
  · rfl

theorem pass_entry (nonzero : ksp ≠ 0) (convention : Convention ksp mode c) :
    ∃ saved, exec budget (codeAt .trapVector) c = some (.calls afterCall saved) ∧ saved.x sp = ksp - 272 ∧
      saved.x a0 = saved.x sp ∧ frameAt saved.mem (saved.x a0) = c.registers ∧ saved.csr .sscratch = 0 := by
  obtain ⟨extra, swap⟩ := @exec_swap _ _ 61 _ nonzero convention
  obtain ⟨saved, run, found⟩ := @exec_save (c.swapped ksp) (21 + extra)
  have stack : (c.swapped ksp).get sp = ksp := Cpu.set_get_self (by decide)
  refine ⟨saved, ?_, ?_, found.argument, ?_, found.scratch⟩
  · rw [show budget = 61 + 3 from rfl, swap, show 61 + extra = 21 + extra + 40 by omega, run]
  · rw [found.stack, stack]
  · rw [found.argument, registers_named]
    exact ofSlots_congr fun i small => (found.frame i small).trans (swapped_named small)

theorem pass_exit {b : Word} (after : Cpu) (stack : after.x sp = b) (scratch : after.csr .sscratch = 0) :
    ∃ out, exec budget afterCall after = some (.returns out) ∧ Restored (b + 272) (frameAt after.mem b) out := by
  have pointer : after.get sp = b := stack
  obtain ⟨c, run, stack', mem, pc, status, kept⟩ := @exec_return after 58
  rw [pointer] at run stack' pc status
  have slots : slot c.mem b = slot after.mem b := by rw [mem]
  rw [show budget = 58 + 6 from rfl, run]
  unfold Restored
  split
  · obtain ⟨out, returns, registers, zero⟩ := @exec_smode _ 26 _ _ stack' slots status pc
    exact ⟨out, returns, registers, by rw [zero, kept, scratch]⟩
  · obtain ⟨out, returns, registers, held⟩ := @exec_umode _ 23 _ _ stack' slots status pc
    exact ⟨out, returns, registers, held⟩

theorem Restored.convention {frame : TrapFrame} {out : Cpu} (restored : Restored ksp frame out) :
    Convention ksp (resumed frame) out := by
  unfold Restored at restored
  unfold resumed
  split at restored
  · next kernel =>
    rw [if_pos kernel]
    exact ⟨congrArg TrapFrame.sp restored.1, restored.2⟩
  · next user =>
    rw [if_neg user]
    exact restored.2

theorem Convention.between {out : Cpu} (convention : Convention ksp mode out) (between : Between mode out c) :
    Convention ksp mode c := by
  cases mode with
  | user => exact Eq.trans between convention
  | supervisor => exact ⟨between.1.trans convention.1, between.2.trans convention.2⟩

theorem pass_trap (nonzero : ksp ≠ 0) (convention : Convention ksp mode c) :
    ∃ rest saved, exec budget (codeAt .trapVector) c = some (.calls rest saved) ∧
      saved.x a0 = ksp - 272 ∧ frameAt saved.mem (saved.x a0) = c.registers ∧ saved.csr .sscratch = 0 ∧
      ∀ after, Handled saved after → ∃ out, exec budget rest after = some (.returns out) ∧
        Restored ksp (frameAt after.mem (saved.x a0)) out := by
  obtain ⟨saved, calls, stack, argument, frame, scratch⟩ := pass_entry nonzero convention
  refine ⟨afterCall, saved, calls, argument.trans stack, frame, scratch, fun after handled => ?_⟩
  obtain ⟨out, returns, restored⟩ := pass_exit after (handled.stack.trans stack) (handled.scratch.trans scratch)
  rw [BitVec.sub_add_cancel] at restored
  exact ⟨out, returns, by rwa [argument, stack]⟩

theorem Round.convention {s s' : Mode × Cpu} (nonzero : ksp ≠ 0) (round : Round s s')
    (convention : Convention ksp s.1 s.2) :
    Convention ksp s'.1 s'.2 := by
  obtain ⟨calls, handled, returns, between⟩ := round
  obtain ⟨rest, saved, calls', -, -, -, restores⟩ := pass_trap nonzero convention
  rw [calls] at calls'
  cases calls'
  obtain ⟨out, returns', restored⟩ := restores _ handled
  rw [returns] at returns'
  cases returns'
  exact restored.convention.between between

end Traps

/-- The trap vector saves and restores everything, and the kernel stack pointer never drifts. -/
theorem trapVector_correct {ksp : Word} (nonzero : ksp ≠ 0) : Correct ksp := by
  refine ⟨fun mode c convention => pass_trap nonzero convention, fun rounds convention => ?_⟩
  induction rounds with
  | refl => exact convention
  | tail _ round ih => exact round.convention nonzero ih

theorem trapVector_correct_stackTop : Correct 0x8031_4000 := trapVector_correct (by decide)

end GooseOs.TrapVector
