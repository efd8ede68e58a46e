import GooseOs.Wasm.LinearMemory
import GooseOs.Wasm.Nesting

/-!
The operands of the innermost construct against the types validation gives them. An instruction that stays in its
construct turns operands of the types before it into operands of the types behind it.
-/

namespace GooseOs.Wasm

open FixedArray

variable {n : Nat} {σ : Type} {p : Program} {h : HostFunctions n σ} {narrow : Prop} {type top : Option Byte} {word : Word}

/-! ### Words of a type -/

/-- What is asked of a word of a type: nothing, or, for `narrow`, that an i32 is below 2^32. An operand of unknown
type may be taken for an i32. -/
def Fits (narrow : Prop) (type : Option Byte) (word : Word) : Prop :=
  narrow → type = some valI32 ∨ type = none → word.toNat < 2 ^ 32

theorem fits_small (small : word.toNat < 2 ^ 32) : Fits narrow type word := fun _ _ => small

theorem fits_extended (val : BitVec 32) : Fits narrow type (val.setWidth 64) := by
  apply fits_small
  rw [BitVec.toNat_setWidth_of_le (by decide)]
  exact val.isLt

theorem fits_other {t : Byte} (other : t ≠ valI32) : Fits narrow (some t) word := by
  rintro - (same | unknown)
  · exact absurd (Option.some.inj same) other
  · cases unknown

theorem Fits.any (fits : Fits narrow none word) : Fits narrow type word := fun asked _ => fits asked (.inr rfl)

/-- Validation takes an operand for one of this type. -/
def Admits (top : Option Byte) (type : Byte) : Prop := top = none ∨ top = some type

theorem Fits.select {first second : Option Byte} {val1 val2 : Word} (fits1 : Fits narrow first val1)
    (fits2 : Fits narrow second val2)
    (agree : first = none ∨ second = none ∨ first = second) (chosen : Prop) [Decidable chosen] :
    Fits narrow (if first = none then second else first) (if chosen then val1 else val2) := by
  split
  · next unknown =>
    subst unknown
    split
    · exact fits1.any
    · exact fits2
  · next known =>
    split
    · exact fits1
    · rcases agree with unknown | rfl | rfl
      · exact absurd unknown known
      · exact fits2.any
      · exact fits2

theorem Fits.retyped {t : Byte} (fits : Fits narrow top word) (admits : Admits top t) : Fits narrow (some t) word := by
  rcases admits with rfl | rfl
  · exact fits.any
  · exact fits

/-! ### Words an instruction makes -/

theorem fits_flag (c : Bool) : Fits narrow type (Meaning.flag c) := by
  apply fits_small
  cases c
  · decide
  · decide

theorem fits_divided {x : Except (Stop TrapKind) (BitVec 32)} (result : (BitVec.setWidth 64) <$> x = .ok word) :
    Fits narrow type word := by
  cases x with
  | error stop => cases result
  | ok val =>
    cases result
    exact fits_extended val

theorem unary_fits {op : Numeric} {f : Word → Word} (meaning : op.meaning = .unary f) (a : Word) :
    Fits narrow (some op.resultType) (f a) := by
  cases op <;> cases meaning <;> first | exact fits_flag _ | exact fits_extended _ | exact fits_other (by decide)

theorem binary_fits {op : Numeric} {f : Word → Word → Except (Stop TrapKind) Word} (meaning : op.meaning = .binary f)
    {a b : Word} (result : f a b = .ok word) : Fits narrow (some op.resultType) word := by
  cases op <;> cases meaning <;>
    first | exact fits_divided result | exact fits_other (by decide) | (cases result; first | exact fits_flag _ | exact fits_extended _)

/-- A load that extends a sign has none to extend. -/
def Load.SignClear (op : Load) (v : Nat) : Prop :=
  match op with
  | .i32Load8S => v < 2 ^ 7
  | .i32Load16S => v < 2 ^ 15
  | _ => True

/-- What a load finds in memory. -/
def Load.value (op : Load) (memory : LinearMemory n) (addr : Word) (offset : BitVec 32) : Nat :=
  leValue (memory.bytes ((Meaning.low addr).toNat + offset.toNat) op.width)

theorem value_lt (op : Load) (memory : LinearMemory n) (addr : Word) (offset : BitVec 32) :
    op.value memory addr offset < 256 ^ op.width := by
  have short : (memory.bytes ((Meaning.low addr).toNat + offset.toNat) op.width).length ≤ op.width :=
    (List.length_filterMap_le _ _).trans (Nat.le_of_eq List.length_range)
  exact leValue_lt.trans_le (Nat.pow_le_pow_right (by decide) short)

theorem signExtend_lt {w v : Nat} (wide : w + 1 ≤ 32) (clear : v < 2 ^ w) :
    ((BitVec.ofNat (w + 1) v).signExtend 64).toNat < 2 ^ 32 := by
  have less : v < 2 ^ (w + 1) := by rw [Nat.pow_succ]; omega
  have plain : (BitVec.ofNat (w + 1) v).msb = false := by
    rw [BitVec.msb_eq_false_iff_two_mul_lt, BitVec.toNat_ofNat, Nat.mod_eq_of_lt less, Nat.pow_succ]
    omega
  rw [BitVec.signExtend_eq_setWidth_of_msb_false plain, BitVec.toNat_setWidth_of_le (by omega), BitVec.toNat_ofNat,
    Nat.mod_eq_of_lt less]
  exact less.trans_le (Nat.pow_le_pow_right (by decide) wide)

theorem load_fits (op : Load) {v : Nat} (bound : v < 256 ^ op.width) (clear : narrow → op.SignClear v) :
    Fits narrow (some op.type) (op.word v) := by
  cases op with
  | i64Load => exact fits_other (by decide)
  | i32Load8S => exact fun asked _ => @signExtend_lt 7 v (by decide) (clear asked)
  | i32Load16S => exact fun asked _ => @signExtend_lt 15 v (by decide) (clear asked)
  | i32Load | i32Load8U | i32Load16U =>
    apply fits_small
    simp only [Load.word, Load.width, BitVec.toNat_ofNat] at *
    omega

/-! ### Calls of imports -/

/-- The last `count` operands, the lowest first. -/
def Interpreter.topmost (s : Interpreter) (count : Nat) : List Word := ((List.ofFn s.stack).take s.sp).drop (s.sp - count)

theorem ofFn_at? {k : Nat} {α : Type} (a : FixedArray k α) (i : Nat) : (List.ofFn a)[i]? = a.at? i := List.getElem?_ofFn

theorem topmost_at? {s : Interpreter} {count k : Nat} (enough : count ≤ s.sp) (below : k < count) :
    (s.topmost count)[k]? = s.stack.at? (s.sp - count + k) := by
  rw [Interpreter.topmost, List.getElem?_drop, List.getElem?_take_of_lt (by omega), ofFn_at?]

theorem popArgs_ok {count : Nat} {args args' : FixedArray 8 Word} {s t : Machine n σ}
    (popped : popArgs count args s = .ok args' t) : count ≤ s.sp ∧ t = { s with sp := s.sp - count } ∧
      (∀ k < count, args'.at? k = s.stack.at? (s.sp - count + k)) ∧ ∀ k, count ≤ k → args'.at? k = args.at? k := by
  induction count generalizing args s with
  | zero =>
    cases popped
    exact ⟨Nat.zero_le _, rfl, nofun, fun _ _ => rfl⟩
  | succ count ih =>
    obtain ⟨val, _, first, rest⟩ := bind_eq_ok.mp popped
    obtain ⟨there, rfl⟩ := pop_ok.mp first
    obtain ⟨_, _, stored, rest⟩ := bind_eq_ok.mp rest
    obtain ⟨inside, rfl, rfl⟩ := store_eq_ok.mp stored
    obtain ⟨some_, -⟩ := Interpreter.operand_inside there
    unfold Interpreter.operand at there
    rw [if_pos some_] at there
    obtain ⟨enough, rfl, filled, kept⟩ := ih rest
    have enough : count ≤ s.sp - 1 := enough
    refine ⟨by omega, ?_, fun k below => ?_, fun k above => ?_⟩
    · show ({ s with sp := s.sp - 1 - count } : Machine n σ) = _
      rw [Nat.sub_sub, Nat.add_comm 1]
    · rcases Nat.lt_or_ge k count with low | last
      · rw [filled k low]
        show s.stack.at? (s.sp - 1 - count + k) = _
        rw [Nat.sub_sub, Nat.add_comm 1]
      · obtain rfl : k = count := by omega
        rw [kept k (Nat.le_refl k), at?_update, if_pos rfl, ← there]
        congr 1
        omega
    · rw [kept k (by omega), at?_update, if_neg (by show k ≠ count; omega)]

theorem paramTypes_length {type : FuncType} (few : type.paramCount ≤ 8) : type.paramTypes.length = type.paramCount := by
  rw [FuncType.paramTypes, List.length_take, List.length_ofFn]
  exact Nat.min_eq_left few

theorem popArgs_room {count : Nat} {args args' : FixedArray 8 Word} {s t : Machine n σ}
    (popped : popArgs count args s = .ok args' t) (some_ : 0 < count) : s.sp ≤ maxStack := by
  cases count with
  | zero => cases some_
  | succ count =>
    obtain ⟨val, _, first, -⟩ := bind_eq_ok.mp popped
    have inside := (Interpreter.operand_inside (pop_ok.mp first).1).2
    omega

theorem popArgs_topmost {count : Nat} {args args' : FixedArray 8 Word} {s t : Machine n σ}
    (popped : popArgs count args s = .ok args' t) : (List.ofFn args').take count = s.topmost count := by
  obtain ⟨enough, -, filled, -⟩ := popArgs_ok popped
  apply List.ext_getElem?
  intro k
  by_cases below : k < count
  · rw [List.getElem?_take_of_lt below, ofFn_at?, filled k below, topmost_at? enough below]
  · rw [List.getElem?_eq_none, List.getElem?_eq_none]
    · rw [Interpreter.topmost, List.length_drop, List.length_take]
      omega
    · rw [List.length_take]
      omega

/-- A host call: the arguments are the last operands, the answer is laid where they were. -/
theorem callHost_ok {target : BitVec 32} {s t : Machine n σ} {x : Unit} (imported : target < p.numImports)
    (returns : execSimple p h (.call target) s = .ok x t) : ∃ type result host memory, p.signature target = some type ∧
      type.paramTypes.length = type.paramCount ∧ type.paramCount ≤ s.sp ∧ (0 < type.paramCount → s.sp ≤ maxStack) ∧
      h.call s.host target (s.topmost type.paramCount) s.memory = (.ok result, host, memory) ∧
        Lays (s.sp - type.paramCount) result { s with host, memory } t := by
  rw [execSimple, execCall, if_pos imported] at returns
  obtain ⟨typeIdx, here, first, rest⟩ := bind_eq_ok.mp returns
  obtain ⟨typed, same⟩ := load_at?.mp first
  subst here
  obtain ⟨type, here, second, rest⟩ := bind_eq_ok.mp rest
  obtain ⟨known, same⟩ := load_at?.mp second
  subst here
  obtain ⟨_, _, got, rest⟩ := bind_eq_ok.mp rest
  cases got
  obtain ⟨_, here, supplied, rest⟩ := bind_eq_ok.mp rest
  obtain ⟨-, same⟩ := failIf_eq_ok.mp supplied
  subst here
  obtain ⟨args, _, popped, rest⟩ := bind_eq_ok.mp rest
  obtain ⟨enough, rfl, -⟩ := popArgs_ok popped
  obtain ⟨list, here, sliced, rest⟩ := bind_eq_ok.mp rest
  have taken : type.paramCount ≤ 8 ∧ list = (List.ofFn args).take type.paramCount ∧
      here = { s with sp := s.sp - type.paramCount } := by
    unfold slice at sliced
    split at sliced
    · next few =>
      cases sliced
      exact ⟨few, rfl, rfl⟩
    · cases sliced
  obtain ⟨few, rfl, rfl⟩ := taken
  have same := popArgs_topmost popped
  obtain ⟨_, _, got, rest⟩ := bind_eq_ok.mp rest
  cases got
  rw [same] at rest
  obtain ⟨⟨result, host, memory⟩, answer⟩ : ∃ answered, h.call s.host target (s.topmost type.paramCount) s.memory = answered :=
    ⟨_, rfl⟩
  have answer' : h.call ({ s with sp := s.sp - type.paramCount } : Machine n σ).host target (s.topmost type.paramCount)
      ({ s with sp := s.sp - type.paramCount } : Machine n σ).memory = (result, host, memory) := answer
  rw [answer'] at rest
  obtain ⟨_, _, kept, rest⟩ := bind_eq_ok.mp rest
  cases kept
  cases result with
  | error code => cases rest
  | ok result =>
    refine ⟨type, result, host, memory, ?_, paramTypes_length few, enough, popArgs_room popped, answer, ?_⟩
    · unfold Program.signature
      rw [if_pos imported, typed]
      exact known
    · exact @pushResult_ok _ _ { s with host, memory } _ _ _ _ rest

/-! ### Constructs that are reached -/

namespace Ctrl
variable {c d : Ctrl} {t : Byte} {types : List Byte}

theorem popAny_live (live : c.unreachable = false) (popped : c.popAny = some (top, d)) :
    c.operands = top :: d.operands ∧ d.unreachable = false := by
  unfold popAny at popped
  split at popped
  · rw [live] at popped
    cases popped
  · next first rest there =>
    cases popped
    exact ⟨there, live⟩

theorem pop_live (live : c.unreachable = false) (popped : c.pop t = some d) :
    ∃ top, Admits top t ∧ c.operands = top :: d.operands ∧ d.unreachable = false := by
  obtain ⟨⟨top, e⟩, first, rest⟩ := Option.bind_eq_some_iff.mp popped
  dsimp only at rest
  split at rest
  · next admits =>
    cases rest
    exact ⟨top, admits, popAny_live live first⟩
  · cases rest

theorem popEach_live (live : c.unreachable = false) (popped : c.popEach types = some d) :
    ∃ tops, List.Forall₂ Admits tops types ∧ c.operands = tops ++ d.operands ∧ d.unreachable = false := by
  induction types generalizing c with
  | nil =>
    cases popped
    exact ⟨[], .nil, rfl, live⟩
  | cons t types ih =>
    obtain ⟨e, first, rest⟩ := Option.bind_eq_some_iff.mp popped
    obtain ⟨top, admits, operands, live⟩ := pop_live live first
    obtain ⟨tops, all, operands', live⟩ := ih live rest
    exact ⟨top :: tops, .cons admits all, by rw [operands, operands', List.cons_append], live⟩

theorem popAll_live (live : c.unreachable = false) (popped : c.popAll types = some d) :
    ∃ tops, List.Forall₂ Admits tops types ∧ c.operands = tops.reverse ++ d.operands ∧ d.unreachable = false := by
  obtain ⟨tops, all, operands, live⟩ := popEach_live live popped
  refine ⟨tops.reverse, ?_, by rw [List.reverse_reverse, operands], live⟩
  rw [← List.forall₂_reverse_iff, List.reverse_reverse]
  exact all

theorem closed_live (live : c.unreachable = false) (closed : c.closed) :
    ∃ tops, List.Forall₂ Admits tops c.results ∧ c.operands = tops.reverse := by
  unfold Ctrl.closed at closed
  split at closed
  · next d popped =>
    obtain ⟨tops, all, operands, -⟩ := popAll_live live popped
    rw [List.isEmpty_iff.mp closed, List.append_nil] at operands
    exact ⟨tops, all, operands⟩
  · cases closed

end Ctrl

/-! ### Operands and locals -/

section Stock
variable {frame : CallFrame} {locals : List Byte} {floor : Nat} {ts us : List (Option Byte)} {s t u : Machine n σ}

/-- The locals from `base` on have these types. -/
def LocalsFit (narrow : Prop) (types : List Byte) (base : Nat) (locals : FixedArray (maxLocals * maxCallDepth) Word) : Prop :=
  ∀ k type word, types[k]? = some type → locals.at? (base + k) = some word → Fits narrow (some type) word

/-- On the way from `s` to `t` the running frame stays the same and touches no operand below `floor` and no local of
other frames; above `floor` there are operands of these types. -/
structure Stock (narrow : Prop) (frame : CallFrame) (locals : List Byte) (floor : Nat) (ts : List (Option Byte))
    (s t : Machine n σ) : Prop where
  height : t.sp = floor + ts.length
  operands : Carries (Fits narrow) t.stack floor ts
  below : ∀ i, i < floor → t.stack.at? i = s.stack.at? i
  running : t.running = some frame
  locals : LocalsFit narrow locals frame.localsBase t.locals
  others : ∀ i, i < frame.localsBase → t.locals.at? i = s.locals.at? i

namespace Stock

theorem top_fits (stock : Stock narrow frame locals floor (top :: ts) s t) (there : t.operand 0 = some word) :
    Fits narrow top word := by
  obtain ⟨⟨v, found, fits⟩, -⟩ := stock.operands
  have height := stock.height
  rw [List.length_cons] at height
  unfold Interpreter.operand at there
  rw [if_pos (by omega), show t.sp - 1 - 0 = floor + ts.length by omega, found] at there
  cases there
  exact fits

theorem pop (stock : Stock narrow frame locals floor (top :: ts) s t) (popped : Wasm.pop t = .ok word u) :
    Fits narrow top word ∧ Stock narrow frame locals floor ts s u := by
  obtain ⟨there, rfl⟩ := pop_ok.mp popped
  have height := stock.height
  rw [List.length_cons] at height
  exact ⟨stock.top_fits there, { stock with height := by show t.sp - 1 = _; omega, operands := stock.operands.2 }⟩

theorem popU32 {val : BitVec 32} (stock : Stock narrow frame locals floor (top :: ts) s t)
    (popped : Wasm.popU32 t = .ok val u) : Stock narrow frame locals floor ts s u := by
  obtain ⟨_, there, -, rfl⟩ := popU32_ok.mp popped
  exact (stock.pop (pop_ok.mpr ⟨there, rfl⟩)).2

theorem push {x : Unit} (stock : Stock narrow frame locals floor ts s t) (fits : Fits narrow type word)
    (pushed : Wasm.push word t = .ok x u) : Stock narrow frame locals floor (type :: ts) s u := by
  obtain ⟨inside, rfl⟩ := push_ok.mp pushed
  have height := stock.height
  refine { stock with height := ?_, operands := stock.operands.push height fits, below := fun i low => ?_ }
  · show t.sp + 1 = _
    rw [height, List.length_cons, Nat.add_assoc]
  · refine (at?_update.trans (if_neg ?_)).trans (stock.below i low)
    show i ≠ t.sp
    omega

theorem localSlot {idx : BitVec 32} {abs : Nat} (stock : Stock narrow frame locals floor ts s t)
    (found : Wasm.localSlot idx t = .ok abs u) : abs = frame.localsBase + idx.toNat ∧ u = t := by
  unfold Wasm.localSlot at found
  simp only [bind_eq_ok, get_eq_ok, failIf_eq_ok, plus_eq_ok, pure_eq_ok] at found
  obtain ⟨_, _, ⟨rfl, rfl⟩, _, _, ⟨-, rfl⟩, frame', _, first, _, _, ⟨-, rfl, rfl⟩, _, _, ⟨-, rfl⟩, rfl, rfl⟩ := found
  obtain ⟨there, rfl⟩ := topFrame_ok.mp first
  cases stock.running.symm.trans there
  exact ⟨rfl, rfl⟩

theorem localGet {idx : BitVec 32} {t' : Byte} (stock : Stock narrow frame locals floor ts s t)
    (known : locals[idx.toNat]? = some t') (got : Wasm.localGet idx t = .ok word u) : Fits narrow (some t') word ∧ u = t := by
  obtain ⟨abs, _, found, rest⟩ := bind_eq_ok.mp got
  obtain ⟨rfl, rfl⟩ := stock.localSlot found
  obtain ⟨_, _, first, rest⟩ := bind_eq_ok.mp rest
  cases first
  obtain ⟨there, rfl⟩ := load_at?.mp rest
  exact ⟨stock.locals _ _ _ known there, rfl⟩

theorem localSet {idx : BitVec 32} {t' : Byte} {x : Unit} (stock : Stock narrow frame locals floor ts s t)
    (known : locals[idx.toNat]? = some t') (fits : Fits narrow (some t') word)
    (done : Wasm.localSet idx word t = .ok x u) :
    Stock narrow frame locals floor ts s u := by
  obtain ⟨abs, _, found, rest⟩ := bind_eq_ok.mp done
  obtain ⟨rfl, rfl⟩ := stock.localSlot found
  simp only [bind_eq_ok, get_eq_ok, store_eq_ok, set_eq_ok] at rest
  obtain ⟨_, _, ⟨rfl, rfl⟩, _, _, ⟨inside, rfl, rfl⟩, rfl⟩ := rest
  refine { stock with locals := fun k type v there found => ?_, others := fun i low => ?_ }
  · rw [at?_update] at found
    split at found
    · next same =>
      obtain rfl : k = idx.toNat := Nat.add_left_cancel same
      cases known.symm.trans there
      cases found
      exact fits
    · exact stock.locals k type v there found
  · refine (at?_update.trans (if_neg ?_)).trans (stock.others i low)
    show i ≠ frame.localsBase + idx.toNat
    omega

theorem popAll {types : List Byte} {tops : List (Option Byte)}
    (stock : Stock narrow frame locals floor (tops.reverse ++ ts) s t)
    (admits : List.Forall₂ Admits tops types) {k : Nat} {type : Byte} (known : types[k]? = some type)
    (there : t.stack.at? (floor + ts.length + k) = some word) : Fits narrow (some type) word := by
  have inside := (List.getElem?_eq_some_iff.mp known).1
  rw [← admits.length_eq] at inside
  obtain ⟨v, found, fits⟩ := Carries.pushed stock.operands (List.getElem?_eq_getElem inside)
  cases there.symm.trans found
  refine fits.retyped ?_
  obtain ⟨_, same⟩ := List.getElem?_eq_some_iff.mp known
  rw [← same]
  exact List.forall₂_iff_get.mp admits |>.2 k inside _

/-- Operands taken for these types are of these types. -/
theorem retype {types : List Byte} {tops : List (Option Byte)}
    (stock : Stock narrow frame locals floor (tops.reverse ++ ts) s t)
    (admits : List.Forall₂ Admits tops types) : Stock narrow frame locals floor (types.reverse.map some ++ ts) s t := by
  have height := stock.height
  rw [List.length_append, List.length_reverse, admits.length_eq] at height
  have weaker : List.Forall₂ (fun top type => ∀ word, Fits narrow top word → Fits narrow type word) (tops.reverse ++ ts)
      (types.reverse.map some ++ ts) := by
    apply List.rel_append
    · rw [List.forall₂_map_right_iff, List.forall₂_reverse_iff]
      exact admits.imp fun top type admits word fits => fits.retyped admits
    · exact List.forall₂_same.mpr fun _ _ _ => id
  exact { stock with
    height := by rw [height, List.length_append, List.length_map, List.length_reverse]
    operands := stock.operands.mono weaker }

theorem lays {tops : List (Option Byte)} {types : List Byte} {result : Option Word}
    (stock : Stock narrow frame locals floor (tops ++ ts) s t) (lays : Lays (floor + ts.length) result t u)
    (fits : List.Forall₂ (fun type word => Fits narrow (some type) word) types result.toList) :
    Stock narrow frame locals floor (types.reverse.map some ++ ts) s u := by
  have operands : Carries (Fits narrow) t.stack floor ts := Piles.outer stock.operands
  cases result with
  | none =>
    cases fits
    cases lays
    exact { stock with height := rfl, operands }
  | some val =>
    obtain ⟨inside, rfl⟩ := lays
    cases fits with
    | cons first none_ =>
      cases none_
      refine { stock with height := rfl, operands := operands.push rfl first, below := fun i low => ?_ }
      refine (at?_update.trans (if_neg ?_)).trans (stock.below i low)
      show i ≠ floor + ts.length
      omega

theorem head (stock : Stock narrow frame locals floor (top :: ts) s t) :
    ∃ word, t.operand 0 = some word ∧ Fits narrow top word := by
  have height := stock.height
  rw [List.length_cons] at height
  obtain ⟨⟨word, there, fits⟩, -⟩ := stock.operands
  refine ⟨word, ?_, fits⟩
  unfold Interpreter.operand
  rw [if_pos (by omega), show t.sp - 1 - 0 = floor + ts.length by omega]
  exact there

/-- What is passed on as a result: nothing, or the topmost operand. -/
theorem passed {types : List Byte} {under : Nat} (stock : Stock narrow frame locals floor ts s t)
    (takes : ∀ type ∈ types, ∃ top ∈ ts.head?, Admits top type) (short : types.length ≤ 1) (above : under ≤ floor) :
    types = [] ∧ t.passed types.length under = none ∨
      ∃ type word, types = [type] ∧ t.passed types.length under = some word ∧ t.operand 0 = some word ∧
        Fits narrow (some type) word := by
  match types, short with
  | [], _ => exact .inl ⟨rfl, rfl⟩
  | [type], _ =>
    obtain ⟨top, first, admits⟩ := takes type (List.mem_singleton_self type)
    cases ts with
    | nil => cases first
    | cons top' ts =>
      cases first
      obtain ⟨word, onTop, fits⟩ := stock.head
      have height := stock.height
      rw [List.length_cons] at height
      refine .inr ⟨type, word, rfl, ?_, onTop, fits.retyped admits⟩
      rw [Interpreter.passed, if_pos ⟨Nat.one_pos, by omega⟩, onTop]

theorem delivers {types : List Byte} {under : Nat} (stock : Stock narrow frame locals floor ts s t)
    (takes : ∀ type ∈ types, ∃ top ∈ ts.head?, Admits top type) (short : types.length ≤ 1) (above : under ≤ floor)
    (lays : Lays floor (t.passed types.length under) t u) :
    Stock narrow frame locals floor (types.reverse.map some) s u := by
  have passed := stock.passed takes short above
  rw [← List.append_nil ts] at stock
  rw [← List.append_nil (List.map some types.reverse)]
  refine stock.lays lays ?_
  rcases passed with ⟨rfl, none_⟩ | ⟨type, word, rfl, some_, -, fits⟩
  · rw [none_]
    exact .nil
  · rw [some_]
    exact .cons fits .nil

end Stock

/-- What an instruction asks of the values: an import answers as its signature says and, for `narrow`, no sign is
extended. -/
def Instr.Asks (narrow : Prop) (p : Program) (h : HostFunctions n σ) (s : Machine n σ) : Instr → Prop
  | .call target => target < p.numImports → ∀ type ∈ p.signature target, ∀ result host memory,
      h.call s.host target (s.topmost type.paramCount) s.memory = (.ok result, host, memory) →
        List.Forall₂ (fun type word => Fits narrow (some type) word) type.resultTypes result.toList
  | .load op _ offset => narrow → ∀ addr ∈ s.operand 0, op.SignClear (op.value s.memory addr offset)
  | _ => True

namespace Stock
variable {x : Context} {blocks : List Ctrl} {c d : Ctrl} {v : Unit}

/-! ### Operands that validation takes -/

theorem taken {val : Word} (stock : Stock narrow frame locals floor c.operands s t) (live : c.unreachable = false)
    {type : Byte} (popped : c.pop type = some d) (first : Wasm.pop t = .ok val u) :
    d.unreachable = false ∧ Fits narrow (some type) val ∧ Stock narrow frame locals floor d.operands s u := by
  obtain ⟨top, admits, operands, live⟩ := Ctrl.pop_live live popped
  rw [operands] at stock
  obtain ⟨fits, stock⟩ := stock.pop first
  exact ⟨live, fits.retyped admits, stock⟩

theorem takenU32 {val : BitVec 32} (stock : Stock narrow frame locals floor c.operands s t) (live : c.unreachable = false)
    {type : Byte} (popped : c.pop type = some d) (first : Wasm.popU32 t = .ok val u) :
    d.unreachable = false ∧ Stock narrow frame locals floor d.operands s u := by
  obtain ⟨top, -, operands, live⟩ := Ctrl.pop_live live popped
  rw [operands] at stock
  exact ⟨live, stock.popU32 first⟩

theorem takenAny {val : Word} (stock : Stock narrow frame locals floor c.operands s t) (live : c.unreachable = false)
    {top : Option Byte} (popped : c.popAny = some (top, d)) (first : Wasm.pop t = .ok val u) :
    d.unreachable = false ∧ Fits narrow top val ∧ Stock narrow frame locals floor d.operands s u := by
  obtain ⟨operands, live⟩ := Ctrl.popAny_live live popped
  rw [operands] at stock
  exact ⟨live, stock.pop first⟩

/-! ### Instructions by their kind -/

theorem imported {target : BitVec 32} (stock : Stock narrow frame x.locals floor c.operands s t)
    (live : c.unreachable = false) (imported : target < p.numImports) (signature : x.signature = p.signature)
    (checked : checkFlat x blocks c (.call target) = some d) (asks : (Instr.call target).Asks narrow p h t)
    (does : execCall p h target t = .ok v u) : d.unreachable = false ∧ Stock narrow frame x.locals floor d.operands s u := by
  obtain ⟨type, known, checked⟩ := Option.bind_eq_some_iff.mp checked
  obtain ⟨e, popped, checked⟩ := Option.bind_eq_some_iff.mp checked
  cases checked
  obtain ⟨type', result, host, memory, known', params, enough, -, answer, lays⟩ := callHost_ok imported does
  obtain rfl := Option.some.inj (known.symm.trans (congrFun signature target ▸ known'))
  obtain ⟨tops, admits, operands, live⟩ := Ctrl.popAll_live live popped
  rw [operands] at stock
  have answered := asks imported type known' result host memory answer
  have effect : Stock narrow frame x.locals floor (tops.reverse ++ e.operands) s { t with host, memory } := { stock with }
  have height := stock.height
  rw [List.length_append, List.length_reverse, admits.length_eq, params] at height
  rw [show t.sp - type.paramCount = floor + e.operands.length by omega] at lays
  exact ⟨live, effect.lays lays answered⟩

theorem select (stock : Stock narrow frame x.locals floor c.operands s t) (live : c.unreachable = false)
    (checked : checkFlat x blocks c .select = some d) (does : execSelect t = .ok v u) :
    d.unreachable = false ∧ Stock narrow frame x.locals floor d.operands s u := by
  obtain ⟨e₁, cond, checked⟩ := Option.bind_eq_some_iff.mp checked
  obtain ⟨⟨second, e₂⟩, popped, checked⟩ := Option.bind_eq_some_iff.mp checked
  obtain ⟨⟨first, e₃⟩, popped', checked⟩ := Option.bind_eq_some_iff.mp checked
  dsimp only at checked
  split at checked
  · next agree =>
    cases checked
    obtain ⟨_, s₁, taken, does⟩ := bind_eq_ok.mp does
    obtain ⟨val2, s₂, taken', does⟩ := bind_eq_ok.mp does
    obtain ⟨val1, s₃, taken'', does⟩ := bind_eq_ok.mp does
    obtain ⟨live, stock⟩ := stock.takenU32 live cond taken
    obtain ⟨live, fits2, stock⟩ := stock.takenAny live popped taken'
    obtain ⟨live, fits1, stock⟩ := stock.takenAny live popped' taken''
    exact ⟨live, stock.push (fits1.select fits2 agree _) does⟩
  · cases checked

theorem tee {idx : BitVec 32} (stock : Stock narrow frame x.locals floor c.operands s t) (live : c.unreachable = false)
    (checked : checkFlat x blocks c (.localTee idx) = some d) (does : execTee idx t = .ok v u) :
    d.unreachable = false ∧ Stock narrow frame x.locals floor d.operands s u := by
  obtain ⟨type, known, checked⟩ := Option.bind_eq_some_iff.mp checked
  obtain ⟨e, popped, checked⟩ := Option.bind_eq_some_iff.mp checked
  cases checked
  obtain ⟨top, admits, operands, live⟩ := Ctrl.pop_live live popped
  obtain ⟨_, _, got, guarded⟩ := bind_eq_ok.mp does
  cases got
  obtain ⟨_, _, some_, sets⟩ := bind_eq_ok.mp guarded
  obtain ⟨-, rfl⟩ := failIf_eq_ok.mp some_
  obtain ⟨val, _, taken, set⟩ := bind_eq_ok.mp sets
  obtain ⟨there, rfl⟩ := top_ok.mp taken
  rw [operands] at stock
  have kept := stock.localSet known ((stock.top_fits there).retyped admits) set
  exact ⟨live, { kept with height := kept.height, operands := Piles.replace kept.operands fun _ fits => fits.retyped admits }⟩

theorem load {op : Load} {align offset : BitVec 32} (stock : Stock narrow frame x.locals floor c.operands s t)
    (live : c.unreachable = false) (checked : checkFlat x blocks c (.load op align offset) = some d)
    (asks : (Instr.load op align offset).Asks narrow p h t)
    (does : (do Wasm.push (← op.fetch (← Wasm.popU32) offset) : Exec n σ Unit) t = .ok v u) :
    d.unreachable = false ∧ Stock narrow frame x.locals floor d.operands s u := by
  obtain ⟨e, popped, checked⟩ := Option.bind_eq_some_iff.mp checked
  cases checked
  obtain ⟨addr, _, taken, does⟩ := bind_eq_ok.mp does
  obtain ⟨val, _, fetched, does⟩ := bind_eq_ok.mp does
  obtain ⟨live, below⟩ := stock.takenU32 live popped taken
  obtain ⟨word, there, rfl, rfl⟩ := popU32_ok.mp taken
  rw [fetch_spec] at fetched
  split at fetched
  · cases fetched
  · next inside =>
    cases fetched
    exact ⟨live, below.push (load_fits op (value_lt op _ _ _) fun asked => asks asked word there) does⟩

theorem store {op : Store} {align offset : BitVec 32} (stock : Stock narrow frame x.locals floor c.operands s t)
    (live : c.unreachable = false) (checked : checkFlat x blocks c (.store op align offset) = some d)
    (does : (do let val ← Wasm.pop; op.write (← Wasm.popU32) offset val : Exec n σ Unit) t = .ok v u) :
    d.unreachable = false ∧ Stock narrow frame x.locals floor d.operands s u := by
  obtain ⟨e, popped, checked⟩ := Option.bind_eq_some_iff.mp checked
  obtain ⟨val, _, taken, does⟩ := bind_eq_ok.mp does
  obtain ⟨addr, _, taken', does⟩ := bind_eq_ok.mp does
  obtain ⟨live, -, stock⟩ := stock.taken live popped taken
  obtain ⟨live, stock⟩ := stock.takenU32 live checked taken'
  rw [write_spec] at does
  split at does
  · cases does
  · cases does
    exact ⟨live, { stock with }⟩

theorem numeric {op : Numeric} (stock : Stock narrow frame x.locals floor c.operands s t) (live : c.unreachable = false)
    (checked : checkFlat x blocks c (.numeric op) = some d) (does : execNumeric op t = .ok v u) :
    d.unreachable = false ∧ Stock narrow frame x.locals floor d.operands s u := by
  obtain ⟨e, popped, checked⟩ := Option.bind_eq_some_iff.mp checked
  unfold execNumeric at does
  cases meaning : op.meaning with
  | unary f =>
    simp only [meaning] at checked does
    cases checked
    obtain ⟨a, _, first, does⟩ := bind_eq_ok.mp does
    obtain ⟨live, -, stock⟩ := stock.taken live popped first
    exact ⟨live, stock.push (unary_fits meaning a) does⟩
  | binary f =>
    simp only [meaning] at checked does
    obtain ⟨e', popped', checked⟩ := Option.bind_eq_some_iff.mp checked
    cases checked
    obtain ⟨b, _, first, does⟩ := bind_eq_ok.mp does
    obtain ⟨a, _, second, does⟩ := bind_eq_ok.mp does
    obtain ⟨live, -, stock⟩ := stock.taken live popped first
    obtain ⟨live, -, stock⟩ := stock.taken live popped' second
    cases result : f a b with
    | ok val =>
      rw [result] at does
      exact ⟨live, stock.push (binary_fits meaning result) does⟩
    | error stop =>
      rw [result] at does
      cases does

/-- An instruction that stays in its construct turns the operands as validation says. -/
theorem execSimple {instr : Instr} (stock : Stock narrow frame x.locals floor c.operands s t)
    (live : c.unreachable = false) (simple : instr.isSimple p) (signature : x.signature = p.signature)
    (checked : checkFlat x blocks c instr = some d) (asks : instr.Asks narrow p h t)
    (does : Wasm.execSimple p h instr t = .ok v u) :
    d.unreachable = false ∧ Stock narrow frame x.locals floor d.operands s u := by
  cases instr with
  | block | loop | ifOp | elseOp | endOp | br | brIf | returnOp => cases simple
  | unreachable | unknown => cases does
  | nop =>
    cases checked
    cases does
    exact ⟨live, stock⟩
  | call target => exact stock.imported live (of_decide_eq_true simple) signature checked asks does
  | drop =>
    obtain ⟨⟨top, e⟩, popped, checked⟩ := Option.bind_eq_some_iff.mp checked
    cases checked
    obtain ⟨_, _, first, does⟩ := bind_eq_ok.mp does
    cases does
    obtain ⟨live, -, stock⟩ := stock.takenAny live popped first
    exact ⟨live, stock⟩
  | select => exact stock.select live checked does
  | localGet idx =>
    obtain ⟨type, known, checked⟩ := Option.bind_eq_some_iff.mp checked
    cases checked
    obtain ⟨val, _, got, pushed⟩ := bind_eq_ok.mp does
    obtain ⟨fits, rfl⟩ := stock.localGet known got
    exact ⟨live, stock.push fits pushed⟩
  | localSet idx =>
    obtain ⟨type, known, checked⟩ := Option.bind_eq_some_iff.mp checked
    obtain ⟨val, _, first, does⟩ := bind_eq_ok.mp does
    obtain ⟨live, fits, stock⟩ := stock.taken live checked first
    exact ⟨live, stock.localSet known fits does⟩
  | localTee idx => exact stock.tee live checked does
  | load op align offset => exact stock.load live checked asks does
  | store op align offset => exact stock.store live checked does
  | memorySize =>
    cases checked
    exact ⟨live, stock.push (fits_extended _) does⟩
  | memoryGrow =>
    obtain ⟨e, popped, checked⟩ := Option.bind_eq_some_iff.mp checked
    cases checked
    obtain ⟨_, _, first, does⟩ := bind_eq_ok.mp does
    obtain ⟨live, stock⟩ := stock.takenU32 live popped first
    exact ⟨live, stock.push (fits_small (by decide)) does⟩
  | i32Const val =>
    cases checked
    exact ⟨live, stock.push (fits_extended _) does⟩
  | i64Const val =>
    cases checked
    exact ⟨live, stock.push (fits_other (by decide)) does⟩
  | numeric op => exact stock.numeric live checked does

end Stock

end Stock

end GooseOs.Wasm
