import GooseOs.Wasm.Validation

/-!
The scanners on nested code. What lies between two positions is read by the executor's own reader; the scanners go
over it at any depth and stop behind the construct they were started in.
-/

namespace GooseOs.Wasm

namespace Reader
variable {code : List Byte} {pc next stop after fuel depth : Nat} {instr : Instr} {α : Type}

/-- An opcode that `run` executes. -/
def known (instr : Instr) : Bool :=
  match instr with
  | .unknown _ => false
  | _ => true

/-- Properly nested instructions from `pc` up to `stop`. -/
inductive Stretch (code : List Byte) : (pc stop : Nat) → Prop
  | done (pc : Nat) : Stretch code pc pc
  | flat {pc next stop : Nat} {instr : Instr} (fetched : fetch code pc = .ok instr next) (plain : instr.isFlat)
      (executes : known instr) (rest : Stretch code next stop) : Stretch code pc stop
  | block {pc body last after stop : Nat} {instr : Instr} (fetched : fetch code pc = .ok instr body)
      (opens : instr.opens.isSome) (inner : Stretch code body last) (closed : fetch code last = .ok .endOp after)
      (rest : Stretch code after stop) : Stretch code pc stop
  | ifElse {pc body last other last' after stop : Nat} {blockType : Byte}
      (fetched : fetch code pc = .ok (.ifOp blockType) body) (inner : Stretch code body last)
      (turned : fetch code last = .ok .elseOp other) (inner' : Stretch code other last')
      (closed : fetch code last' = .ok .endOp after) (rest : Stretch code after stop) : Stretch code pc stop

/-- From `pc`, behind its header, a construct runs to `after`; its own `else`, if it has one, ends at `other`. -/
inductive Enclosed (code : List Byte) : (pc : Nat) → (other : Option Nat) → (after : Nat) → Prop
  | plain {pc last after : Nat} (inner : Stretch code pc last) (closed : fetch code last = .ok .endOp after) :
      Enclosed code pc none after
  | withElse {pc last other last' after : Nat} (inner : Stretch code pc last)
      (turned : fetch code last = .ok .elseOp other) (inner' : Stretch code other last')
      (closed : fetch code last' = .ok .endOp after) : Enclosed code pc (some other) after

theorem Stretch.le (stretch : Stretch code pc stop) : pc ≤ stop := by
  induction stretch with
  | done => exact Nat.le_refl _
  | flat fetched _ _ _ ih =>
    have := fetch_gains fetched
    omega
  | block fetched _ _ closed _ ih ih' =>
    have := fetch_gains fetched
    have := fetch_gains closed
    omega
  | ifElse fetched _ turned _ closed _ ih ih' ih'' =>
    have := fetch_gains fetched
    have := fetch_gains turned
    have := fetch_gains closed
    omega

/-! ### One round -/

/-- The byte of an opcode and its immediates, as the scanners skip them. -/
def skipInstr (code : List Byte) : Reader Unit := do
  let byte ← readByte code
  immediates code (Op.ofByte byte)

theorem fetch_iff_skipInstr : (∃ instr, fetch code pc = .ok instr next) ↔ skipInstr code pc = .ok () next := by
  constructor
  · intro ⟨instr, fetched⟩
    obtain ⟨byte, read, op, skipped⟩ := fetch_ok fetched
    exact bind_eq_ok.mpr ⟨byte, _, read, op ▸ skipped⟩
  · intro skipped
    obtain ⟨byte, here, read, rest⟩ := bind_eq_ok.mp skipped
    unfold fetch
    rw [bind_run read]
    cases op : Op.ofByte byte <;> rw [op] at rest
    case load | store =>
      obtain ⟨align, _, first, rest⟩ := bind_eq_ok.mp rest
      obtain ⟨offset, _, second, rest⟩ := bind_eq_ok.mp rest
      obtain ⟨_, same⟩ := pure_eq_ok.mp rest
      subst same
      exact ⟨_, bind_eq_ok.mpr ⟨align, _, first, bind_eq_ok.mpr ⟨offset, _, second, rfl⟩⟩⟩
    case unreachable | nop | elseOp | endOp | returnOp | drop | select | numeric | unknown =>
      obtain ⟨_, same⟩ := pure_eq_ok.mp rest
      subst same
      exact ⟨_, rfl⟩
    all_goals
      obtain ⟨immediate, _, second, rest⟩ := bind_eq_ok.mp rest
      obtain ⟨_, same⟩ := pure_eq_ok.mp rest
      subst same
      exact ⟨_, map_eq_ok.mpr ⟨immediate, second, rfl⟩⟩

theorem skipToEndFrom_round (fetched : fetch code pc = .ok instr next) (shallow : depth + 2 < 2 ^ 32) :
    skipToEndFrom code (fuel + 1) (depth + 1) pc = skipToEndFrom code fuel (instr.nest (depth + 1)) next := by
  obtain ⟨byte, read, op, skipped⟩ := fetch_ok fetched
  rw [skipToEndFrom, if_pos (Nat.succ_pos depth), bind_run read, op]
  cases instr with
  | block | loop | ifOp =>
    obtain ⟨type, _, read', rest⟩ := bind_eq_ok.mp skipped
    obtain ⟨_, same⟩ := pure_eq_ok.mp rest
    subst same
    exact (bind_run read').trans (bind_run (plus_eq_ok.mpr ⟨by omega, rfl, rfl⟩))
  | endOp =>
    obtain ⟨_, same⟩ := pure_eq_ok.mp skipped
    subst same
    exact bind_run (minus_eq_ok.mpr ⟨by omega, rfl, rfl⟩)
  | _ => exact bind_run skipped

/-- At depth 1 an `else` or an `end` is the construct's own. -/
theorem skipToElseOrEndFrom_round (fetched : fetch code pc = .ok instr next) (shallow : depth + 2 < 2 ^ 32)
    (inner : instr = .elseOp ∨ instr = .endOp → 0 < depth) :
    skipToElseOrEndFrom code (fuel + 1) (depth + 1) pc = skipToElseOrEndFrom code fuel (instr.nest (depth + 1)) next := by
  obtain ⟨byte, read, op, skipped⟩ := fetch_ok fetched
  rw [skipToElseOrEndFrom, if_pos (Nat.succ_pos depth), bind_run read, op]
  cases instr with
  | block | loop | ifOp =>
    obtain ⟨type, _, read', rest⟩ := bind_eq_ok.mp skipped
    obtain ⟨_, same⟩ := pure_eq_ok.mp rest
    subst same
    exact (bind_run read').trans (bind_run (plus_eq_ok.mpr ⟨by omega, rfl, rfl⟩))
  | endOp =>
    obtain ⟨_, same⟩ := pure_eq_ok.mp skipped
    subst same
    have deep := inner (.inr rfl)
    refine (bind_run (minus_eq_ok.mpr ⟨by omega, rfl, rfl⟩)).trans ?_
    rw [if_neg (by omega)]
    rfl
  | elseOp =>
    obtain ⟨_, same⟩ := pure_eq_ok.mp skipped
    subst same
    have deep := inner (.inl rfl)
    simp only [Instr.op, Instr.nest, if_neg (show ¬ depth + 1 = 1 by omega)]
  | _ => exact bind_run skipped

/-! ### Nested code -/

/-- A scanner that goes on over every instruction that does not belong to the construct it was started in. -/
def PassesOver (code : List Byte) (scan : (fuel depth : Nat) → Reader α) : Prop :=
  ∀ fuel depth pc instr next, fetch code pc = .ok instr next → depth + 2 < 2 ^ 32 →
    (instr = .elseOp ∨ instr = .endOp → 0 < depth) →
    scan (fuel + 1) (depth + 1) pc = scan fuel (instr.nest (depth + 1)) next

theorem PassesOver.round {scan : (fuel depth : Nat) → Reader α} (passes : PassesOver code scan) (stop fuel depth : Nat)
    (fetched : fetch code pc = .ok instr next) (behind : next ≤ stop) (enough : stop - pc ≤ fuel)
    (shallow : depth + 1 + (stop - pc) < 2 ^ 32) (inner : instr = .elseOp ∨ instr = .endOp → 0 < depth) :
    ∃ left, fuel = left + 1 ∧ stop - next ≤ left ∧ scan fuel (depth + 1) pc = scan left (instr.nest (depth + 1)) next := by
  have gain := fetch_gains fetched
  obtain ⟨left, rfl⟩ : ∃ k, fuel = k + 1 := ⟨fuel - 1, by omega⟩
  exact ⟨left, rfl, by omega, passes left depth pc instr next fetched (by omega) inner⟩

/-- Nested code is passed over at every depth, in at most a round for each byte. -/
theorem Stretch.scan {scan : (fuel depth : Nat) → Reader α} (passes : PassesOver code scan)
    (stretch : Stretch code pc stop) (fuel depth : Nat) (enough : stop - pc ≤ fuel)
    (shallow : depth + 1 + (stop - pc) < 2 ^ 32) :
    ∃ left, fuel ≤ left + (stop - pc) ∧ scan fuel (depth + 1) pc = scan left (depth + 1) stop := by
  induction stretch generalizing fuel depth with
  | done => exact ⟨fuel, by omega, rfl⟩
  | @flat pc next stop instr fetched plain _ rest ih =>
    have gain := fetch_gains fetched
    have behind := rest.le
    have same : instr.nest (depth + 1) = depth + 1 := by
      cases instr <;> first | rfl | cases plain
    have neither : instr = .elseOp ∨ instr = .endOp → 0 < depth := by
      intro either
      rcases either with bad | bad <;> subst bad <;> cases plain
    obtain ⟨left₁, spent₁, enough₁, first⟩ := passes.round stop fuel depth fetched behind enough shallow neither
    obtain ⟨left, spent, onward⟩ := ih left₁ depth enough₁ (by omega)
    exact ⟨left, by omega, by rw [first, same, onward]⟩
  | @block pc body last after stop instr fetched opens inner closed rest ih ih' =>
    have gain := fetch_gains fetched
    have gain' := fetch_gains closed
    have within := inner.le
    have behind := rest.le
    have deeper : instr.nest (depth + 1) = depth + 1 + 1 := by
      cases instr <;> first | rfl | cases opens
    have neither : instr = .elseOp ∨ instr = .endOp → 0 < depth := by
      intro either
      rcases either with bad | bad <;> subst bad <;> cases opens
    obtain ⟨left₁, spent₁, enough₁, first⟩ :=
      passes.round stop fuel depth fetched (by omega) enough shallow neither
    obtain ⟨left₂, spent₂, second⟩ := ih left₁ (depth + 1) (by omega) (by omega)
    obtain ⟨left₃, spent₃, enough₃, third⟩ := passes.round stop left₂ (depth + 1) closed behind
      (by omega) (by omega) fun _ => Nat.succ_pos depth
    obtain ⟨left, spent, onward⟩ := ih' left₃ depth enough₃ (by omega)
    exact ⟨left, by omega, by rw [first, deeper, second, third, ← onward]; rfl⟩
  | @ifElse pc body last other last' after stop blockType fetched inner turned inner' closed rest ih ih' ih'' =>
    have gain := fetch_gains fetched
    have gain' := fetch_gains turned
    have gain'' := fetch_gains closed
    have within := inner.le
    have within' := inner'.le
    have behind := rest.le
    obtain ⟨left₁, spent₁, enough₁, first⟩ := passes.round stop fuel depth fetched (by omega) enough shallow (by simp)
    obtain ⟨left₂, spent₂, second⟩ := ih left₁ (depth + 1) (by omega) (by omega)
    obtain ⟨left₃, spent₃, enough₃, third⟩ := passes.round stop left₂ (depth + 1) turned (by omega)
      (by omega) (by omega) fun _ => Nat.succ_pos depth
    obtain ⟨left₄, spent₄, fourth⟩ := ih' left₃ (depth + 1) (by omega) (by omega)
    obtain ⟨left₅, spent₅, enough₅, fifth⟩ := passes.round stop left₄ (depth + 1) closed behind
      (by omega) (by omega) fun _ => Nat.succ_pos depth
    obtain ⟨left, spent, onward⟩ := ih'' left₅ depth enough₅ (by omega)
    refine ⟨left, by omega, first.trans (second.trans (third.trans (fourth.trans (fifth.trans onward))))⟩

/-! ### A construct -/

theorem fetch_inside (fetched : fetch code pc = .ok instr next) : pc < code.length := by
  obtain ⟨byte, read, _⟩ := fetch_ok fetched
  obtain ⟨here, there, got, rest⟩ := bind_eq_ok.mp read
  obtain ⟨same, same'⟩ := get_eq_ok.mp got
  subst same same'
  by_contra outside
  rw [List.getElem?_eq_none (Nat.le_of_not_lt outside)] at rest
  cases rest

theorem passesOver_skipToEnd : PassesOver code (skipToEndFrom code) := fun _ _ _ _ _ fetched shallow _ =>
  skipToEndFrom_round fetched shallow

theorem passesOver_skipToElseOrEnd : PassesOver code (skipToElseOrEndFrom code) :=
  fun _ _ _ _ _ fetched shallow inner => skipToElseOrEndFrom_round fetched shallow inner

theorem skipToEndFrom_close (closed : fetch code pc = .ok .endOp after) :
    skipToEndFrom code (fuel + 2) 1 pc = .ok () after := by
  rw [skipToEndFrom_round closed (by decide)]
  rfl

theorem skipToElseOrEndFrom_close (closed : fetch code pc = .ok .endOp after) :
    skipToElseOrEndFrom code (fuel + 1) 1 pc = .ok false after := by
  obtain ⟨byte, read, op, skipped⟩ := fetch_ok closed
  obtain ⟨_, same⟩ := pure_eq_ok.mp skipped
  subst same
  rw [skipToElseOrEndFrom, if_pos Nat.one_pos, bind_run read, op]
  exact bind_run (minus_eq_ok.mpr ⟨Nat.le_refl 1, rfl, rfl⟩)

theorem skipToElseOrEndFrom_turn (turned : fetch code pc = .ok .elseOp after) :
    skipToElseOrEndFrom code (fuel + 1) 1 pc = .ok true after := by
  obtain ⟨byte, read, op, skipped⟩ := fetch_ok turned
  obtain ⟨_, same⟩ := pure_eq_ok.mp skipped
  subst same
  rw [skipToElseOrEndFrom, if_pos Nat.one_pos, bind_run read, op]
  rfl

theorem skipToEnd_enclosed {other : Option Nat} (enclosed : Enclosed code pc other after) (extent : after < pc + 2 ^ 32) :
    skipToEnd code pc = .ok () after := by
  cases enclosed with
  | @plain _ last inner closed =>
    have inside := fetch_inside closed
    have gain := fetch_gains closed
    have within := inner.le
    obtain ⟨left, spent, passed⟩ := inner.scan passesOver_skipToEnd (code.length + 2) 0 (by omega) (by omega)
    obtain ⟨left, rfl⟩ : ∃ k, left = k + 2 := ⟨left - 2, by omega⟩
    exact passed.trans (skipToEndFrom_close closed)
  | @withElse _ last other last' inner turned inner' closed =>
    have inside := fetch_inside closed
    have gain := fetch_gains turned
    have gain' := fetch_gains closed
    have within := inner.le
    have within' := inner'.le
    obtain ⟨left, spent, passed⟩ := inner.scan passesOver_skipToEnd (code.length + 2) 0 (by omega) (by omega)
    obtain ⟨left, rfl⟩ : ∃ k, left = k + 1 := ⟨left - 1, by omega⟩
    obtain ⟨left', spent', passed'⟩ := inner'.scan passesOver_skipToEnd left 0 (by omega) (by omega)
    obtain ⟨left', rfl⟩ : ∃ k, left' = k + 2 := ⟨left' - 2, by omega⟩
    exact passed.trans ((skipToEndFrom_round turned (by decide)).trans (passed'.trans (skipToEndFrom_close closed)))

theorem skipToElseOrEnd_enclosed {other : Option Nat} (enclosed : Enclosed code pc other after)
    (extent : after < pc + 2 ^ 32) : skipToElseOrEnd code pc = .ok other.isSome (other.getD after) := by
  cases enclosed with
  | @plain _ last inner closed =>
    have inside := fetch_inside closed
    have gain := fetch_gains closed
    have within := inner.le
    obtain ⟨left, spent, passed⟩ := inner.scan passesOver_skipToElseOrEnd (code.length + 2) 0 (by omega) (by omega)
    obtain ⟨left, rfl⟩ : ∃ k, left = k + 1 := ⟨left - 1, by omega⟩
    exact passed.trans (skipToElseOrEndFrom_close closed)
  | @withElse _ last other last' inner turned inner' closed =>
    have inside := fetch_inside turned
    have gain := fetch_gains turned
    have gain' := fetch_gains closed
    have within := inner.le
    have within' := inner'.le
    obtain ⟨left, spent, passed⟩ := inner.scan passesOver_skipToElseOrEnd (code.length + 2) 0 (by omega) (by omega)
    obtain ⟨left, rfl⟩ : ∃ k, left = k + 1 := ⟨left - 1, by omega⟩
    exact passed.trans (skipToElseOrEndFrom_turn turned)

/-- Behind a header both scanners stop where the construct's `else` or `end` does, and in every round they read the
bytes that `run` reads. -/
theorem scanners_agree (code : List Byte) :
    (∀ pc other after, Enclosed code pc other after → after < pc + 2 ^ 32 →
      skipToEnd code pc = .ok () after ∧ skipToElseOrEnd code pc = .ok other.isSome (other.getD after)) ∧
    (∀ pc next, (∃ instr, fetch code pc = .ok instr next) ↔ skipInstr code pc = .ok () next) ∧
    ∀ fuel depth pc instr next, fetch code pc = .ok instr next → depth + 2 < 2 ^ 32 →
      skipToEndFrom code (fuel + 1) (depth + 1) pc = skipToEndFrom code fuel (instr.nest (depth + 1)) next ∧
      ((instr = .elseOp ∨ instr = .endOp → 0 < depth) → skipToElseOrEndFrom code (fuel + 1) (depth + 1) pc =
        skipToElseOrEndFrom code fuel (instr.nest (depth + 1)) next) :=
  ⟨fun _ _ _ enclosed extent => ⟨skipToEnd_enclosed enclosed extent, skipToElseOrEnd_enclosed enclosed extent⟩,
    fun _ _ => fetch_iff_skipInstr,
    fun _ _ _ _ _ fetched shallow => ⟨skipToEndFrom_round fetched shallow, skipToElseOrEndFrom_round fetched shallow⟩⟩

/-- An `if` whose branches hold the bytes of `else` and `end` as immediates. -/
def ifBody : List Byte := [0x41, 0x05, 0x1A, 0x05, 0x41, 0x0B, 0x1A, 0x0B]

theorem ifBody_enclosed : Enclosed ifBody 0 (some 4) 8 :=
  .withElse (@Stretch.flat _ _ _ _ (.i32Const 5) rfl rfl rfl (@Stretch.flat _ _ _ _ .drop rfl rfl rfl (.done 3))) rfl
    (@Stretch.flat _ _ _ _ (.i32Const 11) rfl rfl rfl (@Stretch.flat _ _ _ _ .drop rfl rfl rfl (.done 7))) rfl

theorem scanners_agree_ifBody : skipToEnd ifBody 0 = .ok () 8 ∧ skipToElseOrEnd ifBody 0 = .ok true 4 :=
  (scanners_agree ifBody).1 0 (some 4) 8 ifBody_enclosed (by decide)

end Reader

end GooseOs.Wasm
