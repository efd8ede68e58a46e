import GooseOs.Kernel.Wasi
import GooseOs.Wasm.Constructs
import GooseOs.Wasm.Homing

/-!
Calls of local functions and of the imports `WasiBridge` serves. `END` and `RETURN` pass one result on at most,
`WasiBridge` always answers with one, whatever the signature says.
-/

namespace GooseOs.Wasm

open FixedArray

variable {n : Nat} {σ : Type} {p : Program} {h : HostFunctions n σ} {type : FuncType} {target : BitVec 32} {pc : Nat}
  {s t u : Machine n σ}

/-! ### The effect of a call -/

/-- The caller goes on at `pc`, with the results in place of the arguments. -/
structure CallEffect (type : FuncType) (pc : Nat) (results : List Word) (s t : Interpreter) : Prop where
  resumes : t.pc = pc ∧ t.frameDepth = s.frameDepth
  height : t.sp + type.paramCount = s.sp + type.resultCount
  results : t.topmost type.resultCount = results
  below : ∀ i, i + type.paramCount < s.sp → t.stack.at? i = s.stack.at? i

/-- The function called in `s` runs and is about to leave. -/
structure Program.Leaving (p : Program) (s b : Interpreter) : Prop where
  above : b.frameDepth = s.frameDepth + 1
  last : p.instrAt b.pc = some .returnOp ∨
    p.instrAt b.pc = some .endOp ∧ ∃ frame ∈ b.running, b.labelDepth = frame.labelBase + 1

/-- A call in `s` has come to `b`, from where one step goes back to the caller with the results. The steps before meet `R`. -/
inductive Comes (p : Program) (R : Machine n WasiBridge → Prop) (target : BitVec 32) (type : FuncType)
    (s : Machine n WasiBridge) : Machine n WasiBridge → List Word → Prop
  | own {e b : Machine n WasiBridge} (caller : 0 < s.frameDepth) (calls : Calls p (wasi n) target s e)
      (valid : p.ValidBody target)
      (body : Relation.ReflTransGen (fun a b => Callee p (wasi n) s a b ∧ R a) e b)
      (leaving : p.Leaving s.toInterpreter b.toInterpreter) : Comes p R target type s b (b.topmost type.resultCount)
  | imported {result : Option Word} {host : WasiBridge} {memory : LinearMemory n} (served : target < p.numImports)
      (supplied : type.paramCount ≤ s.sp)
      (answer : (wasi n).call s.host target (s.topmost type.paramCount) s.memory = (.ok result, host, memory)) :
      Comes p R target type s s result.toList

/-! ### A result on the stack -/

theorem topmost_zero (s : Interpreter) : s.topmost 0 = [] := by
  apply List.eq_nil_of_length_eq_zero
  rw [Interpreter.topmost, List.length_drop, List.length_take]
  omega

theorem topmost_one {s : Interpreter} {word : Word} (there : s.operand 0 = some word) : s.topmost 1 = [word] := by
  obtain ⟨some_, -⟩ := Interpreter.operand_inside there
  unfold Interpreter.operand at there
  rw [if_pos some_] at there
  apply List.ext_getElem?
  intro k
  cases k with
  | zero => exact (topmost_at? some_ Nat.one_pos).trans there
  | succ k =>
    rw [List.getElem?_eq_none, List.getElem?_eq_none]
    · exact Nat.succ_le_succ (Nat.zero_le k)
    · rw [Interpreter.topmost, List.length_drop, List.length_take]
      omega

/-- One result at most is laid in place of the arguments. -/
theorem laid_effect {result : Option Word} {results : List Word} {mid w : Machine n σ}
    (lays : Lays (s.sp - type.paramCount) result u mid) (supplied : type.paramCount ≤ s.sp)
    (same : ∀ i, i < s.sp - type.paramCount → u.stack.at? i = s.stack.at? i) (stack : w.stack = mid.stack)
    (sp : w.sp = mid.sp) (back : w.pc = pc ∧ w.frameDepth = s.frameDepth)
    (agrees : type.resultCount = result.toList.length → results = result.toList) :
    CallEffect type pc results s.toInterpreter w.toInterpreter ↔ type.resultCount = result.toList.length := by
  have low := lays.below
  have height : mid.sp = s.sp - type.paramCount + result.toList.length := by
    obtain ⟨_, rfl⟩ := lays.shape
    rfl
  constructor
  · intro effect
    have sum := effect.height
    omega
  · intro count
    refine ⟨back, by omega, ?_, fun i less => ?_⟩
    · rw [agrees count, count]
      cases result with
      | none => exact topmost_zero _
      | some val =>
        obtain ⟨inside, rfl⟩ := lays
        apply topmost_one
        unfold Interpreter.operand
        rw [sp, stack, if_pos (Nat.succ_pos _)]
        exact at?_update.trans (if_pos rfl)
    · rw [stack, low i (by omega), same i (by omega)]

/-! ### Imports -/

theorem writeBuffers_answers {memory memory' : LinearMemory n} {iovsPtr nwrittenPtr count i : Nat} {b b' : WasiBridge}
    {total : BitVec 32} {result : Option Word}
    (answer : WasiBridge.writeBuffers memory iovsPtr nwrittenPtr count i b total = (.ok result, b', memory')) :
    ∃ word, result = some word := by
  fun_induction WasiBridge.writeBuffers memory iovsPtr nwrittenPtr count i b total with
  | case1 => cases answer
  | case2 =>
    cases answer
    exact ⟨_, rfl⟩
  | case3 => cases answer
  | case4 => cases answer
  | case5 =>
    cases answer
    exact ⟨_, rfl⟩
  | case6 _ _ _ _ _ _ _ _ _ ih => exact ih answer

theorem wasi_answers {b b' : WasiBridge} {args : List Word} {memory memory' : LinearMemory n} {result : Option Word}
    (answer : (wasi n).call b target args memory = (.ok result, b', memory')) : ∃ word, result = some word := by
  have sizes : ∀ {b : WasiBridge}, b.sizesGet args memory = (.ok result, b', memory') → ∃ word, result = some word := by
    intro b answer
    unfold WasiBridge.sizesGet at answer
    split at answer
    · split at answer
      · cases answer
      · split at answer
        · cases answer
        · cases answer
          exact ⟨_, rfl⟩
    · cases answer
  have answer : b.call target args memory = (.ok result, b', memory') := answer
  unfold WasiBridge.call at answer
  split at answer
  · cases answer
  · split at answer
    · unfold WasiBridge.fdWrite at answer
      split at answer
      · split at answer
        · cases answer
          exact ⟨_, rfl⟩
        · exact writeBuffers_answers answer
      · cases answer
    · cases answer
    · exact sizes answer
    · cases answer
      exact ⟨_, rfl⟩
    · exact sizes answer
    · cases answer
      exact ⟨_, rfl⟩
    · cases answer
    · cases answer

theorem popArgs_runs {count : Nat} (few : count ≤ 8) (enough : count ≤ s.sp) (room : s.sp ≤ maxStack)
    (args : FixedArray 8 Word) :
    ∃ args', popArgs count args s = .ok args' { s with sp := s.sp - count } := by
  induction count generalizing args s with
  | zero => exact ⟨args, rfl⟩
  | succ count ih =>
    obtain ⟨val, there⟩ : ∃ val, s.operand 0 = some val := by
      unfold Interpreter.operand
      rw [if_pos (by omega), at?_inside (by omega)]
      exact ⟨_, rfl⟩
    obtain ⟨args', rest⟩ := @ih { s with sp := s.sp - 1 } (by omega) (by show count ≤ s.sp - 1; omega)
      (by show s.sp - 1 ≤ maxStack; omega) (Function.update args ⟨count, by omega⟩ val)
    refine ⟨args', ?_⟩
    rw [popArgs, bind_run (pop_ok.mpr ⟨there, rfl⟩), bind_run (store_eq_ok.mpr ⟨by omega, rfl, rfl⟩), rest,
      Nat.add_comm count, ← Nat.sub_sub]

theorem callHost_runs {result : Option Word} {host : σ} {memory : LinearMemory n} (imported : target < p.numImports)
    (known : p.signature target = some type) (few : type.paramCount ≤ 8) (enough : type.paramCount ≤ s.sp)
    (room : s.sp ≤ maxStack) (answer : h.call s.host target (s.topmost type.paramCount) s.memory = (.ok result, host, memory))
    (lays : Lays (s.sp - type.paramCount) result { s with host, memory } t) :
    execSimple p h (.call target) s = .ok () t := by
  unfold Program.signature at known
  rw [if_pos imported] at known
  obtain ⟨typeIdx, typed, known⟩ := Option.bind_eq_some_iff.mp known
  obtain ⟨args, popped⟩ := popArgs_runs few enough room fun _ => 0
  rw [execSimple, execCall, if_pos imported, callHost, bind_run (load_at?.mpr ⟨typed, rfl⟩),
    bind_run (load_at?.mpr ⟨known, rfl⟩), bind_run (get_eq_ok.mpr ⟨rfl, rfl⟩),
    bind_run (a := ()) (failIf_eq_ok.mpr ⟨Nat.not_lt_of_le enough, rfl⟩), bind_run popped, slice, if_pos few, pure_bind,
    bind_run (get_eq_ok.mpr ⟨rfl, rfl⟩), popArgs_topmost popped]
  have answered : h.call ({ s with sp := s.sp - type.paramCount } : Machine n σ).host target (s.topmost type.paramCount)
      ({ s with sp := s.sp - type.paramCount } : Machine n σ).memory = (.ok result, host, memory) := answer
  rw [answered]
  exact @Lays.pushed _ _ { s with host, memory } _ _ _ lays

section Own
variable {frame : CallFrame} {l : Listing} {c : Ctrl} {below : List Activation} {b : Machine n σ}

/-- A step taken within a part of the states, seen from its end. -/
theorem steps_into {α : Type} {r : α → α → Prop} {P : α → Prop} {a b : α}
    (path : Relation.ReflTransGen (fun x y => P x ∧ r x y) a b) (last : P b) :
    Relation.ReflTransGen (fun x y => r x y ∧ P y) a b := by
  induction path with
  | refl => exact .refl
  | tail _ step ih => exact (ih step.1).tail ⟨step.2, last⟩

/-- A function that is not the first one goes back to its caller if its result is there. -/
theorem leaves_runs (running : b.running = some frame) (deep : b.frameDepth ≠ 1)
    (found : 0 < frame.resultCount → ∃ val, b.operand 0 = some val ∧ frame.stackDepth < b.sp) :
    ∃ mid, leaveFunction b = .ok .next { mid with
        labelDepth := frame.labelBase, frameDepth := b.frameDepth - 1, pc := frame.returnPc } ∧
      Lays frame.stackDepth (b.passed frame.resultCount 0) b mid := by
  have room : 0 < frame.resultCount → b.sp ≤ maxStack := by
    intro some_
    obtain ⟨val, there, -⟩ := found some_
    have inside := (Interpreter.operand_inside there).2
    omega
  have back := wp_leaveFunction_home running room
  cases result : leaveFunction b with
  | error stop t =>
    unfold wp at back
    rw [result] at back
    obtain ⟨-, full, some_, -⟩ := back
    obtain ⟨-, -, above⟩ := found some_
    have room := room some_
    omega
  | ok outcome t =>
    obtain ⟨frame', mid, running', lays, ⟨first, -⟩ | ⟨-, rfl, rfl⟩⟩ := leaveFunction_ok result
    · exact absurd first deep
    · cases running.symm.trans running'
      exact ⟨mid, rfl, lays⟩

theorem next_of_leaves (leaving : p.Leaving s.toInterpreter b.toInterpreter) (running : b.running = some frame)
    (h : HostFunctions n σ) :
    ∃ pc, ∀ t, leaveFunction { b with pc } = .ok .next t → Next p h b t := by
  rcases leaving.last with known | ⟨known, frame', running', labelled⟩
  · obtain ⟨pc, fetched⟩ := fetch_of_instrAt known
    refine ⟨pc, fun t leaves => step_eq_ok.mpr ⟨_, _, fetched, ?_⟩⟩
    have running : ({ b with pc } : Machine n σ).running = some frame := running
    rw [exec_return running]
    exact leaves
  · obtain ⟨pc, fetched⟩ := fetch_of_instrAt known
    cases running.symm.trans running'
    refine ⟨pc, fun t leaves => step_eq_ok.mpr ⟨_, _, fetched, ?_⟩⟩
    have labelled : ({ b with pc } : Machine n σ).labelDepth = frame.labelBase + 1 := labelled
    have based := (labelBase_ok (s := { b with pc }) running).mpr ⟨rfl, rfl⟩
    rw [exec, execEnd, bind_run (get_eq_ok.mpr ⟨rfl, rfl⟩), if_pos (by omega), bind_run based,
      bind_run (minus_eq_ok.mpr ⟨by omega, rfl, rfl⟩), if_pos (by omega)]
    exact leaves

/-- The function's results are on the operands when it is about to leave. -/
theorem Held.delivers {narrow : Prop} {bottom : Nat} {blocks : List Ctrl}
    (held : Held narrow p bottom (⟨frame, l, blocks⟩ :: below) b) (leaving : p.Leaving s.toInterpreter b.toInterpreter) :
    0 < frame.resultCount → ∃ val, b.operand 0 = some val ∧ frame.stackDepth < b.sp := by
  intro positive
  have depth := held.typed.1
  rw [List.length_cons] at depth
  obtain ⟨_, _, c, rest, _, count, same, top⟩ := held.typed.top held.nested (by omega)
  cases same
  obtain ⟨d, popped⟩ := top.delivers (leaving.last.symm.imp_left fun ⟨known, frame', running, labelled⟩ => ⟨known, by
    cases top.running.symm.trans running
    have height := top.encloses.height
    rw [List.length_cons] at height
    exact List.eq_nil_of_length_eq_zero (by omega)⟩)
  obtain ⟨tops, admits, operands, -⟩ := Ctrl.popAll_live (held.typed.holds.live c (List.mem_cons_self ..)) popped
  have stock := held.typed.stock
  have results : frame.resultCount = l.context.results.length := held.typed.holds.results
  have length : tops.length = l.context.results.length := admits.length_eq
  have stock : Stock narrow frame l.context.locals frame.stackDepth (operandTypes (c :: rest)) b b := stock
  rw [operandTypes_cons, operands] at stock
  cases many : tops.reverse with
  | nil =>
    have none_ := congrArg List.length many
    rw [List.length_reverse, List.length_nil] at none_
    omega
  | cons top' tops' =>
    rw [many] at stock
    obtain ⟨word, there, -⟩ := stock.head
    have height := stock.height
    simp only [List.cons_append, List.length_cons] at height
    exact ⟨word, there, by omega⟩

theorem Typed.above {narrow : Prop} {bottom : Nat} {acts : List Activation}
    (typed : Typed narrow p bottom acts b.toInterpreter)
    (inside : bottom < b.frameDepth) : Deeper [] [] acts := by
  have depth := typed.1
  cases acts with
  | nil =>
    rw [List.length_nil] at depth
    omega
  | cons a acts =>
    cases acts with
    | nil =>
      refine .inr ⟨rfl, fun a' first => ?_⟩
      cases first
      exact List.length_pos_iff.mpr typed.holds.inside
    | cons a' acts => exact .inl (Nat.succ_lt_succ (Nat.succ_pos _))

/-- A valid local function leaves its results in place of its arguments unless they are several. -/
theorem own_effect_iff {e : Machine n σ} (accepted : parse p.code = .ok p.module)
    (fetched : Reader.fetch p.code s.pc = .ok (.call target) pc) (signature : p.signature target = some type)
    (caller : 0 < s.frameDepth) (calls : Calls p h target s e) (valid : p.ValidBody target)
    (body : Relation.ReflTransGen (fun a b => Callee p h s a b ∧ Regular False p h a) e b)
    (leaving : p.Leaving s.toInterpreter b.toInterpreter) :
    (∃ t, Next p h b t ∧ CallEffect type pc (b.topmost type.resultCount) s.toInterpreter t.toInterpreter) ↔
      type.resultCount ≤ 1 := by
  have fitting := fitting_of_parse accepted
  obtain ⟨own, -, enters⟩ := calls
  obtain ⟨instr, pc', fetched', done⟩ := step_eq_ok.mp enters
  cases fetched.symm.trans fetched'
  obtain ⟨-, does⟩ := exec_ok done rfl
  obtain ⟨entry, entered⟩ := execCall_ok own does
  have known := entered.signature
  cases signature.symm.trans known
  obtain ⟨l, -, -, held⟩ := @held_entered _ _ _ False _ _ _ _ _ entered valid fitting False.elim
  -- the frame stays while the function runs
  have marked : Marked (entry.frame target pc s.toInterpreter) l { kind := .function, results := l.context.results } [] []
      [⟨entry.frame target pc s.toInterpreter, l, [{ kind := .function, results := l.context.results }]⟩] :=
    ⟨[], [], _, .refl _, rfl⟩
  have inside :
      Relation.ReflTransGen (fun a b => (Next p h a b ∧ Regular False p h a) ∧ s.frameDepth < b.frameDepth) e b := by
    refine steps_into (Relation.ReflTransGen.mono (fun a b step => ⟨step.1.1, step.1.2, step.2⟩) _ _ body) ?_
    rw [leaving.above]
    exact Nat.lt_succ_self _
  obtain ⟨acts, held', ⟨upper, inner, x, -, rfl⟩, kept⟩ := marked_run held marked fitting
    (Relation.ReflTransGen.mono (fun a b step => ⟨step.1.1, step.1.2, fun acts typed => typed.above step.2⟩) _ _ inside)
  have depth := held'.typed.1
  rw [List.length_append, leaving.above] at depth
  obtain rfl : upper = [] := List.eq_nil_of_length_eq_zero (by
    have depth : s.frameDepth + 1 = s.frameDepth + (upper.length + 1) := depth
    omega)
  have found := held'.delivers leaving
  have running := held'.typed.running
  obtain ⟨next, goes⟩ := next_of_leaves leaving running h
  have deep : b.frameDepth ≠ 1 := by
    rw [leaving.above]
    omega
  obtain ⟨mid, left, lays⟩ := @leaves_runs _ _ _ { b with pc := next } running deep found
  have back := goes _ left
  have below : ∀ i, i < s.sp - entry.funcType.paramCount → b.stack.at? i = s.stack.at? i := by
    intro i less
    rw [kept i less, entered.state]
  have supplied : entry.funcType.paramCount ≤ s.sp := entered.supplied
  have depth : b.frameDepth - 1 = s.frameDepth := by
    rw [leaving.above]
    rfl
  have found : 0 < entry.funcType.resultCount → ∃ val, b.operand 0 = some val ∧ s.sp - entry.funcType.paramCount < b.sp :=
    found
  have lays : Lays (s.sp - entry.funcType.paramCount) (b.passed entry.funcType.resultCount 0) { b with pc := next } mid :=
    lays
  have agrees : ∀ result, b.passed entry.funcType.resultCount 0 = result →
      (entry.funcType.resultCount = result.toList.length → b.topmost entry.funcType.resultCount = result.toList) ∧
      (entry.funcType.resultCount = result.toList.length ↔ entry.funcType.resultCount ≤ 1) := by
    rintro _ rfl
    rcases Nat.eq_zero_or_pos entry.funcType.resultCount with none_ | some_
    · rw [none_, Interpreter.passed, if_neg (by simp), topmost_zero]
      simp
    · obtain ⟨val, there, above⟩ := found some_
      rw [Interpreter.passed, if_pos ⟨some_, by omega⟩, there]
      refine ⟨fun one => ?_, ⟨fun one => Nat.le_of_eq one, fun one => Nat.le_antisymm one some_⟩⟩
      rw [one]
      exact topmost_one there
  obtain ⟨agrees, short⟩ := agrees _ rfl
  have effect := laid_effect (w := { mid with
    labelDepth := s.labelDepth, frameDepth := b.frameDepth - 1, pc := pc }) lays supplied below rfl rfl ⟨rfl, depth⟩ agrees
  rw [← short, ← effect]
  constructor
  · rintro ⟨t, next', effect'⟩
    cases next'.symm.trans back
    exact effect'
  · exact fun effect' => ⟨_, back, effect'⟩

end Own

/-- The answer of `WasiBridge` takes the place of the arguments of an import that has one result. -/
theorem imported_effect_iff {s : Machine n WasiBridge} {result : Option Word} {host : WasiBridge}
    {memory : LinearMemory n}
    (accepted : parse p.code = .ok p.module) (fetched : Reader.fetch p.code s.pc = .ok (.call target) pc)
    (signature : p.signature target = some type) (served : target < p.numImports) (supplied : type.paramCount ≤ s.sp)
    (answer : (wasi n).call s.host target (s.topmost type.paramCount) s.memory = (.ok result, host, memory)) :
    (∃ t, Next p (wasi n) s t ∧ CallEffect type pc result.toList s.toInterpreter t.toInterpreter) ↔
      type.resultCount = 1 ∧ s.sp ≤ maxStack ∧ s.sp < maxStack + type.paramCount := by
  obtain ⟨few, -⟩ := fitting_of_parse accepted target type signature
  obtain ⟨word, rfl⟩ := wasi_answers answer
  have effect : ∀ t, Lays (s.sp - type.paramCount) (some word) ({ s with pc, host, memory } : Machine n WasiBridge) t →
      (CallEffect type pc [word] s.toInterpreter t.toInterpreter ↔ type.resultCount = 1) := by
    intro t lays
    have back : t.pc = pc ∧ t.frameDepth = s.frameDepth := by
      obtain ⟨stack, rfl⟩ := lays.shape
      exact ⟨rfl, rfl⟩
    exact laid_effect lays supplied (fun _ _ => rfl) rfl rfl back fun _ => rfl
  constructor
  · rintro ⟨t, next, effects⟩
    obtain ⟨instr, pc', fetched', done⟩ := step_eq_ok.mp next
    cases fetched.symm.trans fetched'
    obtain ⟨-, does⟩ := exec_ok done rfl
    obtain ⟨type', result, host', memory', known, -, -, room, answer', lays⟩ := callHost_ok served does
    cases signature.symm.trans known
    cases answer.symm.trans answer'
    have low : s.sp - type.paramCount < maxStack := lays.1
    have room : 0 < type.paramCount → s.sp ≤ maxStack := room
    refine ⟨(effect t lays).mp effects, ?_, by omega⟩
    rcases Nat.eq_zero_or_pos type.paramCount with none_ | some_
    · omega
    · exact room some_
  · rintro ⟨one, room, low⟩
    have inside : s.sp - type.paramCount < maxStack := by omega
    have lays : Lays (s.sp - type.paramCount) (some word) ({ s with pc, host, memory } : Machine n WasiBridge) _ :=
      ⟨inside, rfl⟩
    have does := callHost_runs (s := { s with pc }) served signature few supplied room answer lays
    refine ⟨_, step_eq_ok.mpr ⟨_, _, fetched, ?_⟩, (effect _ lays).mpr one⟩
    rw [exec, bind_run does]
    · rfl
    all_goals
      intro same
      cases same

/-- A call has its declared effect where one result at most is declared, one exactly of an import; the answer of an import
must fit on the stack. -/
theorem call_effect_iff {s b : Machine n WasiBridge} {results : List Word} (accepted : parse p.code = .ok p.module)
    (fetched : Reader.fetch p.code s.pc = .ok (.call target) pc) (signature : p.signature target = some type)
    (comes : Comes p (Regular False p (wasi n)) target type s b results) :
    (∃ t, Next p (wasi n) b t ∧ CallEffect type pc results s.toInterpreter t.toInterpreter) ↔
      if target < p.numImports then type.resultCount = 1 ∧ s.sp ≤ maxStack ∧ s.sp < maxStack + type.paramCount
      else type.resultCount ≤ 1 := by
  cases comes with
  | own caller calls valid body leaving =>
    rw [if_neg calls.local_]
    exact own_effect_iff accepted fetched signature caller calls valid body leaving
  | imported served supplied answer =>
    rw [if_pos served]
    exact imported_effect_iff accepted fetched signature served supplied answer

/-! ### A function with two results -/

/-- A function that calls one with so many results, each of them 7, and drops them. -/
def returning (count : Nat) : List Byte :=
  wasmMagic ++ wasmVersion ++
    Section.bytes (secType, [0x02, 0x60, 0x00, 0x00, 0x60, 0x00] ++ counted (List.replicate count valI32)) ++
    Section.bytes (secFunction, [0x02, 0x00, 0x01]) ++
    Section.bytes (secCode, [0x02] ++ counted ([0x00, 0x10, 0x01] ++ List.replicate count 0x1A ++ [0x0B]) ++
      counted ([0x00] ++ (List.replicate count [0x41, 0x07]).flatten ++ [0x0B]))

namespace returning

/-- The state after some rounds of the first function. -/
def state (count k : Nat) : Machine 0 WasiBridge :=
  rounds (loaded (returning count)) (wasi 0) (started (loaded (returning count)) 0 [] nofun { importCount := 0 }) k

theorem computed : ∀ count ∈ [1, 2], accepts (returning count) ∧
    (loaded (returning count)).validBody 1 9 ∧
    returns (do pushArgs []; enterFunction (loaded (returning count)) 0 0) ()
      ({ memory := nofun, host := { importCount := 0 } } : Machine 0 WasiBridge) ∧
    ((loaded (returning count)).signature 1).any (fun type => type.resultCount = count) ∧
      ¬ 1 < (loaded (returning count)).numImports := by
  decide +kernel

theorem goes : ∀ count ∈ [1, 2], ∀ k < count + 1,
    returns (step (loaded (returning count)) (wasi 0)) .next (state count k) ∧
    (state count k).frameDepth = (if k = 0 then 1 else 2) ∧
    ∀ i < (state count k).frameDepth, ((state count k).frames.at? i).any fun frame =>
      (loaded (returning count)).validBody frame.funcIdx 9 := by
  decide +kernel

theorem reads : ∀ count ∈ [1, 2], (loaded (returning count)).instrAt (state count 0).pc = some (.call 1) ∧
    (∀ k < count, (loaded (returning count)).instrAt (state count (k + 1)).pc = some (.i32Const 7)) ∧
    (loaded (returning count)).instrAt (state count (count + 1)).pc = some .endOp ∧
    (state count (count + 1)).frameDepth = 2 ∧
    (state count (count + 1)).running.any fun frame => (state count (count + 1)).labelDepth = frame.labelBase + 1 := by
  decide +kernel

variable {count : Nat}

theorem next (known : count ∈ [1, 2]) (k : Nat) (few : k < count + 1) :
    Next (loaded (returning count)) (wasi 0) (state count k) (state count (k + 1)) ∧
      (state count k).frameDepth = if k = 0 then 1 else 2 := by
  obtain ⟨step, depth, -⟩ := goes count known k few
  exact ⟨next_rounds step, depth⟩

/-- The second function is called and comes to its end. -/
theorem runs (known : count ∈ [1, 2]) {R : Machine 0 WasiBridge → Prop} (meets : ∀ k < count, R (state count (k + 1))) :
    0 < (state count 0).frameDepth ∧ (loaded (returning count)).ValidBody 1 ∧
      (loaded (returning count)).Leaving (state count 0).toInterpreter (state count (count + 1)).toInterpreter ∧
      ∃ e, Calls (loaded (returning count)) (wasi 0) 1 (state count 0) e ∧
        Relation.ReflTransGen (fun a b => Callee (loaded (returning count)) (wasi 0) (state count 0) a b ∧ R a) e
          (state count (count + 1)) := by
  obtain ⟨-, valid, -, -, own⟩ := computed count known
  obtain ⟨call, -, ends, depth, last⟩ := reads count known
  obtain ⟨enters, outside⟩ := next known 0 (Nat.succ_pos _)
  have body : ∀ k ≤ count, Relation.ReflTransGen
      (fun a b => Callee (loaded (returning count)) (wasi 0) (state count 0) a b ∧ R a) (state count 1)
        (state count (k + 1)) := by
    intro k few
    induction k with
    | zero => exact .refl
    | succ k ih =>
      obtain ⟨goes, inside⟩ := next known (k + 1) (by omega)
      refine (ih (by omega)).tail ⟨⟨?_, goes⟩, meets k (by omega)⟩
      rw [outside, inside, if_neg (Nat.succ_ne_zero k)]
      exact Nat.lt_succ_self 1
  have body := body count (Nat.le_refl _)
  generalize state count 0 = s, state count 1 = e, state count (count + 1) = b at *
  obtain ⟨frame, running, labelled⟩ := (Option.any_eq_true _ _).mp last
  refine ⟨?_, Program.validBody_sound valid, ⟨?_, .inr ⟨ends, frame, running, of_decide_eq_true labelled⟩⟩, e,
    ⟨own, fetch_of_instrAt call, enters⟩, body⟩
  · rw [outside]
    exact Nat.one_pos
  · rw [depth, outside]
    rfl

theorem comes (known : count ∈ [1, 2]) {R : Machine 0 WasiBridge → Prop} (meets : ∀ k < count, R (state count (k + 1)))
    (type : FuncType) : Comes (loaded (returning count)) R 1 type (state count 0) (state count (count + 1))
      ((state count (count + 1)).topmost type.resultCount) := by
  obtain ⟨caller, valid, leaving, e, calls, body⟩ := runs known meets
  exact .own caller calls valid body leaving

theorem runsValid (known : count ∈ [1, 2]) (k : Nat) (few : k < count + 1) :
    (state count k).RunsValid (loaded (returning count)) := by
  obtain ⟨-, -, runs⟩ := goes count known k few
  exact Interpreter.runsValid_of_any runs

theorem regular (known : count ∈ [1, 2]) (k : Nat) (few : k < count) :
    Regular False (loaded (returning count)) (wasi 0) (state count (k + 1)) :=
  regular_other ((reads count known).2.1 k few) nofun nofun trivial

end returning

open returning in
theorem call_effect_iff_returning : ∃ (type : FuncType) (pc : Nat) (s b : Machine 0 WasiBridge),
    (∃ t, Next (loaded (returning 1)) (wasi 0) b t ∧
      CallEffect type pc (b.topmost type.resultCount) s.toInterpreter t.toInterpreter) ↔
        if (1 : BitVec 32) < (loaded (returning 1)).numImports then
          type.resultCount = 1 ∧ s.sp ≤ maxStack ∧ s.sp < maxStack + type.paramCount
        else type.resultCount ≤ 1 := by
  obtain ⟨accepted, -, -, signature, -⟩ := computed 1 (by simp)
  obtain ⟨type, signature, -⟩ := (Option.any_eq_true _ _).mp signature
  obtain ⟨pc, fetched⟩ := fetch_of_instrAt (reads 1 (by simp)).1
  exact ⟨type, pc, _, _, call_effect_iff (parse_loaded accepted) fetched signature
    (@comes 1 (by simp) (Regular False (loaded (returning 1)) (wasi 0)) (regular (by simp)) type)⟩

open returning in
/-- Of two results one is left. -/
theorem results_lost : ¬ ∀ (p : Program) (target : BitVec 32) (type : FuncType) (pc : Nat) (s b : Machine 0 WasiBridge)
    (results : List Word), parse p.code = .ok p.module → p.numImports.toNat = p.module.importCount →
    Reached p (wasi 0) s → Reader.fetch p.code s.pc = .ok (.call target) pc → p.signature target = some type →
    Comes p (fun a => a.RunsValid p) target type s b results →
    ∃ t, Next p (wasi 0) b t ∧ CallEffect type pc results s.toInterpreter t.toInterpreter := by
  intro all
  obtain ⟨accepted, -, enters, signature, -⟩ := computed 2 (by simp)
  obtain ⟨type, signature, two⟩ := (Option.any_eq_true _ _).mp signature
  obtain ⟨pc, fetched⟩ := fetch_of_instrAt (reads 2 (by simp)).1
  have reached : Reached (loaded (returning 2)) (wasi 0) (state 2 0) := reached_rounds (reached_started enters) 0 nofun
  have comes := @comes 2 (by simp) (fun a => a.RunsValid (loaded (returning 2)))
    (fun k few => runsValid (by simp) (k + 1) (by omega))
    type
  obtain ⟨caller, valid, leaving, e, calls, body⟩ := @runs 2 (by simp) (Regular False (loaded (returning 2)) (wasi 0))
    (regular (by simp))
  generalize state 2 0 = s, state 2 (2 + 1) = b at *
  have effect := all _ _ type pc _ _ _ (parse_loaded accepted) (imports_loaded accepted) reached fetched signature comes
  have short := (own_effect_iff (parse_loaded accepted) fetched signature caller calls valid body leaving).mp effect
  rw [of_decide_eq_true two] at short
  omega

end GooseOs.Wasm
