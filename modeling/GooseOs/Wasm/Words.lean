import GooseOs.Wasm.Constructs

/-!
Words of i32 values: as long as no load extends a sign, every operand, local, argument and result of type i32 is the
zero extension of its value.
-/

namespace GooseOs.Wasm

open FixedArray

variable {n : Nat} {σ : Type} {p : Program} {h : HostFunctions n σ} {narrow : Prop} {bottom k : Nat} {s t u : Machine n σ}

/-! ### Where i32 values are -/

/-- Where the function in frame `k` goes on, and where its operands end. -/
def Interpreter.standing (s : Interpreter) (k : Nat) : Option (Nat × Nat) :=
  if k + 1 = s.frameDepth then some (s.pc, s.sp)
  else (s.frames.at? (k + 1)).map fun callee => (callee.returnPc, callee.stackDepth)

/-- The function in frame `k`, the constructs open where it goes on and where its operands end. -/
structure Program.StandsAt (p : Program) (s : Interpreter) (k : Nat) (frame : CallFrame) (l : Listing)
    (blocks : List Ctrl) (top : Nat) : Prop where
  running : k < s.frameDepth
  there : s.frames.at? k = some frame
  known : p.listing frame.funcIdx = some l
  here : ∃ pc, s.standing k = some (pc, top) ∧ l.At p.code pc blocks

/-- An operand, a local, an argument of a call or a result that is an i32, of the functions above `bottom`. -/
inductive HoldsI32 (p : Program) (h : HostFunctions n σ) (bottom : Nat) (s : Machine n σ) : Word → Prop
  | operand {k i top : Nat} {frame : CallFrame} {l : Listing} {blocks : List Ctrl} {word : Word} (above : bottom ≤ k)
      (stands : p.StandsAt s.toInterpreter k frame l blocks top) (below : frame.stackDepth + i < top)
      (type : (operandTypes blocks).reverse[i]? = some (some valI32))
      (there : s.stack.at? (frame.stackDepth + i) = some word) :
      HoldsI32 p h bottom s word
  | local_ {k i top : Nat} {frame : CallFrame} {l : Listing} {blocks : List Ctrl} {word : Word} (above : bottom ≤ k)
      (stands : p.StandsAt s.toInterpreter k frame l blocks top) (type : l.context.locals[i]? = some valI32)
      (there : s.locals.at? (frame.localsBase + i) = some word) : HoldsI32 p h bottom s word
  | argument {target : BitVec 32} {funcType : FuncType} {i : Nat} {word : Word} (above : bottom < s.frameDepth)
      (calls : p.instrAt s.pc = some (.call target)) (signature : p.signature target = some funcType)
      (type : funcType.paramTypes[i]? = some valI32) (there : (s.topmost funcType.paramCount)[i]? = some word) :
      HoldsI32 p h bottom s word
  | result {t : Machine n σ} {frame : CallFrame} {funcType : FuncType} {word : Word} (above : bottom < s.frameDepth)
      (finishes : step p h s = .ok (.done (some word)) t) (running : s.running = some frame)
      (signature : p.signature frame.funcIdx = some funcType) (type : funcType.resultTypes.getLast? = some valI32) :
      HoldsI32 p h bottom s word

/-! ### The functions of a call -/

section Stands
variable {acts : List Activation} {a : Activation} {pending : List Byte} {pc sp localsEnd labelEnd : Nat}

theorem FramesHold.find {s : Interpreter} (chain : FramesHold narrow p bottom s acts pending pc sp localsEnd labelEnd)
    (above : bottom ≤ k) (inside : k < bottom + acts.length) :
    ∃ (a : Activation) (pending' : List Byte) (pc' sp' : Nat), s.frames.at? k = some a.frame ∧
      a.listing.At p.code pc' (resume pending' a.blocks) ∧ a.Holds narrow p s sp' ∧
      if k + 1 = bottom + acts.length then pc' = pc ∧ sp' = sp
      else (s.frames.at? (k + 1)).map (fun callee => (callee.returnPc, callee.stackDepth)) = some (pc', sp') := by
  induction acts generalizing pending pc sp localsEnd labelEnd with
  | nil =>
    rw [List.length_nil] at inside
    omega
  | cons a below ih =>
    obtain ⟨there, here, holds, -, -, -, rest⟩ := chain
    rw [List.length_cons] at inside ⊢
    by_cases last : k = bottom + below.length
    · subst last
      exact ⟨a, _, _, _, there, here, holds, by rw [if_pos (Nat.add_assoc ..)]; exact ⟨rfl, rfl⟩⟩
    · obtain ⟨b, pending', pc', sp', found, here', holds', stands⟩ := ih rest (by omega)
      refine ⟨b, pending', pc', sp', found, here', holds', ?_⟩
      rw [if_neg (by omega)]
      split at stands
      · next next =>
        obtain ⟨rfl, rfl⟩ := stands
        rw [next, there]
        rfl
      · exact stands

/-- An operand fits its type, also where results of a function called are still to come. -/
theorem Activation.Holds.operand {s : Interpreter} {i : Nat} {type : Option Byte} {word : Word}
    (holds : a.Holds narrow p s sp) (below : a.frame.stackDepth + i < sp)
    (known : (operandTypes (resume pending a.blocks)).reverse[i]? = some type)
    (there : s.stack.at? (a.frame.stackDepth + i) = some word) : Fits narrow type word := by
  have height := holds.height
  have carried := holds.operands
  obtain ⟨frame, l, blocks⟩ := a
  cases blocks with
  | nil => exact absurd rfl holds.inside
  | cons c rest =>
    dsimp only at *
    rw [operandTypes_resume, List.reverse_append, List.getElem?_append_left (by rw [List.length_reverse]; omega)] at known
    rw [← List.reverse_reverse (operandTypes (c :: rest)), ← List.append_nil (List.reverse _)] at carried
    obtain ⟨word', found, fits⟩ := Carries.pushed carried known
    cases there.symm.trans found
    exact fits

theorem Typed.stands {s : Interpreter} (typed : Typed narrow p bottom acts s) (above : bottom ≤ k) {frame : CallFrame}
    {l : Listing} {blocks : List Ctrl} {top : Nat} (stands : p.StandsAt s k frame l blocks top) :
    (∀ i type word, frame.stackDepth + i < top → (operandTypes blocks).reverse[i]? = some type →
      s.stack.at? (frame.stackDepth + i) = some word → Fits narrow type word) ∧
      LocalsFit narrow l.context.locals frame.localsBase s.locals := by
  obtain ⟨depth, chain⟩ := typed
  obtain ⟨running, there, known, pc, standing, here⟩ := stands
  obtain ⟨a, pending, pc', sp', found, here', holds, where_⟩ := chain.find above (depth ▸ running)
  cases there.symm.trans found
  cases known.symm.trans holds.known
  have same : s.standing k = some (pc', sp') := by
    unfold Interpreter.standing
    rw [depth]
    split at where_
    · next last =>
      obtain ⟨rfl, rfl⟩ := where_
      rw [if_pos last]
    · next lower => rw [if_neg lower, where_]
  cases standing.symm.trans same
  rw [here.unique here']
  exact ⟨fun i type word below typed there => holds.operand below typed there, holds.locals⟩

end Stands

/-! ### Arguments and results -/

section Ends
variable {acts : List Activation} {type : Byte} {word : Word} {i : Nat} {funcType : FuncType}

theorem held_argument (held : Held narrow p bottom acts s) (above : bottom < s.frameDepth) {target : BitVec 32}
    (fitting : p.Fitting) (calls : p.instrAt s.pc = some (.call target)) (signature : p.signature target = some funcType)
    (known : funcType.paramTypes[i]? = some type) (there : (s.topmost funcType.paramCount)[i]? = some word) :
    Fits narrow (some type) word := by
  obtain ⟨nested, typed⟩ := held
  obtain ⟨frame, l, c, rest, below, count, rfl, top⟩ := typed.top nested above
  obtain ⟨instr, pc, blocks, fetched, checked, -⟩ := top.encloses.here.next top.encloses.valid
  cases calls.symm.trans (instrAt_eq fetched)
  obtain ⟨d, checks, -, rfl⟩ := check_flat_some rfl checked
  obtain ⟨funcType', signature', checks⟩ := Option.bind_eq_some_iff.mp checks
  rw [listing_signature typed.holds.known] at signature'
  cases signature.symm.trans signature'
  obtain ⟨e, popped, -⟩ := Option.bind_eq_some_iff.mp checks
  obtain ⟨tops, admits, operands, -⟩ := Ctrl.popAll_live (typed.holds.live c (List.mem_cons_self ..)) popped
  obtain ⟨stock, -⟩ := typed.innermost
  rw [operands] at stock
  refine stock.popAll admits known ?_
  have params := paramTypes_length (fitting target funcType signature).1
  have inside := (List.getElem?_eq_some_iff.mp known).1
  have height := stock.height
  rw [List.length_append, List.length_reverse, admits.length_eq, params] at height
  rw [topmost_at? (by omega) (by omega)] at there
  rw [← there]
  congr 1
  omega

theorem held_result (held : Held narrow p bottom acts s) (above : bottom < s.frameDepth) {frame : CallFrame}
    (finishes : step p h s = .ok (.done (some word)) t) (running : s.running = some frame)
    (signature : p.signature frame.funcIdx = some funcType) (known : funcType.resultTypes.getLast? = some type) :
    Fits narrow (some type) word := by
  obtain ⟨nested, typed⟩ := held
  obtain ⟨frame', l, c, rest, below, count, rfl, top⟩ := typed.top nested above
  cases running.symm.trans top.running
  obtain ⟨instr, pc, fetched, done⟩ := step_eq_ok.mp finishes
  have running : ({ s with pc } : Machine n σ).running = some frame := top.running
  have height := top.encloses.height
  rw [List.length_cons] at height
  have leaves : (p.instrAt s.pc = some .endOp ∧ rest = [] ∨ p.instrAt s.pc = some .returnOp) →
      leaveFunction { s with pc } = .ok (.done (some word)) t → Fits narrow (some type) word := by
    intro last returns
    obtain ⟨d, popped⟩ := top.delivers last
    obtain ⟨tops, admits, operands, -⟩ := Ctrl.popAll_live (typed.holds.live c (List.mem_cons_self ..)) popped
    obtain ⟨frame', mid, -, -, ⟨-, same⟩ | ⟨-, same, -⟩⟩ := leaveFunction_ok returns
    · have passed : s.passed frame'.resultCount 0 = some word := (Outcome.done.inj same).symm
      unfold Interpreter.passed at passed
      split at passed
      · next positive =>
        -- the last result is on top
        have stock := typed.stock
        have stock : Stock narrow frame l.context.locals frame.stackDepth (operandTypes (c :: rest)) s s := stock
        rw [operandTypes_cons, operands, List.append_assoc] at stock
        rw [listing_results typed.holds.known signature] at admits
        rw [List.getLast?_eq_getElem?] at known
        refine stock.popAll admits known ?_
        have inside := (List.getElem?_eq_some_iff.mp known).1
        have height := stock.height
        rw [List.length_append, List.length_reverse, admits.length_eq] at height
        unfold Interpreter.operand at passed
        rw [if_pos positive.2] at passed
        rw [← passed]
        congr 1
        omega
      · cases passed
    · cases same
  cases instr with
  | endOp =>
    have ends := execEnd_ok running (by show 0 < s.labelDepth; omega) done
    split at ends
    · next last =>
      have last : s.labelDepth - 1 = frame.labelBase := last
      exact leaves (.inl ⟨instrAt_eq fetched, List.eq_nil_of_length_eq_zero (by omega)⟩) ends
    · cases ends.1
  | returnOp => exact leaves (.inr (instrAt_eq fetched)) (execReturn_ok running done)
  | _ => cases (exec_ok done rfl).1

end Ends

/-! ### The arguments of `call_function` -/

theorem pushArgs_ok {args : List Word} {x : Unit} (pushed : pushArgs args s = .ok x t) :
    t.sp = s.sp + args.length ∧ t.frameDepth = s.frameDepth ∧ (∀ i, i < s.sp → t.stack.at? i = s.stack.at? i) ∧
      Carries (fun arg word => word = arg) t.stack s.sp args.reverse := by
  induction args generalizing s with
  | nil =>
    cases pushed
    exact ⟨rfl, rfl, fun _ _ => rfl, trivial⟩
  | cons arg rest ih =>
    obtain ⟨_, _, first, pushed⟩ := bind_eq_ok.mp pushed
    obtain ⟨inside, rfl⟩ := push_ok.mp first
    obtain ⟨height, depth, kept, carried⟩ := ih pushed
    refine ⟨?_, depth, fun i low => ?_, ?_⟩
    · rw [height, List.length_cons]
      show s.sp + 1 + _ = _
      omega
    · have low' : i < s.sp + 1 := by omega
      rw [kept i low']
      exact at?_update.trans (if_neg (Nat.ne_of_lt low))
    · rw [List.reverse_cons]
      refine Carries.append.mpr ⟨carried, ⟨arg, ?_, rfl⟩, trivial⟩
      exact (kept s.sp (Nat.lt_succ_self _)).trans (at?_update.trans (if_pos rfl))

theorem low_inj {word word' : Word} (small : word.toNat < 2 ^ 32) (small' : word'.toNat < 2 ^ 32)
    (same : Meaning.low word = Meaning.low word') : word = word' := by
  apply BitVec.eq_of_toNat_eq
  have numbers := congrArg BitVec.toNat same
  unfold Meaning.low at numbers
  rwa [BitVec.toNat_setWidth, BitVec.toNat_setWidth, Nat.mod_eq_of_lt small, Nat.mod_eq_of_lt small'] at numbers

/-- The words of i32 values in any run from a call of `call_function`. -/
theorem i32_words_narrow {funcIdx : BitVec 32} {args : List Word} (accepted : parse p.code = .ok p.module)
    (valid : p.ValidBody funcIdx) (enters : (do pushArgs args; enterFunction p funcIdx 0) s = .ok () t)
    (arguments : ∀ type ∈ p.signature funcIdx,
      List.Forall₂ (fun arg type => type = valI32 → arg.toNat < 2 ^ 32) args type.paramTypes)
    (run : Relation.ReflTransGen (fun a b => s.frameDepth < a.frameDepth ∧ Next p h a b ∧ Regular True p h a) t u) :
    ∀ word, HoldsI32 p h s.frameDepth u word → word.toNat < 2 ^ 32 ∧
      ∀ word', HoldsI32 p h s.frameDepth u word' → Meaning.low word = Meaning.low word' → word = word' := by
  have fitting := fitting_of_parse accepted
  obtain ⟨_, s', pushed, entered⟩ := bind_eq_ok.mp enters
  obtain ⟨height, depth, -, carried⟩ := pushArgs_ok pushed
  obtain ⟨e, entered⟩ := wp_of_ok (enterFunction_ok funcIdx 0) entered
  have fits := arguments e.funcType entered.signature
  have few := (fitting funcIdx e.funcType entered.signature).1
  have params := paramTypes_length few
  have count := fits.length_eq
  have base : e.stackDepth s'.toInterpreter = s.sp := by
    unfold Entry.stackDepth
    omega
  have words : Carries (Fits True) s'.stack (e.stackDepth s'.toInterpreter) (e.funcType.paramTypes.reverse.map some) := by
    rw [base]
    refine carried.mono ?_
    rw [List.forall₂_map_right_iff, List.forall₂_reverse_iff]
    refine fits.imp fun arg type small word same _ i32 => ?_
    subst same
    rcases i32 with same | ⟨⟨⟩⟩
    exact small (Option.some.inj same)
  obtain ⟨l, -, -, start⟩ := held_entered entered valid fitting fun _ => words
  rw [depth] at start
  obtain ⟨acts, held⟩ := held_run start fitting run
  have small : ∀ word, HoldsI32 p h s.frameDepth u word → word.toNat < 2 ^ 32 := by
    intro word holds
    cases holds with
    | operand above stands below type there => exact (held.typed.stands above stands).1 _ _ _ below type there trivial (.inl rfl)
    | local_ above stands type there => exact (held.typed.stands above stands).2 _ _ _ type there trivial (.inl rfl)
    | argument above calls signature type there =>
      exact held_argument held above fitting calls signature type there trivial (.inl rfl)
    | result above finishes running signature type =>
      exact held_result held above finishes running signature type trivial (.inl rfl)
  exact fun word holds => ⟨small word holds, fun word' holds' => low_inj (small word holds) (small word' holds')⟩

/-! ### A load that extends a sign -/

/-- A function that loads a byte of memory with this instruction. -/
def loading (op : Byte) : List Byte :=
  wasmMagic ++ wasmVersion ++ Section.bytes (secType, [0x01, 0x60, 0x00] ++ counted [valI32]) ++
    Section.bytes (secFunction, [0x01, 0x00]) ++ Section.bytes (secMemory, [0x01, 0x00, 0x01]) ++
    Section.bytes (secCode, [0x01] ++ counted [0x00, 0x41, 0x00, op, 0x00, 0x00, 0x0B])

namespace loading

/-- A new interpreter on a page of memory. -/
def new : Machine 65536 Unit := { memory := fun _ => 0x80, host := () }

/-- The state after some rounds. -/
def state (op : Byte) (count : Nat) : Machine 65536 Unit :=
  rounds (loaded (loading op)) (noHost 65536) (started (loaded (loading op)) 0 [] (fun _ => 0x80) ()) count

theorem computed : ∀ op ∈ [(0x2C : Byte), 0x2D], accepts (loading op) ∧ (loaded (loading op)).validBody 0 9 ∧
    returns (do pushArgs []; enterFunction (loaded (loading op)) 0 0) () new ∧
    ((loaded (loading op)).signature 0).any (fun type => type.paramCount = 0) ∧
    ∀ count < 2, returns (step (loaded (loading op)) (noHost 65536)) .next (state op count) ∧
    (state op count).frameDepth = 1 ∧
      ∀ i < (state op count).frameDepth, ((state op count).frames.at? i).any fun frame =>
        (loaded (loading op)).validBody frame.funcIdx 9 := by
  decide +kernel

theorem reads : ∀ op ∈ [(0x2C : Byte), 0x2D], (loaded (loading op)).instrAt (state op 0).pc = some (.i32Const 0) ∧
    (loaded (loading op)).instrAt (state op 1).pc = some (.load (if op = 0x2C then .i32Load8S else .i32Load8U) 0 0) := by
  decide +kernel

theorem extended : (state 0x2C 2).frameDepth = 1 ∧ (state 0x2C 2).sp = 1 ∧
    (state 0x2C 2).stack.at? 0 = some 0xFFFFFFFFFFFFFF80 ∧
    ((state 0x2C 2).frames.at? 0).any fun frame => frame.stackDepth = 0 ∧
      ((loaded (loading 0x2C)).listing frame.funcIdx).any fun l => (l.place (loaded (loading 0x2C)).code 2).any fun place =>
        place.1 = (state 0x2C 2).pc ∧ (operandTypes place.2).reverse[0]? = some (some valI32) := by
  decide +kernel

variable {op : Byte}

theorem goes (known : op ∈ [(0x2C : Byte), 0x2D]) (count next : Nat) (few : count < 2) (after : next = count + 1) :
    Next (loaded (loading op)) (noHost 65536) (state op count) (state op next) ∧
    new.frameDepth < (state op count).frameDepth ∧
      (state op count).RunsValid (loaded (loading op)) := by
  obtain ⟨-, -, -, -, all⟩ := computed op known
  subst after
  obtain ⟨step, depth, runs⟩ := all count few
  refine ⟨next_rounds step, ?_, Interpreter.runsValid_of_any runs⟩
  rw [depth]
  exact Nat.one_pos

theorem runs (known : op ∈ [(0x2C : Byte), 0x2D]) {R : Machine 65536 Unit → Prop}
    (meets : R (state op 0) ∧ R (state op 1)) :
    (do pushArgs []; enterFunction (loaded (loading op)) 0 0) new = .ok () (state op 0) ∧
      (∀ type ∈ (loaded (loading op)).signature 0,
        List.Forall₂ (fun arg type => type = valI32 → arg.toNat < 2 ^ 32) ([] : List Word) type.paramTypes) ∧
      Relation.ReflTransGen
        (fun a b => new.frameDepth < a.frameDepth ∧ Next (loaded (loading op)) (noHost 65536) a b ∧ R a)
        (state op 0) (state op 2) := by
  obtain ⟨accepted, -, enters, signature, -⟩ := computed op known
  obtain ⟨first, inside, -⟩ := goes known 0 1 (by decide) rfl
  obtain ⟨second, inside', -⟩ := goes known 1 2 (by decide) rfl
  refine ⟨ok_of_returns enters, fun type signature' => ?_,
    (Relation.ReflTransGen.single ⟨inside, first, meets.1⟩).tail ⟨inside', second, meets.2⟩⟩
  rw [Option.mem_def.mp signature'] at signature
  have none_ : type.paramTypes = [] := by
    rw [FuncType.paramTypes, of_decide_eq_true signature]
    rfl
  rw [none_]
  exact .nil

end loading

open loading in
theorem i32_words_narrow_loading : ∃ s u : Machine 65536 Unit, ∀ word,
    HoldsI32 (loaded (loading 0x2D)) (noHost 65536) s.frameDepth u word → word.toNat < 2 ^ 32 ∧
      ∀ word', HoldsI32 (loaded (loading 0x2D)) (noHost 65536) s.frameDepth u word' →
      Meaning.low word = Meaning.low word' →
        word = word' := by
  obtain ⟨accepted, valid, -⟩ := computed 0x2D (by simp)
  obtain ⟨first, second⟩ := reads 0x2D (by simp)
  obtain ⟨enters, arguments, run⟩ := @runs 0x2D (by simp) (Regular True (loaded (loading 0x2D)) (noHost 65536))
    ⟨regular_other first nofun nofun trivial, regular_other second nofun nofun fun _ _ _ => trivial⟩
  exact ⟨_, _, i32_words_narrow (parse_loaded accepted) (Program.validBody_sound valid) enters arguments run⟩

open loading in
/-- `i32.load8_s` of a negative byte pushes the word of an i64. -/
theorem i32_words_wide : ¬ ∀ (p : Program) (s t u : Machine 65536 Unit) (funcIdx : BitVec 32) (args : List Word),
    parse p.code = .ok p.module → p.numImports.toNat = p.module.importCount → Used p (noHost 65536) s →
    (do pushArgs args; enterFunction p funcIdx 0) s = .ok () t →
    (∀ type ∈ p.signature funcIdx,
      List.Forall₂ (fun arg type => type = valI32 → arg.toNat < 2 ^ 32) args type.paramTypes) →
    Relation.ReflTransGen (fun a b => s.frameDepth < a.frameDepth ∧ Next p (noHost 65536) a b ∧ a.RunsValid p) t u →
    ∀ word, HoldsI32 p (noHost 65536) s.frameDepth u word → word.toNat < 2 ^ 32 := by
  intro all
  obtain ⟨accepted, -⟩ := computed 0x2C (by simp)
  obtain ⟨-, -, valid⟩ := @goes 0x2C (by simp) 0 1 (by decide) rfl
  obtain ⟨-, -, valid'⟩ := @goes 0x2C (by simp) 1 2 (by decide) rfl
  obtain ⟨enters, arguments, run⟩ := @runs 0x2C (by simp) (fun a => a.RunsValid (loaded (loading 0x2C))) ⟨valid, valid'⟩
  have narrow := all _ _ _ _ _ _ (parse_loaded accepted) (imports_loaded accepted) (.fresh _ _) enters arguments run
  have extended := extended
  generalize state 0x2C 2 = u at *
  obtain ⟨depth, height, wide, place⟩ := extended
  obtain ⟨frame, there, place⟩ := (Option.any_eq_true _ _).mp place
  obtain ⟨base, place⟩ := of_decide_eq_true place
  obtain ⟨l, known, place⟩ := (Option.any_eq_true _ _).mp place
  obtain ⟨⟨pc, blocks⟩, place, same⟩ := (Option.any_eq_true _ _).mp place
  obtain ⟨rfl, type⟩ := of_decide_eq_true same
  have standing : u.standing 0 = some (u.pc, u.sp) := if_pos depth.symm
  have stands : (loaded (loading 0x2C)).StandsAt u.toInterpreter 0 frame l blocks u.sp :=
    ⟨by omega, there, known, u.pc, standing, Listing.at_of_place place⟩
  have small := narrow _ (.operand (Nat.zero_le 0) stands (by omega) type (by rw [base]; exact wide))
  revert small
  decide

end GooseOs.Wasm
