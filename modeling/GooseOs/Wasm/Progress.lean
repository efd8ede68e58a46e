import GooseOs.Wasm.Constructs
import GooseOs.Wasm.Scanners

/-!
What can still stop a validated function. The traps that validation is there to rule out never occur; each of the others
has its cause in the state before the step.
-/

namespace GooseOs.Wasm

open FixedArray

variable {n : Nat} {σ : Type} {p : Program} {h : HostFunctions n σ} {narrow : Prop} {bottom : Nat} {s t : Machine n σ}
  {E : TrapKind → Prop}

/-! ### Operations -/

theorem only_push {val : Word} (full : maxStack ≤ s.sp → E .stackOverflow) : Only E (push val) s :=
  .get_bind (.check_bind full fun _ => .store_bind fun _ => .plus_bind (.returned rfl))

theorem only_pop (some_ : s.sp ≠ 0) : Only E pop s :=
  .get_bind (.check_bind (fun empty => absurd empty some_) fun _ => .minus_bind fun _ => .set_bind .load)

theorem only_popU32 (some_ : s.sp ≠ 0) : Only E popU32 s := (only_pop some_).map _

theorem only_top : Only E top s := .get_bind (.minus_bind fun _ => .load)

theorem only_resultAbove {resultCount floor : Nat} : Only E (resultAbove resultCount floor) s :=
  .get_bind (.ite (fun _ => only_top.map some) fun _ => .pure none)

theorem only_pushResult {result : Option Word} (full : ∀ val ∈ result, maxStack ≤ s.sp → E .stackOverflow) :
    Only E (pushResult result) s := by
  cases result with
  | none => exact .pure ()
  | some val => exact only_push (full val rfl)

theorem only_topFrame : Only E topFrame s := .get_bind (.minus_bind fun _ => .load)

theorem only_topLabel : Only E topLabel s := .get_bind (.minus_bind fun _ => .load)

theorem only_dropLabels {count : Nat} : Only E (dropLabels count) s :=
  .get_bind (.minus_bind fun _ => .returned rfl)

theorem only_pushLabel {label : Label} (full : maxLabels ≤ s.labelDepth → E .labelStackOverflow) :
    Only E (pushLabel label) s :=
  .get_bind (.check_bind full fun _ => .store_bind fun _ => .plus_bind (.returned rfl))

theorem only_labelBase : Only E labelBase s := .get_bind (.ite (fun _ => only_topFrame.map _) fun _ => .pure 0)

theorem only_popLabels {depth : BitVec 32} : Only E (popLabels depth) s :=
  .plus_bind (.get_bind (.ite (fun _ => only_dropLabels) fun _ => .pure ()))

/-- A local of the running frame is in its place. -/
theorem only_localSlot {frame : CallFrame} {idx : BitVec 32} (running : s.running = some frame)
    (inside : idx.toNat < frame.localCount) (room : frame.localsBase + frame.localCount ≤ maxLocals * maxCallDepth) :
    Only E (localSlot idx) s := by
  have deep := (frameDepth_of_running running).1
  apply Only.get_bind
  apply Only.check_bind fun none_ => by omega
  intro _
  apply only_topFrame.bind
  intro frame' _ found
  obtain ⟨running', rfl⟩ := topFrame_ok.mp found
  cases running.symm.trans running'
  apply Only.plus_bind
  apply Only.check_bind fun outside => by omega
  exact fun _ => .pure _

theorem only_localGet {frame : CallFrame} {idx : BitVec 32} (running : s.running = some frame)
    (inside : idx.toNat < frame.localCount) (room : frame.localsBase + frame.localCount ≤ maxLocals * maxCallDepth) :
    Only E (localGet idx) s :=
  (only_localSlot running inside room).bind fun _ _ _ => .get_bind .load

theorem only_localSet {frame : CallFrame} {idx : BitVec 32} {val : Word} (running : s.running = some frame)
    (inside : idx.toNat < frame.localCount) (room : frame.localsBase + frame.localCount ≤ maxLocals * maxCallDepth) :
    Only E (localSet idx val) s :=
  (only_localSlot running inside room).bind fun _ _ _ => .get_bind (.store_bind fun _ => .returned rfl)

/-- A result is put back at or below the height it was taken from. -/
theorem only_branchOut {label : Label} {depth : BitVec 32} (room : 0 < label.resultCount → label.stackDepth < maxStack) :
    Only E (branchOut label depth) s := by
  apply only_resultAbove.bind
  intro result t taken
  obtain ⟨rfl, -, -⟩ := resultAbove_ok taken
  apply Only.modify_bind
  apply only_popLabels.bind
  intro _ u popped
  have height : u.sp = label.stackDepth := by
    obtain ⟨_, _, sum, rest⟩ := bind_eq_ok.mp popped
    obtain ⟨-, rfl, rfl⟩ := plus_eq_ok.mp sum
    obtain ⟨_, _, got, rest⟩ := bind_eq_ok.mp rest
    cases got
    split at rest
    · obtain ⟨-, rfl⟩ := dropLabels_ok.mp rest
      rfl
    · cases rest
      rfl
  apply (only_pushResult ?_).bind fun _ _ _ => .returned rfl
  intro val wanted full
  split at wanted
  · next some_ =>
    have := room some_
    omega
  · cases wanted

theorem only_doBranch {frame : CallFrame} {depth : BitVec 32} (running : s.running = some frame)
    (deep : depth.toNat < s.labelDepth) (own : frame.labelBase ≤ s.labelDepth - 1 - depth.toNat)
    (room : ∀ label ∈ s.branchTarget depth, label.isLoop = false → 0 < label.resultCount → label.stackDepth < maxStack) :
    Only E (doBranch depth) s := by
  have found : Only E (getLabel depth) s := by
    apply Only.get_bind
    apply Only.check_bind fun shallow => by omega
    intro _
    apply only_labelBase.bind
    intro base _ based
    obtain ⟨rfl, rfl⟩ := (labelBase_ok running).mp based
    apply Only.minus_bind
    intro _
    apply Only.minus_bind
    intro _
    apply Only.check_bind fun foreign => by omega
    exact fun _ => .load
  apply found.bind
  intro label _ got
  obtain ⟨-, -, there, rfl⟩ := (getLabel_ok running).mp got
  apply Only.ite
  · exact fun _ => .modify_bind (.returned rfl)
  · exact fun other => only_branchOut (room label there (Bool.eq_false_of_not_eq_true other))

/-- A function is left by way of its result. -/
theorem only_leaveFunction (room : ∀ frame ∈ s.running, 0 < frame.resultCount → frame.stackDepth < maxStack) :
    Only E leaveFunction s := by
  apply only_topFrame.bind
  intro frame here found
  obtain ⟨running, same⟩ := topFrame_ok.mp found
  subst here
  have passes : Only E (passResult frame) s := by
    apply only_resultAbove.bind
    intro result here taken
    obtain ⟨same, rfl, -⟩ := resultAbove_ok taken
    subst here
    apply Only.modify_bind
    apply (only_pushResult ?_).bind fun _ _ _ => .pure _
    intro val wanted (full : maxStack ≤ frame.stackDepth)
    unfold Interpreter.passed at wanted
    split at wanted
    · next some_ =>
      have := room frame running some_.1
      omega
    · cases wanted
  apply passes.bind
  intro result t _
  apply Only.get_bind
  apply Only.minus_bind
  intro _
  apply Only.set_bind
  exact .ite (fun _ => .pure _) fun _ => .modify_bind (.pure _)

theorem only_endBlock (low : s.sp ≤ maxStack) : Only E endBlock s := by
  apply only_topLabel.bind
  intro label here found
  obtain ⟨-, same⟩ := topLabel_ok.mp found
  subst here
  apply Only.bind _ fun _ _ _ => only_dropLabels
  apply Only.get_bind
  apply Only.ite
  · intro above
    apply only_top.bind
    intro result here taken
    obtain ⟨-, same⟩ := top_ok.mp taken
    subst here
    apply Only.modify_bind
    apply only_push
    intro (full : maxStack ≤ label.stackDepth)
    omega
  · exact fun _ => .plus_bind (.ite (fun _ => .returned rfl) fun _ => .pure ())

theorem only_execElse : Only E execElse s := by
  apply Only.get_bind
  apply Only.ite
  · intro _
    apply only_topLabel.bind
    intro label _ _
    have settles : ∀ t : Machine n σ, Only E (settleElse label) t := fun t =>
      only_resultAbove.bind fun _ _ _ => .modify_bind .attempt
    apply (settles _).bind
    intro _ _ _
    apply only_dropLabels.bind
    exact fun _ _ _ => .returned rfl
  · exact fun _ => .pure ()

/-! ### Calls -/

theorem only_popArgs {count : Nat} {args : FixedArray 8 Word} (enough : count ≤ s.sp) : Only E (popArgs count args) s := by
  induction count generalizing args s with
  | zero => exact .pure args
  | succ count ih =>
    apply (only_pop (by omega)).bind
    intro val t popped
    obtain ⟨-, rfl⟩ := pop_ok.mp popped
    apply Only.store_bind
    intro _
    apply ih
    show count ≤ s.sp - 1
    omega

theorem only_copyArgs {base stackDepth count i : Nat} : Only E (copyArgs base stackDepth count i) s := by
  induction count generalizing i s with
  | zero => exact .pure ()
  | succ count ih => exact .get_bind (.plus_bind (.plus_bind (.load_bind fun _ _ => .store_bind fun _ => .set_bind ih)))

theorem only_zeroLocals {base count i : Nat} : Only E (zeroLocals base count i) s := by
  induction count generalizing i s with
  | zero => exact .pure ()
  | succ count ih => exact .get_bind (.plus_bind (.store_bind fun _ => .set_bind ih))

theorem only_bindArgs {paramCount base total : Nat} (enough : paramCount ≤ s.sp) :
    Only E (bindArgs paramCount base total) s := by
  apply Only.get_bind
  apply Only.check_bind fun few => by omega
  intro _
  apply Only.get_bind
  apply Only.minus_bind
  intro _
  apply only_copyArgs.bind
  intro _ _ _
  apply Only.modify_bind
  exact only_zeroLocals.bind fun _ _ _ => .pure _

namespace Reader
variable {code : List Byte} {pc next groups declared : Nat} {types : List Byte} {F : TrapKind → Prop}

theorem only_readGroups (read : groupTypes code groups pc = .ok types next) :
    Only F (readGroups code groups declared) pc := by
  induction groups generalizing declared pc next types with
  | zero => exact .pure _
  | succ groups ih =>
    obtain ⟨count, _, first, rest⟩ := bind_eq_ok.mp read
    obtain ⟨type, _, second, rest⟩ := bind_eq_ok.mp rest
    obtain ⟨others, _, third, _⟩ := bind_eq_ok.mp rest
    apply (Only.returned first).bind
    intro _ _ first'
    cases first.symm.trans first'
    apply (Only.returned second).bind
    intro _ _ second'
    cases second.symm.trans second'
    exact .plus_bind (ih third)

theorem only_readLocals (read : localTypes code pc = .ok types next) : Only F (readLocals code) pc := by
  obtain ⟨groups, _, first, rest⟩ := bind_eq_ok.mp read
  apply (Only.returned first).bind
  intro _ _ first'
  cases first.symm.trans first'
  exact only_readGroups rest

end Reader

/-- The index of a function with a body in the module. -/
def Program.IsLocal (p : Program) (target : BitVec 32) : Prop :=
  ¬ target < p.numImports ∧ target.toNat < p.numImports.toNat + p.module.funcCount

theorem only_resolve {target : BitVec 32} (sound : p.module.Sound p.code) (isLocal : p.IsLocal target) :
    Only E (resolve p target) s := by
  obtain ⟨own, has⟩ := isLocal
  have low : p.numImports.toNat ≤ target.toNat := Nat.le_of_not_lt own
  apply Only.check_bind fun imported => absurd imported own
  intro _
  apply Only.minus_bind
  intro _
  apply Only.check_bind fun unknown => by omega
  intro _
  apply Only.load_bind
  intro typeIdx there
  obtain ⟨inside, rfl⟩ := at?_eq_some.mp there
  have typed := sound.funcType ⟨_, inside⟩ (by show target.toNat - p.numImports.toNat < _; omega)
  apply Only.check_bind fun untyped => by omega
  exact fun _ => .load_bind fun _ _ => .load_bind fun _ _ => .pure _

theorem only_onPc {α : Type} {r : Reader α} {F : TrapKind → Prop} (reads : Only F r s.pc) : Only F (onPc r) s where
  among e t stopped := by
    unfold onPc onPart at stopped
    split at stopped
    · cases stopped
    · next failed =>
      cases stopped
      exact reads.among e _ failed

/-- Where a local function's locals would be too many, on their own or above those of the callers. -/
def Wide (l : Listing) (s : Interpreter) : Prop :=
  maxLocals < l.context.locals.length ∨ maxLocals * maxCallDepth < s.nextLocal + l.context.locals.length

theorem only_nextLocalsBase : Only E nextLocalsBase s :=
  .get_bind (.ite (fun _ => only_topFrame.bind fun _ _ _ => .plus) fun _ => .pure 0)

theorem only_pushFrame {frame : CallFrame} : Only E (pushFrame frame) s :=
  .get_bind (.store_bind fun _ => .plus_bind (.returned rfl))

/-- A valid function is entered unless a stack is full. -/
theorem only_enterFunction {target : BitVec 32} {returnPc : Nat} {l : Listing} {type : FuncType}
    (sound : p.module.Sound p.code) (fitting : p.Fitting) (isLocal : p.IsLocal target) (known : p.listing target = some l)
    (signature : p.signature target = some type) (supplied : type.paramCount ≤ s.sp)
    (deep : maxCallDepth ≤ s.frameDepth → E .callStackOverflow) (wide : Wide l s.toInterpreter → E .invalidLocal)
    (labelled : maxLabels ≤ s.labelDepth → E .labelStackOverflow) : Only E (enterFunction p target returnPc) s := by
  have few := (fitting target type signature).1
  apply Only.get_bind
  apply Only.check_bind deep
  intro _
  apply (only_resolve sound isLocal).bind
  rintro ⟨type', body⟩ here resolved
  obtain ⟨-, signature', there, same⟩ := wp_of_ok (wp_resolve_ok target) resolved
  subst here
  obtain rfl := Option.some.inj (signature.symm.trans signature')
  -- the declarations are those of the listing
  obtain ⟨declared, start, read, locals⟩ : ∃ declared start, Reader.localTypes p.code body.offset = .ok declared start ∧
      l.context.locals = type.paramTypes ++ declared := by
    obtain ⟨type', signature', rest⟩ := Option.bind_eq_some_iff.mp known
    obtain ⟨body', there', rest⟩ := Option.bind_eq_some_iff.mp rest
    obtain rfl := Option.some.inj (signature.symm.trans signature')
    obtain rfl := Option.some.inj (there.symm.trans there')
    split at rest
    · next declared start read =>
      cases rest
      exact ⟨declared, start, read, rfl⟩
    · cases rest
  have length : l.context.locals.length = type.paramCount + declared.length := by
    rw [locals, List.length_append, paramTypes_length few]
  have reserves : Only E (reserveLocals p type.paramCount body.offset) s := by
    apply Only.modify_bind
    apply (only_onPc (Reader.only_readLocals read)).bind
    intro total t readOk
    obtain ⟨pc, counted, rfl⟩ := onPart_eq_ok.mp readOk
    obtain ⟨types, read', same⟩ := Reader.localTypes_ok counted
    cases read.symm.trans read'
    subst same
    apply Only.plus_bind
    apply Only.check_bind fun many => wide (.inl (by omega))
    intro _
    apply only_nextLocalsBase.bind
    intro base here based
    obtain ⟨rfl, same⟩ := wp_of_ok wp_nextLocalsBase_ok based
    subst here
    apply Only.plus_bind
    refine Only.check_bind ?_ fun _ => .pure _
    intro outside
    have outside : maxLocals * maxCallDepth < s.nextLocal + (type.paramCount + declared.length) := outside
    exact wide (.inr (by omega))
  apply reserves.bind
  rintro ⟨base, total⟩ here reserved
  obtain ⟨pc, -, enough, -, same⟩ := wp_of_ok (wp_reserveLocals_ok type.paramCount body.offset) reserved
  subst here
  apply (only_bindArgs (s := ({ s with pc } : Machine n σ)) supplied).bind
  intro stackDepth here bound
  obtain ⟨-, -, locals', same, -⟩ := wp_of_ok (wp_bindArgs_ok type.paramCount base total enough) bound
  subst here
  apply Only.get_bind
  apply only_pushFrame.bind
  intro _ here framed
  have same : here.labelDepth = s.labelDepth := by
    obtain ⟨_, _, got, rest⟩ := bind_eq_ok.mp framed
    cases got
    obtain ⟨_, _, stored, rest⟩ := bind_eq_ok.mp rest
    obtain ⟨_, -, rfl⟩ := store_eq_ok.mp stored
    obtain ⟨_, _, sum, rest⟩ := bind_eq_ok.mp rest
    obtain ⟨-, -, rfl⟩ := plus_eq_ok.mp sum
    cases rest
    rfl
  apply Only.plus_bind
  apply only_pushLabel
  rw [same]
  exact labelled

/-! ### Scans -/

namespace Reader
variable {code : List Byte} {pc next after fuel depth : Nat} {instr : Instr} {α : Type} {l : Listing}

/-- In a valid body a scanner finds the end of its construct, or what stops it before. -/
theorem scan_returns {scan : (fuel depth : Nat) → Reader α}
    (passes : ∀ fuel depth pc instr next, fetch code pc = .ok instr next → depth + 2 < 2 ^ 32 →
      (∃ a stop, scan (fuel + 1) (depth + 1) pc = .ok a stop) ∨
        scan (fuel + 1) (depth + 1) pc = scan fuel (instr.nest (depth + 1)) next)
    (closes : ∀ fuel pc, ∃ a stop, scan (fuel + 1) 0 pc = .ok a stop) (valid : l.Valid code) {inner rest : List Ctrl}
    {c : Ctrl} (here : l.At code pc (inner ++ c :: rest)) (enough : code.length - pc + 1 < fuel)
    (shallow : inner.length + (code.length - pc) + 2 < 2 ^ 32) : ∃ a stop, scan fuel (inner.length + 1) pc = .ok a stop := by
  induction fuel generalizing pc inner c with
  | zero => omega
  | succ fuel ih =>
    obtain ⟨top, outer, whole⟩ : ∃ top outer, inner ++ c :: rest = top :: outer := by
      cases inner with
      | nil => exact ⟨c, rest, rfl⟩
      | cons top inner => exact ⟨top, inner ++ c :: rest, rfl⟩
    rw [whole] at here
    obtain ⟨instr, next, blocks, fetched, checked, there⟩ := here.next valid
    have gain := fetch_gains fetched
    have inside := fetch_inside fetched
    rcases passes fuel inner.length pc instr next fetched (by omega) with found | goes
    · exact found
    · rw [goes]
      rw [← whole] at checked
      rcases check_inner checked with ⟨rfl, rfl, rfl⟩ | ⟨inner', d, rfl, -, depth, -⟩
      · obtain ⟨left, rfl⟩ : ∃ left, fuel = left + 1 := ⟨fuel - 1, by omega⟩
        exact closes left next
      · rw [← depth]
        have deeper : instr.nest (inner.length + 1) ≤ inner.length + 2 := by
          unfold Instr.nest
          split <;> omega
        exact ih there (by omega) (by omega)

theorem opens_next (fetched : fetch code pc = .ok instr next) (opens : instr.opens.isSome) : next = pc + 2 := by
  obtain ⟨byte, -, -, rest⟩ := fetch_ok fetched
  cases instr with
  | block | loop | ifOp =>
    obtain ⟨type, _, read, same⟩ := bind_eq_ok.mp rest
    cases same
    exact readByte_next read
  | _ => cases opens

theorem skipToEnd_returns (valid : l.Valid code) {c : Ctrl} {rest : List Ctrl} (here : l.At code pc (c :: rest))
    (small : code.length < 2 ^ 32) (behind : 2 ≤ pc) : ∃ stop, skipToEnd code pc = .ok () stop := by
  obtain ⟨_, stop, found⟩ := @scan_returns code pc (code.length + 2) Unit l (skipToEndFrom code)
    (fun _ _ _ _ _ fetched shallow => .inr (skipToEndFrom_round fetched shallow)) (fun _ pc => ⟨(), pc, rfl⟩) valid [] rest c
    here (by omega) (by rw [List.length_nil]; omega)
  exact ⟨stop, found⟩

theorem skipToElseOrEnd_returns (valid : l.Valid code) {c : Ctrl} {rest : List Ctrl} (here : l.At code pc (c :: rest))
    (small : code.length < 2 ^ 32) (behind : 2 ≤ pc) : ∃ hasElse stop, skipToElseOrEnd code pc = .ok hasElse stop := by
  refine @scan_returns code pc (code.length + 2) Bool l (skipToElseOrEndFrom code) ?_ (fun _ pc => ⟨false, pc, rfl⟩) valid []
    rest c here (by omega) (by rw [List.length_nil]; omega)
  intro fuel depth pc instr next fetched shallow
  by_cases own : (instr = .elseOp ∨ instr = .endOp) ∧ depth = 0
  · obtain ⟨rfl | rfl, rfl⟩ := own
    · exact .inl ⟨true, next, skipToElseOrEndFrom_turn fetched⟩
    · exact .inl ⟨false, next, skipToElseOrEndFrom_close fetched⟩
  · exact .inr (skipToElseOrEndFrom_round fetched shallow fun either => Nat.pos_of_ne_zero fun zero => own ⟨either, zero⟩)

end Reader

theorem findEnd_returns {l : Listing} {c : Ctrl} {rest : List Ctrl} (valid : l.Valid p.code)
    (here : l.At p.code s.pc (c :: rest)) (small : p.code.length < 2 ^ 32) (behind : 2 ≤ s.pc) :
    ∃ stop, findEnd p s = .ok stop s := by
  obtain ⟨stop, scanned⟩ := Reader.skipToEnd_returns valid here small behind
  exact ⟨stop, bind_eq_ok.mpr ⟨s, s, rfl, bind_eq_ok.mpr ⟨(), { s with pc := stop }, onPart_eq_ok.mpr ⟨stop, scanned, rfl⟩, rfl⟩⟩⟩

theorem only_execBlock {l : Listing} {c : Ctrl} {rest : List Ctrl} {blockType : Byte} (valid : l.Valid p.code)
    (here : l.At p.code s.pc (c :: rest)) (small : p.code.length < 2 ^ 32) (behind : 2 ≤ s.pc)
    (full : maxLabels ≤ s.labelDepth → E .labelStackOverflow) : Only E (execBlock p blockType) s := by
  obtain ⟨stop, found⟩ := findEnd_returns valid here small behind
  apply (Only.returned found).bind
  intro _ _ found'
  cases found.symm.trans found'
  exact .get_bind (only_pushLabel full)

theorem only_execIf {l : Listing} {c : Ctrl} {rest : List Ctrl} {blockType : Byte} (valid : l.Valid p.code)
    (here : l.At p.code s.pc (c :: rest)) (small : p.code.length < 2 ^ 32) (behind : 2 ≤ s.pc) (some_ : s.sp ≠ 0)
    (full : maxLabels ≤ s.labelDepth → E .labelStackOverflow) : Only E (execIf p blockType) s := by
  apply (only_popU32 some_).bind
  intro cond t popped
  obtain ⟨_, -, -, rfl⟩ := popU32_ok.mp popped
  obtain ⟨stop, found⟩ := @findEnd_returns _ _ _ ({ s with sp := s.sp - 1 } : Machine n σ) _ _ _ valid here small behind
  apply (Only.returned found).bind
  intro _ _ found'
  cases found.symm.trans found'
  apply Only.get_bind
  dsimp only
  apply Only.ite
  · exact fun _ => only_pushLabel full
  intro _
  obtain ⟨hasElse, stop', scanned⟩ := Reader.skipToElseOrEnd_returns valid here small behind
  apply (only_onPc (s := ({ s with sp := s.sp - 1 } : Machine n σ)) (.returned scanned)).bind
  intro hasElse' t' scanned'
  obtain ⟨pc', -, rfl⟩ := onPart_eq_ok.mp scanned'
  exact .ite (fun _ => only_pushLabel full) fun _ => .pure ()

/-! ### Instructions -/

/-- The instructions that only push. -/
def Instr.pushes : Instr → Bool
  | .localGet _ | .memorySize _ | .i32Const _ | .i64Const _ => true
  | _ => false

/-- The traps that are left to a validated instruction, each with what brings it about. -/
inductive Instr.Traps (p : Program) (h : HostFunctions n σ) (s : Machine n σ) : Instr → TrapKind → Prop
  | unreachable : Traps p h s .unreachable .unreachable
  -- no operand is popped before one is pushed
  | full {instr : Instr} (pushes : instr.pushes) (full : s.sp = maxStack) : Traps p h s instr .stackOverflow
  | load {op : Load} {align offset : BitVec 32} {addr : Word} (there : s.operand 0 = some addr)
      (outside : n < (Meaning.low addr).toNat + offset.toNat + op.width) : Traps p h s (.load op align offset) .outOfBounds
  | store {op : Store} {align offset : BitVec 32} {addr : Word} (there : s.operand 1 = some addr)
      (outside : n < (Meaning.low addr).toNat + offset.toNat + op.width) : Traps p h s (.store op align offset) .outOfBounds
  | divides {op : Numeric} {f : Word → Word → Except (Stop TrapKind) Word} {a b : Word} {e : TrapKind}
      (meaning : op.meaning = .binary f) (dividend : s.operand 1 = some a) (divisor : s.operand 0 = some b)
      (undefined_ : f a b = .error (.error e)) : Traps p h s (.numeric op) e
  | opens {instr : Instr} (opens : instr.opens.isSome) (full : s.labelDepth = maxLabels) :
      Traps p h s instr .labelStackOverflow
  | enters {target : BitVec 32} (own : ¬ target < p.numImports) (full : s.labelDepth = maxLabels) :
      Traps p h s (.call target) .labelStackOverflow
  | deep {target : BitVec 32} (own : ¬ target < p.numImports) (full : s.frameDepth = maxCallDepth) :
      Traps p h s (.call target) .callStackOverflow
  | wide {target : BitVec 32} {l : Listing} (own : ¬ target < p.numImports) (known : p.listing target = some l)
      (wide : Wide l s.toInterpreter) : Traps p h s (.call target) .invalidLocal
  | refuses {target : BitVec 32} {type : FuncType} {code : BitVec 32} (imported : target < p.numImports)
      (known : p.signature target = some type)
      (answers : (h.call s.host target (s.topmost type.paramCount) s.memory).1 = .error code) :
      Traps p h s (.call target) (.hostCallError code)
  | answers {target : BitVec 32} {type : FuncType} {val : Word} (imported : target < p.numImports)
      (known : p.signature target = some type) (none_ : type.paramCount = 0) (full : s.sp = maxStack)
      (answers : (h.call s.host target (s.topmost type.paramCount) s.memory).1 = .ok (some val)) :
      Traps p h s (.call target) .stackOverflow

/-- What validation is there to rule out. -/
def TrapKind.ruledOut : TrapKind → Bool
  | .stackUnderflow | .invalidFunction | .typeMismatch | .invalidBranch | .unexpectedEnd | .unknownOpcode _ => true
  | _ => false

theorem Meaning.division_traps {w : Nat} {f : BitVec w → BitVec w → Except (Stop TrapKind) (BitVec w)}
    (division : f ∈ [divS, divU, remS, remU]) {a b : BitVec w} {e : TrapKind} (undefined_ : f a b = .error (.error e)) :
    e.ruledOut = false := by
  simp only [List.mem_cons, List.not_mem_nil, or_false] at division
  rcases division with rfl | rfl | rfl | rfl
  · unfold divS wrappingDiv at undefined_
    repeat' split at undefined_
    all_goals cases undefined_ <;> rfl
  · unfold divU at undefined_
    repeat' split at undefined_
    all_goals cases undefined_ <;> rfl
  · unfold remS rem at undefined_
    repeat' split at undefined_
    all_goals cases undefined_ <;> rfl
  · unfold remU at undefined_
    repeat' split at undefined_
    all_goals cases undefined_ <;> rfl

theorem Meaning.i32Division_traps {f : BitVec 32 → BitVec 32 → Except (Stop TrapKind) (BitVec 32)}
    (division : f ∈ [divS, divU, remS, remU]) {a b : Word} {e : TrapKind}
    (undefined_ : (BitVec.setWidth 64) <$> f (low a) (low b) = .error (.error e)) : e.ruledOut = false := by
  cases result : f (low a) (low b) with
  | ok val =>
    rw [result] at undefined_
    cases undefined_
  | error stop =>
    rw [result] at undefined_
    cases undefined_
    exact division_traps division result

theorem Numeric.traps {op : Numeric} {f : Word → Word → Except (Stop TrapKind) Word} (meaning : op.meaning = .binary f)
    {a b : Word} {e : TrapKind} (undefined_ : f a b = .error (.error e)) : e.ruledOut = false := by
  cases op with
  | i32DivS | i32DivU | i32RemS | i32RemU =>
    cases meaning
    exact Meaning.i32Division_traps (by simp) undefined_
  | i64DivS | i64DivU | i64RemS | i64RemU =>
    cases meaning
    exact Meaning.division_traps (by simp) undefined_
  | _ => cases meaning <;> cases undefined_

theorem Instr.Traps.allowed {instr : Instr} {e : TrapKind} (traps : instr.Traps p h s e) : e.ruledOut = false := by
  cases traps with
  | divides meaning _ _ undefined_ => exact Numeric.traps meaning undefined_
  | _ => rfl

/-- The program counter does not matter. -/
theorem Instr.Traps.anywhere {instr : Instr} {e : TrapKind} {pc : Nat}
    (traps : instr.Traps p h ({ s with pc } : Machine n σ) e) : instr.Traps p h s e := by
  cases traps with
  | unreachable => exact .unreachable
  | full pushes full => exact .full pushes full
  | load there outside => exact .load there outside
  | store there outside => exact .store there outside
  | divides meaning dividend divisor undefined_ => exact .divides meaning dividend divisor undefined_
  | opens opens full => exact .opens opens full
  | enters own full => exact .enters own full
  | deep own full => exact .deep own full
  | wide own known wide => exact .wide own known wide
  | refuses imported known answers => exact .refuses imported known answers
  | answers imported known none_ full answers => exact .answers imported known none_ full answers

section Simple
variable {frame : CallFrame} {floor : Nat} {x : Context} {blocks : List Ctrl} {c d : Ctrl}

/-- How far the stack is above its floor when operands of these types are on it. -/
theorem Stock.some_ {top : Option Byte} {ts : List (Option Byte)} {locals : List Byte}
    (stock : Stock narrow frame locals floor (top :: ts) s t) : t.sp ≠ 0 := by
  have height := stock.height
  rw [List.length_cons] at height
  omega

theorem room_popped {t u : Machine n σ} {word : Word} (low : t.sp ≤ maxStack) (popped : pop t = .ok word u) :
    u.sp < maxStack := by
  obtain ⟨there, rfl⟩ := pop_ok.mp popped
  have some_ := (Interpreter.operand_inside there).1
  show t.sp - 1 < maxStack
  omega

theorem popU32_popped {t u : Machine n σ} {val : BitVec 32} (popped : popU32 t = .ok val u) :
    ∃ word, pop t = .ok word u ∧ t.operand 0 = some word ∧ val = Meaning.low word := by
  obtain ⟨word, there, rfl, rfl⟩ := popU32_ok.mp popped
  exact ⟨word, pop_ok.mpr ⟨there, rfl⟩, there, rfl⟩

/-- A push after a pop has room. -/
theorem only_pushBack {val : Word} (room : s.sp < maxStack) : Only E (push val) s :=
  only_push fun full => absurd full (Nat.not_le_of_lt room)

theorem only_callHost {target : BitVec 32} {type : FuncType} (imported : target < p.numImports)
    (known : p.signature target = some type) (supplied : type.paramCount ≤ s.sp) (low : s.sp ≤ maxStack) :
    Only ((Instr.call target).Traps p h s) (callHost p h target) s := by
  apply Only.load_bind
  intro typeIdx there
  apply Only.load_bind
  intro type' there'
  have same : p.signature target = some type' := by
    unfold Program.signature
    rw [if_pos imported, there]
    exact there'
  obtain rfl := Option.some.inj (known.symm.trans same)
  apply Only.get_bind
  apply Only.check_bind fun few => by omega
  intro _
  apply (only_popArgs supplied).bind
  intro args t popped
  obtain ⟨-, rfl, -⟩ := popArgs_ok popped
  have taken := popArgs_topmost popped
  have sliced : Only ((Instr.call target).Traps p h s) (slice args type.paramCount) ({ s with sp := s.sp - type.paramCount } : Machine n σ) :=
    .ite (fun _ => .pure _) fun _ => .fault
  apply sliced.bind
  intro list here got
  unfold slice at got
  split at got
  · cases got
    rw [taken]
    obtain ⟨⟨result, host, memory⟩, answer⟩ :
      ∃ answered, h.call s.host target (s.topmost type.paramCount) s.memory = answered := ⟨_, rfl⟩
    have answer' : h.call ({ s with sp := s.sp - type.paramCount } : Machine n σ).host target (s.topmost type.paramCount)
        ({ s with sp := s.sp - type.paramCount } : Machine n σ).memory = (result, host, memory) := answer
    apply Only.get_bind
    rw [answer']
    apply Only.set_bind
    cases result with
    | error code => exact .fail (.refuses imported known (by rw [answer]))
    | ok result =>
      apply only_pushResult
      intro val some_ (full : maxStack ≤ s.sp - type.paramCount)
      cases some_
      exact .answers imported known (by omega) (by omega) (by rw [answer])
  · cases got

/-! ### Operands that validation takes -/

section Taken
variable {locals : List Byte} {E : TrapKind → Prop} {type : Byte}

theorem only_taken (stock : Stock narrow frame locals floor c.operands s t) (live : c.unreachable = false)
    (low : t.sp ≤ maxStack) (taken : c.pop type = some d) {f : Word → Exec n σ α}
    (next : ∀ word u, pop t = .ok word u → d.unreachable = false → Stock narrow frame locals floor d.operands s u →
      u.sp < maxStack → Only E (f word) u) : Only E (do f (← pop)) t := by
  obtain ⟨top, -, operands, live'⟩ := Ctrl.pop_live live taken
  have some_ : t.sp ≠ 0 := (operands ▸ stock).some_
  apply (only_pop some_).bind
  intro word u popped
  obtain ⟨-, -, stock⟩ := stock.taken live taken popped
  exact next word u popped live' stock (room_popped low popped)

theorem only_takenU32 (stock : Stock narrow frame locals floor c.operands s t) (live : c.unreachable = false)
    (low : t.sp ≤ maxStack) (taken : c.pop type = some d) {f : BitVec 32 → Exec n σ α}
    (next : ∀ word u, pop t = .ok word u → d.unreachable = false → Stock narrow frame locals floor d.operands s u →
      u.sp < maxStack → Only E (f (Meaning.low word)) u) : Only E (do f (← popU32)) t := by
  obtain ⟨top, -, operands, live'⟩ := Ctrl.pop_live live taken
  have some_ : t.sp ≠ 0 := (operands ▸ stock).some_
  apply (only_popU32 some_).bind
  intro val u popped
  obtain ⟨word, first, -, rfl⟩ := popU32_popped popped
  obtain ⟨-, -, stock⟩ := stock.taken live taken first
  exact next word u first live' stock (room_popped low first)

theorem only_takenAny (stock : Stock narrow frame locals floor c.operands s t) (live : c.unreachable = false)
    (low : t.sp ≤ maxStack) {top : Option Byte} (taken : c.popAny = some (top, d)) {f : Word → Exec n σ α}
    (next : ∀ word u, d.unreachable = false → Stock narrow frame locals floor d.operands s u → u.sp < maxStack →
      Only E (f word) u) : Only E (do f (← pop)) t := by
  obtain ⟨operands, live'⟩ := Ctrl.popAny_live live taken
  have some_ : t.sp ≠ 0 := (operands ▸ stock).some_
  apply (only_pop some_).bind
  intro word u popped
  obtain ⟨-, -, stock⟩ := stock.takenAny live taken popped
  exact next word u live' stock (room_popped low popped)

end Taken

/-! ### Instructions by their kind -/

theorem only_imported {target : BitVec 32} (stock : Stock narrow frame x.locals floor c.operands s t)
    (live : c.unreachable = false) (imported : target < p.numImports) (signature : x.signature = p.signature)
    (checked : checkFlat x blocks c (.call target) = some d) (low : t.sp ≤ maxStack) (fitting : p.Fitting) :
    Only ((Instr.call target).Traps p h t) (execCall p h target) t := by
  obtain ⟨type, known, checked⟩ := Option.bind_eq_some_iff.mp checked
  obtain ⟨e, taken, -⟩ := Option.bind_eq_some_iff.mp checked
  obtain ⟨tops, admits, operands, -⟩ := Ctrl.popAll_live live taken
  have height := stock.height
  have known : p.signature target = some type := signature ▸ known
  rw [operands, List.length_append, List.length_reverse, admits.length_eq,
    paramTypes_length (fitting target type known).1] at height
  rw [execCall, if_pos imported]
  exact only_callHost imported known (by omega) low

theorem only_select {E : TrapKind → Prop} (stock : Stock narrow frame x.locals floor c.operands s t)
    (live : c.unreachable = false) (checked : checkFlat x blocks c .select = some d) (low : t.sp ≤ maxStack) :
    Only E execSelect t := by
  obtain ⟨e₁, cond, checked⟩ := Option.bind_eq_some_iff.mp checked
  obtain ⟨⟨second, e₂⟩, taken, checked⟩ := Option.bind_eq_some_iff.mp checked
  obtain ⟨⟨first, e₃⟩, taken', -⟩ := Option.bind_eq_some_iff.mp checked
  apply only_takenU32 stock live low cond
  intro _ t₁ _ live stock room
  apply only_takenAny stock live room.le taken
  intro _ t₂ live stock room
  apply only_takenAny stock live room.le taken'
  exact fun _ t₃ _ _ room => only_pushBack room

theorem only_tee {E : TrapKind → Prop} {idx : BitVec 32} (stock : Stock narrow frame x.locals floor c.operands s t)
    (live : c.unreachable = false) (checked : checkFlat x blocks c (.localTee idx) = some d)
    (inside : idx.toNat < frame.localCount) (room : frame.localsBase + frame.localCount ≤ maxLocals * maxCallDepth) :
    Only E (execTee idx) t := by
  obtain ⟨type, -, checked⟩ := Option.bind_eq_some_iff.mp checked
  obtain ⟨e, taken, -⟩ := Option.bind_eq_some_iff.mp checked
  obtain ⟨top, -, operands, -⟩ := Ctrl.pop_live live taken
  rw [operands] at stock
  apply Only.get_bind
  apply Only.check_bind fun empty => absurd empty stock.some_
  intro _
  apply only_top.bind
  intro val t' found
  obtain ⟨-, rfl⟩ := top_ok.mp found
  exact only_localSet stock.running inside room

theorem only_load {op : Load} {align offset : BitVec 32} (stock : Stock narrow frame x.locals floor c.operands s t)
    (live : c.unreachable = false) (checked : checkFlat x blocks c (.load op align offset) = some d)
    (low : t.sp ≤ maxStack) :
    Only ((Instr.load op align offset).Traps p h t) (do push (← op.fetch (← popU32) offset) : Exec n σ Unit) t := by
  obtain ⟨e, taken, -⟩ := Option.bind_eq_some_iff.mp checked
  apply only_takenU32 stock live low taken
  intro word t' first _ _ room
  obtain ⟨there, rfl⟩ := pop_ok.mp first
  have fetches : Only ((Instr.load op align offset).Traps p h t) (op.fetch (Meaning.low word) offset)
      ({ t with sp := t.sp - 1 } : Machine n σ) := by
    constructor
    intro e u stopped
    rw [fetch_spec] at stopped
    split at stopped
    · next outside =>
      cases stopped
      exact .load there outside
    · cases stopped
  apply fetches.bind
  intro val u fetched
  rw [fetch_spec] at fetched
  split at fetched
  · cases fetched
  · cases fetched
    exact only_pushBack room

theorem only_store {op : Store} {align offset : BitVec 32} (stock : Stock narrow frame x.locals floor c.operands s t)
    (live : c.unreachable = false) (checked : checkFlat x blocks c (.store op align offset) = some d)
    (low : t.sp ≤ maxStack) :
    Only ((Instr.store op align offset).Traps p h t)
      (do let val ← pop; op.write (← popU32) offset val : Exec n σ Unit) t := by
  obtain ⟨e, taken, checked⟩ := Option.bind_eq_some_iff.mp checked
  apply only_taken stock live low taken
  intro val t₁ popped live stock room
  obtain ⟨-, rfl⟩ := pop_ok.mp popped
  apply only_takenU32 stock live room.le checked
  intro word t₂ first _ _ _
  obtain ⟨there, rfl⟩ := pop_ok.mp first
  rw [Interpreter.operand_pop] at there
  constructor
  intro e u stopped
  rw [write_spec] at stopped
  split at stopped
  · next outside =>
    cases stopped
    exact .store there outside
  · cases stopped

theorem only_numeric {op : Numeric} (stock : Stock narrow frame x.locals floor c.operands s t)
    (live : c.unreachable = false) (checked : checkFlat x blocks c (.numeric op) = some d) (low : t.sp ≤ maxStack) :
    Only ((Instr.numeric op).Traps p h t) (execNumeric op) t := by
  obtain ⟨e, taken, checked⟩ := Option.bind_eq_some_iff.mp checked
  unfold execNumeric
  cases meaning : op.meaning with
  | unary f =>
    apply only_taken stock live low taken
    exact fun _ _ _ _ _ room => only_pushBack room
  | binary f =>
    simp only [meaning] at checked
    obtain ⟨e', taken', -⟩ := Option.bind_eq_some_iff.mp checked
    apply only_taken stock live low taken
    intro b t₁ popped live stock room
    obtain ⟨divisor, rfl⟩ := pop_ok.mp popped
    apply only_taken stock live room.le taken'
    intro a t₂ popped _ _ room
    obtain ⟨dividend, -⟩ := pop_ok.mp popped
    rw [Interpreter.operand_pop] at dividend
    cases result : f a b with
    | ok val => exact only_pushBack room
    | error stop =>
      constructor
      intro e u stopped
      cases stopped
      exact .divides meaning dividend divisor result

/-- An instruction that stays in its construct. -/
theorem only_execSimple {instr : Instr} (stock : Stock narrow frame x.locals floor c.operands s t)
    (live : c.unreachable = false) (simple : instr.isSimple p) (signature : x.signature = p.signature)
    (checked : checkFlat x blocks c instr = some d) (window : frame.localCount = x.locals.length)
    (room : frame.localsBase + frame.localCount ≤ maxLocals * maxCallDepth) (low : t.sp ≤ maxStack) (fitting : p.Fitting) :
    Only (instr.Traps p h t) (execSimple p h instr) t := by
  have inside : ∀ {idx : BitVec 32} {type : Byte}, x.locals[idx.toNat]? = some type → idx.toNat < frame.localCount := by
    intro idx type known
    obtain ⟨below, -⟩ := List.getElem?_eq_some_iff.mp known
    omega
  cases instr with
  | block | loop | ifOp | elseOp | endOp | br | brIf | returnOp => cases simple
  | unknown => cases checked
  | unreachable => exact .fail .unreachable
  | nop => exact .pure ()
  | call target => exact only_imported stock live (of_decide_eq_true simple) signature checked low fitting
  | drop =>
    obtain ⟨⟨top, e⟩, taken, -⟩ := Option.bind_eq_some_iff.mp checked
    exact only_takenAny stock live low taken fun _ _ _ _ _ => .pure ()
  | select => exact only_select stock live checked low
  | localGet idx =>
    obtain ⟨type, known, -⟩ := Option.bind_eq_some_iff.mp checked
    apply (only_localGet stock.running (inside known) room).bind
    intro val t' got
    obtain ⟨-, rfl⟩ := stock.localGet known got
    exact only_push fun full => .full rfl (Nat.le_antisymm low full)
  | localSet idx =>
    obtain ⟨type, known, checked⟩ := Option.bind_eq_some_iff.mp checked
    apply only_taken stock live low checked
    exact fun _ _ _ _ stock _ => only_localSet stock.running (inside known) room
  | localTee idx =>
    obtain ⟨type, known, -⟩ := Option.bind_eq_some_iff.mp checked
    exact only_tee stock live checked (inside known) room
  | load op align offset => exact only_load stock live checked low
  | store op align offset => exact only_store stock live checked low
  | memorySize | i32Const | i64Const => exact only_push fun full => .full rfl (Nat.le_antisymm low full)
  | memoryGrow =>
    obtain ⟨e, taken, -⟩ := Option.bind_eq_some_iff.mp checked
    apply only_takenU32 stock live low taken
    exact fun _ _ _ _ _ room => only_pushBack room
  | numeric op => exact only_numeric stock live checked low

end Simple

/-! ### Steps -/

/-- Every body is valid and calls functions of the module only. -/
structure Program.Validated (p : Program) : Prop where
  bodies : ∀ target, p.IsLocal target → p.ValidBody target
  calls : ∀ funcIdx l pc blocks target, p.IsLocal funcIdx → p.listing funcIdx = some l → l.At p.code pc blocks →
    p.instrAt pc = some (.call target) → ¬ target < p.numImports → p.IsLocal target

/-- The running frame is within its arrays. -/
theorem Interpreter.Within.window {code : List Byte} {d : Nat} {s : Interpreter} (within : s.Within code d)
    {frame : CallFrame} (running : s.running = some frame) : frame.Within code := by
  unfold Interpreter.running at running
  split at running
  · obtain ⟨inside, rfl⟩ := at?_eq_some.mp running
    exact within.frame _
  · cases running

section Steps
variable {frame : CallFrame} {l : Listing} {c d : Ctrl} {rest : List Ctrl} {below : List Activation} {count pc sp : Nat}

/-- A branch that validation takes finds its label, and room for its result. -/
theorem Typed.branches {depth : BitVec 32} {e target : Ctrl} {d' : Nat}
    (typed : Typed narrow p bottom (⟨frame, l, c :: rest⟩ :: below) s.toInterpreter)
    (taken : Takes s.toInterpreter c d sp) (aims : (c :: rest)[depth.toNat]? = some target)
    (popped : d.popAll target.labelTypes = some e) (within : s.Within p.code d') :
    Only E (doBranch depth) ({ s with pc, sp } : Machine n σ) := by
  obtain ⟨live, stock⟩ := @Typed.takes _ _ _ _ _ _ _ _ _ _ _ _ _ pc typed taken
  obtain ⟨tops, admits, operands, -⟩ := Ctrl.popAll_live live popped
  have height : sp = _ := stock.height
  rw [operands, List.length_append, List.length_reverse, admits.length_eq] at height
  have low : sp ≤ maxStack := by
    have bound := within.sp
    cases taken with
    | nothing => exact bound
    | condition => omega
  have labelled : s.labelDepth = frame.labelBase + (rest.length + 1) := typed.labelled
  have labels : Piles (Measures frame.stackDepth) s.labels frame.labelBase (c :: rest) := typed.holds.labels
  obtain ⟨below_, same⟩ := List.getElem?_eq_some_iff.mp aims
  rw [List.length_cons] at below_
  have running : ({ s with pc, sp } : Machine n σ).running = some frame := typed.running
  apply only_doBranch running
  · show depth.toNat < s.labelDepth
    omega
  · show frame.labelBase ≤ s.labelDepth - 1 - depth.toNat
    omega
  -- the constructs around the target
  obtain ⟨innermost, outer, whole, inside⟩ : ∃ innermost outer, c :: rest = innermost ++ target :: outer ∧
      innermost.length = depth.toNat := by
    have split := List.take_append_drop depth.toNat (c :: rest)
    rw [List.drop_eq_getElem_cons (by rw [List.length_cons]; exact below_), same] at split
    exact ⟨_, _, split.symm, List.length_take_of_le (by rw [List.length_cons]; omega)⟩
  have lengths := congrArg List.length whole
  rw [List.length_cons, List.length_append, List.length_cons] at lengths
  intro label there _ wanted
  rw [whole] at labels
  obtain ⟨label', there', measures⟩ := labels.entry
  have there : s.labels.at? (s.labelDepth - 1 - depth.toNat) = some label := there
  rw [show s.labelDepth - 1 - depth.toNat = frame.labelBase + outer.length by omega] at there
  obtain rfl := Option.some.inj (there.symm.trans there')
  have around : (operandTypes outer).length ≤ (operandTypes rest).length := by
    cases innermost with
    | nil =>
      cases whole
      exact Nat.le_refl _
    | cons top innermost =>
      cases whole
      exact operandTypes_above
  rw [measures.arity] at wanted
  rw [measures.height]
  omega

theorem Typed.room (typed : Typed narrow p bottom (⟨frame, l, c :: rest⟩ :: below) s.toInterpreter) {d' : Nat}
    (popped : c.popAll l.context.results = some d) (within : s.Within p.code d') :
    ∀ frame' ∈ s.running, 0 < frame'.resultCount → frame'.stackDepth < maxStack := by
  intro frame' running wanted
  have running' : s.running = some frame := typed.running
  obtain rfl := Option.some.inj (running'.symm.trans running)
  have live : c.unreachable = false := typed.holds.live c (List.mem_cons_self ..)
  obtain ⟨tops, admits, operands, -⟩ := Ctrl.popAll_live live popped
  have height : s.sp = frame.stackDepth + (operandTypes (c :: rest)).length := typed.holds.height
  have results : frame.resultCount = l.context.results.length := typed.holds.results
  rw [operandTypes_cons, operands, List.length_append, List.length_append, List.length_reverse, admits.length_eq] at height
  have bound := within.sp
  omega

/-- A step of a validated function stops with none but these traps. -/
theorem Typed.progress (typed : Typed narrow p bottom (⟨frame, l, c :: rest⟩ :: below) s.toInterpreter)
    (top : Top p bottom count s.toInterpreter frame l c rest) (within : s.Within p.code 1) (sound : p.module.Sound p.code)
    (fitting : p.Fitting) (small : p.code.length < 2 ^ 32) (validated : p.Validated) (isLocal : p.IsLocal frame.funcIdx) :
    Only (fun e => ∃ instr ∈ p.instrAt s.pc, instr.Traps p h s e) (step p h) s := by
  obtain ⟨instr, pc, blocks, fetched, checked, there⟩ := top.encloses.here.next top.encloses.valid
  have known := instrAt_eq fetched
  have valid := top.encloses.valid
  have live : c.unreachable = false := typed.holds.live c (List.mem_cons_self ..)
  have gain := Reader.fetch_gains fetched
  apply (only_onPc (.returned fetched)).bind
  intro instr' here read
  obtain ⟨pc', fetched', rfl⟩ := onPart_eq_ok.mp read
  cases fetched.symm.trans fetched'
  suffices Only (instr.Traps p h s) (exec p h instr) ({ s with pc } : Machine n σ) from
    this.mono fun e traps => ⟨instr, known, traps⟩
  have goes : ∀ {x : Exec n σ Unit}, Only (instr.Traps p h s) x ({ s with pc } : Machine n σ) →
      Only (instr.Traps p h s) (do x; pure .next : Exec n σ Outcome) ({ s with pc } : Machine n σ) := fun only =>
    only.bind fun _ _ _ => .pure _
  have full : ∀ blockType kind, instr.opens = some (kind, blockType) → maxLabels ≤ s.labelDepth →
      instr.Traps p h s .labelStackOverflow := by
    intro blockType kind opens full
    exact .opens (by rw [opens]; rfl) (Nat.le_antisymm within.labelDepth full)
  have simple : instr.isSimple p → Only (instr.Traps p h s) (execSimple p h instr) ({ s with pc } : Machine n σ) := by
    intro isSimple
    have flat : instr.isFlat := by
      cases instr <;> first | rfl | cases isSimple
    obtain ⟨d, checks, -, -⟩ := check_flat_some flat checked
    have stock := typed.innermost.1
    have stock : Stock narrow frame l.context.locals (frame.stackDepth + (operandTypes rest).length) c.operands s
      ({ s with pc } : Machine n σ) := { stock with }
    have only := only_execSimple (h := h) stock live isSimple (listing_signature typed.holds.known) checks typed.holds.window
      (within.window typed.running).locals within.sp fitting
    exact only.mono fun _ traps => traps.anywhere
  have running : ({ s with pc } : Machine n σ).running = some frame := typed.running
  cases instr with
  | block blockType =>
    obtain ⟨results, d, -, -, rfl, -⟩ := check_open rfl checked
    have behind := Reader.opens_next fetched rfl
    exact goes (only_execBlock valid there small (by show 2 ≤ pc; omega) (full _ _ rfl))
  | loop blockType => exact goes (.get_bind (only_pushLabel (full _ _ rfl)))
  | ifOp blockType =>
    obtain ⟨results, d, -, -, rfl, popped⟩ := check_open rfl checked
    have behind := Reader.opens_next fetched rfl
    have popped : c.pop valI32 = some d := popped
    obtain ⟨top', -, operands, -⟩ := Ctrl.pop_live live popped
    have stock := typed.innermost.1
    rw [operands] at stock
    exact goes (only_execIf valid there small (by show 2 ≤ pc; omega) stock.some_ (full _ _ rfl))
  | elseOp => exact goes only_execElse
  | endOp =>
    apply Only.get_bind
    apply Only.ite
    · intro _
      apply only_labelBase.bind
      intro base here based
      obtain ⟨rfl, rfl⟩ := (labelBase_ok running).mp based
      apply Only.minus_bind
      intro _
      apply Only.ite
      · intro last
        have last : s.labelDepth - 1 = frame.labelBase := last
        have height : s.labelDepth = frame.labelBase + (rest.length + 1) := typed.labelled
        obtain rfl : rest = [] := List.eq_nil_of_length_eq_zero (by omega)
        obtain ⟨d, popped⟩ := top.delivers (.inl ⟨known, rfl⟩)
        exact only_leaveFunction (typed.room popped within)
      · intro _
        apply Only.bind (only_endBlock (s := ({ s with pc } : Machine n σ)) within.sp)
        exact fun _ _ _ => .pure _
    · exact fun _ => .get_bind (.ite (fun _ => only_top.map _) fun _ => .pure _)
  | returnOp =>
    apply Only.get_bind
    apply Only.ite
    · exact fun _ => .get_bind (.ite (fun _ => only_top.map _) fun _ => .pure _)
    · intro _
      obtain ⟨d, popped⟩ := top.delivers (.inr known)
      exact only_leaveFunction (typed.room popped within)
  | br depth =>
    obtain ⟨d, checks, -, rfl⟩ := check_flat_some rfl checked
    obtain ⟨target, aims, rest'⟩ := Option.bind_eq_some_iff.mp checks
    obtain ⟨e, popped, -⟩ := Option.bind_eq_some_iff.mp rest'
    exact goes (typed.branches .nothing aims popped within)
  | brIf depth =>
    obtain ⟨d, checks, -, rfl⟩ := check_flat_some rfl checked
    obtain ⟨d', first, rest'⟩ := Option.bind_eq_some_iff.mp checks
    obtain ⟨target, aims, rest'⟩ := Option.bind_eq_some_iff.mp rest'
    obtain ⟨e, popped, -⟩ := Option.bind_eq_some_iff.mp rest'
    obtain ⟨top', -, operands, -⟩ := Ctrl.pop_live live first
    have stock := typed.innermost.1
    rw [operands] at stock
    apply goes
    apply (only_popU32 (s := ({ s with pc } : Machine n σ)) stock.some_).bind
    intro cond here taken
    obtain ⟨word, there', rfl, rfl⟩ := popU32_ok.mp taken
    apply Only.ite
    · exact fun _ => typed.branches (.condition first there') aims popped within
    · exact fun _ => .pure ()
  | call target =>
    by_cases own : target < p.numImports
    · exact goes (simple (decide_eq_true own))
    · obtain ⟨d, checks, -, rfl⟩ := check_flat_some rfl checked
      obtain ⟨type, signature, rest'⟩ := Option.bind_eq_some_iff.mp checks
      obtain ⟨e, popped, -⟩ := Option.bind_eq_some_iff.mp rest'
      rw [listing_signature typed.holds.known] at signature
      obtain ⟨tops, admits, operands, -⟩ := Ctrl.popAll_live live popped
      have height := typed.innermost.1.height
      rw [operands, List.length_append, List.length_reverse, admits.length_eq,
        paramTypes_length (fitting target type signature).1] at height
      have called := validated.calls _ _ _ _ _ isLocal typed.holds.known top.encloses.here known own
      obtain ⟨l', known', -⟩ := validated.bodies target called
      apply goes
      show Only _ (execCall p h target) _
      rw [execCall, if_neg own]
      apply Only.get_bind
      exact only_enterFunction sound fitting called known' signature (by show type.paramCount ≤ s.sp; omega)
        (fun full => .deep own (Nat.le_antisymm within.frameDepth full)) (fun wide => .wide own known' wide)
        fun full => .enters own (Nat.le_antisymm within.labelDepth full)
  | _ => exact goes (simple rfl)

end Steps

/-! ### Runs -/

theorem Next.within (sound : p.module.Sound p.code) (imports : p.numImports.toNat = p.module.importCount)
    (small : p.code.length < 2 ^ 32) (within : s.Within p.code 1) (next : Next p h s t) : t.Within p.code 1 := by
  have safe := wp_step sound imports small h within
  rw [wp_ok next] at safe
  exact safe

/-- A step enters a function, or leaves the frames as they are. -/
theorem Transition.frames {frame : CallFrame} {l : Listing} {c : Ctrl} {rest : List Ctrl}
    (transition : Transition p h frame l c rest s t) : t.frames = s.frames ∧ t.frameDepth ≤ s.frameDepth ∨
      ∃ target e pc, p.instrAt s.pc = some (.call target) ∧ Entered p target pc e ({ s with pc } : Machine n σ) t := by
  cases transition with
  | computes known simple checked there does =>
    obtain ⟨stack, sp, locals, memory, host, rfl⟩ := moves_ok (values_execSimple simple) does
    exact .inl ⟨rfl, Nat.le_refl _⟩
  | opens known opens types fresh loop takes consumed there leads height arity pushes =>
    obtain ⟨inside, rfl⟩ := pushLabel_ok.mp pushes
    exact .inl ⟨rfl, Nat.le_refl _⟩
  | passes | skips | continues => exact .inl ⟨rfl, Nat.le_refl _⟩
  | ends known closed inner onTop settles there =>
    obtain ⟨stack, sp, rfl⟩ := settles.shape
    exact .inl ⟨rfl, Nat.le_refl _⟩
  | switches known kind closed inner onTop lays there =>
    obtain ⟨stack, rfl⟩ := lays.shape
    exact .inl ⟨rfl, Nat.le_refl _⟩
  | breaks branches takes popped whole inside inner kind there_ lays there =>
    obtain ⟨stack, rfl⟩ := lays.shape
    exact .inl ⟨rfl, Nat.le_refl _⟩
  | leaves known popped deep lays =>
    obtain ⟨stack, rfl⟩ := lays.shape
    exact .inl ⟨rfl, Nat.sub_le _ _⟩
  | enters known valid checked there entered => exact .inr ⟨_, _, _, known, entered⟩

/-- The frames from `bottom` on are of functions of the module. -/
def LocalFrames (p : Program) (bottom : Nat) (s : Interpreter) : Prop :=
  ∀ i frame, bottom ≤ i → i < s.frameDepth → s.frames.at? i = some frame → p.IsLocal frame.funcIdx

theorem LocalFrames.entered {funcIdx : BitVec 32} {returnPc : Nat} {e : Entry} (frames : LocalFrames p bottom s.toInterpreter)
    (entered : Entered p funcIdx returnPc e s t) (isLocal : p.IsLocal funcIdx) : LocalFrames p bottom t.toInterpreter := by
  obtain ⟨room, labelRoom, -, -, -, -, -, -, -, rfl⟩ := entered
  intro i frame low (below : i < s.frameDepth + 1) there
  have there : at? (Function.update s.frames ⟨s.frameDepth, room⟩ _) i = some frame := there
  rw [at?_update] at there
  split at there
  · cases there
    exact isLocal
  · next other =>
    have other : i ≠ s.frameDepth := other
    exact frames i frame low (by omega) there

theorem Nested.localFrames (nested : Nested p bottom s.toInterpreter) (inside : bottom < s.frameDepth)
    (frames : LocalFrames p bottom s.toInterpreter) (validated : p.Validated) (plain : Plain p s.toInterpreter)
    (next : Next p h s t) : LocalFrames p bottom t.toInterpreter := by
  obtain ⟨count, frame, l, c, rest, top⟩ := nested.top inside
  rcases (top.transition plain next).frames with ⟨same, less⟩ | ⟨target, e, pc, known, entered⟩
  · intro i frame low below there
    rw [same] at there
    exact frames i frame low (below.trans_le less) there
  · have running := frames (bottom + count) frame (Nat.le_add_right _ _) (by rw [top.depth]; omega) top.at_top
    have called := validated.calls _ _ _ _ _ running top.encloses.known top.encloses.here known entered.local_
    exact LocalFrames.entered (s := ({ s with pc } : Machine n σ)) frames entered called

/-- Within its arrays and the text, in functions of the module. -/
structure Underway (p : Program) (bottom : Nat) (s : Machine n σ) : Prop where
  within : s.Within p.code 1
  frames : LocalFrames p bottom s.toInterpreter
  held : ∃ acts, Held False p bottom acts s

theorem Underway.step (underway : Underway p bottom s) (accepted : parse p.code = .ok p.module) (small : p.code.length < 2 ^ 32)
    (imports : p.numImports.toNat = p.module.importCount) (validated : p.Validated) (inside : bottom < s.frameDepth)
    (regular : Regular False p h s) (next : Next p h s t) : Underway p bottom t := by
  obtain ⟨acts, held⟩ := underway.held
  obtain ⟨acts', -, held', -, -⟩ := held.step inside (fitting_of_parse accepted) regular next
  exact {
    within := next.within (sound_of_parse accepted) imports small underway.within
    frames := held.nested.localFrames inside underway.frames validated regular.toPlain next
    held := ⟨acts', held'⟩ }

namespace Listing
variable {l : Listing} {code : List Byte} {fuel : Nat} {place next : Place}

/-- The places the pass visits. -/
def places (l : Listing) (code : List Byte) : (fuel : Nat) → Place → List Place
  | 0, place => [place]
  | fuel + 1, place => place :: ((advance code l.context place).map (l.places code fuel)).getD []

theorem mem_places (valid : l.validFrom code fuel place)
    (path : Relation.ReflTransGen (fun a b => advance code l.context a = some b) place next) :
    next ∈ l.places code fuel place := by
  induction fuel generalizing place with
  | zero =>
    obtain rfl := of_decide_eq_true valid
    rcases path.cases_head with rfl | ⟨b, moved, -⟩
    · exact List.mem_singleton_self _
    · obtain ⟨instr, -, checked⟩ := advance_eq_some.mp moved
      cases checked
  | succ fuel ih =>
    rcases path.cases_head with rfl | ⟨b, moved, rest⟩
    · exact List.mem_cons_self ..
    · unfold validFrom at valid
      rw [moved] at valid
      unfold places
      rw [moved]
      exact List.mem_cons_of_mem _ (ih valid rest)

end Listing

instance (p : Program) (target : BitVec 32) : Decidable (p.IsLocal target) := inferInstanceAs (Decidable (_ ∧ _))

/-- A call that stands here goes to an import or a function of the module. -/
def Program.callsKnown (p : Program) (place : Place) : Bool :=
  match p.instrAt place.1 with
  | some (.call target) => target < p.numImports ∨ p.IsLocal target
  | _ => true

/-- The pass run on every function of the module. -/
def Program.validated (p : Program) (fuel : Nat) : Bool :=
  (List.range p.module.funcCount).all fun i => (p.listing (BitVec.ofNat 32 (p.numImports.toNat + i))).any fun l =>
    l.validFrom p.code fuel l.entry ∧ (l.places p.code fuel l.entry).all p.callsKnown

theorem Program.validated_sound {fuel : Nat} (checked : p.validated fuel) : p.Validated := by
  have passes : ∀ target, p.IsLocal target → ∃ l, p.listing target = some l ∧ l.validFrom p.code fuel l.entry ∧
      ∀ place ∈ l.places p.code fuel l.entry, p.callsKnown place := by
    rintro target ⟨own, has⟩
    have low : p.numImports.toNat ≤ target.toNat := Nat.le_of_not_lt own
    have one := List.all_eq_true.mp checked (target.toNat - p.numImports.toNat) (List.mem_range.mpr (by omega))
    rw [show p.numImports.toNat + (target.toNat - p.numImports.toNat) = target.toNat by omega, BitVec.ofNat_toNat,
      BitVec.setWidth_eq] at one
    obtain ⟨l, known, both⟩ := (Option.any_eq_true _ _).mp one
    obtain ⟨valid, calls⟩ := of_decide_eq_true both
    exact ⟨l, known, valid, List.all_eq_true.mp calls⟩
  constructor
  · intro target isLocal
    obtain ⟨l, known, valid, -⟩ := passes target isLocal
    exact ⟨l, known, Listing.valid_of_validFrom .refl valid⟩
  · intro funcIdx l pc blocks target isLocal known here calls own
    obtain ⟨l', known', valid, known_⟩ := passes funcIdx isLocal
    obtain rfl := Option.some.inj (known.symm.trans known')
    have place := known_ (pc, blocks) (Listing.mem_places valid here)
    unfold callsKnown at place
    rw [calls] at place
    exact (of_decide_eq_true place).resolve_left own

/-- A function that stops at once. -/
def abort : List Byte := oneFunction [] [0x00, 0x0B]

end GooseOs.Wasm
