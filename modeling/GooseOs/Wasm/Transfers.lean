import GooseOs.Wasm.Stacks
import GooseOs.Wasm.Straight

/-!
Branches, ends, calls and returns on the stacks.
-/

namespace GooseOs.Wasm

open FixedArray

variable {n : Nat} {σ α : Type} {p : Program} {h : HostFunctions n σ} {s t : Machine n σ}
  {E : Stop TrapKind → Machine n σ → Prop}

namespace Shown
variable {x : Stacks n σ} {frame : CallFrame} {callers : List CallFrame} {label : Label} {labels : List Label}
  {upper rest : List Word}

/-! ### Branches and ends -/

/-- A branch of the running function, to a label that asks for at most one value. -/
theorem doBranch (shown : Shown x s) {depth : BitVec 32} (there : x.labels[depth.toNat]? = some label)
    (frames : x.frames = frame :: callers) (own : frame.labelBase + depth.toNat < x.labels.length)
    (split : x.operands = upper ++ rest) (height : label.stackDepth = rest.length) (few : label.resultCount ≤ 1)
    (enough : label.resultCount ≤ upper.length) :
    wp (doBranch depth) (fun _ t => Shown (if label.isLoop then { x with pc := label.targetPc, operands := rest }
      else { x with pc := label.targetPc, operands := upper.take label.resultCount ++ rest
                    labels := x.labels.drop (depth.toNat + 1) }) t) E s := by
  have running := shown.running frames
  have depth_ := shown.labels.depth
  obtain ⟨deep, found⟩ := shown.labels.get there
  have got : getLabel depth s = .ok label s := (getLabel_ok running).mpr ⟨deep, by omega, found, rfl⟩
  unfold Wasm.doBranch
  rw [wp_bind_ok got, wp_ite]
  split
  · next isLoop =>
    have lowered := shown.lower split
    rw [← height] at lowered
    exact { lowered with pc := rfl }
  · next block =>
    unfold branchOut
    have taken := shown.resultBelow split few enough (Nat.zero_le _)
    have gone : x.labels = x.labels.take (depth.toNat + 1) ++ x.labels.drop (depth.toNat + 1) :=
      (List.take_append_drop _ _).symm
    have fewer : s.labelDepth - (depth.toNat + 1) = (x.labels.drop (depth.toNat + 1)).length := by
      rw [List.length_drop, depth_]
    have popped := (popLabels_ok (u := ()) (s := ({ s with sp := label.stackDepth } : Machine n σ)) deep).mpr rfl
    have lowered : wp (setSp label.stackDepth : Exec n σ Unit) (fun _ t => t = { s with sp := label.stackDepth }) E s := rfl
    have wanted : (if 0 < label.resultCount then (x.operands.take label.resultCount).head? else none) =
        (x.operands.take label.resultCount).head? := by
      split
      · rfl
      · next none_ => rw [Nat.eq_zero_of_not_pos none_, List.take_zero, List.head?_nil]
    rw [wp_bind_ok taken, wp_bind]
    apply wp_mono lowered _ fun _ _ => id
    rintro _ _ rfl
    rw [wp_bind_ok popped, wanted, wp_bind]
    have laid := (shown.dropped gone).laid (E := E) split few enough
    rw [← height, ← fewer] at laid
    apply wp_mono laid _ fun _ _ => id
    intro _ t shown'
    exact { shown' with pc := rfl }

theorem topLabel (shown : Shown x s) (top : x.labels = label :: labels) : Wasm.topLabel s = .ok label s :=
  topLabel_ok.mpr ⟨shown.topmostLabel top, rfl⟩

theorem dropLabel (shown : Shown x s) (top : x.labels = label :: labels) :
    wp (dropLabels 1) (fun _ t => Shown { x with labels } t) E s := by
  have depth := shown.labels.depth
  rw [top, List.length_cons] at depth
  refine (wp_ok (a := ()) (dropLabels_ok.mpr ⟨by omega, rfl⟩)).mpr ?_
  have dropped := shown.dropped (show x.labels = [label] ++ labels from top)
  rwa [← Nat.add_sub_cancel labels.length 1, ← depth] at dropped

/-- The end of a construct that leaves exactly its results. -/
theorem endBlock (shown : Shown x s) (top : x.labels = label :: labels) (split : x.operands = upper ++ rest)
    (height : label.stackDepth = rest.length) (few : label.resultCount ≤ 1) (exact_ : upper.length = label.resultCount) :
    wp endBlock (fun _ t => Shown { x with labels } t) E s := by
  have depth := shown.operands.depth
  rw [split, List.length_append] at depth
  have settled : wp (settle label) (fun _ t => Shown x t) E s := by
    unfold settle
    rw [wp_bind, wp_get, wp_ite]
    split
    · next wanted =>
      obtain ⟨val, rfl⟩ : ∃ val, upper = [val] := List.length_eq_one_iff.mp (by omega)
      rw [wp_bind_ok (top_ok.mpr ⟨shown.top split, rfl⟩), wp_bind]
      have lowered := shown.lower (show x.operands = [val] ++ rest from split)
      rw [← height] at lowered
      apply wp_mono (lowered.push_room val (E := E) (height ▸ shown.room split (List.cons_ne_nil _ _))) _ fun _ _ => id
      intro _ t shown'
      have same : val :: rest = x.operands := split.symm
      exact { shown' with operands := same ▸ shown'.operands }
    · next unwanted =>
      have bound : s.sp ≤ 256 := shown.operands.room
      have small : label.stackDepth + label.resultCount < 2 ^ 64 := by omega
      rw [wp_bind, wp_plus, if_pos small, wp_ite, if_neg (by omega)]
      exact shown
  unfold Wasm.endBlock
  rw [wp_bind_ok (shown.topLabel top), wp_bind]
  exact wp_mono settled (fun _ t shown' => shown'.dropLabel top) fun _ _ => id

/-- The end of a then-branch that leaves at least its results. -/
theorem execElse (shown : Shown x s) (top : x.labels = label :: labels) (split : x.operands = upper ++ rest)
    (height : label.stackDepth = rest.length) (few : label.resultCount ≤ 1) (enough : label.resultCount ≤ upper.length) :
    wp execElse (fun _ t => Shown { x with pc := label.targetPc, operands := upper.take label.resultCount ++ rest, labels } t)
      E s := by
  have depth := shown.labels.depth
  rw [top, List.length_cons] at depth
  have taken := shown.resultBelow split few enough (Nat.le_of_eq height)
  have laid := shown.laid (E := fun _ _ => False) split few enough
  rw [← height] at laid
  have settled : wp (settleElse label)
      (fun _ t => Shown { x with operands := upper.take label.resultCount ++ rest } t) E s := by
    unfold settleElse
    rw [wp_bind_ok taken, wp_bind]
    show wp (attempt _) _ _ { s with sp := label.stackDepth }
    rw [wp_attempt]
    exact wp_mono laid (fun _ _ => id) fun _ _ => False.elim
  unfold Wasm.execElse
  rw [wp_bind, wp_get, wp_ite, if_pos (by omega), wp_bind_ok (shown.topLabel top), wp_bind]
  apply wp_mono settled _ fun _ _ => id
  intro _ t shown'
  rw [wp_bind]
  apply wp_mono (shown'.dropLabel top) _ fun _ _ => id
  intro _ u dropped
  exact { dropped with pc := rfl }

/-! ### Returns -/

/-- A function is left with its results: to its caller, or for good. -/
theorem leaveFunction {own outer : List Label} (shown : Shown x s) (frames : x.frames = frame :: callers)
    (labelled : x.labels = own ++ outer) (base : frame.labelBase = outer.length) (split : x.operands = upper ++ rest)
    (height : frame.stackDepth = rest.length) (few : frame.resultCount ≤ 1) (enough : frame.resultCount ≤ upper.length) :
    wp leaveFunction (fun outcome t =>
      if callers = [] then outcome = .done (upper.take frame.resultCount).head? ∧ t.memory = x.memory ∧ t.host = x.host
      else outcome = .next ∧ Shown { x with
        pc := frame.returnPc, operands := upper.take frame.resultCount ++ rest, labels := outer, frames := callers } t) E s := by
  have running := shown.running frames
  have taken := shown.resultBelow split few enough (Nat.zero_le _)
  have laid := shown.laid (E := E) split few enough
  rw [← height] at laid
  have same : (x.operands.take frame.resultCount).head? = (upper.take frame.resultCount).head? := by
    rw [split, List.take_append_of_le_length enough]
  have passed : wp (passResult frame) (fun result t => result = (upper.take frame.resultCount).head? ∧
      Shown { x with operands := upper.take frame.resultCount ++ rest } t) E s := by
    unfold passResult
    rw [wp_bind_ok taken, wp_bind]
    show wp (_ >>= _) _ _ { s with sp := frame.stackDepth }
    rw [wp_bind]
    exact wp_mono laid (fun _ t shown' => ⟨same, shown'⟩) fun _ _ => id
  unfold Wasm.leaveFunction
  rw [wp_bind_ok (topFrame_ok.mpr ⟨running, rfl⟩), wp_bind]
  apply wp_mono passed _ fun _ _ => id
  rintro _ u ⟨rfl, shown'⟩
  have stacked : u.frames.Stacked u.frameDepth (frame :: callers) := frames ▸ shown'.frames
  have depth := stacked.depth
  rw [List.length_cons] at depth
  rw [wp_bind, wp_get, wp_bind, wp_minus, if_pos (by omega), wp_bind, wp_set, wp_ite]
  have dropped := shown'.dropped labelled
  cases callers with
  | nil =>
    rw [if_pos (by rw [depth]; rfl)]
    exact ⟨rfl, shown'.memory, shown'.host⟩
  | cons caller callers =>
    rw [if_neg (by rw [depth, List.length_cons]; omega)]
    refine ⟨rfl, { dropped with pc := rfl, labels := ?_, frames := stacked.pop }⟩
    rw [base]
    exact dropped.labels

end Shown

/-! ### Entries -/

theorem copyArgs_returns {base stackDepth count i : Nat} (sources : stackDepth + i + count ≤ maxStack)
    (room : base + i + count ≤ maxLocals * maxCallDepth) : ∃ t, copyArgs base stackDepth count i s = .ok () t := by
  have stackSize : maxStack = 256 := rfl
  have localsSize : maxLocals * maxCallDepth = 1024 := rfl
  induction count generalizing s i with
  | zero => exact ⟨s, rfl⟩
  | succ count ih =>
    obtain ⟨t, later⟩ := @ih { s with locals := Function.update s.locals ⟨base + i, by omega⟩ (s.stack ⟨stackDepth + i, by omega⟩) }
      (i + 1) (by omega) (by omega)
    refine ⟨t, bind_eq_ok.mpr ⟨_, _, get_eq_ok.mpr ⟨rfl, rfl⟩, bind_eq_ok.mpr ⟨_, _, plus_eq_ok.mpr ⟨by omega, rfl, rfl⟩,
      bind_eq_ok.mpr ⟨_, _, plus_eq_ok.mpr ⟨by omega, rfl, rfl⟩, bind_eq_ok.mpr ⟨_, _, load_eq_ok.mpr ⟨by omega, rfl, rfl⟩,
        bind_eq_ok.mpr ⟨_, _, store_eq_ok.mpr ⟨by omega, rfl, rfl⟩, bind_eq_ok.mpr ⟨(), _, rfl, later⟩⟩⟩⟩⟩⟩⟩

theorem zeroLocals_returns {base count i : Nat} (room : base + i + count ≤ maxLocals * maxCallDepth) :
    ∃ t, zeroLocals base count i s = .ok () t := by
  have localsSize : maxLocals * maxCallDepth = 1024 := rfl
  induction count generalizing s i with
  | zero => exact ⟨s, rfl⟩
  | succ count ih =>
    obtain ⟨t, later⟩ := @ih { s with locals := Function.update s.locals ⟨base + i, by omega⟩ 0 } (i + 1) (by omega)
    refine ⟨t, bind_eq_ok.mpr ⟨_, _, get_eq_ok.mpr ⟨rfl, rfl⟩, bind_eq_ok.mpr ⟨_, _, plus_eq_ok.mpr ⟨by omega, rfl, rfl⟩,
      bind_eq_ok.mpr ⟨_, _, store_eq_ok.mpr ⟨by omega, rfl, rfl⟩, bind_eq_ok.mpr ⟨(), _, rfl, later⟩⟩⟩⟩⟩

theorem bindArgs_returns {paramCount base total : Nat} (supplied : paramCount ≤ s.sp) (low : s.sp ≤ maxStack)
    (enough : paramCount ≤ total) (room : base + total ≤ maxLocals * maxCallDepth) :
    ∃ stackDepth t, bindArgs paramCount base total s = .ok stackDepth t := by
  obtain ⟨t, copied⟩ := @copyArgs_returns n σ s base (s.sp - paramCount) paramCount 0 (by omega) (by omega)
  obtain ⟨u, zeroed⟩ := @zeroLocals_returns n σ { t with sp := s.sp - paramCount } base (total - paramCount) paramCount (by omega)
  exact ⟨s.sp - paramCount, u, bind_eq_ok.mpr ⟨_, _, get_eq_ok.mpr ⟨rfl, rfl⟩, bind_eq_ok.mpr ⟨(), _,
    failIf_eq_ok.mpr ⟨by omega, rfl⟩, bind_eq_ok.mpr ⟨_, _, get_eq_ok.mpr ⟨rfl, rfl⟩, bind_eq_ok.mpr ⟨_, _,
      minus_eq_ok.mpr ⟨supplied, rfl, rfl⟩, bind_eq_ok.mpr ⟨(), _, copied, bind_eq_ok.mpr ⟨(), _, rfl, bind_eq_ok.mpr ⟨(), _, zeroed,
        rfl⟩⟩⟩⟩⟩⟩⟩⟩

/-- What makes up a function that can be read. -/
structure Program.Defines (p : Program) (target : BitVec 32) (f : Function) (body : FuncBody) (start last after : Nat) : Prop where
  isLocal : p.IsLocal target
  signature : p.signature target = some f.type
  known : p.body target = some body
  declared : Reader.readLocals p.code body.offset = .ok f.declared start
  read : Reader.IsBody p.code start f.body last
  closed : Reader.fetch p.code last = .ok .endOp after

theorem Program.function_defines {target : BitVec 32} {f : Function} (known : p.function target = some f) :
    ∃ body start last after, p.Defines target f body start last after := by
  unfold Program.function at known
  split at known
  · next isLocal =>
    simp only [bind, Option.bind_eq_some_iff] at known
    obtain ⟨type, signature, body, there, known⟩ := known
    split at known
    · next declared start read =>
      simp only [Option.bind_eq_some_iff, Prod.exists] at known
      obtain ⟨code, last, found, known⟩ := known
      split at known
      · next after closed =>
        cases known
        exact ⟨body, start, last, after, {
          isLocal := ⟨BitVec.not_lt.mpr isLocal.1, isLocal.2⟩, signature := signature, known := there, declared := read
          read := Reader.readBody_isBody found, closed := closed }⟩
      · cases known
    · cases known
  · cases known

def Function.frame (f : Function) (target : BitVec 32) (returnPc : Nat) (x : Stacks n σ) (rest : List Word) : CallFrame where
  returnPc := returnPc
  funcIdx := target
  localsBase := x.locals.length
  localCount := f.type.paramCount + f.declared
  stackDepth := rest.length
  resultCount := f.type.resultCount
  labelBase := x.labels.length

def Function.label (f : Function) (body : FuncBody) (rest : List Word) : Label where
  targetPc := body.offset + body.length
  stackDepth := rest.length
  resultCount := f.type.resultCount
  isLoop := false

/-- The new locals stand behind those of the callers. -/
theorem Entry.Binds.leads {e : Entry} {x : Stacks n σ} {args rest : List Word} {declared : Nat} (binds : e.Binds s.toInterpreter)
    (shown : Shown x s) (next : s.nextLocal = x.locals.length) (split : x.operands = args ++ rest)
    (supplied : args.length = e.funcType.paramCount) (total : e.localCount = e.funcType.paramCount + declared)
    (room : x.locals.length + (e.funcType.paramCount + declared) ≤ maxLocals * maxCallDepth) :
    e.locals.Leads (x.locals ++ (args.reverse ++ List.replicate declared 0)) := by
  intro i v there
  have inside := (List.getElem?_eq_some_iff.mp there).1
  rw [List.length_append, List.length_append, List.length_reverse, List.length_replicate] at inside
  have bound : i < maxLocals * maxCallDepth := by omega
  rw [at?_inside bound, Option.some.injEq]
  rcases Nat.lt_or_ge i x.locals.length with outer | own
  · rw [List.getElem?_append_left outer] at there
    obtain ⟨_, same⟩ := at?_eq_some.mp (shown.locals i v there)
    rw [binds.below ⟨i, bound⟩ (by show i < _; omega), same]
  rw [List.getElem?_append_right own] at there
  rcases Nat.lt_or_ge (i - x.locals.length) args.reverse.length with arg | declared_
  · rw [List.getElem?_append_left arg] at there
    rw [List.length_reverse] at arg
    have depth := shown.operands.depth
    rw [split, List.length_append] at depth
    have source := (split ▸ shown.operands : s.stack.Stacked s.sp (args ++ rest)).leads (rest.length + (i - x.locals.length)) v
      (by rw [List.reverse_append, List.getElem?_append_right (by rw [List.length_reverse]; omega), List.length_reverse,
        Nat.add_sub_cancel_left, there])
    obtain ⟨low, same⟩ := at?_eq_some.mp source
    have below : e.stackDepth s.toInterpreter = rest.length := by
      unfold Entry.stackDepth
      omega
    rw [binds.args ⟨i, bound⟩ ⟨_, low⟩ (i - x.locals.length) (by omega) (by show i = _; omega) (by rw [below]), same]
  · rw [List.getElem?_append_right declared_] at there
    rw [List.length_reverse] at declared_
    rw [binds.zeros ⟨i, bound⟩ (i - x.locals.length) (by omega) (by omega) (by show i = _; omega)]
    exact (List.eq_of_mem_replicate (List.mem_of_getElem? there)).symm

section Entering
variable {target : BitVec 32} {f : Function} {body : FuncBody} {start last after returnPc : Nat} {x : Stacks n σ}
  (known : p.function target = some f) (defines : p.Defines target f body start last after) (sound : p.module.Sound p.code)
  (small : p.code.length < 2 ^ 32)
include defines sound

theorem Program.Defines.params : f.type.paramCount ≤ 8 := by
  obtain ⟨own, has⟩ := defines.isLocal
  have signature := defines.signature
  unfold Program.signature at signature
  rw [if_neg own] at signature
  obtain ⟨typeIdx, -, there⟩ := Option.bind_eq_some_iff.mp signature
  obtain ⟨inside, same⟩ := at?_eq_some.mp there
  exact same ▸ (sound.signature _).params

theorem resolve_returns : resolve p target s = .ok (f.type, body) s := by
  obtain ⟨own, has⟩ := defines.isLocal
  have low : p.numImports.toNat ≤ target.toNat := Nat.le_of_not_lt own
  have signature := defines.signature
  unfold Program.signature at signature
  rw [if_neg own] at signature
  obtain ⟨typeIdx, first, second⟩ := Option.bind_eq_some_iff.mp signature
  obtain ⟨inside, rfl⟩ := at?_eq_some.mp first
  have typed := sound.funcType ⟨_, inside⟩ (by show target.toNat - p.numImports.toNat < _; omega)
  exact bind_eq_ok.mpr ⟨(), _, failIf_eq_ok.mpr ⟨own, rfl⟩, bind_eq_ok.mpr ⟨_, _, minus_eq_ok.mpr ⟨low, rfl, rfl⟩,
    bind_eq_ok.mpr ⟨(), _, failIf_eq_ok.mpr ⟨by omega, rfl⟩, bind_eq_ok.mpr ⟨_, _, load_at?.mpr ⟨first, rfl⟩,
      bind_eq_ok.mpr ⟨(), _, failIf_eq_ok.mpr ⟨by omega, rfl⟩, bind_eq_ok.mpr ⟨_, _, load_at?.mpr ⟨second, rfl⟩,
        bind_eq_ok.mpr ⟨_, _, load_at?.mpr ⟨defines.known, rfl⟩, rfl⟩⟩⟩⟩⟩⟩⟩

omit defines sound in
theorem Shown.nextLocalsBase (shown : Shown x s) (next : s.nextLocal = x.locals.length) :
    nextLocalsBase s = .ok x.locals.length s := by
  have fits : x.locals.length ≤ 1024 := shown.locals.room
  refine bind_eq_ok.mpr ⟨_, _, get_eq_ok.mpr ⟨rfl, rfl⟩, ?_⟩
  cases frames : x.frames with
  | nil =>
    have depth := shown.frames.depth
    rw [frames, List.length_nil] at depth
    have none_ : s.running = none := if_neg (by omega)
    unfold Interpreter.nextLocal at next
    rw [none_] at next
    rw [if_neg (by omega), ← next]
    rfl
  | cons frame callers =>
    have running := shown.running frames
    unfold Interpreter.nextLocal at next
    rw [running] at next
    have next : frame.localsBase + frame.localCount = x.locals.length := next
    rw [if_pos (frameDepth_of_running running).1]
    exact bind_eq_ok.mpr ⟨_, _, topFrame_ok.mpr ⟨running, rfl⟩, plus_eq_ok.mpr ⟨by omega, next.symm, rfl⟩⟩

include known small

/-- The locals find room, or they are too many. -/
theorem Shown.reserveLocals (shown : Shown x s) (next : s.nextLocal = x.locals.length) :
    wp (reserveLocals p f.type.paramCount body.offset)
      (fun room t => room = (x.locals.length, f.type.paramCount + f.declared) ∧ t = { s with pc := start } ∧
        x.locals.length + (f.type.paramCount + f.declared) ≤ maxLocals * maxCallDepth) (Limited p) s := by
  have few := defines.params sound
  have within : body.offset + body.length ≤ p.code.length := by
    obtain ⟨inside, same⟩ := at?_eq_some.mp defines.known
    exact same ▸ sound.body ⟨_, inside⟩
  have declared := Reader.forward_readLocals small body.offset (by omega)
  rw [wp_ok defines.declared] at declared
  have fits : x.locals.length ≤ 1024 := shown.locals.room
  have readOk : onPc (Reader.readLocals p.code) ({ s with pc := body.offset } : Machine n σ) =
      .ok f.declared { s with pc := start } := onPart_eq_ok.mpr ⟨start, defines.declared, rfl⟩
  have bounded : f.declared ≤ (2 ^ 32 - 1) * 2 ^ 32 := declared.2.trans (Nat.mul_le_mul_right _ (by omega))
  have limit : maxLocals = 32 := rfl
  have shown' : Shown { x with pc := start } ({ s with pc := start } : Machine n σ) := { shown with pc := rfl }
  unfold Wasm.reserveLocals
  rw [wp_bind]
  show wp (onPc (Reader.readLocals p.code) >>= _) _ _ { s with pc := body.offset }
  rw [wp_bind_ok readOk, wp_bind, wp_plus, if_pos (by omega), wp_bind, wp_failIf]
  split
  · next many => exact ⟨_, rfl, .locals known (.inl many)⟩
  · next narrow =>
    rw [wp_bind_ok (shown'.nextLocalsBase next), wp_bind, wp_plus]
    rw [if_pos (by show x.locals.length + _ < _; omega), wp_bind, wp_failIf]
    split
    · next outside =>
      refine ⟨_, rfl, .locals known (.inr ?_)⟩
      show _ < s.nextLocal + _
      rw [next]
      exact outside
    · next inside => exact ⟨rfl, rfl, Nat.le_of_not_lt inside⟩

/-- Unless an array is full, the arguments have become locals and the function stands at its start. -/
theorem Shown.enterFunction (shown : Shown x s) (next : s.nextLocal = x.locals.length) {args rest : List Word}
    (split : x.operands = args ++ rest) (supplied : args.length = f.type.paramCount) (returnPc : Nat) :
    wp (enterFunction p target returnPc) (fun _ t => Shown { x with
      pc := start, operands := rest, labels := f.label body rest :: x.labels
      frames := f.frame target returnPc x rest :: x.frames
      locals := x.locals ++ (args.reverse ++ List.replicate f.declared 0) } t) (Limited p) s := by
  have depth := shown.operands.depth
  rw [split, List.length_append, supplied] at depth
  have low := shown.operands.room
  have within : body.offset + body.length ≤ p.code.length := by
    obtain ⟨inside, same⟩ := at?_eq_some.mp defines.known
    exact same ▸ sound.body ⟨_, inside⟩
  have limited : wp (Wasm.enterFunction p target returnPc)
      (fun _ _ => x.locals.length + (f.type.paramCount + f.declared) ≤ maxLocals * maxCallDepth) (Limited p) s := by
    have deepest := shown.frames.room
    unfold Wasm.enterFunction
    rw [wp_bind, wp_get, wp_bind, wp_failIf]
    split
    · next full => exact ⟨_, rfl, .calls (by omega)⟩
    next frameRoom =>
    rw [wp_bind_ok (resolve_returns defines sound), wp_bind]
    apply wp_mono (shown.reserveLocals known defines sound small next) _ fun _ _ => id
    rintro _ _ ⟨rfl, rfl, room⟩
    obtain ⟨stackDepth, t, bound⟩ := @bindArgs_returns n σ { s with pc := start } f.type.paramCount x.locals.length
      (f.type.paramCount + f.declared) (by show _ ≤ s.sp; omega) low (Nat.le_add_right _ _) room
    obtain ⟨-, -, locals, rfl, -⟩ := wp_of_ok (wp_bindArgs_ok f.type.paramCount x.locals.length _ (Nat.le_add_right _ _)) bound
    have framed : ∀ frame : CallFrame, wp (pushFrame frame) (fun (_ : Unit) (t : Machine n σ) => t.labelDepth = s.labelDepth)
        (Limited p) { s with pc := start, sp := stackDepth, locals } := by
      intro frame
      have shallow : s.frameDepth + 1 < 2 ^ 64 := by
        have : maxCallDepth = 32 := rfl
        omega
      unfold pushFrame
      rw [wp_bind, wp_get, wp_bind, wp_store, dif_pos (Nat.lt_of_not_le frameRoom), wp_bind, wp_plus, if_pos shallow]
      rfl
    rw [wp_bind_ok bound, wp_bind, wp_get, wp_bind]
    apply wp_mono (framed _) _ fun _ _ => id
    intro _ u labelled
    have fewest := shown.labels.room
    have small' : u.labelDepth + 1 < 2 ^ 64 := by
      have : maxLabels = 32 := rfl
      omega
    rw [wp_bind, wp_plus, if_pos (by omega)]
    unfold Wasm.pushLabel
    rw [wp_bind, wp_get, wp_bind, wp_failIf]
    split
    · next full => exact ⟨_, rfl, .labels (by omega)⟩
    · next inside =>
      rw [wp_bind, wp_store, dif_pos (Nat.lt_of_not_le inside), wp_bind, wp_plus, if_pos small']
      exact room
  apply wp_mono (wp_and limited (enterFunction_ok target returnPc)) _ fun _ _ both => both.1
  rintro _ t ⟨room, ⟨type, body', count, pc, locals⟩, entered⟩
  obtain ⟨frameRoom, labelRoom, -, signature, there, declared, params, -, binds, rfl⟩ := entered
  dsimp only at signature there declared params
  cases defines.signature.symm.trans signature
  cases defines.known.symm.trans there
  obtain ⟨counted, rfl⟩ : f.declared = count - f.type.paramCount ∧ start = pc := by
    simpa using defines.declared.symm.trans declared
  have total : count = f.type.paramCount + f.declared := by omega
  have below : s.sp - f.type.paramCount = rest.length := by omega
  have sameFrame : Entry.frame ⟨f.type, body, count, start, locals⟩ target returnPc s.toInterpreter =
      f.frame target returnPc x rest := by
    unfold Entry.frame Function.frame Entry.stackDepth
    dsimp only
    rw [next, below, total, shown.labels.depth]
  have sameLabel : Entry.label ⟨f.type, body, count, start, locals⟩ s.toInterpreter = f.label body rest := by
    unfold Entry.label Function.label Entry.stackDepth
    dsimp only
    rw [below]
  exact {
    pc := rfl
    operands := by
      show Stacked s.stack (s.sp - f.type.paramCount) rest
      rw [below]
      exact (split ▸ shown.operands).drop
    labels := sameLabel ▸ shown.labels.push labelRoom
    frames := sameFrame ▸ shown.frames.push frameRoom
    locals := binds.leads shown next split supplied total room
    memory := shown.memory
    host := shown.host }

end Entering

/-! ### Calls of imports -/

/-- The host gets the arguments in their order, and its answer takes their place. -/
theorem Shown.callHost {x : Stacks n σ} {target : BitVec 32} {type : FuncType} {args rest : List Word}
    {result : Except (BitVec 32) (Option Word)} {host : σ} {memory : LinearMemory n} (shown : Shown x s)
    (imported : target < p.numImports) (known : p.signature target = some type) (few : type.paramCount ≤ 8)
    (split : x.operands = args ++ rest) (supplied : args.length = type.paramCount)
    (answer : h.call x.host target args.reverse x.memory = (result, host, memory)) :
    wp (callHost p h target) (fun _ t => ∃ val, result = .ok val ∧ Shown { x with operands := val.toList ++ rest, memory, host } t)
      (fun stop t => Limited p stop t ∨ ∃ code, result = .error code ∧ stop = .error (.hostCallError code) ∧ t.memory = memory ∧
        t.host = host) s := by
  unfold Program.signature at known
  rw [if_pos imported] at known
  obtain ⟨typeIdx, first, second⟩ := Option.bind_eq_some_iff.mp known
  have depth := shown.operands.depth
  rw [split, List.length_append] at depth
  have holds : Holds s.stack (rest.reverse ++ args.reverse) := by
    rw [← List.reverse_append]
    exact (split ▸ shown.operands : s.stack.Stacked s.sp (args ++ rest)).leads
  have popped : popArgs type.paramCount (fun _ => 0) s = .ok (fun i => args.reverse.getD i 0) { s with sp := rest.length } := by
    have popped : popArgs args.reverse.length (fun _ => 0) s =
        .ok (fun i => args.reverse.getD i 0) { s with sp := rest.reverse.length } :=
      popArgs_holds holds (by rw [List.length_reverse, List.length_reverse]; omega) (by rw [List.length_reverse]; omega)
    rwa [List.length_reverse, List.length_reverse, supplied] at popped
  have sliced : (slice (fun i => args.reverse.getD i 0) type.paramCount : Exec n σ _) { s with sp := rest.length } =
      .ok args.reverse { s with sp := rest.length } := by
    rw [← supplied, ← List.length_reverse]
    exact slice_args (by rw [List.length_reverse]; omega)
  unfold Wasm.callHost
  rw [wp_bind_ok (load_at?.mpr ⟨first, rfl⟩), wp_bind_ok (load_at?.mpr ⟨second, rfl⟩), wp_bind, wp_get,
    wp_bind_ok (a := ()) (failIf_eq_ok.mpr ⟨by omega, rfl⟩), wp_bind_ok popped, wp_bind_ok sliced, wp_bind, wp_get]
  simp only [shown.host, shown.memory, answer]
  rw [wp_bind, wp_set]
  have lowered : Shown { x with operands := rest, memory, host } ({ s with sp := rest.length, memory, host } : Machine n σ) :=
    { shown.lower split with memory := rfl, host := rfl }
  cases result with
  | error code => exact .inr ⟨code, rfl, rfl, rfl, rfl⟩
  | ok val =>
    cases val with
    | none => exact ⟨none, rfl, lowered⟩
    | some val => exact wp_mono (lowered.push val) (fun _ t shown' => ⟨some val, rfl, shown'⟩) fun _ _ => .inl

end GooseOs.Wasm
