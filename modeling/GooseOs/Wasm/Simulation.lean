import GooseOs.Wasm.Refinement

/-!
Structured code and the interpreter in step. The induction is on the fuel of the meaning; a loop that is begun again
stands behind its own opening, so it is simulated from there.
-/

namespace GooseOs.Wasm

open FixedArray

variable {n : Nat} {σ : Type} {p : Program} {h : HostFunctions n σ} {s t : Machine n σ} {fuel : Nat}

/-- What calls of a program refer to. -/
def Program.env (p : Program) (h : HostFunctions n σ) : Env n σ where
  imported target := if target < p.numImports then p.signature target else none
  function := p.function
  host := h

/-- Every body that can be read is one the interpreter runs as it is meant, with at most one result. -/
def Program.Supported (p : Program) : Prop :=
  ∀ target f, p.function target = some f → f.body.supported [] ∧ f.type.resultCount ≤ 1

/-! ### Openings -/

namespace Reader

theorem closed_inside {code : List Byte} {last after : Nat} (closed : fetch code last = .ok .endOp after) :
    after ≤ code.length := by
  obtain ⟨byte, read, -, rest⟩ := fetch_ok closed
  obtain ⟨-, rfl⟩ := pure_eq_ok.mp rest
  have inside := fetch_inside closed
  have next := readByte_next read
  omega

end Reader

section Openings
variable {x : Setting} {c : Config n σ} {start after : Nat} {other : Option Nat} {blockType : Byte} {cond : Word} {rest : List Word}

theorem Runs.findEnd (runs : Runs x start c s) (enclosed : Reader.Enclosed p.code start other after)
    (extent : after < start + 2 ^ 32) : findEnd p s = .ok after s := by
  have scanned := Reader.skipToEnd_enclosed enclosed extent
  have here : s.pc = start := runs.shown.pc
  rw [← here] at scanned
  exact bind_eq_ok.mpr ⟨s, s, rfl, bind_eq_ok.mpr ⟨(), { s with pc := after }, onPart_eq_ok.mpr ⟨after, scanned, rfl⟩, rfl⟩⟩

/-- The label of a block or an `if`. -/
def blockLabel (after : Nat) (blockType : Byte) (under : List Word) : Label where
  targetPc := after
  stackDepth := under.length
  resultCount := blockResults blockType
  isLoop := false

def loopLabel (start : Nat) (under : List Word) : Label where
  targetPc := start
  stackDepth := under.length
  resultCount := 0
  isLoop := true

theorem Runs.pushLabel (runs : Runs x start c s) (label : Label) :
    wp (pushLabel label) (fun _ t => Runs (x.inner label c.operands) start { c with operands := [] } t) (Limited p) s :=
  wp_mono (runs.shown.pushLabel label) (fun _ _ shown => { runs with shown := { shown with } }) fun _ _ => id

theorem Runs.execBlock (runs : Runs x start c s) (enclosed : Reader.Enclosed p.code start other after)
    (extent : after < start + 2 ^ 32) :
    wp (execBlock p blockType) (fun _ t => Runs (x.inner (blockLabel after blockType (c.operands ++ x.under)) c.operands) start
      { c with operands := [] } t) (Limited p) s := by
  have depth : s.sp = (c.operands ++ x.under).length := runs.shown.operands.depth
  unfold Wasm.execBlock
  rw [wp_bind_ok (runs.findEnd enclosed extent), wp_bind, wp_get, depth]
  exact runs.pushLabel _

theorem Runs.execLoop (runs : Runs x start c s) :
    wp execLoop (fun _ t => Runs (x.inner (loopLabel start (c.operands ++ x.under)) c.operands) start
      { c with operands := [] } t) (Limited p) s := by
  have depth : s.sp = (c.operands ++ x.under).length := runs.shown.operands.depth
  have here : s.pc = start := runs.shown.pc
  unfold Wasm.execLoop
  rw [wp_bind, wp_get, depth, here]
  exact runs.pushLabel _

/-- An `if` enters one of its branches, or goes on behind its end. -/
theorem Runs.execIf (runs : Runs x start c s) (operands : c.operands = cond :: rest)
    (enclosed : Reader.Enclosed p.code start other after) (extent : after < start + 2 ^ 32) :
    wp (execIf p blockType) (fun _ t =>
      if Meaning.low cond = 0 ∧ other = none then Runs x after { c with operands := rest } t
      else Runs (x.inner (blockLabel after blockType (rest ++ x.under)) rest)
        (if Meaning.low cond ≠ 0 then start else other.getD after) { c with operands := [] } t) (Limited p) s := by
  unfold Wasm.execIf
  rw [wp_bind]
  apply wp_mono (runs.popU32 operands) _ fun _ _ => id
  rintro _ t ⟨rfl, runs⟩
  have depth : t.sp = (rest ++ x.under).length := runs.shown.operands.depth
  rw [wp_bind_ok (runs.findEnd enclosed extent), wp_bind, wp_get, depth, wp_ite]
  split
  · next taken =>
    apply wp_mono (runs.pushLabel _) _ fun _ _ => id
    intro _ u runs
    rw [if_neg fun both => taken both.1]
    exact runs
  · next skipped =>
    have zero : Meaning.low cond = 0 := Decidable.not_not.mp skipped
    have scanned := Reader.skipToElseOrEnd_enclosed enclosed extent
    have here : t.pc = start := runs.shown.pc
    rw [← here] at scanned
    have moved : onPc (Reader.skipToElseOrEnd p.code) t = .ok other.isSome { t with pc := other.getD after } :=
      onPart_eq_ok.mpr ⟨_, scanned, rfl⟩
    rw [wp_bind_ok moved, wp_ite]
    cases other with
    | none =>
      rw [if_neg (show ¬ (none : Option Nat).isSome = true from nofun), wp_pure, if_pos ⟨zero, rfl⟩]
      exact runs.onward after
    | some pc =>
      rw [if_pos (Option.isSome_some)]
      apply wp_mono ((runs.onward pc).pushLabel _) _ fun _ _ => id
      intro _ u runs
      rw [if_neg fun both => nomatch both.2]
      exact runs

end Openings

theorem blockResults_single {blockType : Byte} : blockResults blockType ≤ 1 := by
  unfold blockResults
  split <;> decide

/-! ### Constructs -/

/-- With this fuel, what the meaning gives is what the machine comes to. -/
def Simulates (p : Program) (h : HostFunctions n σ) (fuel : Nat) : Prop :=
  ∀ loops labels body c x s pc stop ended, (p.env h).eval fuel labels body c = some ended →
    Reader.IsBody p.code pc body stop → Runs x pc c s → x.Sound loops labels → body.supported loops →
    Arrives p h (Meets x stop ended) s

/-- The same for a loop that stands at the beginning of its body, with its label in place. -/
def Repeats (p : Program) (h : HostFunctions n σ) (fuel : Nat) : Prop :=
  ∀ loops labels blockType body rest c x s start last after stop ended,
    (p.env h).eval fuel labels (.loop blockType body rest) c = some ended → Reader.IsBody p.code start body last →
    Reader.fetch p.code last = .ok .endOp after → Reader.IsBody p.code after rest stop →
    Runs (x.inner (loopLabel start (c.operands ++ x.under)) c.operands) start { c with operands := [] } s →
    x.Sound loops labels → (Body.loop blockType body rest).supported loops → Arrives p h (Meets x stop ended) s

section Constructs
variable {x : Setting} {loops : List Bool} {labels : List Nat} {pc stop last after arity : Nat} {c c' : Config n σ}
  {label : Label} {operands : List Word} {ended ended' : Ended n σ} {later : Config n σ → Option (Ended n σ)}

theorem Setting.Sound.levels_ne (sound : x.Sound loops labels) : x.levels ≠ [] := by
  intro none_
  have some_ := sound.loops
  rw [none_, List.map_nil, eq_comm, List.append_eq_nil_iff] at some_
  cases some_.2

/-- How a construct around the code takes its exits: `closes` at its end, `zero` at its own label. -/
theorem Arrives.settled (inner : Arrives p h (Meets (x.inner label operands) last ended) s)
    (settled : settleExit arity operands later ended = some ended')
    (closes : ∀ c t, Runs (x.inner label operands) last c t → c.operands.length = arity →
      later { c with operands := c.operands ++ operands } = some ended' → Arrives p h (Meets x stop ended') t)
    (zero : ∀ c, ended = (.branches 0, c) → later { c with operands := c.operands ++ operands } = some ended' →
      Arrives p h (Meets x stop ended') s) : Arrives p h (Meets x stop ended') s := by
  obtain ⟨exit, c⟩ := ended
  cases exit with
  | fallsThrough =>
    simp only [settleExit] at settled
    split at settled
    · next exact_ =>
      refine inner.bind (fun t meets => ?_) nofun nofun
      cases meets with
      | falls runs => exact closes c t runs exact_ settled
    · cases settled
  | branches depth =>
    cases depth with
    | zero => exact zero c rfl settled
    | succ depth =>
      cases settled
      exact inner.mono fun e meets => meets.further
  | returns =>
    cases settled
    exact inner.mono fun e meets => meets.returns
  | traps kind =>
    cases settled
    exact inner.mono fun e meets => meets.traps rfl rfl

/-- The end of a construct in one step. -/
theorem Arrives.closed {Q : Event n σ → Prop} (runs : Runs (x.inner label operands) last c s) (more : x.levels ≠ [])
    (closed : Reader.fetch p.code last = .ok .endOp after) (height : label.stackDepth = (operands ++ x.under).length)
    (few : label.resultCount ≤ 1) (exact_ : c.operands.length = label.resultCount)
    (onward : ∀ t, Runs x after { c with operands := c.operands ++ operands } t → Arrives p h Q t) : Arrives p h Q s := by
  have here : s.pc = last := runs.shown.pc
  rw [← here] at closed
  apply Arrives.of_step
  have stepped : step p h s = execEnd { s with pc := after } := step_fetched closed
  have ran := (runs.onward after).closes (E := Halts p Q) more height few exact_
  unfold wp at ran ⊢
  rw [stepped]
  split at ran
  · next outcome t done =>
    obtain ⟨rfl, runs⟩ := ran
    exact ⟨fun _ => onward t runs, nofun⟩
  · exact ran

/-- A block entered at `s`: what its body does, and what follows it. -/
theorem Arrives.block {start : Nat} {body rest : Body} {blockType : Byte} (ih : Simulates p h fuel)
    (ran : (p.env h).eval fuel (blockResults blockType :: labels) body { c with operands := [] } = some ended)
    (settled : settleExit (blockResults blockType) operands ((p.env h).eval fuel labels rest) ended = some ended')
    (isBody : Reader.IsBody p.code start body last)
    (runs : Runs (x.inner (blockLabel after blockType (operands ++ x.under)) operands) start { c with operands := [] } s)
    (sound : x.Sound loops labels) (supported : body.supported (false :: loops)) (supported' : rest.supported loops)
    (closes : ∀ c t, Runs (x.inner (blockLabel after blockType (operands ++ x.under)) operands) last c t →
      c.operands.length = blockResults blockType → (∀ u, Runs x after { c with operands := c.operands ++ operands } u →
        Arrives p h (Meets x stop ended') u) → Arrives p h (Meets x stop ended') t)
    (isBody' : Reader.IsBody p.code after rest stop) : Arrives p h (Meets x stop ended') s := by
  have sound' : (x.inner (blockLabel after blockType (operands ++ x.under)) operands).Sound (false :: loops)
      (blockResults blockType :: labels) := sound.inner rfl ⟨blockResults_single, nofun⟩
  have inner := ih _ _ _ _ _ _ _ _ _ ran isBody runs sound' supported
  apply inner.settled settled
  · intro c t runs exact_ ran
    exact closes c t runs exact_ fun u runs => ih _ _ _ _ _ _ _ _ _ ran isBody' runs sound supported'
  · rintro c rfl ran
    refine inner.bind (fun t meets => ?_) nofun nofun
    cases meets with
    | again there isLoop =>
      cases there
      cases isLoop
    | out there _ _ runs =>
      cases there
      exact ih _ _ _ _ _ _ _ _ _ ran isBody' (Runs.outer runs) sound supported'

theorem Repeats.succ (ih : Simulates p h fuel) (ih' : Repeats p h fuel) : Repeats p h (fuel + 1) := by
  intro loops labels blockType body rest c x s start last after stop ended ran isBody closed isBody' runs sound supported
  rw [Env.eval_loop] at ran
  obtain ⟨ended₁, ran, settled⟩ := Option.bind_eq_some_iff.mp ran
  have parts := supported
  simp only [Body.supported, Bool.and_eq_true, decide_eq_true_eq] at parts
  obtain ⟨⟨none_, inside⟩, behind⟩ := parts
  have sound' : (x.inner (loopLabel start (c.operands ++ x.under)) c.operands).Sound (true :: loops) (0 :: labels) :=
    sound.inner rfl ⟨Nat.zero_le 1, fun _ => rfl⟩
  have inner := ih _ _ _ _ _ _ _ _ _ ran isBody runs sound' inside
  rw [none_] at settled
  unfold settleLoop at settled
  split at settled
  · next c' =>
    refine inner.bind (fun t meets => ?_) nofun nofun
    cases meets with
    | again there _ empty runs =>
      cases there
      obtain ⟨operands', locals, memory, host⟩ := c'
      cases empty
      exact ih' _ _ _ _ _ _ _ _ _ _ _ _ _ settled isBody closed isBody' runs sound supported
    | out there _ block =>
      cases there
      cases block
  · next other =>
    apply inner.settled settled
    · intro c' t runs exact_ ran
      exact Arrives.closed runs sound.levels_ne closed rfl (Nat.zero_le 1) exact_ fun u runs =>
        ih _ _ _ _ _ _ _ _ _ ran isBody' runs sound behind
    · rintro c' rfl
      exact absurd rfl (other c')

/-! ### Calls -/

/-- The setting of a function that is entered from these stacks. -/
def Setting.entered (z : Stacks n σ) (f : Function) (body : FuncBody) (target : BitVec 32) (returnPc : Nat) (rest : List Word) :
    Setting where
  levels := [⟨f.label body rest, rest⟩]
  under := rest
  base := rest
  frame := f.frame target returnPc z rest
  outer := z.labels
  callers := z.frames
  locals := z.locals

/-- An event that agrees with what a call gives. -/
inductive CallEnds (z : Stacks n σ) (returnPc : Nat) (rest : List Word) :
    Except TrapKind (List Word) × LinearMemory n × σ → Event n σ → Prop
  | returned {vals : List Word} {memory : LinearMemory n} {host : σ} {t : Machine n σ} (called : z.frames ≠ [])
      (shown : Shown { z with pc := returnPc, operands := vals ++ rest, memory, host } t) :
      CallEnds z returnPc rest (.ok vals, memory, host) (.reaches t)
  | finished {vals : List Word} {memory : LinearMemory n} {host : σ} {t : Machine n σ} (outermost : z.frames = [])
      (sameMemory : t.memory = memory) (sameHost : t.host = host) :
      CallEnds z returnPc rest (.ok vals, memory, host) (.done vals.head? t)
  | trapped {kind : TrapKind} {memory : LinearMemory n} {host : σ} {t : Machine n σ} (sameMemory : t.memory = memory)
      (sameHost : t.host = host) : CallEnds z returnPc rest (.error kind, memory, host) (.traps kind t)

section Calls
variable {z : Stacks n σ} {f : Function} {body : FuncBody} {target : BitVec 32} {start returnPc : Nat} {args rest : List Word}
  {answer : Except TrapKind (List Word) × LinearMemory n × σ}

theorem Meets.ends {e : Event n σ} (meets : Meets (Setting.entered z f body target returnPc rest) stop (.returns, c) e) :
    CallEnds z returnPc rest (.ok c.operands, c.memory, c.host) e := by
  cases meets with
  | returned called shown => exact .returned called { shown with }
  | finished outermost memory host => exact .finished outermost memory host

theorem Runs.entered {t : Machine n σ} (shown : Shown { z with
      pc := start, operands := rest, labels := f.label body rest :: z.labels
      frames := f.frame target returnPc z rest :: z.frames
      locals := z.locals ++ (args.reverse ++ List.replicate f.declared 0) } t) (supplied : args.length = f.type.paramCount) :
    Runs (Setting.entered z f body target returnPc rest) start (Env.enter f args.reverse z.memory z.host) t where
  shown := shown
  localsBase := rfl
  localCount := by
    show _ = (_ ++ _ : List Word).length
    rw [List.length_append, List.length_reverse, supplied, List.length_replicate]
    rfl
  labelBase := rfl

theorem Setting.entered_sound (single : f.type.resultCount ≤ 1) :
    (Setting.entered z f body target returnPc rest).Sound [] [f.type.resultCount] where
  arities := rfl
  loops := rfl
  heights := by
    intro l member
    obtain rfl := List.mem_singleton.mp member
    exact ⟨rfl, List.suffix_refl _⟩
  single := by
    intro l member
    obtain rfl := List.mem_singleton.mp member
    exact ⟨single, nofun⟩
  top := by
    rintro l ⟨⟩
    rfl
  base := List.suffix_refl _
  height := rfl
  results := rfl

/-- A function that stands at its start gives what it means. -/
theorem Arrives.called (ih : Simulates p h fuel) (supported : p.Supported) (known : p.function target = some f)
    (defines : p.Defines target f body start last after)
    (ran : (p.env h).eval fuel [f.type.resultCount] f.body c = some ended)
    (settled : settleCall f.type.resultCount ended = some answer)
    (runs : Runs (Setting.entered z f body target returnPc rest) start c s) :
    Arrives p h (CallEnds z returnPc rest answer) s := by
  obtain ⟨plain, single⟩ := supported target f known
  have sound : (Setting.entered z f body target returnPc rest).Sound [] [f.type.resultCount] := Setting.entered_sound single
  have inner := ih _ _ _ _ _ _ _ _ _ ran defines.read runs sound plain
  unfold settleCall at settled
  split at settled
  · next c' =>
    split at settled
    · next exact_ =>
      cases settled
      refine inner.bind (fun t meets => ?_) nofun nofun
      cases meets with
      | falls runs =>
        have closed := defines.closed
        have here : t.pc = last := runs.shown.pc
        rw [← here] at closed
        have carried : c'.carrying f.type.resultCount = some c' := by
          unfold Config.carrying
          rw [if_pos (Nat.le_of_eq exact_.symm), List.take_of_length_le (Nat.le_of_eq exact_)]
        have stepped : step p h t = execEnd { t with pc := after } := step_fetched closed
        have left := (runs.onward after).leaves sound rfl carried last
          (Halts p (CallEnds z returnPc rest (.ok c'.operands, c'.memory, c'.host)))
        have left := ((runs.onward after).execEnd (List.cons_ne_nil _ _)).mpr ((if_pos rfl).mpr left)
        apply Arrives.of_step
        unfold wp at left ⊢
        rw [stepped]
        split at left
        · exact ⟨fun next => .here (left.1 next).ends, fun result done => (left.2 result done).ends⟩
        · exact left
    · cases settled
  · next c' =>
    cases settled
    refine inner.bind (fun t meets => ?_) nofun nofun
    cases meets with
    | again there isLoop =>
      cases there
      cases isLoop
    | out _ inside => exact absurd inside (Nat.lt_irrefl 1)
  · next c' =>
    cases settled
    exact inner.mono fun e meets => meets.ends
  · cases settled
  · next kind c' =>
    cases settled
    exact inner.mono fun e meets => by
      cases meets with
      | trapped memory host => exact .trapped memory host

end Calls

end Constructs

/-! ### Instructions -/

section Flat
variable {x : Setting} {loops : List Bool} {labels : List Nat} {pc next stop : Nat} {c : Config n σ} {rest : Body}
  {ended : Ended n σ} (ih : Simulates p h fuel) (isBody : Reader.IsBody p.code next rest stop) (sound : x.Sound loops labels)
include ih isBody sound

/-- An instruction that neither branches nor calls. -/
theorem Arrives.applied {instr : Instr} (behind : rest.supported loops) (runs : Runs x pc c s)
    (fetched : Reader.fetch p.code pc = .ok instr next) (goes : instr.goesOn)
    (ran : (match c.apply instr with
      | some (.ok c) => (p.env h).eval fuel labels rest c
      | some (.error kind) => some (.traps kind, c)
      | none => none) = some ended) : Arrives p h (Meets x stop ended) s := by
  have here : s.pc = pc := runs.shown.pc
  rw [← here] at fetched
  apply Arrives.of_exec fetched goes
  split at ran
  · next c' applied =>
    apply wp_mono ((runs.onward next).apply applied)
    · rintro _ t ⟨_, ⟨⟩, runs⟩
      exact ih _ _ _ _ _ _ _ _ _ ran isBody runs sound behind
    · rintro stop' t (limited | ⟨_, ⟨⟩, _⟩)
      exact limited.halts
  · next kind applied =>
    cases ran
    apply wp_mono ((runs.onward next).apply applied)
    · rintro _ t ⟨_, ⟨⟩, _⟩
    · rintro stop' t (limited | ⟨_, ⟨⟩, rfl, memory, host⟩)
      · exact limited.halts
      · exact ⟨kind, rfl, .inr (.trapped memory host)⟩
  · cases ran

omit ih isBody in
theorem Arrives.br {depth : BitVec 32} (runs : Runs x pc c s) (fetched : Reader.fetch p.code pc = .ok (.br depth) next)
    (goes : loops[depth.toNat]? = some false ∨ depth.toNat = 0 ∧ loops[depth.toNat]? = some true)
    (ran : (p.env h).eval (fuel + 1) labels (.flat (.br depth) rest) c = some ended) : Arrives p h (Meets x stop ended) s := by
  rw [Env.eval_br] at ran
  obtain ⟨arity, known, ran⟩ := Option.bind_eq_some_iff.mp ran
  obtain ⟨c', carried, ran⟩ := Option.bind_eq_some_iff.mp ran
  cases ran
  have here : s.pc = pc := runs.shown.pc
  rw [← here] at fetched
  apply Arrives.of_exec fetched rfl
  exact wp_mono ((runs.onward next).doBranch sound known carried goes) (fun _ t meets => .here meets) fun _ _ => id

theorem Arrives.brIf {depth : BitVec 32} (behind : rest.supported loops) (runs : Runs x pc c s)
    (fetched : Reader.fetch p.code pc = .ok (.brIf depth) next)
    (goes : loops[depth.toNat]? = some false ∨ depth.toNat = 0 ∧ loops[depth.toNat]? = some true)
    (ran : (p.env h).eval (fuel + 1) labels (.flat (.brIf depth) rest) c = some ended) : Arrives p h (Meets x stop ended) s := by
  cases operands : c.operands with
  | nil =>
    obtain ⟨_, locals, memory, host⟩ := c
    cases operands
    cases ran
  | cons cond operands' =>
    rw [Env.eval_brIf _ operands] at ran
    have here : s.pc = pc := runs.shown.pc
    rw [← here] at fetched
    apply Arrives.of_exec fetched rfl
    rw [execSimple, wp_bind]
    apply wp_mono ((runs.onward next).popU32 operands) _ fun _ _ => id
    rintro _ t ⟨rfl, runs⟩
    rw [wp_ite]
    split
    · next taken =>
      rw [if_pos taken] at ran
      obtain ⟨arity, known, ran⟩ := Option.bind_eq_some_iff.mp ran
      obtain ⟨c', carried, ran⟩ := Option.bind_eq_some_iff.mp ran
      cases ran
      exact wp_mono (runs.doBranch sound known carried goes) (fun _ t meets => .here meets) fun _ _ => id
    · next not =>
      rw [if_neg not] at ran
      exact ih _ _ _ _ _ _ _ _ _ ran isBody runs sound behind

omit ih isBody in
theorem Arrives.returnOp (runs : Runs x pc c s) (fetched : Reader.fetch p.code pc = .ok .returnOp next)
    (ran : (p.env h).eval (fuel + 1) labels (.flat .returnOp rest) c = some ended) : Arrives p h (Meets x stop ended) s := by
  rw [Env.eval_returnOp] at ran
  obtain ⟨arity, known, ran⟩ := Option.bind_eq_some_iff.mp ran
  obtain ⟨c', carried, ran⟩ := Option.bind_eq_some_iff.mp ran
  cases ran
  have here : s.pc = pc := runs.shown.pc
  have deep := (frameDepth_of_running (runs.shown.running rfl)).1
  rw [← here] at fetched
  have stepped : step p h s = execReturn { s with pc := next } := step_fetched fetched
  have left := (runs.onward next).leaves sound known carried stop (Halts p (Meets x stop (.returns, c')))
  apply Arrives.of_step
  have returned : wp execReturn (fun outcome t => (outcome = .next → Meets x stop (.returns, c') (.reaches t)) ∧
      ∀ result, outcome = .done result → Meets x stop (.returns, c') (.done result t))
      (Halts p (Meets x stop (.returns, c'))) ({ s with pc := next } : Machine n σ) := by
    unfold execReturn
    rw [wp_bind, wp_get, wp_ite, if_neg (by show ¬ s.frameDepth = 0; omega)]
    exact left
  unfold wp at returned ⊢
  rw [stepped]
  split at returned
  · exact ⟨fun goes => .here (returned.1 goes), returned.2⟩
  · exact returned

theorem Arrives.imported {target : BitVec 32} {type : FuncType} (fitting : p.Fitting) (behind : rest.supported loops)
    (runs : Runs x pc c s) (fetched : Reader.fetch p.code pc = .ok (.call target) next) (imported : target < p.numImports)
    (known : p.signature target = some type)
    (ran : (match c.callHost h target type with
      | some (.ok c) => (p.env h).eval fuel labels rest c
      | some (.error kind) => some (.traps kind, { c with
          memory := (h.call c.host target (c.operands.take type.paramCount).reverse c.memory).2.2
          host := (h.call c.host target (c.operands.take type.paramCount).reverse c.memory).2.1 })
      | none => none) = some ended) : Arrives p h (Meets x stop ended) s := by
  have here : s.pc = pc := runs.shown.pc
  rw [← here] at fetched
  have few := (fitting target type known).1
  apply Arrives.of_exec fetched rfl
  rw [execSimple, execCall, if_pos imported]
  unfold Config.callHost at ran
  by_cases supplied : type.paramCount ≤ c.operands.length
  · obtain ⟨result, host, memory, answer⟩ : ∃ result host memory,
        h.call c.host target (c.operands.take type.paramCount).reverse c.memory = (result, host, memory) := ⟨_, _, _, rfl⟩
    have split_ : (x.layout next c).operands =
        c.operands.take type.paramCount ++ (c.operands.drop type.paramCount ++ x.under) := by
      rw [← List.append_assoc, List.take_append_drop]
      rfl
    have called := (runs.onward next).shown.callHost imported known few split_ (List.length_take_of_le supplied) answer
    simp only [if_pos supplied, answer] at ran
    cases result with
    | error code =>
      cases ran
      apply wp_mono called
      · rintro _ t ⟨_, ⟨⟩, _⟩
      · rintro stop' t (limited | ⟨_, ⟨⟩, rfl, sameMemory, sameHost⟩)
        · exact limited.halts
        · exact ⟨_, rfl, .inr (.trapped sameMemory sameHost)⟩
    | ok val =>
      apply wp_mono called
      · rintro _ t ⟨_, ⟨⟩, shown⟩
        exact ih _ _ _ _ _ _ _ _ _ ran isBody (runs.answered shown) sound behind
      · rintro stop' t (limited | ⟨_, ⟨⟩, _⟩)
        exact limited.halts
  · simp only [if_neg supplied] at ran
    cases ran

/-- A function of the module is entered, runs and comes back, or the machine stops in it. -/
theorem Arrives.call {target : BitVec 32} (supported : p.Supported) (module_ : p.module.Sound p.code)
    (small : p.code.length < 2 ^ 32) (behind : rest.supported loops) (runs : Runs x pc c s)
    (fetched : Reader.fetch p.code pc = .ok (.call target) next)
    (ran : ((p.function target).bind fun f => (c.carrying f.type.paramCount).bind fun args =>
        ((p.env h).eval fuel [f.type.resultCount] f.body (Env.enter f args.operands.reverse c.memory c.host)).bind fun ended =>
          (settleCall f.type.resultCount ended).bind fun answer =>
            match answer with
            | (.ok results, memory, host) =>
              (p.env h).eval fuel labels rest { c with operands := results ++ c.operands.drop f.type.paramCount, memory, host }
            | (.error kind, memory, host) => some (.traps kind, { c with memory, host })) = some ended) :
    Arrives p h (Meets x stop ended) s := by
  obtain ⟨f, known, ran⟩ := Option.bind_eq_some_iff.mp ran
  obtain ⟨args, carried, ran⟩ := Option.bind_eq_some_iff.mp ran
  obtain ⟨ended', evaluates, ran⟩ := Option.bind_eq_some_iff.mp ran
  obtain ⟨answer, settled, ran⟩ := Option.bind_eq_some_iff.mp ran
  obtain ⟨supplied, rfl⟩ := Config.carrying_eq_some carried
  obtain ⟨body, start, last, after, defines⟩ := Program.function_defines known
  have here : s.pc = pc := runs.shown.pc
  rw [← here] at fetched
  have split_ : (x.layout next c).operands =
      c.operands.take f.type.paramCount ++ (c.operands.drop f.type.paramCount ++ x.under) := by
    rw [← List.append_assoc, List.take_append_drop]
    rfl
  have running : ({ s with pc := next } : Machine n σ).nextLocal = (x.layout next c).locals.length := by
    have found := (runs.onward next).shown.running rfl
    unfold Interpreter.nextLocal
    rw [found]
    exact runs.windows
  apply Arrives.of_exec fetched rfl
  rw [execSimple, execCall, if_neg defines.isLocal.1, wp_bind, wp_get]
  have entered := (runs.onward next).shown.enterFunction known defines module_ small running split_
    (List.length_take_of_le supplied) next
  apply wp_mono entered _ fun _ _ limited => limited.halts
  intro _ t entered
  have begun := Runs.entered entered (List.length_take_of_le supplied)
  apply (Arrives.called ih supported known defines evaluates settled begun).bind
  · intro u ends
    cases ends with
    | @returned vals memory host _ called shown =>
      exact ih _ _ _ _ _ _ _ _ _ ran isBody (runs.answered shown) sound behind
  · intro result u ends
    cases ends with
    | finished outermost => cases outermost
  · intro kind u ends
    cases ends with
    | trapped sameMemory sameHost =>
      cases ran
      exact .trapped sameMemory sameHost

end Flat

/-! ### Whole bodies -/

section Bodies
variable {x : Setting} {loops : List Bool} {labels : List Nat} {pc stop : Nat} {c : Config n σ} {body : Body}
  {ended : Ended n σ} (supported : p.Supported) (module_ : p.module.Sound p.code) (fitting : p.Fitting)
  (small : p.code.length < 2 ^ 32)
include supported module_ fitting small

/-- One instruction or construct more. -/
theorem Simulates.succ (ih : Simulates p h fuel) (ih' : Repeats p h (fuel + 1)) : Simulates p h (fuel + 1) := by
  intro loops labels body c x s pc stop ended ran isBody runs sound plain
  have here : s.pc = pc := runs.shown.pc
  cases isBody with
  | done =>
    cases ran
    exact .here (.falls runs)
  | @flat _ next _ instr rest fetched flat _ later =>
    have both := plain
    simp only [Body.supported, Bool.and_eq_true] at both
    obtain ⟨goes, behind⟩ := both
    cases instr with
    | br depth => exact Arrives.br sound runs fetched (of_decide_eq_true goes) ran
    | brIf depth => exact Arrives.brIf ih later sound behind runs fetched (of_decide_eq_true goes) ran
    | returnOp => exact Arrives.returnOp sound runs fetched ran
    | call target =>
      rw [Env.eval_call] at ran
      by_cases imported : target < p.numImports
      · have same : (p.env h).imported target = p.signature target := if_pos imported
        rw [same] at ran
        cases known : p.signature target with
        | some type =>
          rw [known] at ran
          exact Arrives.imported ih later sound fitting behind runs fetched imported known ran
        | none =>
          rw [known] at ran
          obtain ⟨f, found, -⟩ := Option.bind_eq_some_iff.mp ran
          obtain ⟨_, _, _, _, defines⟩ := Program.function_defines found
          exact absurd imported defines.isLocal.1
      · have same : (p.env h).imported target = none := if_neg imported
        rw [same] at ran
        exact Arrives.call ih later sound supported module_ small behind runs fetched ran
    | block | loop | ifOp | elseOp | endOp => cases flat
    | _ => exact Arrives.applied ih later sound behind runs fetched rfl ran
  | @block _ start last after _ blockType body rest fetched inner closed later =>
    rw [Env.eval_block] at ran
    obtain ⟨ended', ran, settled⟩ := Option.bind_eq_some_iff.mp ran
    have both := plain
    simp only [Body.supported, Bool.and_eq_true] at both
    rw [← here] at fetched
    have extent := Reader.closed_inside closed
    apply Arrives.of_exec fetched rfl
    apply wp_mono ((runs.onward start).execBlock (.plain inner.stretch closed) (by omega)) _ fun _ _ limited => limited.halts
    intro _ t runs
    exact Arrives.block ih ran settled inner runs sound both.1 both.2
      (fun _ _ runs exact_ onward => Arrives.closed runs sound.levels_ne closed rfl blockResults_single exact_ onward) later
  | @loop _ start last after _ blockType body rest fetched inner closed later =>
    rw [← here] at fetched
    apply Arrives.of_exec fetched rfl
    apply wp_mono (runs.onward start).execLoop _ fun _ _ limited => limited.halts
    intro _ t runs
    exact ih' _ _ _ _ _ _ _ _ _ _ _ _ _ ran inner closed later runs sound plain
  | @ifThen _ start last after _ blockType body rest fetched inner closed later =>
    cases operands : c.operands with
    | nil =>
      obtain ⟨_, locals, memory, host⟩ := c
      cases operands
      cases ran
    | cons cond operands' =>
      rw [Env.eval_ifThen _ operands] at ran
      have parts := plain
      simp only [Body.supported, Bool.and_eq_true] at parts
      rw [← here] at fetched
      have extent := Reader.closed_inside closed
      apply Arrives.of_exec fetched rfl
      apply wp_mono ((runs.onward start).execIf operands (.plain inner.stretch closed) (by omega)) _
        fun _ _ limited => limited.halts
      intro _ t runs
      by_cases taken : Meaning.low cond ≠ 0
      · rw [if_pos taken] at ran
        rw [if_neg fun both => taken both.1, if_pos taken] at runs
        obtain ⟨ended', ran, settled⟩ := Option.bind_eq_some_iff.mp ran
        exact Arrives.block ih ran settled inner runs sound parts.1.2 parts.2 (fun _ _ runs exact_ onward =>
          Arrives.closed runs sound.levels_ne closed rfl blockResults_single exact_ onward) later
      · rw [if_neg taken] at ran
        rw [if_pos ⟨Decidable.not_not.mp taken, rfl⟩] at runs
        exact ih _ _ _ _ _ _ _ _ _ ran later runs sound parts.2
  | @ifElse _ start last other last' after _ blockType body body' rest fetched inner turned inner' closed later =>
    cases operands : c.operands with
    | nil =>
      obtain ⟨_, locals, memory, host⟩ := c
      cases operands
      cases ran
    | cons cond operands' =>
      rw [Env.eval_ifElse _ operands] at ran
      have parts := plain
      simp only [Body.supported, Bool.and_eq_true] at parts
      obtain ⟨ended', ran, settled⟩ := Option.bind_eq_some_iff.mp ran
      rw [← here] at fetched
      have extent := Reader.closed_inside closed
      apply Arrives.of_exec fetched rfl
      apply wp_mono ((runs.onward start).execIf operands (.withElse inner.stretch turned inner'.stretch closed) (by omega)) _
        fun _ _ limited => limited.halts
      intro _ t runs
      rw [if_neg fun both => nomatch both.2] at runs
      by_cases taken : Meaning.low cond ≠ 0
      · rw [if_pos taken] at ran runs
        -- the first branch ends at the `else`, which goes behind the `end`
        refine Arrives.block ih ran settled inner runs sound parts.1.1 parts.2 (fun c t runs exact_ onward => ?_) later
        have here : t.pc = last := runs.shown.pc
        have turned := turned
        rw [← here] at turned
        apply Arrives.of_exec turned rfl
        exact wp_mono ((runs.onward other).turns rfl blockResults_single exact_) (fun _ u runs => onward u runs) fun _ _ => id
      · rw [if_neg taken] at ran runs
        exact Arrives.block ih ran settled inner' runs sound parts.1.2 parts.2 (fun _ _ runs exact_ onward =>
          Arrives.closed runs sound.levels_ne closed rfl blockResults_single exact_ onward) later

theorem simulates (fuel : Nat) : Simulates p h fuel ∧ Repeats p h fuel := by
  induction fuel with
  | zero => exact ⟨nofun, nofun⟩
  | succ fuel ih =>
    have repeats := Repeats.succ ih.1 ih.2
    exact ⟨Simulates.succ supported module_ fitting small ih.1 repeats, repeats⟩

end Bodies

/-! ### Calls from outside -/

theorem Shown.pushArgs {z : Stacks n σ} (shown : Shown z s) (args : List Word) :
    wp (pushArgs args) (fun _ t => Shown { z with operands := args.reverse ++ z.operands } t) (Limited p) s := by
  induction args generalizing s z with
  | nil => exact shown
  | cons arg rest ih =>
    rw [Wasm.pushArgs, wp_bind]
    apply wp_mono (shown.push arg) _ fun _ _ => id
    intro _ t shown
    rw [List.reverse_cons, List.append_assoc]
    exact ih shown

/-- The outermost function ends the run. -/
theorem Arrives.answers {z : Stacks n σ} {result : Except TrapKind (List Word)} {memory : LinearMemory n} {host : σ}
    (arrives : Arrives p h (CallEnds z 0 [] (result, memory, host)) s) (outermost : z.frames = []) :
    ∃ enough, ∀ rounds, enough ≤ rounds → wp (Wasm.run p h rounds)
      (fun outcome t => ∃ vals, result = .ok vals ∧ outcome = .done vals.head? ∧ t.memory = memory ∧ t.host = host)
      (fun stop t => ∃ kind, stop = .error kind ∧
        (AtLimit p kind t ∨ result = .error kind ∧ t.memory = memory ∧ t.host = host)) s := by
  obtain ⟨enough, ran⟩ := arrives.run fun t ends => by
    cases ends with
    | returned called => exact called outermost
  refine ⟨enough, fun rounds above => wp_mono (ran rounds above) ?_ ?_⟩
  · rintro _ w ⟨r, rfl, ends⟩
    cases ends with
    | @finished vals => exact ⟨vals, rfl, rfl, ‹_›, ‹_›⟩
  · rintro _ w ⟨kind, rfl, limit | ends⟩
    · exact ⟨kind, rfl, .inl limit⟩
    · cases ends with
      | trapped sameMemory sameHost => exact ⟨kind, rfl, .inr ⟨rfl, sameMemory, sameHost⟩⟩

/-- Whatever a function of a supported module means, the interpreter gives the same with rounds enough: its results, memory
and host, or its trap, unless one of its arrays is full before. -/
theorem runs_as_meant (accepted : parse p.code = .ok p.module) (small : p.code.length < 2 ^ 32) (supported : p.Supported)
    (idle : s.sp = 0 ∧ s.frameDepth = 0 ∧ s.labelDepth = 0) {target : BitVec 32} {args : List Word}
    {result : Except TrapKind (List Word)} {memory : LinearMemory n} {host : σ}
    (meant : (p.env h).call fuel target args s.memory s.host = some (result, memory, host)) :
    ∃ enough, ∀ rounds, enough ≤ rounds → wp (callFunction p h target args rounds)
      (fun outcome t => ∃ vals, result = .ok vals ∧ outcome = .done vals.head? ∧ t.memory = memory ∧ t.host = host)
      (fun stop t => ∃ kind, stop = .error kind ∧
        (AtLimit p kind t ∨ result = .error kind ∧ t.memory = memory ∧ t.host = host)) s := by
  have module_ := sound_of_parse accepted
  obtain ⟨f, known, meant⟩ := Option.bind_eq_some_iff.mp meant
  split at meant
  case isFalse => cases meant
  next supplied =>
  obtain ⟨ended, evaluates, settled⟩ := Option.bind_eq_some_iff.mp meant
  obtain ⟨body, start, last, after, defines⟩ := Program.function_defines known
  obtain ⟨empty, outside, unlabelled⟩ := idle
  have shown : Shown ⟨s.pc, [], [], [], [], s.memory, s.host⟩ s := {
    pc := rfl, operands := empty ▸ .nil, labels := unlabelled ▸ .nil, frames := outside ▸ .nil, locals := nofun
    memory := rfl, host := rfl }
  have pushed := shown.pushArgs (p := p) args
  cases pushes : pushArgs args s with
  | error stop u =>
    refine ⟨0, fun rounds _ => ?_⟩
    unfold wp callFunction
    rw [bind_stop pushes]
    unfold wp at pushed
    rw [pushes] at pushed
    obtain ⟨kind, rfl, limit⟩ := pushed
    exact ⟨kind, rfl, .inl limit⟩
  | ok _ u =>
    rw [wp_ok pushes, List.append_nil] at pushed
    have none_ : u.nextLocal = 0 := by
      have depth := pushed.frames.depth
      have idle : u.running = none := if_neg (by rw [depth]; exact Nat.lt_irrefl 0)
      unfold Interpreter.nextLocal
      rw [idle]
    have entered := pushed.enterFunction known defines module_ small none_ (List.append_nil _).symm
      (List.length_reverse.trans supplied) 0
    cases enters : enterFunction p target 0 u with
    | error stop v =>
      refine ⟨0, fun rounds _ => ?_⟩
      unfold callFunction
      rw [wp_bind_ok pushes]
      unfold wp at entered ⊢
      rw [enters] at entered
      rw [bind_stop enters]
      obtain ⟨kind, rfl, limit⟩ := entered
      exact ⟨kind, rfl, .inl limit⟩
    | ok _ v =>
      rw [wp_ok enters] at entered
      have begun := Runs.entered entered (List.length_reverse.trans supplied)
      rw [List.reverse_reverse] at begun
      have arrives := Arrives.called (simulates supported module_ (fitting_of_parse accepted) small fuel).1 supported known
        defines evaluates settled begun
      obtain ⟨enough, ran⟩ := arrives.answers rfl
      refine ⟨enough, fun rounds above => ?_⟩
      unfold callFunction
      rw [wp_bind_ok pushes, wp_bind_ok enters]
      exact ran rounds above

/-! ### The check of a module -/

/-- The condition on bodies, function by function. -/
def Program.supported (p : Program) : Bool :=
  (List.range p.module.funcCount).all fun i => (p.function (BitVec.ofNat 32 (p.numImports.toNat + i))).all fun f =>
    f.body.supported [] ∧ f.type.resultCount ≤ 1

theorem Program.supported_sound (checked : p.supported) : p.Supported := by
  intro target f known
  obtain ⟨_, _, _, _, defines⟩ := Program.function_defines known
  obtain ⟨own, has⟩ := defines.isLocal
  have low : p.numImports.toNat ≤ target.toNat := Nat.le_of_not_lt own
  have one := List.all_eq_true.mp checked (target.toNat - p.numImports.toNat) (List.mem_range.mpr (by omega))
  rw [show p.numImports.toNat + (target.toNat - p.numImports.toNat) = target.toNat by omega, BitVec.ofNat_toNat,
    BitVec.setWidth_eq, known] at one
  exact of_decide_eq_true one

/-- The sum of the numbers up to its argument: a loop in a block, left by a branch from inside the loop. -/
def triangle : List Byte :=
  wasmMagic ++ wasmVersion ++ Section.bytes (secType, [0x01, 0x60, 0x01, 0x7F, 0x01, 0x7F]) ++
    Section.bytes (secFunction, [0x01, 0x00]) ++
    Section.bytes (secCode, [0x01] ++ counted ([0x01, 0x01, 0x7F] ++
      [0x02, 0x40, 0x03, 0x40, 0x20, 0x00, 0x45, 0x0D, 0x01, 0x20, 0x01, 0x20, 0x00, 0x6A, 0x21, 0x01] ++
      [0x20, 0x00, 0x41, 0x01, 0x6B, 0x21, 0x00, 0x0C, 0x00, 0x0B, 0x0B, 0x20, 0x01, 0x0B]))

theorem runs_as_meant_triangle : ∃ enough, ∀ rounds, enough ≤ rounds →
    wp (callFunction (loaded triangle) (noHost 0) 0 [4] rounds) (fun outcome _ => outcome = .done (some 10))
      (fun stop t => Limited (loaded triangle) stop t) ({ memory := nofun, host := () } : Machine 0 Unit) := by
  have computed : accepts triangle ∧ (loaded triangle).supported ∧ triangle.length < 2 ^ 32 ∧
      (((loaded triangle).env (noHost 0)).call 40 0 [4] ({ memory := nofun, host := () } : Machine 0 Unit).memory ()).map
        Prod.fst = some (.ok [10]) := by
    decide +kernel
  obtain ⟨accepted, supported, small, meant⟩ := computed
  have idle : ({ memory := nofun, host := () } : Machine 0 Unit).sp = 0 ∧
      ({ memory := nofun, host := () } : Machine 0 Unit).frameDepth = 0 ∧
      ({ memory := nofun, host := () } : Machine 0 Unit).labelDepth = 0 := ⟨rfl, rfl, rfl⟩
  generalize ({ memory := nofun, host := () } : Machine 0 Unit) = s at *
  generalize loaded_ : loaded triangle = p at *
  obtain ⟨⟨result, memory, host⟩, meant, rfl⟩ := Option.map_eq_some_iff.mp meant
  have parsed := parse_loaded accepted
  rw [loaded_] at parsed
  obtain ⟨enough, ran⟩ := runs_as_meant parsed (loaded_ ▸ small) (Program.supported_sound supported) idle meant
  refine ⟨enough, fun rounds above => ?_⟩
  apply wp_mono (ran rounds above)
  · rintro _ t ⟨_, ⟨⟩, done, -⟩
    exact done
  · rintro _ t ⟨kind, rfl, limit | ⟨⟨⟩, _⟩⟩
    exact ⟨kind, rfl, limit⟩

end GooseOs.Wasm
