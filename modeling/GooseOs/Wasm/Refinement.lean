import GooseOs.Wasm.Settings

/-!
The interpreter runs structured code as it is meant. Whatever the code comes to, the machine comes to the same, unless it
stops at one of its limits before.
-/

namespace GooseOs.Wasm

open FixedArray

variable {n : Nat} {σ : Type} {p : Program} {h : HostFunctions n σ} {s t : Machine n σ}

/-- What running comes to: a state, the result of the outermost function, or a trap. -/
inductive Event (n : Nat) (σ : Type) where
  | reaches (s : Machine n σ)
  | done (result : Option Word) (s : Machine n σ)
  | traps (kind : TrapKind) (s : Machine n σ)

/-- A trap that is allowed, or a limit. -/
def Halts (p : Program) (Q : Event n σ → Prop) (stop : Stop TrapKind) (s : Machine n σ) : Prop :=
  ∃ kind, stop = .error kind ∧ (AtLimit p kind s ∨ Q (.traps kind s))

theorem Limited.halts {Q : Event n σ → Prop} {stop : Stop TrapKind} (limited : Limited p stop s) : Halts p Q stop s := by
  obtain ⟨kind, rfl, limit⟩ := limited
  exact ⟨kind, rfl, .inl limit⟩

/-- The machine comes from `s` to an event in `Q`, or to a limit. -/
inductive Arrives (p : Program) (h : HostFunctions n σ) (Q : Event n σ → Prop) : Machine n σ → Prop
  | here {s : Machine n σ} (holds : Q (.reaches s)) : Arrives p h Q s
  | next {s t : Machine n σ} (stepped : step p h s = .ok .next t) (later : Arrives p h Q t) : Arrives p h Q s
  | done {s t : Machine n σ} {result : Option Word} (stepped : step p h s = .ok (.done result) t) (holds : Q (.done result t)) :
      Arrives p h Q s
  | stops {s t : Machine n σ} {stop : Stop TrapKind} (stopped : step p h s = .error stop t) (halts : Halts p Q stop t) :
      Arrives p h Q s

namespace Arrives
variable {Q R : Event n σ → Prop}

theorem bind (first : Arrives p h Q s) (onward : ∀ t, Q (.reaches t) → Arrives p h R t)
    (done : ∀ result t, Q (.done result t) → R (.done result t)) (traps : ∀ kind t, Q (.traps kind t) → R (.traps kind t)) :
    Arrives p h R s := by
  induction first with
  | here holds => exact onward _ holds
  | next stepped _ ih => exact .next stepped ih
  | done stepped holds => exact .done stepped (done _ _ holds)
  | stops stopped halts =>
    obtain ⟨kind, rfl, either⟩ := halts
    exact .stops stopped ⟨kind, rfl, either.imp_right (traps _ _)⟩

theorem mono (first : Arrives p h Q s) (less : ∀ e, Q e → R e) : Arrives p h R s :=
  first.bind (fun _ holds => .here (less _ holds)) (fun _ _ => less _) fun _ _ => less _

theorem of_step (holds : wp (step p h) (fun outcome t => (outcome = .next → Arrives p h Q t) ∧
    ∀ result, outcome = .done result → Q (.done result t)) (Halts p Q) s) : Arrives p h Q s := by
  unfold wp at holds
  split at holds
  · next outcome t stepped =>
    cases outcome with
    | next => exact .next stepped (holds.1 rfl)
    | done result => exact .done stepped (holds.2 result rfl)
  · next stop t stopped => exact .stops stopped holds

theorem of_exec {instr : Instr} {pc : Nat} (fetched : Reader.fetch p.code s.pc = .ok instr pc) (goes : instr.goesOn)
    (holds : wp (execSimple p h instr) (fun _ t => Arrives p h Q t) (Halts p Q) { s with pc }) : Arrives p h Q s := by
  apply of_step
  have stepped : step p h s = (do execSimple p h instr; pure .next : Exec n σ Outcome) { s with pc } := by
    rw [step_fetched fetched]
    unfold exec
    split <;> first | cases goes | rfl
  have same : ∀ {Q' : Outcome → Machine n σ → Prop} {E' : Stop TrapKind → Machine n σ → Prop},
      wp (do execSimple p h instr; pure .next : Exec n σ Outcome) Q' E' { s with pc } → wp (step p h) Q' E' s := by
    intro Q' E' holds
    unfold wp at holds ⊢
    rwa [stepped]
  apply same
  rw [wp_bind]
  exact wp_mono holds (fun _ t arrives => ⟨fun _ => arrives, nofun⟩) fun _ _ => id

/-- With rounds enough, `run` gets there. -/
theorem run (arrives : Arrives p h Q s) (final : ∀ t, ¬ Q (.reaches t)) : ∃ enough, ∀ fuel, enough ≤ fuel →
    wp (run p h fuel) (fun outcome t => ∃ result, outcome = .done result ∧ Q (.done result t)) (Halts p Q) s := by
  induction arrives with
  | here holds => exact absurd holds (final _)
  | next stepped _ ih =>
    obtain ⟨enough, ran⟩ := ih
    refine ⟨enough + 1, fun fuel above => ?_⟩
    obtain ⟨fuel, rfl⟩ : ∃ k, fuel = k + 1 := ⟨fuel - 1, by omega⟩
    rw [Wasm.run, wp_bind_ok stepped]
    exact ran fuel (by omega)
  | done stepped holds =>
    refine ⟨1, fun fuel above => ?_⟩
    obtain ⟨fuel, rfl⟩ : ∃ k, fuel = k + 1 := ⟨fuel - 1, by omega⟩
    rw [Wasm.run, wp_bind_ok stepped]
    exact ⟨_, rfl, holds⟩
  | stops stopped halts =>
    refine ⟨1, fun fuel above => ?_⟩
    obtain ⟨fuel, rfl⟩ : ∃ k, fuel = k + 1 := ⟨fuel - 1, by omega⟩
    rw [Wasm.run]
    unfold wp
    rw [bind_stop stopped]
    exact halts

end Arrives

/-! ### Exits -/

/-- An event that agrees with how code is left and what it leaves. -/
inductive Meets (x : Setting) (stop : Nat) : Ended n σ → Event n σ → Prop
  | falls {c : Config n σ} {t : Machine n σ} (runs : Runs x stop c t) : Meets x stop (.fallsThrough, c) (.reaches t)
  | again {c : Config n σ} {t : Machine n σ} {l : Level} (there : x.levels.head? = some l) (isLoop : l.label.isLoop)
      (empty : c.operands = []) (runs : Runs x l.label.targetPc c t) : Meets x stop (.branches 0, c) (.reaches t)
  | out {depth : Nat} {c : Config n σ} {t : Machine n σ} {l : Level} (there : x.levels[depth]? = some l)
      (inside : depth + 1 < x.levels.length) (block : l.label.isLoop = false)
      (runs : Runs { x with levels := x.levels.drop (depth + 1), under := l.under } l.label.targetPc c t) :
      Meets x stop (.branches depth, c) (.reaches t)
  | returned {c : Config n σ} {t : Machine n σ} (called : x.callers ≠ [])
      (shown : Shown ⟨x.frame.returnPc, c.operands ++ x.base, x.outer, x.callers, x.locals, c.memory, c.host⟩ t) :
      Meets x stop (.returns, c) (.reaches t)
  | finished {c : Config n σ} {t : Machine n σ} (outermost : x.callers = []) (memory : t.memory = c.memory)
      (host : t.host = c.host) : Meets x stop (.returns, c) (.done c.operands.head? t)
  | trapped {kind : TrapKind} {c : Config n σ} {t : Machine n σ} (memory : t.memory = c.memory) (host : t.host = c.host) :
      Meets x stop (.traps kind, c) (.traps kind t)

section Exits
variable {x : Setting} {loops : List Bool} {labels : List Nat} {pc stop arity : Nat} {c c' : Config n σ} {label : Label}
  {E : Stop TrapKind → Machine n σ → Prop}

theorem Config.carrying_eq_some (carried : c.carrying arity = some c') :
    arity ≤ c.operands.length ∧ c' = { c with operands := c.operands.take arity } := by
  unfold Config.carrying at carried
  split at carried
  · next enough =>
    cases carried
    exact ⟨enough, rfl⟩
  · cases carried

/-- A construct around the code, with what is known of its label. -/
theorem Setting.Sound.level (sound : x.Sound loops labels) {k : Nat} {isLoop : Bool} (loop : loops[k]? = some isLoop)
    (known : labels[k]? = some arity) : ∃ l, x.levels[k]? = some l ∧ l.label.isLoop = isLoop ∧ l.label.resultCount = arity ∧
      k + 1 < x.levels.length ∧ l ∈ x.levels := by
  have inside := (List.getElem?_eq_some_iff.mp loop).1
  have length : x.levels.length = loops.length + 1 := by
    have mapped := congrArg List.length sound.loops
    rwa [List.length_map, List.length_append, List.length_singleton] at mapped
  have bound : k < x.levels.length := by omega
  refine ⟨x.levels[k], List.getElem?_eq_getElem bound, ?_, ?_, by omega, List.getElem_mem bound⟩
  · have loops' := congrArg (·[k]?) sound.loops
    simp only [List.getElem?_map, List.getElem?_eq_getElem bound, Option.map_some, List.getElem?_append_left inside, loop] at loops'
    exact Option.some.inj loops'
  · have arities' := congrArg (·[k]?) sound.arities
    simp only [List.getElem?_map, List.getElem?_eq_getElem bound, Option.map_some, known] at arities'
    exact Option.some.inj arities'

theorem Runs.doBranch (runs : Runs x pc c s) (sound : x.Sound loops labels) {depth : BitVec 32}
    (known : labels[depth.toNat]? = some arity) (carried : c.carrying arity = some c')
    (goes : loops[depth.toNat]? = some false ∨ depth.toNat = 0 ∧ loops[depth.toNat]? = some true) :
    wp (doBranch depth) (fun _ t => Meets x stop (.branches depth.toNat, c') (.reaches t)) E s := by
  obtain ⟨enough, rfl⟩ := Config.carrying_eq_some carried
  obtain ⟨isLoop, loop, either⟩ : ∃ isLoop, loops[depth.toNat]? = some isLoop ∧ (isLoop → depth.toNat = 0) := by
    rcases goes with block | ⟨zero, isLoop⟩
    · exact ⟨false, block, nofun⟩
    · exact ⟨true, isLoop, fun _ => zero⟩
  obtain ⟨l, there, rfl, rfl, inside, member⟩ := sound.level loop known
  obtain ⟨height, gone, split⟩ := sound.heights l member
  obtain ⟨few, loopArity⟩ := sound.single l member
  have labelled : (x.layout pc c).labels[depth.toNat]? = some l.label := by
    show (x.levels.map Level.label ++ x.outer)[_]? = _
    rw [List.getElem?_append_left (by rw [List.length_map]; omega), List.getElem?_map, there, Option.map_some]
  have own : x.frame.labelBase + depth.toNat < (x.layout pc c).labels.length := by
    show _ < (x.levels.map Level.label ++ x.outer).length
    rw [List.length_append, List.length_map, runs.labelBase]
    omega
  have whole : (x.layout pc c).operands = (c.operands ++ gone) ++ l.under := by
    rw [List.append_assoc, split]
    rfl
  apply wp_mono (runs.shown.doBranch labelled rfl own whole height few (by rw [List.length_append]; omega)) _ fun _ _ => id
  intro _ t shown
  split at shown
  · next isLoop =>
    have none_ : c.operands.take l.label.resultCount = [] := by rw [loopArity isLoop, List.take_zero]
    have first : x.levels.head? = some l := by rw [List.head?_eq_getElem?, ← either isLoop, there]
    have same := sound.top l first
    have operands : t.stack.Stacked t.sp (c.operands.take l.label.resultCount ++ x.under) := by
      rw [none_, ← same]
      exact shown.operands
    rw [either isLoop]
    exact .again first isLoop none_ { runs with shown := { shown with operands := operands } }
  · next block =>
    have operands : (c.operands ++ gone).take l.label.resultCount = c.operands.take l.label.resultCount :=
      List.take_append_of_le_length enough
    have labels' : (x.layout pc c).labels.drop (depth.toNat + 1) = (x.levels.drop (depth.toNat + 1)).map Level.label ++ x.outer := by
      show (x.levels.map Level.label ++ x.outer).drop _ = _
      rw [List.drop_append_of_le_length (by rw [List.length_map]; omega), List.map_drop]
    rw [operands, labels'] at shown
    exact .out there inside (Bool.eq_false_of_not_eq_true block) { runs with shown := { shown with } }

/-- A return, or the end of the body: to the caller, or for good. -/
theorem Runs.leaves (runs : Runs x pc c s) (sound : x.Sound loops labels) (known : labels.getLast? = some arity)
    (carried : c.carrying arity = some c') (stop : Nat) (E : Stop TrapKind → Machine n σ → Prop) :
    wp leaveFunction (fun outcome t => (outcome = .next → Meets x stop (.returns, c') (.reaches t)) ∧
      ∀ result, outcome = .done result → Meets x stop (.returns, c') (.done result t)) E s := by
  obtain ⟨enough, rfl⟩ := Config.carrying_eq_some carried
  obtain rfl := Option.some.inj (sound.results.symm.trans known)
  obtain ⟨gone, split⟩ := sound.base
  have whole : (x.layout pc c).operands = (c.operands ++ gone) ++ x.base := by
    rw [List.append_assoc, split]
    rfl
  have few : x.frame.resultCount ≤ 1 := by
    have member := List.mem_of_getLast? known
    rw [← sound.arities] at member
    obtain ⟨l, there, same⟩ := List.mem_map.mp member
    exact same ▸ (sound.single l there).1
  have operands : (c.operands ++ gone).take x.frame.resultCount = c.operands.take x.frame.resultCount :=
    List.take_append_of_le_length enough
  have left := runs.shown.leaveFunction (E := E) rfl rfl runs.labelBase whole sound.height few
    (by rw [List.length_append]; omega)
  rw [operands] at left
  apply wp_mono left _ fun _ _ => id
  intro outcome t left
  split at left
  · next outermost =>
    obtain ⟨rfl, memory, host⟩ := left
    exact ⟨nofun, fun _ same => Outcome.done.inj same ▸ .finished outermost memory host⟩
  · next called =>
    obtain ⟨rfl, shown⟩ := left
    exact ⟨fun _ => .returned called { shown with locals := shown.locals.front }, nofun⟩

/-- The results of a call go on top of the operands below its arguments. -/
theorem Runs.answered {next : Nat} {vals rest : List Word} {memory : LinearMemory n} {host : σ} (runs : Runs x pc c s)
    (shown : Shown { x.layout next c with operands := vals ++ (rest ++ x.under), memory, host } t) :
    Runs x next { c with operands := vals ++ rest, memory, host } t where
  __ := runs
  shown := {
    shown with
    operands := by
      show Stacked _ _ ((_ ++ _) ++ x.under)
      rw [List.append_assoc]
      exact shown.operands }

theorem Meets.further {operands : List Word} {depth last : Nat} {e : Event n σ}
    (meets : Meets (x.inner label operands) last (.branches (depth + 1), c) e) : Meets x stop (.branches depth, c) e := by
  cases meets with
  | out there inside block runs => exact .out there (Nat.lt_of_succ_lt_succ inside) block runs

theorem Meets.returns {operands : List Word} {last : Nat} {e : Event n σ}
    (meets : Meets (x.inner label operands) last (.returns, c) e) : Meets x stop (.returns, c) e := by
  cases meets with
  | returned called shown => exact .returned called shown
  | finished outermost memory host => exact .finished outermost memory host

theorem Meets.traps {y : Setting} {last : Nat} {kind : TrapKind} {e : Event n σ} (meets : Meets y last (.traps kind, c) e)
    (memory : c'.memory = c.memory) (host : c'.host = c.host) : Meets x stop (.traps kind, c') e := by
  cases meets with
  | trapped memory' host' => exact .trapped (memory'.trans memory.symm) (host'.trans host.symm)

/-- What a construct leaves goes on top of the operands below it. -/
theorem Runs.outer {operands : List Word} (runs : Runs { x with under := operands ++ x.under } pc c s) :
    Runs x pc { c with operands := c.operands ++ operands } s where
  __ := runs
  shown := {
    runs.shown with
    operands := by
      show Stacked _ _ ((c.operands ++ operands) ++ x.under)
      rw [List.append_assoc]
      exact runs.shown.operands }

/-! ### Ends -/

theorem Runs.labelDepth (runs : Runs x pc c s) : s.labelDepth = x.levels.length + x.frame.labelBase := by
  rw [runs.shown.labels.depth, runs.labelBase]
  show (x.levels.map Level.label ++ x.outer).length = _
  rw [List.length_append, List.length_map]

/-- `end` looks at the label of the running function. -/
theorem Runs.execEnd (runs : Runs x pc c s) (some_ : x.levels ≠ []) {Q : Outcome → Machine n σ → Prop} :
    wp execEnd Q E s ↔ if x.levels.length = 1 then wp leaveFunction Q E s
      else wp (do Wasm.endBlock; pure .next : Exec n σ Outcome) Q E s := by
  have positive := List.length_pos_iff.mpr some_
  have depth := runs.labelDepth
  unfold Wasm.execEnd
  rw [wp_bind, wp_get, wp_ite, if_pos (by omega), wp_bind_ok ((labelBase_ok (runs.shown.running rfl)).mpr ⟨rfl, rfl⟩), wp_bind,
    wp_minus, if_pos (by omega), wp_ite]
  split
  · next last => rw [if_pos (by omega)]
  · next inner => rw [if_neg (by omega)]

/-- The end of a construct that leaves its results. -/
theorem Runs.closes {operands : List Word} (runs : Runs (x.inner label operands) pc c s) (more : x.levels ≠ [])
    (height : label.stackDepth = (operands ++ x.under).length) (few : label.resultCount ≤ 1)
    (exact_ : c.operands.length = label.resultCount) :
    wp Wasm.execEnd (fun outcome t => outcome = .next ∧ Runs x pc { c with operands := c.operands ++ operands } t) E s := by
  have length : (x.inner label operands).levels.length = x.levels.length + 1 := rfl
  have positive := List.length_pos_iff.mpr more
  rw [runs.execEnd (List.cons_ne_nil _ _), if_neg (by omega), wp_bind]
  apply wp_mono (runs.shown.endBlock rfl rfl height few exact_) _ fun _ _ => id
  intro _ t shown
  have outer : Runs { x with under := operands ++ x.under } pc c t :=
    { runs with shown := { shown with } }
  exact ⟨rfl, outer.outer⟩

/-- The end of a then-branch. -/
theorem Runs.turns {operands : List Word} (runs : Runs (x.inner label operands) pc c s)
    (height : label.stackDepth = (operands ++ x.under).length) (few : label.resultCount ≤ 1)
    (exact_ : c.operands.length = label.resultCount) :
    wp execElse (fun _ t => Runs x label.targetPc { c with operands := c.operands ++ operands } t) E s := by
  apply wp_mono (runs.shown.execElse rfl rfl height few (Nat.le_of_eq exact_.symm)) _ fun _ _ => id
  intro _ t shown
  rw [List.take_of_length_le (Nat.le_of_eq exact_)] at shown
  have outer : Runs { x with under := operands ++ x.under } label.targetPc c t :=
    { runs with shown := { shown with } }
  exact outer.outer

end Exits

end GooseOs.Wasm
