import GooseOs.Wasm.Transfers

/-!
Where structured code runs in the interpreter. The constructs around it own labels, the operands below theirs and the
function's frame; an instruction that neither branches nor calls works on the code's own part.
-/

namespace GooseOs.Wasm

open FixedArray

variable {n : Nat} {σ α : Type} {p : Program} {h : HostFunctions n σ} {s t : Machine n σ}

/-- A construct that has been entered: its label and the operands below its own. -/
structure Level where
  label : Label
  under : List Word

/-- What surrounds running code: the constructs, the innermost first and the function last, and what is the callers'. -/
structure Setting where
  levels : List Level
  /-- The operands below those of the code, and below those of the function. -/
  under : List Word
  base : List Word
  frame : CallFrame
  outer : List Label
  callers : List CallFrame
  locals : List Word

namespace Setting

def layout (x : Setting) (pc : Nat) (c : Config n σ) : Stacks n σ where
  pc := pc
  operands := c.operands ++ x.under
  labels := x.levels.map Level.label ++ x.outer
  frames := x.frame :: x.callers
  locals := x.locals ++ c.locals
  memory := c.memory
  host := c.host

/-- A construct opened above these operands. -/
def inner (x : Setting) (label : Label) (operands : List Word) : Setting :=
  { x with levels := ⟨label, operands ++ x.under⟩ :: x.levels, under := operands ++ x.under }

/-- The labels ask for what they should and stand above what they should. -/
structure Sound (x : Setting) (loops : List Bool) (labels : List Nat) : Prop where
  arities : x.levels.map (fun l => l.label.resultCount) = labels
  loops : x.levels.map (fun l => l.label.isLoop) = loops ++ [false]
  heights : ∀ l ∈ x.levels, l.label.stackDepth = l.under.length ∧ l.under <:+ x.under
  single : ∀ l ∈ x.levels, l.label.resultCount ≤ 1 ∧ (l.label.isLoop → l.label.resultCount = 0)
  top : ∀ l ∈ x.levels.head?, l.under = x.under
  base : x.base <:+ x.under
  height : x.frame.stackDepth = x.base.length
  results : labels.getLast? = some x.frame.resultCount

theorem Sound.inner {x : Setting} {loops : List Bool} {labels : List Nat} (sound : x.Sound loops labels) {label : Label}
    {operands : List Word} (height : label.stackDepth = (operands ++ x.under).length)
    (single : label.resultCount ≤ 1 ∧ (label.isLoop → label.resultCount = 0)) :
    (x.inner label operands).Sound (label.isLoop :: loops) (label.resultCount :: labels) where
  arities := congrArg _ sound.arities
  loops := congrArg _ sound.loops
  heights := by
    intro l member
    rcases List.mem_cons.mp member with rfl | outer
    · exact ⟨height, List.suffix_refl _⟩
    · exact ⟨(sound.heights l outer).1, (sound.heights l outer).2.trans (List.suffix_append _ _)⟩
  single := by
    intro l member
    rcases List.mem_cons.mp member with rfl | outer
    · exact single
    · exact sound.single l outer
  top := by
    rintro l ⟨⟩
    rfl
  base := sound.base.trans (List.suffix_append _ _)
  height := sound.height
  results := by
    have some_ := sound.results
    rw [List.getLast?_cons, some_]
    rfl

end Setting

/-- The machine runs code of this configuration. -/
structure Runs (x : Setting) (pc : Nat) (c : Config n σ) (s : Machine n σ) : Prop where
  shown : Shown (x.layout pc c) s
  localsBase : x.frame.localsBase = x.locals.length
  localCount : x.frame.localCount = c.locals.length
  labelBase : x.frame.labelBase = x.outer.length

namespace Runs
variable {x : Setting} {pc : Nat} {c : Config n σ} {val : Word} {rest : List Word} {E : Stop TrapKind → Machine n σ → Prop}

theorem onward (runs : Runs x pc c s) (next : Nat) : Runs x next c { s with pc := next } :=
  { runs with shown := { runs.shown with pc := rfl } }

/-- Other operands, with the same locals. -/
theorem operands (runs : Runs x pc c s) {c' : Config n σ} (shown : Shown (x.layout pc c') t)
    (same : c'.locals.length = c.locals.length) : Runs x pc c' t :=
  { runs with shown := shown, localCount := runs.localCount.trans same.symm }

theorem push (runs : Runs x pc c s) (val : Word) :
    wp (push val) (fun _ t => Runs x pc { c with operands := val :: c.operands } t) (Limited p) s :=
  wp_mono (runs.shown.push val) (fun _ _ shown => runs.operands shown rfl) fun _ _ => id

theorem pop (runs : Runs x pc c s) (top : c.operands = val :: rest) :
    wp pop (fun v t => v = val ∧ Runs x pc { c with operands := rest } t) E s :=
  wp_mono (runs.shown.pop (congrArg (· ++ x.under) top)) (fun _ _ both => ⟨both.1, runs.operands both.2 rfl⟩) fun _ _ => id

theorem popU32 (runs : Runs x pc c s) (top : c.operands = val :: rest) :
    wp popU32 (fun v t => v = Meaning.low val ∧ Runs x pc { c with operands := rest } t) E s :=
  wp_mono (runs.shown.popU32 (congrArg (· ++ x.under) top)) (fun _ _ both => ⟨both.1, runs.operands both.2 rfl⟩) fun _ _ => id

theorem top (runs : Runs x pc c s) (top : c.operands = val :: rest) : s.operand 0 = some val :=
  runs.shown.top (congrArg (· ++ x.under) top)

theorem windows (runs : Runs x pc c s) : x.frame.localsBase + x.frame.localCount = (x.layout pc c).locals.length := by
  rw [runs.localsBase, runs.localCount]
  exact List.length_append.symm

theorem localGet (runs : Runs x pc c s) {idx : BitVec 32} (there : c.locals[idx.toNat]? = some val) :
    Wasm.localGet idx s = .ok val s := by
  have inside := (List.getElem?_eq_some_iff.mp there).1
  apply runs.shown.localGet rfl (runs.localCount ▸ inside) (Nat.le_of_eq runs.windows)
  show (x.locals ++ c.locals)[_]? = _
  rw [runs.localsBase, List.getElem?_append_right (Nat.le_add_right _ _), Nat.add_sub_cancel_left, there]

theorem localSet (runs : Runs x pc c s) {idx : BitVec 32} (val : Word) (inside : idx.toNat < c.locals.length) :
    wp (Wasm.localSet idx val) (fun _ t => Runs x pc { c with locals := c.locals.set idx.toNat val } t) E s := by
  apply wp_mono (runs.shown.localSet rfl val (runs.localCount ▸ inside) (Nat.le_of_eq runs.windows)) _ fun _ _ => id
  intro _ t shown
  have same : (x.locals ++ c.locals).set (x.frame.localsBase + idx.toNat) val = x.locals ++ c.locals.set idx.toNat val := by
    rw [runs.localsBase, List.set_append_right _ _ (Nat.le_add_right _ _), Nat.add_sub_cancel_left]
  have locals : t.locals.Leads ((x.locals ++ c.locals).set (x.frame.localsBase + idx.toNat) val) := shown.locals
  rw [same] at locals
  exact runs.operands { shown with locals := locals } List.length_set

/-- What a program may stop with in place of going on: a limit of the interpreter, or a trap that leaves this memory and
this host. -/
def StopsWith (p : Program) (result : Except TrapKind (Config n σ)) (c : Config n σ) (stop : Stop TrapKind) (t : Machine n σ) :
    Prop :=
  Limited p stop t ∨ ∃ kind, result = .error kind ∧ stop = .error kind ∧ t.memory = c.memory ∧ t.host = c.host

/-- The program goes on as the result says, or stops with it. -/
def Acts (p : Program) (x : Setting) (pc : Nat) (c : Config n σ) (result : Except TrapKind (Config n σ)) (f : Exec n σ α)
    (s : Machine n σ) : Prop :=
  wp f (fun _ t => ∃ c', result = .ok c' ∧ Runs x pc c' t) (StopsWith p result c) s

section Acts
variable {result : Except TrapKind (Config n σ)} {operands : List Word}

theorem acts_push (runs : Runs x pc { c with operands } s) (val : Word) :
    Acts p x pc c (.ok { c with operands := val :: operands }) (Wasm.push val) s :=
  wp_mono (runs.push val) (fun _ _ runs => ⟨_, rfl, runs⟩) fun _ _ => .inl

theorem acts_localSet (runs : Runs x pc { c with operands } s) {idx : BitVec 32} (val : Word)
    (inside : idx.toNat < c.locals.length) :
    Acts p x pc c (.ok { c with operands, locals := c.locals.set idx.toNat val }) (Wasm.localSet idx val) s :=
  wp_mono (runs.localSet val inside) (fun _ _ runs => ⟨_, rfl, runs⟩) fun _ _ => id

theorem acts_stop (runs : Runs x pc { c with operands } s) {f : Exec n σ α} {kind : TrapKind}
    (stops : f s = .error (.error kind) s) : Acts p x pc c (.error kind) f s := by
  unfold Acts wp
  rw [stops]
  exact .inr ⟨kind, rfl, rfl, runs.shown.memory, runs.shown.host⟩

/-- An operand is popped; the rest acts on what is left. -/
theorem acts_pop (runs : Runs x pc { c with operands := val :: rest } s) {f : Word → Exec n σ α}
    (next : ∀ t, Runs x pc { c with operands := rest } t → Acts p x pc c result (f val) t) :
    Acts p x pc c result (do f (← Wasm.pop)) s := by
  unfold Acts
  rw [wp_bind]
  apply wp_mono (runs.pop rfl) _ fun _ _ => id
  rintro _ t ⟨rfl, runs⟩
  exact next t runs

theorem acts_popU32 (runs : Runs x pc { c with operands := val :: rest } s) {f : BitVec 32 → Exec n σ α}
    (next : ∀ t, Runs x pc { c with operands := rest } t → Acts p x pc c result (f (Meaning.low val)) t) :
    Acts p x pc c result (do f (← Wasm.popU32)) s := by
  unfold Acts
  rw [wp_bind]
  apply wp_mono (runs.popU32 rfl) _ fun _ _ => id
  rintro _ t ⟨rfl, runs⟩
  exact next t runs

/-! #### Instructions by their kind -/

theorem acts_select {cond val2 val1 : Word} (runs : Runs x pc { c with operands := cond :: val2 :: val1 :: rest } s) :
    Acts p x pc c (.ok { c with operands := (if Meaning.low cond ≠ 0 then val1 else val2) :: rest }) execSelect s := by
  apply acts_popU32 runs
  intro _ runs
  apply acts_pop runs
  intro _ runs
  apply acts_pop runs
  exact fun _ runs => acts_push runs _

theorem acts_tee (runs : Runs x pc c s) (operands : c.operands = val :: rest) {idx : BitVec 32}
    (inside : idx.toNat < c.locals.length) :
    Acts p x pc c (.ok { c with locals := c.locals.set idx.toNat val }) (execTee idx) s := by
  have top := runs.top operands
  have deep := (Interpreter.operand_inside top).1
  unfold Acts
  rw [execTee, wp_bind, wp_get, wp_bind_ok (a := ()) (failIf_eq_ok.mpr ⟨by omega, rfl⟩),
    wp_bind_ok (top_ok.mpr ⟨top, rfl⟩)]
  exact acts_localSet runs val inside

theorem acts_load {addr : Word} (runs : Runs x pc { c with operands := addr :: rest } s) (op : Load) (offset : BitVec 32)
    (loaded : (if n < (Meaning.low addr).toNat + offset.toNat + op.width then .error .outOfBounds
      else .ok { c with
        operands := op.word (leValue (c.memory.bytes ((Meaning.low addr).toNat + offset.toNat) op.width)) :: rest }) =
        result) :
    Acts p x pc c result (do Wasm.push (← op.fetch (← Wasm.popU32) offset)) s := by
  apply acts_popU32 runs
  intro t runs
  have fetched := @fetch_spec n σ t op (Meaning.low addr) offset
  rw [runs.shown.memory] at fetched
  split at loaded
  · next outside =>
    cases loaded
    rw [if_pos outside] at fetched
    exact acts_stop runs (bind_stop fetched)
  · next inside =>
    cases loaded
    rw [if_neg inside] at fetched
    unfold Acts
    rw [wp_bind_ok fetched]
    exact acts_push runs _

theorem acts_store {addr : Word} (runs : Runs x pc { c with operands := val :: addr :: rest } s) (op : Store)
    (offset : BitVec 32)
    (stored : (if n < (Meaning.low addr).toNat + offset.toNat + op.width then .error .outOfBounds
      else .ok { c with operands := rest, memory := c.memory.patch (op.patch (Meaning.low addr) offset val) }) = result) :
    Acts p x pc c result (do let val ← Wasm.pop; op.write (← Wasm.popU32) offset val) s := by
  apply acts_pop runs
  intro _ runs
  apply acts_popU32 runs
  intro t runs
  have written := @write_spec n σ t op (Meaning.low addr) offset val
  rw [runs.shown.memory] at written
  split at stored
  · next outside =>
    cases stored
    rw [if_pos outside] at written
    exact acts_stop runs written
  · next inside =>
    cases stored
    rw [if_neg inside] at written
    unfold Acts wp
    rw [written]
    exact ⟨_, rfl, runs.operands { runs.shown with memory := rfl } rfl⟩

theorem acts_unary {op : Numeric} {f : Word → Word} {a : Word} (runs : Runs x pc { c with operands := a :: rest } s)
    (meaning : op.meaning = .unary f) :
    Acts p x pc c (.ok { c with operands := f a :: rest }) (execNumeric op) s := by
  unfold execNumeric
  rw [meaning]
  apply acts_pop runs
  exact fun _ runs => acts_push runs _

theorem acts_binary {op : Numeric} {f : Word → Word → Except (Stop TrapKind) Word} {a b : Word}
    (runs : Runs x pc { c with operands := b :: a :: rest } s) (meaning : op.meaning = .binary f)
    (computed : (∃ val, f a b = .ok val ∧ result = .ok { c with operands := val :: rest }) ∨
      ∃ kind, f a b = .error (.error kind) ∧ result = .error kind) :
    Acts p x pc c result (execNumeric op) s := by
  unfold execNumeric
  rw [meaning]
  apply acts_pop runs
  intro _ runs
  apply acts_pop runs
  intro t runs
  rcases computed with ⟨val, answered, rfl⟩ | ⟨kind, undefined_, rfl⟩
  · rw [answered]
    exact acts_push runs val
  · rw [undefined_]
    exact acts_stop runs rfl

end Acts

/-- The interpreter does what an instruction means. -/
theorem apply (runs : Runs x pc c s) {instr : Instr} {result : Except TrapKind (Config n σ)}
    (applied : c.apply instr = some result) :
    wp (execSimple p h instr) (fun _ t => ∃ c', result = .ok c' ∧ Runs x pc c' t) (StopsWith p result c) s := by
  change Acts p x pc c result (execSimple p h instr) s
  have known : ∀ {operands}, c.operands = operands → Runs x pc { c with operands } s := by
    rintro _ rfl
    exact runs
  cases instr with
  | nop =>
    cases applied
    exact ⟨c, rfl, runs⟩
  | unreachable =>
    cases applied
    exact acts_stop (known rfl) rfl
  | drop =>
    simp only [Config.apply] at applied
    split at applied
    · next operands =>
      cases applied
      exact acts_pop (known operands) fun _ runs => ⟨_, rfl, runs⟩
    · cases applied
  | select =>
    simp only [Config.apply] at applied
    split at applied
    · next operands =>
      cases applied
      exact acts_select (known operands)
    · cases applied
  | localGet idx =>
    obtain ⟨val, there, rfl⟩ := Option.map_eq_some_iff.mp applied
    unfold Acts
    rw [execSimple, wp_bind_ok (runs.localGet there)]
    exact acts_push (known rfl) val
  | localSet idx =>
    simp only [Config.apply] at applied
    split at applied
    · next operands =>
      split at applied
      · next inside =>
        cases applied
        exact acts_pop (known operands) fun _ runs => acts_localSet runs _ inside
      · cases applied
    · cases applied
  | localTee idx =>
    simp only [Config.apply] at applied
    split at applied
    · next operands =>
      split at applied
      · next inside =>
        cases applied
        exact acts_tee runs operands inside
      · cases applied
    · cases applied
  | load op align offset =>
    simp only [Config.apply] at applied
    split at applied
    · next operands =>
      refine acts_load (known operands) op offset ?_
      split at applied
      · next outside =>
        rw [if_pos outside]
        exact Option.some.inj applied
      · next inside =>
        rw [if_neg inside]
        exact Option.some.inj applied
    · cases applied
  | store op align offset =>
    simp only [Config.apply] at applied
    split at applied
    · next operands =>
      refine acts_store (known operands) op offset ?_
      split at applied
      · next outside =>
        rw [if_pos outside]
        exact Option.some.inj applied
      · next inside =>
        rw [if_neg inside]
        exact Option.some.inj applied
    · cases applied
  | memorySize | i32Const | i64Const =>
    cases applied
    exact acts_push (known rfl) _
  | memoryGrow =>
    simp only [Config.apply] at applied
    split at applied
    · next operands =>
      cases applied
      exact acts_popU32 (known operands) fun _ runs => acts_push runs _
    · cases applied
  | numeric op =>
    simp only [Config.apply] at applied
    split at applied
    · next meaning operands =>
      cases applied
      exact acts_unary (known operands) meaning
    · next meaning operands =>
      refine acts_binary (known operands) meaning ?_
      split at applied
      · next val answered =>
        cases applied
        exact .inl ⟨val, answered, rfl⟩
      · next kind undefined_ =>
        cases applied
        exact .inr ⟨kind, undefined_, rfl⟩
      · cases applied
    · cases applied
  | _ => cases applied

end Runs

end GooseOs.Wasm
