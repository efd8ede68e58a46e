import GooseOs.Wasm.Structured
import GooseOs.Wasm.LinearMemory

/-!
What structured code means. A construct has operands of its own, a branch carries the values its label asks for, and a
call runs the callee on its own locals. There are no stacks of frames or labels here and no limits; `none` is code without
meaning, or not enough fuel.
-/

namespace GooseOs.Wasm

/-- What code works on: the operands of the innermost construct, the last one first, and the locals. -/
structure Config (n : Nat) (σ : Type) where
  operands : List Word
  locals : List Word
  memory : LinearMemory n
  host : σ

/-- How code is left. -/
inductive Exit where
  | fallsThrough
  | branches (depth : Nat)
  | returns
  | traps (kind : TrapKind)
  deriving DecidableEq

/-- A function with a body: its type, the locals it declares and its code. -/
structure Function where
  type : FuncType
  declared : Nat
  body : Body

/-- What calls refer to. -/
structure Env (n : Nat) (σ : Type) where
  imported : BitVec 32 → Option FuncType
  function : BitVec 32 → Option Function
  host : HostFunctions n σ

variable {n : Nat} {σ : Type}

abbrev Ended (n : Nat) (σ : Type) := Exit × Config n σ

namespace Config

/-- An instruction that neither branches nor calls. -/
def apply (c : Config n σ) : Instr → Option (Except TrapKind (Config n σ))
  | .nop => some (.ok c)
  | .unreachable => some (.error .unreachable)
  | .drop =>
    match c.operands with
    | _ :: rest => some (.ok { c with operands := rest })
    | _ => none
  | .select =>
    match c.operands with
    | cond :: val2 :: val1 :: rest =>
      some (.ok { c with operands := (if Meaning.low cond ≠ 0 then val1 else val2) :: rest })
    | _ => none
  | .localGet idx => c.locals[idx.toNat]?.map fun val => .ok { c with operands := val :: c.operands }
  | .localSet idx =>
    match c.operands with
    | val :: rest =>
      if idx.toNat < c.locals.length then some (.ok { c with operands := rest, locals := c.locals.set idx.toNat val })
      else none
    | _ => none
  | .localTee idx =>
    match c.operands with
    | val :: _ => if idx.toNat < c.locals.length then some (.ok { c with locals := c.locals.set idx.toNat val }) else none
    | _ => none
  | .load op _ offset =>
    match c.operands with
    | addr :: rest =>
      let ea := (Meaning.low addr).toNat + offset.toNat
      if n < ea + op.width then some (.error .outOfBounds)
      else some (.ok { c with operands := op.word (leValue (c.memory.bytes ea op.width)) :: rest })
    | _ => none
  | .store op _ offset =>
    match c.operands with
    | val :: addr :: rest =>
      if n < (Meaning.low addr).toNat + offset.toNat + op.width then some (.error .outOfBounds)
      else some (.ok { c with operands := rest, memory := c.memory.patch (op.patch (Meaning.low addr) offset val) })
    | _ => none
  | .memorySize _ => some (.ok { c with operands := (BitVec.ofNat 32 (n / 65536)).setWidth 64 :: c.operands })
  | .memoryGrow _ =>
    match c.operands with
    | _ :: rest => some (.ok { c with operands := 0xFFFFFFFF :: rest })
    | _ => none
  | .i32Const val => some (.ok { c with operands := val.setWidth 64 :: c.operands })
  | .i64Const val => some (.ok { c with operands := val :: c.operands })
  | .numeric op =>
    match op.meaning, c.operands with
    | .unary f, a :: rest => some (.ok { c with operands := f a :: rest })
    | .binary f, b :: a :: rest =>
      match f a b with
      | .ok val => some (.ok { c with operands := val :: rest })
      | .error (.error kind) => some (.error kind)
      | .error .fault => none
    | _, _ => none
  | _ => none

/-- The values a label or a function asks for, when there are enough. -/
def carrying (c : Config n σ) (arity : Nat) : Option (Config n σ) :=
  if arity ≤ c.operands.length then some { c with operands := c.operands.take arity } else none

/-- An imported function takes its arguments off the operands and puts its result there. -/
def callHost (h : HostFunctions n σ) (target : BitVec 32) (type : FuncType) (c : Config n σ) :
    Option (Except TrapKind (Config n σ)) :=
  if type.paramCount ≤ c.operands.length then
    let rest := c.operands.drop type.paramCount
    let (result, host, memory) := h.call c.host target (c.operands.take type.paramCount).reverse c.memory
    match result with
    | .error code => some (.error (.hostCallError code))
    | .ok result => some (.ok { c with operands := result.toList ++ rest, memory, host })
  else none

end Config

/-- What a construct with these results around the code makes of its end: go on behind it, or leave further. -/
def settleExit (arity : Nat) (operands : List Word) (later : Config n σ → Option (Ended n σ)) :
    Ended n σ → Option (Ended n σ)
  | (.fallsThrough, c) =>
    if c.operands.length = arity then later { c with operands := c.operands ++ operands } else none
  | (.branches 0, c) => later { c with operands := c.operands ++ operands }
  | (.branches (depth + 1), c) => some (.branches depth, c)
  | (.returns, c) => some (.returns, c)
  | (.traps kind, c) => some (.traps kind, c)

/-- The same for a loop, whose label stands at its beginning. -/
def settleLoop (arity : Nat) (operands : List Word) (again later : Config n σ → Option (Ended n σ)) :
    Ended n σ → Option (Ended n σ)
  | (.branches 0, c) => again { c with operands := c.operands ++ operands }
  | ended => settleExit arity operands later ended

/-- What a function makes of the end of its body: its results, or a trap. -/
def settleCall (arity : Nat) : Ended n σ → Option (Except TrapKind (List Word) × LinearMemory n × σ)
  | (.fallsThrough, c) => if c.operands.length = arity then some (.ok c.operands, c.memory, c.host) else none
  | (.branches 0, c) | (.returns, c) => some (.ok c.operands, c.memory, c.host)
  | (.branches (_ + 1), _) => none
  | (.traps kind, c) => some (.error kind, c.memory, c.host)

namespace Env
variable (env : Env n σ)

/-- A function's locals at its start. -/
def enter (f : Function) (args : List Word) (memory : LinearMemory n) (host : σ) : Config n σ where
  operands := []
  locals := args ++ List.replicate f.declared 0
  memory := memory
  host := host

/-- Run code inside labels that ask for `labels` values, the innermost first and the function's own last. -/
def eval : (fuel : Nat) → (labels : List Nat) → Body → Config n σ → Option (Ended n σ)
  | 0, _, _, _ => none
  | _ + 1, _, .done, c => some (.fallsThrough, c)
  | fuel + 1, labels, .flat instr rest, c =>
    match instr with
    | .br depth => do
      let c ← c.carrying (← labels[depth.toNat]?)
      pure (.branches depth.toNat, c)
    | .brIf depth =>
      match c.operands with
      | cond :: operands =>
        if Meaning.low cond ≠ 0 then do
          let c ← { c with operands := operands }.carrying (← labels[depth.toNat]?)
          pure (.branches depth.toNat, c)
        else eval fuel labels rest { c with operands := operands }
      | [] => none
    | .returnOp => do
      let c ← c.carrying (← labels.getLast?)
      pure (.returns, c)
    | .call target =>
      match env.imported target with
      | some type =>
        match c.callHost env.host target type with
        | some (.ok c) => eval fuel labels rest c
        | some (.error kind) =>
          let (_, host, memory) := env.host.call c.host target (c.operands.take type.paramCount).reverse c.memory
          some (.traps kind, { c with memory, host })
        | none => none
      | none => do
        let f ← env.function target
        let args ← c.carrying f.type.paramCount
        let ended ← eval fuel [f.type.resultCount] f.body (enter f args.operands.reverse c.memory c.host)
        match ← settleCall f.type.resultCount ended with
        | (.ok results, memory, host) =>
          eval fuel labels rest { c with operands := results ++ c.operands.drop f.type.paramCount, memory, host }
        | (.error kind, memory, host) => some (.traps kind, { c with memory, host })
    | instr =>
      match c.apply instr with
      | some (.ok c) => eval fuel labels rest c
      | some (.error kind) => some (.traps kind, c)
      | none => none
  | fuel + 1, labels, .block blockType body rest, c => do
    let ended ← eval fuel (blockResults blockType :: labels) body { c with operands := [] }
    settleExit (blockResults blockType) c.operands (eval fuel labels rest) ended
  | fuel + 1, labels, .loop blockType body rest, c => do
    let ended ← eval fuel (0 :: labels) body { c with operands := [] }
    settleLoop (blockResults blockType) c.operands (eval fuel labels (.loop blockType body rest)) (eval fuel labels rest) ended
  | fuel + 1, labels, .ifThen blockType body rest, c =>
    match c.operands with
    | cond :: operands =>
      if Meaning.low cond ≠ 0 then do
        let ended ← eval fuel (blockResults blockType :: labels) body { c with operands := [] }
        settleExit (blockResults blockType) operands (eval fuel labels rest) ended
      else eval fuel labels rest { c with operands := operands }
    | [] => none
  | fuel + 1, labels, .ifElse blockType body other rest, c =>
    match c.operands with
    | cond :: operands => do
      let ended ← eval fuel (blockResults blockType :: labels) (if Meaning.low cond ≠ 0 then body else other)
        { c with operands := [] }
      settleExit (blockResults blockType) operands (eval fuel labels rest) ended
    | [] => none

section Equations
variable {fuel : Nat} {labels : List Nat} {body other rest : Body} {blockType : Byte} {c : Config n σ} {cond : Word}
  {operands : List Word}

theorem eval_block : env.eval (fuel + 1) labels (.block blockType body rest) c =
    (env.eval fuel (blockResults blockType :: labels) body { c with operands := [] }).bind
      (settleExit (blockResults blockType) c.operands (env.eval fuel labels rest)) := rfl

theorem eval_loop : env.eval (fuel + 1) labels (.loop blockType body rest) c =
    (env.eval fuel (0 :: labels) body { c with operands := [] }).bind
      (settleLoop (blockResults blockType) c.operands (env.eval fuel labels (.loop blockType body rest))
        (env.eval fuel labels rest)) := rfl

theorem eval_ifThen (top : c.operands = cond :: operands) : env.eval (fuel + 1) labels (.ifThen blockType body rest) c =
    if Meaning.low cond ≠ 0 then
      (env.eval fuel (blockResults blockType :: labels) body { c with operands := [] }).bind
        (settleExit (blockResults blockType) operands (env.eval fuel labels rest))
    else env.eval fuel labels rest { c with operands := operands } := by
  obtain ⟨_, locals, memory, host⟩ := c
  cases top
  rfl

theorem eval_ifElse (top : c.operands = cond :: operands) : env.eval (fuel + 1) labels (.ifElse blockType body other rest) c =
    (env.eval fuel (blockResults blockType :: labels) (if Meaning.low cond ≠ 0 then body else other)
      { c with operands := [] }).bind (settleExit (blockResults blockType) operands (env.eval fuel labels rest)) := by
  obtain ⟨_, locals, memory, host⟩ := c
  cases top
  rfl

theorem eval_br {depth : BitVec 32} : env.eval (fuel + 1) labels (.flat (.br depth) rest) c =
    (labels[depth.toNat]?).bind fun arity => (c.carrying arity).bind fun c => some (.branches depth.toNat, c) := rfl

theorem eval_brIf {depth : BitVec 32} (top : c.operands = cond :: operands) :
    env.eval (fuel + 1) labels (.flat (.brIf depth) rest) c =
      if Meaning.low cond ≠ 0 then
        (labels[depth.toNat]?).bind fun arity => ({ c with operands := operands }.carrying arity).bind fun c =>
          some (.branches depth.toNat, c)
      else env.eval fuel labels rest { c with operands := operands } := by
  obtain ⟨_, locals, memory, host⟩ := c
  cases top
  rfl

theorem eval_returnOp : env.eval (fuel + 1) labels (.flat .returnOp rest) c =
    labels.getLast?.bind fun arity => (c.carrying arity).bind fun c => some (.returns, c) := rfl

theorem eval_call {target : BitVec 32} : env.eval (fuel + 1) labels (.flat (.call target) rest) c =
    match env.imported target with
    | some type =>
      match c.callHost env.host target type with
      | some (.ok c) => env.eval fuel labels rest c
      | some (.error kind) => some (.traps kind, { c with
          memory := (env.host.call c.host target (c.operands.take type.paramCount).reverse c.memory).2.2
          host := (env.host.call c.host target (c.operands.take type.paramCount).reverse c.memory).2.1 })
      | none => none
    | none =>
      (env.function target).bind fun f => (c.carrying f.type.paramCount).bind fun args =>
        (env.eval fuel [f.type.resultCount] f.body (enter f args.operands.reverse c.memory c.host)).bind fun ended =>
          (settleCall f.type.resultCount ended).bind fun answer =>
            match answer with
            | (.ok results, memory, host) =>
              env.eval fuel labels rest { c with operands := results ++ c.operands.drop f.type.paramCount, memory, host }
            | (.error kind, memory, host) => some (.traps kind, { c with memory, host }) := rfl

end Equations

/-- Call a function with a body: its results, or why it traps, with the memory and the host it leaves. -/
def call (fuel : Nat) (target : BitVec 32) (args : List Word) (memory : LinearMemory n) (host : σ) :
    Option (Except TrapKind (List Word) × LinearMemory n × σ) := do
  let f ← env.function target
  if args.length = f.type.paramCount then
    settleCall f.type.resultCount (← env.eval fuel [f.type.resultCount] f.body (enter f args memory host))
  else none

end Env

end GooseOs.Wasm
