import GooseOs.Wasm.Scanners

/-!
Function bodies as trees. The bytes of a body are read into nested constructs; what the reader accepts is properly nested,
so the scanners find the ends it found.
-/

namespace GooseOs.Wasm

/-- Nested code: an instruction or a construct, then the rest. -/
inductive Body where
  | done
  | flat (instr : Instr) (rest : Body)
  | block (blockType : Byte) (body rest : Body)
  | loop (blockType : Byte) (body rest : Body)
  | ifThen (blockType : Byte) (body rest : Body)
  | ifElse (blockType : Byte) (body other rest : Body)
  deriving DecidableEq

namespace Body

/-- The constructs the interpreter runs as they are meant: a loop has no result and is continued from its own body only,
and no branch goes to the function's own label. `loops` says which of the constructs around are loops. -/
def supported : (loops : List Bool) → Body → Bool
  | _, .done => true
  | loops, .flat instr rest =>
    (match instr with
      | .br depth | .brIf depth => loops[depth.toNat]? = some false ∨ depth.toNat = 0 ∧ loops[depth.toNat]? = some true
      | _ => true) && rest.supported loops
  | loops, .block _ body rest => body.supported (false :: loops) && rest.supported loops
  | loops, .loop blockType body rest =>
    blockResults blockType = 0 && body.supported (true :: loops) && rest.supported loops
  | loops, .ifThen blockType body rest =>
    blockResults blockType = 0 && body.supported (false :: loops) && rest.supported loops
  | loops, .ifElse _ body other rest =>
    body.supported (false :: loops) && other.supported (false :: loops) && rest.supported loops

end Body

namespace Reader
variable {code : List Byte} {pc stop : Nat}

/-- The bytes from `pc` up to `stop` are this code. -/
inductive IsBody (code : List Byte) : (pc : Nat) → Body → (stop : Nat) → Prop
  | done (pc : Nat) : IsBody code pc .done pc
  | flat {pc next stop : Nat} {instr : Instr} {rest : Body} (fetched : fetch code pc = .ok instr next)
      (plain : instr.isFlat) (executes : known instr) (later : IsBody code next rest stop) :
      IsBody code pc (.flat instr rest) stop
  | block {pc start last after stop : Nat} {blockType : Byte} {body rest : Body}
      (fetched : fetch code pc = .ok (.block blockType) start) (inner : IsBody code start body last)
      (closed : fetch code last = .ok .endOp after) (later : IsBody code after rest stop) :
      IsBody code pc (.block blockType body rest) stop
  | loop {pc start last after stop : Nat} {blockType : Byte} {body rest : Body}
      (fetched : fetch code pc = .ok (.loop blockType) start) (inner : IsBody code start body last)
      (closed : fetch code last = .ok .endOp after) (later : IsBody code after rest stop) :
      IsBody code pc (.loop blockType body rest) stop
  | ifThen {pc start last after stop : Nat} {blockType : Byte} {body rest : Body}
      (fetched : fetch code pc = .ok (.ifOp blockType) start) (inner : IsBody code start body last)
      (closed : fetch code last = .ok .endOp after) (later : IsBody code after rest stop) :
      IsBody code pc (.ifThen blockType body rest) stop
  | ifElse {pc start last other last' after stop : Nat} {blockType : Byte} {body body' rest : Body}
      (fetched : fetch code pc = .ok (.ifOp blockType) start) (inner : IsBody code start body last)
      (turned : fetch code last = .ok .elseOp other) (inner' : IsBody code other body' last')
      (closed : fetch code last' = .ok .endOp after) (later : IsBody code after rest stop) :
      IsBody code pc (.ifElse blockType body body' rest) stop

/-- What is read is properly nested. -/
theorem IsBody.stretch {c : Body} (isBody : IsBody code pc c stop) : Stretch code pc stop := by
  induction isBody with
  | done pc => exact .done pc
  | flat fetched plain executes _ ih => exact .flat fetched plain executes ih
  | block fetched _ closed _ ih ih' => exact .block fetched rfl ih closed ih'
  | loop fetched _ closed _ ih ih' => exact .block fetched rfl ih closed ih'
  | ifThen fetched _ closed _ ih ih' => exact .block fetched rfl ih closed ih'
  | ifElse fetched _ turned _ closed _ ih ih' ih'' => exact .ifElse fetched ih turned ih' closed ih''

/-- Read code up to the `end` or `else` that closes it, and where that stands. -/
def readBody (code : List Byte) : (fuel : Nat) → (pc : Nat) → Option (Body × Nat)
  | 0, _ => none
  | fuel + 1, pc =>
    match fetch code pc with
    | .error _ _ => none
    | .ok instr start =>
      match instr with
      | .endOp | .elseOp => some (.done, pc)
      | .unknown _ => none
      | .block blockType => do
        let (body, last) ← readBody code fuel start
        let after ← closing last
        let (rest, stop) ← readBody code fuel after
        pure (.block blockType body rest, stop)
      | .loop blockType => do
        let (body, last) ← readBody code fuel start
        let after ← closing last
        let (rest, stop) ← readBody code fuel after
        pure (.loop blockType body rest, stop)
      | .ifOp blockType => do
        let (body, last) ← readBody code fuel start
        match fetch code last with
        | .ok .elseOp other => do
          let (body', last') ← readBody code fuel other
          let after ← closing last'
          let (rest, stop) ← readBody code fuel after
          pure (.ifElse blockType body body' rest, stop)
        | _ => do
          let after ← closing last
          let (rest, stop) ← readBody code fuel after
          pure (.ifThen blockType body rest, stop)
      | instr => do
        let (rest, stop) ← readBody code fuel start
        pure (.flat instr rest, stop)
where
  closing (last : Nat) : Option Nat :=
    match fetch code last with
    | .ok .endOp after => some after
    | _ => none

theorem closing_eq_some {last after : Nat} (closed : readBody.closing code last = some after) :
    fetch code last = .ok .endOp after := by
  unfold readBody.closing at closed
  split at closed
  · next found =>
    cases closed
    exact found
  · cases closed

theorem readBody_isBody {fuel : Nat} {c : Body} (found : readBody code fuel pc = some (c, stop)) : IsBody code pc c stop := by
  induction fuel generalizing pc c stop with
  | zero => cases found
  | succ fuel ih =>
    unfold readBody at found
    split at found
    · cases found
    next instr start fetched =>
    split at found
    · cases found
      exact .done pc
    · cases found
      exact .done pc
    · cases found
    · simp only [bind, Option.bind_eq_some_iff, pure, Option.some.injEq, Prod.exists, Prod.mk.injEq] at found
      obtain ⟨body, last, inner, after, closed, rest, _, later, rfl, rfl⟩ := found
      exact .block fetched (ih inner) (closing_eq_some closed) (ih later)
    · simp only [bind, Option.bind_eq_some_iff, pure, Option.some.injEq, Prod.exists, Prod.mk.injEq] at found
      obtain ⟨body, last, inner, after, closed, rest, _, later, rfl, rfl⟩ := found
      exact .loop fetched (ih inner) (closing_eq_some closed) (ih later)
    · simp only [bind, Option.bind_eq_some_iff, Prod.exists] at found
      obtain ⟨body, last, inner, found⟩ := found
      split at found
      · next turned =>
        simp only [Option.bind_eq_some_iff, pure, Option.some.injEq, Prod.exists, Prod.mk.injEq] at found
        obtain ⟨body', last', inner', after, closed, rest, _, later, rfl, rfl⟩ := found
        exact .ifElse fetched (ih inner) turned (ih inner') (closing_eq_some closed) (ih later)
      · simp only [Option.bind_eq_some_iff, pure, Option.some.injEq, Prod.exists, Prod.mk.injEq] at found
        obtain ⟨after, closed, rest, _, later, rfl, rfl⟩ := found
        exact .ifThen fetched (ih inner) (closing_eq_some closed) (ih later)
    · next ends turns unknown opens opens' opens'' =>
      simp only [bind, Option.bind_eq_some_iff, pure, Option.some.injEq, Prod.exists, Prod.mk.injEq] at found
      obtain ⟨rest, _, later, rfl, rfl⟩ := found
      refine .flat fetched ?_ ?_ (ih later)
      · cases instr <;> first | rfl | simp_all
      · cases instr <;> first | rfl | simp_all

end Reader

end GooseOs.Wasm
