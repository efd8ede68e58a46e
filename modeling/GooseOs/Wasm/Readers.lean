import GooseOs.Kernel.Opcode

/-!
The readers never leave the code and never fault. `Forward code k` is the one statement about all
of them: the program counter gains at least `k` and stays within the code.
-/

namespace GooseOs.Wasm.Reader

variable {code : List Byte} {α β : Type} {k l : Nat}

/-- No fault, and the program counter within the code. -/
def Stuck (code : List Byte) (stop : Stop TrapKind) (pc : Nat) : Prop := stop ≠ .fault ∧ pc ≤ code.length

def Forward (code : List Byte) (k : Nat) (r : Reader α) : Prop :=
  ∀ pc, pc ≤ code.length → wp r (fun _ next => pc + k ≤ next ∧ next ≤ code.length) (Stuck code) pc

namespace Forward

theorem pure (a : α) : Forward code 0 (Pure.pure a : Reader α) := fun _ within => ⟨Nat.le_refl _, within⟩

theorem fail (e : TrapKind) : Forward code k (GooseOs.fail e : Reader α) := fun _ within => ⟨by simp, within⟩

theorem weaken {r : Reader α} (forward : Forward code k r) (less : l ≤ k) : Forward code l r := by
  intro pc within
  apply wp_mono (forward pc within)
  · rintro _ next ⟨ahead, inside⟩
    exact ⟨by omega, inside⟩
  · exact fun _ _ => id

theorem bind {r : Reader α} {f : α → Reader β} (first : Forward code k r) (second : ∀ a, Forward code l (f a)) :
    Forward code (k + l) (r >>= f) := by
  intro pc within
  rw [wp_bind]
  apply wp_mono (first pc within)
  · rintro a mid ⟨ahead, inside⟩
    apply wp_mono (second a mid inside)
    · rintro _ next ⟨further, stays⟩
      exact ⟨by omega, stays⟩
    · exact fun _ _ => id
  · exact fun _ _ => id

theorem map {r : Reader α} (f : α → β) (forward : Forward code k r) : Forward code k (f <$> r) := by
  intro pc within
  rw [wp_map]
  exact forward pc within

theorem andThen {r : Reader α} {f : α → Reader β} (first : Forward code k r)
    (second : ∀ a, Forward code 0 (f a)) : Forward code k (r >>= f) := first.bind second

end Forward

section Small

variable (small : code.length < 2 ^ 32)

include small

theorem forward_readByte : Forward code 1 (readByte code) := by
  intro pc within
  simp only [readByte, wp_bind, wp_get]
  cases found : code[pc]? with
  | none => exact ⟨by simp, within⟩
  | some b =>
    obtain ⟨inside, _⟩ := List.getElem?_eq_some_iff.mp found
    rw [wp_bind, wp_plus, if_pos (by omega)]
    exact ⟨Nat.le_refl _, inside⟩

/-- The shift stays below the width: it is fixed by the bytes that are left. -/
theorem forward_readU32From (left : Nat) (result : BitVec 32) (shift : Nat) (paced : shift + 7 * left = 35) :
    Forward code 1 (readU32From code left result shift) := by
  induction left generalizing result shift with
  | zero => exact Forward.fail _
  | succ left ih =>
    apply (forward_readByte small).andThen
    intro byte pc within
    rw [wp_bind, wp_shl, if_pos (by omega), wp_ite]
    split
    · exact ⟨Nat.le_refl _, within⟩
    · rw [wp_bind, wp_plus, if_pos (by omega)]
      exact (ih _ _ (by omega)).weaken (Nat.zero_le 1) pc within

theorem forward_readU32Leb128 : Forward code 1 (readU32Leb128 code) :=
  forward_readU32From small 5 0 0 rfl

theorem forward_readSignedFrom {w : Nat} (wide : w ≤ 64) (left : Nat) (result : BitVec w) (shift : Nat)
    (paced : shift + 7 * left < w + 7) : Forward code 1 (readSignedFrom code left result shift) := by
  induction left generalizing result shift with
  | zero => exact Forward.fail _
  | succ left ih =>
    apply (forward_readByte small).andThen
    intro byte pc within
    rw [wp_bind, wp_shl, if_pos (by omega), wp_bind, wp_plus, if_pos (by omega), wp_ite, wp_ite]
    split
    · split
      · next negative =>
        rw [wp_bind, wp_shl, if_pos negative.1]
        exact ⟨Nat.le_refl _, within⟩
      · exact ⟨Nat.le_refl _, within⟩
    · exact (ih _ _ (by omega)).weaken (Nat.zero_le 1) pc within

theorem forward_readI32Leb128 : Forward code 1 (readI32Leb128 code) :=
  forward_readSignedFrom small (by omega) 5 0 0 (by omega)

theorem forward_readI64Leb128 : Forward code 1 (readI64Leb128 code) :=
  forward_readSignedFrom small (by omega) 10 0 0 (by omega)

theorem forward_two (f : BitVec 32 → BitVec 32 → α) :
    Forward code 0 (do
      let align ← readU32Leb128 code
      let offset ← readU32Leb128 code
      Pure.pure (f align offset)) := by
  apply ((forward_readU32Leb128 small).weaken (Nat.zero_le 1)).andThen
  intro align
  apply ((forward_readU32Leb128 small).weaken (Nat.zero_le 1)).andThen
  intro offset
  exact Forward.pure _

theorem forward_fetch : Forward code 1 (fetch code) := by
  apply (forward_readByte small).andThen
  intro opcode
  have byte := (forward_readByte small).weaken (Nat.zero_le 1)
  have index := (forward_readU32Leb128 small).weaken (Nat.zero_le 1)
  cases Op.ofByte opcode with
  | block | loop | ifOp | memorySize | memoryGrow => exact byte.map _
  | br | brIf | call | localGet | localSet | localTee => exact index.map _
  | load | store => exact forward_two small _
  | i32Const => exact ((forward_readI32Leb128 small).weaken (Nat.zero_le 1)).map _
  | i64Const => exact ((forward_readI64Leb128 small).weaken (Nat.zero_le 1)).map _
  | unreachable | nop | elseOp | endOp | returnOp | drop | select | numeric | unknown => exact Forward.pure _

theorem forward_skipImmediates (op : Op) : Forward code 0 (skipImmediates code op) := by
  cases op with
  | br | brIf | call | localGet | localSet | localTee =>
    exact ((forward_readU32Leb128 small).weaken (Nat.zero_le 1)).andThen fun _ => Forward.pure ()
  | i32Const => exact ((forward_readI32Leb128 small).weaken (Nat.zero_le 1)).andThen fun _ => Forward.pure ()
  | i64Const => exact ((forward_readI64Leb128 small).weaken (Nat.zero_le 1)).andThen fun _ => Forward.pure ()
  | load | store => exact forward_two small fun _ _ => ()
  | memorySize | memoryGrow =>
    exact ((forward_readByte small).weaken (Nat.zero_le 1)).andThen fun _ => Forward.pure ()
  | unreachable | nop | block | loop | ifOp | elseOp | endOp | returnOp | drop | select | numeric | unknown =>
    exact Forward.pure ()

/-! ### The scanners -/

/-- One block header: two bytes read, one level deeper, and the depth still below the bytes read. -/
theorem forward_deeper {depth pc : Nat} {f : Nat → Reader α} {Q : α → Nat → Prop} (inside : pc ≤ code.length)
    (shallow : depth ≤ pc)
    (rest : ∀ next, pc < next → next ≤ code.length → depth + 1 ≤ next → wp (f (depth + 1)) Q (Stuck code) next) :
    wp (do
      let _ ← readByte code
      let depth ← plus 32 depth 1
      f depth) Q (Stuck code) pc := by
  rw [wp_bind]
  apply wp_mono (forward_readByte small pc inside)
  · rintro _ next ⟨ahead, within⟩
    rw [wp_bind, wp_plus, if_pos (by omega)]
    exact rest next ahead within (by omega)
  · exact fun _ _ => id

/-- The depth never exceeds the bytes read, so it fits its type; a round consumes a byte, so the
fuel outlasts the code. -/
theorem forward_skipToEndFrom (fuel depth pc : Nat) (within : pc ≤ code.length) (enough : code.length < pc + fuel)
    (shallow : depth ≤ pc + 1) :
    wp (skipToEndFrom code fuel depth) (fun _ next => pc ≤ next ∧ next ≤ code.length) (Stuck code) pc := by
  induction fuel generalizing depth pc with
  | zero => omega
  | succ fuel ih =>
    rw [skipToEndFrom, wp_ite]
    split
    case isFalse => exact ⟨Nat.le_refl _, within⟩
    rw [wp_bind]
    apply wp_mono (forward_readByte small pc within) _ fun _ _ => id
    rintro byte mid ⟨ahead, inside⟩
    have deeper : wp (do
        let _ ← readByte code
        let depth ← plus 32 depth 1
        skipToEndFrom code fuel depth) (fun _ next => pc ≤ next ∧ next ≤ code.length) (Stuck code) mid := by
      apply forward_deeper small inside (by omega)
      intro next further stays bound
      apply wp_mono (ih (depth + 1) next stays (by omega) (by omega)) _ fun _ _ => id
      rintro _ last ⟨onward, held⟩
      exact ⟨by omega, held⟩
    have other (op : Op) : wp (do
        skipImmediates code op
        skipToEndFrom code fuel depth) (fun _ next => pc ≤ next ∧ next ≤ code.length) (Stuck code) mid := by
      rw [wp_bind]
      apply wp_mono (forward_skipImmediates small op mid inside) _ fun _ _ => id
      rintro _ next ⟨further, stays⟩
      apply wp_mono (ih depth next stays (by omega) (by omega)) _ fun _ _ => id
      rintro _ last ⟨onward, held⟩
      exact ⟨by omega, held⟩
    split
    · exact deeper
    · exact deeper
    · exact deeper
    · rw [wp_bind, wp_minus, if_pos (by omega)]
      apply wp_mono (ih (depth - 1) mid inside (by omega) (by omega)) _ fun _ _ => id
      rintro _ last ⟨onward, held⟩
      exact ⟨by omega, held⟩
    · exact other _

theorem forward_skipToEnd : Forward code 0 (skipToEnd code) := fun pc within =>
  forward_skipToEndFrom small (code.length + 2) 1 pc within (by omega) (by omega)

theorem forward_skipToElseOrEndFrom (fuel depth pc : Nat) (within : pc ≤ code.length)
    (enough : code.length < pc + fuel) (shallow : depth ≤ pc + 1) :
    wp (skipToElseOrEndFrom code fuel depth) (fun _ next => pc ≤ next ∧ next ≤ code.length) (Stuck code) pc := by
  induction fuel generalizing depth pc with
  | zero => omega
  | succ fuel ih =>
    rw [skipToElseOrEndFrom, wp_ite]
    split
    case isFalse => exact ⟨Nat.le_refl _, within⟩
    rw [wp_bind]
    apply wp_mono (forward_readByte small pc within) _ fun _ _ => id
    rintro byte mid ⟨ahead, inside⟩
    have again (less next : Nat) (below : less ≤ next + 1) (further : mid ≤ next) (stays : next ≤ code.length) :
        wp (skipToElseOrEndFrom code fuel less) (fun _ next => pc ≤ next ∧ next ≤ code.length) (Stuck code) next := by
      apply wp_mono (ih less next stays (by omega) below) _ fun _ _ => id
      rintro _ last ⟨onward, held⟩
      exact ⟨by omega, held⟩
    have deeper : wp (do
        let _ ← readByte code
        let depth ← plus 32 depth 1
        skipToElseOrEndFrom code fuel depth) (fun _ next => pc ≤ next ∧ next ≤ code.length) (Stuck code) mid := by
      apply forward_deeper small inside (by omega)
      intro next further stays bound
      exact again (depth + 1) next (by omega) (by omega) stays
    have other (op : Op) : wp (do
        skipImmediates code op
        skipToElseOrEndFrom code fuel depth) (fun _ next => pc ≤ next ∧ next ≤ code.length) (Stuck code) mid := by
      rw [wp_bind]
      apply wp_mono (forward_skipImmediates small op mid inside) _ fun _ _ => id
      rintro _ next ⟨further, stays⟩
      exact again depth next (by omega) (by omega) stays
    split
    · exact deeper
    · exact deeper
    · exact deeper
    · rw [wp_bind, wp_minus, if_pos (by omega), wp_ite]
      split
      · exact ⟨by omega, inside⟩
      · exact again (depth - 1) mid (by omega) (Nat.le_refl _) inside
    · rw [wp_ite]
      split
      · exact ⟨by omega, inside⟩
      · exact again depth mid (by omega) (Nat.le_refl _) inside
    · exact other _

theorem forward_skipToElseOrEnd : Forward code 0 (skipToElseOrEnd code) := fun pc within =>
  forward_skipToElseOrEndFrom small (code.length + 2) 1 pc within (by omega) (by omega)

/-! ### Local declarations -/

/-- A group takes two bytes and declares fewer than `2 ^ 32` locals. -/
theorem forward_readGroups (groups declared pc : Nat) (within : pc ≤ code.length)
    (few : declared ≤ pc * 2 ^ 32) :
    wp (readGroups code groups declared)
      (fun total next => pc ≤ next ∧ next ≤ code.length ∧ total ≤ next * 2 ^ 32) (Stuck code) pc := by
  induction groups generalizing declared pc with
  | zero => exact ⟨Nat.le_refl _, within, few⟩
  | succ groups ih =>
    rw [readGroups, wp_bind]
    apply wp_mono (forward_readU32Leb128 small pc within) _ fun _ _ => id
    rintro count mid ⟨ahead, inside⟩
    rw [wp_bind]
    apply wp_mono (forward_readByte small mid inside) _ fun _ _ => id
    rintro _ next ⟨further, stays⟩
    have bound := count.isLt
    rw [wp_bind, wp_plus, if_pos (by omega)]
    apply wp_mono (ih (declared + count.toNat) next stays (by omega)) _ fun _ _ => id
    rintro total last ⟨onward, held, more⟩
    exact ⟨by omega, held, more⟩

theorem forward_readLocals (pc : Nat) (within : pc ≤ code.length) :
    wp (readLocals code) (fun total next => next ≤ code.length ∧ total ≤ code.length * 2 ^ 32) (Stuck code) pc := by
  rw [readLocals, wp_bind]
  apply wp_mono (forward_readU32Leb128 small pc within) _ fun _ _ => id
  rintro groups mid ⟨ahead, inside⟩
  apply wp_mono (forward_readGroups small groups.toNat 0 mid inside (Nat.zero_le _)) _ fun _ _ => id
  rintro total next ⟨further, stays, few⟩
  exact ⟨stays, few.trans (Nat.mul_le_mul_right _ stays)⟩

end Small

end GooseOs.Wasm.Reader
