import GooseOs.Wasm.LinearMemory

/-!
`fd_write` and the buffers it is given. They are printed one after another until one is not inside memory; the count is
stored when all are.
-/

namespace GooseOs.Wasm

section Buffers
variable {n : Nat} {memory : LinearMemory n} {iovsPtr nwrittenPtr addr ptr len count i : Nat} {b : WasiBridge}
  {total : BitVec 32}

/-- The word at an address inside memory. -/
def LinearMemory.word? (memory : LinearMemory n) (addr : Nat) : Option Nat :=
  if addr + 4 ≤ n then some (leValue (memory.bytes addr 4)) else none

/-- What the `i`-th entry names, when it and its buffer lie inside memory. -/
def LinearMemory.buffer? (memory : LinearMemory n) (iovsPtr i : Nat) : Option (List Byte) :=
  match memory.word? (iovsPtr + i * 8), memory.word? (iovsPtr + i * 8 + 4) with
  | some ptr, some len => if ptr + len ≤ n then some (memory.bytes ptr len) else none
  | _, _ => none

/-- The buffers of `count` entries from the `i`-th on, up to the first that is not inside memory. -/
def LinearMemory.buffers (memory : LinearMemory n) (iovsPtr : Nat) : (count i : Nat) → List (List Byte)
  | 0, _ => []
  | count + 1, i =>
    match memory.buffer? iovsPtr i with
    | some bytes => bytes :: memory.buffers iovsPtr count (i + 1)
    | none => []

/-! ### Words -/

theorem length_bytes (inside : ptr + len ≤ n) : (memory.bytes ptr len).length = len := by
  induction len generalizing ptr with
  | zero => rfl
  | succ len ih => rw [bytes_succ (show ptr < n by omega), List.length_cons, ih (by omega)]

theorem toNat_append {w : Nat} (high : BitVec w) (low : Byte) : (high ++ low).toNat = low.toNat + 256 * high.toNat := by
  rw [BitVec.toNat_append, ← Nat.shiftLeft_add_eq_or_of_lt low.isLt, Nat.shiftLeft_eq]
  omega

theorem readU32Le_eq : readU32Le memory addr = match memory.word? addr with
    | some v => .ok (BitVec.ofNat 32 v)
    | none => .error 28 := by
  unfold readU32Le LinearMemory.word?
  by_cases inside : addr + 4 ≤ n
  · rw [dif_pos inside, if_pos inside]
    congr 1
    apply BitVec.eq_of_toNat_eq
    rw [bytes_succ (show addr < n by omega), bytes_succ (show addr + 1 < n by omega), bytes_succ (show addr + 2 < n by omega),
      bytes_succ (show addr + 3 < n by omega), toNat_append, toNat_append, toNat_append, BitVec.toNat_ofNat]
    have first := (memory ⟨addr, by omega⟩).isLt
    have second := (memory ⟨addr + 1, by omega⟩).isLt
    have third := (memory ⟨addr + 2, by omega⟩).isLt
    have fourth := (memory ⟨addr + 3, by omega⟩).isLt
    simp only [leValue, show memory.bytes (addr + 1 + 1 + 1 + 1) 0 = [] from rfl]
    omega
  · rw [dif_neg inside, if_neg inside]

theorem word?_lt {v : Nat} (there : memory.word? addr = some v) : v < 2 ^ 32 := by
  unfold LinearMemory.word? at there
  split at there
  · next inside =>
    cases there
    have bound := @leValue_lt (memory.bytes addr 4)
    rwa [length_bytes inside] at bound
  · cases there

/-! ### The loop -/

@[simp] theorem emitBytes_nil : b.emitBytes [] = b := by
  simp [WasiBridge.emitBytes]

@[simp] theorem emitBytes_emitBytes {xs ys : List Byte} : (b.emitBytes xs).emitBytes ys = b.emitBytes (xs ++ ys) := by
  simp [WasiBridge.emitBytes]

theorem buffer?_bytes {bytes : List Byte} (found : memory.buffer? iovsPtr i = some bytes) :
    ∃ ptr len, memory.word? (iovsPtr + i * 8) = some ptr ∧ memory.word? (iovsPtr + i * 8 + 4) = some len ∧
      ptr + len ≤ n ∧ bytes = memory.bytes ptr len := by
  unfold LinearMemory.buffer? at found
  split at found
  · next ptr len first second =>
    split at found
    · next inside =>
      cases found
      exact ⟨ptr, len, first, second, inside, rfl⟩
    · cases found
  · cases found

/-- One entry: its buffer is printed, or the call fails here. -/
theorem writeBuffers_some {bytes : List Byte} (found : memory.buffer? iovsPtr i = some bytes) :
    WasiBridge.writeBuffers memory iovsPtr nwrittenPtr (count + 1) i b total =
      WasiBridge.writeBuffers memory iovsPtr nwrittenPtr count (i + 1) (b.emitBytes bytes)
        (total + BitVec.ofNat 32 bytes.length) := by
  obtain ⟨ptr, len, first, second, inside, same⟩ := buffer?_bytes found
  have back : (BitVec.ofNat 32 ptr).toNat = ptr := Nat.mod_eq_of_lt (word?_lt first)
  have back' : (BitVec.ofNat 32 len).toNat = len := Nat.mod_eq_of_lt (word?_lt second)
  rw [WasiBridge.writeBuffers, readU32Le_eq, readU32Le_eq, first, second]
  simp only [back, back', if_neg (Nat.not_lt_of_le inside)]
  rw [same, length_bytes inside]

theorem writeBuffers_none (bad : memory.buffer? iovsPtr i = none) : ∃ result, result ≠ .ok (some 0) ∧
    WasiBridge.writeBuffers memory iovsPtr nwrittenPtr (count + 1) i b total = (result, b, memory) := by
  unfold LinearMemory.buffer? at bad
  rw [WasiBridge.writeBuffers, readU32Le_eq, readU32Le_eq]
  cases first : memory.word? (iovsPtr + i * 8) with
  | none => exact ⟨.error 28, by simp, rfl⟩
  | some ptr =>
    cases second : memory.word? (iovsPtr + i * 8 + 4) with
    | none => exact ⟨.error 28, by simp, rfl⟩
    | some len =>
      have back : (BitVec.ofNat 32 ptr).toNat = ptr := Nat.mod_eq_of_lt (word?_lt first)
      have back' : (BitVec.ofNat 32 len).toNat = len := Nat.mod_eq_of_lt (word?_lt second)
      rw [first, second] at bad
      dsimp only at bad
      simp only [back, back']
      split
      · exact ⟨.ok (some 28), by decide, rfl⟩
      · next inside =>
        rw [if_pos (Nat.le_of_not_lt inside)] at bad
        cases bad

/-- Every entry is good: the loop prints all buffers and stores the count. -/
theorem writeBuffers_all (all : (memory.buffers iovsPtr count i).length = count) :
    WasiBridge.writeBuffers memory iovsPtr nwrittenPtr count i b total =
      WasiBridge.writeBuffers memory iovsPtr nwrittenPtr 0 (i + count)
        (b.emitBytes (memory.buffers iovsPtr count i).flatten)
        (total + BitVec.ofNat 32 (memory.buffers iovsPtr count i).flatten.length) := by
  induction count generalizing i b total with
  | zero => simp [LinearMemory.buffers]
  | succ count ih =>
    rw [LinearMemory.buffers] at all ⊢
    cases found : memory.buffer? iovsPtr i with
    | none =>
      rw [found] at all
      cases all
    | some bytes =>
      rw [found] at all
      have rest : (memory.buffers iovsPtr count (i + 1)).length = count := by simpa using all
      rw [writeBuffers_some found, ih rest]
      simp only [List.flatten_cons, emitBytes_emitBytes, List.length_append, BitVec.ofNat_add]
      rw [BitVec.add_assoc, show i + 1 + count = i + (count + 1) by omega]

/-- Some entry is bad: the buffers before it have been printed. -/
theorem writeBuffers_bad (bad : (memory.buffers iovsPtr count i).length ≠ count) : ∃ result, result ≠ .ok (some 0) ∧
    WasiBridge.writeBuffers memory iovsPtr nwrittenPtr count i b total =
      (result, b.emitBytes (memory.buffers iovsPtr count i).flatten, memory) := by
  induction count generalizing i b total with
  | zero => exact absurd rfl bad
  | succ count ih =>
    rw [LinearMemory.buffers] at bad ⊢
    cases found : memory.buffer? iovsPtr i with
    | none =>
      rw [List.flatten_nil, emitBytes_nil]
      exact writeBuffers_none found
    | some bytes =>
      rw [found] at bad
      obtain ⟨result, failed, ran⟩ := @ih (i + 1) (b.emitBytes bytes) (total + BitVec.ofNat 32 bytes.length) (by simpa using bad)
      refine ⟨result, failed, ?_⟩
      rw [writeBuffers_some found, ran]
      simp

/-! ### The count -/

theorem length_buffers_iff : (memory.buffers iovsPtr count i).length = count ↔
    ∀ j < count, (memory.buffer? iovsPtr (i + j)).isSome := by
  induction count generalizing i with
  | zero => simp [LinearMemory.buffers]
  | succ count ih =>
    rw [LinearMemory.buffers]
    cases found : memory.buffer? iovsPtr i with
    | none =>
      constructor
      · nofun
      · intro all
        have first := all 0 (Nat.succ_pos count)
        rw [Nat.add_zero, found] at first
        cases first
    | some bytes =>
      rw [List.length_cons, Nat.add_right_cancel_iff, ih]
      constructor
      · intro all j low
        cases j with
        | zero => simp [found]
        | succ j =>
          rw [show i + (j + 1) = i + 1 + j by omega]
          exact all j (by omega)
      · intro all j low
        rw [show i + 1 + j = i + (j + 1) by omega]
        exact all (j + 1) (by omega)

theorem length_flatten_le : (memory.buffers iovsPtr count i).flatten.length ≤ count * n := by
  induction count generalizing i with
  | zero => simp [LinearMemory.buffers]
  | succ count ih =>
    rw [LinearMemory.buffers]
    cases found : memory.buffer? iovsPtr i with
    | none => simp
    | some bytes =>
      obtain ⟨ptr, len, _, _, inside, same⟩ := buffer?_bytes found
      have later := @ih (i + 1)
      rw [List.flatten_cons, List.length_append, same, length_bytes inside, Nat.succ_mul]
      omega

theorem buffers_inside (some_ : 0 < count) (all : ∀ j < count, (memory.buffer? iovsPtr j).isSome) :
    iovsPtr + 8 * count ≤ n := by
  obtain ⟨bytes, found⟩ := Option.isSome_iff_exists.mp (all (count - 1) (by omega))
  obtain ⟨_, _, _, second, _⟩ := buffer?_bytes found
  unfold LinearMemory.word? at second
  split at second
  · omega
  · cases second

theorem map_buffers (all : (memory.buffers iovsPtr count i).length = count) :
    (List.range' i count).map (memory.buffer? iovsPtr) = (memory.buffers iovsPtr count i).map some := by
  induction count generalizing i with
  | zero => rfl
  | succ count ih =>
    rw [LinearMemory.buffers] at all ⊢
    cases found : memory.buffer? iovsPtr i with
    | none =>
      rw [found] at all
      cases all
    | some bytes =>
      rw [found] at all
      rw [List.range'_succ, List.map_cons, List.map_cons, found, ih (by simpa using all)]

/-- Each entry takes eight bytes of memory, so the count does not wrap. -/
theorem total_lt (small : n ≤ 65536) (all : ∀ j < count, (memory.buffer? iovsPtr j).isSome) :
    (memory.buffers iovsPtr count 0).flatten.length < 2 ^ 32 := by
  have total := @length_flatten_le n memory iovsPtr count 0
  rcases Nat.eq_zero_or_pos count with none_ | some_
  · subst none_
    exact Nat.two_pow_pos 32
  · have inside := buffers_inside some_ all
    have few : count ≤ 8192 := by omega
    have bound : count * n ≤ 8192 * 65536 := Nat.mul_le_mul few small
    omega

/-! ### The call -/

/-- `fd_write` can serve the request. -/
def WasiBridge.Serves (memory : LinearMemory n) (fd iovsPtr iovsLen nwrittenPtr : BitVec 32) : Prop :=
  (fd = 1 ∨ fd = 2) ∧ (∀ i < iovsLen.toNat, (memory.buffer? iovsPtr.toNat i).isSome) ∧ nwrittenPtr.toNat + 4 ≤ n

/-- What is printed: the buffers up to the first bad one, when the descriptor is one of the two. -/
def WasiBridge.printed (memory : LinearMemory n) (fd iovsPtr iovsLen : BitVec 32) : List Byte :=
  if fd = 1 ∨ fd = 2 then (memory.buffers iovsPtr.toNat iovsLen.toNat 0).flatten else []

theorem fdWrite_eq {fd iovs len nwritten : Word} {rest : List Word} :
    b.fdWrite (fd :: iovs :: len :: nwritten :: rest) memory =
      if Meaning.low fd = 1 ∨ Meaning.low fd = 2 then
        WasiBridge.writeBuffers memory (Meaning.low iovs).toNat (Meaning.low nwritten).toNat (Meaning.low len).toNat 0 b 0
      else (.ok (some 8), b, memory) := by
  rw [WasiBridge.fdWrite]
  by_cases known : Meaning.low fd = 1 ∨ Meaning.low fd = 2
  · rw [if_pos known]
    exact if_neg (by rwa [← not_or, not_not])
  · rw [if_neg known]
    exact if_pos (not_or.mp known)

/-- A request is served as a whole, or it fails: then memory is as before and the buffers up to the first bad one have been
printed. -/
theorem fdWrite_streams (small : n ≤ 65536) (b : WasiBridge) (memory : LinearMemory n) :
    (∀ (fd iovs len nwritten : Word) rest,
      (WasiBridge.Serves memory (Meaning.low fd) (Meaning.low iovs) (Meaning.low len) (Meaning.low nwritten) →
        ∃ bytes : List (List Byte),
          (List.range (Meaning.low len).toNat).map (memory.buffer? (Meaning.low iovs).toNat) = bytes.map some ∧
          bytes.flatten.length < 2 ^ 32 ∧ b.fdWrite (fd :: iovs :: len :: nwritten :: rest) memory =
            (.ok (some 0), b.emitBytes bytes.flatten,
              memory.patch ⟨(Meaning.low nwritten).toNat, leBytes 4 bytes.flatten.length⟩)) ∧
      (¬ WasiBridge.Serves memory (Meaning.low fd) (Meaning.low iovs) (Meaning.low len) (Meaning.low nwritten) →
        ∃ result, result ≠ .ok (some 0) ∧ b.fdWrite (fd :: iovs :: len :: nwritten :: rest) memory =
          (result, b.emitBytes (WasiBridge.printed memory (Meaning.low fd) (Meaning.low iovs) (Meaning.low len)), memory))) ∧
    ∀ args : List Word, args.length < 4 → b.fdWrite args memory = (.error 1, b, memory) := by
  refine ⟨fun fd iovs len nwritten rest => ⟨fun serves => ?_, fun refuses => ?_⟩, fun args few => ?_⟩
  · obtain ⟨known, good, room⟩ := serves
    have all : (memory.buffers (Meaning.low iovs).toNat (Meaning.low len).toNat 0).length = (Meaning.low len).toNat :=
      length_buffers_iff.mpr (by simpa using good)
    have short := total_lt small good
    refine ⟨memory.buffers (Meaning.low iovs).toNat (Meaning.low len).toNat 0, ?_, short, ?_⟩
    · rw [List.range_eq_range']
      exact map_buffers all
    · rw [fdWrite_eq, if_pos known, writeBuffers_all all, WasiBridge.writeBuffers, writeU32Le, if_pos room,
        show (0 : BitVec 32) = 0#32 from rfl, BitVec.zero_add, writeLe_eq, BitVec.toNat_ofNat, Nat.mod_eq_of_lt short]
  · rw [fdWrite_eq, WasiBridge.printed]
    by_cases known : Meaning.low fd = 1 ∨ Meaning.low fd = 2
    · rw [if_pos known, if_pos known]
      by_cases all : (memory.buffers (Meaning.low iovs).toNat (Meaning.low len).toNat 0).length = (Meaning.low len).toNat
      · have outside : ¬ (Meaning.low nwritten).toNat + 4 ≤ n := fun room =>
          refuses ⟨known, by simpa using length_buffers_iff.mp all, room⟩
        rw [writeBuffers_all all, WasiBridge.writeBuffers, writeU32Le, if_neg outside]
        exact ⟨.error 28, by simp, rfl⟩
      · exact writeBuffers_bad all
    · rw [if_neg known, if_neg known, emitBytes_nil]
      exact ⟨.ok (some 8), by decide, rfl⟩
  · rcases args with _ | ⟨_, _ | ⟨_, _ | ⟨_, _ | ⟨_, _⟩⟩⟩⟩
    case cons.cons.cons.cons => exact absurd few (by simp)
    all_goals rfl

/-- The second of two entries names a buffer outside memory. -/
def twoEntries : LinearMemory 65536 := fun x =>
  [0x10, 0, 0, 0, 1, 0, 0, 0, 0xFF, 0xFF, 0xFF, 0xFF, 1, 0, 0, 0, 0x41].getD x 0

theorem fdWrite_prints_first : ¬ (¬ WasiBridge.Serves twoEntries 1 0 2 32 →
    ∃ result, WasiBridge.fdWrite { importCount := 1 } [1, 0, 2, 32] twoEntries =
      (result, { importCount := 1 }, twoEntries)) := by
  intro atomic
  have refused : ¬ WasiBridge.Serves twoEntries 1 0 2 32 := fun serves => absurd (serves.2.1 1 (by decide)) (by decide)
  obtain ⟨result, same⟩ := atomic refused
  have output : (WasiBridge.fdWrite { importCount := 1 } [1, 0, 2, 32] twoEntries).2.1.output = [0x41] := by decide
  rw [same] at output
  cases output

theorem fdWrite_streams_first : ∃ result, result ≠ .ok (some 0) ∧
    WasiBridge.fdWrite { importCount := 1 } [1, 0, 2, 32] twoEntries =
      (result, WasiBridge.emitBytes { importCount := 1 } (WasiBridge.printed twoEntries 1 0 2), twoEntries) :=
  ((fdWrite_streams (by decide) { importCount := 1 } twoEntries).1 1 0 2 32 []).2 fun serves =>
    absurd (serves.2.1 1 (by decide)) (by decide)

end Buffers

end GooseOs.Wasm
