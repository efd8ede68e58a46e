import GooseOs.Kernel.Interp
import GooseOs.Wasm.Parsed

/-!
The index space of functions: the imports, then the local functions. `call` goes through it; `func_type` counts
from the local functions on.
-/

namespace GooseOs.Wasm

/-- The signature of a function of the index space. -/
def WasmModule.callType (m : WasmModule) (f : BitVec 32) : Option FuncType :=
  if f.toNat < m.importCount then (m.importTypes.at? f.toNat).bind fun typeIdx => m.types.at? typeIdx.toNat
  else if f.toNat - m.importCount < m.funcCount then
    (m.funcTypes.at? (f.toNat - m.importCount)).bind fun typeIdx => m.types.at? typeIdx.toNat
  else none

section Calls
variable {n : Nat} {σ : Type} (p : Program)

/-- Where `call` finds the signature. -/
def callSignature (target : BitVec 32) : Exec n σ FuncType :=
  if target < p.numImports then do
    let typeIdx ← p.module.importTypes.load target.toNat
    p.module.types.load typeIdx.toNat
  else Prod.fst <$> resolve p target

/-- A signature, or the trap of a function index outside the index space. -/
def orInvalid : Option FuncType → Exec n σ FuncType
  | some funcType => pure funcType
  | none => fail .invalidFunction

/-- What `call_host` does with the signature. -/
def callHostWith (h : HostFunctions n σ) (target : BitVec 32) (funcType : FuncType) : Exec n σ Unit := do
  failIf ((← get).sp < funcType.paramCount) .stackUnderflow
  let args ← popArgs funcType.paramCount fun _ => 0
  let args ← slice args funcType.paramCount
  let s ← get
  let (result, host, memory) := h.call s.host target args s.memory
  set { s with host, memory }
  match result with
  | .error code => fail (.hostCallError code)
  | .ok result => pushResult result

theorem callHost_eq (h : HostFunctions n σ) {target : BitVec 32} (imported : target < p.numImports) :
    callHost p h target = callSignature p target >>= callHostWith h target := by
  rw [callSignature, if_pos imported, bind_assoc]
  rfl

end Calls

section Types
variable {data : List Byte} {m : WasmModule} {f : BitVec 32} {n : Nat} {σ : Type}

/-- The program `run_wasm` makes of a module. -/
def WasmModule.program (m : WasmModule) (code : List Byte) : Program where
  module := m
  code := code
  numImports := BitVec.ofNat 32 m.importCount

theorem importCount_toNat (sound : m.Sound data) : (m.program data).numImports.toNat = m.importCount := by
  have few := sound.imports
  show (BitVec.ofNat 32 m.importCount).toNat = _
  rw [BitVec.toNat_ofNat]
  exact Nat.mod_eq_of_lt (by simp only [maxImports] at few; omega)

theorem WasmModule.Sound.imported (sound : m.Sound data) {i : Nat} (below : i < m.importCount) :
    ∃ (inside : i < maxImports) (inside' : (m.importTypes ⟨i, inside⟩).toNat < maxTypes),
      ((m.importTypes.at? i).bind fun typeIdx => m.types.at? typeIdx.toNat) = some (m.types ⟨_, inside'⟩) := by
  have inside : i < maxImports := Nat.lt_of_lt_of_le below sound.imports
  have inside' := Nat.lt_of_lt_of_le (sound.importType ⟨i, inside⟩ below) sound.types
  refine ⟨inside, inside', ?_⟩
  rw [FixedArray.at?, dif_pos inside, Option.bind_some, FixedArray.at?, dif_pos inside']

theorem WasmModule.Sound.local_ (sound : m.Sound data) {i : Nat} (below : i < m.funcCount) :
    ∃ (inside : i < maxFuncs) (inside' : (m.funcTypes ⟨i, inside⟩).toNat < maxTypes),
      (m.funcTypes ⟨i, inside⟩).toNat < m.typeCount ∧
      ((m.funcTypes.at? i).bind fun typeIdx => m.types.at? typeIdx.toNat) = some (m.types ⟨_, inside'⟩) := by
  have inside : i < maxFuncs := Nat.lt_of_lt_of_le below sound.funcs
  have known := sound.funcType ⟨i, inside⟩ below
  have inside' := Nat.lt_of_lt_of_le known sound.types
  refine ⟨inside, inside', known, ?_⟩
  rw [FixedArray.at?, dif_pos inside, Option.bind_some, FixedArray.at?, dif_pos inside']

/-- `call` uses the signature of the index space, and traps outside it. -/
theorem callSignature_eq (sound : m.Sound data) (f : BitVec 32) :
    (callSignature (m.program data) f : Exec n σ FuncType) = orInvalid (m.callType f) := by
  funext s
  have imports := importCount_toNat sound
  have below : f < (m.program data).numImports ↔ f.toNat < m.importCount := by
    rw [BitVec.lt_def, imports]
  rw [callSignature, WasmModule.callType]
  by_cases imported : f.toNat < m.importCount
  · obtain ⟨inside, inside', there⟩ := sound.imported imported
    rw [if_pos (below.mpr imported), if_pos imported, there]
    exact bind_eq_ok.mpr ⟨_, _, load_eq_ok.mpr ⟨inside, rfl, rfl⟩, load_eq_ok.mpr ⟨inside', rfl, rfl⟩⟩
  · rw [if_neg (mt below.mp imported), if_neg imported]
    by_cases own : f.toNat - m.importCount < m.funcCount
    · obtain ⟨inside, inside', known, there⟩ := sound.local_ own
      rw [if_pos own, there]
      refine map_eq_ok.mpr ⟨(_, m.bodies ⟨_, inside⟩), ?_, rfl⟩
      refine bind_eq_ok.mpr ⟨(), _, failIf_eq_ok.mpr ⟨mt below.mp imported, rfl⟩,
        bind_eq_ok.mpr ⟨_, _, minus_eq_ok.mpr ⟨by omega, rfl, rfl⟩, ?_⟩⟩
      rw [imports]
      exact bind_eq_ok.mpr ⟨(), _, failIf_eq_ok.mpr ⟨Nat.not_le_of_lt own, rfl⟩,
        bind_eq_ok.mpr ⟨_, _, load_eq_ok.mpr ⟨inside, rfl, rfl⟩,
          bind_eq_ok.mpr ⟨(), _, failIf_eq_ok.mpr ⟨Nat.not_le_of_lt known, rfl⟩,
            bind_eq_ok.mpr ⟨_, _, load_eq_ok.mpr ⟨inside', rfl, rfl⟩,
              bind_eq_ok.mpr ⟨_, _, load_eq_ok.mpr ⟨inside, rfl, rfl⟩, rfl⟩⟩⟩⟩⟩
    · have failed : resolve (m.program data) f s = .error (.error .invalidFunction) s := by
        rw [resolve, bind_run (a := ()) (failIf_eq_ok.mpr ⟨mt below.mp imported, rfl⟩),
          bind_run (minus_eq_ok.mpr ⟨by omega, rfl, rfl⟩), imports]
        exact bind_stop (failIf_stop (Nat.le_of_not_lt own))
      rw [if_neg own]
      simp only [Functor.map, EStateM.map, failed]
      rfl

/-- `func_type` takes the index for one among the local functions. -/
theorem funcType_eq (sound : m.Sound data) {ε τ : Type} (st : τ) : (m.funcType f : Prog ε τ (Option FuncType)) st =
    .ok (if f.toNat < m.funcCount then (m.funcTypes.at? f.toNat).bind fun typeIdx => m.types.at? typeIdx.toNat else none)
      st := by
  rw [WasmModule.funcType]
  by_cases own : f.toNat < m.funcCount
  · obtain ⟨inside, inside', known, there⟩ := sound.local_ own
    rw [if_neg (Nat.not_le_of_lt own), if_pos own, there]
    refine bind_eq_ok.mpr ⟨_, _, load_eq_ok.mpr ⟨inside, rfl, rfl⟩, ?_⟩
    rw [if_neg (Nat.not_le_of_lt known)]
    exact map_eq_ok.mpr ⟨_, load_eq_ok.mpr ⟨inside', rfl, rfl⟩, rfl⟩
  · rw [if_pos (Nat.le_of_not_lt own), if_neg own]
    rfl

theorem funcType_eq_callType_iff (sound : m.Sound data) :
    (∀ f : BitVec 32, (m.funcType f : Prog TrapKind Unit (Option FuncType)) () = .ok (m.callType f) ()) ↔
      m.importCount = 0 := by
  simp only [funcType_eq sound]
  constructor
  · intro agree
    by_contra some_
    have few := sound.funcs
    have same := agree (BitVec.ofNat 32 m.funcCount)
    have index : (BitVec.ofNat 32 m.funcCount).toNat = m.funcCount := by
      rw [BitVec.toNat_ofNat]
      exact Nat.mod_eq_of_lt (by simp only [maxFuncs] at few; omega)
    rw [index, if_neg (Nat.lt_irrefl _), WasmModule.callType, index] at same
    -- the last function of the index space is behind the end of the table
    by_cases imported : m.funcCount < m.importCount
    · obtain ⟨_, _, there⟩ := sound.imported imported
      rw [if_pos imported, there] at same
      cases same
    · obtain ⟨_, _, _, there⟩ := sound.local_ (show m.funcCount - m.importCount < m.funcCount by omega)
      rw [if_neg imported, if_pos (by omega), there] at same
      cases same
  · intro none f
    simp only [WasmModule.callType, none, Nat.not_lt_zero, if_false, Nat.sub_zero]

/-- `func_type` answers for the function that `call` would call exactly in the modules without imports. -/
theorem funcType_agrees_iff (accepted : parse data = .ok m) :
    (∀ (f : BitVec 32) (n : Nat) (σ : Type),
        (callSignature (m.program data) f : Exec n σ FuncType) = orInvalid (m.callType f)) ∧
      ((∀ f : BitVec 32, (m.funcType f : Prog TrapKind Unit (Option FuncType)) () = .ok (m.callType f) ()) ↔
        m.importCount = 0) :=
  have sound := sound_of_parse accepted
  ⟨fun f _ _ => callSignature_eq sound f, funcType_eq_callType_iff sound⟩

end Types

theorem funcType_agrees_strayElse :
    (∀ (f : BitVec 32) (n : Nat) (σ : Type), (callSignature ((parsed strayElse).program strayElse) f : Exec n σ FuncType) =
        orInvalid ((parsed strayElse).callType f)) ∧
      ((∀ f : BitVec 32, ((parsed strayElse).funcType f : Prog TrapKind Unit (Option FuncType)) () =
        .ok ((parsed strayElse).callType f) ()) ↔ (parsed strayElse).importCount = 0) :=
  funcType_agrees_iff (parse_parsed strayElse_accepted)

/-- One import, of the second type, and one local function, of the first. -/
def oneImport : List Byte :=
  [0x00, 0x61, 0x73, 0x6D, 0x01, 0x00, 0x00, 0x00,
    0x01, 0x08, 0x02, 0x60, 0x00, 0x00, 0x60, 0x01, 0x7F, 0x00,
    0x02, 0x07, 0x01, 0x01, 0x61, 0x01, 0x66, 0x00, 0x01,
    0x03, 0x02, 0x01, 0x00,
    0x0A, 0x04, 0x01, 0x02, 0x00, 0x0B]

theorem oneImport_accepted : accepts oneImport := by decide +kernel

/-- With one import, `func_type` knows no function 1, which `call 1` calls. -/
theorem funcType_disagrees : ¬ ∀ (data : List Byte) (m : WasmModule), parse data = .ok m → ∀ f : BitVec 32,
    (m.funcType f : Prog TrapKind Unit (Option FuncType)) () = .ok (m.callType f) () := by
  intro agree
  have accepted := parse_parsed oneImport_accepted
  have none := (funcType_eq_callType_iff (sound_of_parse accepted)).mp (agree _ _ accepted)
  have one : (parsed oneImport).importCount = 1 := by decide +kernel
  exact absurd (one.symm.trans none) (by decide)

end GooseOs.Wasm
