import GooseOs.Wasm.Parsed

/-!
Sections and their payloads. The section parsers share one cursor without a limit, and the loop
of `parse` forces the cursor to the declared end. A payload is its own exactly when its parser
stops there by itself.
-/

namespace GooseOs.Wasm

open Cursor

variable {α β : Type} {data : List Byte}

/-! ### Parsers read forwards, and only what they pass -/

/-- What such a parser returns depends on the bytes it passes and on nothing after them. -/
def Local (x : List Byte → Parser α) : Prop :=
  ∀ d s a t, x d s = .ok a t → s.pos ≤ t.pos ∧
    ∀ d' : List Byte, (∀ i, s.pos ≤ i → i < t.pos → d'[i]? = d[i]?) → t.pos ≤ d'.length → x d' s = .ok a t

namespace Local

theorem const {y : Parser α} (stays : ∀ s, wp y (fun _ t => t.pos = s.pos) anyStop s) : Local fun _ => y := by
  intro d s a t result
  have same := wp_of_ok (stays s) result
  exact ⟨same.ge, fun _ _ _ => result⟩

theorem pure (a : α) : Local fun _ => Pure.pure a := const fun _ => rfl

theorem get : Local fun _ => (MonadState.get : Parser Parsing) := const fun _ => rfl

theorem failIf {c : Prop} [Decidable c] {e : WasmError} : Local fun _ => (GooseOs.failIf c e : Parser Unit) := by
  apply const
  intro s
  rw [wp_failIf]
  split
  · trivial
  · rfl

theorem bind {x : List Byte → Parser α} {f : α → List Byte → Parser β} (first : Local x)
    (second : ∀ a, Local (f a)) : Local fun d => x d >>= fun a => f a d := by
  intro d s b u result
  obtain ⟨a, t, here, later⟩ := bind_eq_ok.mp result
  obtain ⟨ahead, again⟩ := first d s a t here
  obtain ⟨further, onward⟩ := second a d t b u later
  refine ⟨ahead.trans further, fun d' same within => bind_eq_ok.mpr ⟨a, t, ?_, ?_⟩⟩
  · exact again d' (fun i low high => same i low (by omega)) (by omega)
  · exact onward d' (fun i low high => same i (by omega) high) within

theorem ite {c : Prop} [Decidable c] {x y : List Byte → Parser α} (yes : Local x) (no : Local y) :
    Local fun d => if c then x d else y d := by
  split
  · exact yes
  · exact no

theorem times {x : List Byte → Parser Unit} (reads : Local x) (count : Nat) :
    Local fun d => GooseOs.times count (x d) := by
  induction count with
  | zero => exact pure ()
  | succ count ih => exact reads.bind fun _ => ih

end Local

theorem readByte_eq_ok {s t : Parsing} {b : Byte} :
    readByte data s = .ok b t ↔ data[s.pos]? = some b ∧ s.pos + 1 < 2 ^ 64 ∧ t = { s with pos := s.pos + 1 } := by
  rw [readByte, bind_run (get_eq_ok.mpr ⟨rfl, rfl⟩)]
  cases data[s.pos]? with
  | none => simp
  | some v =>
    simp only [bind_eq_ok, plus_eq_ok, set_eq_ok, pure_eq_ok, Option.some.injEq]
    constructor
    · rintro ⟨_, _, ⟨fits, rfl, rfl⟩, _, _, rfl, rfl, rfl⟩
      exact ⟨rfl, fits, rfl⟩
    · rintro ⟨rfl, fits, rfl⟩
      exact ⟨_, _, ⟨fits, rfl, rfl⟩, (), _, rfl, rfl, rfl⟩

theorem local_readByte : Local readByte := by
  intro d s b t result
  obtain ⟨here, fits, rfl⟩ := readByte_eq_ok.mp result
  refine ⟨Nat.le_succ _, fun d' same _ => readByte_eq_ok.mpr ⟨?_, fits, rfl⟩⟩
  rw [same s.pos (Nat.le_refl _) (Nat.lt_succ_self _), here]

theorem readBytes_eq_ok {s t : Parsing} {k : Nat} {bytes : List Byte} :
    readBytes data k s = .ok bytes t ↔
      s.pos + k < 2 ^ 64 ∧ s.pos + k ≤ data.length ∧ bytes = (data.drop s.pos).take k ∧
        t = { s with pos := s.pos + k } := by
  simp [readBytes, and_comm, and_left_comm]

theorem local_readBytes (k : Nat) : Local fun d => readBytes d k := by
  intro d s bytes t result
  obtain ⟨fits, inside, rfl, rfl⟩ := readBytes_eq_ok.mp result
  refine ⟨Nat.le_add_right _ _, fun d' same within => readBytes_eq_ok.mpr ⟨fits, within, ?_, rfl⟩⟩
  apply List.ext_getElem?
  intro i
  rw [List.getElem?_take, List.getElem?_take]
  split
  · next below => rw [List.getElem?_drop, List.getElem?_drop, same (s.pos + i) (by omega) (by show _ < s.pos + k; omega)]
  · rfl

theorem skip_eq_ok {s t : Parsing} {k : Nat} {u : Unit} :
    skip data k s = .ok u t ↔ s.pos + k < 2 ^ 64 ∧ s.pos + k ≤ data.length ∧ t = { s with pos := s.pos + k } := by
  simp [skip, and_comm, and_left_comm]

theorem local_skip (k : Nat) : Local fun d => skip d k := by
  intro d s u t result
  obtain ⟨fits, inside, rfl⟩ := skip_eq_ok.mp result
  exact ⟨Nat.le_add_right _ _, fun d' _ within => skip_eq_ok.mpr ⟨fits, within, rfl⟩⟩

theorem local_readU32From (left : Nat) (result : BitVec 32) (shift : Nat) :
    Local fun d => readU32From d left result shift := by
  induction left generalizing result shift with
  | zero => exact Local.const fun _ => trivial
  | succ left ih =>
    apply local_readByte.bind
    intro byte
    apply Local.bind (Local.const _)
    · intro part
      exact (Local.pure _).ite (Local.bind (Local.const fun s => by rw [wp_plus]; split <;> trivial) fun _ => ih _ _)
    · intro s
      rw [wp_shl]
      split <;> trivial

theorem local_readU32Leb128 : Local readU32Leb128 := local_readU32From 5 0 0

theorem local_readValTypes {limit : Nat} (count j : Nat) (types : FixedArray limit Byte) :
    Local fun d => readValTypes d count j types := by
  induction count generalizing j types with
  | zero => exact Local.pure types
  | succ count ih =>
    apply local_readByte.bind
    intro vt
    apply Local.failIf.bind
    intro _
    apply Local.bind (Local.const _)
    · exact fun types => ih _ _
    · intro s
      rw [wp_store]
      split <;> trivial

theorem local_storeAll {limit : Nat} (a : FixedArray limit Byte) (i : Nat) (bytes : List Byte) :
    Local fun _ => (a.storeAll i bytes : Parser (FixedArray limit Byte)) := by
  induction bytes generalizing a i with
  | nil => exact Local.pure a
  | cons b rest ih =>
    apply Local.bind (Local.const _)
    · exact fun a => ih a _
    · intro s
      rw [wp_store]
      split <;> trivial

theorem storeAll_stays {limit : Nat} (a : FixedArray limit Byte) (i : Nat) (bytes : List Byte) (s : Parsing) :
    wp (a.storeAll i bytes : Parser (FixedArray limit Byte)) (fun _ t => t = s) anyStop s := by
  induction bytes generalizing a i with
  | nil => rfl
  | cons b rest ih =>
    apply bind_of_store
    intro _
    exact ih _ _

theorem local_parseType : Local parseType := by
  apply Local.get.bind
  intro s
  apply Local.failIf.bind
  intro _
  apply local_readByte.bind
  intro form
  apply Local.failIf.bind
  intro _
  apply local_readU32Leb128.bind
  intro paramCount
  apply Local.failIf.bind
  intro _
  apply (local_readValTypes _ _ _).bind
  intro params
  apply local_readU32Leb128.bind
  intro resultCount
  apply Local.failIf.bind
  intro _
  apply (local_readValTypes _ _ _).bind
  intro results
  apply Local.const
  intro s
  apply bind_of_get
  apply bind_of_store
  intro _
  apply bind_of_plus
  rfl

theorem local_parseFunction : Local parseFunction := by
  apply Local.get.bind
  intro s
  apply Local.failIf.bind
  intro _
  apply local_readU32Leb128.bind
  intro typeIdx
  apply Local.const
  intro s
  apply bind_of_get
  apply bind_of_check
  intro _
  apply bind_of_store
  intro _
  apply bind_of_plus
  rfl

theorem local_skipLimits : Local skipLimits := by
  apply local_readByte.bind
  intro flags
  apply local_readU32Leb128.bind
  intro _
  exact (local_readU32Leb128.bind fun _ => Local.pure ()).ite (Local.pure ())

theorem local_skipMemory : Local skipMemory := by
  apply local_readByte.bind
  intro flags
  apply local_readU32Leb128.bind
  intro _
  exact (local_readU32Leb128.bind fun _ => Local.pure ()).ite (Local.pure ())

theorem local_parseMemorySection : Local parseMemorySection := by
  apply local_readU32Leb128.bind
  intro count
  apply Local.ite _ (Local.pure ())
  apply local_readByte.bind
  intro flags
  apply local_readU32Leb128.bind
  intro min
  apply (local_readU32Leb128.ite (Local.pure 0)).bind
  intro max
  apply Local.bind (Local.const _)
  · exact fun _ => local_skipMemory.times _
  · exact fun _ => rfl

theorem local_parseExport : Local parseExport := by
  apply Local.get.bind
  intro s
  apply Local.failIf.bind
  intro _
  apply local_readU32Leb128.bind
  intro nameLen
  apply Local.failIf.bind
  intro _
  apply (local_readBytes _).bind
  intro nameBytes
  apply local_readByte.bind
  intro kind
  apply Local.failIf.bind
  intro _
  apply local_readU32Leb128.bind
  intro index
  apply (local_storeAll _ _ _).bind
  intro name
  apply Local.const
  intro s
  apply bind_of_get
  apply bind_of_store
  intro _
  apply bind_of_plus
  rfl

theorem local_parseBody : Local parseBody := by
  apply Local.get.bind
  intro s
  apply Local.failIf.bind
  intro _
  apply local_readU32Leb128.bind
  intro bodySize
  have recorded : Local fun _ => (do
      let s ← MonadState.get
      let bodies ← s.module.bodies.store s.module.bodyCount { offset := s.pos, length := bodySize.toNat }
      let bodyCount ← plus 64 s.module.bodyCount 1
      set { s with module := { s.module with bodies, bodyCount } } : Parser Unit) := by
    apply Local.const
    intro s
    apply bind_of_get
    apply bind_of_store
    intro _
    apply bind_of_plus
    rfl
  have whole := recorded.bind fun _ => local_skip bodySize.toNat
  simpa only [bind_assoc] using whole

theorem local_parseImportFunc (fieldName : List Byte) : Local fun d => parseImportFunc d fieldName := by
  apply Local.get.bind
  intro s
  apply Local.failIf.bind
  intro _
  apply local_readU32Leb128.bind
  intro typeIdx
  apply Local.const
  intro s
  apply bind_of_get
  apply bind_of_check
  intro _
  apply bind_of_store
  intro _
  apply bind_of_load
  intro _
  apply bind_of_wp (storeAll_stays _ _ _ s)
  rintro row _ rfl
  apply bind_of_store
  intro _
  apply bind_of_store
  intro _
  apply bind_of_plus
  rfl

theorem local_parseImport : Local parseImport := by
  apply local_readU32Leb128.bind
  intro modNameLen
  apply (local_skip _).bind
  intro _
  apply local_readU32Leb128.bind
  intro fieldNameLen
  apply (local_readBytes _).bind
  intro fieldName
  apply local_readByte.bind
  intro kind
  apply (local_parseImportFunc fieldName).ite
  apply Local.ite (local_readByte.bind fun _ => local_skipLimits)
  apply local_skipLimits.ite
  apply Local.ite (local_readByte.bind fun _ => local_readByte.bind fun _ => Local.pure ())
  exact Local.const fun _ => trivial

theorem local_parseDataSegment : Local parseDataSegment := by
  apply Local.get.bind
  intro s
  apply Local.failIf.bind
  intro _
  apply local_readU32Leb128.bind
  intro kind
  apply Local.failIf.bind
  intro _
  apply local_readByte.bind
  intro opcode
  apply Local.failIf.bind
  intro _
  apply local_readU32Leb128.bind
  intro offset
  apply local_readByte.bind
  intro stop
  apply Local.failIf.bind
  intro _
  apply local_readU32Leb128.bind
  intro dataLen
  apply Local.get.bind
  intro s
  apply (local_skip _).bind
  intro _
  apply Local.const
  intro s
  apply bind_of_get
  apply bind_of_store
  intro _
  apply bind_of_plus
  rfl

theorem local_counted {item : List Byte → Parser Unit} (reads : Local item) :
    Local fun d => (do let count ← readU32Leb128 d; times count.toNat (item d) : Parser Unit) :=
  local_readU32Leb128.bind fun count => reads.times count.toNat

theorem local_parsePayload (sectionId : Byte) (sectionLen : Nat) :
    Local fun d => parsePayload d sectionId sectionLen := by
  apply (local_counted local_parseType).ite
  apply (local_counted local_parseImport).ite
  apply (local_counted local_parseFunction).ite
  apply local_parseMemorySection.ite
  apply (local_counted local_parseExport).ite
  apply (local_counted local_parseBody).ite
  apply (local_counted local_parseDataSegment).ite
  exact local_skip sectionLen

/-! ### The sections of a binary -/

/-- A section as the loop of `parse` meets it: where it starts, its declared length, and the cursor
and module at the start of its payload. -/
structure Visit where
  start : Nat
  sectionId : Byte
  len : Nat
  entry : Parsing

/-- The declared end of the payload. -/
def Visit.stop (v : Visit) : Nat := v.entry.pos + v.len

def header (data : List Byte) : Parser (Byte × Nat) := do
  let sectionId ← readByte data
  let sectionLen ← readU32Leb128 data
  pure (sectionId, sectionLen.toNat)

/-- The sections the loop of `parse` goes through. -/
def visits (data : List Byte) : (fuel : Nat) → Parsing → List Visit
  | 0, _ => []
  | fuel + 1, s =>
    if s.pos < data.length then
      match header data s, parseSection data s with
      | .ok (sectionId, len) entry, .ok _ t => { start := s.pos, sectionId, len, entry } :: visits data fuel t
      | _, _ => []
    else []

def sections (data : List Byte) : List Visit := visits data (data.length + 1) { pos := 8 }

/-- Each section starts where the one before ends, and the last one ends the data. -/
def Tiles (data : List Byte) : (start : Nat) → List Visit → Prop
  | start, [] => start = data.length
  | start, v :: rest => v.start = start ∧ v.start < v.entry.pos ∧ v.stop ≤ data.length ∧ Tiles data v.stop rest

/-- The data with everything outside the declared payload blanked or cut off. -/
def Visit.own (v : Visit) (data : List Byte) : List Byte :=
  List.replicate v.entry.pos 0 ++ (data.drop v.entry.pos).take v.len

/-- The payload's own bytes give the items recorded, and are consumed to the last one. -/
def Visit.Contained (v : Visit) (data : List Byte) : Prop :=
  ∃ t u, parsePayload (v.own data) v.sectionId v.len v.entry = .ok () t ∧ t.pos = v.stop ∧
    parsePayload data v.sectionId v.len v.entry = .ok () u ∧ u.module = t.module

/-- `cursor.pos != expected_end`. -/
def Visit.Forced (v : Visit) (data : List Byte) : Prop :=
  (after (parsePayload data v.sectionId v.len) v.entry).pos ≠ v.stop

theorem own_get (v : Visit) {i : Nat} (low : v.entry.pos ≤ i) (high : i < v.stop) : (v.own data)[i]? = data[i]? := by
  unfold Visit.own Visit.stop at *
  rw [List.getElem?_append_right (by rwa [List.length_replicate]), List.length_replicate, List.getElem?_take,
    if_pos (by omega), List.getElem?_drop, Nat.add_sub_cancel' low]

theorem own_length (v : Visit) (within : v.stop ≤ data.length) : (v.own data).length = v.stop := by
  unfold Visit.own Visit.stop at *
  rw [List.length_append, List.length_replicate, List.length_take, List.length_drop]
  omega

/-- A parser that stops at the declared end read nothing past it, and the other way round. -/
theorem contained_iff (v : Visit) (within : v.stop ≤ data.length) {t : Parsing}
    (parsed : parsePayload data v.sectionId v.len v.entry = .ok () t) : v.Contained data ↔ ¬ v.Forced data := by
  have final : (after (parsePayload data v.sectionId v.len) v.entry) = t := by
    unfold after
    rw [parsed]
  unfold Visit.Forced
  rw [final, not_not]
  constructor
  · rintro ⟨u, _, own, exact, _⟩
    obtain ⟨_, again⟩ := local_parsePayload _ _ _ _ _ _ own
    have whole : parsePayload data v.sectionId v.len v.entry = .ok () u :=
      again data (fun i low high => (own_get v low (exact ▸ high)).symm) (exact ▸ within)
    rw [parsed] at whole
    cases whole
    exact exact
  · intro stops
    obtain ⟨_, again⟩ := local_parsePayload _ _ _ _ _ _ parsed
    have length := own_length v within
    refine ⟨t, t, again (v.own data) (fun i low high => own_get v low (stops ▸ high)) ?_, stops, parsed, rfl⟩
    exact (stops.trans length.symm).le

theorem parseSection_eq_ok {s u : Parsing} (parsed : parseSection data s = .ok () u) :
    ∃ sectionId len entry t, header data s = .ok (sectionId, len) entry ∧ s.pos < entry.pos ∧
      parsePayload data sectionId len entry = .ok () t ∧ u = { t with pos := entry.pos + len } := by
  obtain ⟨sectionId, s₁, here, rest₁⟩ := bind_eq_ok.mp parsed
  obtain ⟨sectionLen, entry, length, rest₂⟩ := bind_eq_ok.mp rest₁
  obtain ⟨_, _, same, rest₃⟩ := bind_eq_ok.mp rest₂
  obtain ⟨rfl, rfl⟩ := get_eq_ok.mp same
  obtain ⟨_, t, payload, rest₄⟩ := bind_eq_ok.mp rest₃
  obtain ⟨_, _, sum, rest₅⟩ := bind_eq_ok.mp rest₄
  obtain ⟨_, rfl, rfl⟩ := plus_eq_ok.mp sum
  refine ⟨sectionId, sectionLen.toNat, _, _, ?_, ?_, payload, modify_eq_ok.mp rest₅⟩
  · simp only [header, bind_eq_ok, pure_eq_ok]
    exact ⟨_, _, here, _, _, length, rfl, rfl⟩
  · have first := wp_of_ok (readByte_advances s) here
    have second := wp_of_ok (readU32From_advances 5 0 0 s₁) length
    exact Nat.lt_trans first second

/-- The sections of an accepted binary tile it, and each payload's parser returned. -/
theorem tiles_of_parseSections (fuel : Nat) (s u : Parsing) (parsed : parseSections data fuel s = .ok () u) :
    Tiles data s.pos (visits data fuel s) ∧
      ∀ v ∈ visits data fuel s, v.stop ≤ data.length ∧
        ∃ t, parsePayload data v.sectionId v.len v.entry = .ok () t := by
  induction fuel generalizing s with
  | zero => exact (fault_eq_ok parsed).elim
  | succ fuel ih =>
    simp only [parseSections, remaining, bind_eq_ok, get_eq_ok, minus_eq_ok] at parsed
    obtain ⟨_, _, ⟨_, _, ⟨rfl, rfl⟩, within, rfl, rfl⟩, rest⟩ := parsed
    rename_i s
    rw [visits]
    split at rest
    · next more =>
      obtain ⟨_, mid, section_, later⟩ := bind_eq_ok.mp rest
      obtain ⟨sectionId, len, entry, t, head, ahead, payload, rfl⟩ := parseSection_eq_ok section_
      obtain ⟨tiled, each⟩ := ih _ later
      have inside : entry.pos + len ≤ data.length := by
        cases fuel with
        | zero => exact (fault_eq_ok later).elim
        | succ fuel =>
          simp only [parseSections, remaining, bind_eq_ok, get_eq_ok, minus_eq_ok] at later
          obtain ⟨_, _, ⟨_, _, ⟨rfl, rfl⟩, bound, _⟩, _⟩ := later
          exact bound
      rw [if_pos (by omega), head, section_]
      refine ⟨⟨rfl, ahead, inside, tiled⟩, ?_⟩
      intro v member
      rcases List.mem_cons.mp member with rfl | member
      · exact ⟨inside, t, payload⟩
      · exact each v member
    · next done =>
      rw [if_neg (by omega)]
      exact ⟨by show s.pos = data.length; omega, fun v member => by cases member⟩

theorem sections_of_parse {m : WasmModule} (accepted : parse data = .ok m) :
    Tiles data 8 (sections data) ∧
      ∀ v ∈ sections data, v.stop ≤ data.length ∧ ∃ t, parsePayload data v.sectionId v.len v.entry = .ok () t := by
  unfold parse at accepted
  cases result : parseModule data {} with
  | error e s =>
    rw [result] at accepted
    cases accepted
  | ok u s =>
    simp only [parseModule, bind_eq_ok, failIf_eq_ok, modify_eq_ok] at result
    obtain ⟨_, _, ⟨_, rfl⟩, _, _, ⟨_, rfl⟩, _, _, ⟨_, rfl⟩, _, _, rfl, _, t, walked, _⟩ := result
    exact tiles_of_parseSections _ _ _ walked

end GooseOs.Wasm
