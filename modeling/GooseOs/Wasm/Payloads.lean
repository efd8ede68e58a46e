import GooseOs.Wasm.Bodies

/-!
How long the contents of a section are. The format gives every payload its length, whatever the section's header declares;
the section parsers stop where the payload ends by the format.
-/

namespace GooseOs.Wasm

open Cursor Leb128

variable {data : List Byte} {α β : Type}

/-! ### Extents -/

/-- Where a part of the binary ends that begins at a position. -/
abbrev Extent := List Byte → Nat → Option Nat

namespace Extent

def bytes (n : Nat) : Extent := fun _ pos => some (pos + n)

def number : Extent := fun data pos => (numberAt data pos).map Prod.snd

def andThen (first second : Extent) : Extent := fun data pos => (first data pos).bind (second data)

/-- A byte that says what follows it. -/
def tagged (rest : Byte → Extent) : Extent := fun data pos => data[pos]?.bind fun tag => rest tag data (pos + 1)

/-- A number that says how much follows it. -/
def counted (rest : Nat → Extent) : Extent := fun data pos => (numberAt data pos).bind fun (n, next) => rest n data next

def repeated (item : Extent) : (count : Nat) → Extent
  | 0 => bytes 0
  | count + 1 => item.andThen (repeated item count)

def vector (item : Extent) : Extent := counted item.repeated

/-- A length and that many bytes: a name, a body, a list of value types. -/
def sized : Extent := counted bytes

def typeEntry : Extent := (bytes 1).andThen (sized.andThen sized)

/-- The maximum is there when the flag says so. -/
def limits : Extent := tagged fun flags => number.andThen (if flags &&& 0x01 ≠ 0 then number else bytes 0)

def importDesc (kind : Byte) : Extent :=
  if kind = importFunc then number
  else if kind = importTable then (bytes 1).andThen limits
  else if kind = importMemory then limits
  else bytes 2

def importEntry : Extent := sized.andThen (sized.andThen (tagged importDesc))

def exportEntry : Extent := sized.andThen ((bytes 1).andThen number)

/-- The memory, `i32.const` with its number, `end`, and the bytes. -/
def dataEntry : Extent := number.andThen ((bytes 1).andThen (number.andThen ((bytes 1).andThen sized)))

/-- What a section with this id holds; one the parser does not know is its declared bytes. -/
def contents (sectionId : Byte) (len : Nat) : Extent :=
  if sectionId = secType then vector typeEntry
  else if sectionId = secImport then vector importEntry
  else if sectionId = secFunction then vector number
  else if sectionId = secMemory then vector limits
  else if sectionId = secExport then vector exportEntry
  else if sectionId = secCode then vector sized
  else if sectionId = secData then vector dataEntry
  else bytes len

theorem bytes_andThen (n m : Nat) : (bytes n).andThen (bytes m) = bytes (n + m) := by
  funext data pos
  simp only [andThen, bytes, Option.bind_some, Nat.add_assoc]

theorem counted_andThen (rest : Nat → Extent) (second : Extent) :
    (counted rest).andThen second = counted fun n => (rest n).andThen second := by
  funext data pos
  simp only [andThen, counted, Option.bind_assoc]

theorem limits_andThen (second : Extent) : limits.andThen second =
    tagged fun flags => number.andThen ((if flags &&& 0x01 ≠ 0 then number else bytes 0).andThen second) := by
  funext data pos
  unfold limits tagged andThen
  simp only [Option.bind_assoc]

end Extent

/-! ### Parsers and extents -/

/-- What the parser passes when it returns is of this extent. -/
def Spans (data : List Byte) (l : Extent) (x : Parser α) : Prop :=
  ∀ s a t, x s = .ok a t → l data s.pos = some t.pos

/-- A parser that only looks at what is there, or records something. -/
def Unmoved (x : Parser α) : Prop := ∀ s a t, x s = .ok a t → t.pos = s.pos

namespace Unmoved

theorem of_wp {x : Parser α} (unmoved : ∀ s, wp x (fun _ t => t.pos = s.pos) anyStop s) : Unmoved x :=
  fun s _ _ result => wp_of_ok (Q := fun _ t => t.pos = s.pos) (unmoved s) result

theorem pure (a : α) : Unmoved (Pure.pure a : Parser α) := of_wp fun _ => rfl

theorem get : Unmoved (MonadState.get : Parser Parsing) := of_wp fun _ => rfl

theorem failIf {c : Prop} [Decidable c] {e : WasmError} : Unmoved (GooseOs.failIf c e : Parser Unit) := by
  intro s _ t result
  rw [(failIf_eq_ok.mp result).2]

end Unmoved

namespace Spans
variable {l m : Extent}

theorem bind {x : Parser α} {f : α → Parser β} (first : Spans data l x) (second : ∀ a, Spans data m (f a)) :
    Spans data (l.andThen m) (x >>= f) := by
  intro s b u result
  obtain ⟨a, t, here, later⟩ := bind_eq_ok.mp result
  rw [Extent.andThen, first s a t here]
  exact second a t b u later

theorem behind {x : Parser α} {f : α → Parser β} (first : Unmoved x) (second : ∀ a, Spans data l (f a)) :
    Spans data l (x >>= f) := by
  intro s b u result
  obtain ⟨a, t, here, later⟩ := bind_eq_ok.mp result
  rw [← first s a t here]
  exact second a t b u later

theorem of_unmoved {x : Parser α} (unmoved : Unmoved x) : Spans data (.bytes 0) x := by
  intro s a t result
  rw [unmoved s a t result]
  rfl

theorem ahead {x : Parser α} {f : α → Parser β} (first : Spans data l x) (second : ∀ a, Unmoved (f a)) :
    Spans data l (x >>= f) := by
  intro s b u result
  obtain ⟨a, t, here, later⟩ := bind_eq_ok.mp result
  rw [second a t b u later]
  exact first s a t here

theorem pure (a : α) : Spans data (.bytes 0) (Pure.pure a) := of_unmoved (.pure a)

theorem ite {c : Prop} [Decidable c] {x y : Parser α} (yes : Spans data l x) (no : Spans data m y) :
    Spans data (if c then l else m) (if c then x else y) := by
  split
  · exact yes
  · exact no

theorem times {x : Parser Unit} (spans : Spans data l x) (count : Nat) :
    Spans data (l.repeated count) (GooseOs.times count x) := by
  induction count with
  | zero => exact pure _
  | succ count ih => exact spans.bind fun _ => ih

theorem readByte : Spans data (.bytes 1) (readByte data) := by
  intro s b t result
  obtain ⟨_, _, rfl⟩ := readByte_eq_ok.mp result
  rfl

theorem tagged {rest : Byte → Extent} {f : Byte → Parser β} (second : ∀ tag, Spans data (rest tag) (f tag)) :
    Spans data (.tagged rest) (Cursor.readByte data >>= f) := by
  intro s b u result
  obtain ⟨tag, t, here, later⟩ := bind_eq_ok.mp result
  obtain ⟨found, _, rfl⟩ := readByte_eq_ok.mp here
  rw [Extent.tagged, found]
  exact second tag _ b u later

theorem skip (n : Nat) : Spans data (.bytes n) (skip data n) := by
  intro s _ t result
  obtain ⟨_, _, rfl⟩ := skip_eq_ok.mp result
  rfl

theorem readBytes (n : Nat) : Spans data (.bytes n) (readBytes data n) := by
  intro s _ t result
  obtain ⟨_, _, _, rfl⟩ := readBytes_eq_ok.mp result
  rfl

theorem readValTypes {limit : Nat} (count j : Nat) (types : FixedArray limit Byte) :
    Spans data (.bytes count) (readValTypes data count j types) := by
  induction count generalizing j types with
  | zero => exact pure _
  | succ count ih =>
    have parts : Extent.bytes (count + 1) = (Extent.bytes 1).andThen (Extent.bytes count) := by
      rw [Extent.bytes_andThen, Nat.add_comm]
    rw [parts]
    apply readByte.bind
    intro vt
    apply behind .failIf
    intro _
    apply behind
    · intro s _ t result
      rw [(store_eq_ok.mp result).2.2]
    · exact fun types => ih _ _

end Spans

/-! ### The section parsers -/

section Slice
variable (slice : data.length < 2 ^ 63)
include slice

namespace Spans
variable {rest : Nat → Extent} {m : Extent}

theorem readU32Leb128 : Spans data .number (readU32Leb128 data) := by
  intro s v t result
  rw [Extent.number, (numberAt_of_ok slice result).1]
  rfl

theorem counted {f : BitVec 32 → Parser β} (second : ∀ n : BitVec 32, Spans data (rest n.toNat) (f n)) :
    Spans data (.counted rest) (Cursor.readU32Leb128 data >>= f) := by
  intro s b u result
  obtain ⟨n, t, here, later⟩ := bind_eq_ok.mp result
  rw [Extent.counted, (numberAt_of_ok slice here).1]
  exact second n t b u later

theorem sized {f : BitVec 32 → Parser β} (second : ∀ n : BitVec 32, Spans data ((Extent.bytes n.toNat).andThen m) (f n)) :
    Spans data (Extent.sized.andThen m) (Cursor.readU32Leb128 data >>= f) := by
  rw [Extent.sized, Extent.counted_andThen]
  exact counted slice second

theorem vector {item : Parser Unit} (spans : Spans data m item) :
    Spans data m.vector (do let count ← Cursor.readU32Leb128 data; GooseOs.times count.toNat item) :=
  counted slice fun count => spans.times count.toNat

theorem parseType : Spans data .typeEntry (parseType data) := by
  apply behind .get
  intro s
  apply behind .failIf
  intro _
  apply readByte.bind
  intro form
  apply behind .failIf
  intro _
  apply sized slice
  intro paramCount
  apply behind .failIf
  intro _
  apply (readValTypes _ _ _).bind
  intro params
  apply counted slice
  intro resultCount
  apply behind .failIf
  intro _
  apply (readValTypes _ _ _).ahead
  intro results
  apply Unmoved.of_wp
  intro s
  apply bind_of_get
  apply bind_of_store
  intro _
  apply bind_of_plus
  rfl

theorem parseFunction : Spans data .number (parseFunction data) := by
  apply behind .get
  intro s
  apply behind .failIf
  intro _
  apply (readU32Leb128 slice).ahead
  intro typeIdx
  apply Unmoved.of_wp
  intro s
  apply bind_of_get
  apply bind_of_check
  intro _
  apply bind_of_store
  intro _
  apply bind_of_plus
  rfl

theorem readMax (flags : Byte) :
    Spans data (if flags &&& 0x01 ≠ 0 then .number else .bytes 0) (readMax data flags) :=
  (readU32Leb128 slice).ite (pure 0)

theorem skipLimits : Spans data .limits (skipLimits data) := by
  apply tagged
  intro flags
  apply (readU32Leb128 slice).bind
  intro _
  apply ite
  · exact (readU32Leb128 slice).ahead fun _ => .pure _
  · exact pure _

theorem skipMemory : Spans data .limits (skipMemory data) := skipLimits slice

theorem parseMemorySection : Spans data (.vector .limits) (parseMemorySection data) := by
  apply counted slice
  intro count
  split
  · next some_ =>
    obtain ⟨rest, more⟩ : ∃ rest, count.toNat = rest + 1 := ⟨count.toNat - 1, by omega⟩
    rw [more, Nat.add_sub_cancel, Extent.repeated, Extent.limits_andThen]
    apply tagged
    intro flags
    apply (readU32Leb128 slice).bind
    intro min
    apply (readMax slice flags).bind
    intro max
    apply behind
    · exact .of_wp fun _ => by rfl
    · exact fun _ => (skipMemory slice).times rest
  · next none_ =>
    rw [show count.toNat = 0 by omega]
    exact pure _

theorem parseExport : Spans data .exportEntry (parseExport data) := by
  apply behind .get
  intro s
  apply behind .failIf
  intro _
  apply sized slice
  intro nameLen
  apply behind .failIf
  intro _
  apply (readBytes _).bind
  intro nameBytes
  apply readByte.bind
  intro kind
  apply behind .failIf
  intro _
  apply (readU32Leb128 slice).ahead
  intro index
  apply Unmoved.of_wp
  intro s
  apply bind_of_wp (storeAll_stays _ _ _ s)
  rintro name _ rfl
  apply bind_of_get
  apply bind_of_store
  intro _
  apply bind_of_plus
  rfl

theorem parseBody : Spans data .sized (parseBody data) := by
  apply behind .get
  intro s
  apply behind .failIf
  intro _
  apply counted slice
  intro bodySize
  have recorded : Unmoved (do
      let s ← MonadState.get
      let bodies ← s.module.bodies.store s.module.bodyCount { offset := s.pos, length := bodySize.toNat }
      let bodyCount ← plus 64 s.module.bodyCount 1
      set { s with module := { s.module with bodies, bodyCount } } : Parser Unit) := by
    apply Unmoved.of_wp
    intro s
    apply bind_of_get
    apply bind_of_store
    intro _
    apply bind_of_plus
    rfl
  have whole : Spans data (.bytes bodySize.toNat) _ := behind recorded fun _ => skip bodySize.toNat
  simpa only [bind_assoc] using whole

theorem parseImportFunc (fieldName : List Byte) : Spans data .number (parseImportFunc data fieldName) := by
  apply behind .get
  intro s
  apply behind .failIf
  intro _
  apply (readU32Leb128 slice).ahead
  intro typeIdx
  apply Unmoved.of_wp
  intro s
  apply bind_of_get
  apply bind_of_check
  intro _
  apply bind_of_store
  intro _
  apply bind_of_load
  intro _
  apply bind_of_wp (storeAll_stays _ _ _ s)
  rintro row _ rfl
  apply bind_of_store
  intro _
  apply bind_of_store
  intro _
  apply bind_of_plus
  rfl

theorem parseImport : Spans data .importEntry (parseImport data) := by
  apply sized slice
  intro modNameLen
  apply (skip _).bind
  intro _
  apply sized slice
  intro fieldNameLen
  apply (readBytes _).bind
  intro fieldName
  apply tagged
  intro kind
  apply (parseImportFunc slice fieldName).ite
  apply ite (readByte.bind fun _ => skipLimits slice)
  apply (skipLimits slice).ite
  split
  · rw [← Extent.bytes_andThen 1 1]
    exact readByte.bind fun _ => readByte.ahead fun _ => .pure _
  · exact fun _ _ _ result => (fail_eq_ok result).elim

theorem parseDataSegment : Spans data .dataEntry (parseDataSegment data) := by
  apply behind .get
  intro s
  apply behind .failIf
  intro _
  apply (readU32Leb128 slice).bind
  intro kind
  apply behind .failIf
  intro _
  apply readByte.bind
  intro opcode
  apply behind .failIf
  intro _
  apply (readU32Leb128 slice).bind
  intro offset
  apply readByte.bind
  intro stop
  apply behind .failIf
  intro _
  apply counted slice
  intro dataLen
  apply behind .get
  intro s
  apply (skip _).ahead
  intro _
  apply Unmoved.of_wp
  intro s
  apply bind_of_get
  apply bind_of_store
  intro _
  apply bind_of_plus
  rfl

/-- The parser of a section stops behind its contents. -/
theorem parsePayload (sectionId : Byte) (sectionLen : Nat) :
    Spans data (.contents sectionId sectionLen) (parsePayload data sectionId sectionLen) := by
  apply ite (vector slice (parseType slice))
  apply ite (vector slice (parseImport slice))
  apply ite (vector slice (parseFunction slice))
  apply ite (parseMemorySection slice)
  apply ite (vector slice (parseExport slice))
  apply ite (vector slice (parseBody slice))
  apply ite (vector slice (parseDataSegment slice))
  exact skip sectionLen

end Spans

end Slice

/-! ### Declared sizes -/

/-- A section as the bytes declare it: its id, where its payload starts, and the size in its header. -/
structure SectionHeader where
  sectionId : Byte
  payload : Nat
  size : Nat
  deriving DecidableEq

/-- The sections from a position on, each behind the declared end of the one before. -/
def declaredFrom (data : List Byte) : (fuel pos : Nat) → List SectionHeader
  | 0, _ => []
  | fuel + 1, pos =>
    match data[pos]?, numberAt data (pos + 1) with
    | some sectionId, some (size, payload) => { sectionId, payload, size } :: declaredFrom data fuel (payload + size)
    | _, _ => []

def declared (data : List Byte) : List SectionHeader := declaredFrom data (data.length + 1) 8

/-- The declared size is the length of the contents. -/
def SectionHeader.Exact (data : List Byte) (c : SectionHeader) : Prop :=
  Extent.contents c.sectionId c.size data c.payload = some (c.payload + c.size)

instance (c : SectionHeader) : Decidable (c.Exact data) := inferInstanceAs (Decidable (_ = _))

def Visit.declared (v : Visit) : SectionHeader where
  sectionId := v.sectionId
  payload := v.entry.pos
  size := v.len

section Slice
variable (slice : data.length < 2 ^ 63)
include slice

theorem header_declares {s entry : Parsing} {sectionId : Byte} {len : Nat}
    (head : header data s = .ok (sectionId, len) entry) :
    data[s.pos]? = some sectionId ∧ numberAt data (s.pos + 1) = some (len, entry.pos) := by
  simp only [header, bind_eq_ok, pure_eq_ok, Prod.mk.injEq] at head
  obtain ⟨_, t, here, length, u, read, ⟨rfl, rfl⟩, rfl⟩ := head
  obtain ⟨found, _, rfl⟩ := readByte_eq_ok.mp here
  exact ⟨found, (numberAt_of_ok slice read).1⟩

/-- The loop of `parse` goes through the sections the bytes declare. -/
theorem visits_declared (fuel : Nat) (s t : Parsing) (parsed : parseSections data fuel s = .ok () t) :
    (visits data fuel s).map Visit.declared = declaredFrom data fuel s.pos := by
  induction fuel generalizing s with
  | zero => exact (fault_eq_ok parsed).elim
  | succ fuel ih =>
    simp only [parseSections, remaining, bind_eq_ok, get_eq_ok, minus_eq_ok] at parsed
    obtain ⟨_, _, ⟨_, _, ⟨rfl, rfl⟩, within, rfl, rfl⟩, rest⟩ := parsed
    rename_i s
    rw [visits, declaredFrom]
    split at rest
    · next more =>
      obtain ⟨_, mid, section_, later⟩ := bind_eq_ok.mp rest
      obtain ⟨sectionId, len, entry, u, head, _, _, rfl⟩ := parseSection_eq_ok section_
      obtain ⟨id, size⟩ := header_declares slice head
      rw [if_pos (by omega), head, section_, id, size]
      exact congrArg (_ :: ·) (ih _ later)
    · next done =>
      have ended : data[s.pos]? = none := List.getElem?_eq_none (by omega)
      rw [if_neg (by omega), ended]
      rfl

theorem sections_declared {m : WasmModule} (accepted : parse data = .ok m) :
    (sections data).map Visit.declared = declared data := by
  unfold parse at accepted
  cases result : parseModule data {} with
  | error e s =>
    rw [result] at accepted
    cases accepted
  | ok u s =>
    simp only [parseModule, bind_eq_ok, failIf_eq_ok, modify_eq_ok] at result
    obtain ⟨_, _, ⟨_, rfl⟩, _, _, ⟨_, rfl⟩, _, _, ⟨_, rfl⟩, _, _, rfl, _, t, walked, _⟩ := result
    exact visits_declared slice _ _ _ walked

/-- The cursor is forced exactly where the declared size is not the length of the contents. -/
theorem exact_iff (v : Visit) {t : Parsing} (parsed : parsePayload data v.sectionId v.len v.entry = .ok () t) :
    v.declared.Exact data ↔ ¬ v.Forced data := by
  have final : after (parsePayload data v.sectionId v.len) v.entry = t := by
    unfold after
    rw [parsed]
  have ends := Spans.parsePayload slice _ _ _ _ _ parsed
  unfold SectionHeader.Exact Visit.Forced
  rw [final, not_not]
  show Extent.contents v.sectionId v.len data v.entry.pos = _ ↔ _
  rw [ends, Option.some.injEq]
  rfl

/-- The sections of an accepted binary always tile it; its items come from their own payloads exactly when every
section declares the length of its contents. -/
theorem framed_iff_exact {m : WasmModule} (accepted : parse data = .ok m) :
    (Tiles data 8 (sections data) ∧ ∀ v ∈ sections data, v.Contained data) ↔ ∀ c ∈ declared data, c.Exact data := by
  obtain ⟨tiled, each⟩ := sections_of_parse accepted
  rw [and_iff_right tiled, ← sections_declared slice accepted, List.forall_mem_map]
  refine forall₂_congr fun v member => ?_
  obtain ⟨within, t, parsed⟩ := each v member
  exact (contained_iff v within parsed).trans (exact_iff slice v parsed).symm

end Slice

/-- A binary whose sections are all of the declared size. -/
theorem framed_iff_exact_strayElse :
    Tiles strayElse 8 (sections strayElse) ∧ ∀ v ∈ sections strayElse, v.Contained strayElse := by
  have sizes : declared strayElse ≠ [] ∧ ∀ c ∈ declared strayElse, c.Exact strayElse := by decide +kernel
  exact (framed_iff_exact (by decide) (parse_parsed strayElse_accepted)).mpr sizes.2

/-- A type section that declares one byte, its count, and takes its one type from the sections
behind it. -/
def leakingType : List Byte :=
  [0x00, 0x61, 0x73, 0x6D, 0x01, 0x00, 0x00, 0x00,
    0x01, 0x01, 0x01,
    0x60, 0x00,
    0x00, 0x00]

theorem leakingType_accepted : accepts leakingType := by decide +kernel

example : (parsed leakingType).typeCount = 1 := by decide +kernel

instance (v : Visit) (data : List Byte) : Decidable (v.Forced data) := inferInstanceAs (Decidable (_ ≠ _))

/-- Not every accepted binary takes its items from their own sections. -/
theorem framing_fails : ¬ ∀ (data : List Byte) (m : WasmModule), parse data = .ok m →
    Tiles data 8 (sections data) ∧ ∀ v ∈ sections data, v.Contained data := by
  intro framed
  have contained := (framed leakingType _ (parse_parsed leakingType_accepted)).2
  have forced : ∃ v ∈ sections leakingType, v.Forced leakingType := by decide +kernel
  obtain ⟨v, member, moved⟩ := forced
  obtain ⟨within, t, parsed⟩ := (sections_of_parse (parse_parsed leakingType_accepted)).2 v member
  exact (contained_iff v within parsed).mp (contained v member) moved

end GooseOs.Wasm
