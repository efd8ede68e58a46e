import GooseOs.Machine.Reference
import GooseOs.Memory.Effects

/-!
The user copies. The first pass of a copy resolves its range page by page, and the chunks it returns are
the bytes of the range at their physical addresses; the second pass moves those bytes and no others.
-/

namespace GooseOs.Kvm

/-! ### Chunks as lists of addresses -/

/-- The physical addresses a list of chunks covers, in order. -/
def chunkAddrs (chunks : List Chunk) : List Nat := chunks.flatMap fun c => List.range' c.pa c.len

theorem chunkAddrs_cons (c : Chunk) (chunks : List Chunk) :
    chunkAddrs (c :: chunks) = List.range' c.pa c.len ++ chunkAddrs chunks := rfl

theorem readChunks_eq (m : Memory) (chunks : List Chunk) : readChunks m chunks = (chunkAddrs chunks).map m := by
  induction chunks with
  | nil => rfl
  | cons c chunks ih =>
    rw [readChunks, ih, chunkAddrs_cons, List.map_append, List.range'_eq_map_range, List.map_map]
    rfl

theorem writeChunks_eq {m : Memory} {chunks : List Chunk} {src : List Byte}
    (same : (chunkAddrs chunks).length = src.length) :
    writeChunks m chunks src = m.scatter (chunkAddrs chunks) src := by
  induction chunks generalizing m src with
  | nil => rfl
  | cons c chunks ih =>
    rw [chunkAddrs_cons, List.length_append, List.length_range'] at same
    have rest : (chunkAddrs chunks).length = (src.drop c.len).length := by
      rw [List.length_drop, ← same, Nat.add_sub_cancel_left]
    have taken : (src.take c.len).length = c.len := by
      rw [List.length_take]
      omega
    rw [writeChunks, ih rest, Memory.writeBytes_eq_scatter, taken, chunkAddrs_cons, Memory.scatter_append,
      List.length_range']

/-! ### Pages of a range -/

/-- How many pages `[va, va + len)` touches. -/
def pagesTouched (va len : Nat) : Nat := ((Finset.range len).image fun i => (va + i) / pageSize).card

theorem pagesTouched_one (va : Nat) : pagesTouched va 1 = 1 := rfl

theorem bytesToPageEnd_eq (va : Nat) : bytesToPageEnd va = 4096 - va % 4096 := by
  rw [bytesToPageEnd]
  exact congrArg _ (vaParts_offset va)

theorem pagesTouched_chunk {va len : Nat} (some : 0 < len) :
    pagesTouched va len =
      pagesTouched (va + min (bytesToPageEnd va) len) (len - min (bytesToPageEnd va) len) + 1 := by
  have offset := bytesToPageEnd_eq va
  have split : ((Finset.range len).image fun i => (va + i) / pageSize) =
      insert (va / pageSize) ((Finset.range (len - min (bytesToPageEnd va) len)).image fun i =>
        (va + min (bytesToPageEnd va) len + i) / pageSize) := by
    ext page
    simp only [Finset.mem_image, Finset.mem_range, Finset.mem_insert, offset, pageSize]
    constructor
    · rintro ⟨i, bound, rfl⟩
      by_cases first : i < min (4096 - va % 4096) len
      · left
        omega
      · right
        exact ⟨i - min (4096 - va % 4096) len, by omega, by congr 1; omega⟩
    · rintro (rfl | ⟨i, bound, rfl⟩)
      · exact ⟨0, some, rfl⟩
      · exact ⟨min (4096 - va % 4096) len + i, by omega, by congr 1; omega⟩
  have apart : va / pageSize ∉ (Finset.range (len - min (bytesToPageEnd va) len)).image fun i =>
      (va + min (bytesToPageEnd va) len + i) / pageSize := by
    simp only [Finset.mem_image, Finset.mem_range, offset, pageSize, not_exists, not_and]
    intro i bound
    omega
  rw [pagesTouched, split, Finset.card_insert_of_notMem apart]
  rfl

/-! ### What a copy may reach -/

section Reach
variable [Platform] {m : Memory} {satp : Word} {write : Bool} {va pa len : Nat} {addrs rest : List Nat}

/-- The walk of `va` ends at `pa`, in a heap page the user may access. -/
def Reaches (m : Memory) (satp : Word) (write : Bool) (va pa : Nat) : Prop :=
  ∃ flags, walk (satpToRoot satp) va m.read64 = some ⟨pa, flags⟩ ∧ flags.contains .user = true ∧
    (write = true → flags.contains .write = true) ∧ isUserHeapPa (pageDown pa) = true

/-- What a copy of `len` bytes at `va` asks for. -/
structure Allowed (m : Memory) (satp : Word) (write : Bool) (va len : Nat) : Prop where
  below : va + len ≤ userVaMax
  reaches : ∀ i, i < len → ∃ pa, Reaches m satp write (va + i) pa
  few : pagesTouched va len ≤ maxCopyChunks

/-- The bytes from `va` on lie at `addrs`, in order. -/
def Backs (m : Memory) (satp : Word) (write : Bool) (va : Nat) (addrs : List Nat) : Prop :=
  ∀ i pa, addrs[i]? = some pa → Reaches m satp write (va + i) pa

theorem Reaches.unique {pa' : Nat} {write' : Bool} (first : Reaches m satp write va pa)
    (second : Reaches m satp write' va pa') : pa' = pa := by
  obtain ⟨flags, walked, -⟩ := first
  obtain ⟨flags', walked', -⟩ := second
  rw [walked] at walked'
  cases walked'
  rfl

/-- A page is contiguous: its later bytes follow the first one reached. -/
theorem Reaches.add {i : Nat} (reaches : Reaches m satp write va pa) (inside : va % pageSize + i < pageSize) :
    Reaches m satp write (va + i) (pa + i) := by
  obtain ⟨flags, walked, user, writes, heap⟩ := reaches
  rw [satpToRoot_eq] at walked
  obtain ⟨pte, leaf, rfl, rfl⟩ := walk_leaf walked
  have page : leafAt m (rootOf satp) (va + i) = leafAt m (rootOf satp) va := by
    have parts : (vaParts (va + i)).1 = (vaParts va).1 ∧ (vaParts (va + i)).2.1 = (vaParts va).2.1 ∧
        (vaParts (va + i)).2.2.1 = (vaParts va).2.2.1 := by
      simp only [Fin.ext_iff, vaParts_fst_val, vaParts_snd_val, vaParts_trd_val]
      simp only [pageSize] at inside
      omega
    rw [leafAt, leafAt, parts.1, parts.2.1, parts.2.2]
  have offset : (va + i) % pageSize = va % pageSize + i := by
    simp only [pageSize] at inside ⊢
    omega
  have same : pageDown (pte.page * pageSize + va % pageSize + i) = pageDown (pte.page * pageSize + va % pageSize) := by
    simp only [pageDown, pageSize] at inside ⊢
    omega
  refine ⟨pte.flags, ?_, user, writes, by rw [same]; exact heap⟩
  rw [satpToRoot_eq, walk_eq, page, leaf, Option.map_some, Pte.physAddr_eq, offset, Nat.add_assoc]

theorem Backs.append (first : Backs m satp write va addrs) (later : Backs m satp write (va + addrs.length) rest) :
    Backs m satp write va (addrs ++ rest) := by
  intro i pa entry
  rcases Nat.lt_or_ge i addrs.length with front | back
  · rw [List.getElem?_append_left front] at entry
    exact first i pa entry
  · rw [List.getElem?_append_right back] at entry
    have reaches := later _ _ entry
    rwa [Nat.add_assoc, Nat.add_sub_cancel' back] at reaches

theorem Reaches.backs (reaches : Reaches m satp write va pa) (short : len ≤ bytesToPageEnd va) :
    Backs m satp write va (List.range' pa len) := by
  intro i pa' entry
  obtain ⟨bound, rfl⟩ := List.getElem?_eq_some_iff.mp entry
  rw [List.length_range'] at bound
  rw [List.getElem_range', Nat.one_mul]
  exact reaches.add (by have := chunk_inside va short; omega)

/-- One round of the first pass, at an address that has not wrapped. -/
theorem walkChunks_round {userVa total left done : Nat} (more : done < total) (fits : userVa + done < 2 ^ 64)
    {chunks : List Chunk} :
    walkChunks m (satpToRoot satp) userVa total write (left + 1) done = some chunks ↔
      userVa + done < userVaMax ∧ ∃ pa rest, Reaches m satp write (userVa + done) pa ∧
        walkChunks m (satpToRoot satp) userVa total write left
          (done + min (bytesToPageEnd (userVa + done)) (total - done)) = some rest ∧
        chunks = ⟨pa, min (bytesToPageEnd (userVa + done)) (total - done)⟩ :: rest := by
  rw [walkChunks, if_pos more, Nat.mod_eq_of_lt fits]
  dsimp only
  split
  · rename_i high
    simp [Nat.not_lt.mpr high]
  rename_i low
  rw [Option.bind_eq_bind, Option.bind_eq_some_iff]
  constructor
  · rintro ⟨⟨pa, flags⟩, walked, h⟩
    split at h
    · cases h
    rename_i user
    split at h
    · cases h
    rename_i writable
    split at h
    · cases h
    rename_i heap
    obtain ⟨rest, walkedRest, h⟩ := Option.bind_eq_some_iff.mp h
    cases h
    refine ⟨Nat.not_le.mp low, pa, rest, ⟨flags, walked, by simpa using user, ?_, by simpa using heap⟩, walkedRest, rfl⟩
    intro needed
    simpa [needed] using writable
  · rintro ⟨-, pa, rest, ⟨flags, walked, user, writes, heap⟩, walkedRest, rfl⟩
    refine ⟨⟨pa, flags⟩, walked, ?_⟩
    dsimp only
    rw [if_neg (by simp [user]), if_neg (by cases write <;> simp [writes]), if_neg (by simp [heap]), walkedRest]
    rfl

/-- A completed pass covers the range, in order, within its chunks. -/
theorem walkChunks_covers {userVa total left done : Nat} {chunks : List Chunk} (fits : userVa + done < 2 ^ 64)
    (h : walkChunks m (satpToRoot satp) userVa total write left done = some chunks) :
    Backs m satp write (userVa + done) (chunkAddrs chunks) ∧ (chunkAddrs chunks).length = total - done ∧
      (done < total → userVa + total ≤ userVaMax) ∧ pagesTouched (userVa + done) (total - done) ≤ left := by
  induction left generalizing done chunks with
  | zero =>
    rw [walkChunks] at h
    split at h
    · cases h
    rename_i finished
    cases h
    rw [Nat.sub_eq_zero_of_le (Nat.not_lt.mp finished)]
    exact ⟨fun i pa entry => (by cases entry), rfl, fun more => absurd more finished, Nat.zero_le _⟩
  | succ left ih =>
    by_cases more : done < total
    · obtain ⟨low, pa, rest, reaches, walkedRest, rfl⟩ := (walkChunks_round more fits).mp h
      have size := bytesToPageEnd_eq (userVa + done)
      have next : userVa + (done + min (bytesToPageEnd (userVa + done)) (total - done)) ≤ userVaMax := by
        simp only [userVaMax] at low ⊢
        omega
      obtain ⟨backs, length, below, few⟩ := ih (Nat.lt_of_le_of_lt next (by decide)) walkedRest
      rw [← Nat.add_assoc] at backs few
      rw [Nat.sub_add_eq] at length few
      refine ⟨?_, ?_, fun _ => ?_, ?_⟩
      · rw [chunkAddrs_cons]
        refine (reaches.backs (Nat.min_le_left ..)).append ?_
        rw [List.length_range']
        exact backs
      · rw [chunkAddrs_cons, List.length_append, List.length_range', length]
        dsimp only
        omega
      · rcases Nat.lt_or_ge (done + min (bytesToPageEnd (userVa + done)) (total - done)) total with further | last
        · exact below further
        · omega
      · rw [pagesTouched_chunk (by omega)]
        omega
    · rw [walkChunks, if_neg more] at h
      cases h
      rw [Nat.sub_eq_zero_of_le (Nat.not_lt.mp more)]
      exact ⟨fun i pa entry => (by cases entry), rfl, fun absurdly => absurd absurdly more, Nat.zero_le _⟩

theorem walkChunks_completes {userVa total left done : Nat} (below : done < total → userVa + total ≤ userVaMax)
    (reach : ∀ i, done ≤ i → i < total → ∃ pa, Reaches m satp write (userVa + i) pa)
    (few : pagesTouched (userVa + done) (total - done) ≤ left) :
    ∃ chunks, walkChunks m (satpToRoot satp) userVa total write left done = some chunks := by
  induction left generalizing done with
  | zero =>
    have finished : ¬ done < total := by
      intro more
      rw [pagesTouched_chunk (by omega)] at few
      omega
    exact ⟨[], by rw [walkChunks, if_neg finished]⟩
  | succ left ih =>
    by_cases more : done < total
    · have low := below more
      obtain ⟨pa, reaches⟩ := reach done (Nat.le_refl _) more
      have rounds := @pagesTouched_chunk (userVa + done) (total - done) (by omega)
      rw [rounds, Nat.add_assoc userVa, ← Nat.sub_add_eq] at few
      obtain ⟨rest, walkedRest⟩ := @ih (done + min (bytesToPageEnd (userVa + done)) (total - done))
        (fun _ => low) (fun i start stop => reach i (by omega) stop) (by omega)
      have fits : userVa + done < 2 ^ 64 := by
        simp only [userVaMax] at low
        omega
      exact ⟨_, (walkChunks_round more fits).mpr ⟨by omega, pa, rest, reaches, walkedRest, rfl⟩⟩
    · exact ⟨[], by rw [walkChunks, if_neg more]⟩

theorem walkUserRange_isSome (fits : va < 2 ^ 64) (some : 0 < len) :
    (walkUserRange m satp va len write).isSome ↔ Allowed m satp write va len := by
  rw [Option.isSome_iff_exists, walkUserRange]
  constructor
  · rintro ⟨chunks, walked⟩
    obtain ⟨backs, length, below, few⟩ := walkChunks_covers fits walked
    refine ⟨below some, fun i bound => ?_, few⟩
    have inside : i < (chunkAddrs chunks).length := by
      rw [length]
      exact bound
    exact ⟨_, backs i _ (List.getElem?_eq_getElem inside)⟩
  · rintro ⟨below, reach, few⟩
    exact walkChunks_completes (fun _ => below) (fun i _ bound => reach i bound) few

theorem walkUserRange_backs {chunks : List Chunk} (fits : va < 2 ^ 64)
    (h : walkUserRange m satp va len write = some chunks) :
    Backs m satp write va (chunkAddrs chunks) ∧ (chunkAddrs chunks).length = len := by
  obtain ⟨backs, length, -⟩ := walkChunks_covers fits h
  exact ⟨backs, length⟩

end Reach

/-! ### What a walk reads -/

/-- The addresses of the entries a walk reads. -/
def walkedFrom (read : Nat → Word) : List (Fin ptEntries) → Nat → List Nat
  | [], _ => []
  | idx :: rest, table => (table + idx * 8) :: walkedFrom read rest (Pte.physAddr ⟨read (table + idx * 8)⟩)

def walked (m : Memory) (satp : Word) (va : Nat) : List Nat :=
  walkedFrom m.read64 [(vaParts va).1, (vaParts va).2.1, (vaParts va).2.2.1] (satpToRoot satp)

theorem walkFrom_congr {read read' : Nat → Word} {offset : Nat} {p : List (Fin ptEntries)} {table : Nat}
    (same : ∀ a ∈ walkedFrom read p table, read' a = read a) : walkFrom read' offset p table = walkFrom read offset p table := by
  induction p generalizing table with
  | nil => rfl
  | cons idx rest ih =>
    rw [walkFrom, walkFrom, same _ (List.mem_cons_self ..)]
    rw [ih fun a member => same a (List.mem_cons_of_mem _ member)]

theorem walk_congr {m m' : Memory} {satp : Word} {va : Nat} (same : ∀ a ∈ walked m satp va, m'.read64 a = m.read64 a) :
    walk (satpToRoot satp) va m'.read64 = walk (satpToRoot satp) va m.read64 := walkFrom_congr same

/-! ### The copies -/

section Copies
variable [Platform] {m m' : Memory} {satp : Word} {va len : Nat} {src dst : List Byte}

/-- The pages a range touches have distinct physical pages. -/
def Distinct (m : Memory) (satp : Word) (va len : Nat) : Prop :=
  ∀ i j pa pa', i < len → j < len → Reaches m satp true (va + i) pa → Reaches m satp true (va + j) pa' →
    pa / pageSize = pa' / pageSize → (va + i) / pageSize = (va + j) / pageSize

/-- No byte of a range lies in an entry that its own walks read. -/
def Untabled (m : Memory) (satp : Word) (va len : Nat) : Prop :=
  ∀ i j pa, i < len → j < len → Reaches m satp true (va + i) pa → ∀ a ∈ walked m satp (va + j), pa < a ∨ a + 8 ≤ pa

theorem copyFromUser_isSome (fits : va < 2 ^ 64) :
    (copyFromUser m satp va len).isSome ↔ len = 0 ∨ Allowed m satp false va len := by
  rw [copyFromUser]
  split
  · rename_i none
    simp [none]
  · rename_i some
    rw [Option.isSome_map, walkUserRange_isSome fits (Nat.pos_of_ne_zero some)]
    simp [some]

theorem copyToUser_isSome (fits : va < 2 ^ 64) :
    (copyToUser m satp va src).isSome ↔ src.length = 0 ∨ Allowed m satp true va src.length := by
  rw [copyToUser]
  split
  · rename_i none
    simp [none]
  · rename_i some
    rw [Option.isSome_map, walkUserRange_isSome fits (Nat.pos_of_ne_zero some)]
    simp [some]

theorem copyFromUser_some (fits : va < 2 ^ 64) (h : copyFromUser m satp va len = some dst) :
    ∃ addrs, Backs m satp false va addrs ∧ addrs.length = len ∧ dst = addrs.map m := by
  unfold copyFromUser at h
  split at h
  · rename_i none
    cases h
    exact ⟨[], nofun, none.symm, rfl⟩
  · obtain ⟨chunks, walked, rfl⟩ := Option.map_eq_some_iff.mp h
    obtain ⟨backs, length⟩ := walkUserRange_backs fits walked
    exact ⟨_, backs, length, readChunks_eq m chunks⟩

/-- What went out was stored byte after byte behind the range. -/
theorem copyToUser_some (fits : va < 2 ^ 64) (h : copyToUser m satp va src = some m') :
    ∃ addrs, Backs m satp true va addrs ∧ addrs.length = src.length ∧ m' = m.scatter addrs src := by
  unfold copyToUser at h
  split at h
  · rename_i none
    cases h
    exact ⟨[], nofun, none.symm, rfl⟩
  · obtain ⟨chunks, walked, rfl⟩ := Option.map_eq_some_iff.mp h
    obtain ⟨backs, length⟩ := walkUserRange_backs fits walked
    exact ⟨_, backs, length, writeChunks_eq length⟩

theorem Reaches.offset {write : Bool} {pa : Nat}
    (reaches : Reaches m satp write va pa) : pa % pageSize = va % pageSize := by
  obtain ⟨flags, walked, -⟩ := reaches
  rw [satpToRoot_eq] at walked
  obtain ⟨pte, -, -, rfl⟩ := walk_leaf walked
  rw [Nat.mul_comm, Nat.mul_add_mod, Nat.mod_mod]

/-- With distinct pages no two bytes of a range share an address. -/
theorem Distinct.injective {i j pa : Nat} (distinct : Distinct m satp va len) (low : i < len) (high : j < len)
    (first : Reaches m satp true (va + i) pa) (second : Reaches m satp true (va + j) pa) : i = j := by
  have pages := distinct i j pa pa low high first second rfl
  have offsets : (va + i) % pageSize = (va + j) % pageSize := by rw [← first.offset, ← second.offset]
  simp only [pageSize] at pages offsets
  omega

theorem Backs.nodup {addrs : List Nat} (backs : Backs m satp true va addrs) (distinct : Distinct m satp va addrs.length) :
    addrs.Nodup := by
  rw [List.nodup_iff_getElem?_ne_getElem?]
  intro i j before bound same
  have entry := List.getElem?_eq_getElem bound
  have later := backs j _ entry
  have earlier := backs i _ (same.trans entry)
  have equal := distinct.injective (by omega) bound earlier later
  omega

/-- The address behind byte `i`, in a list that backs the range. -/
theorem Backs.get {write : Bool} {addrs : List Nat} {i : Nat} (backs : Backs m satp write va addrs)
    (bound : i < addrs.length) :
    ∃ pa, Reaches m satp write (va + i) pa ∧ addrs[i]? = some pa :=
  ⟨_, backs i _ (List.getElem?_eq_getElem bound), List.getElem?_eq_getElem bound⟩

theorem Backs.mem {write : Bool} {addrs : List Nat} {pa : Nat} (backs : Backs m satp write va addrs)
    (member : pa ∈ addrs) :
    ∃ i, i < addrs.length ∧ Reaches m satp write (va + i) pa := by
  obtain ⟨i, entry⟩ := List.mem_iff_getElem?.mp member
  exact ⟨i, (List.getElem?_eq_some_iff.mp entry).1, backs i pa entry⟩

/-- The last byte of the range to land at an address is the one found there. -/
theorem scatter_last {addrs : List Nat} {i pa : Nat} {b : Byte} (backs : Backs m satp true va addrs)
    (length : addrs.length = src.length) (stored : src[i]? = some b) (reaches : Reaches m satp true (va + i) pa)
    (last : ∀ j, i < j → j < src.length → ¬ Reaches m satp true (va + j) pa) : m.scatter addrs src pa = b := by
  have bound : i < addrs.length := length ▸ (List.getElem?_eq_some_iff.mp stored).1
  obtain rfl : addrs[i] = pa := reaches.unique (backs i _ (List.getElem?_eq_getElem bound))
  have split : addrs = addrs.take i ++ addrs[i] :: addrs.drop (i + 1) := by
    rw [← List.drop_eq_getElem_cons bound, List.take_append_drop]
  have first : (addrs.take i).length = i := List.length_take_of_le (Nat.le_of_lt bound)
  have landed := @Memory.scatter_apply_last m (addrs.take i) (addrs.drop (i + 1)) addrs[i] src b
    (by rw [first]; exact stored)
  rw [← split] at landed
  refine landed fun member => ?_
  obtain ⟨j, entry⟩ := List.mem_iff_getElem?.mp member
  rw [List.getElem?_drop] at entry
  have inside := (List.getElem?_eq_some_iff.mp entry).1
  exact last (i + 1 + j) (by omega) (by omega) (backs _ _ entry)

/-- Stores outside the entries a walk reads leave its translation alone. -/
theorem Untabled.walks {addrs : List Nat} (untabled : Untabled m satp va src.length) (backs : Backs m satp true va addrs)
    (length : addrs.length = src.length) {j : Nat} (bound : j < src.length) :
    walk (satpToRoot satp) (va + j) (m.scatter addrs src).read64 = walk (satpToRoot satp) (va + j) m.read64 := by
  refine walk_congr fun a entry => Memory.read64_congr fun x low high => Memory.scatter_apply_outside fun member => ?_
  obtain ⟨i, inside, reaches⟩ := backs.mem member
  have apart := untabled i j x (length ▸ inside) bound reaches a entry
  omega

theorem copyFromUser_copyToUser (fits : va < 2 ^ 64) (h : copyToUser m satp va src = some m')
    (distinct : Distinct m satp va src.length) (untabled : Untabled m satp va src.length) :
    copyFromUser m' satp va src.length = some src := by
  have allowed := (copyToUser_isSome fits).mp (Option.isSome_iff_exists.mpr ⟨m', h⟩)
  obtain ⟨addrs, backs, length, rfl⟩ := copyToUser_some fits h
  have kept : ∀ j, j < src.length → ∀ pa, Reaches m satp true (va + j) pa →
      Reaches (m.scatter addrs src) satp false (va + j) pa := by
    rintro j bound pa ⟨flags, walked, user, -, heap⟩
    exact ⟨flags, by rw [untabled.walks backs length bound, walked], user, nofun, heap⟩
  have again : (copyFromUser (m.scatter addrs src) satp va src.length).isSome := by
    rw [copyFromUser_isSome fits]
    refine allowed.imp id fun allowed => ⟨allowed.below, fun i bound => ?_, allowed.few⟩
    obtain ⟨pa, reaches⟩ := allowed.reaches i bound
    exact ⟨pa, kept i bound pa reaches⟩
  obtain ⟨dst, copied⟩ := Option.isSome_iff_exists.mp again
  obtain ⟨addrs', backs', length', rfl⟩ := copyFromUser_some fits copied
  obtain rfl : addrs' = addrs := by
    apply List.ext_getElem?
    intro i
    rcases Nat.lt_or_ge i src.length with bound | beyond
    · obtain ⟨pa, reaches, entry⟩ := backs.get (length ▸ bound)
      obtain ⟨pa', reaches', entry'⟩ := backs'.get (length' ▸ bound)
      rw [entry, entry', (kept i bound pa reaches).unique reaches']
    · rw [List.getElem?_eq_none (length'.trans_le beyond), List.getElem?_eq_none (length.trans_le beyond)]
  rw [copied, Memory.scatter_gather (backs.nodup (length ▸ distinct)) length]

theorem allowed_one {write : Bool} : Allowed m satp write va 1 ↔ va < userVaMax ∧ ∃ pa, Reaches m satp write va pa := by
  constructor
  · rintro ⟨below, reach, -⟩
    exact ⟨below, reach 0 (by decide)⟩
  · rintro ⟨below, reach⟩
    refine ⟨below, fun i bound => ?_, by rw [pagesTouched_one]; decide⟩
    obtain rfl : i = 0 := by omega
    exact reach

theorem translateUser_some {pa : Nat} : translateUser m satp va = some pa ↔ va < userVaMax ∧ Reaches m satp false va pa := by
  rw [translateUser]
  split
  · rename_i high
    simp [Nat.not_lt.mpr high]
  rename_i low
  rw [Option.bind_eq_bind, Option.bind_eq_some_iff]
  constructor
  · rintro ⟨⟨phys, flags⟩, walked, h⟩
    split at h
    · cases h
    rename_i user
    split at h
    · cases h
    rename_i heap
    cases h
    exact ⟨Nat.not_le.mp low, flags, walked, by simpa using user, nofun, by simpa using heap⟩
  · rintro ⟨-, flags, walked, user, -, heap⟩
    refine ⟨⟨pa, flags⟩, walked, ?_⟩
    dsimp only
    rw [if_neg (by simp [user]), if_neg (by simp [heap])]

theorem translateUser_iff_copy (fits : va < 2 ^ 64) {pa : Nat} :
    translateUser m satp va = some pa ↔
      (∃ flags, walk (satpToRoot satp) va m.read64 = some ⟨pa, flags⟩) ∧ copyFromUser m satp va 1 = some [m pa] := by
  rw [translateUser_some]
  constructor
  · rintro ⟨low, reaches⟩
    have copied : (copyFromUser m satp va 1).isSome :=
      (copyFromUser_isSome fits).mpr (Or.inr (allowed_one.mpr ⟨low, pa, reaches⟩))
    obtain ⟨dst, copied⟩ := Option.isSome_iff_exists.mp copied
    obtain ⟨addrs, backs, length, rfl⟩ := copyFromUser_some fits copied
    obtain ⟨pa', rfl⟩ := List.length_eq_one_iff.mp length
    obtain rfl := reaches.unique (backs 0 pa' rfl)
    obtain ⟨flags, walked, -⟩ := reaches
    exact ⟨⟨flags, walked⟩, copied⟩
  · rintro ⟨⟨flags, walked⟩, copied⟩
    have allowed := (copyFromUser_isSome fits).mp (Option.isSome_iff_exists.mpr ⟨_, copied⟩)
    obtain ⟨low, pa', reaches⟩ := allowed_one.mp (allowed.resolve_left (by decide))
    obtain ⟨flags', walked', rest⟩ := id reaches
    rw [walked] at walked'
    cases walked'
    exact ⟨low, reaches⟩

/-- What the user copies promise about one address. -/
structure CopyExact (m : Memory) (satp : Word) (va : Nat) : Prop where
  fromUser : ∀ len, (copyFromUser m satp va len).isSome ↔ len = 0 ∨ Allowed m satp false va len
  toUser : ∀ src : List Byte, (copyToUser m satp va src).isSome ↔ src.length = 0 ∨ Allowed m satp true va src.length
  reads : ∀ len dst, copyFromUser m satp va len = some dst →
    dst.length = len ∧ ∀ i, i < len → ∃ pa, Reaches m satp false (va + i) pa ∧ dst[i]? = some (m pa)
  writes : ∀ src m', copyToUser m satp va src = some m' → ∀ i b, src[i]? = some b →
    ∃ pa, Reaches m satp true (va + i) pa ∧
      ((∀ j, i < j → j < src.length → ¬ Reaches m satp true (va + j) pa) → m' pa = b)
  frame : ∀ src m', copyToUser m satp va src = some m' → ∀ x,
    (∀ i, i < src.length → ¬ Reaches m satp true (va + i) x) → m' x = m x
  lands : ∀ src m', copyToUser m satp va src = some m' → Distinct m satp va src.length → ∀ i b, src[i]? = some b →
    ∃ pa, Reaches m satp true (va + i) pa ∧ m' pa = b
  back : ∀ src m', copyToUser m satp va src = some m' → Distinct m satp va src.length →
    Untabled m satp va src.length → copyFromUser m' satp va src.length = some src
  translate : ∀ pa, translateUser m satp va = some pa ↔
    (∃ flags, walk (satpToRoot satp) va m.read64 = some ⟨pa, flags⟩) ∧ copyFromUser m satp va 1 = some [m pa]

theorem copy_writes (fits : va < 2 ^ 64) (h : copyToUser m satp va src = some m') {i : Nat} {b : Byte}
    (stored : src[i]? = some b) :
    ∃ pa, Reaches m satp true (va + i) pa ∧
      ((∀ j, i < j → j < src.length → ¬ Reaches m satp true (va + j) pa) → m' pa = b) := by
  obtain ⟨addrs, backs, length, rfl⟩ := copyToUser_some fits h
  obtain ⟨pa, reaches, -⟩ := backs.get (length ▸ (List.getElem?_eq_some_iff.mp stored).1)
  exact ⟨pa, reaches, scatter_last backs length stored reaches⟩

/-- User copies are exact, for every table memory, table, address and buffer. -/
theorem userCopy_exact (m : Memory) (satp va : Word) : CopyExact m satp va.toNat where
  fromUser _ := copyFromUser_isSome va.isLt
  toUser _ := copyToUser_isSome va.isLt
  reads len dst copied := by
    obtain ⟨addrs, backs, length, rfl⟩ := copyFromUser_some va.isLt copied
    refine ⟨by rw [List.length_map, length], fun i bound => ?_⟩
    obtain ⟨pa, reaches, entry⟩ := backs.get (length ▸ bound)
    exact ⟨pa, reaches, by rw [List.getElem?_map, entry, Option.map_some]⟩
  writes src m' copied i b stored := copy_writes va.isLt copied stored
  frame src m' copied x apart := by
    obtain ⟨addrs, backs, length, rfl⟩ := copyToUser_some va.isLt copied
    refine Memory.scatter_apply_outside fun member => ?_
    obtain ⟨i, bound, reaches⟩ := backs.mem member
    exact apart i (length ▸ bound) reaches
  lands src m' copied distinct i b stored := by
    obtain ⟨pa, reaches, last⟩ := copy_writes va.isLt copied stored
    refine ⟨pa, reaches, last fun j later bound other => ?_⟩
    have equal := distinct.injective (Nat.lt_trans later bound) bound reaches other
    omega
  back src m' copied distinct untabled := copyFromUser_copyToUser va.isLt copied distinct untabled
  translate _ := translateUser_iff_copy va.isLt

end Copies

/-! ### A table that maps itself -/

section SelfMap
attribute [local instance] Reference.platform

/-- Three tables in the heap; the last one maps itself for the user at 0x5000_0000. -/
def selfMap : Memory :=
  let root := Memory.write64 (fun _ => 0) 0x8021_0008 (Pte.branch 0x8021_1000).bits
  let level1 := root.write64 0x8021_1400 (Pte.branch 0x8021_2000).bits
  level1.write64 0x8021_2000 (Pte.new 0x8021_2000 userRw).bits

/-- A byte copied over the leaf it goes through is not copied back. -/
theorem userCopy_fails : ∃ m satp va src m', copyToUser m satp va src = some m' ∧ Distinct m satp va src.length ∧
    copyFromUser m' satp va src.length ≠ some src := by
  have computed : (copyToUser selfMap (makeSatp 0x8021_0000 0) 0x5000_0000 [0]).any
      (fun m' => (copyFromUser m' (makeSatp 0x8021_0000 0) 0x5000_0000 1).isNone) = true := by
    decide +kernel
  cases copied : copyToUser selfMap (makeSatp 0x8021_0000 0) 0x5000_0000 [0] with
  | some m' =>
    rw [copied, Option.any_some] at computed
    refine ⟨selfMap, makeSatp 0x8021_0000 0, 0x5000_0000, [0], m', copied, ?_, ?_⟩
    · intro i j pa pa' low high
      obtain rfl : i = 0 := by simpa using low
      obtain rfl : j = 0 := by simpa using high
      intros
      rfl
    · rw [List.length_singleton, Option.isNone_iff_eq_none.mp computed]
      exact Option.some_ne_none _ |>.symm
  | none =>
    rw [copied] at computed
    cases computed

end SelfMap

end GooseOs.Kvm
