import GooseOs.Memory.Demand

/-!
Reading an image. The parser and the copying loops touch an image through its loads alone, so a relation
between loads that fixed results and sequencing respect carries over to what they compute.
-/

namespace GooseOs
open Kvm Syscall

/-- The result is not one of the panics of `schedule` and `kill_current`. -/
def Calm {α : Type} (x : Result α) : Prop := x ≠ .error .deadlock ∧ x ≠ .error .noProcessToKill

section Results
variable {α β : Type}

theorem calm_ok (a : α) : Calm (.ok a : Result α) := ⟨nofun, nofun⟩

theorem calm_error {e : Halt} (deadlock : e ≠ .deadlock) (kill : e ≠ .noProcessToKill) : Calm (.error e : Result α) :=
  ⟨fun same => deadlock (Except.error.inj same), fun same => kill (Except.error.inj same)⟩

theorem calm_bind {x : Result α} {f : α → Result β} (first : Calm x) (next : ∀ a, x = .ok a → Calm (f a)) :
    Calm (x >>= f) := by
  cases x with
  | ok a => exact next a rfl
  | error e => exact ⟨fun same => first.1 (congrArg Except.error (Except.error.inj same)),
      fun same => first.2 (congrArg Except.error (Except.error.inj same))⟩

theorem calm_map {x : Result α} {f : α → β} (calm : Calm x) : Calm (x.map f) := by
  cases x with
  | ok a => exact calm_ok (f a)
  | error e => exact ⟨fun same => calm.1 (congrArg Except.error (Except.error.inj same)),
      fun same => calm.2 (congrArg Except.error (Except.error.inj same))⟩

end Results

/-! ### Building and loading -/

section Memory
variable {v : Vm} {root : Nat} {flags : PteFlags}

theorem allocZeroedPage_calm (v : Vm) : Calm (allocZeroedPage v) := by
  unfold allocZeroedPage
  split
  · exact calm_error nofun nofun
  · exact calm_ok _

theorem walkOrCreate_calm {table : Nat} {index : Fin ptEntries} : Calm (walkOrCreate v table index) := by
  unfold walkOrCreate
  dsimp only
  split
  · split
    · exact calm_ok _
    · exact calm_error nofun nofun
  · exact calm_bind (allocZeroedPage_calm v) fun _ _ => calm_ok _

theorem mapPage_calm {va pa : Nat} : Calm (mapPage v root va pa flags) :=
  calm_bind walkOrCreate_calm fun _ _ => calm_bind walkOrCreate_calm fun _ _ => calm_ok _

theorem mapFrom_calm {addr count : Nat} : Calm (mapFrom v root addr flags count) := by
  induction count generalizing v addr with
  | zero => exact calm_ok _
  | succ count ih => exact calm_bind mapPage_calm fun _ _ => ih

theorem mapRegions_calm {regions : List (Nat × Nat × PteFlags)} : Calm (mapRegions v root regions) := by
  induction regions generalizing v with
  | nil => exact calm_ok _
  | cons region rest ih => exact calm_bind mapFrom_calm fun _ _ => ih

end Memory

/-! ### Relations between computations -/

/-- A relation between a computation and a family of them that calm results and sequencing respect. -/
structure Lifts {ι : Type} (R : (α : Type) → Result α → (ι → Result α) → Prop) : Prop where
  fixed : ∀ {α : Type} {x : Result α}, Calm x → R α x fun _ => x
  bind : ∀ {α β : Type} {x : Result α} {y : ι → Result α} {f : α → Result β} {g : ι → α → Result β},
    R α x y → (∀ a, R β (f a) fun i => g i a) → R β (x >>= f) fun i => y i >>= g i

section Lifts
variable {ι : Type} {R : (α : Type) → Result α → (ι → Result α) → Prop} (lifts : Lifts R)
include lifts

theorem Lifts.ok {α : Type} (a : α) : R α (.ok a) fun _ => .ok a := lifts.fixed (calm_ok a)

omit lifts in
theorem lifts_ite {α : Type} {p : Prop} [Decidable p] {x x' : Result α} {y y' : ι → Result α} (yes : R α x y)
    (no : R α x' y') : R α (if p then x else x') fun i => if p then y i else y' i := by
  by_cases h : p
  · simpa only [if_pos h] using yes
  · simpa only [if_neg h] using no

theorem Lifts.mapM {α κ : Type} {f : κ → Result α} {g : ι → κ → Result α} (each : ∀ j, R α (f j) fun i => g i j)
    (l : List κ) : R (List α) (l.mapM f) fun i => l.mapM (g i) := by
  induction l with
  | nil => exact lifts.ok []
  | cons j rest ih =>
    simp only [List.mapM_cons]
    exact lifts.bind (each j) fun a => lifts.bind ih fun b => lifts.ok _

/-! ### The parser -/

namespace Elf
variable {d : Image} (d' : ι → Image) (len : ∀ i, (d' i).len = d.len)
  (loads : ∀ off, R Byte (d.load off) fun i => (d' i).load off)
include loads

theorem loadLe_lifts (off : Word) (n : Nat) : R Nat (d.loadLe off n) fun i => (d' i).loadLe off n := by
  induction n generalizing off with
  | zero => exact lifts.ok 0
  | succ n ih => exact lifts.bind (loads off) fun low => lifts.bind (ih (off + 1)) fun high => lifts.ok _

include len

theorem parseHeaders_lifts (phoff phentsize : Word) (left j : Nat) (segments : List LoadSegment) :
    R _ (parseHeaders d phoff phentsize left j segments) fun i => parseHeaders (d' i) phoff phentsize left j segments := by
  induction left generalizing j segments with
  | zero => exact lifts.ok _
  | succ left ih =>
    simp only [parseHeaders, len]
    have words := loadLe_lifts lifts d' loads
    refine lifts_ite (lifts.ok _) (lifts.bind (words _ _) fun pType => lifts_ite (ih _ _) (lifts_ite (lifts.ok _) ?_))
    refine lifts.bind (words _ _) fun pOffset => lifts.bind (words _ _) fun pFilesz => lifts_ite (lifts.ok _) ?_
    exact lifts.bind (words _ _) fun pVaddr => lifts.bind (words _ _) fun pMemsz => lifts.bind (words _ _) fun pFlags => ih _ _

theorem parse_lifts : R _ (parse d) fun i => parse (d' i) := by
  simp only [parse, len]
  have words := loadLe_lifts lifts d' loads
  refine lifts_ite (lifts.ok _) (lifts.bind (lifts.mapM (fun j => loads _) _) fun magic => lifts_ite (lifts.ok _) ?_)
  refine lifts.bind (words _ _) fun _ => lifts_ite (lifts.ok _) (lifts.bind (words _ _) fun _ => lifts_ite (lifts.ok _) ?_)
  refine lifts.bind (words _ _) fun _ => lifts_ite (lifts.ok _) (lifts.bind (words _ _) fun _ => lifts_ite (lifts.ok _) ?_)
  refine lifts.bind (words _ _) fun entry => lifts.bind (words _ _) fun phoff => lifts.bind (words _ _) fun phnum =>
    lifts.bind (words _ _) fun phentsize => lifts.bind (parseHeaders_lifts lifts d' len loads _ _ _ _ _) fun parsed => ?_
  split <;> exact lifts.ok _

end Elf

/-! ### The copying loops -/

namespace Syscall
variable {load : Memory → Word → Result Byte} {load' : ι → Memory → Word → Result Byte}

theorem copyBytes_lifts {m : Memory} {dst n : Nat} {src : Word}
    (loads : ∀ m i, i < n → R Byte (load m (src + BitVec.ofNat 64 i)) fun j => load' j m (src + BitVec.ofNat 64 i)) :
    R Memory (copyBytes load m dst src n) fun i => copyBytes (load' i) m dst src n := by
  induction n generalizing m dst src with
  | zero => exact lifts.ok m
  | succ n ih =>
    have first := loads m 0 (by omega)
    rw [BitVec.add_zero] at first
    refine lifts.bind first fun b => ih fun m i below => ?_
    have next := loads m (i + 1) (by omega)
    rwa [BitVec.ofNat_add, BitVec.add_comm (BitVec.ofNat 64 i), ← BitVec.add_assoc] at next

theorem copyPage_lifts {seg : Elf.LoadSegment} {va : Word} {page : Nat} {m : Memory}
    (loads : ∀ m i, i < (copySource seg va).2 → R Byte (load m ((copySource seg va).1 + BitVec.ofNat 64 i)) fun j =>
      load' j m ((copySource seg va).1 + BitVec.ofNat 64 i)) :
    R Memory (copyPage load seg va page m) fun i => copyPage (load' i) seg va page m := by
  unfold copyPage
  unfold copySource at loads
  dsimp only at loads ⊢
  generalize (if seg.vaddr > va then seg.vaddr else va) = start at *
  generalize (if seg.vaddr + seg.filesz < va + 4096 then seg.vaddr + seg.filesz else va + 4096) = stop at *
  by_cases overlap : start < stop
  · simp only [if_pos overlap] at loads ⊢
    exact copyBytes_lifts lifts loads
  · simp only [if_neg overlap]
    exact lifts.ok m

theorem loadPage_lifts {root p : Nat} {seg : Elf.LoadSegment} {v : Vm}
    (loads : ∀ m i, i < (copySource seg (segmentVa seg p)).2 →
      R Byte (load m ((copySource seg (segmentVa seg p)).1 + BitVec.ofNat 64 i)) fun j =>
        load' j m ((copySource seg (segmentVa seg p)).1 + BitVec.ofNat 64 i)) :
    R Vm (loadPage load root seg v p) fun i => loadPage (load' i) root seg v p := by
  unfold loadPage
  exact lifts.bind (lifts.fixed (allocZeroedPage_calm v)) fun page =>
    lifts.bind (copyPage_lifts lifts loads) fun mem => lifts.fixed mapPage_calm

theorem loadPages_lifts {root count p : Nat} {seg : Elf.LoadSegment} {v : Vm}
    (loads : ∀ m j, p ≤ j → j < p + count → ∀ i, i < (copySource seg (segmentVa seg j)).2 →
      R Byte (load m ((copySource seg (segmentVa seg j)).1 + BitVec.ofNat 64 i)) fun l =>
        load' l m ((copySource seg (segmentVa seg j)).1 + BitVec.ofNat 64 i)) :
    R Vm (loadPages load root seg count p v) fun i => loadPages (load' i) root seg count p v := by
  induction count generalizing p v with
  | zero => exact lifts.ok v
  | succ count ih =>
    exact lifts.bind (loadPage_lifts lifts fun m => loads m p (by omega) (by omega)) fun v =>
      ih fun m j lower upper => loads m j (by omega) (by omega)

theorem loadSegments_lifts {root : Nat} {segments : List Elf.LoadSegment} {v : Vm}
    (loads : ∀ m off, Copied segments off → R Byte (load m off) fun i => load' i m off) :
    R Vm (loadSegments load root segments v) fun i => loadSegments (load' i) root segments v := by
  induction segments generalizing v with
  | nil => exact lifts.ok v
  | cons seg rest ih =>
    refine lifts.bind (loadPages_lifts lifts fun m j _ upper i below => ?_) fun v => ih fun m off copied => ?_
    · exact loads m _ ⟨seg, List.mem_cons_self .., j, by omega, i, below, rfl⟩
    · obtain ⟨seg', member, inside⟩ := copied
      exact loads m off ⟨seg', List.mem_cons_of_mem _ member, inside⟩

/-- Only the loads of copied offsets matter to the loader. -/
theorem loadElf_lifts [Platform] (load' : ι → Memory → Word → Result Byte) {info : Elf.ElfInfo} {v : Vm}
    (loads : ∀ m off, Copied info.segments off → R Byte (load m off) fun i => load' i m off) :
    R _ (loadElf load info v) fun i => loadElf (load' i) info v := by
  unfold loadElf
  exact lifts.bind (lifts.fixed (allocZeroedPage_calm v)) fun _ => lifts.bind (lifts.fixed mapRegions_calm) fun _ =>
    lifts.bind (loadSegments_lifts lifts loads) fun _ => lifts.bind (lifts.fixed (allocZeroedPage_calm _)) fun _ =>
      lifts.bind (lifts.fixed mapPage_calm) fun _ => lifts.ok _

end Syscall
end Lifts

/-! ### Instances -/

theorem calm_lifts : Lifts fun α x (_ : Unit → Result α) => Calm x :=
  ⟨fun calm => calm, fun first next => calm_bind first fun a _ => next a⟩

theorem Elf.parse_calm {d : Elf.Image} (loads : ∀ off, Calm (d.load off)) : Calm (Elf.parse d) :=
  parse_lifts calm_lifts (fun _ => d) (fun _ => rfl) loads

theorem Syscall.loadElf_calm [Platform] {load : Memory → Word → Result Byte} {info : Elf.ElfInfo} {v : Vm}
    (loads : ∀ m off, Calm (load m off)) : Calm (loadElf load info v) :=
  loadElf_lifts calm_lifts (fun _ => load) fun m off _ => loads m off

/-- Where `x` succeeds, `y` succeeds alike. -/
def Follows {α : Type} (x y : Result α) : Prop := ∀ a, x = .ok a → y = .ok a

theorem follows_lifts : Lifts fun α x (y : Unit → Result α) => Follows x (y ()) := by
  refine ⟨fun _ _ done => done, fun first next b h => ?_⟩
  obtain ⟨a, done, rest⟩ := bind_ok h
  dsimp only
  rw [first a done, ok_bind]
  exact next a b rest

/-- The parser gives the same answer from any load that answers more often. -/
theorem Elf.parse_follows {d d' : Elf.Image} (len : d'.len = d.len) (more : ∀ off, Follows (d.load off) (d'.load off)) :
    Follows (Elf.parse d) (Elf.parse d') :=
  parse_lifts follows_lifts (fun _ => d') (fun _ => len) more

end GooseOs
