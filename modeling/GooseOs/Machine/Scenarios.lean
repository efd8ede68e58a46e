import GooseOs.Machine.Reference
import GooseOs.Memory.Answers

/-!
Runs on the reference board in which PID 1 asks for memory: pages it allocates, maps and frees, and
the page tables of PID 2, which the handlers do not tell from such pages.
-/

namespace GooseOs.Reference
open BitmapAllocator Kvm Boot Syscall Trap Security
attribute [local instance] platform

/-- The board while PID 1 runs. -/
noncomputable def running (v : Vm) (f : TrapFrame) : Kernel := { setup.kernel with vm := v, frame := f }

/-- A system call of PID 1: its registers, and the memory and the answer it gets. -/
structure Exchange where
  frame : TrapFrame
  after : Vm
  a0 : Word

/-- The handler gives this answer. -/
structure Exchange.Handled (e : Exchange) (v : Vm) : Prop where
  mode : e.frame.spp = false
  answer : trapHandler (running v e.frame) .ecall = .ok ((running v e.frame).answer e.after e.a0)

/-- PID 1 makes one call after the other. -/
noncomputable def exchanges : List Exchange → Vm → List (Label × Kernel)
  | [], _ => []
  | e :: rest, v =>
    (.user, running v e.frame) :: (.trap .ecall, (running v e.frame).answer e.after e.a0) :: exchanges rest e.after

def AllHandled : List Exchange → Vm → Prop
  | [], _ => True
  | e :: rest, v => e.Handled v ∧ AllHandled rest e.after

theorem exchanges_linked {calls : List Exchange} {v : Vm} {f : TrapFrame} (mode : f.spp = false)
    (handled : AllHandled calls v) : Run.Linked Step (running v f) (exchanges calls v) := by
  induction calls generalizing v f with
  | nil => trivial
  | cons e rest ih =>
    obtain ⟨here, later⟩ := handled
    exact ⟨.user (m := v.mem) mode here.mode fun _ differ => absurd rfl differ, .ecall here.mode here.answer,
      ih here.mode later⟩

noncomputable def exchangeRun (calls : List Exchange) (handled : AllHandled calls setup.vm) : MachineRun :=
  Run.ofTrace setup.kernel starts.booted (exchanges calls setup.vm)
    (exchanges_linked (f := setup.kernel.frame) rfl handled)

/-- Every call of the run is one of the script. -/
theorem exchanges_ecall {calls : List Exchange} (k : Kernel) {v : Vm} {n : Nat}
    (label : Run.labelAt (exchanges calls v) n = .trap .ecall) : ∃ i e, calls[i]? = some e ∧ n = 2 * i + 1 ∧
      (Run.stateAt k (exchanges calls v) n).frame = e.frame := by
  induction calls generalizing k v n with
  | nil => cases label
  | cons e rest ih =>
    match n, label with
    | 1, _ => exact ⟨0, e, rfl, rfl, rfl⟩
    | n + 2, label =>
      obtain ⟨i, e', found, rfl, same⟩ := ih ((running v e.frame).answer e.after e.a0) label
      exact ⟨i + 1, e', found, rfl, same⟩

theorem exchangeRun_call {e e' : Exchange} {handled : AllHandled [e, e'] setup.vm} {n number p : Nat}
    (call : (exchangeRun [e, e'] handled).CallAt n number p) :
    (n = 1 ∧ e.frame.a7.toNat = number) ∨ (n = 3 ∧ e'.frame.a7.toNat = number) := by
  obtain ⟨i, made, found, rfl, same⟩ := exchanges_ecall setup.kernel call.label
  have number := call.number
  rw [show ((exchangeRun [e, e'] handled).state (2 * i + 1)).frame = made.frame from same] at number
  match i, found with
  | 0, found =>
    cases found
    exact .inl ⟨rfl, number⟩
  | 1, found =>
    cases found
    exact .inr ⟨rfl, number⟩

/-! ### The calls -/

/-- Page `n` as a system-call argument. -/
def pageArg (n : Nat) : Word := BitVec.ofNat 64 (n * pageSize)

def allocCall : TrapFrame := calling sysAllocPagesNo 1 0

/-- Map page `n` writable at the start of the user range. -/
def mapCall (n : Nat) : TrapFrame := calling sysMapNo (pageArg n) 0x5000_0000

def freeCall (n : Nat) : TrapFrame := calling sysFreePagesNo (pageArg n) 1

noncomputable abbrev rootOf₁ : Nat := rootOf setup.satp₁

noncomputable abbrev rootOf₂ : Nat := rootOf setup.satp₂

theorem own₁ : setup.kernel.roots 1 = some rootOf₁ := rfl

theorem own₂ : setup.kernel.roots 2 = some rootOf₂ := rfl

section Calls
variable {guard : Pte → Bool} {v : Vm} {n : Nat}

theorem pageArg_toNat (managed : Managed v.alloc) (used : Used v.alloc n) : (pageArg n).toNat = n * pageSize := by
  have range := used_range managed used
  rw [pageArg, BitVec.toNat_ofNat]
  simp only [pageSize] at *
  omega

theorem heap_page (managed : Managed v.alloc) (used : Used v.alloc n) : isUserHeapPa (n * pageSize) = true := by
  have range := used_range managed used
  rw [isUserHeapPa, Bool.and_eq_true, decide_eq_true_eq, decide_eq_true_eq]
  exact ⟨range.1, range.2.1⟩

theorem calling_mode (number : Nat) (a0 a1 : Word) : (calling number a0 a1).spp = false := by
  change (0#64).getLsbD 8 = false
  decide

theorem calling_number (number : Nat) (small : number < 2 ^ 64) (a0 a1 : Word) : (calling number a0 a1).a7.toNat = number :=
  Nat.mod_eq_of_lt small

theorem window_valid : isPageAligned (0x5000_0000 : Word).toNat = true ∧ isUserVa (0x5000_0000 : Word).toNat = true ∧
    isValidMapFlags (0 : Word).toNat = true := by decide

theorem one_valid : isValidAllocCount (1 : Word).toNat = true := by decide

theorem aligned_page : isPageAligned (n * pageSize) = true := isPageAligned_iff.mpr (Nat.mul_mod_left ..)

theorem alloc_handled (managed : Managed v.alloc) (enough : 0 < v.alloc.freePages) :
    ∃ n a', Exchange.Handled ⟨allocCall, zeroPage { v with alloc := a' } (n * pageSize), pageArg n⟩ v ∧
      Grants v.alloc a' n ∧ a'.freePages + 1 = v.alloc.freePages := by
  rcases alloc_hands managed.pages with ⟨n, a', handed, hands⟩ | ⟨-, none⟩
  · obtain ⟨m, same, grants⟩ := alloc_grants managed handed
    obtain rfl : n = m := Nat.eq_of_mul_eq_mul_right (by decide) same
    refine ⟨n, a', ⟨calling_mode .., ?_⟩, grants, hands.count⟩
    exact sysAllocPages_grants (k := running v allocCall) one_valid handed
  · omega

theorem map_answers {flags : Word} (spaces : Spaces guard v setup.kernel.roots) (used : Used v.alloc n)
    (enough : 2 ≤ v.alloc.freePages) (valid : isValidMapFlags flags.toNat = true) :
    ∃ v', Exchange.Handled ⟨{ mapCall n with a2 := flags }, v', 0⟩ v ∧
      mapPage v (rootOf₁ * pageSize) 0x5000_0000 (n * pageSize) (if flags.toNat = 0 then userRw else userRx) = .ok v' := by
  have managed := spaces.managed
  have arg := pageArg_toNat managed used
  have allocated : v.alloc.isAllocated (n * pageSize) = true := (isAllocated_used managed).mpr ⟨n, rfl, used⟩
  have passes : MapPasses (running v { mapCall n with a2 := flags }) :=
    ⟨arg ▸ aligned_page, window_valid.1, window_valid.2.1, arg ▸ allocated, arg ▸ heap_page managed used, valid⟩
  have leaf : (Pte.new (n * pageSize) (if flags.toNat = 0 then userRw else userRx)).isLeaf = true :=
    (user_permission flags.toNat).1.new_isLeaf (by
      have := used_range managed used
      omega)
  have space : Space v rootOf₁ := spaces.space own₁
  obtain ⟨v', mapped, -, -⟩ := mapPage_within 0x5000_0000 leaf (space.wellFormed managed) enough
  refine ⟨v', ⟨calling_mode sysMapNo (pageArg n) 0x5000_0000, (sysMap_passes passes).trans ?_⟩, mapped⟩
  change Except.map _ (mapPage v (satpToRoot setup.satp₁) 0x5000_0000 (pageArg n).toNat _) = _
  rw [satpToRoot_eq, arg]
  change Except.map _ (mapPage v (rootOf₁ * pageSize) 0x5000_0000 (n * pageSize)
    (if flags.toNat = 0 then userRw else userRx)) = _
  rw [mapped]
  rfl

theorem map_handled (spaces : Spaces guard v setup.kernel.roots) (used : Used v.alloc n)
    (enough : 2 ≤ v.alloc.freePages) :
    ∃ v', Exchange.Handled ⟨mapCall n, v', 0⟩ v ∧
      mapPage v (rootOf₁ * pageSize) 0x5000_0000 (n * pageSize) userRw = .ok v' :=
  map_answers spaces used enough window_valid.2.2

theorem free_passes (managed : Managed v.alloc) (used : Used v.alloc n) : FreePasses (running v (freeCall n)) := by
  have arg := pageArg_toNat managed used
  have allocated : v.alloc.isAllocated (n * pageSize) = true := (isAllocated_used managed).mpr ⟨n, rfl, used⟩
  exact ⟨one_valid, arg ▸ aligned_page, arg ▸ allocated⟩

theorem free_handled (managed : Managed v.alloc) (used : Used v.alloc n) :
    ∃ v', Exchange.Handled ⟨freeCall n, v', 0⟩ v ∧ v'.mem = v.mem.fill (n * pageSize) pageSize 0 ∧
      Releases v.alloc v'.alloc n := by
  have arg := pageArg_toNat managed used
  have allocated : v.alloc.isAllocated (n * pageSize) = true := (isAllocated_used managed).mpr ⟨n, rfl, used⟩
  obtain ⟨a', freed⟩ := BitmapAllocator.free_of_allocated allocated
  obtain ⟨m, same, releases⟩ := free_releases managed freed
  obtain rfl : n = m := Nat.eq_of_mul_eq_mul_right (by decide) same
  have passes := free_passes managed used
  refine ⟨{ zeroPage v (n * pageSize) with alloc := a' }, ⟨calling_mode .., ?_⟩, rfl, releases⟩
  have same : v.alloc.free (pageArg n).toNat = .ok a' := arg.symm ▸ freed
  have answer := sysFreePages_releases (k := running v (freeCall n)) passes same
  refine Eq.trans answer ?_
  change Except.ok ((running v (freeCall n)).answer { zeroPage v (pageArg n).toNat with alloc := a' } 0) = _
  rw [arg]

end Calls

/-! ### A page of one's own -/

/-- PID 1 has allocated page `n`. -/
structure Granted (n : Nat) (v : Vm) : Prop where
  handled : Exchange.Handled ⟨allocCall, v, pageArg n⟩ setup.vm
  grants : Grants setup.vm.alloc v.alloc n
  pages : 184 ≤ v.alloc.freePages
  spaces : Spaces (fun _ => true) v setup.kernel.roots
  plain : ¬ Tabled v setup.kernel.roots n
  unmapped : ¬ Mapped v setup.kernel.roots n

theorem exists_granted : ∃ n v, Granted n v := by
  have spaces : Spaces (fun _ => true) setup.vm setup.kernel.roots := booted_spaces starts.booted
  have pages := starts.pages
  obtain ⟨n, a', handled, grants, count⟩ := alloc_handled spaces.managed (by omega)
  have same : ∀ x, Tabled setup.vm setup.kernel.roots (x / pageSize) →
      (zeroPage { setup.vm with alloc := a' } (n * pageSize)).mem x = setup.vm.mem x := by
    rintro x ⟨o, root, own, table⟩
    have other : x / pageSize ≠ n := fun same => grants.fresh (same ▸ (spaces.space own).used _ table)
    exact Memory.fill_apply_outside (page_apart other)
  have tables := Spaces.sameTables_of_mem same
  have keeps : ∀ m, Used setup.vm.alloc m → Used a' m := fun m used => (grants.used m).mpr (Or.inr used)
  refine ⟨n, _, handled, grants, by change 184 ≤ a'.freePages; omega, spaces.frame grants.managed (fun m used _ => keeps m used) same, ?_, ?_⟩
  · rintro ⟨o, root, own, table⟩
    exact grants.fresh ((spaces.space own).used n ((tables.tables own).mp table))
  · rintro ⟨o, root, va, pte, own, leaf, user, rfl⟩
    rw [tables.leaves va own] at leaf
    exact grants.fresh (spaces.backed own leaf user (used_inHeap grants.managed ((grants.used _).mpr (Or.inl rfl))))

/-- PID 1 has mapped the page it allocated. -/
structure Placed (n : Nat) (v v' : Vm) : Prop extends Granted n v where
  mapped : Exchange.Handled ⟨mapCall n, v', 0⟩ v
  managed : Managed v'.alloc
  used : Used v'.alloc n
  leaf : leafAt v'.mem rootOf₁ 0x5000_0000 = some (.new (n * pageSize) userRw)
  bare : ¬ IsTable v' rootOf₁ n

theorem exists_placed : ∃ n v v', Placed n v v' := by
  obtain ⟨n, v, granted⟩ := exists_granted
  have used : Used v.alloc n := (granted.grants.used n).mpr (Or.inl rfl)
  have pages := granted.pages
  have space : Space v rootOf₁ := granted.spaces.space own₁
  obtain ⟨v', handled, mapped⟩ := map_handled granted.spaces used (by omega)
  have low : n < 2 ^ 52 := by
    have := used_range granted.spaces.managed used
    omega
  obtain ⟨-, grown, leaf⟩ :=
    mapPage_ok granted.spaces.managed space (isPermission_user.2.1.new_isLeaf low) mapped
  refine ⟨n, v, v', granted, handled, grown.managed, grown.keeps n used, by rw [leaf, if_pos rfl], fun table => ?_⟩
  rcases grown.fresh n table with before | unused
  · exact granted.plain ⟨1, rootOf₁, own₁, before⟩
  · exact unused used

end GooseOs.Reference
