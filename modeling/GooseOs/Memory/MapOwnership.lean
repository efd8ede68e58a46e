import GooseOs.Memory.Ownership
import GooseOs.Machine.Scenarios

/-!
SYS_MAP and ownership. The handler asks whether the page is allocated and in the heap, not whose it
is. In runs where SYS_MAP names none of the pages it cannot tell apart, every leaf it installs leads
to a page of its caller for as long as the leaf stands.
-/

namespace GooseOs
open Kvm Trap Syscall

section Law
variable [Platform]

/-- A leaf for `va` that SYS_MAP installed in the table of process `p`, leading to page `x`, and that
`p` has neither replaced nor removed by state `n`. -/
structure Installed (r : MachineRun) (m n p va x : Nat) : Prop where
  later : m < n
  call : r.CallAt m sysMapNo p
  phys : (r.state m).frame.a0.toNat = x * pageSize
  virt : vpn (r.state m).frame.a1.toNat = vpn va
  accepted : (r.state (m + 1)).frame.a0 = 0
  alive : r.Alive p m n
  stays : ∀ i, m < i → i < n → r.label i = .trap .ecall → (r.state i).currentPid = p →
    ¬ Remaps (r.state i) (r.state (i + 1)) va

/-- What an installed leaf leads to: a page its process owns, that stores no table and belongs to
nobody else. -/
structure OwnMapping (r : MachineRun) (n p va x : Nat) : Prop where
  mapped : ∃ root pte, (r.state n).roots p = some root ∧ leafAt (r.state n).vm.mem root va = some pte ∧
    pte.user = true ∧ pte.page = x
  owned : Owns r n p x
  plain : ¬ Tabled (r.state n).vm (r.state n).roots x
  alone : ∀ q, q ≠ p → ¬ Owns r n q x ∧ ¬ Loaded r n q x

/-- The law: every leaf SYS_MAP installs leads to a page of its process. -/
def MapsOwnPages (r : MachineRun) : Prop :=
  ∀ m n p va x, n ≤ r.len → Installed r m n p va x → OwnMapping r n p va x

/-- An accepted SYS_MAP names neither a page the kernel took for itself nor one another process
allocated; an accepted SYS_FREE_PAGES names neither a table nor a page mapped by a live process. -/
structure MapsKnown (r : MachineRun) (n : Nat) : Prop where
  map : ∀ p, r.CallAt n sysMapNo p → MapPasses (r.state n) → ∀ x, (r.state n).frame.a0.toNat = x * pageSize →
    ¬ KernelPage r n x ∧ ¬ OthersPage r n p x
  free : ∀ p, r.CallAt n sysFreePagesNo p → FreePasses (r.state n) → ∀ x,
    (r.state n).frame.a0.toNat = x * pageSize →
    ¬ Tabled (r.state n).vm (r.state n).roots x ∧ ¬ Mapped (r.state n).vm (r.state n).roots x

section Run
variable {r : MachineRun} (known : ∀ n, n < r.len → MapsKnown r n)
include known

theorem MapsKnown.tame {n : Nat} (bound : n ≤ r.len) :
    ∀ m, m < n → r.label m = .trap .ecall → Tame Pte.writable (r.state m) := by
  induction n with
  | zero => nofun
  | succ n ih =>
    intro m below label
    have earlier := ih (by omega)
    rcases Nat.lt_or_ge m n with inner | last
    · exact earlier m inner label
    · obtain rfl : m = n := by omega
      have here := known m bound
      refine ⟨fun number passes x phys _ table => ?_, fun number passes x phys => ?_⟩
      · exact (here.map _ ⟨bound, label, number, rfl⟩ passes x phys).1
          (tabled_kernelPage guardsWrites_writable earlier (by omega) table)
      · exact here.free _ ⟨bound, label, number, rfl⟩ passes x phys

/-- The step that installs a leaf: the page was the caller's, and the leaf is there. -/
theorem installed_first {m p va x : Nat} (call : r.CallAt m sysMapNo p)
    (phys : (r.state m).frame.a0.toNat = x * pageSize) (virt : vpn (r.state m).frame.a1.toNat = vpn va)
    (accepted : (r.state (m + 1)).frame.a0 = 0) :
    Owns r m p x ∧ Used (r.state (m + 1)).vm.alloc x ∧ ∃ root pte, (r.state m).roots p = some root ∧
      leafAt (r.state (m + 1)).vm.mem root va = some pte ∧ pte.user = true ∧ pte.page = x := by
  have bound := Nat.le_of_lt call.bound
  have cons := r.consistent bound
  have spaces := r.spaces guardsWrites_writable (MapsKnown.tame known bound) bound
  have wrong : ∀ {n}, (r.state m).frame.a7.toNat = n → n ≠ sysMapNo → False :=
    fun same other => other (same.symm.trans call.number)
  cases r.effect call.bound call.label with
  | quiet _ _ _ failed =>
    have core := failed rfl (by rw [call.number]) (by rw [call.number]; decide)
    rw [core] at accepted
    have result : usizeMax = 0 := accepted
    exact absurd result (by decide)
  | map call' number' phys' used passes mapped core =>
    rename_i n
    obtain rfl : x = n := Nat.eq_of_mul_eq_mul_right (by decide) (phys.symm.trans phys')
    have own := roots_current cons call.user
    obtain ⟨permission, plain⟩ := user_permission (r.state m).frame.a2.toNat
    have low : x < 2 ^ 52 := by
      have := used_range spaces.managed used
      omega
    obtain ⟨space, grown, leaf⟩ := mapPage_ok spaces.managed (spaces.space own) (permission.new_isLeaf low) mapped
    obtain ⟨notKernel, notOthers⟩ := (known m call.bound).map p call passes x phys
    refine ⟨((owner_cases r p used).resolve_left notKernel).resolve_left notOthers, grown.keeps x used, _, _,
      call.caller ▸ own, (leaf va).trans (if_pos virt.symm), ?_, Pte.new_page low permission.small⟩
    rw [Pte.user, Pte.new_flags low permission.small, plain]
  | unmap _ number => exact (wrong number (by decide)).elim
  | grant _ number => exact (wrong number (by decide)).elim
  | release _ number => exact (wrong number (by decide)).elim
  | spawn _ number => exact (wrong number (by decide)).elim

theorem installed_stays {m n p va x : Nat} (bound : n ≤ r.len) (installed : Installed r m n p va x) :
    (∀ i, m < i → i ≤ n → Used (r.state i).vm.alloc x) ∧ ∃ root pte, (r.state n).roots p = some root ∧
      leafAt (r.state n).vm.mem root va = some pte ∧ pte.user = true ∧ pte.page = x := by
  obtain ⟨later, call, phys, virt, accepted, alive, stays⟩ := installed
  have keeps : ∀ {i root : Nat}, m ≤ i → i < n → (r.state i).roots p = some root →
      (r.state (i + 1)).roots p = some root := fun lower upper own =>
    step_root_kept (r.consistent (by omega)) (r.steps _ (by omega)) own fun _ => alive _ (by omega) (by omega)
  obtain ⟨-, used₁, root, pte, own₀, leaf₁, user, page⟩ := installed_first known call phys virt accepted
  have own₁ := keeps (Nat.le_refl m) later own₀
  induction n with
  | zero => omega
  | succ n ih =>
    rcases Nat.lt_or_ge m n with inner | first
    · obtain ⟨used, root, pte, own, leaf, user, page⟩ :=
        ih (by omega) inner (fun i lower upper => alive i lower (by omega))
          (fun i lower upper => stays i lower (by omega)) fun lower upper => keeps lower (by omega)
      have frame := r.frame guardsWrites_writable
        (fun i below label => MapsKnown.tame known bound i (by omega) label) (Nat.lt_of_succ_le bound)
      -- The page is mapped, so no accepted free names it.
      have used' : Used (r.state (n + 1)).vm.alloc x := by
        rcases frame.used x (used n inner (Nat.le_refl n)) with kept | ⟨label, frees⟩
        · exact kept
        · have callAt : r.CallAt n sysFreePagesNo (r.state n).currentPid := ⟨by omega, label, frees.number, rfl⟩
          have unmapped := ((known n bound).free _ callAt frees.passes x frees.phys).2
          exact absurd ⟨p, root, va, pte, own, leaf, user, page⟩ unmapped
      refine ⟨fun i lower upper => ?_, root, pte, keeps (by omega) (by omega) own, ?_, user, page⟩
      · rcases Nat.lt_or_ge n i with last | before
        · obtain rfl : i = n + 1 := by omega
          exact used'
        · exact used i lower before
      · rcases frame.leaves p root va own with same | ⟨label, caller, remaps⟩
        · rw [same, leaf]
        · exact absurd remaps (stays n inner (by omega) label caller.symm)
    · obtain rfl : n = m := by omega
      refine ⟨fun i lower upper => ?_, root, pte, own₁, leaf₁, user, page⟩
      obtain rfl : i = n + 1 := by omega
      exact used₁

/-- Runs whose SYS_MAP calls name no page of the kernel or of another process, and whose
SYS_FREE_PAGES calls name no table and no mapped page, install leaves to own pages only. -/
theorem mapsOwnPages_of_known : MapsOwnPages r := by
  intro m n p va x bound installed
  obtain ⟨used, leaf⟩ := installed_stays known bound installed
  obtain ⟨owned, -, -⟩ := installed_first known installed.call installed.phys installed.virt installed.accepted
  have owns : Owns r n p x := owned.extend (Nat.le_of_lt installed.later) installed.alive used
  have tame := MapsKnown.tame known bound
  refine ⟨leaf, owns, fun table => ?_, fun q other => ⟨fun owns' => other (owns'.unique owns), fun loaded => ?_⟩⟩
  · exact owns.not_kernelPage (tabled_kernelPage guardsWrites_writable tame bound table)
  · exact owns.not_kernelPage (loaded.kernelPage bound tame).1

end Run
end Law

section Reference
open Reference
attribute [local instance] Reference.platform

/-- PID 1 maps the root table of PID 2. -/
theorem mapsOwnPages_fails : ∃ r : MachineRun, ¬ MapsOwnPages r := by
  have spaces : Spaces (fun _ => true) setup.vm setup.kernel.roots := Boot.booted_spaces starts.booted
  have used : Used setup.vm.alloc rootOf₂ := (spaces.space own₂).used _ Radix.table_root
  have pages := starts.pages
  obtain ⟨v, handled, -⟩ := map_handled spaces used (by omega)
  refine ⟨exchangeRun [⟨mapCall rootOf₂, v, 0⟩] ⟨handled, trivial⟩, fun law => ?_⟩
  generalize run : exchangeRun [⟨mapCall rootOf₂, v, 0⟩] ⟨handled, trivial⟩ = r at law
  have len : r.len = 2 := by rw [← run]; rfl
  have call : r.CallAt 1 sysMapNo 1 := by rw [← run]; exact ⟨Nat.one_lt_two, rfl, rfl, rfl⟩
  have installed : Installed r 1 2 1 0x5000_0000 rootOf₂ := by
    refine ⟨by decide, call, ?_, ?_, ?_, fun i lower upper => ?_, fun i lower upper => by omega⟩
    · rw [← run]
      exact pageArg_toNat spaces.managed used
    · rw [← run]
      rfl
    · rw [← run]
      rfl
    · rcases (by omega : i = 1 ∨ i = 2) with rfl | rfl <;> rw [← run] <;> nofun
  obtain ⟨m, since, alloc, -, -⟩ := (law 1 2 1 0x5000_0000 rootOf₂ (by rw [len]) installed).owned
  have before := since.before
  rcases (by omega : m = 0 ∨ m = 1) with rfl | rfl
  · have label := alloc.label
    rw [← run] at label
    cases label
  · exact absurd (alloc.number_eq call).1 (by decide)

/-- PID 1 maps the page it allocated. -/
theorem mapsOwnPages_placed : ∃ r : MachineRun, r.len = 4 ∧ MapsOwnPages r := by
  obtain ⟨n, v, v', placed⟩ := exists_placed
  have arg : (pageArg n).toNat = n * pageSize :=
    pageArg_toNat placed.grants.managed ((placed.grants.used n).mpr (Or.inl rfl))
  have allocates := calling_number sysAllocPagesNo (by decide) 1 0
  have maps := calling_number sysMapNo (by decide) (pageArg n) 0x5000_0000
  refine ⟨exchangeRun [⟨allocCall, v, pageArg n⟩, ⟨mapCall n, v', 0⟩] ⟨placed.handled, placed.mapped, trivial⟩, rfl,
    mapsOwnPages_of_known fun m bound => ⟨fun p call passes x phys => ?_, fun p call => ?_⟩⟩
  · rcases exchangeRun_call call with ⟨-, number⟩ | ⟨rfl, -⟩
    · exact absurd (allocates.symm.trans number) (by decide)
    obtain rfl : n = x := Nat.eq_of_mul_eq_mul_right (by decide) (arg.symm.trans phys)
    have own : p = 1 := call.caller.symm
    have owns := owns_granted placed.toGranted placed.mapped
    exact ⟨owns.not_kernelPage, own ▸ owns.not_othersPage⟩
  · rcases exchangeRun_call call with ⟨-, number⟩ | ⟨-, number⟩
    · exact absurd (allocates.symm.trans number) (by decide)
    · exact absurd (maps.symm.trans number) (by decide)

end Reference

end GooseOs
