import GooseOs.Memory.Dangling
import GooseOs.Machine.Scenarios

/-!
Who owns a page. The bitmap records no owner, so ownership is read from the run: a page belongs to
whoever last allocated it. A used page is the kernel's (a table, code or stack page), the caller's,
or someone else's.
-/

namespace GooseOs
open Kvm Trap Syscall

section Law
variable [Platform]

section History
variable (r : MachineRun)

/-- Page `x` was free at state `m` and has been used from there on, up to state `n`. -/
structure UsedSince (m n x : Nat) : Prop where
  before : m < n
  free : ¬ Used (r.state m).vm.alloc x
  used : ∀ i, m < i → i ≤ n → Used (r.state i).vm.alloc x

/-- Process `p` got page `x` from SYS_ALLOC_PAGES, and no call has freed the page since. -/
def Owns (n p x : Nat) : Prop :=
  ∃ m, UsedSince r m n x ∧ r.CallAt m sysAllocPagesNo p ∧
    (r.state (m + 1)).frame.a0.toNat = x * pageSize ∧ r.Alive p m n

/-- Page `x` was last allocated at boot or by a step other than SYS_ALLOC_PAGES: for a page table, or
for the code, data or stack of a process. -/
def KernelPage (n x : Nat) : Prop :=
  (∀ i, i ≤ n → Used (r.state i).vm.alloc x) ∨ ∃ m, UsedSince r m n x ∧ ∀ q, ¬ r.CallAt m sysAllocPagesNo q

/-- Page `x` was last allocated by SYS_ALLOC_PAGES of a process other than `p`, or of an earlier
process in slot `p`. -/
def OthersPage (n p x : Nat) : Prop :=
  ∃ m q, UsedSince r m n x ∧ r.CallAt m sysAllocPagesNo q ∧ (q ≠ p ∨ ¬ r.Alive p m n)

/-- Process `q` came into being at state `b`: at boot, or spawned by the step before. -/
def Born (b q : Nat) : Prop :=
  b = 0 ∨ ∃ m, b = m + 1 ∧ ((r.state m).procs q).state = .free ∧ ((r.state b).procs q).state ≠ .free

/-- Page `x` was loaded for process `q`: mapped for it at its birth, and in use ever since. -/
def Loaded (n q x : Nat) : Prop :=
  ∃ b root va pte, b ≤ n ∧ Born r b q ∧ r.Alive q b n ∧ (r.state b).roots q = some root ∧
    leafAt (r.state b).vm.mem root va = some pte ∧ pte.user = true ∧ pte.page = x ∧ InHeap x ∧
    ∀ i, b ≤ i → i ≤ n → Used (r.state i).vm.alloc x

end History

section Last
variable {r : MachineRun} {m m' n p q x : Nat}

theorem UsedSince.unique (first : UsedSince r m n x) (second : UsedSince r m' n x) : m = m' := by
  rcases Nat.lt_trichotomy m m' with below | same | above
  · exact absurd (first.used m' below (Nat.le_of_lt second.before)) second.free
  · exact same
  · exact absurd (second.used m above (Nat.le_of_lt first.before)) first.free

theorem UsedSince.extend (since : UsedSince r m n x) (used : Used (r.state (n + 1)).vm.alloc x) :
    UsedSince r m (n + 1) x := by
  refine ⟨Nat.lt_succ_of_lt since.before, since.free, fun i lower upper => ?_⟩
  rcases Nat.lt_or_ge n i with last | inner
  · obtain rfl : i = n + 1 := by omega
    exact used
  · exact since.used i lower inner

theorem KernelPage.extend (page : KernelPage r n x) (used : Used (r.state (n + 1)).vm.alloc x) :
    KernelPage r (n + 1) x := by
  rcases page with always | ⟨m, since, other⟩
  · refine Or.inl fun i bound => ?_
    rcases Nat.lt_or_ge n i with last | inner
    · obtain rfl : i = n + 1 := by omega
      exact used
    · exact always i inner
  · exact Or.inr ⟨m, since.extend used, other⟩

theorem Owns.not_kernelPage (owns : Owns r n p x) : ¬ KernelPage r n x := by
  obtain ⟨m, since, call, -, -⟩ := owns
  rintro (always | ⟨m', since', other⟩)
  · exact since.free (always m (Nat.le_of_lt since.before))
  · obtain rfl := since.unique since'
    exact other p call

theorem Owns.not_othersPage (owns : Owns r n p x) : ¬ OthersPage r n p x := by
  obtain ⟨m, since, call, -, alive⟩ := owns
  rintro ⟨m', q, since', call', stranger⟩
  obtain rfl := since.unique since'
  exact stranger.elim (fun other => other (call'.number_eq call).2) fun dead => dead alive

theorem Owns.unique (owns : Owns r n p x) (owns' : Owns r n q x) : p = q := by
  obtain ⟨m, since, call, -, -⟩ := owns
  obtain ⟨m', since', call', -, -⟩ := owns'
  obtain rfl := since.unique since'
  exact (call.number_eq call').2

theorem Owns.extend (owns : Owns r m p x) (later : m ≤ n) (alive : r.Alive p m n)
    (used : ∀ i, m < i → i ≤ n → Used (r.state i).vm.alloc x) : Owns r n p x := by
  obtain ⟨m₀, since, call, result, before⟩ := owns
  refine ⟨m₀, ⟨Nat.lt_of_lt_of_le since.before later, since.free, fun i lower upper => ?_⟩, call, result,
    before.trans alive⟩
  rcases Nat.lt_or_ge m i with above | below
  · exact used i above upper
  · exact since.used i lower below

/-- A page that a step newly uses was granted by it or, without SYS_ALLOC_PAGES, taken by the kernel. -/
theorem granted_result (call : r.CallAt m sysAllocPagesNo p) (free : ¬ Used (r.state m).vm.alloc x)
    (used : Used (r.state (m + 1)).vm.alloc x) : (r.state (m + 1)).frame.a0.toNat = x * pageSize := by
  have managed := r.managed (Nat.succ_le_of_lt call.bound)
  have wrong : ∀ {n}, (r.state m).frame.a7.toNat = n → n ≠ sysAllocPagesNo → False :=
    fun same other => other (same.symm.trans call.number)
  cases r.effect call.bound call.label with
  | quiet alloc => exact absurd (alloc ▸ used) free
  | map _ number => exact (wrong number (by decide)).elim
  | unmap _ number => exact (wrong number (by decide)).elim
  | grant _ _ grants zeroed core =>
    rcases (grants.used x).mp used with rfl | before
    · have range := used_range managed used
      rw [core]
      change (BitVec.ofNat 64 (x * pageSize)).toNat = x * pageSize
      rw [BitVec.toNat_ofNat]
      exact Nat.mod_eq_of_lt (by simp only [pageSize] at *; omega)
    · exact absurd before free
  | release _ number => exact (wrong number (by decide)).elim
  | spawn _ number => exact (wrong number (by decide)).elim

/-- A used page is the kernel's, someone else's, or the process's own. -/
theorem owner_cases (r : MachineRun) (p : Nat) (used : Used (r.state n).vm.alloc x) :
    KernelPage r n x ∨ OthersPage r n p x ∨ Owns r n p x := by
  by_cases always : ∀ i, i ≤ n → Used (r.state i).vm.alloc x
  · exact Or.inl (Or.inl always)
  simp only [not_forall] at always
  obtain ⟨i, bound, free⟩ := always
  obtain ⟨m, -, below, entry, stays⟩ :=
    exists_last_entry (P := fun i => Used (r.state i).vm.alloc x) free used bound
  have since : UsedSince r m n x := ⟨below, entry, stays⟩
  by_cases granted : ∃ q, r.CallAt m sysAllocPagesNo q
  · obtain ⟨q, call⟩ := granted
    by_cases own : q = p ∧ r.Alive p m n
    · obtain ⟨rfl, alive⟩ := own
      exact Or.inr (Or.inr ⟨m, since, call, granted_result call entry (stays _ (by omega) (by omega)), alive⟩)
    · exact Or.inr (Or.inl ⟨m, q, since, call, not_and_or.mp own⟩)
  · exact Or.inl (Or.inr ⟨m, since, fun q call => granted ⟨q, call⟩⟩)

end Last

/-! ### Tables and loaded pages are the kernel's -/

section Kernel
variable {guard : Pte → Bool} {r : MachineRun} {n p q x : Nat} (guards : GuardsWrites guard)
include guards

theorem tabled_kernelPage (tame : ∀ m, m < n → r.label m = .trap .ecall → Tame guard (r.state m)) (bound : n ≤ r.len)
    (table : Tabled (r.state n).vm (r.state n).roots x) : KernelPage r n x := by
  induction n with
  | zero =>
    obtain ⟨o, root, own, table⟩ := table
    have used := ((r.spaces guards tame bound).space own).used x table
    refine Or.inl fun i first => ?_
    obtain rfl : i = 0 := by omega
    exact used
  | succ n ih =>
    have frame := r.frame guards (fun m below => tame m (by omega)) bound
    have used : Used (r.state (n + 1)).vm.alloc x := by
      obtain ⟨o, root, own, table⟩ := table
      exact ((r.spaces guards tame bound).space own).used x table
    rcases frame.tabled x table with before | ⟨unused, other⟩
    · exact (ih (fun m below => tame m (by omega)) (by omega) before).extend used
    · refine Or.inr ⟨n, ⟨Nat.lt_succ_self n, unused, fun i lower upper => ?_⟩, fun q call => other ⟨call.label, call.number⟩⟩
      obtain rfl : i = n + 1 := by omega
      exact used

omit guards in
/-- A slot that was free comes alive by a spawn, which builds its space from unused pages. -/
theorem born_builds (bound : n < r.len) (free : ((r.state n).procs p).state = .free)
    (live : ((r.state (n + 1)).procs p).state ≠ .free) :
    (r.label n = .trap .ecall ∧ (r.state n).frame.a7.toNat = sysSpawnNo) ∧
      ∃ root, Builds (r.state n).vm (r.state (n + 1)).vm root ∧
        (r.state (n + 1)).roots = Function.update (r.state n).roots p (some root) := by
  have cons := r.consistent (Nat.le_of_lt bound)
  have step := r.steps n bound
  by_cases trap : ∃ t, r.label n = .trap t
  · obtain ⟨t, label⟩ := trap
    have spawned : t = .ecall ∧ (r.state n).frame.a7.toNat = sysSpawnNo := by
      obtain ⟨mid, changes, dispatch⟩ := r.traps bound label
      rw [label] at step
      have alive : (mid p).state ≠ .free := by
        rcases Consistent.dispatch_procs dispatch p with same | ⟨ready, -⟩
        · rwa [← same]
        · rw [ready]
          nofun
      exact (cons.change_live (step_trap step).2 (changes p) alive).resolve_left (fun used => used free)
    obtain ⟨rfl, spawns⟩ := spawned
    have wrong : ∀ {number}, (r.state n).frame.a7.toNat = number → number ≠ sysSpawnNo → False :=
      fun same other => other (same.symm.trans spawns)
    refine ⟨⟨label, spawns⟩, ?_⟩
    cases r.effect bound label with
    | quiet _ _ _ failed =>
      rw [failed rfl (by rw [spawns]; decide) (by rw [spawns])] at live
      exact absurd free live
    | map _ number => exact (wrong number (by decide)).elim
    | unmap _ number => exact (wrong number (by decide)).elim
    | grant _ number => exact (wrong number (by decide)).elim
    | release _ number => exact (wrong number (by decide)).elim
    | spawn call number unused range builds core =>
      rename_i pid root entry sp
      have roots : (r.state (n + 1)).roots = Function.update (r.state n).roots pid (some root) :=
        roots_install (by omega) (builds_bound builds) (by rw [core]; rfl) (by rw [core])
      have same : p = pid := by
        by_contra other
        rw [core] at live
        simp only [Function.update_of_ne other] at live
        exact live free
      subst same
      exact ⟨root, builds, roots⟩
  · have procs := (step_other step fun t same => trap ⟨t, same⟩).1
    rw [procs] at live
    exact absurd free live

omit guards in
/-- A user page of a process at its birth was taken for it, and holds no table. -/
theorem birth_fresh {b root va : Nat} {pte : Pte} (bound : b ≤ r.len) (born : Born r b q)
    (own : (r.state b).roots q = some root)
    (leaf : leafAt (r.state b).vm.mem root va = some pte) (user : pte.user = true)
    (tame : ∀ m, m < b → r.label m = .trap .ecall → Tame Pte.writable (r.state m)) :
    ¬ Tabled (r.state b).vm (r.state b).roots pte.page ∧
      (b = 0 ∨ ∃ m, b = m + 1 ∧ ¬ Used (r.state m).vm.alloc pte.page ∧ ∀ p, ¬ r.CallAt m sysAllocPagesNo p) := by
  rcases born with rfl | ⟨m, rfl, free, live⟩
  · have spaces : Spaces (fun _ => true) (r.state 0).vm (r.state 0).roots := Boot.booted_spaces r.start
    refine ⟨?_, Or.inl rfl⟩
    rintro ⟨o, root', own', table⟩
    exact spaces.guarded own leaf user rfl own' table
  · have before := r.spaces guardsWrites_writable (fun i below => tame i (by omega)) (Nat.le_of_lt bound)
    obtain ⟨⟨-, spawns⟩, root', builds, roots⟩ := born_builds bound free live
    rw [roots, Function.update_self] at own
    cases own
    obtain ⟨unused, -, plain⟩ := builds.user va pte leaf user
    refine ⟨?_, Or.inr ⟨m, rfl, unused, fun p alloc => absurd (alloc.number.symm.trans spawns) (by decide)⟩⟩
    rintro ⟨o, root', own', table⟩
    rw [roots] at own'
    by_cases new : o = q
    · subst new
      rw [Function.update_self] at own'
      cases own'
      exact plain table
    · rw [Function.update_of_ne new] at own'
      have tables := Spaces.sameTables_of_mem (before.built_tables builds)
      exact unused ((before.space own').used _ ((tables.tables own').mp table))

omit guards in
/-- Loaded pages are kernel pages, and stay free of tables. -/
theorem Loaded.kernelPage (loaded : Loaded r n q x) (bound : n ≤ r.len)
    (tame : ∀ m, m < n → r.label m = .trap .ecall → Tame Pte.writable (r.state m)) :
    KernelPage r n x ∧ ¬ Tabled (r.state n).vm (r.state n).roots x := by
  obtain ⟨b, root, va, pte, first, born, -, own, leaf, user, rfl, -, used⟩ := loaded
  obtain ⟨plain, origin⟩ := birth_fresh (Nat.le_trans first bound) born own leaf user fun m below => tame m (by omega)
  refine ⟨?_, ?_⟩
  · rcases origin with rfl | ⟨m, rfl, unused, other⟩
    · exact Or.inl fun i below => used i (Nat.zero_le i) below
    · exact Or.inr ⟨m, ⟨first, unused, fun i lower upper => used i lower upper⟩, other⟩
  · induction n with
    | zero =>
      obtain rfl : b = 0 := by omega
      exact plain
    | succ n ih =>
      rcases Nat.lt_or_ge n b with last | inner
      · obtain rfl : b = n + 1 := by omega
        exact plain
      · intro table
        rcases (r.frame guardsWrites_writable (fun m below => tame m (by omega)) bound).tabled _ table with before | unused
        · exact ih (by omega) (fun m below => tame m (by omega)) inner
            (fun i lower upper => used i lower (by omega)) before
        · exact unused.1 (used n inner (by omega))

end Kernel
end Law

section Reference
open Reference
attribute [local instance] Reference.platform

/-- PID 1 owns the page it allocated when it makes its next call. -/
theorem owns_granted {n : Nat} {v : Vm} {e : Exchange} (granted : Granted n v) (handled : e.Handled v) :
    Owns (exchangeRun [⟨allocCall, v, pageArg n⟩, e] ⟨granted.handled, handled, trivial⟩) 3 1 n := by
  have held : Used v.alloc n := (granted.grants.used n).mpr (Or.inl rfl)
  refine ⟨1, ⟨by decide, granted.grants.fresh, fun i lower upper => ?_⟩,
    ⟨by change 1 < 4; decide, rfl, calling_number _ (by decide) 1 0, rfl⟩, pageArg_toNat granted.grants.managed held,
    fun i lower upper => ?_⟩
  · rcases (by omega : i = 2 ∨ i = 3) with rfl | rfl <;> exact held
  · rcases (by omega : i = 1 ∨ i = 2 ∨ i = 3) with rfl | rfl | rfl <;> nofun

end Reference

end GooseOs
