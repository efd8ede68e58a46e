import GooseOs.Memory.Loading

/-!
All address spaces at once: the kernel's and one for every live process. Their tables are pairwise
disjoint allocated pages, user leaves into the heap lead to allocated pages, and guarded ones (the
writable ones, or all) never to a table. Every system call goes through one of the update lemmas.
-/

namespace GooseOs
open Kvm
variable [Platform]

def Pte.writable (p : Pte) : Bool := p.flags.contains .write

/-- Page `n` belongs to the allocator's region. -/
def InHeap (n : Nat) : Prop := Platform.heapStart ≤ n * pageSize ∧ n * pageSize < Platform.heapEnd

/-- The spaces with the given roots, one per owner. -/
structure Spaces (guard : Pte → Bool) (v : Vm) (roots : Nat → Option Nat) : Prop where
  managed : Managed v.alloc
  space : ∀ {o root}, roots o = some root → Space v root
  apart : ∀ {o o' root root' n}, roots o = some root → roots o' = some root' → IsTable v root n →
    IsTable v root' n → o = o'
  backed : ∀ {o root va pte}, roots o = some root → leafAt v.mem root va = some pte → pte.user = true →
    InHeap pte.page → Used v.alloc pte.page
  guarded : ∀ {o root va pte}, roots o = some root → leafAt v.mem root va = some pte → pte.user = true →
    guard pte = true → ∀ {o' root'}, roots o' = some root' → ¬ IsTable v root' pte.page

/-- Page `n` holds a table of one of the spaces. -/
def Tabled (v : Vm) (roots : Nat → Option Nat) (n : Nat) : Prop := ∃ o root, roots o = some root ∧ IsTable v root n

/-- Page `n` lies under a user leaf of one of the spaces. -/
def Mapped (v : Vm) (roots : Nat → Option Nat) (n : Nat) : Prop :=
  ∃ o root va pte, roots o = some root ∧ leafAt v.mem root va = some pte ∧ pte.user = true ∧ pte.page = n

/-- The same tables with the same contents. -/
structure SameTables (v v' : Vm) (roots : Nat → Option Nat) : Prop where
  tables : ∀ {o root n}, roots o = some root → (IsTable v' root n ↔ IsTable v root n)
  leaves : ∀ {o root} va, roots o = some root → leafAt v'.mem root va = leafAt v.mem root va

theorem used_inHeap {a : BitmapAllocator} {n : Nat} (managed : Managed a) (used : Used a n) : InHeap n := by
  have range := used_range managed used
  exact ⟨range.1, range.2.1⟩

namespace Spaces
variable {guard : Pte → Bool} {v v' : Vm} {roots roots' : Nat → Option Nat} {o root : Nat}

/-- A weaker guard. -/
theorem mono {guard' : Pte → Bool} (weaker : ∀ pte, guard' pte = true → guard pte = true)
    (spaces : Spaces guard v roots) : Spaces guard' v roots where
  managed := spaces.managed
  space := spaces.space
  apart := spaces.apart
  backed := spaces.backed
  guarded own leaf user write := spaces.guarded own leaf user (weaker _ write)

/-- Forgetting spaces. -/
theorem drop (spaces : Spaces guard v roots) (fewer : ∀ o root, roots' o = some root → roots o = some root) :
    Spaces guard v roots' where
  managed := spaces.managed
  space own := spaces.space (fewer _ _ own)
  apart own own' := spaces.apart (fewer _ _ own) (fewer _ _ own')
  backed own := spaces.backed (fewer _ _ own)
  guarded own leaf user write _ _ own' := spaces.guarded (fewer _ _ own) leaf user write (fewer _ _ own')

omit [Platform] in
theorem sameTables_of_mem (same : ∀ x, Tabled v roots (x / pageSize) → v'.mem x = v.mem x) :
    SameTables v v' roots where
  tables own := isTable_congr fun x table => same x ⟨_, _, own, table⟩
  leaves va own := leafAt_congr (fun x table => same x ⟨_, _, own, table⟩) va

/-- The frame rule: tables keep their bytes, tables and mapped pages stay allocated. -/
theorem frame (spaces : Spaces guard v roots) (managed : Managed v'.alloc)
    (keeps : ∀ n, Used v.alloc n → Tabled v roots n ∨ Mapped v roots n → Used v'.alloc n)
    (same : ∀ x, Tabled v roots (x / pageSize) → v'.mem x = v.mem x) : Spaces guard v' roots := by
  have tables := sameTables_of_mem same
  refine ⟨managed, fun own => ?_, fun own own' table table' => ?_, fun own leaf user heap => ?_,
    fun own leaf user write _ _ own' table => ?_⟩
  · exact (spaces.space own).congr (fun x table => same x ⟨_, _, own, table⟩)
      fun n table => keeps n ((spaces.space own).used n table) (Or.inl ⟨_, _, own, table⟩)
  · exact spaces.apart own own' ((tables.tables own).mp table) ((tables.tables own').mp table')
  · rw [tables.leaves _ own] at leaf
    exact keeps _ (spaces.backed own leaf user heap) (Or.inr ⟨_, _, _, _, own, leaf, user, rfl⟩)
  · rw [tables.leaves _ own] at leaf
    exact spaces.guarded own leaf user write own' ((tables.tables own').mp table)

section Extend
variable (spaces : Spaces guard v roots) (own : roots o = some root) (grown : Extends v v' root)
include spaces own grown

/-- Building in one space leaves the tables of the others alone. -/
theorem other_tables {o' root' : Nat} (own' : roots o' = some root') (other : o' ≠ o) (x : Nat)
    (table : IsTable v root' (x / pageSize)) : v'.mem x = v.mem x := by
  refine grown.frame x fun mine => ?_
  rcases grown.fresh _ mine with before | unused
  · exact other (spaces.apart own' own table before)
  · exact unused ((spaces.space own').used _ table)

/-- A table of some space after building: it was one before, or its page was free. -/
theorem tables_extend {o' root' n : Nat} (own' : roots o' = some root') (table : IsTable v' root' n) :
    IsTable v root' n ∨ ¬ Used v.alloc n := by
  by_cases same : o' = o
  · subst same
    obtain rfl : root = root' := Option.some.inj (own.symm.trans own')
    exact grown.fresh n table
  · exact Or.inl ((isTable_congr (spaces.other_tables own grown own' same)).mp table)

/-- Mapping and unmapping in one space. -/
theorem extend (space : Space v' root)
    (leaves : ∀ va pte, leafAt v'.mem root va = some pte → pte.user = true →
      leafAt v.mem root va = some pte ∨
        (Used v.alloc pte.page ∧ (guard pte = true → ¬ Tabled v roots pte.page)) ∨ ¬ InHeap pte.page) :
    Spaces guard v' roots := by
  have others : ∀ {o' root'}, roots o' = some root' → o' ≠ o → ∀ va, leafAt v'.mem root' va = leafAt v.mem root' va :=
    fun own' other => leafAt_congr (spaces.other_tables own grown own' other)
  -- A user leaf after the step, and what its page was before.
  have target : ∀ {o' root' va pte}, roots o' = some root' → leafAt v'.mem root' va = some pte → pte.user = true →
      (InHeap pte.page → Used v.alloc pte.page) ∧
        (guard pte = true → InHeap pte.page → ¬ Tabled v roots pte.page) := by
    intro o' root' va pte own' leaf user
    have old : ∀ {o' root'}, roots o' = some root' → leafAt v.mem root' va = some pte →
        (InHeap pte.page → Used v.alloc pte.page) ∧
          (guard pte = true → InHeap pte.page → ¬ Tabled v roots pte.page) := by
      intro o' root' own' leaf
      refine ⟨spaces.backed own' leaf user, fun write _ => ?_⟩
      rintro ⟨o'', root'', own'', table⟩
      exact spaces.guarded own' leaf user write own'' table
    by_cases same : o' = o
    · subst same
      obtain rfl : root = root' := Option.some.inj (own.symm.trans own')
      rcases leaves va pte leaf user with before | ⟨used, plain⟩ | outside
      · exact old own before
      · exact ⟨fun _ => used, fun write _ => plain write⟩
      · exact ⟨fun heap => absurd heap outside, fun _ heap => absurd heap outside⟩
    · rw [others own' same] at leaf
      exact old own' leaf
  refine ⟨grown.managed, fun {o' root'} own' => ?_, fun {o₁ o₂ r₁ r₂ n} own₁ own₂ table₁ table₂ => ?_,
    fun own' leaf user heap => grown.keeps _ ((target own' leaf user).1 heap),
    fun {o₁ r₁ va pte} own₁ leaf user write {o₂ r₂} own₂ table => ?_⟩
  · by_cases same : o' = o
    · subst same
      obtain rfl : root = root' := Option.some.inj (own.symm.trans own')
      exact space
    · exact (spaces.space own').congr (spaces.other_tables own grown own' same)
        fun n table => grown.keeps n ((spaces.space own').used n table)
  · rcases spaces.tables_extend own grown own₁ table₁ with before₁ | unused <;>
      rcases spaces.tables_extend own grown own₂ table₂ with before₂ | unused'
    · exact spaces.apart own₁ own₂ before₁ before₂
    · exact absurd ((spaces.space own₁).used n before₁) unused'
    · exact absurd ((spaces.space own₂).used n before₂) unused
    · -- A page that was free holds a table of the extended space only.
      have mine : ∀ {o' r'}, roots o' = some r' → IsTable v' r' n → o' = o := by
        intro o' r' own' table
        by_contra other
        have before := (isTable_congr (spaces.other_tables own grown own' other)).mp table
        exact unused ((spaces.space own').used n before)
      rw [mine own₁ table₁, mine own₂ table₂]
  · obtain ⟨used, plain⟩ := target own₁ leaf user
    have space₂ : Used v'.alloc pte.page := by
      by_cases same : o₂ = o
      · subst same
        obtain rfl : root = r₂ := Option.some.inj (own.symm.trans own₂)
        exact space.used _ table
      · have before := (isTable_congr (spaces.other_tables own grown own₂ same)).mp table
        exact grown.keeps _ ((spaces.space own₂).used _ before)
    have heap := used_inHeap grown.managed space₂
    rcases spaces.tables_extend own grown own₂ table with before | unused
    · exact plain write heap ⟨_, _, own₂, before⟩
    · exact unused (used heap)

end Extend

/-- Building a new space leaves the tables of the others alone. -/
theorem built_tables (spaces : Spaces guard v roots) (builds : Builds v v' root) (x : Nat)
    (table : Tabled v roots (x / pageSize)) : v'.mem x = v.mem x := by
  obtain ⟨o', root', own', table⟩ := table
  by_contra differ
  exact (builds.frame x differ).1 ((spaces.space own').used _ table)

/-- A newly built space joins. -/
theorem add (spaces : Spaces guard v roots) (absent : roots o = none) (builds : Builds v v' root) :
    Spaces guard v' (Function.update roots o (some root)) := by
  have same := spaces.built_tables builds
  have before := spaces.frame builds.managed (fun n used _ => builds.keeps n used) same
  have tables := sameTables_of_mem same
  have cases_on : ∀ {o' root'}, Function.update roots o (some root) o' = some root' →
      (o' = o ∧ root' = root) ∨ (o' ≠ o ∧ roots o' = some root') := by
    intro o' root' own'
    by_cases new : o' = o
    · subst new
      rw [Function.update_self] at own'
      exact Or.inl ⟨rfl, (Option.some.inj own').symm⟩
    · rw [Function.update_of_ne new] at own'
      exact Or.inr ⟨new, own'⟩
  -- The new tables are on pages no older space uses.
  have fresh : ∀ {o' root' n}, roots o' = some root' → IsTable v' root' n → ¬ IsTable v' root n := by
    intro o' root' n own' old new
    exact builds.fresh n new ((spaces.space own').used n ((tables.tables own').mp old))
  refine ⟨builds.managed, fun own' => ?_, fun own₁ own₂ table₁ table₂ => ?_, fun own' leaf user heap => ?_,
    fun own₁ leaf user write _ _ own₂ table => ?_⟩
  · rcases cases_on own' with ⟨-, rfl⟩ | ⟨-, old⟩
    · exact builds.space
    · exact before.space old
  · rcases cases_on own₁ with ⟨rfl, rfl⟩ | ⟨-, old₁⟩ <;> rcases cases_on own₂ with ⟨rfl, rfl⟩ | ⟨-, old₂⟩
    · rfl
    · exact absurd table₁ (fresh old₂ table₂)
    · exact absurd table₂ (fresh old₁ table₁)
    · exact before.apart old₁ old₂ table₁ table₂
  · rcases cases_on own' with ⟨-, rfl⟩ | ⟨-, old⟩
    · exact (builds.user _ _ leaf user).2.1
    · exact before.backed old leaf user heap
  · rcases cases_on own₁ with ⟨-, rfl⟩ | ⟨-, old₁⟩ <;> rcases cases_on own₂ with ⟨-, rfl⟩ | ⟨-, old₂⟩
    · exact (builds.user _ _ leaf user).2.2 table
    · obtain ⟨unused, -, -⟩ := builds.user _ _ leaf user
      exact unused ((spaces.space old₂).used _ ((tables.tables old₂).mp table))
    · have leaf' := leaf
      rw [tables.leaves _ old₁] at leaf'
      exact builds.fresh _ table (spaces.backed old₁ leaf' user (used_inHeap builds.managed (builds.space.used _ table)))
    · exact before.guarded old₁ leaf user write old₂ table

/-- A newly built space takes the place of the one its owner had. -/
theorem replace (spaces : Spaces guard v roots) (builds : Builds v v' root) :
    Spaces guard v' (Function.update roots o (some root)) := by
  have others : Spaces guard v (Function.update roots o none) := spaces.drop fun o' root' own' => by
    by_cases same : o' = o
    · rw [same, Function.update_self] at own'
      cases own'
    · rwa [Function.update_of_ne same] at own'
  have joined := others.add (Function.update_self ..) builds
  rwa [Function.update_idem] at joined

end Spaces
end GooseOs
