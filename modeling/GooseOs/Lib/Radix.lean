import Mathlib.Logic.Function.Basic
import Mathlib.Data.List.Induction

/-!
Radix trees kept in a store. A table is named by an address and maps an index to an entry: empty,
a branch to another table, or a leaf. The tree below a root is a finite map from paths to leaves,
and the two updates a page-table builder makes are grafting an empty table and setting a leaf.
-/

namespace GooseOs

/-- One entry of a table. -/
inductive Entry (T L : Type*) where
  | empty
  | branch (table : T)
  | leaf (value : L)

namespace Entry

def leaf? {T L : Type*} : Entry T L → Option L
  | .leaf l => some l
  | _ => none

def branch? {T L : Type*} : Entry T L → Option T
  | .branch t => some t
  | _ => none

end Entry

namespace Radix
variable {T I L : Type*} {s s' : T → I → Entry T L} {root t u : T} {p q : List I} {i j : I} {depth : Nat}

/-- The table reached from `t` along a path. -/
def follow (s : T → I → Entry T L) (t : T) : List I → Option T
  | [] => some t
  | i :: rest => (s t i).branch?.bind fun u => follow s u rest

/-- The leaf at index `i` of the table that `p` leads to. -/
def lookup (s : T → I → Entry T L) (root : T) (p : List I) (i : I) : Option L :=
  (follow s root p).bind fun t => (s t i).leaf?

/-- A table of the tree below `root`. -/
def Table (s : T → I → Entry T L) (root t : T) : Prop := ∃ p, follow s root p = some t

/-- A tree of fixed depth: leaves at the bottom only, and no table reached along two paths. -/
structure Tree (s : T → I → Entry T L) (root : T) (depth : Nat) : Prop where
  inner : ∀ p t i l, follow s root p = some t → p.length < depth → s t i ≠ .leaf l
  last : ∀ p t i u, follow s root p = some t → p.length = depth → s t i ≠ .branch u
  unshared : ∀ p q t, follow s root p = some t → follow s root q = some t → p = q

theorem follow_append (p q : List I) : follow s t (p ++ q) = (follow s t p).bind fun u => follow s u q := by
  induction p generalizing t with
  | nil => rfl
  | cons i p ih =>
    rw [List.cons_append, follow, follow]
    cases (s t i).branch? with
    | none => rfl
    | some u => exact ih

theorem follow_snoc (p : List I) (i : I) :
    follow s t (p ++ [i]) = (follow s t p).bind fun u => (s u i).branch? := by
  rw [follow_append]
  congr 1
  funext u
  rw [follow]
  cases (s u i).branch? <;> rfl

theorem table_root : Table s root root := ⟨[], rfl⟩

theorem Tree.length_le (tree : Tree s root depth) (path : follow s root p = some t) : p.length ≤ depth := by
  induction p using List.reverseRecOn generalizing t with
  | nil => exact Nat.zero_le _
  | append_singleton p i ih =>
    rw [follow_snoc, Option.bind_eq_some_iff] at path
    obtain ⟨u, before, step⟩ := path
    have bound := ih before
    rw [List.length_append, List.length_singleton]
    rcases Nat.lt_or_ge p.length depth with inner | last
    · exact inner
    · cases entry : s u i with
      | branch v => exact absurd entry (tree.last p u i v before (by omega))
      | empty => rw [entry] at step; cases step
      | leaf l => rw [entry] at step; cases step

theorem Tree.of_empty (empty : ∀ i, s root i = .empty) : Tree s root depth := by
  have only : ∀ p t, follow s root p = some t → p = [] ∧ t = root := by
    rintro (_ | ⟨i, p⟩) t path
    · cases path
      exact ⟨rfl, rfl⟩
    · rw [follow, empty] at path
      cases path
  refine ⟨fun p t i l path _ => ?_, fun p t i u path _ => ?_, fun p q t first second => ?_⟩
  · obtain ⟨-, rfl⟩ := only p t path
    rw [empty]
    nofun
  · obtain ⟨-, rfl⟩ := only p t path
    rw [empty]
    nofun
  · rw [(only p t first).1, (only q t second).1]

theorem table_of_empty (empty : ∀ i, s root i = .empty) : Table s root t ↔ t = root := by
  constructor
  · rintro ⟨_ | ⟨i, p⟩, path⟩
    · cases path
      rfl
    · rw [follow, empty] at path
      cases path
  · rintro rfl
    exact table_root

theorem lookup_of_empty (empty : ∀ i, s root i = .empty) : lookup s root p j = none := by
  rcases p with _ | ⟨i, p⟩
  · rw [lookup, follow, Option.bind_some, empty]
    rfl
  · rw [lookup, follow, empty]
    rfl

/-! ### The frame rule: a tree depends on its own tables only -/

section Frame
variable (same : ∀ t, Table s root t → s' t = s t)
include same

theorem follow_congr (p : List I) : follow s' root p = follow s root p := by
  induction p using List.reverseRecOn with
  | nil => rfl
  | append_singleton p i ih =>
    rw [follow_snoc, follow_snoc, ih]
    cases path : follow s root p with
    | none => rfl
    | some u => rw [Option.bind_some, Option.bind_some, same u ⟨p, path⟩]

theorem lookup_congr (p : List I) (j : I) : lookup s' root p j = lookup s root p j := by
  rw [lookup, lookup, follow_congr same]
  cases path : follow s root p with
  | none => rfl
  | some u => rw [Option.bind_some, Option.bind_some, same u ⟨p, path⟩]

theorem table_congr : Table s' root t ↔ Table s root t := by
  rw [Table, Table]
  simp only [follow_congr same]

theorem Tree.congr (tree : Tree s root depth) : Tree s' root depth := by
  refine ⟨fun p t i l path below => ?_, fun p t i u path bottom => ?_, fun p q t first second => ?_⟩
  · rw [follow_congr same] at path
    rw [same t ⟨p, path⟩]
    exact tree.inner p t i l path below
  · rw [follow_congr same] at path
    rw [same t ⟨p, path⟩]
    exact tree.last p t i u path bottom
  · rw [follow_congr same] at first second
    exact tree.unshared p q t first second

end Frame

variable [DecidableEq T] [DecidableEq I]

/-- Store `e` at index `i` of table `t`. -/
def set (s : T → I → Entry T L) (t : T) (i : I) (e : Entry T L) : T → I → Entry T L :=
  Function.update s t (Function.update (s t) i e)

theorem set_self {e : Entry T L} : set s t i e t i = e := by simp [set]

theorem set_of_index_ne {e : Entry T L} (different : j ≠ i) : set s t i e t j = s t j := by
  simp [set, different]

theorem set_of_table_ne {e : Entry T L} (different : u ≠ t) : set s t i e u = s u := by
  simp [set, different]

/-! ### Setting a leaf -/

section SetLeaf
variable {e : Entry T L} (tree : Tree s root depth) (path : follow s root p = some t) (bottom : p.length = depth)
  (flat : e.branch? = none)
include tree path bottom flat

theorem follow_set_leaf (q : List I) : follow (set s t i e) root q = follow s root q := by
  induction q using List.reverseRecOn with
  | nil => rfl
  | append_singleton q j ih =>
    rw [follow_snoc, follow_snoc, ih]
    cases reached : follow s root q with
    | none => rfl
    | some u =>
      rw [Option.bind_some, Option.bind_some]
      by_cases same : u = t
      · subst same
        have none : (s u j).branch? = none := by
          cases entry : s u j with
          | branch v => exact absurd entry (tree.last p u j v path bottom)
          | empty => rfl
          | leaf l => rfl
        by_cases here : j = i
        · rw [here, set_self, flat, ← here, none]
        · rw [set_of_index_ne here]
      · rw [set_of_table_ne same]

theorem lookup_set_leaf (q : List I) (j : I) :
    lookup (set s t i e) root q j = if q = p ∧ j = i then e.leaf? else lookup s root q j := by
  rw [lookup, lookup, follow_set_leaf tree path bottom flat]
  by_cases own : q = p
  · subst own
    rw [path, Option.bind_some, Option.bind_some]
    by_cases here : j = i
    · rw [here, set_self, if_pos ⟨rfl, rfl⟩]
    · rw [set_of_index_ne here, if_neg (fun both => here both.2)]
  · rw [if_neg (fun both => own both.1)]
    cases reached : follow s root q with
    | none => rfl
    | some u =>
      have different : u ≠ t := fun same => own (tree.unshared q p t (same ▸ reached) path)
      rw [Option.bind_some, Option.bind_some, set_of_table_ne different]

theorem Tree.set_leaf : Tree (set s t i e) root depth := by
  refine ⟨fun q u j l reached below => ?_, fun q u j v reached atBottom => ?_, fun q q' u first second => ?_⟩
  · rw [follow_set_leaf tree path bottom flat] at reached
    have different : u ≠ t := by
      rintro rfl
      have := tree.unshared q p u reached path
      subst this
      omega
    rw [set_of_table_ne different]
    exact tree.inner q u j l reached below
  · rw [follow_set_leaf tree path bottom flat] at reached
    by_cases same : u = t
    · subst same
      by_cases here : j = i
      · rw [here, set_self]
        rintro rfl
        cases flat
      · rw [set_of_index_ne here]
        exact tree.last q u j v reached atBottom
    · rw [set_of_table_ne same]
      exact tree.last q u j v reached atBottom
  · rw [follow_set_leaf tree path bottom flat] at first second
    exact tree.unshared q q' u first second

end SetLeaf

/-! ### Grafting an empty table -/

section Graft
variable (tree : Tree s root depth) (path : follow s root p = some t) (above : p.length < depth)
  (vacant : s t i = .empty) (fresh : ¬ Table s root u) (empty : ∀ j, s u j = .empty)
include tree path vacant fresh empty

theorem follow_graft (q : List I) :
    follow (set s t i (.branch u)) root q = if q = p ++ [i] then some u else follow s root q := by
  have apart : u ≠ t := fun same => fresh (same ▸ ⟨p, path⟩)
  induction q using List.reverseRecOn with
  | nil => rw [if_neg (by simp)]; rfl
  | append_singleton q j ih =>
    rw [follow_snoc, follow_snoc, ih]
    by_cases grafted : q = p ++ [i]
    · have longer : q ++ [j] ≠ p ++ [i] := by
        intro same
        have := congrArg List.length same
        simp [grafted] at this
      rw [if_pos grafted, if_neg longer, Option.bind_some, set_of_table_ne apart, empty, grafted, follow_snoc,
        path, Option.bind_some, vacant]
      rfl
    · rw [if_neg grafted]
      cases reached : follow s root q with
      | none =>
        have different : q ++ [j] ≠ p ++ [i] := by
          intro same
          rw [(List.append_inj' same rfl).1, path] at reached
          cases reached
        rw [if_neg different]
        rfl
      | some v =>
        rw [Option.bind_some, Option.bind_some]
        by_cases same : v = t
        · subst same
          obtain rfl := tree.unshared q p v reached path
          by_cases here : j = i
          · rw [here, set_self, if_pos rfl]
            rfl
          · have different : q ++ [j] ≠ q ++ [i] := fun equal => here (by simpa using equal)
            rw [set_of_index_ne here, if_neg different]
        · have different : q ++ [j] ≠ p ++ [i] := by
            intro equal
            rw [(List.append_inj' equal rfl).1, path] at reached
            exact same (Option.some.inj reached).symm
          rw [set_of_table_ne same, if_neg different]

theorem table_graft {v : T} : Table (set s t i (.branch u)) root v ↔ v = u ∨ Table s root v := by
  constructor
  · rintro ⟨q, reached⟩
    rw [follow_graft tree path vacant fresh empty] at reached
    split at reached
    · exact Or.inl (Option.some.inj reached).symm
    · exact Or.inr ⟨q, reached⟩
  · rintro (rfl | ⟨q, reached⟩)
    · exact ⟨p ++ [i], by rw [follow_graft tree path vacant fresh empty, if_pos rfl]⟩
    · refine ⟨q, ?_⟩
      rw [follow_graft tree path vacant fresh empty, if_neg, reached]
      rintro rfl
      rw [follow_snoc, path, Option.bind_some, vacant] at reached
      cases reached

theorem lookup_graft (q : List I) (j : I) : lookup (set s t i (.branch u)) root q j = lookup s root q j := by
  have apart : u ≠ t := fun same => fresh (same ▸ ⟨p, path⟩)
  rw [lookup, lookup, follow_graft tree path vacant fresh empty]
  split
  · rename_i grafted
    rw [grafted, follow_snoc, path, Option.bind_some, Option.bind_some, vacant, set_of_table_ne apart, empty]
    rfl
  · cases reached : follow s root q with
    | none => rfl
    | some v =>
      rw [Option.bind_some, Option.bind_some]
      by_cases same : v = t
      · subst same
        by_cases here : j = i
        · rw [here, set_self, vacant]
          rfl
        · rw [set_of_index_ne here]
      · rw [set_of_table_ne same]

include above in
theorem Tree.graft : Tree (set s t i (.branch u)) root depth := by
  have apart : u ≠ t := fun same => fresh (same ▸ ⟨p, path⟩)
  have reach := follow_graft tree path vacant fresh empty
  refine ⟨fun q v j l reached below => ?_, fun q v j w reached bottom => ?_, fun q q' v first second => ?_⟩
  · rw [reach] at reached
    split at reached
    · obtain rfl := Option.some.inj reached
      rw [set_of_table_ne apart, empty]
      nofun
    · by_cases same : v = t
      · subst same
        by_cases here : j = i
        · rw [here, set_self]
          nofun
        · rw [set_of_index_ne here]
          exact tree.inner q v j l reached below
      · rw [set_of_table_ne same]
        exact tree.inner q v j l reached below
  · rw [reach] at reached
    split at reached
    · obtain rfl := Option.some.inj reached
      rw [set_of_table_ne apart, empty]
      nofun
    · have different : v ≠ t := by
        rintro rfl
        obtain rfl := tree.unshared q p v reached path
        omega
      rw [set_of_table_ne different]
      exact tree.last q v j w reached bottom
  · rw [reach] at first second
    split at first <;> split at second
    · rename_i left right
      rw [left, right]
    · obtain rfl := Option.some.inj first
      exact absurd ⟨q', second⟩ fresh
    · obtain rfl := Option.some.inj second
      exact absurd ⟨q, first⟩ fresh
    · exact tree.unshared q q' v first second

end Graft

end Radix
end GooseOs
