import GooseOs.Kernel.State

/-!
Interrupt ownership on its own: who owns which interrupt, which of them a process answers for, and
what the PLIC has handed out. Every trap of the kernel is one event on this table.
-/

namespace GooseOs
open Security

/-- What the interrupt handlers read of a process slot. -/
structure IrqSlot where
  live : Bool
  num : Nat
  pending : Bool
  deriving DecidableEq

structure IrqTable where
  owner : Nat → Nat
  slot : Nat → IrqSlot
  plic : Plic

inductive IrqEvent where
  | none
  | register (pid irq : Nat)
  | ack (pid : Nat)
  /-- The pending flag is collected. -/
  | take (pid : Nat)
  | ended (pid : Nat)
  | spawned (pid : Nat)
  /-- `waiting` says that the owner is blocked in SYS_RECEIVE. -/
  | raised (irq : Nat) (waiting : Bool)

namespace IrqTable

/-- A registration of `irq` is accepted. -/
def Accepts (s : IrqTable) (irq : Nat) : Prop := isValidIrq irq = true ∧ s.owner irq = 0

instance (s : IrqTable) (irq : Nat) : Decidable (s.Accepts irq) := inferInstanceAs (Decidable (_ ∧ _))

/-- Whom an interrupt is handed to, 0 for the kernel. -/
def handler (s : IrqTable) (irq : Nat) : Nat := if isValidIrq irq then s.owner irq else 0

def apply (s : IrqTable) : IrqEvent → IrqTable
  | .none => s
  | .register pid irq =>
    if s.Accepts irq then
      { owner := Function.update s.owner irq pid
        slot := Function.update s.slot pid { s.slot pid with num := irq }
        plic := s.plic.enableIrq irq }
    else s
  | .ack pid => if (s.slot pid).num = 0 then s else { s with plic := s.plic.complete (s.slot pid).num }
  | .take pid => { s with slot := Function.update s.slot pid { s.slot pid with pending := false } }
  | .ended pid =>
    let irq := (s.slot pid).num
    { s with
      owner := if irq ≠ 0 ∧ isValidIrq irq then Function.update s.owner irq 0 else s.owner
      slot := Function.update s.slot pid { s.slot pid with live := false, num := 0 } }
  | .spawned pid => { s with slot := Function.update s.slot pid ⟨true, 0, false⟩ }
  | .raised irq waiting =>
    if irq = 0 then s
    else
      let s := { s with plic := s.plic.claim irq }
      if s.handler irq ≠ 0 then
        if waiting then s
        else
          { s with
            slot := Function.update s.slot (s.handler irq) { s.slot (s.handler irq) with pending := true } }
      else { s with plic := s.plic.complete irq }

/-- What the kernel and the PLIC make sure of before an event. -/
def Possible (s : IrqTable) : IrqEvent → Prop
  | .none => True
  | .register pid _ | .ack pid | .take pid | .ended pid => (s.slot pid).live = true
  | .spawned pid => (s.slot pid).live = false ∧ pid ≠ 0
  | .raised irq _ => irq = 0 ∨ s.plic.enabled irq = true

/-- What holds in every table, however processes register. -/
structure Sound (s : IrqTable) : Prop where
  used : ∀ pid, (s.slot pid).live = true → pid ≠ 0
  valid : ∀ irq, s.owner irq ≠ 0 → isValidIrq irq = true
  enabled : ∀ irq, s.owner irq ≠ 0 → s.plic.enabled irq = true
  owns : ∀ pid, (s.slot pid).live = true → (s.slot pid).num ≠ 0 → s.owner (s.slot pid).num = pid

variable {s : IrqTable} {e : IrqEvent} {pid irq : Nat}

theorem complete_enabled (p : Plic) (irq : Nat) : (p.complete irq).enabled = p.enabled := by
  unfold Plic.complete
  split <;> rfl

theorem enableIrq_enabled {p : Plic} {q : Nat} (before : p.enabled q = true) : (p.enableIrq irq).enabled q = true := by
  show Function.update p.enabled irq true q = true
  by_cases same : q = irq
  · rw [same, Function.update_self]
  · rwa [Function.update_of_ne same]

theorem apply_enabled {q : Nat} (before : s.plic.enabled q = true) : (s.apply e).plic.enabled q = true := by
  cases e with
  | none | take pid | ended pid | spawned pid => exact before
  | register pid irq =>
    simp only [apply]
    split
    · exact enableIrq_enabled before
    · exact before
  | ack pid =>
    simp only [apply]
    split
    · exact before
    · rwa [complete_enabled]
  | raised irq waiting =>
    simp only [apply]
    split
    · exact before
    · split
      · split <;> exact before
      · show (Plic.complete _ irq).enabled q = true
        rwa [complete_enabled]

/-- The same owners, and in every slot the same interrupt. -/
structure Same (s t : IrqTable) : Prop where
  owner : t.owner = s.owner
  live : ∀ pid, (t.slot pid).live = (s.slot pid).live
  num : ∀ pid, (t.slot pid).num = (s.slot pid).num

theorem same_pending {slots : Nat → IrqSlot} {plic : Plic} {flag : Bool}
    (slot : slots = Function.update s.slot pid { s.slot pid with pending := flag }) :
    s.Same { s with slot := slots, plic } := by
  subst slot
  refine ⟨rfl, fun q => ?_, fun q => ?_⟩
  · by_cases own : q = pid
    · subst own
      simp
    · simp [Function.update_of_ne own]
  · by_cases own : q = pid
    · subst own
      simp
    · simp [Function.update_of_ne own]

/-- Only a registration, an end and a start change who owns what. -/
theorem apply_same (register : ∀ pid irq, e ≠ .register pid irq) (ended : ∀ pid, e ≠ .ended pid)
    (spawned : ∀ pid, e ≠ .spawned pid) : s.Same (s.apply e) := by
  cases e with
  | none => exact ⟨rfl, fun _ => rfl, fun _ => rfl⟩
  | register pid irq => exact absurd rfl (register pid irq)
  | ended pid => exact absurd rfl (ended pid)
  | spawned pid => exact absurd rfl (spawned pid)
  | take pid => exact same_pending rfl
  | ack pid =>
    simp only [apply]
    split <;> exact ⟨rfl, fun _ => rfl, fun _ => rfl⟩
  | raised irq waiting =>
    simp only [apply]
    split
    · exact ⟨rfl, fun _ => rfl, fun _ => rfl⟩
    · split
      · split
        · exact ⟨rfl, fun _ => rfl, fun _ => rfl⟩
        · exact same_pending rfl
      · exact ⟨rfl, fun _ => rfl, fun _ => rfl⟩

theorem Sound.of_same {t : IrqTable} (sound : s.Sound) (same : s.Same t)
    (enabled : ∀ irq, s.plic.enabled irq = true → t.plic.enabled irq = true) : t.Sound where
  used pid live := sound.used pid (same.live pid ▸ live)
  valid irq owned := sound.valid irq (same.owner ▸ owned)
  enabled irq owned := enabled irq (sound.enabled irq (same.owner ▸ owned))
  owns pid live some := by
    rw [same.num] at some ⊢
    rw [same.owner]
    exact sound.owns pid (same.live pid ▸ live) some

/-! ### The events that change ownership -/

section Register
variable (accepted : s.Accepts irq)
include accepted

theorem register_owner (q : Nat) : (s.apply (.register pid irq)).owner q = if q = irq then pid else s.owner q := by
  rw [apply, if_pos accepted]
  exact Function.update_apply ..

theorem register_live (q : Nat) : ((s.apply (.register pid irq)).slot q).live = (s.slot q).live := by
  rw [apply, if_pos accepted]
  simp only [Function.update_apply]
  split
  · next own => rw [own]
  · rfl

theorem register_num (q : Nat) :
    ((s.apply (.register pid irq)).slot q).num = if q = pid then irq else (s.slot q).num := by
  rw [apply, if_pos accepted]
  simp only [Function.update_apply]
  split <;> rfl

theorem register_enabled : (s.apply (.register pid irq)).plic.enabled irq = true := by
  rw [apply, if_pos accepted]
  exact Function.update_self ..

end Register

theorem ended_owner (q : Nat) :
    (s.apply (.ended pid)).owner q =
      if q = (s.slot pid).num ∧ q ≠ 0 ∧ isValidIrq q = true then 0 else s.owner q := by
  simp only [apply]
  by_cases own : q = (s.slot pid).num
  · subst own
    split
    · next valid => rw [Function.update_self, if_pos ⟨rfl, valid⟩]
    · next invalid => rw [if_neg fun whole => invalid whole.2]
  · have other : ¬ (q = (s.slot pid).num ∧ q ≠ 0 ∧ isValidIrq q = true) := fun whole => own whole.1
    rw [if_neg other]
    split
    · exact Function.update_of_ne own ..
    · rfl

theorem ended_live (q : Nat) : ((s.apply (.ended pid)).slot q).live = if q = pid then false else (s.slot q).live := by
  simp only [apply, Function.update_apply]
  split <;> rfl

theorem ended_num (q : Nat) : ((s.apply (.ended pid)).slot q).num = if q = pid then 0 else (s.slot q).num := by
  simp only [apply, Function.update_apply]
  split <;> rfl

theorem spawned_live (q : Nat) : ((s.apply (.spawned pid)).slot q).live = if q = pid then true else (s.slot q).live := by
  simp only [apply, Function.update_apply]
  split <;> rfl

theorem spawned_num (q : Nat) : ((s.apply (.spawned pid)).slot q).num = if q = pid then 0 else (s.slot q).num := by
  simp only [apply, Function.update_apply]
  split <;> rfl

section Raised
variable {waiting : Bool} (some : irq ≠ 0)
include some

/-- An owned interrupt stays claimed; its owner is marked unless it is waiting. -/
theorem raised_owned (owned : s.handler irq ≠ 0) :
    s.apply (.raised irq waiting) =
      { s with
        slot := if waiting then s.slot
          else Function.update s.slot (s.handler irq) { s.slot (s.handler irq) with pending := true }
        plic := s.plic.claim irq } := by
  have handled : ({ s with plic := s.plic.claim irq } : IrqTable).handler irq ≠ 0 := owned
  simp only [apply]
  rw [if_neg some, if_pos handled]
  cases waiting <;> rfl

theorem raised_unowned (unowned : s.handler irq = 0) :
    s.apply (.raised irq waiting) = { s with plic := (s.plic.claim irq).complete irq } := by
  have handled : ¬ ({ s with plic := s.plic.claim irq } : IrqTable).handler irq ≠ 0 := not_not.mpr unowned
  simp only [apply]
  rw [if_neg some, if_neg handled]

end Raised

theorem register_refused (refused : ¬ s.Accepts irq) : s.apply (.register pid irq) = s := if_neg refused

theorem Sound.apply (sound : s.Sound) (possible : s.Possible e) : (s.apply e).Sound := by
  cases e with
  | register pid irq =>
    by_cases accepted : s.Accepts irq
    · refine ⟨fun q live => ?_, fun q owned => ?_, fun q owned => ?_, fun q live some => ?_⟩
      · exact sound.used q (register_live accepted q ▸ live)
      · rw [register_owner accepted] at owned
        split at owned
        · next own => exact own ▸ accepted.1
        · exact sound.valid q owned
      · rw [register_owner accepted] at owned
        split at owned
        · next own =>
          rw [own]
          exact register_enabled accepted
        · exact apply_enabled (sound.enabled q owned)
      · rw [register_live accepted] at live
        rw [register_num accepted] at some ⊢
        rw [register_owner accepted]
        by_cases own : q = pid
        · rw [if_pos own, if_pos rfl, own]
        · rw [if_neg own] at some ⊢
          have owner := sound.owns q live some
          have other : (s.slot q).num ≠ irq := by
            intro same
            rw [same, accepted.2] at owner
            exact sound.used q live owner.symm
          rw [if_neg other, owner]
    · rwa [register_refused accepted]
  | ended pid =>
    have fewer : ∀ q, (s.apply (.ended pid)).owner q ≠ 0 → s.owner q ≠ 0 := by
      intro q owned
      rw [ended_owner] at owned
      split at owned
      · exact absurd rfl owned
      · exact owned
    refine ⟨fun q live => ?_, fun q owned => sound.valid q (fewer q owned),
      fun q owned => apply_enabled (sound.enabled q (fewer q owned)), fun q live some => ?_⟩
    · rw [ended_live] at live
      split at live
      · cases live
      · exact sound.used q live
    · rw [ended_live] at live
      rw [ended_num] at some ⊢
      split at live
      · cases live
      next own =>
      rw [if_neg own] at some ⊢
      have owner := sound.owns q live some
      have other : (s.slot q).num ≠ (s.slot pid).num := by
        intro same
        rw [same, sound.owns pid possible (same ▸ some)] at owner
        exact own owner.symm
      rw [ended_owner, if_neg fun whole => other whole.1, owner]
  | spawned pid =>
    refine ⟨fun q live => ?_, sound.valid, sound.enabled, fun q live some => ?_⟩
    · rw [spawned_live] at live
      split at live
      · next own => exact own ▸ possible.2
      · exact sound.used q live
    · rw [spawned_live] at live
      rw [spawned_num] at some ⊢
      split at some
      · exact absurd rfl some
      · next own =>
        rw [if_neg own] at live ⊢
        exact sound.owns q live some
  | none | ack pid | take pid | raised irq waiting =>
    exact sound.of_same (apply_same nofun nofun nofun) fun _ => apply_enabled

/-! ### Ownership as a matching -/

/-- `owner` and `num` are inverse on the live slots. -/
def Matching (s : IrqTable) : Prop :=
  ∀ q pid, (s.owner q = pid ∧ pid ≠ 0) ↔ (s.slot pid).live = true ∧ (s.slot pid).num = q ∧ q ≠ 0

theorem Matching.of_same {t : IrqTable} (matching : s.Matching) (same : s.Same t) : t.Matching := by
  intro q pid
  rw [same.owner, same.live, same.num]
  exact matching q pid

/-- A first registration of a nonzero interrupt, and every other event, keeps the matching. -/
theorem Matching.apply (matching : s.Matching) (sound : s.Sound) (possible : s.Possible e)
    (proper : ∀ pid irq, e = .register pid irq → s.Accepts irq → irq ≠ 0 ∧ (s.slot pid).num = 0) :
    (s.apply e).Matching := by
  cases e with
  | register pid irq =>
    by_cases accepted : s.Accepts irq
    · obtain ⟨nonzero, first⟩ := proper pid irq rfl accepted
      have used := sound.used pid possible
      intro q p
      rw [register_owner accepted, register_live accepted, register_num accepted]
      by_cases own : p = pid
      · subst own
        rw [if_pos rfl]
        by_cases here : q = irq
        · subst here
          rw [if_pos rfl]
          exact ⟨fun _ => ⟨possible, rfl, nonzero⟩, fun _ => ⟨rfl, used⟩⟩
        · rw [if_neg here, matching q p, first]
          exact ⟨fun held => absurd held.2.1.symm held.2.2, fun held => absurd held.2.1.symm here⟩
      · rw [if_neg own]
        by_cases here : q = irq
        · subst here
          rw [if_pos rfl]
          refine ⟨fun held => absurd held.1.symm own, fun held => ?_⟩
          have owner := ((matching q p).mpr held).1
          rw [accepted.2] at owner
          exact absurd owner.symm ((matching q p).mpr held).2
        · rw [if_neg here]
          exact matching q p
    · rwa [register_refused accepted]
  | ended pid =>
    intro q p
    rw [ended_owner, ended_live, ended_num]
    by_cases own : p = pid
    · subst own
      rw [if_pos rfl]
      refine ⟨fun held => ?_, fun held => absurd held.1 nofun⟩
      split at held
      · exact absurd held.1.symm held.2
      · next other =>
        have owned : s.owner q ≠ 0 := held.1 ▸ held.2
        obtain ⟨-, num, nonzero⟩ := (matching q p).mp held
        exact absurd ⟨num.symm, nonzero, sound.valid q owned⟩ other
    · rw [if_neg own, if_neg own]
      split
      · next gone =>
        refine ⟨fun held => absurd held.1.symm held.2, fun held => ?_⟩
        have mine := sound.owns pid possible (gone.1 ▸ gone.2.1)
        rw [← gone.1] at mine
        exact absurd (((matching q p).mpr held).1.symm.trans mine) own
      · exact matching q p
  | spawned pid =>
    intro q p
    rw [spawned_live, spawned_num]
    by_cases own : p = pid
    · subst own
      rw [if_pos rfl, if_pos rfl]
      refine ⟨fun held => ?_, fun held => absurd held.2.1.symm held.2.2⟩
      have live := ((matching q p).mp held).1
      rw [possible.1] at live
      cases live
    · rw [if_neg own, if_neg own]
      exact matching q p
  | none | ack pid | take pid | raised irq waiting =>
    exact matching.of_same (apply_same nofun nofun nofun)

/-! ### Claimed interrupts -/

/-- Every interrupt handed out and not yet completed is owned by a live process that answers for it. -/
def Answered (s : IrqTable) : Prop :=
  ∀ q, s.plic.claimed q = true → ∃ pid, s.owner q = pid ∧ (s.slot pid).live = true ∧ (s.slot pid).num = q ∧ q ≠ 0

/-- Every owner still answers for what it owns, and only owned interrupts are handed out. -/
structure Serving (s : IrqTable) : Prop where
  current : ∀ q, q ≠ 0 → s.owner q ≠ 0 → (s.slot (s.owner q)).live = true ∧ (s.slot (s.owner q)).num = q
  claimed : ∀ q, s.plic.claimed q = true → q ≠ 0 ∧ s.owner q ≠ 0

theorem Serving.answered (serving : s.Serving) : s.Answered := by
  intro q claimed
  obtain ⟨nonzero, owned⟩ := serving.claimed q claimed
  exact ⟨s.owner q, rfl, (serving.current q nonzero owned).1, (serving.current q nonzero owned).2, nonzero⟩

theorem complete_claimed {p : Plic} {q : Nat} (claimed : (p.complete irq).claimed q = true) : p.claimed q = true := by
  unfold Plic.complete at claimed
  split at claimed
  · have claimed : Function.update p.claimed irq false q = true := claimed
    by_cases own : q = irq
    · rw [own, Function.update_self] at claimed
      cases claimed
    · rwa [Function.update_of_ne own] at claimed
  · exact claimed

theorem complete_self {p : Plic} (enabled : p.enabled irq = true) : (p.complete irq).claimed irq = false := by
  rw [Plic.complete, if_pos enabled]
  exact Function.update_self ..

theorem apply_claimed {q : Nat} (possible : s.Possible e) (claimed : (s.apply e).plic.claimed q = true) :
    s.plic.claimed q = true ∨ (q ≠ 0 ∧ s.handler q ≠ 0 ∧ ∃ waiting, e = .raised q waiting) := by
  cases e with
  | none | take pid | ended pid | spawned pid => exact .inl claimed
  | register pid irq =>
    by_cases accepted : s.Accepts irq
    · rw [apply, if_pos accepted] at claimed
      exact .inl claimed
    · rw [register_refused accepted] at claimed
      exact .inl claimed
  | ack pid =>
    simp only [apply] at claimed
    split at claimed
    · exact .inl claimed
    · exact .inl (complete_claimed claimed)
  | raised irq waiting =>
    by_cases zero : irq = 0
    · rw [apply, if_pos zero] at claimed
      exact .inl claimed
    by_cases own : q = irq
    · subst own
      by_cases owned : s.handler q ≠ 0
      · exact .inr ⟨zero, owned, waiting, rfl⟩
      · rw [raised_unowned zero (not_not.mp owned)] at claimed
        have enabled : (s.plic.claim q).enabled q = true := possible.resolve_left zero
        exact absurd (claimed.symm.trans (complete_self enabled)) nofun
    · refine .inl ?_
      have claimed : (s.plic.claim irq).claimed q = true := by
        by_cases owned : s.handler irq ≠ 0
        · rwa [raised_owned zero owned] at claimed
        · rw [raised_unowned zero (not_not.mp owned)] at claimed
          exact complete_claimed claimed
      exact (Function.update_of_ne own ..).symm.trans claimed

theorem handler_owner {q : Nat} (owned : s.handler q ≠ 0) : s.owner q ≠ 0 := by
  unfold handler at owned
  split at owned
  · exact owned
  · exact absurd rfl owned

theorem Serving.of_same {t : IrqTable} (serving : s.Serving) (same : s.Same t)
    (claimed : ∀ q, t.plic.claimed q = true → s.plic.claimed q = true ∨ (q ≠ 0 ∧ s.owner q ≠ 0)) : t.Serving := by
  refine ⟨fun q nonzero owned => ?_, fun q taken => ?_⟩
  · rw [same.owner] at owned ⊢
    rw [same.live, same.num]
    exact serving.current q nonzero owned
  · rw [same.owner]
    rcases claimed q taken with before | now
    · exact serving.claimed q before
    · exact now

/-- Registering once, and ending with nothing claimed, keeps every claimed interrupt answered. -/
theorem Serving.apply (serving : s.Serving) (sound : s.Sound) (possible : s.Possible e)
    (first : ∀ pid irq, e = .register pid irq → s.Accepts irq → (s.slot pid).num = 0)
    (finished : ∀ pid, e = .ended pid → s.plic.claimed (s.slot pid).num = false) : (s.apply e).Serving := by
  cases e with
  | register pid irq =>
    by_cases accepted : s.Accepts irq
    · have none := first pid irq rfl accepted
      refine ⟨fun q nonzero owned => ?_, fun q claimed => ?_⟩
      · rw [register_owner accepted] at owned ⊢
        by_cases here : q = irq
        · rw [if_pos here, register_live accepted, register_num accepted, if_pos rfl]
          exact ⟨possible, here.symm⟩
        · rw [if_neg here] at owned ⊢
          obtain ⟨live, num⟩ := serving.current q nonzero owned
          have other : s.owner q ≠ pid := by
            intro own
            rw [own, none] at num
            exact nonzero num.symm
          rw [register_live accepted, register_num accepted, if_neg other]
          exact ⟨live, num⟩
      · rw [IrqTable.apply, if_pos accepted] at claimed
        obtain ⟨nonzero, owned⟩ := serving.claimed q claimed
        refine ⟨nonzero, ?_⟩
        rw [register_owner accepted]
        split
        · exact sound.used pid possible
        · exact owned
    · rwa [register_refused accepted]
  | ended pid =>
    have quiet := finished pid rfl
    refine ⟨fun q nonzero owned => ?_, fun q claimed => ?_⟩
    · rw [ended_owner] at owned ⊢
      split at owned
      · exact absurd rfl owned
      · next kept =>
        rw [if_neg kept]
        obtain ⟨live, num⟩ := serving.current q nonzero owned
        have other : s.owner q ≠ pid := by
          intro own
          rw [own] at num
          exact kept ⟨num.symm, nonzero, sound.valid q owned⟩
        rw [ended_live, ended_num, if_neg other, if_neg other]
        exact ⟨live, num⟩
    · have claimed : s.plic.claimed q = true := claimed
      obtain ⟨nonzero, owned⟩ := serving.claimed q claimed
      refine ⟨nonzero, ?_⟩
      rw [ended_owner]
      split
      · next own =>
        rw [own.1, quiet] at claimed
        cases claimed
      · exact owned
  | spawned pid =>
    refine ⟨fun q nonzero owned => ?_, serving.claimed⟩
    have owned : s.owner q ≠ 0 := owned
    show ((s.apply (.spawned pid)).slot (s.owner q)).live = true ∧ ((s.apply (.spawned pid)).slot (s.owner q)).num = q
    obtain ⟨live, num⟩ := serving.current q nonzero owned
    have other : s.owner q ≠ pid := by
      intro own
      rw [own, possible.1] at live
      cases live
    rw [spawned_live, spawned_num, if_neg other, if_neg other]
    exact ⟨live, num⟩
  | none | ack pid | take pid | raised irq waiting =>
    refine serving.of_same (apply_same nofun nofun nofun) fun q claimed => ?_
    rcases apply_claimed possible claimed with before | ⟨nonzero, owned, -⟩
    · exact .inl before
    · exact .inr ⟨nonzero, handler_owner owned⟩

/-! ### A process with one interrupt -/

/-- Process `pid` is alive, answers for `irq` and owns no other interrupt. -/
structure Single (s : IrqTable) (pid irq : Nat) : Prop where
  live : (s.slot pid).live = true
  num : (s.slot pid).num = irq
  owner : s.owner irq = pid
  only : ∀ q, q ≠ 0 → s.owner q = pid → q = irq

section Single
variable (single : s.Single pid irq) (sound : s.Sound) (possible : s.Possible e)
include single sound

theorem Single.used : pid ≠ 0 := sound.used pid single.live

theorem Single.apart {p : Nat} (live : (s.slot p).live = true) (nonzero : irq ≠ 0) (num : (s.slot p).num = irq) :
    p = pid := by
  have owner := sound.owns p live (num ▸ nonzero)
  rw [num, single.owner] at owner
  exact owner.symm

/-- Its interrupt is handed to it: the flag is set unless it is waiting. -/
theorem Single.raised (nonzero : irq ≠ 0) (waiting : Bool) :
    (s.apply (.raised irq waiting)).plic.claimed irq = true ∧
      ((s.apply (.raised irq waiting)).slot pid).pending = if waiting then (s.slot pid).pending else true := by
  have used := single.used sound
  have handled : s.handler irq = pid := by
    rw [handler, if_pos (sound.valid irq (by rw [single.owner]; exact used)), single.owner]
  rw [raised_owned nonzero (by rw [handled]; exact used), handled]
  refine ⟨Function.update_self .., ?_⟩
  cases waiting
  · simp
  · rfl

include possible

/-- It keeps its interrupt while it lives and registers no other. -/
theorem Single.apply (nonzero : irq ≠ 0) (still : ((s.apply e).slot pid).live = true)
    (others : ∀ q, e = .register pid q → ¬ s.Accepts q) : (s.apply e).Single pid irq := by
  have used := single.used sound
  have same := apply_same (s := s) (e := e)
  cases e with
  | register p q =>
    by_cases accepted : s.Accepts q
    · have other : pid ≠ p := fun own => others q (own ▸ rfl) accepted
      have free : irq ≠ q := by
        intro same
        have owner := single.owner
        rw [same, accepted.2] at owner
        exact used owner.symm
      refine ⟨still, ?_, ?_, fun i some owned => ?_⟩
      · rw [register_num accepted, if_neg other, single.num]
      · rw [register_owner accepted, if_neg free, single.owner]
      · rw [register_owner accepted] at owned
        split at owned
        · exact absurd owned.symm other
        · exact single.only i some owned
    · rwa [register_refused accepted]
  | ended p =>
    have other : pid ≠ p := by
      intro own
      rw [ended_live, if_pos own] at still
      cases still
    refine ⟨still, ?_, ?_, fun i some owned => ?_⟩
    · rw [ended_num, if_neg other, single.num]
    · have apart : ¬ (irq = (s.slot p).num ∧ irq ≠ 0 ∧ isValidIrq irq = true) :=
        fun whole => other (single.apart sound possible nonzero whole.1.symm).symm
      rw [ended_owner, if_neg apart, single.owner]
    · rw [ended_owner] at owned
      split at owned
      · exact absurd owned.symm used
      · exact single.only i some owned
  | spawned p =>
    have other : pid ≠ p := by
      intro own
      have dead := possible.1
      rw [← own, single.live] at dead
      cases dead
    refine ⟨still, ?_, single.owner, single.only⟩
    rw [spawned_num, if_neg other, single.num]
  | none | ack p | take p | raised q waiting =>
    have same := same nofun nofun nofun
    refine ⟨still, ?_, ?_, ?_⟩
    · rw [same.num, single.num]
    · rw [same.owner, single.owner]
    · rw [same.owner]
      exact single.only

omit sound in
/-- Its pending flag changes when its interrupt is raised or it collects the flag. -/
theorem Single.pending (taken : e ≠ .take pid) (raised : ∀ waiting, e ≠ .raised irq waiting) :
    ((s.apply e).slot pid).pending = (s.slot pid).pending := by
  cases e with
  | none => rfl
  | register p q =>
    by_cases accepted : s.Accepts q
    · rw [IrqTable.apply, if_pos accepted]
      by_cases own : pid = p
      · subst own
        simp
      · simp [Function.update_of_ne own]
    · rw [register_refused accepted]
  | ack p =>
    simp only [IrqTable.apply]
    split <;> rfl
  | take p =>
    have other : pid ≠ p := fun own => taken (own ▸ rfl)
    simp [IrqTable.apply, Function.update_of_ne other]
  | ended p =>
    by_cases own : pid = p
    · subst own
      simp [IrqTable.apply]
    · simp [IrqTable.apply, Function.update_of_ne own]
  | spawned p =>
    have other : pid ≠ p := by
      intro own
      have dead := possible.1
      rw [← own, single.live] at dead
      cases dead
    simp [IrqTable.apply, Function.update_of_ne other]
  | raised q waiting =>
    by_cases zero : q = 0
    · rw [IrqTable.apply, if_pos zero]
    by_cases owned : s.handler q ≠ 0
    · have other : pid ≠ s.handler q := by
        intro own
        have owner : s.owner q = pid := by
          rw [own, handler]
          split
          · rfl
          · next invalid => rw [handler, if_neg invalid] at owned; exact absurd rfl owned
        exact raised waiting (by rw [single.only q zero owner])
      rw [raised_owned zero owned]
      cases waiting
      · simp [Function.update_of_ne other]
      · rfl
    · rw [raised_unowned zero (not_not.mp owned)]

omit single in
/-- A claimed interrupt stays claimed until its owner acknowledges it. -/
theorem Single.claimed (single : s.Single pid irq) (nonzero : irq ≠ 0) (claimed : s.plic.claimed irq = true)
    (unanswered : e ≠ .ack pid) : (s.apply e).plic.claimed irq = true := by
  have completed : ∀ (p : Plic) (q : Nat), q ≠ irq → p.claimed irq = true → (p.complete q).claimed irq = true := by
    intro p q other before
    unfold Plic.complete
    split
    · show Function.update p.claimed q false irq = true
      rwa [Function.update_of_ne other.symm]
    · exact before
  have valid := sound.valid irq (by rw [single.owner]; exact single.used sound)
  cases e with
  | none | take p | ended p | spawned p => exact claimed
  | register p q =>
    by_cases accepted : s.Accepts q
    · rw [IrqTable.apply, if_pos accepted]
      exact claimed
    · rwa [register_refused accepted]
  | ack p =>
    simp only [IrqTable.apply]
    split
    · exact claimed
    · refine completed _ _ (fun same => unanswered ?_) claimed
      rw [single.apart sound possible nonzero same]
  | raised q waiting =>
    by_cases zero : q = 0
    · rwa [IrqTable.apply, if_pos zero]
    have taken : (s.plic.claim q).claimed irq = true := by
      show Function.update s.plic.claimed q true irq = true
      rw [Function.update_apply]
      split
      · rfl
      · exact claimed
    by_cases owned : s.handler q ≠ 0
    · rw [raised_owned zero owned]
      exact taken
    · rw [raised_unowned zero (not_not.mp owned)]
      refine completed _ _ (fun same => owned ?_) taken
      rw [same, handler, if_pos valid, single.owner]
      exact single.used sound

end Single

end IrqTable
end GooseOs
