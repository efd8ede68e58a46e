import GooseOs.Process.Consistency

/-!
Processes blocked on the network: a slot is BlockedNet exactly while it has a pending operation, a
pending receive fits the staging buffer, and a pass of `wake_blocked` completes each operation with one
write to the saved `a0`.
-/

namespace GooseOs
open Slot Sched Ipc Lifecycle Syscall NetServer Trap
variable [Platform]

/-- The network fields of a slot agree with its state. -/
structure NetSettled (p : Process) : Prop where
  blocked : p.state = .blockedNet ↔ p.netOp ≠ .none
  staged : p.netOp = .recv → 0 < p.netBufLen ∧ p.netBufLen ≤ stagingSize
  free : p.state = .free → p.netSocket = 0 ∧ p.netBufVa = 0 ∧ p.netBufLen = 0

/-- What completes a pending operation. -/
def Completes (p : Process) (v : Word) : Prop :=
  v = usizeMax ∨ match p.netOp with
    | .recv => ∃ count, count ≤ p.netBufLen ∧ v = BitVec.ofNat 64 count
    | .connect => v = 0
    | .none => False

/-- The slot after its operation has been completed with `v`. -/
def completed (p : Process) (v : Word) : Process :=
  { p with context := { p.context with a0 := v }, netOp := .none, state := .ready }

/-- What a pass of `wake_blocked` does to a slot. -/
def Woken (p p' : Process) : Prop :=
  p' = p ∨ (p.state = .blockedNet ∧ ∃ v, Completes p v ∧ p' = completed p v)

/-- The frame a handler leaves that has parked its caller: that of the process it switched to, or idle. -/
def SwitchedAway (c c' : Core) : Prop :=
  (∃ next, next ≠ c.currentPid ∧ (c.procs next).state = .ready ∧ c'.currentPid = next ∧
      c'.frame = (c.procs next).context) ∨
    (c'.currentPid = 0 ∧ c'.frame.sstatus = 0x120 ∧ c'.frame.sepc = Platform.kernelIdle)

/-! ### Slots -/

section Slots
variable {p p' p'' : Process}

omit [Platform] in
theorem NetSettled.of_none (none : p.netOp = .none) (state : p.state ≠ .blockedNet) (live : p.state ≠ .free) :
    NetSettled p where
  blocked := ⟨fun blocked => absurd blocked state, fun other => absurd none other⟩
  staged recv := absurd (none.symm.trans recv) nofun
  free dead := absurd dead live

omit [Platform] in
theorem NetSettled.none (settled : NetSettled p) (state : p.state ≠ .blockedNet) : p.netOp = .none := by
  by_contra other
  exact state (settled.blocked.mpr other)

omit [Platform] in
theorem netSettled_new {pid parent : Nat} {satp entry sp : Word} : NetSettled (newProcess pid parent satp entry sp) :=
  .of_none rfl nofun nofun

omit [Platform] in
theorem netSettled_cleared (p : Process) (code : Word) : NetSettled (cleared p code) :=
  ⟨⟨nofun, fun other => absurd rfl other⟩, nofun, fun _ => ⟨rfl, rfl, rfl⟩⟩

omit [Platform] in
theorem Woken.settled (woken : Woken p p') (settled : NetSettled p) : NetSettled p' := by
  rcases woken with rfl | ⟨-, v, -, rfl⟩
  · exact settled
  · exact .of_none rfl nofun nofun

omit [Platform] in
theorem Woken.trans (first : Woken p p') (second : Woken p' p'') : Woken p p'' := by
  rcases first with rfl | ⟨blocked, v, completes, rfl⟩
  · exact second
  · rcases second with rfl | ⟨blocked', -⟩
    · exact .inr ⟨blocked, v, completes, rfl⟩
    · cases blocked'

end Slots

/-! ### A pass of `wake_blocked` -/

section Wake
variable {k : Kernel} {n : Net} {pid : Nat}

theorem completeBlocked_woken {k₁ : Kernel} {v : Word} (same : k₁.procs = k.procs)
    (blocked : (k.procs pid).state = .blockedNet) (completes : Completes (k.procs pid) v) (q : Nat) :
    Woken (k.procs q) ((completeBlocked k₁ pid v).procs q) := by
  rw [← same] at blocked completes ⊢
  by_cases own : q = pid
  · subst own
    refine .inr ⟨blocked, v, completes, ?_⟩
    exact Function.update_self ..
  · exact .inl (Function.update_of_ne own ..)

theorem deliver_spec (k : Kernel) (satp : Word) (bufVa : Nat) (bytes : List Byte) :
    (deliver k satp bufVa bytes).1.procs = k.procs ∧
      ((deliver k satp bufVa bytes).2 = BitVec.ofNat 64 bytes.length ∨ (deliver k satp bufVa bytes).2 = usizeMax) := by
  unfold deliver
  split
  · exact ⟨rfl, .inl rfl⟩
  · exact ⟨rfl, .inr rfl⟩

theorem wakeOne_woken (settled : ∀ q, NetSettled (k.procs q)) :
    ∃ k', wakeOne k pid = .ok k' ∧ ∀ q, Woken (k.procs q) (k'.procs q) := by
  have turned := wakeOne_turned k pid
  generalize wakeOne k pid = result at turned
  cases turned with
  | left net => exact ⟨_, rfl, fun q => .inl rfl⟩
  | ended net v blocked value =>
    have completes : Completes (k.procs pid) v := by
      unfold Completes
      have waits := (settled pid).blocked.mp blocked
      cases op : (k.procs pid).netOp with
      | none => exact absurd op waits
      | recv => exact value.elim .inl fun connect => absurd (op.symm.trans connect.1) nofun
      | connect => exact value.imp_right And.right
    exact ⟨_, rfl, completeBlocked_woken (show ({ k with net := net } : Kernel).procs = k.procs from rfl) blocked completes⟩
  | delivered net bytes blocked recv space =>
    obtain ⟨same, value⟩ := deliver_spec { k with net := some net } (k.procs pid).satp (k.procs pid).netBufVa bytes
    have completes : Completes (k.procs pid)
        (deliver { k with net := some net } (k.procs pid).satp (k.procs pid).netBufVa bytes).2 := by
      rw [Completes, recv]
      exact value.symm.imp_right fun count => ⟨_, space, count⟩
    exact ⟨_, rfl, completeBlocked_woken same blocked completes⟩
  | panicked recv long =>
    have staged := (settled pid).staged recv
    omega

/-- A pass over settled slots does not panic, and completes each operation at most once. -/
theorem wakeBlocked_woken (settled : ∀ q, NetSettled (k.procs q)) :
    ∃ k', wakeBlocked k = .ok k' ∧ ∀ q, Woken (k.procs q) (k'.procs q) := by
  unfold wakeBlocked
  induction pids generalizing k with
  | nil => exact ⟨k, rfl, fun q => .inl rfl⟩
  | cons pid rest ih =>
    obtain ⟨k₁, first, woken⟩ := @wakeOne_woken _ k pid settled
    obtain ⟨k', others, woken'⟩ := ih fun q => (woken q).settled (settled q)
    refine ⟨k', ?_, fun q => (woken q).trans (woken' q)⟩
    rw [List.foldlM_cons, first]
    exact others

end Wake

/-! ### Parking -/

section Park
variable {c c' : Core} {k k' : Kernel} {n : Net} {out : Outcome}

omit [Platform] in
theorem NetSettled.runs {p : Process} (settled : NetSettled p) (ready : p.state = .ready) :
    NetSettled { p with state := .running } :=
  .of_none (settled.none (by rw [ready]; nofun)) nofun nofun

omit [Platform] in
theorem load_settled {next : Nat} (settled : ∀ q, NetSettled (c.procs q)) (ready : (c.procs next).state = .ready)
    (q : Nat) : NetSettled ((load c next).procs q) := by
  show NetSettled (Function.update c.procs next { c.procs next with state := .running } q)
  by_cases own : q = next
  · subst own
    rw [Function.update_self]
    exact (settled q).runs ready
  · rw [Function.update_of_ne own]
    exact settled q

omit [Platform] in
theorem update_settled {procs : Nat → Process} {pid : Nat} {p : Process} (settled : ∀ q, NetSettled (procs q))
    (new : NetSettled p) (q : Nat) : NetSettled (Function.update procs pid p q) := by
  by_cases own : q = pid
  · subst own
    rwa [Function.update_self]
  · rw [Function.update_of_ne own]
    exact settled q

theorem schedule_settled {pid : Nat} (settled : ∀ q, NetSettled (c.procs q)) (h : schedule c pid = .ok c') (q : Nat) :
    NetSettled (c'.procs q) := by
  have own := settled pid
  have saved := @update_settled c.procs pid { c.procs pid with context := c.frame } settled
    ⟨own.blocked, own.staged, own.free⟩
  rcases schedule_ok h with ⟨next, found, rfl⟩ | ⟨-, rfl⟩
  · exact load_settled saved (nextReady_some found).1 q
  · exact saved q

omit [Platform] in
theorem netSettled_parked {p : Process} {op : NetOp} {socket bufVa bufLen : Nat} (waits : op ≠ .none)
    (staged : op = .recv → 0 < bufLen ∧ bufLen ≤ stagingSize) :
    NetSettled { p with
      netOp := op, netSocket := socket, netBufVa := bufVa, netBufLen := bufLen, state := .blockedNet } :=
  ⟨⟨fun _ => waits, fun _ => rfl⟩, staged, nofun⟩

/-- A parked caller is settled, and the frame is another's. -/
theorem parkCore_spec {op : NetOp} {socket bufVa bufLen : Nat} (waits : op ≠ .none)
    (staged : op = .recv → 0 < bufLen ∧ bufLen ≤ stagingSize) (settled : ∀ q, NetSettled (c.procs q))
    (scheduled : schedule (parkCore c op socket bufVa bufLen) c.currentPid = .ok c') :
    (∀ q, NetSettled (c'.procs q)) ∧ SwitchedAway c c' := by
  refine ⟨schedule_settled (update_settled settled (netSettled_parked waits staged)) scheduled, ?_⟩
  rcases schedule_ok scheduled with ⟨next, found, rfl⟩ | ⟨-, rfl⟩
  · have ready := (nextReady_some found).1
    simp only [parkCore, Core.modify_procs, Function.update_idem] at ready
    have other : next ≠ c.currentPid := by
      rintro rfl
      simp at ready
    rw [Function.update_of_ne other] at ready
    refine .inl ⟨next, other, ready, rfl, ?_⟩
    simp [load, parkCore, Function.update_of_ne other]
  · exact .inr ⟨rfl, rfl, rfl⟩

/-- A network handler leaves another's frame when it parks its caller. -/
theorem dispatch_blocked (settled : ∀ q, NetSettled (k.procs q)) (h : NetServer.dispatch k n = .ok (k', .blocked)) :
    SwitchedAway k.toCore k'.toCore := by
  have result := dispatch_dispatched k n
  rw [h] at result
  generalize outcome : (Except.ok (k', .blocked) : Result (Kernel × Outcome)) = r at result
  cases result with
  | answered => cases outcome
  | delivered => cases outcome
  | parked net op socket bufVa bufLen waits staged =>
    obtain ⟨c, scheduled, rfl, -⟩ := park_ok outcome.symm
    exact (parkCore_spec (c := k.toCore) waits staged settled scheduled).2

theorem handleRequest_settled (settled : ∀ q, NetSettled (k.procs q)) (h : handleRequest k = .ok k') (q : Nat) :
    NetSettled (k'.procs q) := by
  cases handleRequest_ok h with
  | answered net v done =>
    rw [done]
    exact settled q
  | delivered net bytes recv space staged done =>
    have same := (deliver_spec { k.advance with net := some net } k.currentSatp k.frame.a3.toNat bytes).1
    have procs : k'.procs = k.procs := by
      rw [done]
      exact same
    rw [procs]
    exact settled q
  | parked net op socket bufVa bufLen c waits staged scheduled done =>
    rw [done]
    exact (parkCore_spec (c := k.toCore.advance) waits staged settled scheduled).1 q

theorem sysCall_settled (running : (c.procs c.currentPid).state = .running) (settled : ∀ q, NetSettled (c.procs q))
    (h : Ipc.sysCall c = .ok c') (q : Nat) : NetSettled (c'.procs q) := by
  unfold Ipc.sysCall at h
  dsimp only at h
  split at h
  · cases h
    exact settled q
  · refine schedule_settled ?_ h q
    have none := (settled c.currentPid).none (by rw [running]; nofun)
    split
    · rename_i wanted
      have receives : (c.procs c.frame.a0.toNat).state = .blockedRecv := wantsFrom_state wanted
      have woken : NetSettled { c.procs c.frame.a0.toNat with
          context := { (c.procs c.frame.a0.toNat).context with
            a0 := c.frame.a1, a1 := BitVec.ofNat 64 c.currentPid, a2 := c.frame.a2, a3 := c.frame.a3 }
          state := .ready } :=
        .of_none ((settled _).none (by rw [receives]; nofun)) nofun nofun
      refine update_settled (update_settled settled woken) (.of_none ?_ nofun nofun)
      show (Function.update c.procs c.frame.a0.toNat _ c.currentPid).netOp = .none
      by_cases own : c.currentPid = c.frame.a0.toNat
      · rw [own, Function.update_self]
        exact own ▸ none
      · rw [Function.update_of_ne own]
        exact none
    · exact update_settled settled (.of_none none nofun nofun)

end Park

/-! ### Steps -/

section Steps
variable {c c' : Core} {k k' : Kernel} {t : Trap} {l : Label}

/-- What a trap other than a network request does to a slot. -/
theorem change_settled {q : Nat} {p : Process} (cons : Consistent c) (mode : t = .ecall → c.inUser)
    (direct : t = .ecall → ¬ (c.frame.a7.toNat = sysCallNo ∧ c.frame.a0.toNat = netServerPid))
    (settled : ∀ q, NetSettled (c.procs q)) (change : Change c t q p) : NetSettled p := by
  have idle : c.inUser → (c.procs c.currentPid).netOp = .none := by
    intro user
    exact (settled c.currentPid).none (by rw [(cons.running user).1]; nofun)
  have own := settled q
  cases change with
  | stay => exact ⟨own.blocked, own.staged, own.free⟩
  | wake other cause =>
    refine .of_none (own.none ?_) nofun nofun
    rcases cause.state with state | state | state | state <;> rw [state] <;> nofun
  | netWake => exact .of_none rfl nofun nofun
  | park here call cause =>
    have none := idle (mode call)
    cases cause with
    | send => exact .of_none none nofun nofun
    | call => exact .of_none none nofun nofun
    | receive => exact .of_none none nofun nofun
    | wait => exact .of_none none nofun nofun
    | net number server => exact absurd ⟨number, server⟩ (direct call)
  | preempted here timer user =>
    subst here
    exact .of_none (idle user) nofun nofun
  | yielded here call =>
    subst here
    exact .of_none (idle (mode call)) nofun nofun
  | terminated => exact netSettled_cleared _ _
  | spawned => exact netSettled_new

theorem spawned_of_free {q : Nat} {p : Process} (cons : Consistent c) (mode : t = .ecall → c.inUser)
    (free : (c.procs q).state = .free) (alive : p.state ≠ .free) (change : Change c t q p) :
    ∃ satp entry sp, p = newProcess q c.currentPid satp entry sp := by
  have current : c.inUser → q ≠ c.currentPid := by
    rintro user rfl
    rw [(cons.running user).1] at free
    cases free
  cases change with
  | stay => exact absurd free alive
  | wake _ cause => exact absurd free cause.not_free
  | netWake blocked => exact absurd (free.symm.trans blocked) nofun
  | park own call => exact absurd own (current (mode call))
  | preempted own _ user => exact absurd own (current user)
  | yielded own call => exact absurd own (current (mode call))
  | terminated => exact absurd rfl alive
  | spawned => exact ⟨_, _, _, rfl⟩

omit [Platform] in
theorem dispatch_settled {mid : Nat → Process} (settled : ∀ q, NetSettled (mid q)) (dispatch : Dispatch c t mid c')
    (q : Nat) : NetSettled (c'.procs q) := by
  rcases Consistent.dispatch_procs dispatch q with same | ⟨ready, same⟩
  · rw [same]
    exact settled q
  · rw [same]
    exact (settled q).runs ready

theorem trap_settled (cons : Consistent k.toCore) (mode : t = .ecall → k.inUser)
    (settled : ∀ q, NetSettled (k.procs q)) (h : trapHandler k t = .ok k') (q : Nat) : NetSettled (k'.procs q) := by
  have traps := trapHandler_traps cons.toSettled mode cons.current_range h
  by_cases request : t = .ecall ∧ k.frame.a7.toNat = sysCallNo ∧ k.frame.a0.toNat = netServerPid
  · obtain ⟨rfl, number, server⟩ := request
    have called : sysCallEntry k = .ok k' := by
      rw [trapHandler, handleEcall, number] at h
      exact h
    unfold sysCallEntry at called
    split at called
    · exact handleRequest_settled settled called q
    · obtain ⟨c', handled, rfl⟩ := onCore_ok called
      exact sysCall_settled (cons.running (mode rfl)).1 settled handled q
  · obtain ⟨mid, changes, dispatch⟩ := traps
    refine dispatch_settled (fun q => ?_) dispatch q
    exact change_settled cons mode (fun call both => request ⟨call, both⟩) settled (changes q)

theorem step_settled (cons : Consistent k.toCore) (settled : ∀ q, NetSettled (k.procs q)) (step : Step k l k')
    (q : Nat) : NetSettled (k'.procs q) := by
  by_cases trap : ∃ t, l = .trap t
  · obtain ⟨t, rfl⟩ := trap
    obtain ⟨handled, mode⟩ := step_trap step
    exact trap_settled cons mode settled handled q
  · rw [(step_other step fun t same => trap ⟨t, same⟩).1]
    exact settled q

omit [Platform] in
theorem Boot.Created.settled {procs : Nat → Process} {q : Nat} (created : Boot.Created procs q) : NetSettled (procs q) := by
  rcases created with empty | ⟨-, satp, entry, sp, same⟩
  · rw [empty]
    exact ⟨⟨nofun, fun other => absurd rfl other⟩, nofun, fun _ => ⟨rfl, rfl, rfl⟩⟩
  · rw [same]
    exact netSettled_new

theorem booted_settled (booted : Boot.Booted k) (q : Nat) : NetSettled (k.procs q) := by
  obtain ⟨-, -, -, ⟨satp, entry, sp, first, -⟩, others⟩ := Boot.booted_started booted
  by_cases own : q = 1
  · rw [own, first]
    exact .of_none rfl nofun nofun
  · exact (others q own).settled

end Steps

/-! ### Runs -/

namespace MachineRun
variable (r : MachineRun)

/-- The network blocking state of a kernel is consistent. -/
structure NetConsistent (k : Kernel) : Prop where
  settled : ∀ q, NetSettled (k.procs q)
  wakes : ∀ k₁ : Kernel, k₁.procs = k.procs → ∃ k', wakeBlocked k₁ = .ok k' ∧ ∀ q, Woken (k.procs q) (k'.procs q)
  parks : ∀ (n : Net) (k' : Kernel), k.net = some n → NetServer.dispatch k.advance n = .ok (k', .blocked) →
    handleRequest k = .ok k' ∧ SwitchedAway k.toCore k'.toCore

theorem netSettled {n : Nat} (bound : n ≤ r.len) (q : Nat) : NetSettled ((r.state n).procs q) := by
  refine r.invariant_of_steps (P := fun k => ∀ q, NetSettled (k.procs q)) (fun k booted => booted_settled booted)
    (fun n bound before => ?_) n bound q
  exact step_settled (r.consistent (Nat.le_of_lt bound)) before (r.steps n bound)

/-- In every state of a run, and at every respawn. -/
structure NetBlocking : Prop where
  state : ∀ n, n ≤ r.len → NetConsistent (r.state n)
  respawned : ∀ n q, n < r.len → ((r.state n).procs q).state = .free → ((r.state (n + 1)).procs q).state ≠ .free →
    ((r.state (n + 1)).procs q).netOp = .none ∧ ((r.state (n + 1)).procs q).netSocket = 0 ∧
      ((r.state (n + 1)).procs q).netBufVa = 0 ∧ ((r.state (n + 1)).procs q).netBufLen = 0

theorem netConsistent {n : Nat} (bound : n ≤ r.len) : NetConsistent (r.state n) := by
  have settled := r.netSettled bound
  refine ⟨settled, fun k₁ same => ?_, fun net k' up dispatched => ?_⟩
  · rw [← same]
    exact wakeBlocked_woken (same ▸ settled)
  · refine ⟨?_, dispatch_blocked (k := (r.state n).advance) settled dispatched⟩
    have up : (r.state n).advance.net = some net := up
    unfold handleRequest
    dsimp only
    rw [up]
    dsimp only
    rw [dispatched]
    rfl

theorem netBlocking : r.NetBlocking := by
  refine ⟨fun n bound => r.netConsistent bound, fun n q bound free live => ?_⟩
  have cons := r.consistent (Nat.le_of_lt bound)
  by_cases trap : ∃ t, r.label n = .trap t
  · obtain ⟨t, label⟩ := trap
    have step := r.steps n bound
    rw [label] at step
    have mode := (step_trap step).2
    obtain ⟨mid, changes, dispatch⟩ := r.traps bound label
    have dispatched := Consistent.dispatch_procs dispatch q
    have alive : (mid q).state ≠ .free := by
      rcases dispatched with same | ⟨ready, -⟩
      · rwa [← same]
      · rw [ready]
        nofun
    obtain ⟨satp, entry, sp, same⟩ := spawned_of_free cons mode free alive (changes q)
    rcases dispatched with same' | ⟨-, same'⟩
    · rw [same', same]
      exact ⟨rfl, rfl, rfl, rfl⟩
    · rw [same', same]
      exact ⟨rfl, rfl, rfl, rfl⟩
  · rw [(step_other (r.steps n bound) fun t same => trap ⟨t, same⟩).1] at live
    exact absurd free live

end MachineRun

end GooseOs
