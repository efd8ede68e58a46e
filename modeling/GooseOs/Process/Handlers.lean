import GooseOs.Process.Slot

/-!
Every handler of the kernel refines the slot automaton: the process-level handlers, the network
server, and the trap handler over all of them.
-/

namespace GooseOs.Slot
open Sched Ipc Lifecycle Syscall Trap Security
variable [Platform] {c c' : Core} {t : Trap}

/-! ### The process-level handlers -/

omit [Platform] in
theorem ne_current {q : Nat} {s : ProcessState} (running : (c.procs c.currentPid).state = .running)
    (state : (c.procs q).state = s) (other : s ≠ .running) : q ≠ c.currentPid := by
  rintro rfl
  exact other (state.symm.trans running)

theorem sysSend_traps (running : (c.procs c.currentPid).state = .running) (number : c.frame.a7.toNat = sysSendNo)
    (h : sysSend c = .ok c') : Traps c .ecall c' := by
  unfold sysSend at h
  dsimp only at h
  split at h
  · cases h
    exact traps_answer _ (not_yield number (by decide))
  rename_i valid
  have valid : isValidIpcTarget c.frame.a0.toNat c.currentPid = true := by simpa using valid
  split at h
  · rename_i wanted
    have wanted : wantsFrom (c.procs c.frame.a0.toNat) c.currentPid = true := wanted
    cases h
    have other := ne_current running (wantsFrom_state wanted) nofun
    exact traps_resume (change_update (.wake other (.send number rfl wanted)))
      (by simp [Function.update_of_ne other.symm]) (.returned 0 (not_yield number (by decide)))
  · rename_i busy
    have busy : wantsFrom (c.procs c.frame.a0.toNat) c.currentPid = false := by simpa using busy
    refine traps_schedule (c := c) (fun q => ?_) ?_ h
    · simp only [Core.advance_procs, Core.advance_currentPid, Function.update_idem, Function.update_self]
      exact change_update (.park rfl rfl (.send number valid busy)) q
    · simp

theorem sysCall_traps (number : c.frame.a7.toNat = sysCallNo)
    (direct : ¬ (Platform.net = true ∧ c.frame.a0.toNat = NetServer.netServerPid)) (h : Ipc.sysCall c = .ok c') :
    Traps c .ecall c' := by
  unfold Ipc.sysCall at h
  dsimp only at h
  split at h
  · cases h
    exact traps_answer _ (not_yield number (by decide))
  rename_i valid
  have valid : isValidIpcTarget c.frame.a0.toNat c.currentPid = true := by simpa using valid
  have apart := (isValidIpcTarget_iff.mp valid).2.2
  have caller : Change c .ecall c.currentPid _ := .park rfl rfl (.call number direct valid)
  split at h
  · rename_i wanted
    have wanted : wantsFrom (c.procs c.frame.a0.toNat) c.currentPid = true := wanted
    have receiver : Change c .ecall c.frame.a0.toNat _ := .wake apart (.call number rfl direct wanted)
    refine traps_schedule (c := c) (fun q => ?_) ?_ h
    · simp only [Core.advance_procs, Core.advance_currentPid, Core.modify_procs, Core.advance_frame,
         TrapFrame.advance_a0, Function.update_idem, Function.update_self,
        Function.update_of_ne apart.symm]
      exact change_update₂ receiver caller q
    · simp
  · refine traps_schedule (c := c) (fun q => ?_) ?_ h
    · simp only [Core.advance_procs, Core.advance_currentPid, Function.update_idem, Function.update_self]
      exact change_update caller q
    · simp

theorem sysReply_traps (running : (c.procs c.currentPid).state = .running) (number : c.frame.a7.toNat = sysReplyNo)
    (h : sysReply c = .ok c') : Traps c .ecall c' := by
  unfold sysReply at h
  dsimp only at h
  split at h
  · cases h
    exact traps_answer _ (not_yield number (by decide))
  split at h
  · rename_i pending
    have pending : (c.procs c.frame.a0.toNat).state = .blockedCall ∧
        (c.procs c.frame.a0.toNat).ipcTarget = c.currentPid := by simpa using pending
    cases h
    have other := ne_current running pending.1 nofun
    exact traps_resume (change_update (.wake other (.reply number rfl pending.1 pending.2)))
      (by simp [Function.update_of_ne other.symm]) (.returned 0 (not_yield number (by decide)))
  · cases h
    exact traps_answer _ (not_yield number (by decide))

theorem sysReceive_traps (running : (c.procs c.currentPid).state = .running)
    (number : c.frame.a7.toNat = sysReceiveNo) (h : sysReceive c = .ok c') : Traps c .ecall c' := by
  unfold sysReceive at h
  dsimp only at h
  split at h
  · cases h
    exact traps_resume (change_update (.stay (c.procs c.currentPid).irqNum false)) (by simp)
      (.received number _ 0)
  rename_i quiet
  have quiet : ¬ ((c.procs c.currentPid).irqPending = true ∧ c.frame.a0.toNat = 0) := by simpa using quiet
  split at h
  · rename_i i found
    have found : findSender c.procs c.currentPid c.frame.a0.toNat = some i := found
    split at h
    · rename_i sender
      have sender : (c.procs i).state = .blockedSend := by simpa using sender
      cases h
      have other := ne_current running sender nofun
      exact traps_resume (change_update (.wake other (.receive number quiet found sender)))
        (by simp [Function.update_of_ne other.symm]) (.received number _ _)
    · cases h
      exact traps_resume (fun _ => change_keep) id (.received number _ _)
  · rename_i absent
    have absent : findSender c.procs c.currentPid c.frame.a0.toNat = none := absent
    refine traps_schedule (c := c) (fun q => ?_) ?_ h
    · simp only [Core.advance_procs, Core.advance_currentPid, Function.update_idem, Function.update_self]
      exact change_update (.park rfl rfl (.receive number absent)) q
    · simp

theorem sysWait_traps (number : c.frame.a7.toNat = sysWaitNo) (h : sysWait c = .ok c') : Traps c .ecall c' := by
  unfold sysWait at h
  dsimp only at h
  split at h
  · cases h
    exact traps_answer _ (not_yield number (by decide))
  rename_i valid
  have valid : isValidIpcTarget c.frame.a0.toNat c.currentPid = true := by simpa using valid
  split at h
  · cases h
    exact traps_answer _ (not_yield number (by decide))
  rename_i child
  have child : (c.procs c.frame.a0.toNat).parent = c.currentPid := by simpa using child
  split at h
  · cases h
    exact traps_answer _ (not_yield number (by decide))
  rename_i alive
  refine traps_schedule (c := c) (fun q => ?_) ?_ h
  · simp only [Core.advance_procs, Core.advance_currentPid, Function.update_idem, Function.update_self]
    exact change_update (.park rfl rfl (.wait number valid child alive)) q
  · simp

/-- The slot of a process that gives way: ready, with its registers saved. -/
def yieldedSlot (c : Core) : Process := { c.procs c.currentPid with state := .ready, context := c.frame.advance }

/-- SYS_YIELD that finds a ready process loads it, and then puts 0 into `a0`. -/
theorem sysYield_switched {next : Nat} (range : 1 ≤ c.currentPid ∧ c.currentPid < maxProcs)
    (chosen : nextReady c.procs c.currentPid (maxProcs - 2) = some next) (h : sysYield c = .ok c') :
    c' = (load { c.advance with procs := Function.update c.procs c.currentPid (yieldedSlot c) } next).setA0 0 := by
  have used : c.currentPid ≠ 0 := by omega
  have chosen' : nextReady c.advance.procs c.advance.currentPid (maxProcs - 2) = some next := chosen
  have saved : nextReady (Function.update c.procs c.currentPid (yieldedSlot c)) c.currentPid (maxProcs - 1) =
      some next := by
    refine nextReady_full ((nextReady_congr range fun q other => ?_).trans chosen)
    rw [Function.update_of_ne other]
  unfold sysYield at h
  dsimp only at h
  rw [if_neg (show ¬ c.advance.currentPid = 0 from used), chosen'] at h
  obtain ⟨d, scheduled, h⟩ := bind_ok h
  cases h
  have parked : ((c.advance.modify c.advance.currentPid fun p => { p with state := .ready }).modify c.advance.currentPid
      fun p => { p with context := (c.advance.modify c.advance.currentPid fun p => { p with state := .ready }).frame }) =
        { c.advance with procs := Function.update c.procs c.currentPid (yieldedSlot c) } := by
    simp [Core.modify, yieldedSlot]
  have outcome := schedule_ok scheduled
  dsimp only at outcome
  rw [parked] at outcome
  rcases outcome with ⟨next', found, rfl⟩ | ⟨none, -⟩
  · obtain rfl := Option.some.inj (found.symm.trans saved)
    rfl
  · exact absurd (none.symm.trans saved) nofun

theorem sysYield_traps (number : c.frame.a7.toNat = sysYieldNo) (range : 1 ≤ c.currentPid ∧ c.currentPid < maxProcs)
    (h : sysYield c = .ok c') : Traps c .ecall c' := by
  cases chosen : nextReady c.procs c.currentPid (maxProcs - 2) with
  | none =>
    have chosen' : nextReady c.advance.procs c.advance.currentPid (maxProcs - 2) = none := chosen
    have used : ¬ c.advance.currentPid = 0 := by
      show ¬ c.currentPid = 0
      omega
    unfold sysYield at h
    dsimp only at h
    rw [if_neg used, chosen'] at h
    cases h
    exact traps_answer _ fun _ => rfl
  | some next =>
    obtain ⟨ready, inside⟩ := nextReady_some chosen
    obtain rfl := sysYield_switched range chosen h
    have yielded : Change c .ecall c.currentPid (yieldedSlot c) := .yielded rfl rfl number chosen
    refine ⟨_, change_update yielded, .switch ?_ inside ?_ (Or.inr ⟨rfl, number, chosen, rfl⟩)⟩
    · by_cases own : next = c.currentPid
      · rw [own, Function.update_self]
        rfl
      · rw [Function.update_of_ne own]
        exact ready
    · rw [Function.update_self]
      nofun

/-- The shared cleanup: the slot is cleared, and a waiting parent wakes with the code. -/
theorem reap_change {code : Word}
    (ends : (t = .ecall ∧ c.frame.a7.toNat = sysExitNo ∧ code = c.frame.a0) ∨
      ∃ cause, t = .fault cause ∧ code = BitVec.ofNat 64 (128 + cause)) :
    ∃ mid owners, reap c c.currentPid code = { c with procs := mid, irqOwner := owners } ∧
      (∀ q, Change c t q (mid q)) ∧ (mid c.currentPid).state = .free := by
  have own : Change c t c.currentPid (cleared (c.procs c.currentPid) code) := .terminated rfl ends
  unfold reap wakeParent
  cases found : findWaiter (clearSlot c c.currentPid code).procs c.currentPid with
  | none => exact ⟨_, _, rfl, change_update own, by simp⟩
  | some i =>
    have waiting := List.find?_some found
    rw [Bool.and_eq_true, beq_iff_eq, beq_iff_eq] at waiting
    have other : i ≠ c.currentPid := by
      rintro rfl
      simp [clearSlot] at waiting
    have before : (clearSlot c c.currentPid code).procs i = c.procs i := by
      simp [clearSlot, Function.update_of_ne other]
    rw [before] at waiting
    refine ⟨Function.update (clearSlot c c.currentPid code).procs i _, _, rfl, fun q => ?_, ?_⟩
    · rw [before]
      exact change_update₂ own (.wake other (.exit ends waiting.1 waiting.2)) q
    · rw [Function.update_of_ne other.symm]
      simp [clearSlot]

theorem sysExit_traps (number : c.frame.a7.toNat = sysExitNo) : Traps c .ecall (sysExit c) := by
  unfold sysExit
  dsimp only
  obtain ⟨mid, owners, reaped, changes, gone⟩ := reap_change (c := c) (Or.inl ⟨rfl, number, rfl⟩)
  rw [reaped]
  have left : (mid c.currentPid).state ≠ .running := by rw [gone]; nofun
  split
  · rename_i next found
    exact traps_load changes (firstReady_some found) left
  · split
    · exact traps_idle changes left
    · refine ⟨mid, changes, .idle ?_ left (Or.inr gone)⟩
      simp [TrapFrame.spp]

theorem killCurrent_traps {cause : Nat} (h : killCurrent c (BitVec.ofNat 64 (128 + cause)) = .ok c') :
    Traps c (.fault cause) c' := by
  unfold killCurrent at h
  dsimp only at h
  split at h
  · cases h
  obtain ⟨mid, owners, reaped, changes, gone⟩ := reap_change (c := c) (Or.inr ⟨cause, rfl, rfl⟩)
  rw [reaped] at h
  have left : (mid c.currentPid).state ≠ .running := by rw [gone]; nofun
  split at h
  · rename_i next found
    cases h
    exact traps_load changes (firstReady_some found) left
  · split at h
    · cases h
      exact traps_idle changes left
    · cases h
      refine ⟨mid, changes, .idle ?_ left (Or.inl rfl)⟩
      change BitVec.getLsbD 0x120#64 8 = true
      decide

/-! ### Interrupts -/

theorem change_running {q : Nat} {p : Process} (change : Change c t q p) (state : p.state = .running) :
    (c.procs q).state = .running := by
  cases change with
  | stay => exact state
  | park _ _ cause => cases cause <;> cases state
  | _ => cases state

/-- The timer preempts the running process, other slots having changed before. -/
theorem preempt_traps {procs : Nat → Process} (mode : c.inUser) (changes : ∀ q, Change c .timer q (procs q))
    (own : procs c.currentPid = c.procs c.currentPid) : Traps c .timer (preempt { c with procs := procs }) := by
  have resumed : Traps c .timer { c with procs := procs } :=
    ⟨procs, changes, .resume (fun running => by rw [own]; exact running) (.interrupted nofun)⟩
  unfold preempt
  dsimp only
  split
  · exact resumed
  · split
    · exact resumed
    · rename_i next found
      have preempted : Change c .timer c.currentPid _ := .preempted rfl rfl mode
      have ready := nextReady_some found
      refine traps_load (c := c) (fun q => ?_) ?_ ?_
      · by_cases here : q = c.currentPid
        · subst here
          rw [Function.update_self]
          dsimp only
          rw [own]
          exact preempted
        · rw [Function.update_of_ne here]
          exact changes q
      · refine ⟨?_, ready.2⟩
        by_cases here : next = c.currentPid
        · rw [here, Function.update_self]
        · rw [Function.update_of_ne here]
          exact ready.1
      · simp

/-- The idle loop is left for the first ready process, if there is one. -/
theorem scheduleFromIdle_traps {procs : Nat → Process} (idle : (c.procs c.currentPid).state ≠ .running)
    (interrupt : t ≠ .ecall) (changes : ∀ q, Change c t q (procs q)) :
    Traps c t (scheduleFromIdle { c with procs := procs }) := by
  unfold scheduleFromIdle
  split
  · exact ⟨procs, changes, .resume (fun running => absurd running idle) (.interrupted interrupt)⟩
  · rename_i next found
    exact traps_load changes (firstReady_some found) fun running => idle (change_running (changes _) running)

theorem irqNotify_change (irq : Nat)
    (settled : (c.procs c.currentPid).state = .running ∨ (c.procs c.currentPid).state = .free) :
    ∃ procs, irqNotify c irq (c.irqOwner irq) = { c with procs := procs } ∧
      (∀ q, Change c (.external irq) q (procs q)) ∧
      (procs c.currentPid).state = (c.procs c.currentPid).state := by
  unfold irqNotify
  split
  · rename_i receiver
    have receiver : (c.procs (c.irqOwner irq)).state = .blockedRecv := by simpa using receiver
    have other : c.irqOwner irq ≠ c.currentPid := by
      intro same
      rw [← same, receiver] at settled
      rcases settled with h | h <;> cases h
    exact ⟨_, rfl, change_update (.wake other (.irq rfl receiver)), by rw [Function.update_of_ne other.symm]⟩
  · refine ⟨_, rfl, change_update (.stay (c.procs (c.irqOwner irq)).irqNum true), ?_⟩
    by_cases own : c.currentPid = c.irqOwner irq
    · rw [own, Function.update_self]
    · rw [Function.update_of_ne own]

/-! ### The network handlers -/

/-- A slot a poll may have woken. -/
def Polled (p p' : Process) : Prop :=
  p' = p ∨ (p.state = .blockedNet ∧
    ∃ v, p' = { p with context := { p.context with a0 := v }, netOp := .none, state := .ready })

omit [Platform] in
theorem polled_trans {p p' p'' : Process} (first : Polled p p') (second : Polled p' p'') : Polled p p'' := by
  rcases first with rfl | ⟨blocked, v, rfl⟩
  · exact second
  · rcases second with rfl | ⟨blocked', -⟩
    · exact Or.inr ⟨blocked, v, rfl⟩
    · cases blocked'

/-- Two kernels that differ at process level only in slots a poll woke. -/
def PolledCore (c c' : Core) : Prop := ∃ procs, c' = { c with procs := procs } ∧ ∀ q, Polled (c.procs q) (procs q)

omit [Platform] in
theorem polledCore_refl (c : Core) : PolledCore c c := ⟨c.procs, rfl, fun _ => Or.inl rfl⟩

omit [Platform] in
theorem polledCore_trans {c c' c'' : Core} (first : PolledCore c c') (second : PolledCore c' c'') : PolledCore c c'' := by
  obtain ⟨procs, rfl, woken⟩ := first
  obtain ⟨procs', rfl, woken'⟩ := second
  exact ⟨procs', rfl, fun q => polled_trans (woken q) (woken' q)⟩

section Server
open NetServer

theorem completeBlocked_polled {k : Kernel} {pid : Nat} {v : Word} (same : k.toCore = c)
    (blocked : (c.procs pid).state = .blockedNet) : PolledCore c (completeBlocked k pid v).toCore := by
  subst same
  refine ⟨_, rfl, fun q => ?_⟩
  by_cases own : q = pid
  · subst own
    simp only [Function.update_self]
    exact Or.inr ⟨blocked, v, rfl⟩
  · simp only [Function.update_of_ne own]
    exact Or.inl rfl

theorem deliver_core (k : Kernel) (satp : Word) (bufVa : Nat) (bytes : List Byte) :
    (deliver k satp bufVa bytes).1.toCore = k.toCore := by
  unfold deliver
  split <;> rfl

theorem deliver_setA0 (k : Kernel) (satp : Word) (bufVa : Nat) (bytes : List Byte) (v : Word) :
    ((deliver k satp bufVa bytes).1.setA0 v).toCore = k.toCore.setA0 v := by
  unfold deliver
  split <;> rfl

theorem wakeOne_polled {k k' : Kernel} {pid : Nat} (h : wakeOne k pid = .ok k') : PolledCore k.toCore k'.toCore := by
  have turned := wakeOne_turned k pid
  rw [h] at turned
  cases turned with
  | left => exact polledCore_refl _
  | ended net v blocked => exact completeBlocked_polled (k := { k with net := net }) rfl blocked
  | delivered net bytes blocked => exact completeBlocked_polled (deliver_core _ _ _ _) blocked

theorem wakeBlocked_polled {k k' : Kernel} (h : wakeBlocked k = .ok k') : PolledCore k.toCore k'.toCore := by
  have scan : ∀ (pids : List Nat) (k : Kernel), pids.foldlM wakeOne k = .ok k' → PolledCore k.toCore k'.toCore := by
    intro pids
    induction pids with
    | nil =>
      intro k h
      cases h
      exact polledCore_refl _
    | cons pid pids ih =>
      intro k h
      rw [List.foldlM_cons] at h
      obtain ⟨k₁, first, rest⟩ := bind_ok h
      exact polledCore_trans (wakeOne_polled first) (ih k₁ rest)
  exact scan pids k h

theorem pollAndWake_polled {k k' : Kernel} {n : Net} (h : pollAndWake k n = .ok k') : PolledCore k.toCore k'.toCore :=
  wakeBlocked_polled (k := { k with net := some (poll n (nowMs k)) }) h

theorem polled_change (interrupt : t ≠ .ecall) {q : Nat} {p : Process} (polled : Polled (c.procs q) p) :
    Change c t q p := by
  rcases polled with rfl | ⟨blocked, v, rfl⟩
  · exact change_keep
  · exact .netWake blocked interrupt

theorem onCore_ok {k k' : Kernel} {f : Core → Result Core} (h : k.onCore f = .ok k') :
    ∃ c, f k.toCore = .ok c ∧ k' = { k with toCore := c } := by
  obtain ⟨c, handled, h⟩ := bind_ok h
  cases h
  exact ⟨c, handled, rfl⟩

theorem handleRequest_traps {k k' : Kernel} (number : k.frame.a7.toNat = sysCallNo)
    (server : k.frame.a0.toNat = netServerPid) (h : handleRequest k = .ok k') : Traps k.toCore .ecall k'.toCore := by
  cases handleRequest_ok h with
  | answered net v done =>
    rw [done]
    exact traps_answer v (not_yield number (by decide))
  | delivered net bytes recv space staged done =>
    rw [done, deliver_setA0]
    exact traps_answer _ (not_yield number (by decide))
  | parked net op socket bufVa bufLen c waits staged scheduled done =>
    rw [done]
    refine traps_schedule (c := k.toCore) (fun q => ?_) ?_ scheduled
    · simp only [Core.advance_procs, Core.advance_currentPid, Function.update_idem, Function.update_self]
      exact change_update (.park rfl rfl (.net number server)) q
    · simp

end Server

/-! ### The trap handler -/

omit [Platform] in
theorem firstFree_some {procs : Nat → Process} {i : Nat} (h : firstFree procs = some i) :
    (procs i).state = .free ∧ 1 ≤ i ∧ i < maxProcs := by
  have free := List.find?_some h
  exact ⟨by simpa using free, mem_pids.mp (List.mem_of_find?_eq_some h)⟩

section Kernel
variable {k k' : Kernel}

theorem sysSpawn_traps (number : k.frame.a7.toNat = sysSpawnNo) (h : sysSpawn k = .ok k') :
    Traps k.toCore .ecall k'.toCore := by
  rcases sysSpawn_ok h with rfl | ⟨info, pid, userRoot, v, slot, -, rfl⟩
  · exact traps_answer _ (not_yield number (by decide))
  · have free := firstFree_some slot
    refine traps_resume (change_update (.spawned free.1 rfl number free.2)) (fun running => ?_)
      (.returned _ (not_yield number (by decide)))
    have other : k.currentPid ≠ pid := by
      intro same
      rw [same, free.1] at running
      cases running
    change (Function.update k.procs pid _ k.currentPid).state = .running
    rw [Function.update_of_ne other]
    exact running

theorem sysIrqRegister_traps (number : k.frame.a7.toNat = sysIrqRegisterNo) :
    Traps k.toCore .ecall (sysIrqRegister k).toCore := by
  unfold sysIrqRegister
  dsimp only
  split
  · exact traps_answer _ (not_yield number (by decide))
  split
  · exact traps_answer _ (not_yield number (by decide))
  · refine traps_resume (change_update (.stay _ (k.procs k.currentPid).irqPending)) (fun running => ?_)
      (.returned _ (not_yield number (by decide)))
    change (Function.update k.procs k.currentPid _ k.currentPid).state = .running
    rw [Function.update_self]
    exact running

theorem sysIrqAck_core : ∃ v, (sysIrqAck k).toCore = k.toCore.advance.setA0 v := by
  unfold sysIrqAck
  dsimp only
  split
  · exact ⟨_, rfl⟩
  · exact ⟨_, rfl⟩

theorem traps_of_answer {v : Word} (other : k.frame.a7.toNat ≠ sysYieldNo)
    (same : k'.toCore = k.toCore.advance.setA0 v) : Traps k.toCore .ecall k'.toCore := by
  rw [same]
  exact traps_answer v fun yields => absurd yields other

theorem handleEcall_traps (running : (k.procs k.currentPid).state = .running)
    (range : 1 ≤ k.currentPid ∧ k.currentPid < maxProcs) (h : handleEcall k = .ok k') :
    Traps k.toCore .ecall k'.toCore := by
  unfold handleEcall at h
  split at h <;> rename_i number
  · cases h
    exact traps_of_answer (by rw [number]; decide) rfl
  · cases h
    exact sysExit_traps number
  · obtain ⟨c, handled, rfl⟩ := onCore_ok h
    exact sysSend_traps running number handled
  · obtain ⟨c, handled, rfl⟩ := onCore_ok h
    exact sysReceive_traps running number handled
  · unfold sysCallEntry at h
    split at h
    · rename_i server
      exact handleRequest_traps number server.2 h
    · rename_i direct
      obtain ⟨c, handled, rfl⟩ := onCore_ok h
      exact sysCall_traps number direct handled
  · obtain ⟨c, handled, rfl⟩ := onCore_ok h
    exact sysReply_traps running number handled
  · obtain ⟨v, a0, rfl⟩ := sysMap_answers h
    exact traps_of_answer (by rw [number]; decide) rfl
  · obtain ⟨v, a0, rfl⟩ := sysUnmap_answers h
    exact traps_of_answer (by rw [number]; decide) rfl
  · obtain ⟨v, a0, rfl⟩ := sysAllocPages_answers h
    exact traps_of_answer (by rw [number]; decide) rfl
  · obtain ⟨v, a0, rfl⟩ := sysFreePages_answers h
    exact traps_of_answer (by rw [number]; decide) rfl
  · exact sysSpawn_traps number h
  · obtain ⟨c, handled, rfl⟩ := onCore_ok h
    exact sysWait_traps number handled
  · cases h
    exact traps_of_answer (by rw [number]; decide) rfl
  · obtain ⟨c, handled, rfl⟩ := onCore_ok h
    exact sysYield_traps number range handled
  · cases h
    exact sysIrqRegister_traps number
  · cases h
    obtain ⟨v, same⟩ := sysIrqAck_core (k := k)
    exact traps_of_answer (by rw [number]; decide) same
  · cases h
  · cases h
    refine traps_of_answer (fun yields => ?_) rfl
    simp_all

theorem timerPoll_polled (h : timerPoll k = .ok k') : PolledCore k.toCore k'.toCore := by
  unfold timerPoll at h
  split at h
  · split at h
    · exact pollAndWake_polled h
    · cases h
      exact polledCore_refl _
  · cases h
    exact polledCore_refl _

theorem handleTimer_traps (settled : Settled k.toCore)
    (h : handleTimer k = .ok k') : Traps k.toCore .timer k'.toCore := by
  unfold handleTimer at h
  obtain ⟨k₁, polled, h⟩ := bind_ok h
  have woken : PolledCore k.toCore k₁.toCore := timerPoll_polled (k := { k with ticks := k.ticks + 1 }) polled
  obtain ⟨procs, same, woken⟩ := woken
  have changes : ∀ q, Change k.toCore .timer q (procs q) := fun q => polled_change (by nofun) (woken q)
  dsimp only at h
  rw [same] at h
  split at h
  · rename_i mode
    have mode : k.inUser := by simpa [Core.inUser] using mode
    have own : procs k.currentPid = k.procs k.currentPid := by
      rcases woken k.currentPid with unchanged | ⟨blocked, -⟩
      · exact unchanged
      · rw [(settled.running mode).1] at blocked
        cases blocked
    cases h
    exact preempt_traps mode changes own
  · rename_i mode
    have mode : k.frame.spp = true := by simpa using mode
    cases h
    refine scheduleFromIdle_traps ?_ nofun changes
    rw [settled.idle mode]
    nofun

theorem handleExternal_traps {irq : Nat} (settled : Settled k.toCore) (h : handleExternal k irq = .ok k') :
    Traps k.toCore (.external irq) k'.toCore := by
  have unchanged : Traps k.toCore (.external irq) k.toCore :=
    traps_resume (fun _ => change_keep) id (.interrupted nofun)
  unfold handleExternal at h
  dsimp only at h
  split at h
  · cases h
    exact unchanged
  split at h
  · rename_i owned
    have owner : irqOwner { k with plic := k.plic.claim irq } irq = k.irqOwner irq := by
      unfold irqOwner at owned ⊢
      split at owned
      · exact absurd rfl owned
      · rename_i valid
        rw [if_neg valid]
    rw [owner] at h
    obtain ⟨procs, notified, changes, stays⟩ := irqNotify_change (c := k.toCore) irq settled.cases
    rw [notified] at h
    split at h
    · rename_i mode
      cases h
      refine scheduleFromIdle_traps ?_ nofun changes
      rw [settled.idle mode]
      nofun
    · cases h
      exact traps_resume changes (fun running => stays.trans running) (.interrupted nofun)
  split at h
  · cases h
    exact unchanged
  split at h
  · split at h
    · obtain ⟨k₁, polled, h⟩ := bind_ok h
      cases h
      have woken : PolledCore k.toCore k₁.toCore :=
        pollAndWake_polled (k := { k with plic := k.plic.claim irq }) polled
      obtain ⟨procs, same, woken⟩ := woken
      change Traps k.toCore (.external irq) k₁.toCore
      rw [same]
      have changes : ∀ q, Change k.toCore (.external irq) q (procs q) := fun q => polled_change (by nofun) (woken q)
      refine traps_resume changes (fun running => ?_) (.interrupted nofun)
      rcases woken k.currentPid with unchanged | ⟨blocked, -⟩
      · rw [unchanged]
        exact running
      · have running : (k.procs k.currentPid).state = .running := running
        rw [blocked] at running
        cases running
    · cases h
      exact unchanged
  · cases h
    exact unchanged

/-- Every trap is a change of the slots followed by a dispatch. -/
theorem trapHandler_traps {t : Trap} (settled : Settled k.toCore) (mode : t = .ecall → k.inUser)
    (range : k.inUser → 1 ≤ k.currentPid ∧ k.currentPid < maxProcs)
    (h : trapHandler k t = .ok k') : Traps k.toCore t k'.toCore := by
  cases t with
  | timer => exact handleTimer_traps settled h
  | external irq => exact handleExternal_traps settled h
  | unhandled code =>
    cases h
    exact traps_resume (fun _ => change_keep) id (.interrupted nofun)
  | ecall =>
    exact handleEcall_traps (settled.running (mode rfl)).1 (range (mode rfl)) h
  | fault code =>
    simp only [trapHandler] at h
    split at h
    · obtain ⟨c, handled, rfl⟩ := onCore_ok h
      exact killCurrent_traps handled
    · cases h

end Kernel

end GooseOs.Slot
