import GooseOs.Machine.Reference
import GooseOs.Memory.Launch
import GooseOs.Process.Threads

/-!
The greeting: init sends it to the UART server one character at a time, by SYS_CALL. Whatever interrupts the two
programs, the server writes its characters in order and each of them once.
-/

namespace GooseOs.UserPrograms
open Slot Sched Ipc Lifecycle Trap Security
variable [Platform]

/-! ### The two processes -/

/-- The process table, as init sees it with `n` characters answered; `calling` while it waits for an answer. -/
inductive InitIs (a : Assembled) (c : Core) (n : Nat) : Bool → Prop where
  | active {f : TrapFrame} {i : Nat} (active : Active c 1 f) (here : InitAt a.init a.initBase n f i) : InitIs a c n false
  | calling (state : (c.procs 1).state = .blockedCall) (target : (c.procs 1).ipcTarget = 2)
      (value : (c.procs 1).ipcValue = charOf n) (here : InitAt a.init a.initBase (n + 1) (c.procs 1).context 8) :
      InitIs a c n true
  | ended (free : (c.procs 1).state = .free) (sent : n < userInit.string.length) : InitIs a c n false

/-- The server, with what it holds of a client. -/
inductive ServerIs (a : Assembled) (c : Core) (h : Hand) : Prop where
  | active {f : TrapFrame} {i : Nat} (active : Active c 2 f) (here : ServerAt a.server a.serverBase f i)
      (holds : hand f i = h)
  | waiting (state : (c.procs 2).state = .blockedRecv) (anyone : (c.procs 2).ipcTarget = 0)
      (here : ServerAt a.server a.serverBase (c.procs 2).context 9) (holds : h = .empty)
  | ended (free : (c.procs 2).state = .free)

/-- How far the characters are: what has been answered, what the server holds and what is written. -/
inductive Agrees (n : Nat) : Bool → Hand → List Byte → Prop where
  | between : Agrees n false .empty (userInit.string.take n)
  | offered : Agrees n true .empty (userInit.string.take n)
  | received : Agrees n true (.received (charOf n) 1) (userInit.string.take n)
  | written : Agrees n true (.written 1) (userInit.string.take (n + 1))

omit [Platform] in
theorem Agrees.of_answered {n : Nat} {h : Hand} {out : List Byte} (agrees : Agrees n false h out) :
    h = .empty ∧ out = userInit.string.take n := by
  cases agrees
  exact ⟨rfl, rfl⟩

omit [Platform] in
theorem Agrees.of_received {n : Nat} {calling : Bool} {v s : Word} {out : List Byte}
    (agrees : Agrees n calling (.received v s) out) :
    calling = true ∧ v = charOf n ∧ s = 1 ∧ out = userInit.string.take n := by
  cases agrees
  exact ⟨rfl, rfl, rfl, rfl⟩

omit [Platform] in
theorem Agrees.of_written {n : Nat} {calling : Bool} {s : Word} {out : List Byte} (agrees : Agrees n calling (.written s) out) :
    calling = true ∧ s = 1 ∧ out = userInit.string.take (n + 1) := by
  cases agrees
  exact ⟨rfl, rfl, rfl⟩

structure Greets (a : Assembled) (init server : Word) (k : Kernel) (out : List Byte) : Prop where
  mapped : Mapped a k.vm.mem init server
  initTable : (k.procs 1).state ≠ .free → (k.procs 1).satp = init
  serverTable : (k.procs 2).state ≠ .free → (k.procs 2).satp = server
  rest : ∀ q, q ≠ 1 → q ≠ 2 → (k.procs q).state = .free
  pair : ∃ n calling h, InitIs a k.toCore n calling ∧ ServerIs a k.toCore h ∧ Agrees n calling h out

section Core
variable {a : Assembled} {c c' : Core} {t : Trap} {n : Nat} {calling : Bool} {h : Hand}

theorem InitIs.state (cons : Consistent c) (is : InitIs a c n calling) :
    (c.procs 1).state = .running ∨ (c.procs 1).state = .ready ∨ (c.procs 1).state = .blockedCall ∨
      (c.procs 1).state = .free := by
  cases is with
  | active active => exact (active.state cons).imp id Or.inl
  | calling state => exact .inr (.inr (.inl state))
  | ended free => exact .inr (.inr (.inr free))

theorem ServerIs.state (cons : Consistent c) (is : ServerIs a c h) :
    (c.procs 2).state = .running ∨ (c.procs 2).state = .ready ∨ (c.procs 2).state = .blockedRecv ∨
      (c.procs 2).state = .free := by
  cases is with
  | active active => exact (active.state cons).imp id Or.inl
  | waiting state => exact .inr (.inr (.inl state))
  | ended free => exact .inr (.inr (.inr free))

theorem InitIs.sent (is : InitIs a c n calling) : n < userInit.string.length := by
  cases is with
  | active _ here => exact here.sent
  | calling _ _ _ here => exact Nat.lt_of_succ_lt here.sent
  | ended _ sent => exact sent

/-- init is where the running registers say it is. -/
theorem InitIs.here (cons : Consistent c) (mode : c.inUser) (pid : c.currentPid = 1) (is : InitIs a c n calling) :
    calling = false ∧ ∃ i, InitAt a.init a.initBase n c.frame i := by
  have running := (cons.running mode).1
  rw [pid] at running
  cases is with
  | active active here =>
    obtain rfl := active.frame_eq cons mode pid
    exact ⟨rfl, _, here⟩
  | calling state => exact absurd (running.symm.trans state) nofun
  | ended free => exact absurd (running.symm.trans free) nofun

theorem ServerIs.here (cons : Consistent c) (mode : c.inUser) (pid : c.currentPid = 2) (is : ServerIs a c h) :
    ∃ i, ServerAt a.server a.serverBase c.frame i ∧ hand c.frame i = h := by
  have running := (cons.running mode).1
  rw [pid] at running
  cases is with
  | active active here holds =>
    obtain rfl := active.frame_eq cons mode pid
    exact ⟨_, here, holds⟩
  | waiting state => exact absurd (running.symm.trans state) nofun
  | ended free => exact absurd (running.symm.trans free) nofun

/-! ### Steps of others -/

theorem InitIs.congr (is : InitIs a c n calling) (procs : c'.procs = c.procs) (pid : c'.currentPid = c.currentPid)
    (frame : c.inUser → c.currentPid = 1 → c'.frame = c.frame) : InitIs a c' n calling := by
  cases is with
  | active active here => exact .active (active.congr procs pid frame) here
  | calling state target value here =>
    rw [← procs] at state target value here
    exact .calling state target value here
  | ended free sent => exact .ended (by rw [procs]; exact free) sent

theorem ServerIs.congr (is : ServerIs a c h) (procs : c'.procs = c.procs) (pid : c'.currentPid = c.currentPid)
    (frame : c.inUser → c.currentPid = 2 → c'.frame = c.frame) : ServerIs a c' h := by
  cases is with
  | active active here holds => exact .active (active.congr procs pid frame) here holds
  | waiting state anyone here holds =>
    rw [← procs] at state anyone here
    exact .waiting state anyone here holds
  | ended free => exact .ended (by rw [procs]; exact free)

/-- An interrupt, or a system call of another process that does not answer init's call, leaves init where it is. -/
theorem InitIs.traps (cons : Consistent c) (mode : t = .ecall → c.inUser) (traps : Traps c t c')
    (other : t = .ecall → 1 ≠ c.currentPid ∧ c.frame.a7.toNat ≠ sysYieldNo ∧ c.frame.a7.toNat ≠ sysReplyNo ∧
      c.frame.a7.toNat ≠ sysSpawnNo) (is : InitIs a c n calling) : InitIs a c' n calling := by
  cases is with
  | active active here =>
    rcases active.traps cons mode traps fun call => ⟨(other call).1, (other call).2.1⟩ with still | ⟨-, -, free⟩
    · exact .active still here
    · exact .ended free here.sent
  | calling state target value here =>
    rcases traps_woken cons mode traps (.inr (.inr (.inl state))) fun call => (other call).2.1 with kept | ⟨f, cause, -⟩
    · refine .calling (kept.state.trans state) (kept.ipcTarget.trans target) (kept.ipcValue.trans value) ?_
      rw [kept.context]
      exact here
    · cases cause with
      | send _ _ wanted => exact absurd ((wantsFrom_state wanted).symm.trans state) nofun
      | call _ _ _ wanted => exact absurd ((wantsFrom_state wanted).symm.trans state) nofun
      | receive _ _ _ sender => exact absurd (sender.symm.trans state) nofun
      | reply number => exact absurd number (other rfl).2.2.1
      | exit _ waiter => exact absurd (waiter.symm.trans state) nofun
      | irq _ receiver => exact absurd (receiver.symm.trans state) nofun
  | ended free sent => exact .ended (traps_free cons mode traps (fun call => (other call).2.2.2) free) sent

/-- An interrupt, or a system call of another process that sends nothing, leaves the server with what it holds. -/
theorem ServerIs.traps (cons : Consistent c) (mode : t = .ecall → c.inUser) (traps : Traps c t c')
    (other : t = .ecall → 2 ≠ c.currentPid ∧ c.frame.a7.toNat = sysExitNo) (is : ServerIs a c h) : ServerIs a c' h := by
  have number : ∀ m, m ≠ sysExitNo → t = .ecall → c.frame.a7.toNat ≠ m := by
    intro m apart call same
    exact apart (same.symm.trans (other call).2)
  cases is with
  | active active here holds =>
    rcases active.traps cons mode traps fun call => ⟨(other call).1, number _ (by decide) call⟩ with still | ⟨-, -, free⟩
    · exact .active still here holds
    · exact .ended free
  | waiting state anyone here holds =>
    rcases traps_woken cons mode traps (.inr (.inl state)) (number _ (by decide)) with kept | ⟨f, cause, active⟩
    · refine .waiting (kept.state.trans state) (kept.ipcTarget.trans anyone) ?_ holds
      rw [kept.context]
      exact here
    · cases cause with
      | send made => exact absurd made (number _ (by decide) rfl)
      | call made => exact absurd made (number _ (by decide) rfl)
      | receive _ _ _ sender => exact absurd (sender.symm.trans state) nofun
      | reply _ _ caller => exact absurd (caller.symm.trans state) nofun
      | exit _ waiter => exact absurd (waiter.symm.trans state) nofun
      | irq => exact .active active ⟨here.bound, here.pc, here.uart, trivial⟩ holds.symm
  | ended free => exact .ended (traps_free cons mode traps (number _ (by decide)) free)

end Core

/-! ### System calls -/

section Calls
variable {a : Assembled} {c c' : Core} {n : Nat} {calling : Bool} {h : Hand} {out : List Byte}

omit [Platform] in
/-- A character that is sent is not the last of the string. -/
theorem charOf_next (sent : n < userInit.string.length) (nonzero : charOf n ≠ 0) : n + 1 < userInit.string.length := by
  by_contra last
  have size : userInit.string.length = 29 := by decide
  obtain rfl : n = 28 := by omega
  exact nonzero (by decide)

omit [Platform] in
/-- Past an `ecall` the program stands at the next position. -/
theorem past_ecall {p : Program} {l : Layout p} {base : Word} {f : TrapFrame} {i : Nat} (pc : f.sepc = base + l.offset i)
    (call : p.code[i]? = some .ecall) : f.advance.sepc = base + l.offset (i + 1) := by
  rw [l.ecall i call, ← BitVec.add_assoc, ← pc]
  rfl

/-- SYS_CALL by init: it waits, and a server that was waiting has the character. -/
theorem call_greets (cons : Consistent c) (mode : c.inUser) (pid : c.currentPid = 1)
    (here : InitAt a.init a.initBase n c.frame 7) (server : ServerIs a c .empty)
    (handled : Ipc.sysCall c = .ok c') (traps : Traps c .ecall c') :
    ∃ h, InitIs a c' n true ∧ ServerIs a c' h ∧ Agrees n true h (userInit.string.take n) := by
  obtain ⟨char, nonzero, number, target, value⟩ := here.holds
  have goal : c.frame.a0.toNat = 2 := by rw [target]; rfl
  have valid : isValidIpcTarget c.frame.a0.toNat c.currentPid = true := by rw [goal, pid]; decide
  have calm : c.frame.a7.toNat ≠ sysYieldNo ∧ c.frame.a7.toNat ≠ sysSpawnNo := by rw [number]; decide
  have other : (2 : Nat) ≠ c.currentPid := by rw [pid]; decide
  have init : InitIs a c' n true := by
    have parked := sysCall_parked handled valid
    rw [pid, goal, value] at parked
    have next : InitAt a.init a.initBase (n + 1) c.frame.advance 8 :=
      ⟨past_ecall here.pc rfl, charOf_next here.sent nonzero, (congrArg (· + 1) char).trans charAt_succ⟩
    exact .calling (by rw [parked]) (by rw [parked]) (by rw [parked]) (by rw [parked]; exact next)
  cases server with
  | active active at' holds =>
    rcases active.traps cons (fun _ => mode) traps fun _ => ⟨other, calm.1⟩ with still | ⟨⟨_, fault⟩, -⟩
    · exact ⟨_, init, .active still at' holds, .offered⟩
    · cases fault
  | waiting state anyone at' =>
    have wanted : wantsFrom (c.procs c.frame.a0.toNat) c.currentPid = true := by
      rw [goal, wantsFrom, state, anyone]
      rfl
    obtain ⟨state', ran, after⟩ := sysCall_met handled valid wanted
    rw [goal] at after
    rcases traps_woken cons (fun _ => mode) traps (.inr (.inl state)) fun _ => calm.1 with kept | ⟨f, cause, active⟩
    · have still := kept.state.trans state
      rw [after] at still
      rcases ran with rfl | rfl <;> cases still
    · have woken : f = { (c.procs 2).context with
          a0 := charOf n, a1 := 1, a2 := c.frame.a2, a3 := c.frame.a3 } := by
        cases cause with
        | call => rw [value, pid]; rfl
        | send made => exact absurd (number ▸ made) (by decide)
        | receive made => exact absurd (number ▸ made) (by decide)
        | reply made => exact absurd (number ▸ made) (by decide)
        | exit ends waiter => exact absurd (waiter.symm.trans state) (by decide)
      subst woken
      exact ⟨_, init, .active active ⟨at'.bound, at'.pc, at'.uart, trivial⟩ rfl, .received⟩
  | ended free =>
    exact ⟨.empty, init, .ended (traps_free cons (fun _ => mode) traps (fun _ => calm.2) free), .offered⟩

/-- SYS_EXIT by init. -/
theorem exit_greets (cons : Consistent c) (mode : c.inUser) (pid : c.currentPid = 1)
    (here : InitAt a.init a.initBase n c.frame 12) (traps : Traps c .ecall c') :
    InitIs a c' n false := by
  obtain ⟨last, number⟩ := here.holds
  rcases traps_answered cons mode traps (by rw [number]; decide) with ⟨v, active⟩ | made | made | ⟨-, free⟩
  · rw [pid] at active
    exact .active active ⟨past_ecall here.pc rfl, here.sent, last⟩
  · exact absurd (number ▸ made) (by decide)
  · exact absurd (number ▸ made) (by decide)
  · rw [pid] at free
    exact .ended free here.sent

/-- SYS_IRQ_REGISTER and SYS_IRQ_ACK by the server, which holds nothing. -/
theorem irq_greets {i : Nat} (cons : Consistent c) (mode : c.inUser) (pid : c.currentPid = 2)
    (here : ServerAt a.server a.serverBase c.frame i) (position : i = 3 ∨ i = 52)
    (traps : Traps c .ecall c') : ServerIs a c' .empty := by
  have number : c.frame.a7 = 14 ∨ c.frame.a7 = 15 := by
    rcases position with rfl | rfl
    · exact .inl here.holds
    · exact .inr here.holds
  have quiet : c.frame.a7.toNat ≠ sysYieldNo ∧ c.frame.a7.toNat ≠ sysReceiveNo ∧ c.frame.a7.toNat ≠ sysExitNo ∧
      ¬ (c.frame.a7.toNat = sysSendNo ∨ c.frame.a7.toNat = sysReceiveNo ∨ c.frame.a7.toNat = sysCallNo ∨
        c.frame.a7.toNat = sysWaitNo) := by
    rcases number with number | number <;> (rw [number]; decide)
  rcases traps_answered cons mode traps quiet.1 with ⟨v, active⟩ | made | made | ⟨made, -⟩
  · rw [pid] at active
    have next : ServerAt a.server a.serverBase { c.frame.advance with a0 := v } (i + 1) := by
      rcases position with rfl | rfl
      · exact ⟨by exact (by decide : 4 < 54), past_ecall here.pc rfl, fun _ => here.uart (by decide), trivial⟩
      · exact ⟨by exact (by decide : 53 < 54), past_ecall here.pc rfl, fun _ => here.uart (by decide), trivial⟩
    exact .active active next (by rcases position with rfl | rfl <;> rfl)
  · exact absurd made quiet.2.1
  · exact absurd made quiet.2.2.2
  · exact absurd made quiet.2.2.1

/-- SYS_REPLY by the server: init goes on, with one character more. -/
theorem reply_greets (pid : c.currentPid = 2) (mode : c.inUser) (here : ServerAt a.server a.serverBase c.frame 19)
    (client : c.frame.a0 = 1) (init : InitIs a c n true) (handled : sysReply c = .ok c') :
    InitIs a c' (n + 1) false ∧ ServerIs a c' .empty := by
  have goal : c.frame.a0.toNat = 1 := by rw [client]; rfl
  have valid : isValidIpcTarget c.frame.a0.toNat c.currentPid = true := by rw [goal, pid]; decide
  cases init with
  | calling state target value at' =>
    have answered := sysReply_accepted handled valid (by rw [goal]; exact state) (by rw [goal, pid]; exact target)
    rw [goal] at answered
    have slot : c'.procs 1 = { c.procs 1 with
        context := { (c.procs 1).context with a0 := c.frame.a1 }, state := .ready } := by
      rw [answered, Core.setA0_procs, Core.modify_procs, Function.update_self, Core.advance_procs]
    have frame : c'.frame = { c.frame.advance with a0 := 0 } := by rw [answered]; rfl
    have same : c'.currentPid = 2 := by rw [answered]; exact pid
    constructor
    · refine .active (.ready (by rw [slot]) rfl) ?_ (i := 8)
      rw [slot]
      exact ⟨at'.pc, at'.sent, at'.holds⟩
    · refine .active (.running (by rw [Core.inUser, frame]; exact mode) same rfl) ?_ (i := 20) rfl
      rw [frame]
      exact ⟨by exact (by decide : 20 < 54), past_ecall here.pc rfl, fun _ => here.uart (by decide), trivial⟩

/-- SYS_RECEIVE by the server. -/
theorem receive_greets (cons : Consistent c) (mode : c.inUser) (pid : c.currentPid = 2)
    (rest : ∀ q, q ≠ 1 → q ≠ 2 → (c.procs q).state = .free) (here : ServerAt a.server a.serverBase c.frame 8)
    (init : InitIs a c n calling) (agrees : Agrees n calling .empty out)
    (handled : sysReceive c = .ok c') (traps : Traps c .ecall c') :
    InitIs a c' n calling ∧ ∃ h, ServerIs a c' h ∧ Agrees n calling h out := by
  obtain ⟨number, anyone⟩ := here.holds
  have any : c.frame.a0.toNat = 0 := by rw [anyone]; rfl
  have running : (c.procs 2).state = .running := pid ▸ (cons.running mode).1
  have still : InitIs a c' n calling := by
    refine init.traps cons (fun _ => mode) traps fun _ => ⟨by rw [pid]; decide, ?_⟩
    rw [number]
    decide
  refine ⟨still, ?_⟩
  have next : ∀ v s : Word, ServerAt a.server a.serverBase { c.frame.advance with a0 := v, a1 := s } 9 := fun v s =>
    ⟨by exact (by decide : 9 < 54), past_ecall here.pc rfl, fun _ => here.uart (by decide), trivial⟩
  unfold sysReceive at handled
  dsimp only at handled
  split at handled
  · cases handled
    exact ⟨_, .active (.running mode pid rfl) (next _ _) rfl, agrees⟩
  split at handled
  · rename_i q found
    have sender := List.find?_some (show findSender c.procs c.currentPid c.frame.a0.toNat = some q from found)
    simp only [isSenderTo, Bool.and_eq_true, Bool.or_eq_true, beq_iff_eq] at sender
    have client : q = 1 := by
      by_contra other
      by_cases own : q = 2
      · subst own
        rw [running] at sender
        rcases sender.1.1 with state | state <;> cases state
      · rw [rest q other own] at sender
        rcases sender.1.1 with state | state <;> cases state
    subst client
    cases init with
    | calling state _ value =>
      rw [if_neg (by simp [state])] at handled
      cases handled
      refine ⟨_, .active (.running mode pid rfl) (next _ _) rfl, ?_⟩
      rw [show hand _ 9 = Hand.received (c.procs 1).ipcValue 1 from rfl, value]
      cases agrees
      exact .received
    | active active =>
      rcases active.state cons with state | state <;> (rw [state] at sender; rcases sender.1.1 with h | h <;> cases h)
    | ended free =>
      rw [free] at sender
      rcases sender.1.1 with h | h <;> cases h
  · have parked := schedule_own handled (by simp)
    have slot : c'.procs 2 = { c.procs 2 with ipcTarget := 0, state := .blockedRecv, context := c.frame.advance } := by
      rw [show c.advance.currentPid = 2 from pid] at parked
      rw [parked]
      simp [any]
    refine ⟨.empty, .waiting (by rw [slot]) (by rw [slot]) ?_ rfl, agrees⟩
    rw [slot]
    exact ⟨by exact (by decide : 9 < 54), past_ecall here.pc rfl, fun _ => here.uart (by decide), trivial⟩

end Calls

/-! ### Steps -/

section Memory
variable {k k' : Kernel} {n : Net} {t : Trap}

open NetServer in
/-- While nobody waits for the network a poll wakes nobody. -/
theorem wakeBlocked_quiet (quiet : ∀ q, (k.procs q).state ≠ .blockedNet) : wakeBlocked k = .ok k := by
  have each : ∀ q, wakeOne k q = .ok k := by
    intro q
    unfold wakeOne
    split
    · rfl
    · rw [if_pos (quiet q)]
  unfold wakeBlocked
  induction pids with
  | nil => rfl
  | cons q rest ih =>
    rw [List.foldlM_cons, each, ok_bind]
    exact ih

open NetServer in
theorem pollAndWake_mem (h : pollAndWake k n = .ok k') (quiet : ∀ q, (k.procs q).state ≠ .blockedNet) :
    k'.vm = k.vm := by
  have calm := wakeBlocked_quiet (k := { k with net := some (poll n (nowMs k)) }) quiet
  obtain rfl := Except.ok.inj (calm.symm.trans h)
  rfl

/-- An interrupt or a fault leaves memory alone while nobody waits for the network. -/
theorem interrupt_mem (quiet : ∀ q, (k.procs q).state ≠ .blockedNet) (interrupt : t ≠ .ecall)
    (handled : Trap.trapHandler k t = .ok k') : k'.vm = k.vm := by
  cases t with
  | timer =>
    obtain ⟨k₁, polled, after⟩ := bind_ok handled
    have same : k₁.vm = k.vm := by
      unfold timerPoll at polled
      split at polled
      · split at polled
        · have same := pollAndWake_mem polled quiet
          exact same
        · cases polled
          rfl
      · cases polled
        rfl
    split at after <;> (cases after; exact same)
  | external irq =>
    change handleExternal k irq = .ok k' at handled
    unfold handleExternal at handled
    split at handled
    · cases handled
      rfl
    dsimp only at handled
    split at handled
    · split at handled <;> (cases handled; rfl)
    split at handled
    · cases handled
      rfl
    split at handled
    · split at handled
      · obtain ⟨k₁, polled, after⟩ := bind_ok handled
        have same := pollAndWake_mem polled quiet
        cases after
        exact same
      · cases handled
        rfl
    · cases handled
      rfl
  | unhandled =>
    cases handled
    rfl
  | ecall => exact absurd rfl interrupt
  | fault code =>
    change (if !k.frame.spp then _ else _) = _ at handled
    split at handled
    · obtain ⟨c, -, same⟩ := onCore_ok handled
      rw [same]
    · cases handled

/-- So do the system calls the programs make. -/
theorem call_mem (number : k.frame.a7.toNat ∈ [sysExitNo, sysReceiveNo, sysCallNo, sysReplyNo, sysIrqRegisterNo, sysIrqAckNo])
    (direct : k.frame.a0.toNat ≠ NetServer.netServerPid ∨ k.frame.a7.toNat ≠ sysCallNo)
    (handled : handleEcall k = .ok k') : k'.vm = k.vm := by
  have core : ∀ {f : Core → Result Core}, k.onCore f = .ok k' → k'.vm = k.vm := by
    intro f ran
    obtain ⟨c, -, same⟩ := onCore_ok ran
    rw [same]
  simp only [List.mem_cons, List.not_mem_nil, or_false] at number
  unfold handleEcall at handled
  rcases number with number | number | number | number | number | number <;> rw [number] at handled <;> dsimp only at handled
  · cases handled
    rfl
  · exact core handled
  · refine core (f := Ipc.sysCall) ?_
    unfold sysCallEntry at handled
    rwa [if_neg fun server => direct.elim (absurd server.2) (absurd number)] at handled
  · exact core handled
  · cases handled
    unfold Syscall.sysIrqRegister
    dsimp only
    split
    · rfl
    split <;> rfl
  · cases handled
    unfold Syscall.sysIrqAck
    dsimp only
    split <;> rfl

end Memory

/-- The byte a step stores to the UART for a client. -/
def sends (a : Assembled) (k : Kernel) (l : Label) : Option Byte :=
  if l = .user ∧ k.currentPid = 2 ∧ k.frame.sepc = a.serverBase + a.server.offset uartTxStore then
    some (k.frame.s2.setWidth 8)
  else none

section Step
variable {a : Assembled} {k k' : Kernel} {l : Label} {t : Trap} {out : List Byte} {init server : Word} {i : Nat}
  {instr : Instr}

omit [Platform] in
theorem charOf_getElem {n : Nat} (bound : n < userInit.string.length) :
    charOf n = (userInit.string[n]).setWidth 64 := by
  simp [charOf, bound]

omit [Platform] in
theorem init_stores_nothing (code : userInit.code[i]? = some instr) : ∀ rs off base, instr ≠ .sb rs off base := by
  have member := List.mem_of_getElem? code
  simp only [userInit, List.mem_cons, List.not_mem_nil, or_false] at member
  rintro rs off base rfl
  simp at member

omit [Platform] in
theorem init_calls (code : userInit.code[i]? = some .ecall) (bound : i < userInit.code.length) : i = 7 ∨ i = 12 := by
  replace bound : i < 14 := bound
  interval_cases i <;> first | exact .inl rfl | exact .inr rfl | cases code

/-- An instruction of init. -/
theorem init_greets (cons : Consistent k.toCore) (greets : Greets a init server k out) (mode : k.inUser)
    (pid : k.currentPid = 1) (runs : Executes a.init a.initBase i instr k k') : Greets a init server k' out := by
  obtain ⟨mapped, initTable, serverTable, rest, n, calling, h, initIs, serverIs, agrees⟩ := greets
  obtain ⟨rfl, j, here⟩ := initIs.here cons mode pid
  obtain rfl := runs.position here.bound here.pc
  obtain ⟨code, -, b, m, access, rfl⟩ := runs
  have running : (k.procs 1).state = .running := pid ▸ (cons.running mode).1
  have table : k.satp = init := by
    rw [cons.table mode, pid, initTable (by rw [running]; nofun)]
  have memory : m = k.vm.mem := by
    cases access with
    | store => exact absurd rfl (init_stores_nothing code _ _ _)
    | load | none => rfl
  have value : i = initSendLoop → b.setWidth 64 = charOf n := by
    rintro rfl
    cases code
    cases access with
    | load walked user read value =>
      obtain ⟨w, found, plain, byte⟩ := mapped.greeting n here.sent
      have address : Reg.get k.frame .s0 + 0 = charAt a.init a.initBase n := (BitVec.add_zero _).trans here.holds
      rw [address, table, found] at walked
      cases walked
      rw [value plain, byte, charOf_getElem here.sent]
    | none computes => cases computes
  obtain ⟨j, next⟩ := here.exec code access.not_ecall value
  subst memory
  refine ⟨mapped, initTable, serverTable, rest, n, false, h, .active (.running ?_ pid rfl) next, ?_, agrees⟩
  · exact exec_spp.trans mode
  · exact serverIs.congr rfl rfl fun _ own => absurd (own.symm.trans pid) (by decide)

/-- The server stores to the UART only. -/
theorem server_stores {rs base : Reg} {off : Word} (code : uartServer.code[i]? = some (.sb rs off base)) :
    i ≠ 0 ∧ base = .s0 ∧ off.toNat < pageSize := by
  have member := List.mem_of_getElem? code
  have late : i ≠ 0 := by
    rintro rfl
    cases code
  refine ⟨late, ?_⟩
  simp only [uartServer, List.mem_cons, List.not_mem_nil, or_false, Instr.sb.injEq, reduceCtorEq, false_or] at member
  have small : uartIerOff.toNat < pageSize := by
    unfold uartIerOff
    split <;> decide
  rcases member with ⟨-, rfl, rfl⟩ | ⟨-, rfl, rfl⟩ | ⟨-, rfl, rfl⟩ | ⟨-, rfl, rfl⟩ | ⟨-, rfl, rfl⟩
  · exact ⟨rfl, small⟩
  all_goals exact ⟨rfl, by decide⟩

/-- An instruction of the server. -/
theorem server_greets (cons : Consistent k.toCore) (greets : Greets a init server k out) (mode : k.inUser)
    (pid : k.currentPid = 2) (runs : Executes a.server a.serverBase i instr k k') :
    Greets a init server k' (out ++ (sends a k .user).toList) := by
  obtain ⟨mapped, initTable, serverTable, rest, n, calling, h, initIs, serverIs, agrees⟩ := greets
  obtain ⟨j, here, holds⟩ := serverIs.here cons mode pid
  obtain rfl := runs.position here.bound here.pc
  have sent : sends a k .user = if i = uartTxStore then some (k.frame.s2.setWidth 8) else none := by
    unfold sends
    refine if_congr ⟨fun stands => ?_, ?_⟩ rfl rfl
    · exact runs.position (by exact (by decide : 15 < 54)) stands.2.2
    · rintro rfl
      exact ⟨rfl, pid, runs.pc⟩
  obtain ⟨code, -, b, m, access, rfl⟩ := runs
  have running : (k.procs 2).state = .running := pid ▸ (cons.running mode).1
  have table : k.satp = server := by
    rw [cons.table mode, pid, serverTable (by rw [running]; nofun)]
  have memory : m = k.vm.mem := by
    cases access with
    | store walked =>
      obtain ⟨late, rfl, small⟩ := server_stores code
      obtain ⟨w, found, uart⟩ := mapped.uart _ small
      rw [show Reg.get k.frame .s0 = 0x5E000000 from here.uart late, table, found] at walked
      cases walked
      exact if_pos uart
    | load | none => rfl
  obtain ⟨j, next, held⟩ := here.exec code access.not_ecall (b := b)
  subst memory
  have moved : ∀ {h'}, hand (instr.exec a.server a.serverBase i b k.frame) j = h' →
      ServerIs a { k.toCore with frame := instr.exec a.server a.serverBase i b k.frame } h' :=
    fun same => .active (.running (exec_spp.trans mode) pid rfl) next same
  have kept : InitIs a { k.toCore with frame := instr.exec a.server a.serverBase i b k.frame } n calling :=
    initIs.congr rfl rfl fun _ own => absurd (own.symm.trans pid) (by decide)
  refine ⟨mapped, initTable, serverTable, rest, n, calling, ?_⟩
  rw [sent]
  split at held
  · rename_i store
    rw [if_pos store]
    obtain ⟨received, written⟩ := held
    rw [holds] at received
    subst received
    obtain ⟨rfl, char, client, rfl⟩ := agrees.of_received
    refine ⟨.written 1, kept, moved (by rw [written, client]), ?_⟩
    have bound := initIs.sent
    rw [char, charOf_getElem bound, Option.toList_some, BitVec.setWidth_setWidth_of_le _ (by decide), BitVec.setWidth_eq,
      List.take_append_getElem bound]
    exact .written
  · rename_i other
    rw [if_neg other]
    exact ⟨h, kept, moved (held.trans holds), by simpa using agrees⟩

/-- What a trap leaves to show: memory, tables and the other slots stay. -/
theorem Greets.of_traps {out' : List Byte} (greets : Greets a init server k out) (cons : Consistent k.toCore)
    (mode : t = .ecall → k.inUser) (traps : Traps k.toCore t k'.toCore) (none : t = .ecall → k.frame.a7.toNat ≠ sysSpawnNo)
    (memory : k'.vm = k.vm) (pair : ∃ n calling h, InitIs a k'.toCore n calling ∧ ServerIs a k'.toCore h ∧
      Agrees n calling h out') : Greets a init server k' out' := by
  have table : ∀ p satp, ((k.procs p).state ≠ .free → (k.procs p).satp = satp) → (k'.procs p).state ≠ .free →
      (k'.procs p).satp = satp := by
    intro p satp before live
    have used : (k.procs p).state ≠ .free := fun free => live (traps_free cons mode traps none free)
    exact (traps_satp traps used).trans (before used)
  exact {
    mapped := by rw [memory]; exact greets.mapped
    initTable := table 1 init greets.initTable
    serverTable := table 2 server greets.serverTable
    rest := fun q first second => traps_free cons mode traps none (greets.rest q first second)
    pair := pair }

theorem Greets.quiet (greets : Greets a init server k out) (cons : Consistent k.toCore) (q : Nat) :
    (k.procs q).state ≠ .blockedNet := by
  obtain ⟨n, calling, h, initIs, serverIs, -⟩ := greets.pair
  by_cases first : q = 1
  · subst first
    rcases initIs.state cons with state | state | state | state <;> rw [state] <;> nofun
  by_cases second : q = 2
  · subst second
    rcases serverIs.state cons with state | state | state | state <;> rw [state] <;> nofun
  rw [greets.rest q first second]
  nofun

/-- Interrupts and faults. -/
theorem interrupt_greets (cons : Consistent k.toCore) (greets : Greets a init server k out) (interrupt : t ≠ .ecall)
    (traps : Traps k.toCore t k'.toCore) (handled : Trap.trapHandler k t = .ok k') : Greets a init server k' out := by
  have no : ∀ {P : Prop}, t = .ecall → P := fun call => absurd call interrupt
  obtain ⟨n, calling, h, initIs, serverIs, agrees⟩ := greets.pair
  refine greets.of_traps cons no traps no (interrupt_mem (greets.quiet cons) interrupt handled) ⟨n, calling, h, ?_, ?_, agrees⟩
  · exact initIs.traps cons no traps no
  · exact serverIs.traps cons no traps no

/-- init's system calls. -/
theorem initCall_greets (cons : Consistent k.toCore) (greets : Greets a init server k out) (mode : k.inUser)
    (pid : k.currentPid = 1) (code : userInit.code[i]? = some .ecall) (pc : k.frame.sepc = a.initBase + a.init.offset i)
    (traps : Traps k.toCore .ecall k'.toCore) (handled : handleEcall k = .ok k') : Greets a init server k' out := by
  obtain ⟨n, calling, h, initIs, serverIs, agrees⟩ := greets.pair
  obtain ⟨rfl, j, here⟩ := initIs.here cons mode pid
  obtain rfl : i = j := a.init.apart i j (List.getElem?_eq_some_iff.mp code).1 here.bound
    ((BitVec.add_right_inj _).mp (pc.symm.trans here.pc))
  obtain ⟨rfl, rfl⟩ := agrees.of_answered
  rcases init_calls code here.bound with rfl | rfl
  · obtain ⟨-, -, number, target, -⟩ := here.holds
    have direct : k.frame.a0.toNat ≠ NetServer.netServerPid := by rw [target]; decide
    obtain ⟨c, ran, after⟩ : ∃ c, Ipc.sysCall k.toCore = .ok c ∧ k' = { k with toCore := c } := by
      refine onCore_ok ?_
      rw [← handled, handleEcall, number]
      exact (if_neg fun server => direct server.2).symm
    obtain ⟨h, next⟩ := call_greets cons mode pid here serverIs (by rw [after]; exact ran) traps
    refine greets.of_traps cons (fun _ => mode) traps (fun _ => by rw [number]; decide) ?_ ⟨n, true, h, next⟩
    rw [after]
  · obtain ⟨-, number⟩ := here.holds
    refine greets.of_traps cons (fun _ => mode) traps (fun _ => by rw [number]; decide) ?_
      ⟨n, false, .empty, exit_greets cons mode pid here traps, ?_, .between⟩
    · exact call_mem (by rw [number]; decide) (.inr (by rw [number]; decide)) handled
    · exact serverIs.traps cons (fun _ => mode) traps fun _ => ⟨by rw [pid]; decide, by rw [number]; rfl⟩

/-- The server's system calls. -/
theorem serverCall_greets (cons : Consistent k.toCore) (greets : Greets a init server k out) (mode : k.inUser)
    (pid : k.currentPid = 2) (code : uartServer.code[i]? = some .ecall)
    (pc : k.frame.sepc = a.serverBase + a.server.offset i) (traps : Traps k.toCore .ecall k'.toCore)
    (handled : handleEcall k = .ok k') : Greets a init server k' out := by
  obtain ⟨n, calling, h, initIs, serverIs, agrees⟩ := greets.pair
  obtain ⟨j, here, holds⟩ := serverIs.here cons mode pid
  obtain rfl : i = j := a.server.apart i j (List.getElem?_eq_some_iff.mp code).1 here.bound
    ((BitVec.add_right_inj _).mp (pc.symm.trans here.pc))
  have calls : (i = 3 ∨ i = 52) ∨ i = 8 ∨ i = 19 ∨ i = 38 := by
    have bound : i < 54 := here.bound
    interval_cases i <;> first | omega | cases code
  have apart : (1 : Nat) ≠ k.currentPid := by rw [pid]; decide
  rcases calls with position | rfl | rfl | rfl
  · have number : k.frame.a7 = 14 ∨ k.frame.a7 = 15 := by
      rcases position with rfl | rfl
      · exact .inl here.holds
      · exact .inr here.holds
    have empty : h = .empty := by rcases position with rfl | rfl <;> exact holds.symm
    subst empty
    refine greets.of_traps cons (fun _ => mode) traps (fun _ => ?_) ?_
      ⟨n, calling, .empty, ?_, irq_greets cons mode pid here position traps, agrees⟩
    · rcases number with number | number <;> (rw [number]; decide)
    · refine call_mem ?_ (.inr ?_) handled <;> rcases number with number | number <;> (rw [number]; decide)
    · refine initIs.traps cons (fun _ => mode) traps fun _ => ⟨apart, ?_⟩
      rcases number with number | number <;> (rw [number]; decide)
  · obtain ⟨number, -⟩ := here.holds
    have empty : h = .empty := holds.symm
    subst empty
    obtain ⟨c, ran, after⟩ : ∃ c, sysReceive k.toCore = .ok c ∧ k' = { k with toCore := c } := by
      refine onCore_ok ?_
      rw [← handled, handleEcall, number]
      rfl
    obtain ⟨init', h, server', agrees'⟩ :=
      receive_greets cons mode pid greets.rest here initIs agrees (by rw [after]; exact ran) traps
    refine greets.of_traps cons (fun _ => mode) traps (fun _ => by rw [number]; decide) ?_ ⟨n, calling, h, init', server', agrees'⟩
    rw [after]
  · obtain ⟨number, -⟩ := here.holds
    have written : h = .written k.frame.a0 := holds.symm
    subst written
    obtain ⟨rfl, client, rfl⟩ := agrees.of_written
    obtain ⟨c, ran, after⟩ : ∃ c, sysReply k.toCore = .ok c ∧ k' = { k with toCore := c } := by
      refine onCore_ok ?_
      rw [← handled, handleEcall, number]
      rfl
    have replied : sysReply k.toCore = .ok k'.toCore := by rw [after]; exact ran
    obtain ⟨init', server'⟩ := reply_greets pid mode here client initIs replied
    refine greets.of_traps cons (fun _ => mode) traps (fun _ => by rw [number]; decide) ?_
      ⟨n + 1, false, .empty, init', server', .between⟩
    rw [after]
  · have number : k.frame.a7 = 16 := here.holds
    rw [handleEcall, number] at handled
    cases handled

theorem sends_other (other : l ≠ .user) : sends a k l = none := if_neg fun stores => other stores.1

/-- One step of the machine with the two programs. -/
theorem step_greets (cons : Consistent k.toCore) (greets : Greets a init server k out) (step : ProgramStep a k l k') :
    Greets a init server k' (out ++ (sends a k l).toList) := by
  cases step with
  | init mode pid runs =>
    have none : sends a k .user = none := if_neg fun stores => absurd (pid.symm.trans stores.2.1) (by decide)
    rw [none, Option.toList_none, List.append_nil]
    exact init_greets cons greets mode pid runs
  | server mode pid runs => exact server_greets cons greets mode pid runs
  | ecall call step =>
    have other : Label.trap .ecall ≠ .user := by
      intro same
      cases same
    rw [sends_other other, Option.toList_none, List.append_nil]
    obtain ⟨handled, user⟩ := step_trap step
    have mode := user rfl
    have traps := trapHandler_traps cons.toSettled user cons.current_range handled
    rcases call with ⟨pid, i, code, pc⟩ | ⟨pid, i, code, pc⟩
    · exact initCall_greets cons greets mode pid code pc traps handled
    · exact serverCall_greets cons greets mode pid code pc traps handled
  | kernel user call step =>
    rw [sends_other user, Option.toList_none, List.append_nil]
    by_cases trap : ∃ t, l = .trap t
    · obtain ⟨t, rfl⟩ := trap
      have interrupt : t ≠ .ecall := fun same => call (congrArg Label.trap same)
      obtain ⟨handled, mode⟩ := step_trap step
      exact interrupt_greets cons greets interrupt
        (trapHandler_traps cons.toSettled mode cons.current_range handled) handled
    · -- The idle loop, or a frame from the network: no thread is concerned.
      obtain ⟨mapped, initTable, serverTable, rest, n, calling, h, initIs, serverIs, agrees⟩ := greets
      obtain ⟨procs, pid, -⟩ := step_other step fun t same => trap ⟨t, same⟩
      have frame : k.inUser → k'.frame = k.frame := by
        intro mode
        cases step with
        | user => exact absurd rfl user
        | idle idle => exact absurd (idle.symm.trans mode) nofun
        | frame => rfl
        | _ => exact absurd ⟨_, rfl⟩ trap
      have memory : k'.vm = k.vm := by
        cases step with
        | user => exact absurd rfl user
        | idle | frame => rfl
        | _ => exact absurd ⟨_, rfl⟩ trap
      refine ⟨by rw [memory]; exact mapped, by rw [procs]; exact initTable, by rw [procs]; exact serverTable,
        by rw [procs]; exact rest, n, calling, h, ?_, ?_, agrees⟩
      · exact initIs.congr procs pid fun mode _ => frame mode
      · exact serverIs.congr procs pid fun mode _ => frame mode

theorem ProgramStep.at_ecall (step : ProgramStep a k (.trap .ecall) k') : a.AtEcall k := by
  cases step with
  | ecall call => exact call
  | kernel _ other => exact absurd rfl other

theorem step_user (step : Step k .user k') : k.inUser := by
  cases step with
  | user mode => exact mode

theorem start_greets (starts : Starts a k) : Greets a (k.procs 1).satp (k.procs 2).satp k [] := by
  have started : Boot.Started k.toCore := by
    obtain ⟨env, device, boots, -⟩ := starts.boots
    exact Boot.booted_started ⟨env, device, boots⟩
  refine ⟨starts.mapped, fun _ => rfl, fun _ => rfl, fun q first second => ?_, 0, false, .empty, ?_, ?_, .between⟩
  · rcases started.others q first with empty | ⟨low, -⟩
    · rw [empty]
    · exact absurd low (by omega)
  · refine .active (.running started.user started.pid rfl) (i := 0) ⟨?_, by decide, rfl⟩
    rw [starts.entry, a.init.start]
    exact (BitVec.add_zero _).symm
  · rcases started.others 2 (by decide) with empty | ⟨-, satp, entry, sp, created⟩
    · exact .ended (by rw [empty])
    · refine .active (.ready (by rw [created]; rfl) rfl) (i := 0) ⟨?_, ?_, fun late => absurd rfl late, trivial⟩ rfl
      · exact (by decide : 0 < 54)
      · rw [starts.server, a.server.start]
        exact (BitVec.add_zero _).symm

end Step

/-! ### Runs -/

/-- "Hello from userspace UART!" and a line break, without the terminator. -/
def greeting : List Byte := userInit.string.dropLast

/-- The bytes stored to the UART for a client before step `n`. -/
def transmitted {a : Assembled} (r : ProgramRun a) (n : Nat) : List Byte :=
  (List.range n).filterMap fun i => sends a (r.state i) (r.label i)

/-- Every byte goes to the UART. The greeting comes out in order, each character once, and it is complete when
init exits. -/
structure Greeted {a : Assembled} (r : ProgramRun a) : Prop where
  uart : ∀ n b, n < r.len → sends a (r.state n) (r.label n) = some b →
    ∃ w, translate (r.state n).vm.mem (r.state n).satp (r.state n).frame.s0.toNat = some w ∧ InUart w.phys
  inOrder : ∀ n, n ≤ r.len → transmitted r n <+: greeting
  complete : ∀ n m, r.machine.CallAt n sysExitNo 1 → n ≤ m → m ≤ r.len → transmitted r m = greeting

omit [Platform] in
/-- The terminator is the only zero. -/
theorem charOf_zero {n : Nat} (bound : n < userInit.string.length) (zero : charOf n = 0) : n = 28 := by
  have small : n < 29 := bound
  interval_cases n <;> first | rfl | exact absurd zero (by decide)

omit [Platform] in
theorem greeting_take {n : Nat} (bound : n ≤ 28) : userInit.string.take n = greeting.take n := by
  rw [greeting, List.dropLast_eq_take, List.take_take, Nat.min_eq_left]
  exact bound

section Run
variable {a : Assembled} (r : ProgramRun a) {n m : Nat}

theorem transmitted_succ :
    transmitted r (n + 1) = transmitted r n ++ (sends a (r.state n) (r.label n)).toList := by
  unfold transmitted
  rw [List.range_succ, List.filterMap_append]
  cases sent : sends a (r.state n) (r.label n) <;> simp [sent]

theorem transmitted_prefix (before : n ≤ m) : transmitted r n <+: transmitted r m := by
  induction m, before using Nat.le_induction with
  | base => exact List.prefix_rfl
  | succ m _ ih =>
    rw [transmitted_succ]
    exact ih.trans (List.prefix_append _ _)

theorem ProgramRun.greets (bound : n ≤ r.len) :
    Greets a ((r.state 0).procs 1).satp ((r.state 0).procs 2).satp (r.state n) (transmitted r n) := by
  induction n with
  | zero => exact start_greets r.start
  | succ n ih =>
    have cons : Consistent (r.state n).toCore := r.machine.consistent (Nat.le_of_succ_le bound)
    rw [transmitted_succ]
    exact step_greets cons (ih (Nat.le_of_succ_le bound)) (r.steps n bound)

theorem Greets.front {k : Kernel} {init server : Word} {out : List Byte} (greets : Greets a init server k out) :
    out <+: greeting := by
  obtain ⟨n, calling, h, initIs, serverIs, agrees⟩ := greets.pair
  have sent : n < 29 := initIs.sent
  cases agrees with
  | between | offered | received =>
    rw [greeting_take (Nat.le_of_lt_succ sent)]
    exact List.take_prefix _ _
  | written =>
    cases initIs with
    | calling _ _ _ here =>
      rw [greeting_take (Nat.le_of_lt_succ here.sent)]
      exact List.take_prefix _ _

/-- When init exits it has read the terminator, so the answer to the last character has come. -/
theorem transmitted_complete (exit : r.machine.CallAt n sysExitNo 1) : transmitted r n = greeting := by
  have bound : n < r.len := exit.bound
  have cons : Consistent (r.state n).toCore := r.machine.consistent bound.le
  obtain ⟨sent, calling, h, initIs, -, agrees⟩ := (r.greets bound.le).pair
  obtain ⟨rfl, j, here⟩ := initIs.here cons exit.user exit.caller
  have call : a.AtEcall (r.state n) := by
    have step := r.steps n bound
    rw [show r.label n = .trap .ecall from exit.label] at step
    exact step.at_ecall
  have pid : (r.state n).currentPid = 1 := exit.caller
  have number : (r.state n).frame.a7.toNat = 1 := exit.number
  have last : charOf sent = 0 := by
    rcases call with ⟨-, i, code, pc⟩ | ⟨other, -⟩
    · obtain rfl : i = j := a.init.apart i j (List.getElem?_eq_some_iff.mp code).1 here.bound
        ((BitVec.add_right_inj _).mp (pc.symm.trans here.pc))
      rcases init_calls code here.bound with rfl | rfl
      · rw [here.holds.2.2.1] at number
        cases number
      · exact here.holds.1
    · exact absurd (pid.symm.trans other) (by decide)
  obtain rfl := charOf_zero here.sent last
  exact agrees.of_answered.2.trans (greeting_take (Nat.le_refl _))

theorem stores_to_uart {b : Byte} (bound : n < r.len) (stores : sends a (r.state n) (r.label n) = some b) :
    ∃ w, translate (r.state n).vm.mem (r.state n).satp (r.state n).frame.s0.toNat = some w ∧ InUart w.phys := by
  have cons : Consistent (r.state n).toCore := r.machine.consistent bound.le
  obtain ⟨mapped, -, serverTable, -, sent, calling, h, -, serverIs, -⟩ := r.greets bound.le
  have at_store : r.label n = .user ∧ (r.state n).currentPid = 2 ∧
      (r.state n).frame.sepc = a.serverBase + a.server.offset uartTxStore := by
    by_contra other
    rw [sends, if_neg other] at stores
    cases stores
  obtain ⟨label, pid, pc⟩ := at_store
  have mode : (r.state n).inUser := by
    have step := (r.steps n bound).step
    rw [label] at step
    exact step_user step
  obtain ⟨j, here, -⟩ := serverIs.here cons mode pid
  obtain rfl : uartTxStore = j := a.server.apart _ j (by exact (by decide : 15 < 54)) here.bound
    ((BitVec.add_right_inj _).mp (pc.symm.trans here.pc))
  have running : ((r.state n).procs 2).state = .running := pid ▸ (cons.running mode).1
  have table : (r.state n).satp = ((r.state 0).procs 2).satp := by
    rw [cons.table mode, pid, serverTable (by rw [running]; nofun)]
  have base : (r.state n).frame.s0 = 0x5E000000 + 0 := here.uart (by decide)
  rw [table, base]
  exact mapped.uart 0 (by decide)

theorem greeted : Greeted r where
  uart _ _ bound := stores_to_uart r bound
  inOrder _ bound := (r.greets bound).front
  complete n m exit before bound := by
    have start : greeting <+: transmitted r m := by
      rw [← transmitted_complete r exit]
      exact transmitted_prefix r before
    exact ((r.greets bound).front).eq_of_length_le start.length_le

end Run

end GooseOs.UserPrograms

namespace GooseOs.UserPrograms

/-! ### The first instructions -/

/-- A layout with four bytes for every instruction. -/
def Program.plainLayout (p : Program) (short : p.code.length < 2 ^ 62) : Layout p where
  offset i := BitVec.ofNat 64 (4 * i)
  string := BitVec.ofNat 64 (4 * p.code.length)
  start := rfl
  apart i j first second same := by
    have same := congrArg BitVec.toNat same
    simp only [BitVec.toNat_ofNat] at same
    omega
  ecall i _ := by
    rw [Nat.mul_succ, BitVec.ofNat_add]
    rfl

open Reference
attribute [local instance] Reference.platform

noncomputable def assembled : Assembled where
  init := userInit.plainLayout (by decide)
  server := uartServer.plainLayout (by decide)
  initBase := setup.entry₁
  serverBase := setup.entry₂

theorem assembled_embedded : assembled.Embedded environment.mem where
  text := by decide
  inside := by
    change 56 + 29 ≤ 96
    decide
  string j bound := by
    have here : environment.mem (0x8020_3000 + greetingOffset + j) = userInit.string[j] := by
      simp only [environment]
      rw [if_pos (Nat.le_add_right ..), Nat.add_sub_cancel_left, List.getD, List.getElem?_eq_getElem bound]
      rfl
    exact here

theorem assembled_starts : Starts assembled setup.kernel where
  build := ⟨rfl, rfl⟩
  boots := ⟨environment, nofun, starts.boots, assembled_embedded⟩
  init := rfl
  server := rfl

/-- init computes the address of its string. -/
noncomputable def afterAuipc : Kernel :=
  { setup.kernel with frame := Instr.exec assembled.init assembled.initBase 0 0 setup.kernel.frame (.auipc .s0) }

noncomputable def afterAddi : Kernel :=
  { afterAuipc with frame := Instr.exec assembled.init assembled.initBase 1 0 afterAuipc.frame (.addiLo .s0 .s0 0) }

theorem afterAuipc_step : ProgramStep assembled setup.kernel .user afterAuipc :=
  .init rfl rfl ⟨rfl, (BitVec.add_zero _).symm, 0, _, .none rfl, rfl⟩

theorem afterAddi_step : ProgramStep assembled afterAuipc .user afterAddi :=
  .init rfl rfl ⟨rfl, rfl, 0, _, .none rfl, rfl⟩

noncomputable def firstRun : ProgramRun assembled :=
  Run.ofTrace setup.kernel assembled_starts [(.user, afterAuipc), (.user, afterAddi)] ⟨afterAuipc_step, afterAddi_step, trivial⟩

theorem greeted_firstRun : Greeted firstRun ∧ firstRun.len = 2 := ⟨greeted firstRun, rfl⟩

end GooseOs.UserPrograms
