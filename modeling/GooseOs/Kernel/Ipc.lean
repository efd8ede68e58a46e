import GooseOs.Kernel.Sched

/-!
`ipc.rs`: rendezvous send and receive, call and reply, and interrupt notification.
-/

namespace GooseOs.Ipc
open Security Sched
variable [Platform]

/-- The receiver's side of the test in `sys_send` and `sys_call`: blocked in SYS_RECEIVE, from
anyone or from `sender`. -/
def wantsFrom (target : Process) (sender : Nat) : Bool :=
  target.state == .blockedRecv && (target.ipcTarget == 0 || target.ipcTarget == sender)

/-- SYS_CALL(target, msg): send, then block for the reply even after a rendezvous. -/
def sysCall (c : Core) : Result Core :=
  let c := c.advance
  let current := c.currentPid
  let targetPid := c.frame.a0.toNat
  let msgValue := c.frame.a1
  if !isValidIpcTarget targetPid current then .ok (c.setA0 usizeMax)
  else
    let c :=
      if wantsFrom (c.procs targetPid) current then
        c.modify targetPid fun p =>
          { p with
            context := { p.context with
              a0 := msgValue
              a1 := BitVec.ofNat 64 current
              a2 := c.frame.a2
              a3 := c.frame.a3 }
            state := .ready }
      else c
    let c := c.modify current fun p =>
      { p with
        ipcTarget := targetPid
        ipcValue := msgValue
        ipcArg2 := c.frame.a2
        ipcArg3 := c.frame.a3
        state := .blockedCall }
    schedule c current

/-- SYS_REPLY(target, value): deliver the reply to a caller blocked on us. -/
def sysReply (c : Core) : Result Core :=
  let c := c.advance
  let current := c.currentPid
  let targetPid := c.frame.a0.toNat
  let replyValue := c.frame.a1
  if !isValidIpcTarget targetPid current then .ok (c.setA0 usizeMax)
  else if (c.procs targetPid).state == .blockedCall && (c.procs targetPid).ipcTarget == current then
    let c := c.modify targetPid fun p =>
      { p with context := { p.context with a0 := replyValue }, state := .ready }
    .ok (c.setA0 0)
  else .ok (c.setA0 usizeMax)

/-- SYS_SEND(target, msg): rendezvous with a blocked receiver, or block. -/
def sysSend (c : Core) : Result Core :=
  let c := c.advance
  let current := c.currentPid
  let targetPid := c.frame.a0.toNat
  let msgValue := c.frame.a1
  if !isValidIpcTarget targetPid current then .ok (c.setA0 usizeMax)
  else if wantsFrom (c.procs targetPid) current then
    let c := c.modify targetPid fun p =>
      { p with
        context := { p.context with a0 := msgValue, a1 := BitVec.ofNat 64 current }
        state := .ready }
    .ok (c.setA0 0)
  else
    let c := c.modify current fun p =>
      { p with ipcTarget := targetPid, ipcValue := msgValue, state := .blockedSend }
    schedule c current

/-- The sender's side of the scan in `sys_receive`. -/
def isSenderTo (p : Process) (i current fromPid : Nat) : Bool :=
  (p.state == .blockedSend || p.state == .blockedCall) && p.ipcTarget == current &&
    (fromPid == 0 || fromPid == i)

/-- The sender `sys_receive` picks: the first blocked one that matches. -/
def findSender (procs : Nat → Process) (current fromPid : Nat) : Option Nat :=
  pids.find? fun i => isSenderTo (procs i) i current fromPid

/-- SYS_RECEIVE(from): a pending interrupt, else a blocked sender, else block. -/
def sysReceive (c : Core) : Result Core :=
  let c := c.advance
  let current := c.currentPid
  let fromPid := c.frame.a0.toNat
  if (c.procs current).irqPending && fromPid == 0 then
    let irq := (c.procs current).irqNum
    let c := c.modify current fun p => { p with irqPending := false }
    .ok { c with frame := { c.frame with a0 := BitVec.ofNat 64 irq, a1 := 0 } }
  else match findSender c.procs current fromPid with
    | some i =>
      let msg := (c.procs i).ipcValue
      -- A plain sender is released here; a caller stays blocked until SYS_REPLY.
      let c :=
        if (c.procs i).state == .blockedSend then
          c.modify i fun p => { p with state := .ready, context := { p.context with a0 := 0 } }
        else c
      .ok { c with frame := { c.frame with a0 := msg, a1 := BitVec.ofNat 64 i } }
    | none =>
      let c := c.modify current fun p => { p with ipcTarget := fromPid, state := .blockedRecv }
      schedule c current

/-- Deliver an interrupt to its owner: into a blocked receive, else as a pending flag. -/
def irqNotify (c : Core) (irq owner : Nat) : Core :=
  if (c.procs owner).state == .blockedRecv then
    c.modify owner fun p =>
      { p with context := { p.context with a0 := BitVec.ofNat 64 irq, a1 := 0 }, state := .ready }
  else c.modify owner fun p => { p with irqPending := true }

end GooseOs.Ipc
