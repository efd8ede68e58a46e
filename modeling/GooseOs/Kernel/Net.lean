import GooseOs.Kernel.State

/-!
`net.rs`: the virtual network server behind SYS_CALL(3) and the wakeups after each poll.
-/

namespace GooseOs.NetServer
open Sched Kvm
variable [Platform]

/-- `NET_SERVER_PID`. -/
def netServerPid : Nat := 3

def netStatus : Nat := 0
def netSocketTcp : Nat := 1
def netSocketUdp : Nat := 2
def netBind : Nat := 3
def netConnect : Nat := 4
def netListen : Nat := 5
def netSend : Nat := 7
def netRecv : Nat := 8
def netClose : Nat := 9

def maxTcpSockets : Nat := 4

def maxUdpSockets : Nat := 4

def stagingSize : Nat := 4096

/-- `NetOutcome`: a result for `a0`, or the caller was parked and the frame is someone else's. -/
inductive Outcome where
  | done (v : Word)
  | blocked

/-- `net::poll`. -/
def poll (n : Net) (timestampMs : Word) : Net :=
  let (stack, rx) := Smoltcp.poll n.stack timestampMs n.rx
  { n with stack := stack, rx := rx }

/-- `now_ms`. -/
def nowMs (k : Kernel) : Word := k.ticks * 10

/-- The TCP socket behind a handle index. -/
def tcpHandle (n : Net) (handleIdx : Nat) : Option Nat :=
  if handleIdx < maxTcpSockets then n.tcpHandles handleIdx else none

/-- The UDP socket behind a handle index at or above `MAX_TCP_SOCKETS`. -/
def udpHandle (n : Net) (handleIdx : Nat) : Option Nat :=
  let udpIdx := handleIdx - maxTcpSockets
  if udpIdx ≥ maxUdpSockets then none else n.udpHandles udpIdx

def handleSocketTcp (n : Net) : Net × Word :=
  if n.tcpAllocCount ≥ maxTcpSockets then (n, usizeMax)
  else
    let idx := n.tcpAllocCount
    let (stack, handle) := Smoltcp.addTcp n.stack
    ({ n with
        stack := stack
        tcpHandles := Function.update n.tcpHandles idx (some handle)
        tcpAllocCount := idx + 1 }, BitVec.ofNat 64 idx)

def handleSocketUdp (n : Net) : Net × Word :=
  if n.udpAllocCount ≥ maxUdpSockets then (n, usizeMax)
  else
    let idx := n.udpAllocCount
    let (stack, handle) := Smoltcp.addUdp n.stack
    ({ n with
        stack := stack
        udpHandles := Function.update n.udpHandles idx (some handle)
        udpAllocCount := idx + 1 }, BitVec.ofNat 64 (maxTcpSockets + idx))

def handleBind (n : Net) (handleIdx : Nat) (port : Word) : Net × Word :=
  if handleIdx ≥ maxTcpSockets then
    match udpHandle n handleIdx with
    | none => (n, usizeMax)
    | some handle =>
      match Smoltcp.bind n.stack handle (port.setWidth 16) with
      | none => (n, usizeMax)
      | some stack => ({ n with stack := stack }, 0)
  else (n, 0)

def handleListen (n : Net) (handleIdx : Nat) (port : Word) : Net × Word :=
  match tcpHandle n handleIdx with
  | none => (n, usizeMax)
  | some handle =>
    match Smoltcp.listen n.stack handle (port.setWidth 16) with
    | none => (n, usizeMax)
    | some stack => ({ n with stack := stack }, 0)

def handleClose (n : Net) (handleIdx : Nat) : Net × Word :=
  if handleIdx < maxTcpSockets then
    match tcpHandle n handleIdx with
    | none => (n, usizeMax)
    | some handle => ({ n with stack := Smoltcp.closeTcp n.stack handle }, 0)
  else
    match udpHandle n handleIdx with
    | none => (n, usizeMax)
    | some handle => ({ n with stack := Smoltcp.closeUdp n.stack handle }, 0)

/-- Park the running process on a network event and reschedule. -/
def park (k : Kernel) (op : NetOp) (socket bufVa bufLen : Nat) : Result (Kernel × Outcome) := do
  let current := k.currentPid
  let k ← k.onCore fun c =>
    schedule (c.modify current fun p =>
      { p with netOp := op, netSocket := socket, netBufVa := bufVa, netBufLen := bufLen, state := .blockedNet })
      current
  return (k, .blocked)

def handleConnect (k : Kernel) (n : Net) (handleIdx : Nat) (packedIp port : Word) : Result (Kernel × Outcome) :=
  match tcpHandle n handleIdx with
  | none => .ok ({ k with net := some n }, .done usizeMax)
  | some handle =>
    match Smoltcp.connect n.stack handle (packedIp.setWidth 32) (port.setWidth 16)
        (49152 + BitVec.ofNat 16 handleIdx) with
    | none => .ok ({ k with net := some n }, .done usizeMax)
    | some stack =>
      let n := poll { n with stack := stack } (nowMs k)
      let k := { k with net := some n }
      if Smoltcp.maySend n.stack handle then .ok (k, .done 0)
      else if !Smoltcp.isActive n.stack handle then .ok (k, .done usizeMax)
      else if k.currentPid = 0 then .ok (k, .done 0)
      else park k .connect handleIdx 0 0

def handleSend (k : Kernel) (n : Net) (handleIdx : Nat) (bufVa len : Nat) (packedIp port : Word) (satp : Word) :
    Net × Word :=
  if len = 0 ∨ len > stagingSize then (n, usizeMax)
  else if satp = 0 then (n, usizeMax)
  else match copyFromUser k.vm.mem satp bufVa len with
    | none => (n, usizeMax)
    | some staging =>
      if handleIdx < maxTcpSockets then
        match tcpHandle n handleIdx with
        | none => (n, usizeMax)
        | some handle =>
          if !Smoltcp.maySend n.stack handle then (n, usizeMax)
          else match Smoltcp.tcpSendSlice n.stack handle staging with
            | (stack, none) => ({ n with stack := stack }, usizeMax)
            | (stack, some sent) => (poll { n with stack := stack } (nowMs k), BitVec.ofNat 64 sent)
      else
        match udpHandle n handleIdx with
        | none => (n, usizeMax)
        | some handle =>
          match Smoltcp.udpSendSlice n.stack handle (packedIp.setWidth 32) (port.setWidth 16) staging with
          | (stack, false) => ({ n with stack := stack }, usizeMax)
          | (stack, true) => (poll { n with stack := stack } (nowMs k), BitVec.ofNat 64 len)

/-- `RecvAttempt`. -/
inductive RecvAttempt (size : Nat) where
  | data (bytes : { bytes : List Byte // bytes.length ≤ size })
  | empty
  | err

/-- One non-blocking attempt to pull data into a staging slice of `size` bytes. -/
def tryRecvOnce (n : Net) (handleIdx size : Nat) : Net × RecvAttempt size :=
  if handleIdx < maxTcpSockets then
    match tcpHandle n handleIdx with
    | none => (n, .err)
    | some handle =>
      if !Smoltcp.mayRecv n.stack handle then (n, .err)
      else match Smoltcp.tcpRecvSlice n.stack handle size with
        | (stack, some bytes) => ({ n with stack := stack }, if bytes.1.length = 0 then .empty else .data bytes)
        | (stack, none) => ({ n with stack := stack }, .err)
  else
    match udpHandle n handleIdx with
    | none => (n, .err)
    | some handle =>
      match Smoltcp.udpRecvSlice n.stack handle size with
      | (stack, .ok bytes) => ({ n with stack := stack }, .data bytes)
      | (stack, .error .exhausted) => ({ n with stack := stack }, .empty)
      | (stack, .error .truncated) => ({ n with stack := stack }, .err)

/-- Copy received bytes to the user; the value for `a0` is their number or the error. -/
def deliver (k : Kernel) (satp : Word) (bufVa : Nat) (bytes : List Byte) : Kernel × Word :=
  match copyToUser k.vm.mem satp bufVa bytes with
  | some mem => ({ k with vm := { k.vm with mem := mem } }, BitVec.ofNat 64 bytes.length)
  | none => (k, usizeMax)

def handleRecv (k : Kernel) (n : Net) (handleIdx bufVa maxLen : Nat) : Result (Kernel × Outcome) :=
  if maxLen = 0 ∨ maxLen > stagingSize then .ok ({ k with net := some n }, .done usizeMax)
  else
    let satp := k.currentSatp
    if satp = 0 then .ok ({ k with net := some n }, .done usizeMax)
    else
      let (n, attempt) := tryRecvOnce (poll n (nowMs k)) handleIdx maxLen
      let k := { k with net := some n }
      match attempt with
      | .data bytes =>
        let (k, v) := deliver k satp bufVa bytes.1
        .ok (k, .done v)
      | .err => .ok (k, .done usizeMax)
      | .empty =>
        if k.currentPid = 0 then .ok (k, .done 0) else park k .recv handleIdx bufVa maxLen

/-- A request that completes at once and changes only the network state. -/
def answer (k : Kernel) (r : Net × Word) : Result (Kernel × Outcome) := .ok ({ k with net := some r.1 }, .done r.2)

/-- The dispatch of `handle_request` on the opcode. -/
def dispatch (k : Kernel) (n : Net) : Result (Kernel × Outcome) :=
  let opcode := k.frame.a1.toNat
  let arg1 := k.frame.a2.toNat
  let arg2 := k.frame.a3
  if opcode = netStatus then answer k (n, 1)
  else if opcode = netSocketTcp then answer k (handleSocketTcp n)
  else if opcode = netSocketUdp then answer k (handleSocketUdp n)
  else if opcode = netBind then answer k (handleBind n arg1 arg2)
  else if opcode = netListen then answer k (handleListen n arg1 arg2)
  else if opcode = netClose then answer k (handleClose n arg1)
  else if opcode = netSend then
    answer k (handleSend k n arg1 arg2.toNat k.frame.a4.toNat k.frame.a5 k.frame.a6 k.currentSatp)
  else if opcode = netConnect then handleConnect k n arg1 arg2 k.frame.a4
  else if opcode = netRecv then handleRecv k n arg1 arg2.toNat k.frame.a4.toNat
  else answer k (n, usizeMax)

/-- SYS_CALL to the network server. -/
def handleRequest (k : Kernel) : Result Kernel := do
  let k := k.advance
  match k.net with
  | none => return k.setA0 usizeMax
  | some n =>
    match ← dispatch k n with
    | (k, .done v) => return k.setA0 v
    | (k, .blocked) => return k

/-! ### Wakeups after a poll -/

/-- `complete_blocked`. -/
def completeBlocked (k : Kernel) (pid : Nat) (v : Word) : Kernel :=
  { k with
    toCore := k.toCore.modify pid fun p =>
      { p with context := { p.context with a0 := v }, netOp := .none, state := .ready } }

/-- A blocked receive; the staging slice panics if its stored length is out of range. -/
def wakeOneRecv (k : Kernel) (n : Net) (pid : Nat) : Result Kernel :=
  let p := k.procs pid
  if p.netBufLen > stagingSize then .error .sliceOutOfRange
  else
    let (n, attempt) := tryRecvOnce n p.netSocket p.netBufLen
    let k := { k with net := some n }
    match attempt with
    | .data bytes =>
      let (k, v) := deliver k p.satp p.netBufVa bytes.1
      .ok (completeBlocked k pid v)
    | .err => .ok (completeBlocked k pid usizeMax)
    | .empty => .ok k

def wakeOneConnect (k : Kernel) (n : Net) (pid : Nat) : Kernel :=
  match tcpHandle n (k.procs pid).netSocket with
  | none => completeBlocked k pid usizeMax
  | some handle =>
    if Smoltcp.maySend n.stack handle then completeBlocked k pid 0
    else if !Smoltcp.isActive n.stack handle then completeBlocked k pid usizeMax
    else k

/-- One turn of the loop of `wake_blocked`. -/
def wakeOne (k : Kernel) (pid : Nat) : Result Kernel :=
  match k.net with
  | none => .ok k
  | some n =>
    if (k.procs pid).state ≠ .blockedNet then .ok k
    else match (k.procs pid).netOp with
      | .recv => wakeOneRecv k n pid
      | .connect => .ok (wakeOneConnect k n pid)
      | .none => .ok k

/-- `wake_blocked`. -/
def wakeBlocked (k : Kernel) : Result Kernel := pids.foldlM wakeOne k

/-- Poll the stack, then wake whoever it satisfied. -/
def pollAndWake (k : Kernel) (n : Net) : Result Kernel := wakeBlocked { k with net := some (poll n (nowMs k)) }

end GooseOs.NetServer
