import GooseOs.Memory.UserCopy

/-!
NET_RECV. The bytes leave the socket before the copy to the user is tried, on the immediate path and
on the deferred one; a copy that fails has nowhere to put them back.
-/

namespace GooseOs
open NetServer Kvm

/-- What waits in a socket: a byte stream, or datagrams. -/
inductive RecvQueue where
  | stream (bytes : List Byte)
  | datagrams (payloads : List (List Byte))
  deriving DecidableEq

/-- `bytes` are taken from the front of a queue. -/
inductive RecvQueue.Takes (bytes : List Byte) : RecvQueue → RecvQueue → Prop where
  | stream (rest : List Byte) : Takes bytes (.stream (bytes ++ rest)) (.stream rest)
  | datagram (rest : List (List Byte)) : Takes bytes (.datagrams (bytes :: rest)) (.datagrams rest)

theorem RecvQueue.Takes.ne {bytes : List Byte} {q q' : RecvQueue} (takes : q.Takes bytes q') (nonempty : bytes ≠ []) :
    q' ≠ q := by
  intro same
  cases takes with
  | stream rest =>
    have lengths := congrArg List.length (RecvQueue.stream.inj same)
    rw [List.length_append] at lengths
    have positive := List.length_pos_of_ne_nil nonempty
    omega
  | datagram rest =>
    have lengths := congrArg List.length (RecvQueue.datagrams.inj same)
    rw [List.length_cons] at lengths
    omega

/-- A reading of the network crate's sockets as queues: `recv_slice` removes exactly the bytes it
returns. -/
structure SocketQueues [Smoltcp] where
  queue : Smoltcp.Stack → Nat → RecvQueue
  tcp : ∀ s h size s' bytes, Smoltcp.tcpRecvSlice s h size = (s', some bytes) → (queue s h).Takes bytes.1 (queue s' h)
  udp : ∀ s h size s' bytes, Smoltcp.udpRecvSlice s h size = (s', .ok bytes) → (queue s h).Takes bytes.1 (queue s' h)

section Law
variable [Platform]

/-- The socket behind a handle index gives `bytes` to a receive of `size` bytes. -/
inductive Offers (n : Net) (handleIdx size : Nat) : (socket : Nat) → List Byte → (stack : Smoltcp.Stack) → Prop where
  | tcp {h : Nat} {stack : Smoltcp.Stack} {bytes : { bytes : List Byte // bytes.length ≤ size }}
      (low : handleIdx < maxTcpSockets) (socket : tcpHandle n handleIdx = some h)
      (established : Smoltcp.mayRecv n.stack h = true)
      (received : Smoltcp.tcpRecvSlice n.stack h size = (stack, some bytes)) : Offers n handleIdx size h bytes.1 stack
  | udp {h : Nat} {stack : Smoltcp.Stack} {bytes : { bytes : List Byte // bytes.length ≤ size }}
      (high : ¬ handleIdx < maxTcpSockets) (socket : udpHandle n handleIdx = some h)
      (received : Smoltcp.udpRecvSlice n.stack h size = (stack, .ok bytes)) : Offers n handleIdx size h bytes.1 stack

/-- A receive about to be tried: the network after the poll, the socket and the user's buffer. -/
structure RecvRequest where
  net : Net
  handleIdx : Nat
  size : Nat
  satp : Word
  bufVa : Word

/-- A receive is tried in state `k` and completes in `k'` with `v` in `a0`: in the system call itself,
whose arguments are in range, or after a poll for a process parked on it. -/
inductive RecvCompletes (k : Kernel) : RecvRequest → Kernel → Word → Prop where
  | immediate {n : Net} {handleIdx maxLen : Nat} {bufVa v : Word} {k' : Kernel} (positive : 0 < maxLen)
      (fits : maxLen ≤ stagingSize) (table : k.currentSatp ≠ 0)
      (handled : handleRecv k n handleIdx bufVa.toNat maxLen = .ok (k', .done v)) :
      RecvCompletes k ⟨poll n (nowMs k), handleIdx, maxLen, k.currentSatp, bufVa⟩ k' v
  | deferred {n : Net} {pid : Nat} {bufVa : Word} {k' : Kernel} (parked : (k.procs pid).state = .blockedNet)
      (buffer : (k.procs pid).netBufVa = bufVa.toNat) (handled : wakeOneRecv k n pid = .ok k')
      (done : (k'.procs pid).state = .ready) :
      RecvCompletes k ⟨n, (k.procs pid).netSocket, (k.procs pid).netBufLen, (k.procs pid).satp, bufVa⟩ k'
        (k'.procs pid).context.a0

/-- `m'` is `m` with `bytes` stored behind the user range at `va`, in order, and nothing else changed. -/
structure StoredAt (m m' : Memory) (satp : Word) (va : Nat) (bytes : List Byte) : Prop where
  stored : ∀ i b, bytes[i]? = some b → ∃ pa, Reaches m satp true (va + i) pa ∧
    ((∀ j, i < j → j < bytes.length → ¬ Reaches m satp true (va + j) pa) → m' pa = b)
  frame : ∀ x, (∀ i, i < bytes.length → ¬ Reaches m satp true (va + i) x) → m' x = m x

/-- A completed receive loses nothing: refused for its buffer it leaves the socket's queue as it was,
and otherwise the bytes it counts went from the front of the queue to the buffer. -/
structure KeepsData (q : SocketQueues) (k : Kernel) (req : RecvRequest) (k' : Kernel) (v : Word) : Prop where
  refused : ∀ h bytes stack, Offers req.net req.handleIdx req.size h bytes stack → bytes ≠ [] →
    ¬ Allowed k.vm.mem req.satp true req.bufVa.toNat bytes.length → v = usizeMax →
    ∃ n', k'.net = some n' ∧ q.queue n'.stack h = q.queue req.net.stack h
  received : v ≠ usizeMax → 0 < v.toNat → ∃ h bytes stack n', Offers req.net req.handleIdx req.size h bytes stack ∧
    bytes.length = v.toNat ∧ k'.net = some n' ∧ (q.queue req.net.stack h).Takes bytes (q.queue n'.stack h) ∧
    StoredAt k.vm.mem k'.vm.mem req.satp req.bufVa.toNat bytes

/-- Whatever the socket has to give fits a buffer the user may write. -/
def BufferReady (k : Kernel) (req : RecvRequest) : Prop :=
  ∀ h bytes stack, Offers req.net req.handleIdx req.size h bytes stack → bytes ≠ [] →
    Allowed k.vm.mem req.satp true req.bufVa.toNat bytes.length

variable {n n' : Net} {handleIdx size h : Nat} {bytes : List Byte} {stack : Smoltcp.Stack} {k k' : Kernel} {v : Word}
  {req : RecvRequest}

theorem Offers.takes (q : SocketQueues) (offers : Offers n handleIdx size h bytes stack) :
    (q.queue n.stack h).Takes bytes (q.queue stack h) := by
  cases offers with
  | tcp _ _ _ received => exact q.tcp _ _ _ _ _ received
  | udp _ _ received => exact q.udp _ _ _ _ _ received

theorem tryRecvOnce_of_offers (offers : Offers n handleIdx size h bytes stack) (nonempty : bytes ≠ []) :
    ∃ data, tryRecvOnce n handleIdx size = ({ n with stack := stack }, .data data) ∧ data.1 = bytes := by
  cases offers with
  | @tcp _ data low socket established received =>
    refine ⟨data, ?_, rfl⟩
    have filled : data.1.length ≠ 0 := by simpa using nonempty
    rw [tryRecvOnce, if_pos low, socket]
    dsimp only
    rw [if_neg (by rw [established]; nofun), received]
    dsimp only
    rw [if_neg filled]
  | @udp _ data high socket received =>
    refine ⟨data, ?_, rfl⟩
    rw [tryRecvOnce, if_neg high, socket]
    dsimp only
    rw [received]

theorem offers_of_tryRecvOnce {data : { bytes : List Byte // bytes.length ≤ size }}
    (tried : tryRecvOnce n handleIdx size = (n', .data data)) :
    ∃ h, Offers n handleIdx size h data.1 n'.stack := by
  unfold tryRecvOnce at tried
  split at tried
  · next low =>
    split at tried
    · cases tried
    next h socket =>
    split at tried
    · cases tried
    next established =>
    split at tried
    · next stack bytes received =>
      split at tried
      · cases tried
      · cases tried
        exact ⟨h, .tcp low socket (by simpa using established) received⟩
    · cases tried
  · next high =>
    split at tried
    · cases tried
    next h socket =>
    split at tried
    · next stack bytes received =>
      cases tried
      exact ⟨h, .udp high socket received⟩
    · cases tried
    · cases tried

/-- Delivery stores the bytes and counts them, or answers with an error. -/
theorem deliver_cases (k : Kernel) (satp : Word) (bufVa : Nat) (bytes : List Byte) :
    (deliver k satp bufVa bytes).1.net = k.net ∧
      (copyToUser k.vm.mem satp bufVa bytes = some (deliver k satp bufVa bytes).1.vm.mem ∧
          (deliver k satp bufVa bytes).2 = BitVec.ofNat 64 bytes.length ∨
        copyToUser k.vm.mem satp bufVa bytes = none ∧ (deliver k satp bufVa bytes).2 = usizeMax) := by
  unfold deliver
  cases copyToUser k.vm.mem satp bufVa bytes with
  | some mem => exact ⟨rfl, .inl ⟨rfl, rfl⟩⟩
  | none => exact ⟨rfl, .inr ⟨rfl, rfl⟩⟩

/-- What a completed receive did: it copied the bytes it was given, or it was given none. -/
theorem RecvCompletes.attempt (completes : RecvCompletes k req k' v) : req.size ≤ stagingSize ∧
    ∃ n' attempt, tryRecvOnce req.net req.handleIdx req.size = (n', attempt) ∧ k'.net = some n' ∧
      ((∃ data, attempt = .data data ∧
          (copyToUser k.vm.mem req.satp req.bufVa.toNat data.1 = some k'.vm.mem ∧ v = BitVec.ofNat 64 data.1.length ∨
            copyToUser k.vm.mem req.satp req.bufVa.toNat data.1 = none ∧ v = usizeMax)) ∨
        ((∀ data, attempt ≠ .data data) ∧ (v = usizeMax ∨ v = 0))) := by
  cases completes with
  | @immediate n handleIdx maxLen bufVa _ _ positive fits table handled =>
    refine ⟨fits, ?_⟩
    unfold handleRecv at handled
    dsimp only at handled ⊢
    rw [if_neg (by omega), if_neg table] at handled
    cases tried : tryRecvOnce (poll n (nowMs k)) handleIdx maxLen with
    | mk n' attempt =>
      rw [tried] at handled
      dsimp only at handled
      cases attempt with
      | data data =>
        obtain ⟨net, outcome⟩ := deliver_cases { k with net := some n' } k.currentSatp bufVa.toNat data.1
        cases handled
        exact ⟨n', _, rfl, net, .inl ⟨data, rfl, outcome⟩⟩
      | err =>
        cases handled
        exact ⟨n', _, rfl, rfl, .inr ⟨nofun, .inl rfl⟩⟩
      | empty =>
        dsimp only at handled
        split at handled
        · cases handled
          exact ⟨n', _, rfl, rfl, .inr ⟨nofun, .inr rfl⟩⟩
        · obtain ⟨parked, -, handled⟩ := bind_ok handled
          cases handled
  | @deferred n pid bufVa _ parked buffer handled done =>
    unfold wakeOneRecv at handled
    dsimp only at handled ⊢
    split at handled
    · cases handled
    next fits =>
    refine ⟨by omega, ?_⟩
    cases tried : tryRecvOnce n (k.procs pid).netSocket (k.procs pid).netBufLen with
    | mk n' attempt =>
      rw [tried] at handled
      dsimp only at handled
      cases attempt with
      | data data =>
        obtain ⟨net, outcome⟩ := deliver_cases { k with net := some n' } (k.procs pid).satp (k.procs pid).netBufVa data.1
        cases handled
        refine ⟨n', _, rfl, net, .inl ⟨data, rfl, ?_⟩⟩
        rw [← buffer]
        simpa [completeBlocked] using outcome
      | err =>
        cases handled
        refine ⟨n', _, rfl, rfl, .inr ⟨nofun, .inl ?_⟩⟩
        simp [completeBlocked]
      | empty =>
        cases handled
        exact absurd (parked.symm.trans done) nofun

omit [Platform] in
theorem count_word {i : Nat} (small : i ≤ stagingSize) :
    (BitVec.ofNat 64 i).toNat = i ∧ BitVec.ofNat 64 i ≠ usizeMax := by
  have value : (BitVec.ofNat 64 i).toNat = i := by
    rw [BitVec.toNat_ofNat]
    exact Nat.mod_eq_of_lt (by simp only [stagingSize] at small; omega)
  refine ⟨value, fun same => ?_⟩
  have large := congrArg BitVec.toNat same
  rw [value, show usizeMax.toNat = 2 ^ 64 - 1 from by decide] at large
  simp only [stagingSize] at small
  omega

theorem storedAt_of_copy {m m' : Memory} {satp va : Word} (copied : copyToUser m satp va.toNat bytes = some m') :
    StoredAt m m' satp va.toNat bytes :=
  ⟨fun _ _ => (userCopy_exact m satp va).writes _ _ copied _ _, (userCopy_exact m satp va).frame _ _ copied⟩

/-- NET_RECV keeps the data exactly when the user may write wherever the offered bytes go: bytes that
cannot be delivered are lost. -/
theorem keepsData_iff (q : SocketQueues) (completes : RecvCompletes k req k' v) :
    KeepsData q k req k' v ↔ BufferReady k req := by
  obtain ⟨small, n', attempt, tried, net, outcome⟩ := completes.attempt
  constructor
  · intro keeps h bytes stack offers nonempty
    by_contra unready
    obtain ⟨data, given, rfl⟩ := tryRecvOnce_of_offers offers nonempty
    rw [tried] at given
    cases given
    have refused : copyToUser k.vm.mem req.satp req.bufVa.toNat data.1 = none := by
      rw [← Option.isSome_eq_false_iff.trans Option.isNone_iff_eq_none, ← Bool.not_eq_true,
        copyToUser_isSome req.bufVa.isLt]
      rintro (none | allowed)
      · exact nonempty (List.length_eq_zero_iff.mp none)
      · exact unready allowed
    have error : v = usizeMax := by
      rcases outcome with ⟨data', same, ⟨copied, -⟩ | ⟨-, error⟩⟩ | ⟨nothing, -⟩
      · cases same
        rw [refused] at copied
        cases copied
      · exact error
      · exact absurd rfl (nothing data)
    obtain ⟨n', net', kept⟩ := keeps.refused h data.1 stack offers nonempty unready error
    rw [net] at net'
    cases net'
    exact (offers.takes q).ne nonempty kept
  · intro ready
    refine ⟨fun h bytes stack offers nonempty unready _ => absurd (ready h bytes stack offers nonempty) unready,
      fun accepted positive => ?_⟩
    rcases outcome with ⟨data, rfl, ⟨copied, count⟩ | ⟨-, error⟩⟩ | ⟨-, error | zero⟩
    · obtain ⟨h, offers⟩ := offers_of_tryRecvOnce tried
      have value := (count_word (data.2.trans small)).1
      exact ⟨h, data.1, n'.stack, n', offers, by rw [count, value], net, offers.takes q, storedAt_of_copy copied⟩
    · exact absurd error accepted
    · exact absurd error accepted
    · rw [zero] at positive
      exact absurd positive (by decide)

end Law

/-! ### One TCP stream -/

section Stream

/-- A network stack that is one established stream. -/
@[reducible] def streams : Smoltcp where
  Stack := List Byte
  fresh := []
  poll stack _ frames := (stack, frames)
  addTcp stack := (stack, 0)
  addUdp stack := (stack, 0)
  connect _ _ _ _ _ := none
  listen _ _ _ := none
  bind _ _ _ := none
  mayRecv _ _ := true
  maySend _ _ := true
  isActive _ _ := true
  tcpRecvSlice stack _ size := (stack.drop size, some ⟨stack.take size, List.length_take_le ..⟩)
  tcpSendSlice stack _ _ := (stack, none)
  udpRecvSlice stack _ _ := (stack, .error .exhausted)
  udpSendSlice stack _ _ _ _ := (stack, false)
  closeTcp stack _ := stack
  closeUdp stack _ := stack

@[reducible] def streamBoard : Platform := { Reference.platform with toSmoltcp := streams, net := true }

attribute [local instance] streamBoard

def streamQueues : SocketQueues where
  queue stack _ := .stream stack
  tcp s h size s' bytes received := by
    cases received
    have whole : RecvQueue.Takes (s.take size) (.stream (s.take size ++ s.drop size)) (.stream (s.drop size)) :=
      .stream (s.drop size)
    rwa [List.take_append_drop] at whole
  udp s h size s' bytes received := by cases received

/-- Three tables in the heap, and one page the user may write at 0x5000_0000. -/
def bufferMap : Memory :=
  let root := Memory.write64 (fun _ => 0) 0x8021_0008 (Pte.branch 0x8021_1000).bits
  let level1 := root.write64 0x8021_1400 (Pte.branch 0x8021_2000).bits
  level1.write64 0x8021_2000 (Pte.new 0x8021_3000 userRw).bits

def bufferSatp : Word := makeSatp 0x8021_0000 1

/-- PID 1 runs on that table. -/
def receiving : Kernel where
  procs := Function.update (fun _ => {}) 1 { Syscall.newProcess 1 0 bufferSatp 0 0 with state := .running }
  currentPid := 1
  irqOwner _ := 0
  frame := .zero
  satp := bufferSatp
  kernelSatp := 0
  vm := ⟨bufferMap, .new 0x8021_0000 256⟩
  ticks := 0
  plic := ⟨fun _ => false, fun _ => false⟩
  net := none

/-- One byte waits in the stream behind handle 0. -/
def oneByte : Net where
  stack := [7]
  tcpHandles := fun i => if i = 0 then some 0 else none
  udpHandles _ := none
  tcpAllocCount := 1
  udpAllocCount := 0
  rx := []
  virtioIrq := 1

def received : Kernel := { receiving with net := some { oneByte with stack := [] } }

theorem receiving_completes (bufVa : Word) :
    RecvCompletes receiving ⟨oneByte, 0, 4, bufferSatp, bufVa⟩ (deliver received bufferSatp bufVa.toNat [7]).1
      (deliver received bufferSatp bufVa.toNat [7]).2 :=
  .immediate (n := oneByte) (by decide) (by decide) (by decide) rfl

theorem oneByte_offers {h : Nat} {bytes : List Byte} {stack : List Byte} (offers : Offers oneByte 0 4 h bytes stack) :
    bytes = [7] := by
  cases offers with
  | tcp _ _ _ received =>
    cases received
    rfl
  | udp high => exact absurd (by decide) high

/-- To a page of its own the byte is delivered. -/
theorem keepsData_mapped : KeepsData streamQueues receiving ⟨oneByte, 0, 4, bufferSatp, 0x5000_0000⟩
    (deliver received bufferSatp 0x5000_0000 [7]).1 (deliver received bufferSatp 0x5000_0000 [7]).2 := by
  refine (keepsData_iff streamQueues (receiving_completes 0x5000_0000)).mpr fun h bytes stack offers _ => ?_
  have copied : (copyToUser bufferMap bufferSatp 0x5000_0000 [7]).isSome = true := by decide +kernel
  rw [oneByte_offers offers]
  exact ((copyToUser_isSome (by decide)).mp copied).resolve_left nofun

/-- To an address no user may write it is lost. -/
theorem keepsData_fails : ¬ KeepsData streamQueues receiving ⟨oneByte, 0, 4, bufferSatp, 0x8000_0000⟩
    (deliver received bufferSatp 0x8000_0000 [7]).1 (deliver received bufferSatp 0x8000_0000 [7]).2 := by
  intro keeps
  have high : ¬ Allowed bufferMap bufferSatp true 0x8000_0000 1 := fun allowed => absurd allowed.below (by decide)
  have refused : ¬ (copyToUser bufferMap bufferSatp 0x8000_0000 [7]).isSome = true := by
    rw [copyToUser_isSome (by decide)]
    rintro (none | allowed)
    · cases none
    · exact high allowed
  obtain ⟨net, outcome⟩ := deliver_cases received bufferSatp 0x8000_0000 [7]
  have error : (deliver received bufferSatp 0x8000_0000 [7]).2 = usizeMax := by
    rcases outcome with ⟨copied, -⟩ | ⟨-, error⟩
    · exact absurd (Option.isSome_of_eq_some copied) refused
    · exact error
  have received' : Smoltcp.tcpRecvSlice oneByte.stack 0 4 = ([], some ⟨[7], by decide⟩) := rfl
  have offers : Offers oneByte 0 4 0 [7] [] := .tcp (by decide) rfl rfl received'
  obtain ⟨n', after, kept⟩ := keeps.refused 0 [7] [] offers nofun high error
  rw [net] at after
  cases after
  cases kept

end Stream
end GooseOs
