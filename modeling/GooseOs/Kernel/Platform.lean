import GooseOs.Kernel.Process
import GooseOs.Lib.Bytes

/-!
What the kernel takes from outside its sources: the linker's symbols and build features
(`linker.ld`, `platform.rs`) and the smoltcp crate behind `net.rs`.
-/

namespace GooseOs

/-- `smoltcp::socket::udp::RecvError`. -/
inductive UdpRecvError where
  | exhausted | truncated
  deriving DecidableEq

/-- The smoltcp operations `net.rs` calls, on the interface and socket set together. Sockets
are named by their handle; a receive never returns more bytes than its buffer holds. -/
class Smoltcp where
  Stack : Type
  /-- The interface `net::init` builds, before any socket is added. -/
  fresh : Stack
  /-- `Interface::poll` at a time in milliseconds, on the frames the device has ready; it returns
  the frames it left there. -/
  poll : Stack → Word → List (List Byte) → Stack × List (List Byte)
  addTcp : Stack → Stack × Nat
  addUdp : Stack → Stack × Nat
  connect : Stack → Nat → BitVec 32 → BitVec 16 → BitVec 16 → Option Stack
  listen : Stack → Nat → BitVec 16 → Option Stack
  bind : Stack → Nat → BitVec 16 → Option Stack
  mayRecv : Stack → Nat → Bool
  maySend : Stack → Nat → Bool
  isActive : Stack → Nat → Bool
  tcpRecvSlice : Stack → Nat → (size : Nat) → Stack × Option { bytes : List Byte // bytes.length ≤ size }
  tcpSendSlice : Stack → Nat → List Byte → Stack × Option Nat
  udpRecvSlice : Stack → Nat → (size : Nat) →
    Stack × Except UdpRecvError { bytes : List Byte // bytes.length ≤ size }
  udpSendSlice : Stack → Nat → BitVec 32 → BitVec 16 → List Byte → Stack × Bool
  closeTcp : Stack → Nat → Stack
  closeUdp : Stack → Nat → Stack

def uartBase : Nat := 0x1000_0000

def plicBase : Nat := 0x0C00_0000

def plicMapSize : Nat := 4 * 1024 * 1024

def virtioMmioBase : Nat := 0x1000_1000

def virtioMmioStride : Nat := 0x1000

def virtioMmioSlots : Nat := 8

/-- The linker's symbols with the order and alignment `linker.ld` gives them, the build
features, and the network crate. -/
class Platform extends Smoltcp where
  qemu : Bool
  net : Bool
  securityTest : Bool
  rustUser : Bool
  textStart : Nat
  textEnd : Nat
  rodataStart : Nat
  rodataEnd : Nat
  dataStart : Nat
  dataEnd : Nat
  bssStart : Nat
  bssEnd : Nat
  /-- `_end`: the allocator's first page. -/
  heapStart : Nat
  /-- `_heap_end`: the stack begins here. -/
  heapEnd : Nat
  stackTop : Nat
  /-- Start and size of the embedded init, UART-server and security-test programs. -/
  userInit : Nat × Nat
  uartServer : Nat × Nat
  securityTestProgram : Nat × Nat
  /-- Start and size of the embedded `HELLO_ELF`. -/
  helloElf : Nat × Nat
  /-- Address of `trap::kernel_idle`. -/
  kernelIdle : Word
  /-- Address of `trap::post_process_exit`. -/
  postProcessExit : Word
  /-- RAM meets none of the device windows. -/
  mmio_apart : (stackTop ≤ plicBase ∨ plicBase + plicMapSize ≤ textStart) ∧
    (stackTop ≤ uartBase ∨ uartBase + pageSize ≤ textStart) ∧
    (stackTop ≤ virtioMmioBase ∨ virtioMmioBase + virtioMmioSlots * virtioMmioStride ≤ textStart)
  text_le : textStart ≤ textEnd
  rodata_le : textEnd ≤ rodataStart ∧ rodataStart ≤ rodataEnd
  data_le : rodataEnd ≤ dataStart ∧ dataStart ≤ dataEnd
  bss_le : dataEnd ≤ bssStart ∧ bssStart ≤ bssEnd
  heap_le : bssEnd ≤ heapStart ∧ heapStart < heapEnd ∧ heapEnd ≤ stackTop
  stack_low : stackTop ≤ 2 ^ 38
  text_aligned : textStart % pageSize = 0
  rodata_aligned : rodataStart % pageSize = 0
  data_aligned : dataStart % pageSize = 0
  bss_aligned : bssStart % pageSize = 0
  heapStart_aligned : heapStart % pageSize = 0
  heapEnd_aligned : heapEnd % pageSize = 0
  stackTop_aligned : stackTop % pageSize = 0
  heap_tracked : (heapEnd - heapStart) / pageSize ≤ 32768
  programs_fit : userInit.2 ≤ pageSize ∧ uartServer.2 ≤ pageSize ∧ securityTestProgram.2 ≤ pageSize

/-- `platform::UART0_IRQ`. -/
def uart0Irq [Platform] : Nat := if Platform.qemu then 10 else 32

end GooseOs
