import GooseOs.Lib.Bytes
import GooseOs.Lib.Records
import GooseOs.Lib.Integer
import GooseOs.Lib.Radix
import GooseOs.Lib.RingBuffer
import GooseOs.Lib.Run
import GooseOs.Lib.Prog
import GooseOs.Lib.Mmio
import GooseOs.Lib.Lockstep
import GooseOs.Lib.Leb128
import GooseOs.Lib.Varint
import GooseOs.Lib.Patch
import GooseOs.Lib.Piles
import GooseOs.Kernel.Security
import GooseOs.Kernel.Process
import GooseOs.Kernel.Platform
import GooseOs.Kernel.Sched
import GooseOs.Kernel.Ipc
import GooseOs.Kernel.Lifecycle
import GooseOs.Kernel.PageAlloc
import GooseOs.Kernel.PageTable
import GooseOs.Kernel.Kvm
import GooseOs.Kernel.Elf
import GooseOs.Kernel.State
import GooseOs.Kernel.Syscall
import GooseOs.Kernel.Net
import GooseOs.Kernel.TrapVector
import GooseOs.Kernel.Virtio
import GooseOs.Kernel.VirtioMmio
import GooseOs.Kernel.Trap
import GooseOs.Kernel.Outcomes
import GooseOs.Kernel.Boot
import GooseOs.Kernel.UserPrograms
import GooseOs.Kernel.Wasm
import GooseOs.Kernel.Opcode
import GooseOs.Kernel.Interp
import GooseOs.Kernel.Wasi
import GooseOs.Machine.TrapVector
import GooseOs.Machine.Run
import GooseOs.Machine.Reference
import GooseOs.Machine.Scenarios
import GooseOs.Machine.Spawning
import GooseOs.Machine.Networked
import GooseOs.Process.Slot
import GooseOs.Process.Handlers
import GooseOs.Process.Consistency
import GooseOs.Machine.UserPrograms
import GooseOs.Process.Scheduling
import GooseOs.Process.Registers
import GooseOs.Process.Blocking
import GooseOs.Process.Calls
import GooseOs.Process.Returns
import GooseOs.Process.Threads
import GooseOs.Process.Greeting
import GooseOs.Process.Delivery
import GooseOs.Process.ExactlyOnce
import GooseOs.Process.Replies
import GooseOs.Process.Rendezvous
import GooseOs.Process.Endings
import GooseOs.Process.Waiting
import GooseOs.Process.Terminations
import GooseOs.Process.ExitCodes
import GooseOs.Process.Interception
import GooseOs.Process.Fairness
import GooseOs.Memory.PageSet
import GooseOs.Memory.Trees
import GooseOs.Memory.FiniteMap
import GooseOs.Memory.Supply
import GooseOs.Memory.Demand
import GooseOs.Memory.Regions
import GooseOs.Memory.BootTables
import GooseOs.Memory.Images
import GooseOs.Memory.Reclaim
import GooseOs.Memory.Segments
import GooseOs.Memory.Contents
import GooseOs.Memory.Executables
import GooseOs.Memory.Answers
import GooseOs.Memory.Tables
import GooseOs.Memory.Loading
import GooseOs.Memory.Spaces
import GooseOs.Memory.Effects
import GooseOs.Memory.Isolation
import GooseOs.Memory.Launch
import GooseOs.Memory.Dangling
import GooseOs.Memory.KernelMaps
import GooseOs.Memory.UserCopy
import GooseOs.Memory.WriteXorExecute
import GooseOs.Memory.Exhaustion
import GooseOs.Memory.Confined
import GooseOs.Memory.Ownership
import GooseOs.Memory.MapOwnership
import GooseOs.Memory.FreeOwnership
import GooseOs.Irq.Table
import GooseOs.Irq.Handlers
import GooseOs.Irq.Ownership
import GooseOs.Irq.Notices
import GooseOs.Irq.Filters
import GooseOs.Process.Wakeups
import GooseOs.Wasm.Parsed
import GooseOs.Wasm.Framing
import GooseOs.Wasm.Totality
import GooseOs.Wasm.Numbers
import GooseOs.Wasm.DataSegments
import GooseOs.Wasm.FuncTypes
import GooseOs.Wasm.Bodies
import GooseOs.Wasm.Payloads
import GooseOs.Wasm.Encoding
import GooseOs.Wasm.Decoding
import GooseOs.Wasm.RoundTrip
import GooseOs.Wasm.Readers
import GooseOs.Wasm.Footprint
import GooseOs.Wasm.Leftovers
import GooseOs.Wasm.Entry
import GooseOs.Wasm.Straight
import GooseOs.Wasm.Validation
import GooseOs.Wasm.Scanners
import GooseOs.Wasm.Operations
import GooseOs.Wasm.Arithmetic
import GooseOs.Wasm.LinearMemory
import GooseOs.Wasm.Buffers
import GooseOs.Wasm.Offsets
import GooseOs.Wasm.Hello
import GooseOs.Wasm.Safety
import GooseOs.Wasm.Frames
import GooseOs.Wasm.Nesting
import GooseOs.Wasm.Operands
import GooseOs.Wasm.Activations
import GooseOs.Wasm.Runs
import GooseOs.Wasm.Reuse
import GooseOs.Wasm.Constructs
import GooseOs.Wasm.Words
import GooseOs.Wasm.Homing
import GooseOs.Wasm.Calls
import GooseOs.Wasm.Progress
import GooseOs.Wasm.Structured
import GooseOs.Wasm.Semantics
import GooseOs.Wasm.Stacks
import GooseOs.Wasm.Transfers
import GooseOs.Wasm.Settings
import GooseOs.Wasm.Refinement
import GooseOs.Wasm.Simulation
import GooseOs.Virtio.Queue
import GooseOs.Virtio.Transmit
import GooseOs.Virtio.Receive
import GooseOs.Network.Receive
import GooseOs.Virtio.Handshake
