import Sparo.Demo.SharedBuffer

/-!
# `ipc_demo`

The two processes of `src/demo/ipc_demo.cc`: the parent creates two shared buffers and two
eventfds, sends their descriptors to the child, initializes the buffers and then writes and reads
in a loop; the child receives the descriptors and does the same in a loop of its own. A step is one
system call or one call of a shared buffer. Each buffer has one writer and one reader, so its flags
are free whenever they are tested, and a call sees it as a queue of bytes.

No system call fails. `kk` and `pp` are of type `int`.
-/

namespace Sparo.Demo.IpcDemo

/-- The size of both mappings. -/
def kChannelBufferSize : Nat := 4 * 1024

/-- The bytes of an `int` in memory, the lowest first. -/
def toBytes (n : Int32) : List UInt8 :=
  (List.range 4).map fun i => UInt8.ofNat (n.toUInt32.toNat / 256 ^ i)

/-- `*reinterpret_cast<int*>(read_buf.data())`, where `read_buf` starts with these bytes and is 0
behind them. -/
def readInt (bytes : List UInt8) : Int32 :=
  (UInt32.ofNat ((bytes.getD 0 0).toNat + 256 * ((bytes.getD 1 0).toNat +
    256 * ((bytes.getD 2 0).toNat + 256 * (bytes.getD 3 0).toNat)))).toInt32

/-- A shared buffer and the eventfd that goes with it. -/
structure Channel where
  /-- `Initialize()` was called. -/
  initialized : Bool := false
  /-- The bytes written and not yet read. A new memfd is 0 throughout, which is an empty buffer. -/
  ring : List UInt8 := []
  /-- The counter of the eventfd. -/
  counter : Nat := 0
  /-- The integers written with success. -/
  written : List Int32 := []
  /-- The bytes read out of the buffer. -/
  consumed : List UInt8 := []
  /-- The integers that the reader printed. -/
  reported : List Int32 := []
  deriving DecidableEq, Repr

namespace Channel

/-- `usable_len()` of the buffer. -/
def usableLen : Nat := SharedBuffer.usableLen kChannelBufferSize

/-- `Initialize()`. -/
def initializeBuffer (c : Channel) : Channel := { c with initialized := true, ring := [] }

/-- `TryWrite(&n, sizeof(n))`, and whether it succeeded. -/
def tryWrite (c : Channel) (n : Int32) : Channel × Bool :=
  if usableLen - c.ring.length ≤ 4 then (c, false)
  else ({ c with ring := c.ring ++ toBytes n, written := c.written ++ [n] }, true)

/-- `Notify`. -/
def notify (c : Channel) : Channel := { c with counter := c.counter + 1 }

/-- `WaitReadable` where it finds an event: `Clear` resets the counter. -/
def clear (c : Channel) : Channel := { c with counter := 0 }

/-- `TryReadLocked` with a buffer of `usable_len()` bytes, and the `printf` after it
(`ipc_demo.cc:331-341`, `ipc_demo.cc:420-430`). -/
def readLocked (c : Channel) : Channel :=
  let bytes := c.ring.take usableLen
  { c with
    ring := c.ring.drop usableLen
    consumed := c.consumed ++ bytes
    reported := if bytes.isEmpty then c.reported else c.reported ++ [readInt bytes] }

end Channel

/-- Where the parent is. -/
inductive ParentPc where
  /-- Before the memfds and eventfds are created; the child is already running. -/
  | createFds
  /-- Before `SendmsgWithHandles`. -/
  | sendFds
  /-- Before `child_write_buffer->Initialize()`. -/
  | initializeChildWrite
  /-- Before `parent_write_buffer->Initialize()`. -/
  | initializeParentWrite
  /-- At the top of the loop. -/
  | write
  /-- After a successful `TryWrite`. -/
  | notify
  /-- Before `WaitReadable(child_notify_fd, 0)`. -/
  | wait
  /-- Before `TryLockForReading`. -/
  | read
  deriving DecidableEq, Repr

/-- Where the child is. -/
inductive ChildPc where
  /-- Before `SocketRecvmsg`. -/
  | receiveFds
  /-- Before the two mappings are created. -/
  | create
  /-- At the top of the loop. -/
  | top
  /-- Before `TryWrite`. -/
  | write
  /-- After a successful `TryWrite`. -/
  | notify
  /-- Before `WaitReadable(parent_notify_fd)`. -/
  | wait
  /-- Before `TryLockForReading`. -/
  | read
  | exited
  deriving DecidableEq, Repr

/-- The two processes, the socket and the two buffers. -/
structure State where
  parent : ParentPc := .createFds
  child : ChildPc := .receiveFds
  pp : Int32 := 100
  kk : Int32 := 0
  /-- The message with the descriptors was sent. -/
  sent : Bool := false
  /-- `child_write_buffer` with `child_notify_fd`. -/
  toParent : Channel := {}
  /-- `parent_write_buffer` with `parent_notify_fd`. -/
  toChild : Channel := {}
  deriving DecidableEq, Repr

/-- A label picks the process that moves. -/
inductive Act where
  | parent
  | child
  /-- The child finds itself without its parent: `getppid()` is 1. -/
  | orphaned
  deriving DecidableEq, Repr

/-- A step of the parent (`ipc_demo.cc:366-432`). -/
def parentStep (s : State) : State :=
  match s.parent with
  | .createFds => { s with parent := .sendFds }
  | .sendFds => { s with parent := .initializeChildWrite, sent := true }
  | .initializeChildWrite =>
    { s with parent := .initializeParentWrite, toParent := s.toParent.initializeBuffer }
  | .initializeParentWrite => { s with parent := .write, toChild := s.toChild.initializeBuffer }
  | .write =>
    if s.pp % 3 = 0 ∨ s.pp = 100 then
      match s.toChild.tryWrite s.pp with
      | (_, false) => { s with parent := .wait, pp := s.pp + 1 }
      | (c, true) => { s with parent := .notify, toChild := c }
    else { s with parent := .wait, pp := s.pp + 1 }
  | .notify => { s with parent := .wait, toChild := s.toChild.notify, pp := s.pp + 1 }
  | .wait =>
    if s.toParent.counter = 0 then { s with parent := .write }
    else { s with parent := .read, toParent := s.toParent.clear }
  | .read => { s with parent := .wait, toParent := s.toParent.readLocked }

/-- A step of the child (`ipc_demo.cc:286-345`). `SocketRecvmsg` and `WaitReadable` block. -/
def childStep (s : State) : Option State :=
  match s.child with
  | .receiveFds => if s.sent then some { s with child := .create } else none
  | .create => some { s with child := .top }
  | .top => some { s with
      child := if (s.kk + 1) % 2 = 0 then .write else .wait
      kk := s.kk + 1 }
  | .write =>
    match s.toParent.tryWrite s.kk with
    | (_, false) => some { s with child := .wait }
    | (c, true) => some { s with child := .notify, toParent := c }
  | .notify => some { s with child := .wait, toParent := s.toParent.notify }
  | .wait =>
    if s.toChild.counter = 0 then none
    else some { s with child := .read, toChild := s.toChild.clear }
  | .read => some { s with child := .top, toChild := s.toChild.readLocked }
  | .exited => none

/-- One step. -/
def step (s : State) : Act → Option State
  | .parent => some (parentStep s)
  | .child => childStep s
  | .orphaned => if s.child = .write then some { s with child := .exited } else none

end Sparo.Demo.IpcDemo
