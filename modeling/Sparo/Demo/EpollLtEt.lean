import Sparo.Misc.StepSystem
import Mathlib.Algebra.Ring.Nat
import Mathlib.Data.Int.Order.Basic

/-!
# `epoll_lt_et`

The server of `src/demo/epoll_lt_et.c` with its clients. The server loops over `epoll_wait` and
handles the events it returns one after the other: it accepts a connection, or it reads from one.
`main` leaves the choice between three handlers and between blocking and non-blocking connections
to commented-out lines; the choice is a parameter here.

The other party is the kernel with the clients. A client connects, sends bytes and closes its end.
A connection is readable while there are bytes in its receive queue or its client has closed.
`epoll_wait` reports a level-triggered descriptor whenever it is readable; an edge-triggered one
only when it is readable and something has arrived since it was last reported. Adding a readable
descriptor to the epoll instance counts as an arrival.

No call fails but `recv`, which returns -1 only for an empty queue of a non-blocking descriptor.
-/

namespace Sparo.Demo.EpollLtEt

/-- `MAX_BUFFER_SIZE`. -/
def maxBufferSize : Nat := 5

/-- `MAX_EPOLL_EVENTS`. -/
def maxEpollEvents : Nat := 20

/-- What handles a readable connection. -/
inductive Handler where
  /-- `EPOLL_LT`, with `epoll_lt`. -/
  | epollLt
  /-- `EPOLL_ET`, with `epoll_et_loop`. -/
  | epollEtLoop
  /-- `EPOLL_ET`, with `epoll_et_nonloop`. -/
  | epollEtNonloop
  deriving DecidableEq, Repr

/-- The choices that `main` and `epoll_process` make. -/
structure Config where
  handler : Handler
  /-- `FD_NONBLOCK`. -/
  nonblock : Bool
  deriving DecidableEq, Repr

/-- How far a connection is. -/
inductive Status where
  /-- In the backlog of the listening socket. -/
  | queued
  | accepted
  | closed
  deriving DecidableEq, Repr

/-- A connection: what the kernel keeps of it, and what went through it. -/
structure Conn where
  status : Status := .queued
  /-- The receive queue. -/
  queue : List UInt8 := []
  /-- The client has closed its end. -/
  fin : Bool := false
  /-- Something has arrived since `epoll_wait` last reported the connection. -/
  armed : Bool := false
  /-- The bytes that have arrived. -/
  sent : List UInt8 := []
  /-- The bytes that `recv` has returned. -/
  received : List UInt8 := []
  deriving DecidableEq, Repr

/-- What `epoll_wait` reports. -/
inductive Event where
  /-- `sockfd` is readable. -/
  | listen
  /-- The `i`-th connection is readable. -/
  | conn (i : Nat)
  deriving DecidableEq, Repr

/-- Where the server is. -/
inductive Pc where
  /-- Before `epoll_wait`. -/
  | wait
  /-- `epoll_process`: at the top of the loop, with the events that are left. -/
  | process (events : List Event)
  /-- `epoll_et_loop`: before `recv` on the `i`-th connection. -/
  | etLoop (i : Nat) (events : List Event)
  deriving DecidableEq, Repr

/-- The connections, in the order in which they were made, and the server. -/
structure State where
  conns : List Conn := []
  pc : Pc := .wait
  deriving DecidableEq, Repr

/-- A label picks the party that moves. -/
inductive Act where
  /-- A client connects. -/
  | connect
  /-- The client of the `i`-th connection sends `bytes`. -/
  | send (i : Nat) (bytes : List UInt8)
  /-- The client of the `i`-th connection closes its end. -/
  | shutdown (i : Nat)
  /-- `epoll_wait` returns `events`. -/
  | epollWait (events : List Event)
  /-- Any other step of the server. -/
  | server
  deriving DecidableEq, Repr

/-- `recv` does not block. -/
def Conn.readable (c : Conn) : Bool := !c.queue.isEmpty || c.fin

/-- `epoll_wait` may report the connection. -/
def Conn.ready (config : Config) (c : Conn) : Bool :=
  c.status = .accepted && c.readable && (config.handler = .epollLt || c.armed)

/-- `epoll_wait` may report the event. The listening socket is level-triggered. -/
def ready (config : Config) (conns : List Conn) : Event → Bool
  | .listen => conns.any fun c => c.status = .queued
  | .conn i => (conns[i]?).any (Conn.ready config)

/-- Reporting the connections of `events`. -/
def report (events : List Event) (conns : List Conn) : List Conn :=
  conns.mapIdx fun i c => if .conn i ∈ events then { c with armed := false } else c

/-- `accept` and `addfd_to_epoll` (`epoll_lt_et.c:136-141`). -/
def accept (conns : List Conn) : List Conn :=
  match conns.findIdx? fun c => c.status = .queued with
  | none => conns
  | some i => conns.modify i fun c => { c with status := .accepted, armed := c.readable }

/-- What `recv(sockfd, buffer, MAX_BUFFER_SIZE, 0)` returns. -/
inductive Recv where
  /-- Some bytes. -/
  | data
  /-- 0. -/
  | eof
  /-- -1 with `EAGAIN`. -/
  | again
  deriving DecidableEq, Repr

/-- `recv`, which may block. -/
def recv (config : Config) (c : Conn) : Option (Recv × Conn) :=
  if !c.queue.isEmpty then
    some (.data, { c with
      queue := c.queue.drop maxBufferSize
      received := c.received ++ c.queue.take maxBufferSize })
  else if c.fin then some (.eof, c)
  else if config.nonblock then some (.again, c)
  else none

/-- `close(sockfd)`. -/
def Conn.close (c : Conn) : Conn := { c with status := .closed }

/-- `epoll_lt` (`epoll_lt_et.c:50-67`) and `epoll_et_nonloop` (`epoll_lt_et.c:99-116`), which are
the same but for what they print: one `recv`, and a `close` if it returned nothing. -/
def readOnce (config : Config) (c : Conn) : Option Conn :=
  (recv config c).map fun (ret, c) => if ret = .data then c else c.close

/-- The next step of the server in `epoll_et_loop` (`epoll_lt_et.c:70-95`). -/
def etLoopStep (config : Config) (s : State) (i : Nat) (events : List Event) (c : Conn) :
    Option State :=
  (recv config c).map fun (ret, c) =>
    match ret with
    | .data => { s with conns := s.conns.set i c }
    | .eof => { conns := s.conns.set i c.close, pc := .process events }
    | .again => { conns := s.conns.set i c, pc := .process events }

/-- The next step of the server in `epoll_process` (`epoll_lt_et.c:119-164`) and in the handlers. -/
def serverStep (config : Config) (s : State) : Option State :=
  match s.pc with
  | .wait => none
  | .process [] => some { s with pc := .wait }
  | .process (.listen :: events) => some { conns := accept s.conns, pc := .process events }
  | .process (.conn i :: events) =>
    if config.handler = .epollEtLoop then some { s with pc := .etLoop i events }
    else (s.conns[i]?).bind fun c => (readOnce config c).map fun c =>
      { conns := s.conns.set i c, pc := .process events }
  | .etLoop i events => (s.conns[i]?).bind (etLoopStep config s i events)

/-- One step. -/
def step (config : Config) (s : State) : Act → Option State
  | .connect => some { s with conns := s.conns ++ [{}] }
  | .send i bytes => (s.conns[i]?).bind fun c =>
    if bytes = [] ∨ c.fin ∨ c.status = .closed then none
    else some { s with
      conns := s.conns.set i { c with
        queue := c.queue ++ bytes
        sent := c.sent ++ bytes
        armed := true } }
  | .shutdown i => (s.conns[i]?).bind fun c =>
    if c.fin ∨ c.status = .closed then none
    else some { s with conns := s.conns.set i { c with fin := true, armed := true } }
  | .epollWait events =>
    if s.pc = .wait ∧ events ≠ [] ∧ events.length ≤ maxEpollEvents ∧ events.Nodup ∧
        ∀ e ∈ events, ready config s.conns e then
      some { conns := report events s.conns, pc := .process events }
    else none
  | .server => serverStep config s

end Sparo.Demo.EpollLtEt
