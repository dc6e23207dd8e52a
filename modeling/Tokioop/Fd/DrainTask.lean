import Tokioop.Fd.Reactor
import Tokioop.Kit.Runs

/-!
The drain-mode watcher task: `drain_task` and `drain_loop` of `fd_unix.rs`.

The task reads the socket itself and pushes one completion per chunk or
datagram. It suspends at three places only, `readable()`, and the two
`yield_now()` after an end of stream and after a full quantum; the program
counter below names these places, the head of the read loop of a quantum, and
the code between the read loop and the next suspension. `drainStep` is one
step of the task; everything the task does to the socket, to its `AsyncFd`
and to the completion queue is in the result.
-/

namespace Tokioop.Fd

def udpQuantum : Nat := 16
def tcpQuantumItems : Nat := 4
def tcpQuantumBytes : Nat := 256 * 1024

/-- Where the drain task is. `guard` is the tick of the readiness guard the
current `drain_loop` was given, `none` in the priming call. -/
inductive DrainPc
  /-- Spawned and not polled yet. -/
  | start
  /-- At the head of the read loop, with the locals of this quantum. -/
  | recv (guard : Option Nat) (n bytes : Nat) (pushed : Bool)
  /-- Out of the read loop. -/
  | wrapUp (guard : Option Nat) (pushed drained eof : Bool)
  /-- In `yield_now().await`. -/
  | yielded (guard : Option Nat) (eof : Bool)
  /-- In `afd.readable().await`. -/
  | readable
  | finished
  deriving DecidableEq, Repr

/-- A drain task with the `AsyncFd` it owns. -/
structure DrainTask where
  pc : DrainPc
  afd : AsyncFd
  deriving DecidableEq, Repr

/-- The outcome of one step: the completions it pushed, and whether it
notified the loop. -/
structure DrainOut where
  task : DrainTask
  sock : Socket
  pushes : List IoData
  notify : Bool
  deriving DecidableEq, Repr

/-- The task goes on at `pc` having touched nothing else. -/
def DrainTask.goto (t : DrainTask) (sock : Socket) (pc : DrainPc) : DrainOut :=
  ⟨{ t with pc := pc }, sock, [], false⟩

def udpTurn (t : DrainTask) (sock : Socket) (guard : Option Nat) (n bytes : Nat)
    (pushed : Bool) : DrainOut :=
  if n < udpQuantum then
    match sock.udpRecvfrom with
    | (.ok d, sock') =>
        ⟨{ t with pc := .recv guard (n + 1) bytes true }, sock', [.udpDatagram d.payload d.addr],
          false⟩
    | (.wouldBlock, sock') => t.goto sock' (.wrapUp guard pushed true false)
    | (.fail e, sock') =>
        ⟨{ t with pc := .wrapUp guard true true false }, sock', [.readError e], false⟩
  else t.goto sock (.wrapUp guard pushed false false)

def tcpTurn (t : DrainTask) (sock : Socket) (chunk size : Nat) (guard : Option Nat)
    (n bytes : Nat) (pushed : Bool) : DrainOut :=
  if n < tcpQuantumItems ∧ bytes < tcpQuantumBytes then
    match sock.tcpRecv chunk size with
    | (.ok [], sock') => ⟨{ t with pc := .wrapUp guard true true true }, sock', [.tcpEof], false⟩
    | (.ok (b :: bs), sock') =>
        ⟨{ t with pc := .recv guard (n + 1) (bytes + (bs.length + 1)) true }, sock',
          [.tcpChunk (b :: bs)], false⟩
    | (.wouldBlock, sock') => t.goto sock' (.wrapUp guard pushed true false)
    | (.fail e, sock') =>
        ⟨{ t with pc := .wrapUp guard true true false }, sock', [.readError e], false⟩
  else t.goto sock (.wrapUp guard pushed false false)

/-- One step of the task; `dead` is the `dead` field of its slot, `size` the
kernel's choice for a stream read. `none` means the task cannot run. -/
def drainStep (kind : DrainKind) (dead : Bool) (size : Nat) (t : DrainTask) (sock : Socket) :
    Option DrainOut :=
  match t.pc with
  | .start => some (t.goto sock (if dead then .readable else .recv none 0 0 false))
  | .recv guard n bytes pushed =>
      match kind with
      | .udp => some (udpTurn t sock guard n bytes pushed)
      | .tcp chunk => some (tcpTurn t sock chunk size guard n bytes pushed)
  | .wrapUp guard pushed drained eof =>
      if eof then some { t.goto sock (.yielded guard true) with notify := pushed }
      else if drained then
        -- `clear_ready` through the guard, then back in `drain_task`.
        some ⟨⟨if dead then .finished else .readable, t.afd.clearGuard guard⟩, sock, [], pushed⟩
      else some { t.goto sock (.yielded guard false) with notify := pushed }
  | .yielded guard _ => some (t.goto sock (if dead then .finished else .recv guard 0 0 false))
  | .readable =>
      if t.afd.flag then
        some (t.goto sock (if dead then .finished else .recv (some t.afd.tick) 0 0 false))
      else none
  | .finished => none

/-- A task as `add_drain_watcher` spawns it; the registration of a descriptor
that is already ready may or may not leave an edge. -/
def DrainTask.fresh (edge : Bool) : DrainTask := ⟨.start, ⟨edge, false, 0⟩⟩

/-! ### The task, its socket and the driver -/

/-- A drain watcher with the socket it reads. -/
structure DrainSys where
  sock : Socket
  task : DrainTask
  dead : Bool
  io : List IoData
  deriving DecidableEq, Repr

inductive DrainMove
  /-- Bytes or a datagram reach the receive queue. -/
  | arriveBytes (bs : List UInt8)
  | arriveDatagram (d : Datagram)
  /-- A socket error becomes pending, for example from an ICMP message. -/
  | arriveError (e : Errno)
  /-- The peer closes its side. -/
  | arriveFin
  /-- The driver harvests the edge. -/
  | harvest
  /-- The task takes a step. -/
  | run (size : Nat)
  /-- A batch takes a completion off the queue. -/
  | deliver
  /-- The watcher is detached. -/
  | detach
  deriving DecidableEq, Repr

/-- Put something on the receive side; every arrival raises an edge. -/
def DrainSys.arrive (s : DrainSys) (sock : Socket) : DrainSys :=
  { s with sock := sock, task := { s.task with afd := s.task.afd.raiseEdge } }

def DrainSys.after (s : DrainSys) (o : DrainOut) : DrainSys :=
  { s with sock := o.sock, task := o.task, io := s.io ++ o.pushes }

def DrainSys.step (kind : DrainKind) (s : DrainSys) : DrainMove → Option DrainSys
  | .arriveBytes bs =>
      if bs = [] ∨ s.sock.fin then none
      else some (s.arrive { s.sock with stream := s.sock.stream ++ bs })
  | .arriveDatagram d => some (s.arrive { s.sock with dgrams := s.sock.dgrams ++ [d] })
  | .arriveError e => some (s.arrive { s.sock with err := some e })
  | .arriveFin => some (s.arrive { s.sock with fin := true })
  | .harvest =>
      if s.task.afd.edge then some { s with task := { s.task with afd := s.task.afd.harvest } }
      else none
  | .run size => (drainStep kind s.dead size s.task s.sock).map s.after
  | .deliver => match s.io with
      | [] => none
      | _ :: io => some { s with io := io }
  | .detach => some { s with dead := true }

/-- A freshly registered watcher on a socket in any state. -/
def DrainSys.Init (s : DrainSys) : Prop :=
  (∃ edge, s.task = DrainTask.fresh edge) ∧ s.dead = false ∧ s.io = []

end Tokioop.Fd
