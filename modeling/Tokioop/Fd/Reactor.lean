import Mathlib.Tactic.Common

/-!
What a watcher task sees of the kernel and of Tokio's I/O driver.

The driver is edge-triggered: an arrival leaves an edge with epoll, the
driver harvests it on its next turn, and harvesting sets the readiness flag
of the `AsyncFd` under a new tick. A task that has observed that there is
nothing left clears the flag through its guard, which only succeeds while the
guard's tick is still the current one.
-/

namespace Tokioop.Fd

/-- One direction of a registered `AsyncFd`. `edge` says that epoll holds an
edge the driver has not harvested. -/
structure AsyncFd where
  edge : Bool
  flag : Bool
  tick : Nat
  deriving DecidableEq, Repr, Inhabited

namespace AsyncFd

/-- A readiness change of the descriptor. -/
def raiseEdge (a : AsyncFd) : AsyncFd := { a with edge := true }

def harvest (a : AsyncFd) : AsyncFd := { edge := false, flag := true, tick := a.tick + 1 }

/-- `AsyncFdReadyGuard::clear_ready` of a guard taken at tick `guard`. -/
def clearReady (a : AsyncFd) (guard : Nat) : AsyncFd :=
  if guard = a.tick then { a with flag := false } else a

def clearGuard (a : AsyncFd) : Option Nat → AsyncFd
  | some guard => a.clearReady guard
  | none => a

/-- `AsyncFd::try_io` whose closure answers `WouldBlock`: the event is read
and cleared in one go, so the tick always matches. -/
def tryIoWouldBlock (a : AsyncFd) : AsyncFd := { a with flag := false }

@[simp] theorem harvest_tick (a : AsyncFd) : a.harvest.tick = a.tick + 1 := rfl
@[simp] theorem tryIoWouldBlock_edge (a : AsyncFd) : a.tryIoWouldBlock.edge = a.edge := rfl
@[simp] theorem clearReady_edge (a : AsyncFd) (g : Nat) : (a.clearReady g).edge = a.edge := by
  unfold clearReady
  split <;> rfl

/-- A flag set under a newer tick survives a stale guard. -/
theorem clearReady_of_ne {a : AsyncFd} {g : Nat} (h : g ≠ a.tick) : a.clearReady g = a := by
  simp [clearReady, h]

end AsyncFd

/-- A datagram source address in the form the watcher task keeps it. -/
inductive AddrRepr
  | inet4 (ip : BitVec 32) (port : BitVec 16)
  | inet6 (ip : BitVec 128) (port : BitVec 16) (flowinfo scopeId : BitVec 32)
  | unix (path : List UInt8)
  | unnamed
  deriving DecidableEq, Repr

structure Datagram where
  payload : List UInt8
  addr : AddrRepr
  deriving DecidableEq, Repr

/-- The `errno` of a failed socket call. -/
abbrev Errno := Nat

/-- Payload read by a drain-mode watcher task. -/
inductive IoData
  | udpDatagram (payload : List UInt8) (addr : AddrRepr)
  | tcpChunk (payload : List UInt8)
  | tcpEof
  | readError (err : Errno)
  deriving DecidableEq, Repr

/-- Drain flavor: datagrams, or a stream read in chunks of bounded size. -/
inductive DrainKind
  | udp
  | tcp (chunk : Nat)
  deriving DecidableEq, Repr

/-- The receive side of a socket: the bytes or datagrams waiting to be read,
an error that the next receive call reports first, and whether the peer has
closed its side (after the last byte, every `recv` answers 0). -/
structure Socket where
  stream : List UInt8
  dgrams : List Datagram
  err : Option Errno
  fin : Bool
  deriving DecidableEq, Repr, Inhabited

def Socket.waiting (s : Socket) : DrainKind → Bool
  | .udp => !s.dgrams.isEmpty
  | .tcp _ => !s.stream.isEmpty

/-- What a non-blocking receive call answers; `EINTR` is retried inside
`tcp_recv` and `udp_recvfrom` and never seen. -/
inductive Recv (α : Type)
  | ok (a : α)
  | wouldBlock
  | fail (err : Errno)
  deriving DecidableEq, Repr

/-- `recv` into a buffer of `chunk` bytes. The kernel hands over between one
byte and a full buffer, `size` being its choice. -/
def Socket.tcpRecv (s : Socket) (chunk size : Nat) : Recv (List UInt8) × Socket :=
  match s.err with
  | some e => (.fail e, { s with err := none })
  | none =>
      if s.stream = [] then (if s.fin then .ok [] else .wouldBlock, s)
      else
        let n := max 1 (min size chunk)
        (.ok (s.stream.take n), { s with stream := s.stream.drop n })

/-- `recvfrom`: one datagram at a time. -/
def Socket.udpRecvfrom (s : Socket) : Recv Datagram × Socket :=
  match s.err with
  | some e => (.fail e, { s with err := none })
  | none =>
      match s.dgrams with
      | [] => (.wouldBlock, s)
      | d :: ds => (.ok d, { s with dgrams := ds })

end Tokioop.Fd
