import Tokioop.Transport.State

/-!
The state a datagram transport lives in: the attributes of
`_SelectorDatagramTransport`, the watchers of its descriptor, the callbacks
and completions the loop holds for it, and its socket.

A datagram transport always reads in drain mode. The fields from `log` on are
records kept for the statements, with the meaning they have for stream
transports; `sent` are the datagrams that the kernel accepted.
-/

namespace Tokioop.Datagram

open Fd Kit
open Transport (Exc Query Reply Job IoItem)

/-- What an `error_received` is about: a read, the attempt of `sendto` to send
right away, or one of `_sendto_ready`. -/
inductive ErrorSource
  | read
  | sendto
  | writer
  deriving DecidableEq, Repr

/-- The code a transport calls and does not control. -/
inductive UserCall
  | connectionMade
  | datagramReceived (data : List UInt8) (addr : AddrRepr)
  | errorReceived (e : Errno) (source : ErrorSource)
  | pauseWriting
  | resumeWriting
  | connectionLost (exc : Option Exc)
  | exceptionHandler (message : String) (exc : Exc)
  deriving DecidableEq, Repr

namespace UserCall

def isMade : UserCall → Bool
  | .connectionMade => true
  | _ => false

/-- `datagram_received`, and `error_received` for a read error. -/
def isRead : UserCall → Bool
  | .datagramReceived _ _ => true
  | .errorReceived _ source => source = .read
  | _ => false

def isLost : UserCall → Bool
  | .connectionLost _ => true
  | _ => false

end UserCall

/-- A delivery closure of `_replay`. -/
inductive ReplayItem
  | datagram (data : List UInt8) (addr : AddrRepr)
  | error (e : Errno)
  deriving DecidableEq, Repr

/-- The argument `data` of `sendto`: its bytes, and what `len` says of it, which for a
view is the number of its items. -/
structure Payload where
  bytes : List UInt8
  len : Nat
  deriving DecidableEq, Repr

def Payload.ofBytes (bytes : List UInt8) : Payload := ⟨bytes, bytes.length⟩

/-- Where to send a datagram. -/
inductive Target
  | addr (a : AddrRepr)
  -- Something else, for which the socket raises a `TypeError`, or an `OverflowError`
  -- if it is only that the port is out of range.
  | malformed (overflow : Bool)
  deriving DecidableEq, Repr

def Target.wellFormed : Target → Bool
  | .addr _ => true
  | .malformed _ => false

/-- What is in `_buffer`: the data and where to send it. -/
abbrev Outgoing := List UInt8 × Option Target

structure World where
  -- `_protocol` is not `None`.
  protocol : Bool
  protocolConnected : Bool
  address : Option Target
  -- The truth value of `_extra["peername"]`.
  peername : Bool
  buffer : List Outgoing
  bufferSize : Int
  connLost : Nat
  closing : Bool
  paused : Bool
  replay : List ReplayItem
  protocolPaused : Bool
  -- `_sock` and `_loop` are not `None`.
  attached : Bool
  highWater : Nat
  lowWater : Nat
  reader : Option DrainTask
  writer : Option Nat
  nextSlot : Nat
  ready : List Job
  io : List IoItem
  kernel : Socket
  log : List UserCall
  untimely : List UserCall
  sent : List Outgoing
  -- `_fatal_error` has been called.
  fatal : Bool
  -- How often `_call_connection_lost` has been executed.
  teardowns : Nat
  deriving DecidableEq, Repr

namespace World

def new (address : Option Target) (peername : Bool) (kernel : Socket) : World :=
  { protocol := true, protocolConnected := true, address := address, peername := peername,
    buffer := [], bufferSize := 0, connLost := 0, closing := false, paused := false, replay := [],
    protocolPaused := false, attached := true, highWater := 64 * 1024, lowWater := 16 * 1024,
    reader := none, writer := none, nextSlot := 0, ready := [.connectionMade, .registerReader],
    io := [], kernel := kernel, log := [], untimely := [], sent := [], fatal := false,
    teardowns := 0 }

def isReading (s : World) : Bool := !s.closing && !s.paused

/-- `loop._is_polling(fd, False)`: a watcher that is registered is live. -/
def isPolling (s : World) : Bool := s.reader.isSome

def getWriteBufferSize (s : World) : Int := s.bufferSize

/-- The call has started. -/
def logged (s : World) (e : UserCall) : World :=
  { s with
    log := s.log ++ [e]
    untimely :=
      if e.isRead && (s.paused || s.closing || s.fatal) then s.untimely ++ [e] else s.untimely }

/-- The socket knows where to send the datagram. -/
def addressed (s : World) (d : Outgoing) : Bool := s.peername || d.2.any Target.wellFormed

theorem isReading_iff (s : World) :
    s.isReading = true ↔ s.closing = false ∧ s.paused = false := by
  simp [isReading]

end World

abbrev Meth := Prog World UserCall Unit Exc Query Reply

end Tokioop.Datagram
