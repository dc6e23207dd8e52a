import Mathlib.Algebra.GroupWithZero.Nat
import Tokioop.Fd.DrainTask
import Tokioop.Kit.Contract

/-!
The state a stream transport lives in: the attributes of
`_SelectorSocketTransport`, the watchers of its descriptor, the callbacks
and completions the loop holds for it, and its socket.

Removing or replacing a drain watcher aborts its task, so only the live task
is part of the state; the completions it pushed stay in the queue and are
delivered. The fields from `log` on are records kept for the statements. The
calls made to the protocol stand in `log` in the order in which they started;
`untimely` are those of the read side among them that started on a transport
that was paused or closing or had met a fatal error. `read` and `sent` are the
bytes received from and accepted by the kernel, `offered` those that were
passed to `write` and `writelines`; `shutdowns` has what was sent and what had
been offered at each `shutdown`, and `misdelivered` the payloads for which a
method was looked up that the protocol does not have.
-/

namespace Tokioop.Transport

open Fd Kit

inductive ProtocolKind
  | plain
  | buffered
  deriving DecidableEq, Repr

inductive Exc
  | osError (e : Errno)
  | attributeError
  | runtimeError (message : String)
  | assertionError
  | indexError
  | typeError
  | overflowError
  | valueError
  | invalidState
  | userError (n : Nat)
  | systemExit
  | keyboardInterrupt
  deriving DecidableEq, Repr

/-- The exceptions that transports pass on to their caller. -/
def Exc.exits : Exc → Bool
  | .systemExit | .keyboardInterrupt => true
  | _ => false

def Exc.isOSError : Exc → Bool
  | .osError _ => true
  | _ => false

/-- The code a transport calls and does not control. -/
inductive UserCall
  | connectionMade
  | dataReceived (data : List UInt8)
  | eofReceived
  | getBuffer
  | bufferUpdated (nbytes : Nat)
  | pauseWriting
  | resumeWriting
  | connectionLost (exc : Option Exc)
  | exceptionHandler (message : String) (exc : Exc)
  deriving DecidableEq, Repr

/-- The call hands over neither data nor the end of the stream. -/
def UserCall.quiet : UserCall → Bool
  | .dataReceived _ | .eofReceived => false
  | _ => true

/-- A delivery closure of `_replay`; empty data is the end of the stream. -/
inductive ReplayItem
  | stream (data : List UInt8)
  | error (e : Errno)
  deriving DecidableEq, Repr

inductive Reader
  | callback (slot : Nat)
  | drain (task : DrainTask)
  deriving DecidableEq, Repr

/-- What the transport has scheduled with `call_soon`. -/
inductive Job
  | connectionMade
  | registerReader
  | callConnectionLost (exc : Option Exc)
  deriving DecidableEq, Repr

/-- The completions of this transport's watchers. -/
inductive IoItem
  | data (d : IoData)
  | callback (slot : Nat)
  deriving DecidableEq, Repr

inductive ReadReadyCb
  | getBuffer
  | dataReceived
  deriving DecidableEq, Repr

inductive Waiter
  | pending
  | done
  deriving DecidableEq, Repr

structure World where
  protocol : Option ProtocolKind
  protocolConnected : Bool
  buffer : List (List UInt8)
  connLost : Nat
  closing : Bool
  paused : Bool
  replay : List ReplayItem
  -- `_drain_kind`: "tcp" or `None`.
  drainTcp : Bool
  readReadyCb : Option ReadReadyCb
  eof : Bool
  emptyWaiter : Option Waiter
  protocolPaused : Bool
  -- `_sock` and `_loop` are not `None`.
  attached : Bool
  maxSize : Nat
  iovMax : Nat
  highWater : Nat
  lowWater : Nat
  reader : Option Reader
  writer : Option Nat
  nextSlot : Nat
  ready : List Job
  io : List IoItem
  kernel : Socket
  shutdownWr : Bool
  log : List UserCall
  untimely : List UserCall
  read : List UInt8
  sent : List UInt8
  offered : List UInt8
  shutdowns : List (List UInt8 × List UInt8)
  misdelivered : List (List UInt8)
  -- `_fatal_error` has been called.
  fatal : Bool
  -- How often `_call_connection_lost` has been executed.
  teardowns : Nat
  deriving DecidableEq, Repr

def World.new (kind : ProtocolKind) (kernel : Socket) : World :=
  { protocol := some kind, protocolConnected := true, buffer := [], connLost := 0,
    closing := false, paused := false, replay := [], drainTcp := kind = .plain,
    readReadyCb := some (if kind = .plain then .dataReceived else .getBuffer), eof := false,
    emptyWaiter := none, protocolPaused := false, attached := true, maxSize := 256 * 1024,
    iovMax := 1024, highWater := 64 * 1024, lowWater := 16 * 1024, reader := none, writer := none,
    nextSlot := 0, ready := [.connectionMade, .registerReader], io := [], kernel := kernel,
    shutdownWr := false, log := [], untimely := [], read := [], sent := [], offered := [],
    shutdowns := [], misdelivered := [], fatal := false, teardowns := 0 }

/-! ### The bytes on their way -/

def UserCall.bytes : UserCall → List UInt8
  | .dataReceived data => data
  | _ => []

def ReplayItem.bytes : ReplayItem → List UInt8
  | .stream data => data
  | .error _ => []

def streamBytes : IoData → List UInt8
  | .tcpChunk payload => payload
  | _ => []

def IoItem.bytes : IoItem → List UInt8
  | .data d => streamBytes d
  | .callback _ => []

/-- What a completion hands to `_drain_stream` or `_drain_error`. -/
def IoItem.payload : IoItem → Option ReplayItem
  | .data (.tcpChunk payload) => some (.stream payload)
  | .data .tcpEof => some (.stream [])
  | .data (.readError e) => some (.error e)
  | _ => none

namespace World

def delivered (s : World) : List UInt8 := s.log.flatMap UserCall.bytes
def replayBytes (s : World) : List UInt8 := s.replay.flatMap ReplayItem.bytes
def ioBytes (s : World) : List UInt8 := s.io.flatMap IoItem.bytes

/-- What has been read and not delivered, the oldest first. -/
def pending (s : World) : List ReplayItem := s.replay ++ s.io.filterMap IoItem.payload

def isReading (s : World) : Bool := !s.closing && !s.paused

/-- `loop._is_polling(fd, False)`: a watcher that is registered is live. -/
def isPolling (s : World) : Bool := s.reader.isSome

/-- The call has started. -/
def logged (s : World) (e : UserCall) : World :=
  { s with
    log := s.log ++ [e]
    untimely :=
      if !e.quiet && (s.paused || s.closing || s.fatal) then s.untimely ++ [e] else s.untimely }

def getWriteBufferSize (s : World) : Nat := (s.buffer.map List.length).sum

/-- `max_size.clamp(4096, 64 * 1024)`. -/
def chunk (s : World) : Nat := max 4096 (min s.maxSize (64 * 1024))

end World

/-! ### The language of the methods -/

/-- What is asked of the kernel. -/
inductive Query
  -- `dup` and `AsyncFd::new` of a registration, of a reader or of a writer.
  | register (read : Bool)
  -- How much a `recv` hands over.
  | recv
  -- `send` or `sendmsg` of this many bytes.
  | send (size : Nat)
  deriving DecidableEq, Repr

inductive Reply
  | done (n : Nat)
  | wouldBlock
  | fail (e : Errno)
  deriving DecidableEq, Repr

def Reply.failed : Reply → Bool
  | .fail _ => true
  | _ => false

/-- A method of the transport; a callback returns a number, which is the
truth value of `eof_received` and the length of the buffer of `get_buffer`. -/
abbrev Meth := Prog World UserCall Nat Exc Query Reply

end Tokioop.Transport
