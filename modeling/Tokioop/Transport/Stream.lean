import Tokioop.Transport.State

/-!
The methods of `_SelectorSocketTransport`, with the flow control mixin of the
standard library.

Each definition is the method of the same name, statement by statement. Debug
logging is left out. Everything that goes through `self._loop` raises once
the connection is lost, since `_loop` is then `None`.
-/

namespace Tokioop.Transport

open Fd Kit Kit.Prog

/-! ### Calling out -/

/-- Call code outside the transport, recording that the call has started. -/
def invoke (e : UserCall) : Meth Nat := do
  modify fun s => s.logged e
  callback e

/-- A use of `self._loop`. -/
def onLoop (f : World → World) : Meth Unit := do
  if (← get).attached then modify f else raise .attributeError

/-- `loop.call_exception_handler`, which swallows what the handler raises. -/
def callExceptionHandler (message : String) (exc : Exc) : Meth Unit := do
  if (← get).attached then
    tryCatch (discard (invoke (.exceptionHandler message exc))) fun _ => pure ()
  else raise .attributeError

def removeReader : Meth Unit := onLoop fun s => { s with reader := none }
def removeWriter : Meth Unit := onLoop fun s => { s with writer := none }
def callSoon (j : Job) : Meth Unit := onLoop fun s => { s with ready := s.ready ++ [j] }

/-- `loop._add_tcp_reader`; the kernel also says whether registering a ready
descriptor leaves an edge. -/
def addTcpReader : Meth Unit := do
  if (← get).attached then
    match ← query (.register true) with
    | .fail e => raise (.osError e)
    | .done n =>
        modify fun s => { s with reader := some (.drain (DrainTask.fresh (decide (n ≠ 0)))) }
    | .wouldBlock => modify fun s => { s with reader := some (.drain (DrainTask.fresh false)) }
  else raise .attributeError

/-- `loop._add_reader` and `loop._add_writer`. -/
def addCallback (read : Bool) (f : World → World) : Meth Unit := do
  if (← get).attached then
    match ← query (.register read) with
    | .fail e => raise (.osError e)
    | _ => modify f
  else raise .attributeError

def addReader : Meth Unit :=
  addCallback true fun s =>
    { s with reader := some (.callback s.nextSlot), nextSlot := s.nextSlot + 1 }

def addWriter : Meth Unit :=
  addCallback false fun s => { s with writer := some s.nextSlot, nextSlot := s.nextSlot + 1 }

/-! ### Tearing down -/

/-- `if self._buffer: self._buffer.clear(); self._loop._remove_writer(fd)`. -/
def dropBuffer : Meth Unit := do
  if (← get).buffer ≠ [] then
    modify fun s => { s with buffer := [] }
    removeWriter
  else pure ()

/-- `if not self._closing: self._closing = True; self._loop._remove_reader(fd)`. -/
def beginClosing : Meth Unit := do
  if (← get).closing then pure ()
  else
    modify fun s => { s with closing := true }
    removeReader

/-- `self._conn_lost += 1` and the scheduling of `_call_connection_lost`. -/
def scheduleConnectionLost (exc : Option Exc) : Meth Unit := do
  modify fun s => { s with connLost := s.connLost + 1 }
  callSoon (.callConnectionLost exc)

def forceClose (exc : Option Exc) : Meth Unit := do
  if (← get).connLost ≠ 0 then pure ()
  else
    dropBuffer
    beginClosing
    scheduleConnectionLost exc

def abort : Meth Unit := forceClose none

/-- `loop.get_debug()`, which decides only on what is logged. -/
def getDebug : Meth Unit := do
  if (← get).attached then pure () else raise .attributeError

def reportFatal (exc : Exc) (message : String) : Meth Unit :=
  if exc.isOSError then getDebug else callExceptionHandler message exc

def fatalError (exc : Exc) (message : String) : Meth Unit := do
  modify fun s => { s with fatal := true }
  reportFatal exc message
  forceClose (some exc)

def baseClose : Meth Unit := do
  if (← get).closing then pure ()
  else
    beginClosing
    if (← get).buffer = [] then
      modify fun s => { s with connLost := s.connLost + 1 }
      removeWriter
      callSoon (.callConnectionLost none)
    else pure ()

def close : Meth Unit := do
  modify fun s => { s with readReadyCb := none }
  baseClose

/-- Resolve the future of `_make_empty_waiter`, which raises the second time. -/
def resolveEmptyWaiter : Meth Unit := do
  match (← get).emptyWaiter with
  | none => pure ()
  | some .pending => modify fun s => { s with emptyWaiter := some .done }
  | some .done => raise .invalidState

def baseCallConnectionLost (exc : Option Exc) : Meth Unit :=
  tryFinally
    (do
      let s ← get
      if s.protocolConnected then
        if s.protocol.isSome then discard (invoke (.connectionLost exc)) else raise .attributeError
      else pure ())
    (onLoop fun s => { s with attached := false, protocol := none })

def callConnectionLost (exc : Option Exc) : Meth Unit := do
  modify fun s => { s with teardowns := s.teardowns + 1 }
  tryFinally (baseCallConnectionLost exc) resolveEmptyWaiter

/-- The clause `except (SystemExit, KeyboardInterrupt): raise` followed by
`except BaseException as exc: self._fatal_error(exc, message)`. -/
def orFatal {α : Type} (message : String) (k : α → Meth Unit) : Except Exc α → Meth Unit
  | .ok a => k a
  | .error e => if e.exits then raise e else fatalError e message

/-! ### Reading -/

def registerReader : Meth Unit := do
  let s ← get
  if s.isReading then
    if s.drainTcp then addTcpReader else addReader
  else pure ()

/-- `protocol.data_received`, which a `BufferedProtocol` does not have. -/
def dataReceived (data : List UInt8) : Meth Unit := do
  match (← get).protocol with
  | some .plain => discard (invoke (.dataReceived data))
  | some .buffered =>
      modify fun s => { s with misdelivered := s.misdelivered ++ [data] }
      raise .attributeError
  | none => raise .attributeError

def eofReceived : Meth Nat := do
  if (← get).protocol.isSome then invoke .eofReceived else raise .attributeError

def getBuffer : Meth Nat := do
  match (← get).protocol with
  | some .buffered => do
      let len ← invoke .getBuffer
      if len = 0 then raise (.runtimeError "get_buffer() returned an empty buffer") else pure len
  | _ => raise .attributeError

def bufferUpdated (nbytes : Nat) : Meth Unit := do
  match (← get).protocol with
  | some .buffered => discard (invoke (.bufferUpdated nbytes))
  | _ => raise .attributeError

def readReadyOnEof : Meth Unit :=
  eofReceived.andThen <| orFatal "Fatal error: protocol.eof_received() call failed." fun keepOpen =>
    if keepOpen ≠ 0 then removeReader else close

def deliverStream (data : List UInt8) : Meth Unit :=
  if data = [] then readReadyOnEof
  else
    (dataReceived data).andThen <|
      orFatal "Fatal error: protocol.data_received() call failed." pure

def deliverError (e : Errno) : Meth Unit :=
  fatalError (.osError e) "Fatal read error on socket transport"

def deliverReplay : ReplayItem → Meth Unit
  | .stream data => deliverStream data
  | .error e => deliverError e

def flushTurn : Meth Bool := do
  let s ← get
  match s.replay with
  | [] => pure false
  | item :: rest =>
      if !s.paused && !s.closing && s.connLost = 0 then
        modify fun s => { s with replay := rest }
        deliverReplay item
        pure true
      else pure false

def flushReplay : Meth Unit := repeatWhile flushTurn

def pauseReading : Meth Unit := do
  if (← get).isReading then
    modify fun s => { s with paused := true }
    if (← get).drainTcp then pure () else removeReader
  else pure ()

def resumeReading : Meth Unit := do
  let s ← get
  if s.closing || !s.paused then pure ()
  else
    modify fun s => { s with paused := false }
    flushReplay
    let s ← get
    if s.paused || s.closing then pure ()
    else if s.isPolling then pure ()
    else registerReader

/-- Bring the live registration in line with a changed `_drain_kind`. -/
def switchReader (drainTcp : Bool) : Meth Unit := do
  if (← get).drainTcp ≠ drainTcp then
    modify fun s => { s with drainTcp := drainTcp }
    let s ← get
    if s.attached && !s.closing && !s.paused && s.isPolling then
      removeReader
      registerReader
    else pure ()
  else pure ()

def setProtocol (kind : ProtocolKind) : Meth Unit := do
  modify fun s =>
    { s with readReadyCb := some (if kind = .plain then .dataReceived else .getBuffer) }
  switchReader (decide (kind = .plain))
  modify fun s => { s with protocol := some kind, protocolConnected := true }

def drainStream (data : List UInt8) : Meth Unit := do
  let s ← get
  if s.connLost ≠ 0 ∨ s.closing then pure ()
  else if s.paused then modify fun s => { s with replay := s.replay ++ [.stream data] }
  else deliverStream data

def drainError (e : Errno) : Meth Unit := do
  let s ← get
  if s.connLost ≠ 0 ∨ s.closing then pure ()
  else if s.paused then modify fun s => { s with replay := s.replay ++ [.error e] }
  else deliverError e

/-- `sock.recv` and `sock.recv_into` with a buffer of `size` bytes. -/
def sockRecv (size : Nat) : Meth (Recv (List UInt8)) := do
  if (← get).attached then
    match ← query .recv with
    | .wouldBlock => pure .wouldBlock
    | .fail e => pure (.fail e)
    | .done n => do
        let r := (← get).kernel.tcpRecv size n
        modify fun s =>
          { s with kernel := r.2
                   read := s.read ++ match r.1 with | .ok data => data | _ => [] }
        pure r.1
  else raise .attributeError

/-- A read in callback mode and what follows it. -/
def afterRecv (k : List UInt8 → Meth Unit) : Recv (List UInt8) → Meth Unit
  | .ok [] => readReadyOnEof
  | .ok data => k data
  | .wouldBlock => pure ()
  | .fail e => fatalError (.osError e) "Fatal read error on socket transport"

def readReadyGetBuffer : Meth Unit := do
  if (← get).connLost ≠ 0 then pure ()
  else
    getBuffer.andThen <| orFatal "Fatal error: protocol.get_buffer() call failed." fun size =>
      (sockRecv size).andThen <| orFatal "Fatal read error on socket transport" <|
        afterRecv fun data =>
          (bufferUpdated data.length).andThen <|
            orFatal "Fatal error: protocol.buffer_updated() call failed." pure

def maxStreamReadsPerEvent : Nat := 16

/-- The loop of `_read_ready__data_received`, `n` turns of it. -/
def readBurst : Nat → Meth Unit
  | 0 => pure ()
  | n + 1 => do
      let size := (← get).maxSize
      (sockRecv size).andThen <| orFatal "Fatal read error on socket transport" <|
        afterRecv fun data =>
          (dataReceived data).andThen <|
            orFatal "Fatal error: protocol.data_received() call failed." fun _ => do
              let s ← get
              if s.connLost ≠ 0 ∨ s.closing ∨ s.paused then pure () else readBurst n

def readReadyDataReceived : Meth Unit := do
  if (← get).connLost ≠ 0 then pure () else readBurst maxStreamReadsPerEvent

def readReady : Meth Unit := do
  match (← get).readReadyCb with
  | some .getBuffer => readReadyGetBuffer
  | some .dataReceived => readReadyDataReceived
  | none => raise .typeError

end Tokioop.Transport
