import Tokioop.Datagram.State
import Tokioop.Transport.Write

/-!
The methods of `_SelectorDatagramTransport`, with those it inherits from
`_SelectorTransport` and from the flow control mixin of the standard library,
and the jobs and completions through which the loop drives it.

Each definition is the method of the same name, statement by statement. Debug
logging is left out. Everything that goes through `self._loop` raises once
the connection is lost, since `_loop` is then `None`.
-/

namespace Tokioop.Datagram

open Fd Kit Kit.Prog
open Transport (Exc Query Reply Job IoItem writeBufferLimits)

/-! ### Calling out -/

/-- Call code outside the transport, recording that the call has started. -/
def invoke (e : UserCall) : Meth Unit := do
  modify fun s => s.logged e
  callback e

/-- A call of a method of `self._protocol`. -/
def callProtocol (e : UserCall) : Meth Unit := do
  if (← get).protocol then invoke e else raise .attributeError

/-- A use of `self._loop`. -/
def onLoop (f : World → World) : Meth Unit := do
  if (← get).attached then modify f else raise .attributeError

/-- `loop.call_exception_handler`, which swallows what the handler raises. -/
def callExceptionHandler (message : String) (exc : Exc) : Meth Unit := do
  if (← get).attached then
    tryCatch (invoke (.exceptionHandler message exc)) fun _ => pure ()
  else raise .attributeError

def removeReader : Meth Unit := onLoop fun s => { s with reader := none }
def removeWriter : Meth Unit := onLoop fun s => { s with writer := none }
def callSoon (j : Job) : Meth Unit := onLoop fun s => { s with ready := s.ready ++ [j] }

/-- `loop._add_udp_reader`; the kernel also says whether registering a ready
descriptor leaves an edge. -/
def addUdpReader : Meth Unit := do
  if (← get).attached then
    match ← query (.register true) with
    | .fail e => raise (.osError e)
    | .done n => modify fun s => { s with reader := some (DrainTask.fresh (decide (n ≠ 0))) }
    | .wouldBlock => modify fun s => { s with reader := some (DrainTask.fresh false) }
  else raise .attributeError

def addWriter : Meth Unit := do
  if (← get).attached then
    match ← query (.register false) with
    | .fail e => raise (.osError e)
    | _ => modify fun s => { s with writer := some s.nextSlot, nextSlot := s.nextSlot + 1 }
  else raise .attributeError

/-! ### Tearing down -/

/-- `if self._buffer: self._buffer.clear(); self._loop._remove_writer(fd)`. -/
def dropBuffer : Meth Unit := do
  if (← get).buffer ≠ [] then
    modify fun s => { s with buffer := [] }
    removeWriter
  else pure ()

/-- `if not self._closing: self._closing = True; self._loop._remove_reader(fd)`. -/
def beginClosing : Meth Unit := do
  if (← get).closing then pure ()
  else
    modify fun s => { s with closing := true }
    removeReader

def forceClose (exc : Option Exc) : Meth Unit := do
  if (← get).connLost ≠ 0 then pure ()
  else
    dropBuffer
    beginClosing
    modify fun s => { s with connLost := s.connLost + 1 }
    callSoon (.callConnectionLost exc)

def abort : Meth Unit := forceClose none

/-- `loop.get_debug()`, which decides only on what is logged. -/
def getDebug : Meth Unit := do
  if (← get).attached then pure () else raise .attributeError

def reportFatal (exc : Exc) (message : String) : Meth Unit :=
  if exc.isOSError then getDebug else callExceptionHandler message exc

def fatalError (exc : Exc) (message : String) : Meth Unit := do
  modify fun s => { s with fatal := true }
  reportFatal exc message
  forceClose (some exc)

def close : Meth Unit := do
  if (← get).closing then pure ()
  else
    beginClosing
    if (← get).buffer = [] then
      modify fun s => { s with connLost := s.connLost + 1 }
      removeWriter
      callSoon (.callConnectionLost none)
    else pure ()

def callConnectionLost (exc : Option Exc) : Meth Unit := do
  modify fun s => { s with teardowns := s.teardowns + 1 }
  tryFinally
    (do if (← get).protocolConnected then callProtocol (.connectionLost exc) else pure ())
    (onLoop fun s => { s with attached := false, protocol := false })

/-- The clause `except (SystemExit, KeyboardInterrupt): raise` followed by
`except BaseException as exc: self._fatal_error(exc, message)`. -/
def orFatal (message : String) : Except Exc Unit → Meth Unit
  | .ok _ => pure ()
  | .error e => if e.exits then raise e else fatalError e message

/-! ### Reading -/

def registerReader : Meth Unit := do
  if (← get).isReading then addUdpReader else pure ()

def deliverDatagram (data : List UInt8) (addr : AddrRepr) : Meth Unit :=
  (callProtocol (.datagramReceived data addr)).andThen <|
    orFatal "Fatal read error on datagram transport"

def deliverError (e : Errno) : Meth Unit := callProtocol (.errorReceived e .read)

def deliverReplay : ReplayItem → Meth Unit
  | .datagram data addr => deliverDatagram data addr
  | .error e => deliverError e

def flushTurn : Meth Bool := do
  let s ← get
  match s.replay with
  | [] => pure false
  | item :: rest =>
      if !s.paused && !s.closing && s.connLost = 0 then
        modify fun s => { s with replay := rest }
        deliverReplay item
        pure true
      else pure false

def flushReplay : Meth Unit := repeatWhile flushTurn

def pauseReading : Meth Unit := do
  if (← get).isReading then modify fun s => { s with paused := true } else pure ()

def resumeReading : Meth Unit := do
  let s ← get
  if s.closing || !s.paused then pure ()
  else
    modify fun s => { s with paused := false }
    flushReplay
    let s ← get
    if s.paused || s.closing then pure ()
    else if s.isPolling then pure ()
    else registerReader

def drain (item : ReplayItem) : Meth Unit := do
  let s ← get
  if s.connLost ≠ 0 ∨ s.closing then pure ()
  else if s.paused then modify fun s => { s with replay := s.replay ++ [item] }
  else deliverReplay item

def drainDatagram (data : List UInt8) (addr : AddrRepr) : Meth Unit := drain (.datagram data addr)
def drainError (e : Errno) : Meth Unit := drain (.error e)

def setProtocol : Meth Unit :=
  modify fun s => { s with protocol := true, protocolConnected := true }

/-! ### Flow control -/

/-- A call of the protocol's flow control whose failure only reaches the
exception handler. -/
def flowControl (e : UserCall) (message : String) : Meth Unit :=
  tryCatch (callProtocol e) fun exc =>
    if exc.exits then raise exc else callExceptionHandler message exc

def maybePauseProtocol : Meth Unit := do
  let s ← get
  if s.getWriteBufferSize ≤ s.highWater ∨ s.protocolPaused then pure ()
  else
    modify fun s => { s with protocolPaused := true }
    flowControl .pauseWriting "protocol.pause_writing() failed"

def maybeResumeProtocol : Meth Unit := do
  let s ← get
  if s.protocolPaused ∧ s.getWriteBufferSize ≤ s.lowWater then
    modify fun s => { s with protocolPaused := false }
    flowControl .resumeWriting "protocol.resume_writing() failed"
  else pure ()

def setWriteBufferLimits (high low : Option Nat) : Meth Unit := do
  let limits := writeBufferLimits high low
  if limits.1 < limits.2 then raise .valueError
  else
    modify fun s => { s with highWater := limits.1, lowWater := limits.2 }
    maybePauseProtocol

/-! ### Writing -/

def headerSize : Nat := 8

/-- What a datagram in the buffer counts for in `_buffer_size`. -/
def Outgoing.size (d : Outgoing) : Int := d.1.length + headerSize

/-- What `sock.sendto` raises for an address. -/
def refusal : Option Target → Exc
  | some (.malformed true) => .overflowError
  | _ => .typeError

/-- `sock.send` of a connected socket and `sock.sendto` of another; `false`
when the kernel would block or was interrupted. -/
def sockSend (d : Outgoing) : Meth Bool := do
  let s ← get
  if s.attached then
    if s.addressed d then
      match ← query (.send d.1.length) with
      | .wouldBlock => pure false
      | .fail e => raise (.osError e)
      | .done _ => do
          modify fun s => { s with sent := s.sent ++ [d] }
          pure true
    else raise (refusal d.2)
  else raise .attributeError

/-- The `except` clauses around a send. -/
def sendFailed (source : ErrorSource) : Exc → Meth Unit
  | .osError e => callProtocol (.errorReceived e source)
  | e => if e.exits then raise e else fatalError e "Fatal write error on datagram transport"

/-- The end of `sendto`. The bytes are buffered, and the length of the argument is
counted. -/
def enqueue (d : Outgoing) (len : Nat) : Meth Unit := do
  modify fun s =>
    { s with buffer := s.buffer ++ [d], bufferSize := s.bufferSize + (len + headerSize : Nat) }
  maybePauseProtocol

def sendto (data : Payload) (addr : Option Target) : Meth Unit := do
  let s ← get
  if s.address.isSome ∧ addr.isSome ∧ addr ≠ s.address then raise .valueError
  else
    let d : Outgoing := (data.bytes, s.address.or addr)
    if s.connLost ≠ 0 ∧ s.address.isSome then
      modify fun s => { s with connLost := s.connLost + 1 }
    else if s.buffer = [] then
      (sockSend d).andThen fun
        | .ok true => pure ()
        | .ok false => do
            addWriter
            enqueue d data.len
        | .error e => sendFailed .sendto e
    else enqueue d data.len

/-- The loop of `_sendto_ready`, at most `n` turns of it; `false` when the
method returns from inside the loop. -/
def sendQueued : Nat → Meth Bool
  | 0 => pure true
  | n + 1 => do
      match (← get).buffer with
      | [] => pure true
      | d :: rest => do
          modify fun s => { s with buffer := rest, bufferSize := s.bufferSize - d.size }
          (sockSend d).andThen fun
            | .ok true => sendQueued n
            | .ok false => do
                modify fun s =>
                  { s with buffer := d :: s.buffer, bufferSize := s.bufferSize + d.size }
                pure true
            | .error e => do
                sendFailed .writer e
                pure false

/-- What `_sendto_ready` does after the loop. -/
def afterSending : Meth Unit := do
  maybeResumeProtocol
  if (← get).buffer = [] then
    removeWriter
    if (← get).closing then callConnectionLost none else pure ()
  else pure ()

/-- No code but the transport's own runs between the turns of the loop, so
that it takes at most one turn for each datagram. -/
def sendtoReady : Meth Unit := do
  if ← sendQueued (← get).buffer.length then afterSending else pure ()

/-! ### What the loop calls -/

def runJob : Job → Meth Unit
  | .connectionMade => invoke .connectionMade
  | .registerReader => registerReader
  | .callConnectionLost exc => callConnectionLost exc

/-- `report_callback_error`: the handler runs and its own failure is dropped. -/
def reportCallbackError (exc : Exc) : Meth Unit :=
  tryCatch (invoke (.exceptionHandler "Exception in callback" exc)) fun _ => pure ()

/-- The batch takes the next ready callback of this transport. -/
def popReady : Meth Unit := do
  match (← get).ready with
  | [] => pure ()
  | j :: rest => do
      modify fun s => { s with ready := rest }
      tryCatch (runJob j) reportCallbackError

/-- `deliver_drain_data`, and the lookup of the slot's callback. -/
def runItem : IoItem → Meth Unit
  | .data (.udpDatagram payload addr) => drainDatagram payload addr
  | .data (.readError e) => drainError e
  | .data (.tcpChunk _) | .data .tcpEof => pure ()
  | .callback slot => do if (← get).writer = some slot then sendtoReady else pure ()

def popIo : Meth Unit := do
  match (← get).io with
  | [] => pure ()
  | item :: rest => do
      modify fun s => { s with io := rest }
      tryCatch (runItem item) reportCallbackError

/-! ### The transport and its world -/

inductive Method
  | pauseReading
  | resumeReading
  | registerReader
  | setProtocol
  | close
  | abort
  | sendto (data : Payload) (addr : Option Target)
  | setWriteBufferLimits (high low : Option Nat)
  | popReady
  | popIo
  deriving DecidableEq

def Method.body : Method → Meth Unit
  | .pauseReading => Datagram.pauseReading
  | .resumeReading => Datagram.resumeReading
  | .registerReader => Datagram.registerReader
  | .setProtocol => Datagram.setProtocol
  | .close => Datagram.close
  | .abort => Datagram.abort
  | .sendto data addr => Datagram.sendto data addr
  | .setWriteBufferLimits high low => Datagram.setWriteBufferLimits high low
  | .popReady => Datagram.popReady
  | .popIo => Datagram.popIo

/-- The batch runs the loop's callbacks; they are not called from callbacks. -/
def Method.ofBatch : Method → Bool
  | .popReady | .popIo => true
  | _ => false

inductive Env
  | arriveDatagram (d : Fd.Datagram)
  | arriveError (e : Errno)
  -- The driver harvests the edge of the drain task.
  | harvest
  -- The drain task takes a step.
  | drainRun
  -- The task of the writer pushes a completion.
  | fireWriter
  deriving DecidableEq

/-- The kernel moves at any time; tasks share the thread of the batch, and
run only when no callback is open. -/
def Env.ofKernel : Env → Bool
  | .arriveDatagram _ | .arriveError _ => true
  | _ => false

namespace World

/-- Something reaches the socket, which raises an edge. -/
def arrive (s : World) (kernel : Socket) : World :=
  { s with
    kernel := kernel
    reader := s.reader.map fun t => { t with afd := t.afd.raiseEdge } }

/-- The world after a step of the drain task. -/
def afterDrain (s : World) (o : DrainOut) : World :=
  { s with reader := some o.task, kernel := o.sock, io := s.io ++ o.pushes.map .data }

def env (s : World) : Env → Option World
  | .arriveDatagram d => some (s.arrive { s.kernel with dgrams := s.kernel.dgrams ++ [d] })
  | .arriveError e => some (s.arrive { s.kernel with err := some e })
  | .harvest =>
      match s.reader with
      | some t =>
          if t.afd.edge then some { s with reader := some { t with afd := t.afd.harvest } }
          else none
      | none => none
  | .drainRun =>
      match s.reader with
      | some t => (drainStep .udp false 0 t s.kernel).map s.afterDrain
      | none => none
  | .fireWriter =>
      match s.writer with
      | some slot => some { s with io := s.io ++ [.callback slot] }
      | none => none

end World

def transport : Host World UserCall Unit Exc Query Reply Method Env where
  body := Method.body
  env := fun h s => s.env h

abbrev TransportPolicy := Policy World UserCall Unit Exc Query Reply Method Env

/-- Methods are called in any order; batches and tasks wait for callbacks to
return. -/
def anyCall : TransportPolicy where
  call top m _ := top = false → m.ofBatch = false
  env top h _ := top = false → h.ofKernel = true
  ret _ _ _ := True
  answer _ _ _ := True

instance (top : Bool) (m : Method) (s : World) : Decidable (anyCall.call top m s) :=
  inferInstanceAs (Decidable (_ → _))

instance (top : Bool) (h : Env) (s : World) : Decidable (anyCall.env top h s) :=
  inferInstanceAs (Decidable (_ → _))

instance (e : UserCall) (r : Except Exc Unit) (s : World) : Decidable (anyCall.ret e r s) :=
  inferInstanceAs (Decidable True)

instance (q : Query) (a : Reply) (s : World) : Decidable (anyCall.answer q a s) :=
  inferInstanceAs (Decidable True)

def someone : Option Target := some (.addr .unnamed)

/-- `connection_made` runs and the reader is registered. -/
def connect : List (Move Unit Exc Reply Method Env) :=
  [Move.andRun (.call .popReady) 4, Move.andRun (.ret (.ok ())) 1, Move.andRun (.call .popReady) 4,
    Move.andRun (.answer (.done 0)) 2].flatten

end Tokioop.Datagram
