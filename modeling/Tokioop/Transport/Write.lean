import Tokioop.Transport.Stream

/-!
The write side of `_SelectorSocketTransport` on the `sendmsg` path, and the
jobs and completions through which the loop drives a transport.
-/

namespace Tokioop.Transport

open Fd Kit Kit.Prog

/-! ### Flow control -/

/-- A call of the protocol's flow control whose failure only reaches the
exception handler. -/
def flowControl (e : UserCall) (message : String) : Meth Unit := do
  let call : Meth Unit := do
    if (← get).protocol.isSome then discard (invoke e) else raise .attributeError
  tryCatch call fun exc => if exc.exits then raise exc else callExceptionHandler message exc

def maybePauseProtocol : Meth Unit := do
  let s ← get
  if s.getWriteBufferSize ≤ s.highWater ∨ s.protocolPaused then pure ()
  else
    modify fun s => { s with protocolPaused := true }
    flowControl .pauseWriting "protocol.pause_writing() failed"

def maybeResumeProtocol : Meth Unit := do
  let s ← get
  if s.protocolPaused ∧ s.getWriteBufferSize ≤ s.lowWater then
    modify fun s => { s with protocolPaused := false }
    flowControl .resumeWriting "protocol.resume_writing() failed"
  else pure ()

/-- The limits that `set_write_buffer_limits` fills in. -/
def writeBufferLimits (high low : Option Nat) : Nat × Nat :=
  let high := high.getD (match low with | some low => 4 * low | none => 64 * 1024)
  (high, low.getD (high / 4))

def setWriteBufferLimits (high low : Option Nat) : Meth Unit := do
  let limits := writeBufferLimits high low
  if limits.1 < limits.2 then raise .valueError
  else
    modify fun s => { s with highWater := limits.1, lowWater := limits.2 }
    maybePauseProtocol

/-! ### Writing -/

/-- `sock.send` and `sock.sendmsg`; the answer is the number of bytes that
the kernel accepted, `none` when it would block or was interrupted. -/
def sockSend (data : List UInt8) : Meth (Option Nat) := do
  if (← get).attached then
    match ← query (.send data.length) with
    | .wouldBlock => pure none
    | .fail e => raise (.osError e)
    | .done n => do
        modify fun s => { s with sent := s.sent ++ data.take n }
        pure (some (min n data.length))
  else raise .attributeError

/-- Keep what the kernel did not take. -/
def bufferRest (data : List UInt8) : Meth Unit := do
  modify fun s => { s with buffer := s.buffer ++ [data] }
  maybePauseProtocol

def write (data : List UInt8) : Meth Unit := do
  let s ← get
  if s.eof then raise (.runtimeError "Cannot call write() after write_eof()")
  else if s.emptyWaiter.isSome then
    raise (.runtimeError "unable to write; sendfile is in progress")
  else
    modify fun s => { s with offered := s.offered ++ data }
    if data = [] then pure ()
    else if s.connLost ≠ 0 then modify fun s => { s with connLost := s.connLost + 1 }
    else if s.buffer = [] then
      (sockSend data).andThen <| orFatal "Fatal write error on socket transport" fun
        | none => do
            addWriter
            bufferRest data
        | some n =>
            if data.drop n = [] then pure ()
            else do
              addWriter
              bufferRest (data.drop n)
    else bufferRest data

/-- `_adjust_leftover_buffer`, with `none` for the `IndexError` of an empty
deque. -/
def adjustLeftoverBuffer : List (List UInt8) → Nat → Option (List (List UInt8))
  | bs, 0 => some bs
  | [], _ + 1 => none
  | b :: bs, n + 1 =>
      if b.length ≤ n + 1 then adjustLeftoverBuffer bs (n + 1 - b.length)
      else some (b.drop (n + 1) :: bs)

/-- The body of the `try` of `_write_sendmsg`. -/
def sendBuffer : Meth Bool := do
  let s ← get
  match ← sockSend (s.buffer.take s.iovMax).flatten with
  | none => pure false
  | some n =>
      match adjustLeftoverBuffer (← get).buffer n with
      | none => raise .indexError
      | some rest => do
          modify fun s => { s with buffer := rest }
          pure true

/-- `self._sock.shutdown(socket.SHUT_WR)`. -/
def shutdownWrite : Meth Unit :=
  onLoop fun s =>
    { s with shutdownWr := true, shutdowns := s.shutdowns ++ [(s.sent, s.offered)] }

/-- The `else` clause of `_write_sendmsg`. -/
def afterSend : Meth Unit := do
  maybeResumeProtocol
  if (← get).buffer = [] then
    removeWriter
    resolveEmptyWaiter
    let s ← get
    if s.closing then callConnectionLost none
    else if s.eof then shutdownWrite
    else pure ()
  else pure ()

def writeSendmsg : Meth Unit := do
  let s ← get
  if s.buffer = [] then raise .assertionError
  else if s.connLost ≠ 0 then pure ()
  else sendBuffer.andThen fun
    | .ok true => afterSend
    | .ok false => pure ()
    | .error exc =>
        if exc.exits then raise exc
        else do
          removeWriter
          modify fun s => { s with buffer := [] }
          fatalError exc "Fatal write error on socket transport"
          resolveEmptyWaiter

def writeEof : Meth Unit := do
  let s ← get
  if s.closing || s.eof then pure ()
  else
    modify fun s => { s with eof := true }
    if s.buffer = [] then shutdownWrite else pure ()

/-- Once the connection is lost `_write_ready` is `None`, and calling it is a
`TypeError`. -/
def writelines (lines : List (List UInt8)) : Meth Unit := do
  let s ← get
  if s.eof then raise (.runtimeError "Cannot call writelines() after write_eof()")
  else if s.emptyWaiter.isSome then
    raise (.runtimeError "unable to writelines; sendfile is in progress")
  else if lines = [] then pure ()
  else if s.connLost ≠ 0 then
    modify fun s =>
      { s with connLost := s.connLost + 1, offered := s.offered ++ lines.flatten }
  else if !s.attached then
    modify fun s => { s with buffer := s.buffer ++ lines }
    raise .typeError
  else
    modify fun s =>
      { s with buffer := s.buffer ++ lines, offered := s.offered ++ lines.flatten }
    writeSendmsg
    if (← get).buffer = [] then pure ()
    else
      addWriter
      maybePauseProtocol

def makeEmptyWaiter : Meth Unit := do
  let s ← get
  if s.emptyWaiter.isSome then raise (.runtimeError "Empty waiter is already set")
  else
    onLoop fun s =>
      { s with emptyWaiter := some (if s.buffer = [] then .done else .pending) }

def resetEmptyWaiter : Meth Unit := modify fun s => { s with emptyWaiter := none }

/-! ### What the loop calls -/

def runJob : Job → Meth Unit
  | .connectionMade => discard (invoke .connectionMade)
  | .registerReader => registerReader
  | .callConnectionLost exc => callConnectionLost exc

/-- `report_callback_error`: the handler runs and its own failure is dropped. -/
def reportCallbackError (exc : Exc) : Meth Unit :=
  tryCatch (discard (invoke (.exceptionHandler "Exception in callback" exc))) fun _ => pure ()

/-- The batch takes the next ready callback of this transport. -/
def popReady : Meth Unit := do
  match (← get).ready with
  | [] => pure ()
  | j :: rest => do
      modify fun s => { s with ready := rest }
      tryCatch (runJob j) reportCallbackError

/-- `deliver_drain_data`, and the lookup of the slot's callback. -/
def runItem : IoItem → Meth Unit
  | .data (.tcpChunk payload) => drainStream payload
  | .data .tcpEof => drainStream []
  | .data (.readError e) => drainError e
  | .data (.udpDatagram _ _) => pure ()
  | .callback slot => do
      let s ← get
      if s.reader = some (.callback slot) then readReady
      else if s.writer = some slot then writeSendmsg
      else pure ()

def popIo : Meth Unit := do
  match (← get).io with
  | [] => pure ()
  | item :: rest => do
      modify fun s => { s with io := rest }
      tryCatch (runItem item) reportCallbackError

/-! ### The transport and its world -/

inductive Method
  | pauseReading
  | resumeReading
  | registerReader
  | setProtocol (kind : ProtocolKind)
  | close
  | abort
  | write (data : List UInt8)
  | writelines (lines : List (List UInt8))
  | writeEof
  | setWriteBufferLimits (high low : Option Nat)
  | makeEmptyWaiter
  | resetEmptyWaiter
  | popReady
  | popIo
  deriving DecidableEq

def Method.body : Method → Meth Unit
  | .pauseReading => Transport.pauseReading
  | .resumeReading => Transport.resumeReading
  | .registerReader => Transport.registerReader
  | .setProtocol kind => Transport.setProtocol kind
  | .close => Transport.close
  | .abort => Transport.abort
  | .write data => Transport.write data
  | .writelines lines => Transport.writelines lines
  | .writeEof => Transport.writeEof
  | .setWriteBufferLimits high low => Transport.setWriteBufferLimits high low
  | .makeEmptyWaiter => Transport.makeEmptyWaiter
  | .resetEmptyWaiter => Transport.resetEmptyWaiter
  | .popReady => Transport.popReady
  | .popIo => Transport.popIo

/-- The batch runs the loop's callbacks; they are not called from callbacks. -/
def Method.ofBatch : Method → Bool
  | .popReady | .popIo => true
  | _ => false

inductive Env
  | arriveBytes (bs : List UInt8)
  | arriveFin
  | arriveError (e : Errno)
  -- The driver harvests the edge of the drain task.
  | harvest
  -- The drain task takes a step.
  | drainRun (size : Nat)
  -- The task of a callback-mode watcher pushes a completion.
  | fireReader
  | fireWriter
  deriving DecidableEq

/-- The kernel moves at any time; tasks share the thread of the batch, and
run only when no callback is open. -/
def Env.ofKernel : Env → Bool
  | .arriveBytes _ | .arriveFin | .arriveError _ => true
  | _ => false

namespace World

/-- Something reaches the socket, which raises an edge. -/
def arrive (s : World) (kernel : Socket) : World :=
  { s with
    kernel := kernel
    reader := match s.reader with
      | some (.drain t) => some (.drain { t with afd := t.afd.raiseEdge })
      | r => r }

/-- The world after a step of the drain task. -/
def afterDrain (s : World) (o : DrainOut) : World :=
  { s with
    reader := some (.drain o.task)
    kernel := o.sock
    io := s.io ++ o.pushes.map .data
    read := s.read ++ o.pushes.flatMap streamBytes }

def env (s : World) : Env → Option World
  | .arriveBytes bs =>
      if bs = [] ∨ s.kernel.fin then none
      else some (s.arrive { s.kernel with stream := s.kernel.stream ++ bs })
  | .arriveFin => some (s.arrive { s.kernel with fin := true })
  | .arriveError e => some (s.arrive { s.kernel with err := some e })
  | .harvest =>
      match s.reader with
      | some (.drain t) =>
          if t.afd.edge then
            some { s with reader := some (.drain { t with afd := t.afd.harvest }) }
          else none
      | _ => none
  | .drainRun size =>
      match s.reader with
      | some (.drain t) =>
          (drainStep (.tcp s.chunk) false size t s.kernel).map s.afterDrain
      | _ => none
  | .fireReader =>
      match s.reader with
      | some (.callback slot) => some { s with io := s.io ++ [.callback slot] }
      | _ => none
  | .fireWriter =>
      match s.writer with
      | some slot => some { s with io := s.io ++ [.callback slot] }
      | none => none

end World

def transport : Host World UserCall Nat Exc Query Reply Method Env where
  body := Method.body
  env := fun h s => s.env h

abbrev TransportPolicy := Policy World UserCall Nat Exc Query Reply Method Env

end Tokioop.Transport
