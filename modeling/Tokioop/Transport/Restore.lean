import Tokioop.Fd.SockSendfile
import Tokioop.Transport.EmptyWaiter
import Tokioop.Transport.Sendfile

/-!
What `loop.sendfile` does to the transport it is given, and what it puts back.

`_sendfile_native` takes the transport out of `_transports`, pauses reading and
waits for the write buffer to empty; the `try` that undoes this begins behind
the `await`. `_sendfile_fallback` puts a protocol of its own in the place of the
transport's, and `restore` is the last step of its `finally`. The coroutine is
followed from one call of the outside to the next, with what these calls answer
as moves; other code has its turn where the coroutine is suspended. The machine
stands still when the coroutine has ended, and when the transport is closed.
-/

namespace Tokioop.Transport.Restore

open Fd Kit EmptyWaiter
open SockSendfile (Request)

/-! ### The transport -/

structure FallbackProtocol where
  shouldResumeReading : Bool
  writeReadyFut : Option Fut
  -- The future that `drain` waits for.
  awaited : Option Fut
  deriving DecidableEq, Repr

inductive Protocol
  | original
  | fallback (p : FallbackProtocol)
  deriving DecidableEq, Repr

def Protocol.pauseWriting : Protocol → Protocol
  | .original => .original
  | .fallback p =>
      if p.writeReadyFut.isSome then .fallback p
      else .fallback { p with writeReadyFut := some .pending }

/-- The future is completed before it is put away, so that one that has been
cancelled stays. The transport reports what is raised. -/
def Protocol.resumeWriting : Protocol → Protocol
  | .original => .original
  | .fallback p =>
      match p.writeReadyFut with
      | some .pending =>
          .fallback
            { p with
              writeReadyFut := none
              awaited := p.awaited.map fun f => if f = .pending then .result else f }
      | _ => .fallback p

/-- A stream transport, with its entry in `_transports`. -/
structure Line where
  registered : Bool
  paused : Bool
  -- `_is_polling(fd, False)`.
  polling : Bool
  -- `_drain_kind` is `"tcp"`.
  drainTcp : Bool
  closing : Bool
  eof : Bool
  buffer : List (List UInt8)
  emptyWaiter : Option Fut
  protocol : Protocol
  -- The protocol it came with is a `BufferedProtocol`.
  buffered : Bool
  protocolPaused : Bool
  highWater : Nat
  lowWater : Nat
  deriving DecidableEq, Repr

/-- What `_flush_replay` comes to, through the protocol that gets what was kept:
it may pause reading, have the reader removed, close the transport and raise. -/
structure Delivered where
  pauses : Bool
  unwatches : Bool
  closes : Bool
  exits : Bool
  deriving DecidableEq, Repr

namespace Line

def isReading (s : Line) : Bool := !s.closing && !s.paused

def pauseReading (s : Line) : Line :=
  if s.isReading then { s with paused := true, polling := s.polling && s.drainTcp } else s

def flushReplay (s : Line) (d : Delivered) : Line :=
  { s with
    paused := d.pauses
    polling := s.polling && !d.unwatches && (s.drainTcp || !d.pauses)
    closing := d.closes }

def resumeReading (s : Line) (d : Delivered) (registers : Bool) : Line × Bool :=
  if s.closing || !s.paused then (s, false)
  else
    let s := s.flushReplay d
    if d.exits then (s, true)
    else if s.paused || s.closing || s.polling then (s, false)
    else ({ s with polling := registers }, !registers)

/-- Whether a protocol has its data read for it. -/
def drains (s : Line) : Protocol → Bool
  | .original => !s.buffered
  | .fallback _ => true

def setProtocol (s : Line) (p : Protocol) (registers : Bool) : Line × Bool :=
  let tcp := s.drains p
  if tcp ≠ s.drainTcp ∧ s.isReading ∧ s.polling ∧ !registers then
    ({ s with drainTcp := tcp, polling := false }, true)
  else ({ s with drainTcp := tcp, protocol := p }, false)

def getWriteBufferSize (s : Line) : Nat := (s.buffer.map List.length).sum

def maybePauseProtocol (s : Line) : Line :=
  if s.getWriteBufferSize ≤ s.highWater ∨ s.protocolPaused then s
  else { s with protocolPaused := true, protocol := s.protocol.pauseWriting }

def maybeResumeProtocol (s : Line) : Line :=
  if s.protocolPaused ∧ s.getWriteBufferSize ≤ s.lowWater then
    { s with protocolPaused := false, protocol := s.protocol.resumeWriting }
  else s

/-- `set_result` and `set_exception` of the future, if there is one, and whether
this raises `InvalidStateError`. -/
def settle (s : Line) (f : Fut) : Line × Bool :=
  match s.emptyWaiter with
  | none => (s, false)
  | some .pending => ({ s with emptyWaiter := some f }, false)
  | some _ => (s, true)

/-- The writer callback, and whether it raises. What the protocol does when it
is told to resume writing can be taken to happen behind it, and a connection
that stands can be shut down. -/
def writeReady (h : Handler) (s : Line) (a : Reply) : Line × Bool :=
  if s.buffer = [] then (s, false)
  else
    match h.attempt s.buffer a with
    | .failed => { s with buffer := [], closing := true }.settle .exception
    | .blocked rest => ({ s with buffer := rest }, false)
    | .sent rest =>
        if rest = [] then { s with buffer := rest }.maybeResumeProtocol.settle .result
        else ({ s with buffer := rest }.maybeResumeProtocol, false)

def keep (s : Line) (rest : List UInt8) (registers : Bool) : Line × Bool :=
  if registers then ({ s with buffer := [rest] }.maybePauseProtocol, false) else (s, true)

def write (s : Line) (data : List UInt8) (a : Reply) (registers : Bool) : Line × Bool :=
  if s.eof || s.emptyWaiter.isSome then (s, true)
  else if data = [] then (s, false)
  else if s.buffer = [] then
    match a with
    | .wouldBlock => s.keep data registers
    | .fail _ => ({ s with closing := true }, false)
    | .done n => if data.drop n = [] then (s, false) else s.keep (data.drop n) registers
  else ({ s with buffer := s.buffer ++ [data] }.maybePauseProtocol, false)

def writelines (h : Handler) (s : Line) (lines : List (List UInt8)) (a : Reply)
    (registers : Bool) : Line × Bool :=
  if s.eof || s.emptyWaiter.isSome then (s, true)
  else if lines = [] then (s, false)
  else
    let r := { s with buffer := s.buffer ++ lines }.writeReady h a
    if r.2 || r.1.buffer = [] then r
    else if registers then (r.1.maybePauseProtocol, false)
    else (r.1, true)

/-- What happens on the write side of a transport. -/
inductive Use
  | write (data : List UInt8) (a : Reply) (registers : Bool)
  | writelines (lines : List (List UInt8)) (a : Reply) (registers : Bool)
  | writeEof
  | fire (a : Reply)
  deriving DecidableEq

def use (h : Handler) (s : Line) : Use → Line
  | .write data a registers => (s.write data a registers).1
  | .writelines lines a registers => (s.writelines h lines a registers).1
  | .writeEof => { s with eof := true }
  | .fire a => (s.writeReady h a).1

end Line

/-! ### The coroutine -/

inductive Pc
  | idle
  /-- In `await transp._make_empty_waiter()`. -/
  | emptying
  /-- In the `finally` of `_sendfile_native`. -/
  | unwinding
  /-- In front of `file.seek(offset)`. -/
  | opening
  /-- In front of `self.run_in_executor(None, file.readinto, view)`. -/
  | submitting
  /-- In `await` of it. -/
  | reading
  /-- The executor has read this, and the loop has yet to resume. -/
  | resumed (data : List UInt8)
  /-- The future of the executor has an exception, or was cancelled. -/
  | failed
  /-- In front of `transp.write(view[:read])`. -/
  | passing (data : List UInt8)
  /-- In `await proto.drain()`. -/
  | draining (read : Nat)
  /-- In the `finally` of `_sendfile_fallback`. -/
  | finishing
  /-- In `restore`, in front of `set_protocol` and of `resume_reading`. -/
  | restoring
  | resuming (should : Bool)
  | ended
  deriving DecidableEq, Repr

/-- The task runs nothing, and other code has its turn. -/
def Pc.suspended : Pc → Bool
  | .idle | .emptying | .reading | .resumed _ | .failed | .draining _ => true
  | _ => false

structure Call where
  line : Line
  pc : Pc
  mustCancel : Bool
  -- Whether the transport was reading, which is `resume_reading` of `_sendfile_native`.
  wasReading : Bool
  blocksize : Nat
  totalSent : Nat
  deriving DecidableEq, Repr

/-- Before `sendfile` is called. The protocol that the transport has then is the
original one. -/
def Call.idle (t : Line) : Call :=
  { line := { t with protocol := .original }, pc := .idle, mustCancel := false
    wasReading := false, blocksize := 0, totalSent := 0 }

namespace Call

/-- `sendfile` up to the `await` of the future; the buffer of an empty transport
is not waited for. -/
def sendfile (c : Call) : Call :=
  let c := { c with wasReading := c.line.isReading }
  if c.line.registered then
    let t := { c.line with registered := false }.pauseReading
    match t.emptyWaiter with
    | some _ => { c with line := t, pc := .ended }
    | none =>
        if t.buffer = [] then
          { c with line := { t with emptyWaiter := some .result }, pc := .unwinding }
        else { c with line := { t with emptyWaiter := some .pending }, pc := .emptying }
  else { c with pc := .ended }

/-- The first two steps of the `finally` of `_sendfile_native`. -/
def resumed (c : Call) (d : Delivered) (registers : Bool) : Line × Bool :=
  let t := { c.line with emptyWaiter := none }
  if c.wasReading then t.resumeReading d registers else (t, false)

/-- What `sendfile` makes of the error of `sock_sendfile`. -/
def afterNative (r : Request) : Pc :=
  match { r with fallback := false }.start with
  | .error .notAvailable => if r.fallback then .opening else .ended
  | _ => .ended

def unwind (r : Request) (c : Call) (d : Delivered) (registers : Bool) : Call :=
  let resumed := c.resumed d registers
  if resumed.2 then { c with line := resumed.1, pc := .ended }
  else { c with line := { resumed.1 with registered := true }, pc := afterNative r }

def loopHead (r : Request) (c : Call) : Call :=
  match r.limit with
  | some count =>
      let blocksize := min (count - c.totalSent) c.blocksize
      if blocksize = 0 then { c with blocksize := blocksize, pc := .finishing }
      else { c with blocksize := blocksize, pc := .submitting }
  | none => { c with pc := .submitting }

/-- `_SendfileFallbackProtocol(transp)`. Reading is paused when it sets itself
as the protocol. -/
def takeProtocol (t : Line) : Line :=
  let p : FallbackProtocol :=
    { shouldResumeReading := t.isReading
      writeReadyFut := if t.protocolPaused then some .pending else none
      awaited := none }
  (t.pauseReading.setProtocol (.fallback p) true).1

/-- `_sendfile_fallback` up to the first block; `ok` says whether `seek`
returns. -/
def start (r : Request) (c : Call) (ok : Bool) : Call :=
  if r.file.hasSeek && !ok then { c with pc := .ended }
  else
    let blocksize := match r.limit with
      | some count => min count Sendfile.Request.readbufferSize
      | none => Sendfile.Request.readbufferSize
    { c with line := takeProtocol c.line, blocksize := blocksize, totalSent := 0 }.loopHead r

def pass (r : Request) (c : Call) (data : List UInt8) (a : Reply) (registers : Bool) : Call :=
  let written := c.line.write data a registers
  if written.2 || written.1.closing then { c with line := written.1, pc := .finishing }
  else
    match written.1.protocol with
    | .fallback p =>
        match p.writeReadyFut with
        | some f =>
            { c with
              line := { written.1 with protocol := .fallback { p with awaited := some f } }
              pc := .draining data.length }
        | none =>
            { c with line := written.1, totalSent := c.totalSent + data.length }.loopHead r
    | .original =>
        { c with line := written.1, totalSent := c.totalSent + data.length }.loopHead r

def awaited (c : Call) : Option Fut :=
  match c.line.protocol with
  | .fallback p => p.awaited
  | .original => none

/-- The loop resumes the task, if what that waits for is done. -/
def wake (r : Request) (c : Call) : Call :=
  match c.pc with
  | .emptying =>
      match c.line.emptyWaiter with
      | none | some .pending => c
      | some .result => { c with pc := if c.mustCancel then .ended else .unwinding }
      | some .exception | some .cancelled => { c with pc := .ended }
  | .resumed data =>
      { c with pc := if c.mustCancel || data = [] then .finishing else .passing data }
  | .failed => { c with pc := .finishing }
  | .draining read =>
      match c.awaited with
      | none | some .pending => c
      | some .result =>
          if c.mustCancel then { c with pc := .finishing }
          else { c with totalSent := c.totalSent + read }.loopHead r
      | some .exception | some .cancelled => { c with pc := .finishing }
  | _ => c

def finish (r : Request) (c : Call) (ok : Bool) : Call :=
  if 0 < c.totalSent ∧ r.file.hasSeek ∧ !ok then { c with pc := .ended }
  else { c with pc := .restoring }

def restore (c : Call) (registers : Bool) : Call :=
  let set := c.line.setProtocol .original registers
  if set.2 then { c with line := set.1, pc := .ended }
  else
    match c.line.protocol with
    | .fallback p => { c with line := set.1, pc := .resuming p.shouldResumeReading }
    | .original => { c with line := set.1, pc := .resuming false }

/-- `task.cancel()`, which cancels the future the task waits for, or is kept
for the wakeup when that is done. -/
def cancel (c : Call) : Call :=
  match c.pc with
  | .emptying =>
      if c.line.emptyWaiter = some .pending then
        { c with line := { c.line with emptyWaiter := some .cancelled } }
      else { c with mustCancel := true }
  | .reading => { c with pc := .failed }
  | .resumed _ | .failed => { c with mustCancel := true }
  | .draining _ =>
      match c.line.protocol with
      | .fallback p =>
          if p.awaited = some .pending then
            { c with
              line :=
                { c.line with
                  protocol := .fallback
                    { p with writeReadyFut := some .cancelled, awaited := some .cancelled } } }
          else { c with mustCancel := true }
      | .original => c
  | _ => c

end Call

inductive Move
  -- What the coroutine does next.
  | sendfile
  | wake
  | seek (ok : Bool)
  | submit (ok : Bool)
  | pass (a : Reply) (registers : Bool)
  | setProtocol (registers : Bool)
  | resume (d : Delivered) (registers : Bool)
  -- What happens while it is suspended.
  | read (data : List UInt8)
  | readFails
  | cancel
  | use (u : Line.Use)
  | pauseReading
  | resumeReading (d : Delivered) (registers : Bool)
  | close
  deriving DecidableEq

def Call.run (r : Request) (c : Call) : Move → Call
  | .sendfile => if c.pc = .idle then c.sendfile else c
  | .wake => c.wake r
  | .seek ok =>
      match c.pc with
      | .opening => c.start r ok
      | .finishing => c.finish r ok
      | _ => c
  | .submit ok =>
      if c.pc = .submitting then { c with pc := if ok then .reading else .finishing } else c
  | .pass a registers =>
      match c.pc with
      | .passing data => c.pass r data a registers
      | _ => c
  | .setProtocol registers => if c.pc = .restoring then c.restore registers else c
  | .resume d registers =>
      match c.pc with
      | .unwinding => c.unwind r d registers
      | .resuming should =>
          { c with
            line := if should then (c.line.resumeReading d registers).1 else c.line
            pc := .ended }
      | _ => c
  | .read data => if c.pc = .reading then { c with pc := .resumed (data.take c.blocksize) } else c
  | .readFails => if c.pc = .reading then { c with pc := .failed } else c
  | .cancel => c.cancel
  | _ => c

def Line.other (h : Handler) (t : Line) : Move → Line
  | .use u => t.use h u
  | .pauseReading => t.pauseReading
  | .resumeReading d registers => (t.resumeReading d registers).1
  | .close => { t with closing := true }
  | _ => t

def step (h : Handler) (r : Request) (c : Call) (m : Move) : Call :=
  if c.line.closing || c.pc = .ended then c
  else
    let c := c.run r m
    if c.pc.suspended then { c with line := c.line.other h m } else c

/-! ### What is restored -/

/-- The transport is as it was found, and stays clear of `InvalidStateError`
however it is written to. -/
structure Call.Restored (h : Handler) (c : Call) : Prop where
  registered : c.line.registered = true
  reading : c.line.isReading = c.wasReading
  accepts : c.line.emptyWaiter = none
  protocol : c.line.protocol = .original
  draining : ∀ (us : List Line.Use) (a : Reply),
    ((us.foldl (Line.use h) c.line).writeReady h a).2 = false

/-- `sendfile` has not ended with the transport open and not restored. -/
def Call.Safe (h : Handler) (c : Call) : Prop :=
  c.pc = .ended → c.line.closing = false → c.Restored h

/-- Nobody changes whether the transport reads: other code does not resume
reading where it was paused before, and the protocol does not pause it when it
gets what was kept. -/
def Undisturbed (c : Call) : Move → Prop
  | .resumeReading _ _ => c.pc = .idle ∨ c.wasReading = true
  | .resume d _ => c.wasReading = true → d.pauses = false
  | _ => True

/-- The task is not cancelled while it waits for the buffer to empty,
`resume_reading` and `set_protocol` find their reader accepted, and the last
`seek` returns. -/
def Careful (r : Request) (c : Call) (m : Move) : Prop :=
  c.line.closing = false →
    match m with
    | .sendfile => c.pc = .idle → c.line.registered = true ∧ c.line.emptyWaiter = none
    | .wake =>
        c.pc = .emptying →
          c.line.emptyWaiter ≠ some .cancelled ∧ c.line.emptyWaiter ≠ some .exception ∧
            (c.line.emptyWaiter = some .result → c.mustCancel = false)
    | .seek ok => c.pc = .finishing → 0 < c.totalSent → r.file.hasSeek = true → ok = true
    | .setProtocol registers =>
        c.pc = .restoring → (c.line.setProtocol .original registers).2 = false
    | .resume d registers =>
        c.pc = .unwinding → (c.resumed d registers).2 = true →
          (c.resumed d registers).1.closing = true
    | _ => True

instance (c : Call) : (m : Move) → Decidable (Undisturbed c m)
  | .resumeReading _ _ => inferInstanceAs (Decidable (_ ∨ _))
  | .resume _ _ => inferInstanceAs (Decidable (_ → _))
  | .sendfile | .wake | .seek _ | .submit _ | .pass _ _ | .setProtocol _ | .read _ | .readFails
  | .cancel | .use _ | .pauseReading | .close => .isTrue trivial

instance (r : Request) (c : Call) : (m : Move) → Decidable (Careful r c m)
  | .sendfile => inferInstanceAs (Decidable (_ → _ = Pc.idle → _ ∧ _))
  | .wake => inferInstanceAs (Decidable (_ → _ = Pc.emptying → _ ≠ _ ∧ _ ≠ _ ∧ (_ → _)))
  | .seek _ => inferInstanceAs (Decidable (_ → _ = Pc.finishing → _ → _ → _))
  | .setProtocol _ => inferInstanceAs (Decidable (_ → _ = Pc.restoring → _))
  | .resume _ _ => inferInstanceAs (Decidable (_ → _ = Pc.unwinding → _ → _))
  | .submit _ | .pass _ _ | .read _ | .readFails | .cancel | .use _ | .pauseReading
  | .resumeReading _ _ | .close => .isTrue fun _ => trivial

end Tokioop.Transport.Restore
