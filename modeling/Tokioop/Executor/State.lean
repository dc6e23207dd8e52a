import Tokioop.Kit.Runs

/-!
The default executor, `run_in_executor` and `shutdown_default_executor`.

`shutdown_default_executor` leaves waiting for the workers to a thread of its
own, which reports through `call_soon_threadsafe` and is joined when it has. The
coroutine, the thread and whoever uses the loop take their steps in any order;
a step of a thread is what it does between two accesses to what is shared. While
a thread is being joined the loop does nothing else.
-/

namespace Tokioop.Executor

open Kit

/-- A `ThreadPoolExecutor`: whether it refuses work, and the work that it has
got and not yet done. -/
structure Workers where
  refusing : Bool
  pending : Nat
  deriving DecidableEq, Repr

inductive Future
  | pending
  | result
  | exception
  | cancelled
  deriving DecidableEq, Repr

/-- Where a call of `shutdown_default_executor` is that has started a thread. -/
inductive CallPc
  /-- In `await future`. -/
  | waiting
  /-- In `thread.join()`. -/
  | joining
  | returned
  /-- Returned, with a warning. -/
  | warned
  | raised
  deriving DecidableEq, Repr

/-- Where its `_do_shutdown` is. -/
inductive ThreadPc
  | start
  /-- It has got the executor and is about to shut it down. -/
  | found (e : Nat)
  /-- In `executor.shutdown(wait=True)`. -/
  | stopping (e : Nat)
  /-- Back from it. -/
  | stopped (e : Nat)
  /-- About to report the result. -/
  | reporting (e : Nat)
  /-- In the `except` clause. -/
  | failed
  /-- About to report the exception. -/
  | complaining
  /-- The report is with the loop. -/
  | posted (e : Option Nat)
  | finished (e : Option Nat)
  deriving DecidableEq, Repr

structure Shutdown where
  timed : Bool
  pc : CallPc
  future : Future
  expired : Bool
  cancelled : Bool
  thread : ThreadPc
  deriving DecidableEq, Repr

/-- The task of the call is cancelled: so is what it waits for. -/
def Shutdown.interrupt (c : Shutdown) : Shutdown :=
  { c with future := if c.future = .pending then .cancelled else c.future }

/-- A callback in `state.ready`: `_set_result_unless_cancelled` or
`future.set_exception`, for the future of a call. -/
structure Report where
  call : Nat
  ok : Bool
  deriving DecidableEq, Repr

/-- `invalid` has the calls whose future refused a report. -/
structure Host where
  executors : List Workers
  default : Option Nat
  shutdownCalled : Bool
  closed : Bool
  shutdowns : List Shutdown
  ready : List Report
  invalid : List Nat
  deriving Repr

namespace Host

def start : Host := ⟨[], none, false, false, [], [], []⟩

def modifyExecutor (s : Host) (e : Nat) (f : Workers → Workers) : Host :=
  { s with executors := s.executors.modify e f }

def modifyCall (s : Host) (i : Nat) (f : Shutdown → Shutdown) : Host :=
  { s with shutdowns := s.shutdowns.modify i f }

/-- The loop is held up by a thread. -/
def blocked (s : Host) : Bool := s.shutdowns.any (·.pc = .joining)

def refuse (s : Host) (e : Nat) : Host := s.modifyExecutor e fun w => { w with refusing := true }

/-! ### The loop's side -/

def submit (s : Host) (e : Nat) : Except String Host :=
  if (s.executors[e]?.map (·.refusing)).getD true then
    .error "cannot schedule new futures after shutdown"
  else .ok (s.modifyExecutor e fun w => { w with pending := w.pending + 1 })

def runInExecutor (s : Host) (executor : Option Nat) : Except String Host :=
  if s.closed then .error "Event loop is closed"
  else
    match executor with
    | some e => s.submit e
    | none =>
        if s.shutdownCalled then .error "Executor shutdown has been called"
        else
          match s.default with
          | some e => s.submit e
          | none =>
              let e := s.executors.length
              let s : Host := { s with executors := s.executors ++ [⟨false, 0⟩], default := some e }
              s.submit e

/-- `shutdown_default_executor`, up to where it waits. -/
def shutdown (s : Host) (timed : Bool) : Host :=
  let s := { s with shutdownCalled := true }
  match s.default with
  | none => s
  | some _ =>
      { s with shutdowns := s.shutdowns ++ [⟨timed, .waiting, .pending, false, false, .start⟩] }

/-- The executor is not waited for any longer. -/
def warn (s : Host) (i : Nat) : Host :=
  match s.default with
  | some e => (s.refuse e).modifyCall i fun c => { c with pc := .warned }
  | none => s.modifyCall i fun c => { c with pc := .raised }

/-- `await future` has ended; `timeoutError` is whether the exception of the
future is a `TimeoutError`, as if the time were up. -/
def resume (s : Host) (i : Nat) (c : Shutdown) (timeoutError : Bool) : Host :=
  if c.cancelled then s.modifyCall i fun c => { c with pc := .raised }
  else if c.expired then s.warn i
  else
    match c.future with
    | .result => s.modifyCall i fun c => { c with pc := .joining }
    | .exception =>
        if timeoutError then s.warn i else s.modifyCall i fun c => { c with pc := .raised }
    | .pending | .cancelled => s.modifyCall i fun c => { c with pc := .raised }

def deliver (s : Host) (r : Report) (c : Shutdown) : Host :=
  if r.ok && c.future = .cancelled then s
  else if c.future = .pending then
    s.modifyCall r.call fun c => { c with future := if r.ok then .result else .exception }
  else { s with invalid := s.invalid ++ [r.call] }

def close (s : Host) : Host :=
  let s := { s with closed := true, ready := [], shutdownCalled := true }
  match s.default with
  | some e => { s.refuse e with default := none }
  | none => s

/-! ### The thread -/

def setThread (s : Host) (i : Nat) (pc : ThreadPc) : Host :=
  s.modifyCall i fun c => { c with thread := pc }

/-- `call_soon_threadsafe`, by a thread. -/
def post (s : Host) (i : Nat) (e : Option Nat) : Host :=
  setThread { s with ready := s.ready ++ [⟨i, e.isSome⟩] } i (.posted e)

/-- One step of `_do_shutdown`; `raises` is whether `executor.shutdown` does. -/
def threadStep (s : Host) (i : Nat) (c : Shutdown) (raises : Bool) : Option Host :=
  match c.thread with
  | .start =>
      match s.default with
      | none => some (s.setThread i .failed)
      | some e => some (s.setThread i (.found e))
  | .found e => some ((s.refuse e).setThread i (.stopping e))
  | .stopping e =>
      if raises then some (s.setThread i .failed)
      else if (s.executors[e]?.map (·.pending)) = some 0 then some (s.setThread i (.stopped e))
      else none
  | .stopped e =>
      some (if s.closed then s.setThread i (.finished (some e)) else s.setThread i (.reporting e))
  | .reporting e => some (if s.closed then s.setThread i .failed else s.post i (some e))
  | .failed =>
      some (if s.closed || c.future = .cancelled then s.setThread i (.finished none)
        else s.setThread i .complaining)
  | .complaining => some (if s.closed then s.setThread i (.finished none) else s.post i none)
  | .posted e => some (s.setThread i (.finished e))
  | .finished _ => none

/-! ### Any order of steps -/

inductive Move
  -- Anybody makes an executor, or shuts one down.
  | create
  | refuse (e : Nat)
  -- A worker is done with a piece of work.
  | work (e : Nat)
  | setDefault (e : Nat)
  | runInExecutor (executor : Option Nat)
  | shutdown (timed : Bool)
  | timeout (i : Nat)
  | cancel (i : Nat)
  | resume (i : Nat) (timeoutError : Bool)
  | join (i : Nat)
  | callback
  | close
  | thread (i : Nat) (raises : Bool)
  deriving DecidableEq, Repr

/-- What the loop does, if it is not held up. -/
def onLoop (s : Host) (s' : Option Host) : Option Host :=
  if s.closed || s.blocked then none else s'

def atCall (s : Host) (i : Nat) (f : Shutdown → Option Host) : Option Host := s.shutdowns[i]?.bind f

def step (s : Host) : Move → Option Host
  | .create => some { s with executors := s.executors ++ [⟨false, 0⟩] }
  | .refuse e => some (s.refuse e)
  | .work e =>
      if (s.executors[e]?.map (·.pending)).getD 0 = 0 then none
      else some (s.modifyExecutor e fun w => { w with pending := w.pending - 1 })
  | .setDefault e =>
      if s.blocked then none
      else if e < s.executors.length then some { s with default := some e } else none
  | .runInExecutor executor =>
      if s.blocked then none
      else
        match s.runInExecutor executor with
        | .ok s' => some s'
        | .error _ => some s
  | .shutdown timed => s.onLoop (some (s.shutdown timed))
  | .timeout i => s.atCall i fun c =>
      s.onLoop (if c.timed && c.pc = .waiting then
        some (s.modifyCall i fun c => { c.interrupt with expired := true }) else none)
  | .cancel i => s.atCall i fun c =>
      s.onLoop (if c.pc = .waiting then
        some (s.modifyCall i fun c => { c.interrupt with cancelled := true }) else none)
  | .resume i timeoutError => s.atCall i fun c =>
      s.onLoop (if c.pc = .waiting && c.future ≠ .pending then some (s.resume i c timeoutError)
        else none)
  | .join i => s.atCall i fun c =>
      match c.pc, c.thread with
      | .joining, .finished _ => some (s.modifyCall i fun c => { c with pc := .returned })
      | _, _ => none
  | .callback =>
      match s.ready with
      | [] => none
      | r :: rest => s.onLoop (s.atCall r.call fun c => some (deliver { s with ready := rest } r c))
  | .close => if s.blocked then none else if s.closed then some s else some s.close
  | .thread i raises => s.atCall i fun c => s.threadStep i c raises

end Host

end Tokioop.Executor
