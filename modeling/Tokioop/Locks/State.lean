import Tokioop.Fd.Registry
import Tokioop.Loop.Batch
import Tokioop.Kit.Contract

/-!
The mutexes of `LoopState` and the references that are released under them.

Python objects are reference counted, so that letting go of a callback, of its
arguments or of a handler may run a destructor, which is Python code and may
call the loop. Such releases are not calls in the source: they are
assignments (`s.cb = None`, `*guard = handler`), the end of a scope that owns
a slot, and `clear()`. Here each is a callback of its own. The mutexes are not
reentrant, and a thread that locks one it holds waits for itself.
-/

namespace Tokioop.Locks

open Fd Kit Kit.Prog
open Loop (LoopState LoopError ReadyEntry TimerEntry IoCompletion F64)

inductive Mutex
  | timers
  | fds
  | excHandler
  | slot (n : Nat)
  deriving DecidableEq, Repr

/-- The loop's shared state as one thread sees it; `κ` stands for a callback
together with its arguments and context, and for a handler. -/
structure World (κ : Type) where
  loop : LoopState κ
  reg : Registry κ κ
  excHandler : Option κ
  -- The mutexes that the thread holds, the latest first.
  held : List Mutex
  -- The mutex that the thread waits for although it holds it.
  waiting : Option Mutex

def World.new (κ : Type) (clock : ℚ) : World κ := ⟨.new κ clock, .empty, none, [], none⟩

inductive UserCall (κ : Type)
  -- A reference is released.
  | release (k : κ)
  -- A callback or the exception handler.
  | run (k : κ)
  -- The default exception handler.
  | report
  -- The wait for a mutex that the thread itself holds.
  | wait (x : Mutex)
  deriving DecidableEq, Repr

inductive Exc
  | loop (e : LoopError)
  | fd (e : FdError)
  | user (n : Nat)
  deriving DecidableEq, Repr

/-- The question is whether this was the last `Arc` of a slot. -/
abbrev Meth (κ α : Type) := Prog (World κ) (UserCall κ) Unit Exc Nat Bool α

variable {κ : Type}

/-! ### Locking and releasing -/

def lock (x : Mutex) : Meth κ Unit := do
  if x ∈ (← get).held then
    modify fun s => { s with waiting := some x }
    callback (.wait x)
  else modify fun s => { s with held := x :: s.held }

def unlock (x : Mutex) : Meth κ Unit := modify fun s => { s with held := s.held.erase x }

/-- What a destructor raises is not passed on. -/
def release (k : κ) : Meth κ Unit := tryCatch (callback (.release k)) fun _ => pure ()

def releaseAll : List κ → Meth κ Unit
  | [] => pure ()
  | k :: ks => do
      release k
      releaseAll ks

/-- An `Arc` of the slot is dropped, with the slot if it was the last. -/
def dropSlot (n : Nat) : Meth κ Unit := do
  if ← query n then
    match (← get).reg.slots[n]? with
    | some slot => releaseAll (slot.cb.toList ++ slot.drain.toList ++ slot.drainErr.toList)
    | none => pure ()
  else pure ()

/-! ### Watchers -/

/-- The block that retires a registered watcher: `s.cb = None` releases the
callback under the lock of the slot. -/
def retire (d : FdDirection) : Meth κ Unit := do
  lock (.slot d.slot)
  let cb := (← get).reg.slots[d.slot]?.bind FdSlotState.cb
  modify fun s => { s with reg := s.reg.retire d }
  releaseAll cb.toList
  unlock (.slot d.slot)

/-- `add_reader` and its kind, with `add_watcher` or `add_drain_watcher`. -/
def register (fd : Int) (isRead : Bool) (setup : Setup) (slot : Nat → FdSlotState κ κ) :
    Meth κ Unit := do
  let s ← get
  if s.loop.closed then raise (.loop .closed)
  else
    match (s.reg.register fd isRead setup slot).1 with
    | .error e => raise (.fd e)
    | .ok _ => do
        lock .fds
        match (← get).reg.direction fd isRead with
        | some old => do
            retire old
            dropSlot old.slot
        | none => pure ()
        modify fun s => { s with reg := (s.reg.register fd isRead setup slot).2 }
        unlock .fds

def addWatcher (fd : Int) (isRead : Bool) (cb : κ) (setup : Setup) : Meth κ Unit :=
  register fd isRead setup fun flag => ⟨some cb, none, none, false, some flag⟩

def addDrainWatcher (fd : Int) (drain drainErr : κ) (setup : Setup) : Meth κ Unit :=
  register fd true setup fun flag => ⟨none, some drain, some drainErr, false, some flag⟩

/-- The watcher that was taken out is dropped before the guard of `fds`. -/
def detachWatcher (fd : Int) (isRead : Bool) : Meth κ Bool := do
  lock .fds
  match (← get).reg.direction fd isRead with
  | none => do
      unlock .fds
      pure false
  | some old => do
      retire old
      modify fun s => { s with reg := (s.reg.detachWatcher fd isRead).2 }
      dropSlot old.slot
      unlock .fds
      pure true

/-- `remove_reader` and `remove_writer`. -/
def removeWatcher (fd : Int) (isRead : Bool) : Meth κ Bool := do
  if (← get).loop.closed then pure false else detachWatcher fd isRead

/-- `FdHandle::cancel`. -/
def cancel (h : FdHandle) : Meth κ Bool := do
  if (← get).reg.flags[h.flag]? = some false then
    modify fun s => { s with reg := { s.reg with flags := s.reg.flags.set h.flag true } }
    let _ ← detachWatcher h.fd h.isRead
    pure true
  else pure false

def isPolling (fd : Int) (isRead : Bool) : Meth κ Bool := do
  lock .fds
  match (← get).reg.direction fd isRead with
  | none => do
      unlock .fds
      pure false
  | some d => do
      lock (.slot d.slot)
      let polling := (← get).reg.isPolling fd isRead
      unlock (.slot d.slot)
      unlock .fds
      pure polling

def retireAll : List FdDirection → Meth κ Unit
  | [] => pure ()
  | d :: ds => do
      retire d
      retireAll ds

def dropSlots : List FdDirection → Meth κ Unit
  | [] => pure ()
  | d :: ds => do
      dropSlot d.slot
      dropSlots ds

def abortAll : Meth κ Unit := do
  lock .fds
  let ds := (← get).reg.directions
  retireAll ds
  modify fun s => { s with reg := { s.reg with fds := ∅, nWatchers := 0 } }
  dropSlots ds
  unlock .fds

/-! ### Timers, callbacks and handlers -/

def callSoon (cb : κ) : Meth κ Unit := do
  let s ← get
  if s.loop.closed then raise (.loop .closed)
  else modify fun s => { s with loop := s.loop.pushReady cb false }

def callAt (when : F64) (cb : κ) : Meth κ Unit := do
  let s ← get
  if s.loop.closed then raise (.loop .closed)
  else
    lock .timers
    modify fun s => { s with loop := s.loop.pushTimer when cb }
    unlock .timers

/-- `stats`, `timers_due` and `next_deadline`, which only look at the heap. -/
def stats : Meth κ Nat := do
  lock .timers
  let n := (← get).loop.timers.length
  unlock .timers
  pure n

/-- `*exc_handler.lock() = handler` releases the old handler under the lock. -/
def setExceptionHandler (handler : Option κ) : Meth κ Unit := do
  lock .excHandler
  let old := (← get).excHandler
  modify fun s => { s with excHandler := handler }
  releaseAll old.toList
  unlock .excHandler

def getExceptionHandler : Meth κ (Option κ) := do
  lock .excHandler
  let handler := (← get).excHandler
  unlock .excHandler
  pure handler

/-- `dispatch_exception_handler`: the handler runs on a reference of its own. -/
def callExceptionHandler : Meth κ Unit := do
  match ← getExceptionHandler with
  | some k => do
      tryCatch (callback (.run k)) fun _ => pure ()
      release k
  | none => callback .report

/-! ### Closing -/

/-- One turn of `while ready.pop().is_some() {}`. -/
def dropReady : Meth κ Bool := do
  match (← get).loop.ready with
  | [] => pure false
  | e :: rest => do
      modify fun s => { s with loop := { s.loop with ready := rest } }
      release e.callback
      pure true

def slotOf : IoCompletion κ → Nat
  | .callback slot _ | .data slot _ _ => slot

def dropIo : Meth κ Bool := do
  match (← get).loop.io with
  | [] => pure false
  | c :: rest => do
      modify fun s => { s with loop := { s.loop with io := rest } }
      dropSlot (slotOf c)
      pure true

/-- `timers.lock().unwrap().clear()`. -/
def clearTimers : Meth κ Unit := do
  lock .timers
  let ts := (← get).loop.timers
  modify fun s => { s with loop := { s.loop with timers := [] } }
  releaseAll (ts.map fun t => t.entry.callback)
  unlock .timers

def close : Meth κ Unit := do
  let s ← get
  if s.loop.running then raise (.loop .closeRunning)
  else if s.loop.closed then pure ()
  else
    modify fun s => { s with loop := { s.loop with closed := true } }
    abortAll
    repeatWhile dropReady
    clearTimers
    repeatWhile dropIo

/-! ### The batch -/

/-- A callback runs, on references that the batch owns. -/
def runCallback (k : κ) : Meth κ Unit := do
  tryCatch (callback (.run k)) fun _ => tryCatch callExceptionHandler fun _ => pure ()
  release k

/-- An entry that was taken off its queue. -/
def runEntry (e : ReadyEntry κ) : Meth κ Unit := do
  if (← get).loop.isCancelled e then release e.callback else runCallback e.callback

def runReady : Meth κ Unit := do
  match (← get).loop.ready with
  | [] => pure ()
  | e :: rest => do
      modify fun s => { s with loop := { s.loop with ready := rest } }
      runEntry e

/-- A turn of the timer phase: the entry is taken out of the heap under the
lock and runs without it. -/
def runTimer (now : ℚ) : Meth κ Unit := do
  lock .timers
  match (← get).loop.peek with
  | none => unlock .timers
  | some top =>
      if top.due now then
        modify fun s => { s with loop := s.loop.popTimer top }
        unlock .timers
        runEntry top.entry
      else unlock .timers

/-- What a completion calls; a read error needs both drain callbacks. -/
def consumer (slot : FdSlotState κ κ) : IoCompletion κ → Option κ
  | .callback _ _ => slot.cb
  | .data _ _ (.readError _) => slot.drain.bind fun _ => slot.drainErr
  | .data _ _ _ => slot.drain

/-- A completion: what it calls is looked up under the lock of its slot. -/
def runIo : Meth κ Unit := do
  match (← get).loop.io with
  | [] => pure ()
  | c :: rest => do
      modify fun s => { s with loop := { s.loop with io := rest } }
      lock (.slot (slotOf c))
      let slot := (← get).reg.slots[slotOf c]?
      unlock (.slot (slotOf c))
      match slot.bind fun slot => consumer slot c with
      | some k => runCallback k
      | none => pure ()
      dropSlot (slotOf c)

/-! ### The loop and its world -/

inductive Method (κ : Type)
  | addWatcher (fd : Int) (isRead : Bool) (cb : κ) (setup : Setup)
  | addDrainWatcher (fd : Int) (drain drainErr : κ) (setup : Setup)
  | removeWatcher (fd : Int) (isRead : Bool)
  | cancel (h : FdHandle)
  | isPolling (fd : Int) (isRead : Bool)
  | close
  | callSoon (cb : κ)
  | callAt (when : F64) (cb : κ)
  | stats
  | setExceptionHandler (handler : Option κ)
  | getExceptionHandler
  | callExceptionHandler
  | runReady
  | runTimer (now : ℚ)
  | runIo
  deriving DecidableEq

def Method.body : Method κ → Meth κ Unit
  | .addWatcher fd isRead cb setup => Locks.addWatcher fd isRead cb setup
  | .addDrainWatcher fd drain drainErr setup => Locks.addDrainWatcher fd drain drainErr setup
  | .removeWatcher fd isRead => discard (Locks.removeWatcher fd isRead)
  | .cancel h => discard (Locks.cancel h)
  | .isPolling fd isRead => discard (Locks.isPolling fd isRead)
  | .close => Locks.close
  | .callSoon cb => Locks.callSoon cb
  | .callAt when cb => Locks.callAt when cb
  | .stats => discard Locks.stats
  | .setExceptionHandler handler => Locks.setExceptionHandler handler
  | .getExceptionHandler => discard Locks.getExceptionHandler
  | .callExceptionHandler => Locks.callExceptionHandler
  | .runReady => Locks.runReady
  | .runTimer now => Locks.runTimer now
  | .runIo => Locks.runIo

/-- The batch is not entered from callbacks. -/
def Method.ofBatch : Method κ → Bool
  | .runReady | .runTimer _ | .runIo => true
  | _ => false

inductive Env (κ : Type)
  | setRunning (running : Bool)
  -- A watcher task pushes a completion.
  | pushIo (c : IoCompletion κ)
  deriving DecidableEq

def World.env (s : World κ) : Env κ → World κ
  | .setRunning running => { s with loop := { s.loop with running := running } }
  | .pushIo c => { s with loop := { s.loop with io := s.loop.io ++ [c] } }

/-- The loop as a host of callbacks. -/
def lockedLoop (κ : Type) : Host (World κ) (UserCall κ) Unit Exc Nat Bool (Method κ) (Env κ) where
  body := Method.body
  env h s := some (s.env h)

abbrev LockPolicy (κ : Type) :=
  Policy (World κ) (UserCall κ) Unit Exc Nat Bool (Method κ) (Env κ)

/-- A thread that waits for itself waits for good. -/
def returns : UserCall κ → Bool
  | .wait _ => false
  | _ => true

/-- Destructors and callbacks call whatever they like. -/
def anyCall (κ : Type) : LockPolicy κ where
  call top m _ := top = false → m.ofBatch = false
  env _ _ _ := True
  ret e _ _ := returns e = true
  answer _ _ _ := True

end Tokioop.Locks
