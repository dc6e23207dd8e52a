import Tokioop.Loop.Clock
import Tokioop.Fd.Reactor

/-!
The shared state of one event loop: `LoopState` of `state.rs` with the
scheduling methods of `TokioopLoop`.

`κ` stands for a Python callback together with its arguments and context.
The cancellation flag that an entry shares with its handle is a number, the
handle, and a list of the handles that have been cancelled. The clock is a
field; it moves only when the world moves it.
-/

namespace Tokioop.Loop

open Fd

abbrev Handle := Nat

/-- One ready-to-run callback. `threadsafe` records, for the statements
about wakeups, that the entry came through `call_soon_threadsafe`. -/
structure ReadyEntry (κ : Type) where
  callback : κ
  handle : Handle
  threadsafe : Bool
  deriving DecidableEq, Repr

structure TimerEntry (κ : Type) where
  when : F64
  seq : Nat
  entry : ReadyEntry κ
  deriving DecidableEq

/-- `Ord for TimerEntry`: reversed, since the heap is a max-heap. A NaN
deadline compares equal to every other and the sequence number decides. -/
def TimerEntry.cmp {κ : Type} (a b : TimerEntry κ) : Ordering :=
  ((b.when.partialCmp a.when).getD .eq).then (compare b.seq a.seq)

def TimerEntry.due {κ : Type} (t : TimerEntry κ) (now : ℚ) : Bool := t.when.le (.fin now)

theorem TimerEntry.due_mono {κ : Type} (t : TimerEntry κ) {now later : ℚ} (h : now ≤ later)
    (hdue : t.due now = true) : t.due later = true := by
  unfold due at hdue ⊢
  cases hw : t.when with
  | fin q =>
      rw [hw, F64.le_fin, decide_eq_true_eq] at hdue
      rw [F64.le_fin, decide_eq_true_eq]
      exact hdue.trans h
  | nan | negInf | posInf =>
      rw [hw] at hdue
      exact hdue

/-- A fired notification waiting for the batch. `slot` names the watcher's
slot; its callback is looked up when the completion is executed. -/
inductive IoCompletion (κ : Type)
  | callback (slot : Nat) (cb : κ)
  | data (slot : Nat) (drain : κ) (data : IoData)
  deriving DecidableEq, Repr

structure LoopState (κ : Type) where
  ready : List (ReadyEntry κ)
  timers : List (TimerEntry κ)
  seq : Nat
  io : List (IoCompletion κ)
  running : Bool
  stopRequested : Bool
  closed : Bool
  clock : ℚ
  nWatchers : Nat
  nextHandle : Handle
  cancelled : List Handle
  /-- Slots whose `cb` was cleared by a detach. -/
  detached : List Nat
  /-- Slots whose rendezvous has been notified, oldest first. -/
  released : List Nat
  deriving DecidableEq

def LoopState.new (κ : Type) (clock : ℚ) : LoopState κ :=
  ⟨[], [], 0, [], false, false, false, clock, 0, 0, [], [], []⟩

inductive LoopError
  | closed
  | alreadyRunning
  | closeRunning
  deriving DecidableEq, Repr

def LoopError.message : LoopError → String
  | .closed => "Event loop is closed"
  | .alreadyRunning => "This event loop is already running"
  | .closeRunning => "Cannot close a running event loop"

inductive Panic
  | fromSecsF64
  deriving DecidableEq, Repr

namespace LoopState

variable {κ : Type}

def checkClosedState (s : LoopState κ) : Except LoopError Unit :=
  if s.closed then .error .closed else .ok ()

def checkRunningState (s : LoopState κ) : Except LoopError Unit :=
  if s.running then .error .alreadyRunning else .ok ()

def pushReady (s : LoopState κ) (cb : κ) (threadsafe : Bool) : LoopState κ :=
  { s with ready := s.ready ++ [⟨cb, s.nextHandle, threadsafe⟩], nextHandle := s.nextHandle + 1 }

def pushTimer (s : LoopState κ) (when : F64) (cb : κ) : LoopState κ :=
  { s with timers := ⟨when, s.seq, ⟨cb, s.nextHandle, false⟩⟩ :: s.timers, seq := s.seq + 1,
           nextHandle := s.nextHandle + 1 }

def callSoon (s : LoopState κ) (cb : κ) : Except LoopError (Handle × LoopState κ) := do
  s.checkClosedState
  return (s.nextHandle, s.pushReady cb false)

/-- `call_soon_threadsafe` up to its `notify_one`. -/
def callSoonThreadsafe (s : LoopState κ) (cb : κ) : Except LoopError (Handle × LoopState κ) := do
  s.checkClosedState
  return (s.nextHandle, s.pushReady cb true)

def callAtImpl (s : LoopState κ) (when : F64) (cb : κ) :
    Except LoopError (Handle × LoopState κ) := do
  s.checkClosedState
  return (s.nextHandle, s.pushTimer when cb)

def callAt (s : LoopState κ) (when : F64) (cb : κ) : Except LoopError (Handle × LoopState κ) :=
  s.callAtImpl when cb

def callLater (s : LoopState κ) (delay : F64) (cb : κ) :
    Except LoopError (Handle × LoopState κ) :=
  s.callAtImpl ((F64.fin s.clock).add delay) cb

/-- `cancel` of any handle; the answer is whether it was not cancelled yet. -/
def cancel (s : LoopState κ) (h : Handle) : Bool × LoopState κ :=
  (!s.cancelled.contains h, { s with cancelled := h :: s.cancelled })

/-- `stop` up to its `notify_one`. -/
def stop (s : LoopState κ) : LoopState κ := { s with stopRequested := true }

/-- `close`: refused while running, no effect the second time, otherwise all
watchers are aborted and all queues emptied. -/
def close (s : LoopState κ) : Except LoopError (LoopState κ) :=
  if s.running then .error .closeRunning
  else if s.closed then .ok s
  else .ok { s with closed := true, ready := [], timers := [], io := [], nWatchers := 0 }

/-! ### The timer heap

`BinaryHeap` through its documented interface: `peek` is a greatest entry
and `pop` removes it. -/

/-- The greatest entry of the heap under `TimerEntry.cmp`. -/
def peek (s : LoopState κ) : Option (TimerEntry κ) :=
  match s.timers with
  | [] => none
  | t :: ts => some (ts.foldl (fun best u => if best.cmp u = .lt then u else best) t)

def popTimer (s : LoopState κ) (top : TimerEntry κ) : LoopState κ :=
  { s with timers := s.timers.eraseP fun t => t.seq == top.seq }

/-- A timer deadline has already passed. -/
def timersDue (s : LoopState κ) : Bool :=
  match s.peek with
  | some top => top.due s.clock
  | none => false

/-- `next_deadline`: how long the loop may park, nothing without timers,
zero when one is already due. -/
def nextDeadline (s : LoopState κ) : Except Panic (Option Duration) :=
  match s.peek with
  | none => .ok none
  | some top =>
      let dt := top.when.sub s.clock
      if dt.le (.fin 0) then .ok (some 0)
      else match fromSecsF64 dt with
        | some d => .ok (some d)
        | none => .error .fromSecsF64

theorem foldl_peek_mem {t u : TimerEntry κ} {ts : List (TimerEntry κ)}
    (h : ts.foldl (fun best u => if best.cmp u = .lt then u else best) t = u) :
    u = t ∨ u ∈ ts := by
  induction ts generalizing t with
  | nil => exact .inl h.symm
  | cons v ts ih =>
      simp only [List.foldl_cons] at h
      rcases ih h with hu | hu
      · split at hu
        · exact .inr (hu ▸ List.mem_cons_self)
        · exact .inl hu
      · exact .inr (List.mem_cons_of_mem _ hu)

theorem peek_mem {s : LoopState κ} {top : TimerEntry κ} (h : s.peek = some top) :
    top ∈ s.timers := by
  unfold peek at h
  split at h
  · cases h
  · rename_i t ts heq
    rw [heq]
    rcases foldl_peek_mem (Option.some.inj h) with hu | hu
    · exact hu ▸ List.mem_cons_self
    · exact List.mem_cons_of_mem _ hu

/-- Popping the top makes the heap smaller by one. -/
theorem popTimer_length {s : LoopState κ} {top : TimerEntry κ} (h : s.peek = some top) :
    (s.popTimer top).timers.length + 1 = s.timers.length := by
  have hmem := peek_mem h
  have hpos : 0 < s.timers.length := List.length_pos_of_mem hmem
  have hlen : (s.popTimer top).timers.length = s.timers.length - 1 :=
    List.length_eraseP_of_mem hmem (by simp)
  omega

end LoopState

end Tokioop.Loop
