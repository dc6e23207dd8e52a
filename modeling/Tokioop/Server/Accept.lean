import Tokioop.Fd.Reactor
import Tokioop.Kit.Runs
import Mathlib.Data.List.Basic

/-!
Accepting connections: `_start_serving` and `_accept_connection` of `loop.py`
for one listening socket of an open server.

A firing of the reader accepts in a loop of `backlog + 1` attempts. When the
process has run out of a resource, the reader is removed and a timer is to
register it again. The loop goes on after that, so that a second such attempt
schedules a second timer. `φ` stands for the arguments that are only passed
on: the protocol factory, the SSL context, the server and the timeouts.
-/

namespace Tokioop.Server

open Fd Kit

structure ServeArgs (φ : Type) where
  sock : Nat
  backlog : Int
  options : φ
  deriving DecidableEq

/-- What `sock.accept()` does: the `except` clauses tell apart a connection
that was aborted, a call that would block or was interrupted, and any other
`OSError`. `reported` says whether the exception handler that is told of the
error returns. -/
inductive Accept
  | connection (conn : Nat) (addr : AddrRepr)
  | aborted
  | wouldBlock
  | interrupted
  | osError (e : Errno) (reported : Bool)
  deriving DecidableEq

/-- `EMFILE`, `ENFILE`, `ENOBUFS` and `ENOMEM`. -/
def resourceErrors : List Errno := [24, 23, 105, 12]

/-- A call of `_accept_connection2`. -/
structure Accepting (φ : Type) where
  conn : Nat
  peername : AddrRepr
  options : φ
  deriving DecidableEq

/-- A listening socket: the watcher of its descriptor with the arguments of
its callback, the timers that are to start serving again, what was reported,
the connections that `accept` returned, and what was done with them. -/
structure Listener (φ : Type) where
  reader : Option (ServeArgs φ)
  retries : List (ServeArgs φ)
  reports : List (String × Errno)
  returned : List Nat
  tasks : List (Accepting φ)
  deriving DecidableEq

namespace Listener

variable {φ : Type}

/-- `_start_serving`, when the watcher can be registered. -/
def startServing (l : Listener φ) (args : ServeArgs φ) : Listener φ :=
  { l with reader := some args }

/-- `self._remove_reader(sock.fileno())`. -/
def removeReader (l : Listener φ) : Listener φ := { l with reader := none }

/-- `self.call_later(constants.ACCEPT_RETRY_DELAY, self._start_serving, …)`. -/
def callLater (l : Listener φ) (args : ServeArgs φ) : Listener φ :=
  { l with retries := l.retries ++ [args] }

def callExceptionHandler (l : Listener φ) (message : String) (e : Errno) : Listener φ :=
  { l with reports := l.reports ++ [(message, e)] }

/-- `accept` has returned a connection, and a task is created for it. -/
def acceptConnection2 (l : Listener φ) (args : ServeArgs φ) (conn : Nat) (addr : AddrRepr) :
    Listener φ :=
  { l with returned := l.returned ++ [conn], tasks := l.tasks ++ [⟨conn, addr, args.options⟩] }

/-- The loop of `_accept_connection` with `n` attempts left, of which the
first is answered by `outcomes i`. -/
def acceptLoop (args : ServeArgs φ) (outcomes : Nat → Accept) : Nat → Nat → Listener φ → Listener φ
  | 0, _, l => l
  | n + 1, i, l =>
      match outcomes i with
      | .connection conn addr =>
          acceptLoop args outcomes n (i + 1) (l.acceptConnection2 args conn addr)
      | .aborted => acceptLoop args outcomes n (i + 1) l
      | .wouldBlock | .interrupted => l
      | .osError e reported =>
          if e ∈ resourceErrors then
            let l := l.callExceptionHandler "socket.accept() out of system resource" e
            if reported then
              acceptLoop args outcomes n (i + 1) (l.removeReader.callLater args)
            else l
          else l

def attempts (args : ServeArgs φ) : Nat := (args.backlog + 1).toNat

def acceptConnection (l : Listener φ) (args : ServeArgs φ) (outcomes : Nat → Accept) : Listener φ :=
  acceptLoop args outcomes (attempts args) 0 l

end Listener

variable {φ : Type}

/-- The reader fires, and `accept` answers as it likes; the oldest retry is
due, and the watcher can be registered or not. -/
inductive Move
  | fire (outcomes : Nat → Accept)
  | retry (registered : Bool)

def Listener.step (l : Listener φ) : Move → Option (Listener φ)
  | .fire outcomes => l.reader.map fun args => l.acceptConnection args outcomes
  | .retry registered =>
      match l.retries with
      | [] => none
      | args :: rest =>
          let l := { l with retries := rest }
          some (if registered then l.startServing args else l)

def Listener.Serving (args : ServeArgs φ) (l : Listener φ) : Prop :=
  l = ⟨some args, [], [], [], []⟩

/-! ### One firing -/

namespace Accept

def stops : Accept → Bool
  | .wouldBlock | .interrupted => true
  | .osError e reported => e ∉ resourceErrors || !reported
  | .connection _ _ | .aborted => false

def exhausted : Accept → Bool
  | .osError e reported => e ∈ resourceErrors && reported
  | _ => false

end Accept

def attempted (outcomes : Nat → Accept) : Nat → Nat → List Accept
  | 0, _ => []
  | n + 1, i =>
      if (outcomes i).stops then [outcomes i] else outcomes i :: attempted outcomes n (i + 1)

def exhaustions (args : ServeArgs φ) (outcomes : Nat → Accept) : Nat :=
  (attempted outcomes (Listener.attempts args) 0).countP Accept.exhausted

/-- The connection, if the attempt returns one, with its address. -/
def Accept.conn? : Accept → Option (Nat × AddrRepr)
  | .connection conn addr => some (conn, addr)
  | _ => none

namespace Listener

structure Fired (args : ServeArgs φ) (attempts : List Accept) (l l' : Listener φ) : Prop where
  retries : l'.retries = l.retries ++ List.replicate (attempts.countP Accept.exhausted) args
  reader : l'.reader = if attempts.countP Accept.exhausted = 0 then l.reader else none
  returned : l'.returned = l.returned ++ (attempts.filterMap Accept.conn?).map Prod.fst
  tasks : l'.tasks = l.tasks ++
    (attempts.filterMap Accept.conn?).map fun c => ⟨c.1, c.2, args.options⟩

theorem fired_acceptLoop (args : ServeArgs φ) (outcomes : Nat → Accept) (n i : Nat)
    (l : Listener φ) :
    Fired args (attempted outcomes n i) l (acceptLoop args outcomes n i l) := by
  induction n generalizing i l with
  | zero => exact ⟨by simp [acceptLoop, attempted], by simp [acceptLoop, attempted],
      by simp [acceptLoop, attempted], by simp [acceptLoop, attempted]⟩
  | succ n ih =>
      cases hout : outcomes i with
      | connection conn addr =>
          have h := ih (i + 1) (l.acceptConnection2 args conn addr)
          simp only [acceptLoop, attempted, hout, Accept.stops, Bool.false_eq_true, if_false]
          refine ⟨?_, ?_, ?_, ?_⟩
          · rw [h.retries]
            rfl
          · rw [h.reader]
            rfl
          · rw [h.returned]
            simp [acceptConnection2, Accept.conn?]
          · rw [h.tasks]
            simp [acceptConnection2, Accept.conn?]
      | aborted =>
          simp only [acceptLoop, attempted, hout, Accept.stops, Bool.false_eq_true, if_false]
          exact ⟨(ih (i + 1) l).retries, (ih (i + 1) l).reader, (ih (i + 1) l).returned,
            (ih (i + 1) l).tasks⟩
      | wouldBlock | interrupted =>
          simp only [acceptLoop, attempted, hout, Accept.stops, if_true]
          exact ⟨by simp [Accept.exhausted], by simp [Accept.exhausted], by simp [Accept.conn?],
            by simp [Accept.conn?]⟩
      | osError e reported =>
          by_cases he : e ∈ resourceErrors ∧ reported = true
          · obtain ⟨he, rfl⟩ := he
            have h := ih (i + 1)
              ((l.callExceptionHandler "socket.accept() out of system resource"
                e).removeReader.callLater args)
            have hcount : (Accept.osError e true).exhausted = true := by
              simp [Accept.exhausted, he]
            simp only [acceptLoop, attempted, hout, Accept.stops, he, not_true, decide_false,
              Bool.not_true, Bool.or_false, Bool.false_eq_true, if_false, if_true]
            refine ⟨?_, ?_, ?_, ?_⟩
            · rw [h.retries, List.countP_cons_of_pos hcount, List.replicate_succ]
              simp [callLater, removeReader, callExceptionHandler]
            · rw [h.reader, List.countP_cons_of_pos hcount, if_neg (Nat.succ_ne_zero _)]
              split <;> rfl
            · rw [h.returned]
              rfl
            · rw [h.tasks]
              rfl
          · have hcount : (Accept.osError e reported).exhausted = false := by
              simpa [Accept.exhausted] using he
            have hstop : (Accept.osError e reported).stops = true := by
              simp only [not_and, Bool.not_eq_true] at he
              simpa [Accept.stops, ← imp_iff_not_or] using he
            simp only [attempted, hout, hstop, if_true]
            have hsame : Fired args [Accept.osError e reported] l l ∧
                Fired args [Accept.osError e reported] l
                  (l.callExceptionHandler "socket.accept() out of system resource" e) := by
              refine ⟨⟨?_, ?_, ?_, ?_⟩, ?_, ?_, ?_, ?_⟩
              all_goals simp [hcount, Accept.conn?, callExceptionHandler]
            simp only [acceptLoop, hout]
            split
            · rename_i hmem
              rw [if_neg fun hr => he ⟨hmem, hr⟩]
              exact hsame.2
            · exact hsame.1

theorem fired_acceptConnection (args : ServeArgs φ) (outcomes : Nat → Accept) (l : Listener φ) :
    Fired args (attempted outcomes (attempts args) 0) l (l.acceptConnection args outcomes) :=
  fired_acceptLoop args outcomes _ 0 l

/-! ### Runs -/

/-- A firing meets at most one exhausted resource, and a retry registers the
reader. -/
def Frugal (l : Listener φ) : Move → Prop
  | .fire outcomes => ∀ args ∈ l.reader, exhaustions args outcomes ≤ 1
  | .retry registered => registered = true

instance (l : Listener φ) : (m : Move) → Decidable (l.Frugal m)
  | .fire outcomes => inferInstanceAs (Decidable (∀ args ∈ l.reader, exhaustions args outcomes ≤ 1))
  | .retry registered => inferInstanceAs (Decidable (registered = true))

/-- Either the reader is registered and no retry is pending, or there is no
reader and one retry. -/
def Alert (args : ServeArgs φ) (l : Listener φ) : Prop :=
  (l.reader = some args ∧ l.retries = []) ∨ (l.reader = none ∧ l.retries = [args])

/-- The step leaves the socket watched, or to be watched again, exactly when
it meets the condition. -/
theorem alert_step_iff {args : ServeArgs φ} {l l' : Listener φ} {m : Move} (h : l.Alert args)
    (hs : l.step m = some l') : l'.Alert args ↔ l.Frugal m := by
  cases m with
  | fire outcomes =>
      obtain ⟨hreader, hretries⟩ | ⟨hreader, -⟩ := h
      · simp only [step, hreader, Option.map_some, Option.some.injEq] at hs
        have hfired := fired_acceptConnection args outcomes l
        rw [hs] at hfired
        have hr := hfired.reader
        have ht := hfired.retries
        rw [hretries, List.nil_append] at ht
        show _ ↔ ∀ a ∈ l.reader, _
        rw [hreader]
        simp only [Option.mem_some_iff, forall_eq', Alert, hr, ht]
        show _ ↔ (attempted outcomes (attempts args) 0).countP Accept.exhausted ≤ 1
        generalize (attempted outcomes (attempts args) 0).countP Accept.exhausted = k
        match k with
        | 0 => simp [hreader]
        | 1 => simp
        | k + 2 => simp [List.replicate_succ]
      · simp [step, hreader] at hs
  | retry registered =>
      obtain ⟨-, hretries⟩ | ⟨hreader, hretries⟩ := h
      · simp [step, hretries] at hs
      · simp only [step, hretries, Option.some.injEq] at hs
        rw [← hs]
        cases registered with
        | true => simp [Alert, startServing, Frugal]
        | false => simp [Alert, hreader, Frugal]

/-- Whatever happens, every connection is passed on, with the arguments of
the firing. -/
theorem tasks_step {l l' : Listener φ} {m : Move} (h : l.tasks.map Accepting.conn = l.returned)
    (hs : l.step m = some l') : l'.tasks.map Accepting.conn = l'.returned := by
  cases m with
  | fire outcomes =>
      obtain ⟨args, -, rfl⟩ := Option.map_eq_some_iff.mp hs
      have hfired := fired_acceptConnection args outcomes l
      rw [hfired.tasks, hfired.returned, List.map_append, h, List.map_map]
      rfl
  | retry registered =>
      simp only [step] at hs
      split at hs
      · cases hs
      · obtain rfl := Option.some.inj hs
        cases registered with
        | true => exact h
        | false => exact h

end Listener

/-- **One retry.** In every run in which no firing meets a second exhausted
resource and every retry can register the reader, the listening socket has
its reader and no retry is pending, or it has no reader and one retry is; and
every connection that `accept` returned was passed on once, in order. -/
theorem one_retry {args : ServeArgs φ} {l : Listener φ}
    (h : Runs Listener.step Listener.Frugal (Listener.Serving args) l) :
    ((l.reader = some args ∧ l.retries = []) ∨ (l.reader = none ∧ l.retries = [args])) ∧
      l.tasks.map Accepting.conn = l.returned := by
  refine h.invariant (I := fun l => l.Alert args ∧ l.tasks.map Accepting.conn = l.returned) ?_
    fun l m l' hl hok hs => ⟨(Listener.alert_step_iff hl.1 hs).mpr hok, Listener.tasks_step hl.2 hs⟩
  rintro l rfl
  exact ⟨.inl ⟨rfl, rfl⟩, rfl⟩

/-- A connection, an exhausted resource and another connection in one firing,
and a firing after the retry. -/
theorem one_retry_three : ∃ l : Listener Nat,
    l.returned = [1, 2, 3] ∧ l.reader = some ⟨7, 4, 0⟩ ∧
      (((l.reader = some ⟨7, 4, 0⟩ ∧ l.retries = []) ∨
        (l.reader = none ∧ l.retries = [⟨7, 4, 0⟩])) ∧
        l.tasks.map Accepting.conn = l.returned) := by
  have hstart : Runs Listener.step Listener.Frugal (Listener.Serving ⟨7, 4, 0⟩)
      (⟨some ⟨7, 4, 0⟩, [], [], [], []⟩ : Listener Nat) := .start rfl
  obtain ⟨l, hl, hend⟩ := hstart.exists_of_replay
    [.fire fun i => match i with
      | 0 => .connection 1 .unnamed
      | 1 => .osError 24 true
      | 2 => .connection 2 .unnamed
      | _ => .wouldBlock,
    .retry true,
    .fire fun i => match i with
      | 0 => .aborted
      | 1 => .connection 3 .unnamed
      | _ => .osError 71 true]
    (fun l => l.returned = [1, 2, 3] && l.reader = some ⟨7, 4, 0⟩) (by decide +kernel)
  simp only [Bool.and_eq_true, decide_eq_true_eq] at hend
  exact ⟨l, hend.1, hend.2, one_retry hl⟩

/-- The resource is still exhausted at the second attempt of the firing: two
retries are pending. -/
theorem two_retries : ¬∀ (args : ServeArgs Nat) (l : Listener Nat),
    Runs Listener.step (fun _ _ => True) (Listener.Serving args) l →
    (l.reader = some args ∧ l.retries = []) ∨ (l.reader = none ∧ l.retries = [args]) := by
  intro hall
  have hstart : Runs Listener.step (fun _ _ => True) (Listener.Serving ⟨7, 1, 0⟩)
      (⟨some ⟨7, 1, 0⟩, [], [], [], []⟩ : Listener Nat) := .start rfl
  have hrun := hstart.step (.fire fun _ => .osError 24 true) trivial rfl
  have hnot := hall _ _ hrun
  revert hnot
  decide

end Tokioop.Server
