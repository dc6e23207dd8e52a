import Tokioop.Loop.Batch
import Tokioop.Kit.Runs

/-!
The loop thread and everyone who can wake it: `run_forever_impl` and
`run_main` of `event_loop.rs`.

The loop thread is a program counter over the shared `LoopState`. Between
any two of its steps the other parties may act: a foreign thread pushes an
entry or stores the stop flag and notifies in a second step, a watcher task
pushes completions and notifies afterwards, a callback or a foreign thread
calls any other method, the clock moves. `pending` names the parties that
have pushed something and still owe their `notify_one`.
-/

namespace Tokioop.Loop

inductive Exn
  | ordinary
  | cancelledError
  | systemExit
  | keyboardInterrupt
  deriving DecidableEq, Repr

inductive Pc (κ : Type)
  | idle
  -- `run_forever_impl` has passed its checks; the flag is reset next.
  | setup
  | setupRunning
  | batch (b : BatchPc)
  -- A callback is executing and the batch goes on at `b`.
  | calling (inv : Invocation κ) (b : BatchPc)
  -- The exception handler is executing.
  | reporting (e : Exn) (b : BatchPc)
  | checkStop
  | checkClosed
  | checkReady
  | checkIo
  | checkTimers
  | yieldNow
  | park
  -- The `Notified` future exists and has not been polled.
  | await (wakeAt : Option ℚ)
  | parked (wakeAt : Option ℚ) (notified : Bool)
  | cleanup
  | cleanupStop
  | panicked (p : Panic)
  deriving DecidableEq

/-- The loop thread, its `Notify` permit, and the parties that owe a
`notify_one`. -/
structure Main (κ : Type) where
  st : LoopState κ
  pc : Pc κ
  permit : Bool
  pending : List Nat
  deriving DecidableEq

/-- The methods anyone may call in one step. -/
inductive Op (κ : Type)
  | callSoon (cb : κ)
  | callAt (when : F64) (cb : κ)
  | callLater (delay : F64) (cb : κ)
  | cancel (h : Handle)
  | detach (slot : Nat)
  | watchers (n : Nat)
  | close
  deriving DecidableEq

variable {κ : Type}

/-- The state after a method that may be refused. -/
def LoopState.orSame {α : Type} (s : LoopState κ) : Except LoopError (α × LoopState κ) → LoopState κ
  | .ok (_, s') => s'
  | .error _ => s

def Op.apply (s : LoopState κ) : Op κ → LoopState κ
  | .callSoon cb => s.orSame (s.callSoon cb)
  | .callAt when cb => s.orSame (s.callAt when cb)
  | .callLater delay cb => s.orSame (s.callLater delay cb)
  | .cancel h => (s.cancel h).2
  | .detach slot => { s with detached := slot :: s.detached }
  | .watchers n => { s with nWatchers := n }
  | .close => s.orSame (s.close.map fun s' => ((), s'))

theorem Op.apply_callSoon (s : LoopState κ) (cb : κ) :
    (Op.callSoon cb).apply s = if s.closed then s else s.pushReady cb false := by
  by_cases h : s.closed = true
  · simp [apply, LoopState.callSoon, LoopState.checkClosedState, LoopState.orSame, h]
  · simp [apply, LoopState.callSoon, LoopState.checkClosedState, LoopState.orSame, h]

theorem Op.apply_callAt (s : LoopState κ) (when : F64) (cb : κ) :
    (Op.callAt when cb).apply s = if s.closed then s else s.pushTimer when cb := by
  by_cases h : s.closed = true
  · simp [apply, LoopState.callAt, LoopState.callAtImpl, LoopState.checkClosedState,
      LoopState.orSame, h]
  · simp [apply, LoopState.callAt, LoopState.callAtImpl, LoopState.checkClosedState,
      LoopState.orSame, h]

theorem Op.apply_callLater (s : LoopState κ) (delay : F64) (cb : κ) :
    (Op.callLater delay cb).apply s = (Op.callAt ((F64.fin s.clock).add delay) cb).apply s := rfl

theorem Op.apply_close (s : LoopState κ) :
    Op.close.apply s = if s.running ∨ s.closed then s
      else { s with closed := true, ready := [], timers := [], io := [], nWatchers := 0 } := by
  by_cases hr : s.running = true
  · simp [apply, LoopState.close, LoopState.orSame, hr, Except.map]
  · by_cases hc : s.closed = true
    · simp [apply, LoopState.close, LoopState.orSame, hr, hc, Except.map]
    · simp [apply, LoopState.close, LoopState.orSame, hr, hc, Except.map]

/-- What the one-step methods leave alone. -/
structure LoopState.Called (s s' : LoopState κ) : Prop where
  threadsafe : ∀ e ∈ s'.ready, e.threadsafe = true → e ∈ s.ready
  io : s'.io = s.io ∨ s'.io = []
  flags : s'.running = s.running ∧ s'.stopRequested = s.stopRequested
  clock : s'.clock = s.clock
  closed : s.closed = true → s'.closed = true

theorem LoopState.Called.refl (s : LoopState κ) : s.Called s :=
  ⟨fun _ he _ => he, .inl rfl, ⟨rfl, rfl⟩, rfl, id⟩

theorem Op.called_callAt (s : LoopState κ) (when : F64) (cb : κ) :
    s.Called ((Op.callAt when cb).apply s) := by
  rw [Op.apply_callAt]
  split
  · exact LoopState.Called.refl s
  · exact ⟨fun _ he _ => he, .inl rfl, ⟨rfl, rfl⟩, rfl, id⟩

theorem Op.called (s : LoopState κ) (o : Op κ) : s.Called (o.apply s) := by
  cases o with
  | callSoon cb =>
      rw [Op.apply_callSoon]
      split
      · exact LoopState.Called.refl s
      · refine ⟨fun e he hts => ?_, .inl rfl, ⟨rfl, rfl⟩, rfl, id⟩
        rcases List.mem_append.mp he with hold | hnew
        · exact hold
        · rw [List.mem_singleton.mp hnew] at hts
          exact absurd hts (by simp)
  | callAt when cb => exact called_callAt s when cb
  | callLater delay cb => exact called_callAt s _ cb
  | close =>
      rw [Op.apply_close]
      split
      · exact LoopState.Called.refl s
      · exact ⟨fun e he _ => absurd he (by simp), .inr rfl, ⟨rfl, rfl⟩, rfl, fun _ => rfl⟩
  | cancel h => exact ⟨fun _ he _ => he, .inl rfl, ⟨rfl, rfl⟩, rfl, id⟩
  | detach slot => exact ⟨fun _ he _ => he, .inl rfl, ⟨rfl, rfl⟩, rfl, id⟩
  | watchers n => exact ⟨fun _ he _ => he, .inl rfl, ⟨rfl, rfl⟩, rfl, id⟩

inductive Move (κ : Type)
  -- The next step of the loop thread.
  | run
  -- `run_forever` is called.
  | runForever
  -- The executing callback returns or raises.
  | returns (exc : Option Exn)
  -- The exception handler returns.
  | handled
  | op (o : Op κ)
  | callSoonThreadsafe (i : Nat) (cb : κ)
  | stop (i : Nat)
  | pushIo (i : Nat) (c : IoCompletion κ)
  | notifyOne (i : Nat)
  | tick (d : ℚ)
  -- The timer of `tokio::time::timeout` fires.
  | timeout
  deriving DecidableEq

namespace Main

/-- Go round again, through a yield when watchers exist. -/
def again (m : Main κ) : Main κ :=
  { m with pc := if m.st.nWatchers ≠ 0 then .yieldNow else .batch .begin }

/-- The next step of the loop thread, `none` while it waits or is idle. -/
def run (m : Main κ) : Option (Main κ) :=
  match m.pc with
  | .setup => some { m with st := { m.st with stopRequested := false }, pc := .setupRunning }
  | .setupRunning => some { m with st := { m.st with running := true }, pc := .batch .begin }
  | .batch .finished => some { m with pc := .checkStop }
  | .batch b =>
      let o := batchStep m.st b
      match o.invoke with
      | some inv => some { m with st := o.state, pc := .calling inv o.pc }
      | none => some { m with st := o.state, pc := .batch o.pc }
  | .checkStop => some { m with pc := if m.st.stopRequested then .cleanup else .checkClosed }
  | .checkClosed => some { m with pc := if m.st.closed then .cleanup else .checkReady }
  | .checkReady => some (if m.st.ready.isEmpty then { m with pc := .checkIo } else m.again)
  | .checkIo => some (if m.st.io.isEmpty then { m with pc := .checkTimers } else m.again)
  | .checkTimers => some (if m.st.timersDue then m.again else { m with pc := .park })
  | .yieldNow => some { m with pc := .batch .begin }
  | .park =>
      match m.st.nextDeadline with
      | .error p => some { m with pc := .panicked p }
      | .ok none => some { m with pc := .await none }
      | .ok (some 0) => some { m with pc := .yieldNow }
      | .ok (some d) => some { m with pc := .await (some (m.st.clock + d / nanosPerSec)) }
  | .await wakeAt =>
      if m.permit then some { m with permit := false, pc := .batch .begin }
      else some { m with pc := .parked wakeAt false }
  | .parked _ notified => if notified then some { m with pc := .batch .begin } else none
  | .cleanup => some { m with st := { m.st with running := false }, pc := .cleanupStop }
  | .cleanupStop => some { m with st := { m.st with stopRequested := false }, pc := .idle }
  | .idle | .calling _ _ | .reporting _ _ | .panicked _ => none

/-- `Notify::notify_one`: wake the waiter, or store the permit. -/
def notifyOne (m : Main κ) : Main κ :=
  match m.pc with
  | .parked wakeAt false => { m with pc := .parked wakeAt true }
  | _ => { m with permit := true }

/-- `run_forever_impl` up to its two checks. -/
def runForever (m : Main κ) : Except LoopError (Main κ) := do
  m.st.checkClosedState
  m.st.checkRunningState
  return { m with pc := .setup }

def step (m : Main κ) : Move κ → Option (Main κ)
  | .run => m.run
  | .runForever =>
      match m.pc with
      | .idle => m.runForever.toOption
      | _ => none
  | .returns exc =>
      match m.pc, exc with
      | .calling _ b, none => some { m with pc := .batch b }
      | .calling _ b, some e => some { m with pc := .reporting e b }
      | _, _ => none
  | .handled =>
      match m.pc with
      | .reporting _ b => some { m with pc := .batch b }
      | _ => none
  | .op o => some { m with st := o.apply m.st }
  | .callSoonThreadsafe i cb =>
      match m.st.callSoonThreadsafe cb with
      | .ok (_, st) => some { m with st := st, pending := i :: m.pending }
      | .error _ => none
  | .stop i => some { m with st := m.st.stop, pending := i :: m.pending }
  | .pushIo i c =>
      some { m with st := { m.st with io := m.st.io ++ [c] },
                    pending := if i ∈ m.pending then m.pending else i :: m.pending }
  | .notifyOne i =>
      if i ∈ m.pending then some { m.notifyOne with pending := m.pending.erase i } else none
  | .tick d => if 0 ≤ d then some { m with st := { m.st with clock := m.st.clock + d } } else none
  | .timeout =>
      match m.pc with
      | .parked (some t) notified =>
          -- A future that was notified and is dropped passes the notification on.
          if t ≤ m.st.clock then some { m with pc := .batch .begin, permit := m.permit || notified }
          else none
      | _ => none

/-- A loop that has not been run, with nothing owed. -/
def Init (m : Main κ) : Prop :=
  m.pc = .idle ∧ m.st.running = false ∧ m.st.stopRequested = false ∧ m.permit = false ∧
    m.pending = []

def Fresh (m : Main κ) : Prop := ∃ clock, m = ⟨LoopState.new κ clock, .idle, false, []⟩

/-! ### What the loop thread can do -/

/-- The steps of the loop thread with their guards. -/
inductive RunStep (m : Main κ) : Main κ → Prop
  | reset (hpc : m.pc = .setup) :
      RunStep m { m with st := { m.st with stopRequested := false }, pc := .setupRunning }
  | enter (hpc : m.pc = .setupRunning) :
      RunStep m { m with st := { m.st with running := true }, pc := .batch .begin }
  | quiet {b : BatchPc} (hpc : m.pc = .batch b) :
      RunStep m { m with st := (batchStep m.st b).state, pc := .batch (batchStep m.st b).pc }
  | invoke {b : BatchPc} {inv : Invocation κ} (hpc : m.pc = .batch b)
      (hinv : (batchStep m.st b).invoke = some inv) :
      RunStep m { m with st := (batchStep m.st b).state,
                         pc := .calling inv (batchStep m.st b).pc }
  | batchDone (hpc : m.pc = .batch .finished) : RunStep m { m with pc := .checkStop }
  | stopped (hpc : m.pc = .checkStop) (hstop : m.st.stopRequested = true) :
      RunStep m { m with pc := .cleanup }
  | notStopped (hpc : m.pc = .checkStop) (hstop : m.st.stopRequested = false) :
      RunStep m { m with pc := .checkClosed }
  | closed (hpc : m.pc = .checkClosed) (hclosed : m.st.closed = true) :
      RunStep m { m with pc := .cleanup }
  | notClosed (hpc : m.pc = .checkClosed) : RunStep m { m with pc := .checkReady }
  | noReady (hpc : m.pc = .checkReady) (hready : m.st.ready = []) :
      RunStep m { m with pc := .checkIo }
  | noIo (hpc : m.pc = .checkIo) (hio : m.st.io = []) : RunStep m { m with pc := .checkTimers }
  | noTimers (hpc : m.pc = .checkTimers) : RunStep m { m with pc := .park }
  | again {pc : Pc κ}
      (hpc : m.pc ∈ [.checkReady, .checkIo, .checkTimers, .yieldNow, .park])
      (hnext : pc = .yieldNow ∨ pc = .batch .begin) : RunStep m { m with pc := pc }
  | panic {p : Panic} (hpc : m.pc = .park) (hnext : m.st.nextDeadline = .error p) :
      RunStep m { m with pc := .panicked p }
  | await {wakeAt : Option ℚ} (hpc : m.pc = .park) : RunStep m { m with pc := .await wakeAt }
  | permit {wakeAt : Option ℚ} (hpc : m.pc = .await wakeAt) :
      RunStep m { m with permit := false, pc := .batch .begin }
  | sleep {wakeAt : Option ℚ} (hpc : m.pc = .await wakeAt) :
      RunStep m { m with pc := .parked wakeAt false }
  | wake {wakeAt : Option ℚ} (hpc : m.pc = .parked wakeAt true) :
      RunStep m { m with pc := .batch .begin }
  | leave (hpc : m.pc = .cleanup) :
      RunStep m { m with st := { m.st with running := false }, pc := .cleanupStop }
  | left (hpc : m.pc = .cleanupStop) :
      RunStep m { m with st := { m.st with stopRequested := false }, pc := .idle }

theorem RunStep.of_again {m : Main κ}
    (hpc : m.pc ∈ [.checkReady, .checkIo, .checkTimers, .yieldNow, .park]) :
    m.RunStep m.again := by
  refine RunStep.again hpc ?_
  by_cases hw : m.st.nWatchers ≠ 0
  · exact .inl (if_pos hw)
  · exact .inr (if_neg hw)

theorem runStep_batch {m m' : Main κ} {b : BatchPc} (hpc : m.pc = .batch b)
    (h : m.run = some m') : m.RunStep m' := by
  cases b with
  | finished =>
      simp only [run, hpc, Option.some.injEq] at h
      exact h ▸ .batchDone hpc
  | _ =>
      simp only [run, hpc] at h
      split at h
      · rename_i hinv
        exact Option.some.inj h ▸ .invoke hpc hinv
      · exact Option.some.inj h ▸ .quiet hpc

theorem runStep_park {m m' : Main κ} (hpc : m.pc = .park) (h : m.run = some m') :
    m.RunStep m' := by
  simp only [run, hpc] at h
  split at h
  · rename_i p hnext
    exact Option.some.inj h ▸ .panic hpc hnext
  · exact Option.some.inj h ▸ .await hpc
  · exact Option.some.inj h ▸ .again (by simp [hpc]) (.inl rfl)
  · exact Option.some.inj h ▸ .await hpc

/-- `RunStep` says everything a step of the loop thread can do. -/
theorem runStep_of_run {m m' : Main κ} (h : m.run = some m') : m.RunStep m' := by
  cases hpc : m.pc with
  | batch b => exact runStep_batch hpc h
  | park => exact runStep_park hpc h
  | setup =>
      simp only [run, hpc, Option.some.injEq] at h
      exact h ▸ .reset hpc
  | setupRunning =>
      simp only [run, hpc, Option.some.injEq] at h
      exact h ▸ .enter hpc
  | checkStop =>
      simp only [run, hpc, Option.some.injEq] at h
      subst h
      split
      · rename_i hstop
        exact .stopped hpc hstop
      · rename_i hstop
        exact .notStopped hpc (Bool.eq_false_iff.mpr hstop)
  | checkClosed =>
      simp only [run, hpc, Option.some.injEq] at h
      subst h
      split
      · rename_i hclosed
        exact .closed hpc hclosed
      · exact .notClosed hpc
  | checkReady =>
      simp only [run, hpc, Option.some.injEq] at h
      subst h
      split
      · rename_i hready
        exact .noReady hpc (List.isEmpty_iff.mp hready)
      · exact .of_again (by simp [hpc])
  | checkIo =>
      simp only [run, hpc, Option.some.injEq] at h
      subst h
      split
      · rename_i hio
        exact .noIo hpc (List.isEmpty_iff.mp hio)
      · exact .of_again (by simp [hpc])
  | checkTimers =>
      simp only [run, hpc, Option.some.injEq] at h
      subst h
      split
      · exact .of_again (by simp [hpc])
      · exact .noTimers hpc
  | yieldNow =>
      simp only [run, hpc, Option.some.injEq] at h
      exact h ▸ .again (by simp [hpc]) (.inr rfl)
  | await wakeAt =>
      simp only [run, hpc] at h
      split at h
      · exact Option.some.inj h ▸ .permit hpc
      · exact Option.some.inj h ▸ .sleep hpc
  | parked wakeAt notified =>
      cases notified with
      | true =>
          simp only [run, hpc, if_true, Option.some.injEq] at h
          exact h ▸ .wake hpc
      | false => simp [run, hpc] at h
  | cleanup =>
      simp only [run, hpc, Option.some.injEq] at h
      exact h ▸ .leave hpc
  | cleanupStop =>
      simp only [run, hpc, Option.some.injEq] at h
      exact h ▸ .left hpc
  | idle | calling inv b | reporting e b | panicked p => simp [run, hpc] at h

/-- What every step of the loop thread leaves alone. -/
structure Ran (m m' : Main κ) : Prop where
  timers : ∀ t ∈ m'.st.timers, t ∈ m.st.timers
  clock : m'.st.clock = m.st.clock
  stop : m.pc ≠ .setup → m.pc ≠ .cleanupStop → m'.st.stopRequested = m.st.stopRequested

theorem Ran.of_taken {m m' : Main κ} (hst : m.st.Taken m'.st) : m.Ran m' :=
  ⟨fun _ ht => hst.timers.subset ht, hst.clock, fun _ _ => hst.flags.2.1⟩

theorem ran_of_run {m m' : Main κ} (h : m.run = some m') : m.Ran m' := by
  cases runStep_of_run h with
  | quiet hpc => exact .of_taken (batchStep_taken _ _)
  | invoke hpc hinv => exact .of_taken (batchStep_taken _ _)
  | reset hpc => exact ⟨fun _ ht => ht, rfl, fun hne _ => absurd hpc hne⟩
  | left hpc => exact ⟨fun _ ht => ht, rfl, fun _ hne => absurd hpc hne⟩
  | _ => exact ⟨fun _ ht => ht, rfl, fun _ _ => rfl⟩

/-! ### What each move can do -/

theorem step_runForever {m m' : Main κ} (h : m.step .runForever = some m') :
    m.pc = .idle ∧ m.st.closed = false ∧ m.st.running = false ∧ m' = { m with pc := .setup } := by
  simp only [step] at h
  split at h
  · rename_i hpc
    by_cases hclosed : m.st.closed = true
    · simp [runForever, LoopState.checkClosedState, hclosed, bind, Except.bind,
        Except.toOption] at h
    · by_cases hrunning : m.st.running = true
      · simp [runForever, LoopState.checkClosedState, LoopState.checkRunningState, hclosed,
          hrunning, bind, Except.bind, Except.toOption] at h
      · simp only [Bool.not_eq_true] at hclosed hrunning
        simp only [runForever, LoopState.checkClosedState, LoopState.checkRunningState, hclosed,
          hrunning] at h
        exact ⟨hpc, hclosed, hrunning, (Option.some.inj h).symm⟩
  · simp at h

theorem step_returns {m m' : Main κ} {exc : Option Exn} (h : m.step (.returns exc) = some m') :
    ∃ inv b, m.pc = .calling inv b ∧ ((exc = none ∧ m' = { m with pc := .batch b }) ∨
      ∃ e, exc = some e ∧ m' = { m with pc := .reporting e b }) := by
  simp only [step] at h
  split at h
  · rename_i inv b hpc
    exact ⟨inv, b, hpc, .inl ⟨rfl, (Option.some.inj h).symm⟩⟩
  · rename_i inv b e hpc
    exact ⟨inv, b, hpc, .inr ⟨e, rfl, (Option.some.inj h).symm⟩⟩
  · simp at h

theorem step_handled {m m' : Main κ} (h : m.step .handled = some m') :
    ∃ e b, m.pc = .reporting e b ∧ m' = { m with pc := .batch b } := by
  simp only [step] at h
  split at h
  · rename_i e b hpc
    exact ⟨e, b, hpc, (Option.some.inj h).symm⟩
  · simp at h

theorem step_callSoonThreadsafe {m m' : Main κ} {i : Nat} {cb : κ}
    (h : m.step (.callSoonThreadsafe i cb) = some m') :
    m' = { m with st := m.st.pushReady cb true, pending := i :: m.pending } := by
  simp only [step, LoopState.callSoonThreadsafe, LoopState.checkClosedState] at h
  by_cases hclosed : m.st.closed = true
  · simp [hclosed, bind, Except.bind] at h
  · rw [if_neg hclosed] at h
    exact (Option.some.inj h).symm

@[simp] theorem st_notifyOne (m : Main κ) : m.notifyOne.st = m.st := by
  unfold notifyOne
  split <;> rfl

theorem step_notifyOne {m m' : Main κ} {i : Nat} (h : m.step (.notifyOne i) = some m') :
    m' = { m.notifyOne with pending := m.pending.erase i } := by
  simp only [step] at h
  split at h
  · exact (Option.some.inj h).symm
  · simp at h

theorem step_tick {m m' : Main κ} {d : ℚ} (h : m.step (.tick d) = some m') :
    0 ≤ d ∧ m' = { m with st := { m.st with clock := m.st.clock + d } } := by
  simp only [step] at h
  split at h
  · rename_i hd
    exact ⟨hd, (Option.some.inj h).symm⟩
  · simp at h

theorem step_timeout {m m' : Main κ} (h : m.step .timeout = some m') :
    ∃ t notified, m.pc = .parked (some t) notified ∧
      m' = { m with pc := .batch .begin, permit := m.permit || notified } := by
  simp only [step] at h
  split at h
  · rename_i t notified hpc
    split at h
    · exact ⟨t, notified, hpc, (Option.some.inj h).symm⟩
    · simp at h
  · simp at h

theorem closed_of_step {m m' : Main κ} {mv : Move κ} (hs : m.step mv = some m')
    (hc : m.st.closed = true) : m'.st.closed = true := by
  cases mv with
  | run =>
      cases runStep_of_run hs with
      | quiet hpc => exact (batchStep_taken _ _).flags.2.2.trans hc
      | invoke hpc hinv => exact (batchStep_taken _ _).flags.2.2.trans hc
      | _ => exact hc
  | runForever =>
      obtain ⟨_, _, _, rfl⟩ := step_runForever hs
      exact hc
  | returns exc =>
      obtain ⟨_, _, _, ⟨_, rfl⟩ | ⟨_, _, rfl⟩⟩ := step_returns hs
      · exact hc
      · exact hc
  | handled =>
      obtain ⟨_, _, _, rfl⟩ := step_handled hs
      exact hc
  | op o =>
      obtain rfl := Option.some.inj hs
      exact (Op.called m.st o).closed hc
  | callSoonThreadsafe i cb =>
      rw [step_callSoonThreadsafe hs]
      exact hc
  | stop _ | pushIo _ _ =>
      obtain rfl := Option.some.inj hs
      exact hc
  | notifyOne i =>
      rw [step_notifyOne hs]
      change m.notifyOne.st.closed = true
      rw [st_notifyOne]
      exact hc
  | tick d =>
      obtain ⟨_, rfl⟩ := step_tick hs
      exact hc
  | timeout =>
      obtain ⟨_, _, _, rfl⟩ := step_timeout hs
      exact hc

end Main

/-- Every run of the loop, whatever the other parties do. -/
abbrev MainReach : Main κ → Prop :=
  Kit.Runs Main.step (fun _ _ => True) Main.Init

end Tokioop.Loop
