import Tokioop.Loop.Machine
import Tokioop.Fd.Represents

/-!
What is left of a loop after `close`.

The queues and the flags of `Main` are put together with the fd registry, and
the methods of `TokioopLoop` and its handles are calls on both, with the result
they return to Python. A call is atomic, as it is under the GIL; in particular
nothing comes between the checks of `run_forever` and the flag it sets. Watcher
tasks run inside `run_forever` only.
-/

namespace Tokioop.Loop

open Fd

/-- `executed` lists what batches have called so far. -/
structure Whole (κ : Type) where
  main : Main κ
  reg : Registry κ κ
  executed : List (Invocation κ)

inductive CallError
  | loop (e : LoopError)
  | fd (e : FdError)
  deriving DecidableEq, Repr

/-- The methods of the loop and of its handles. A `setup` is what the kernel
answers to a registration, and `cancelFd i` cancels the `i`-th `FdHandle` ever
returned. -/
inductive Call (κ : Type)
  | callSoon (cb : κ)
  | callSoonThreadsafe (cb : κ)
  | callLater (delay : F64) (cb : κ)
  | callAt (when : F64) (cb : κ)
  /-- `create_task`; without a task factory the new task schedules its first
  step, `firstStep`. What a factory does are calls of its own. -/
  | createTask (factory : Bool) (firstStep : κ)
  | createFuture
  | addReader (fd : Int) (cb : κ) (setup : Setup)
  | addWriter (fd : Int) (cb : κ) (setup : Setup)
  | addTcpReader (fd : Int) (cb errCb : κ) (setup : Setup)
  | addUdpReader (fd : Int) (cb errCb : κ) (setup : Setup)
  | removeReader (fd : Int)
  | removeWriter (fd : Int)
  | cancel (h : Handle)
  | cancelFd (i : Nat)
  | stop
  | runForever
  /-- `entries` are what `ensure_future` and `add_done_callback` schedule: the
  first step of a new task, or the stop callback of a future that is done. -/
  | runUntilComplete (entries : List κ)
  | close

/-- The calls that schedule something, register something or run the loop. -/
def Call.schedules {κ : Type} : Call κ → Bool
  | .callSoon _ | .callSoonThreadsafe _ | .callLater _ _ | .callAt _ _ | .createTask _ _
  | .createFuture | .addReader _ _ _ | .addWriter _ _ _ | .addTcpReader _ _ _ _
  | .addUdpReader _ _ _ _ | .runForever | .runUntilComplete _ => true
  | .removeReader _ | .removeWriter _ | .cancel _ | .cancelFd _ | .stop | .close => false

inductive Turn (κ : Type)
  | call (c : Call κ)
  /-- The loop thread takes a step, or the callback it executes returns. -/
  | loop
  | returns (exc : Option Exn)
  | handled
  | timeout
  | tick (d : ℚ)
  /-- A watcher task pushes a completion and notifies. -/
  | pushIo (c : IoCompletion κ)

variable {κ : Type}

namespace Whole

def st (w : Whole κ) : LoopState κ := w.main.st

def setSt (w : Whole κ) (s : LoopState κ) : Whole κ := { w with main := { w.main with st := s } }

/-- The registry is changed; the counter and the slots without a callback are
those of the registry. -/
def setReg (w : Whole κ) (r : Registry κ κ) : Whole κ :=
  { w.setSt { w.st with
      nWatchers := r.nWatchers.toNat
      detached := (List.range r.slots.length).filter fun i =>
        (r.slots[i]?.bind (·.cb)).isNone } with reg := r }

def notifyOne (w : Whole κ) : Whole κ := { w with main := w.main.notifyOne }

/-- The result of a scheduling method. -/
def schedule (w : Whole κ) (res : Except LoopError (Handle × LoopState κ)) :
    Except CallError Unit × Whole κ :=
  match res with
  | .error e => (.error (.loop e), w)
  | .ok (_, s) => (.ok (), w.setSt s)

/-- `check_closed_state` and a registration. -/
def register (w : Whole κ) (add : Registry κ κ → Except FdError FdHandle × Registry κ κ) :
    Except CallError Unit × Whole κ :=
  match w.st.checkClosedState, add w.reg with
  | .error e, _ => (.error (.loop e), w)
  | .ok _, (.error e, r) => (.error (.fd e), w.setReg r)
  | .ok _, (.ok _, r) => (.ok (), w.setReg r)

def createTask (w : Whole κ) (factory : Bool) (firstStep : κ) : Except CallError Unit × Whole κ :=
  match w.st.checkClosedState with
  | .error e => (.error (.loop e), w)
  | .ok _ => if factory then (.ok (), w) else w.schedule (w.st.callSoon firstStep)

def remove (w : Whole κ) (fd : Int) (isRead : Bool) : Whole κ :=
  if w.st.closed then w else w.setReg (w.reg.detachWatcher fd isRead).2

/-- `run_forever_impl` up to the block on `run_main`. -/
def runForever (w : Whole κ) : Except CallError Unit × Whole κ :=
  match w.main.runForever with
  | .error e => (.error (.loop e), w)
  | .ok m =>
      (.ok (), { w with main := { m with
        st := { m.st with stopRequested := false, running := true }, pc := .batch .begin } })

/-- `run_until_complete` up to the block on `run_main`. -/
def runUntilComplete (w : Whole κ) (entries : List κ) : Except CallError Unit × Whole κ :=
  match w.main.runForever with
  | .error e => (.error (.loop e), w)
  | .ok _ => (w.setSt (entries.foldl (fun s cb => s.pushReady cb false) w.st)).runForever

def close (w : Whole κ) : Except CallError Unit × Whole κ :=
  match w.st.close with
  | .error e => (.error (.loop e), w)
  | .ok s => (.ok (), if w.st.closed then w else (w.setSt s).setReg w.reg.abortAll)

def call (w : Whole κ) : Call κ → Except CallError Unit × Whole κ
  | .callSoon cb => w.schedule (w.st.callSoon cb)
  | .callSoonThreadsafe cb =>
      match w.schedule (w.st.callSoonThreadsafe cb) with
      | (.ok _, w') => (.ok (), w'.notifyOne)
      | (.error e, w') => (.error e, w')
  | .callLater delay cb => w.schedule (w.st.callLater delay cb)
  | .callAt when cb => w.schedule (w.st.callAt when cb)
  | .createTask factory firstStep => w.createTask factory firstStep
  | .createFuture =>
      match w.st.checkClosedState with
      | .error e => (.error (.loop e), w)
      | .ok _ => (.ok (), w)
  | .addReader fd cb setup => w.register fun r => r.addWatcher fd true cb setup
  | .addWriter fd cb setup => w.register fun r => r.addWatcher fd false cb setup
  | .addTcpReader fd cb errCb setup => w.register fun r => r.addDrainWatcher fd cb errCb setup
  | .addUdpReader fd cb errCb setup => w.register fun r => r.addDrainWatcher fd cb errCb setup
  | .removeReader fd => (.ok (), w.remove fd true)
  | .removeWriter fd => (.ok (), w.remove fd false)
  | .cancel h => (.ok (), w.setSt (w.st.cancel h).2)
  | .cancelFd i =>
      match w.reg.issued[i]? with
      | none => (.ok (), w)
      | some (h, _) => (.ok (), if (w.reg.cancel h).1 then w.setReg (w.reg.cancel h).2 else w)
  | .stop => (.ok (), (w.setSt w.st.stop).notifyOne)
  | .runForever => w.runForever
  | .runUntilComplete entries => w.runUntilComplete entries
  | .close => w.close

/-- A step of the loop thread; what it starts to execute is recorded. -/
def mainStep (w : Whole κ) (mv : Move κ) : Option (Whole κ) :=
  (w.main.step mv).map fun m =>
    { w with main := m, executed := match m.pc, mv with
        | .calling inv _, .run => w.executed ++ [inv]
        | _, _ => w.executed }

def step (w : Whole κ) : Turn κ → Option (Whole κ)
  | .call c => some (w.call c).2
  | .loop => w.mainStep .run
  | .returns exc => w.mainStep (.returns exc)
  | .handled => w.mainStep .handled
  | .timeout => w.mainStep .timeout
  | .tick d => w.mainStep (.tick d)
  | .pushIo c =>
      if w.st.running then some (w.setSt { w.st with io := w.st.io ++ [c] }).notifyOne else none

def Init (w : Whole κ) : Prop :=
  ∃ clock, w = ⟨⟨LoopState.new κ clock, .idle, false, []⟩, .empty, []⟩

def Reach : Whole κ → Prop := Kit.Runs step (fun _ _ => True) Init

/-- The states reached from `w` by any later calls and steps. -/
def RunsFrom (w : Whole κ) : Whole κ → Prop := Kit.Runs step (fun _ _ => True) (· = w)

/-! ### A closed loop -/

/-- Nothing is queued or registered, every `FdHandle` ever returned reports
cancelled, and the loop thread is not inside `run_main`. -/
structure Inert (w : Whole κ) : Prop where
  closed : w.st.closed = true
  stopped : w.st.running = false
  outside : w.main.pc = .idle ∨ w.main.pc = .cleanupStop
  ready : w.st.ready = []
  timers : w.st.timers = []
  io : w.st.io = []
  nWatchers : w.st.nWatchers = 0 ∧ w.reg.nWatchers = 0
  fds : w.reg.fds = ∅
  cancelled : ∀ k j, (k, j) ∈ w.reg.issued → w.reg.flags[k.flag]? = some true

/-- What keeps the loop inert: the queues, the flags, the registry and the
record of executions are as they were. -/
structure Still (w w' : Whole κ) : Prop where
  closed : w'.st.closed = w.st.closed
  running : w'.st.running = w.st.running
  pc : w'.main.pc = w.main.pc ∨ w'.main.pc = .idle
  queues : w'.st.ready = w.st.ready ∧ w'.st.timers = w.st.timers ∧ w'.st.io = w.st.io
  nWatchers : w'.st.nWatchers = w.st.nWatchers
  reg : w'.reg = w.reg
  executed : w'.executed = w.executed

theorem Still.refl (w : Whole κ) : Still w w :=
  ⟨rfl, rfl, .inl rfl, ⟨rfl, rfl, rfl⟩, rfl, rfl, rfl⟩

theorem Still.trans {w₁ w₂ w₃ : Whole κ} (h : Still w₁ w₂) (h' : Still w₂ w₃) : Still w₁ w₃ := by
  obtain ⟨hready, htimers, hio⟩ := h.queues
  obtain ⟨hready', htimers', hio'⟩ := h'.queues
  refine ⟨h'.closed.trans h.closed, h'.running.trans h.running, ?_,
    ⟨hready'.trans hready, htimers'.trans htimers, hio'.trans hio⟩, h'.nWatchers.trans h.nWatchers,
    h'.reg.trans h.reg, h'.executed.trans h.executed⟩
  rcases h'.pc with hpc | hpc
  · rw [hpc]
    exact h.pc
  · exact .inr hpc

theorem Inert.of_still {w w' : Whole κ} (h : Inert w) (hs : Still w w') : Inert w' := by
  obtain ⟨hready, htimers, hio⟩ := hs.queues
  refine ⟨hs.closed.trans h.closed, hs.running.trans h.stopped, ?_, hready.trans h.ready,
    htimers.trans h.timers, hio.trans h.io, ⟨hs.nWatchers.trans h.nWatchers.1, ?_⟩, ?_, ?_⟩
  · rcases hs.pc with hpc | hpc
    · rw [hpc]
      exact h.outside
    · exact .inl hpc
  · rw [hs.reg]
    exact h.nWatchers.2
  · rw [hs.reg]
    exact h.fds
  · rw [hs.reg]
    exact h.cancelled

/-! ### Calls on a closed loop -/

section Closed

variable {w : Whole κ}

theorem checkClosedState_of_closed (h : w.st.closed = true) :
    w.st.checkClosedState = .error .closed := by
  rw [LoopState.checkClosedState, if_pos h]

theorem register_of_closed (h : w.st.closed = true)
    (add : Registry κ κ → Except FdError FdHandle × Registry κ κ) :
    w.register add = (.error (.loop .closed), w) := by
  rw [register, checkClosedState_of_closed h]

theorem main_runForever_of_closed (h : w.st.closed = true) :
    w.main.runForever = .error .closed := by
  have hc : w.main.st.checkClosedState = .error .closed := checkClosedState_of_closed h
  rw [Main.runForever, hc]
  rfl

/-- Every call that schedules, registers or runs is refused and has changed
nothing at all. -/
theorem call_refused (h : w.st.closed = true) {c : Call κ} (hc : c.schedules = true) :
    w.call c = (.error (.loop .closed), w) := by
  have hcheck := checkClosedState_of_closed h
  have hrun := main_runForever_of_closed h
  cases c with
  | callSoon cb | callLater delay cb | callAt when cb =>
      simp only [call, LoopState.callSoon, LoopState.callLater, LoopState.callAt,
        LoopState.callAtImpl, hcheck]
      rfl
  | callSoonThreadsafe cb =>
      simp only [call, LoopState.callSoonThreadsafe, hcheck]
      rfl
  | createTask factory firstStep => simp only [call, createTask, hcheck]
  | createFuture => simp only [call, hcheck]
  | addReader fd cb setup | addWriter fd cb setup =>
      simp only [call]
      exact register_of_closed h _
  | addTcpReader fd cb errCb setup | addUdpReader fd cb errCb setup =>
      simp only [call]
      exact register_of_closed h _
  | runForever => simp only [call, runForever, hrun]
  | runUntilComplete entries => simp only [call, runUntilComplete, hrun]
  | removeReader fd | removeWriter fd | cancel k | cancelFd i | stop | close => cases hc

theorem close_of_running (h : w.st.running = true) :
    w.call .close = (.error (.loop .closeRunning), w) := by
  simp only [call, close, LoopState.close, if_pos h]

theorem close_of_closed (hr : w.st.running = false) (hc : w.st.closed = true) :
    w.call .close = (.ok (), w) := by
  simp [call, close, LoopState.close, hr, hc]

end Closed

theorem Inert.clear {w : Whole κ} (h : Inert w) {k : FdHandle} {j : Nat}
    (hk : (k, j) ∈ w.reg.issued) : w.reg.cancel k = (false, w.reg) := by
  rw [Registry.cancel, if_neg]
  rw [h.cancelled k j hk]
  simp

theorem still_notifyOne {w : Whole κ} (h : Inert w) : Still w w.notifyOne := by
  have hm : w.notifyOne.main = { w.main with permit := true } := by
    show w.main.notifyOne = _
    rcases h.outside with hpc | hpc <;> simp [Main.notifyOne, hpc]
  exact ⟨by rw [st, hm]; rfl, by rw [st, hm]; rfl, .inl (by rw [hm]),
    ⟨by rw [st, hm]; rfl, by rw [st, hm]; rfl, by rw [st, hm]; rfl⟩, by rw [st, hm]; rfl, rfl, rfl⟩

theorem still_call {w : Whole κ} (h : Inert w) (c : Call κ) : Still w (w.call c).2 := by
  by_cases hc : c.schedules = true
  · rw [call_refused h.closed hc]
    exact Still.refl w
  · cases c with
    | removeReader fd | removeWriter fd =>
        simp only [call, remove, h.closed, if_true]
        exact Still.refl w
    | cancel k => exact ⟨rfl, rfl, .inl rfl, ⟨rfl, rfl, rfl⟩, rfl, rfl, rfl⟩
    | cancelFd i =>
        simp only [call]
        split
        · exact Still.refl w
        · rename_i k j hk
          rw [h.clear (List.mem_of_getElem? hk)]
          exact Still.refl w
    | stop =>
        have hstop : Still w (w.setSt w.st.stop) :=
          ⟨rfl, rfl, .inl rfl, ⟨rfl, rfl, rfl⟩, rfl, rfl, rfl⟩
        exact hstop.trans (still_notifyOne (h.of_still hstop))
    | close =>
        rw [close_of_closed h.stopped h.closed]
        exact Still.refl w
    | callSoon _ | callSoonThreadsafe _ | callLater _ _ | callAt _ _ | createTask _ _
    | createFuture | addReader _ _ _ | addWriter _ _ _ | addTcpReader _ _ _ _
    | addUdpReader _ _ _ _ | runForever | runUntilComplete _ => exact absurd rfl hc

theorem still_loop {w w' : Whole κ} (h : Inert w) (hs : w.mainStep .run = some w') :
    Still w w' := by
  obtain ⟨m, hm, rfl⟩ := Option.map_eq_some_iff.mp hs
  have hrun : w.main.run = some m := hm
  rcases h.outside with hpc | hpc
  · simp [Main.run, hpc] at hrun
  · simp only [Main.run, hpc, Option.some.injEq] at hrun
    subst hrun
    exact ⟨rfl, rfl, .inr rfl, ⟨rfl, rfl, rfl⟩, rfl, rfl, rfl⟩

theorem still_step {w w' : Whole κ} {t : Turn κ} (h : Inert w) (hs : w.step t = some w') :
    Still w w' := by
  cases t with
  | call c =>
      obtain rfl := Option.some.inj hs
      exact still_call h c
  | loop => exact still_loop h hs
  | returns exc =>
      obtain ⟨m, hm, -⟩ := Option.map_eq_some_iff.mp hs
      obtain ⟨inv, b, hpc, -⟩ := Main.step_returns hm
      rcases h.outside with hout | hout <;> rw [hpc] at hout <;> cases hout
  | handled =>
      obtain ⟨m, hm, -⟩ := Option.map_eq_some_iff.mp hs
      obtain ⟨e, b, hpc, -⟩ := Main.step_handled hm
      rcases h.outside with hout | hout <;> rw [hpc] at hout <;> cases hout
  | timeout =>
      obtain ⟨m, hm, -⟩ := Option.map_eq_some_iff.mp hs
      obtain ⟨_, _, hpc, -⟩ := Main.step_timeout hm
      rcases h.outside with hout | hout <;> rw [hpc] at hout <;> cases hout
  | tick d =>
      obtain ⟨m, hm, rfl⟩ := Option.map_eq_some_iff.mp hs
      obtain ⟨-, rfl⟩ := Main.step_tick hm
      refine ⟨rfl, rfl, .inl rfl, ⟨rfl, rfl, rfl⟩, rfl, rfl, ?_⟩
      split <;> simp_all
  | pushIo c => simp [step, h.stopped] at hs

theorem still_of_runsFrom {w v : Whole κ} (h : Inert w) (hr : RunsFrom w v) : Still w v := by
  refine Kit.Runs.invariant (I := Still w) ?_ ?_ hr
  · rintro v rfl
    exact Still.refl v
  · intro v t v' hv _ hs
    exact hv.trans (still_step (h.of_still hv) hs)

/-! ### Until it is closed -/

structure Open (w : Whole κ) : Prop where
  ok : w.reg.Ok
  closed : w.st.closed = false
  outside : w.st.running = false → w.main.pc = .idle ∨ w.main.pc = .cleanupStop

theorem open_setSt {w : Whole κ} (h : Open w) {s : LoopState κ} (hr : s.running = w.st.running)
    (hc : s.closed = w.st.closed) : Open (w.setSt s) :=
  ⟨h.ok, hc.trans h.closed, fun hs => h.outside (hr ▸ hs)⟩

theorem open_setReg {w : Whole κ} (h : Open w) {r : Registry κ κ} (hok : r.Ok) :
    Open (w.setReg r) :=
  ⟨hok, h.closed, h.outside⟩

theorem open_notifyOne {w : Whole κ} (h : Open w) : Open w.notifyOne := by
  refine ⟨h.ok, ?_, fun hr => ?_⟩
  · show w.main.notifyOne.st.closed = false
    rw [Main.st_notifyOne]
    exact h.closed
  · have hr' : w.main.notifyOne.st.running = false := hr
    rw [Main.st_notifyOne] at hr'
    show w.main.notifyOne.pc = _ ∨ w.main.notifyOne.pc = _
    unfold Main.notifyOne
    split
    · rename_i hpc
      rcases h.outside hr' with hout | hout <;> rw [hpc] at hout <;> cases hout
    · exact h.outside hr'

theorem open_schedule {w : Whole κ} (h : Open w) {res : Except LoopError (Handle × LoopState κ)}
    (hres : ∀ k s, res = .ok (k, s) → s.running = w.st.running ∧ s.closed = w.st.closed) :
    Open (w.schedule res).2 := by
  unfold schedule
  split
  · exact h
  · obtain ⟨hr, hc⟩ := hres _ _ rfl
    exact open_setSt h hr hc

/-- A method that was not refused has done what follows the check. -/
theorem of_checked {s t s' : LoopState κ} {k k' : Handle}
    (h : (do s.checkClosedState; return (k, t) : Except LoopError (Handle × LoopState κ)) =
      .ok (k', s')) : s' = t := by
  unfold LoopState.checkClosedState at h
  split at h
  · cases h
  · cases h
    rfl

theorem open_register {w : Whole κ} (h : Open w)
    {add : Registry κ κ → Except FdError FdHandle × Registry κ κ}
    (hadd : ∀ r, r.Ok → (add r).2.Ok) : Open (w.register add).2 := by
  have hok := hadd w.reg h.ok
  unfold register
  split
  · exact h
  · rename_i heq
    rw [heq] at hok
    exact open_setReg h hok
  · rename_i heq
    rw [heq] at hok
    exact open_setReg h hok

theorem open_runForever {w : Whole κ} (h : Open w) : Open w.runForever.2 := by
  unfold runForever
  split
  · exact h
  · rename_i m hm
    have hst : m.st.closed = w.st.closed := by
      simp only [Main.runForever, LoopState.checkClosedState, LoopState.checkRunningState] at hm
      split at hm
      · cases hm
      · split at hm
        · cases hm
        · cases hm
          rfl
    exact ⟨h.ok, hst.trans h.closed, fun hr => by cases hr⟩

theorem foldl_pushReady (cbs : List κ) (s : LoopState κ) :
    (cbs.foldl (fun s cb => s.pushReady cb false) s).running = s.running ∧
      (cbs.foldl (fun s cb => s.pushReady cb false) s).closed = s.closed := by
  induction cbs generalizing s with
  | nil => exact ⟨rfl, rfl⟩
  | cons cb cbs ih => exact ih (s.pushReady cb false)

/-- `close` on an open loop that does not run. -/
theorem inert_close {w : Whole κ} (h : Open w) (hr : w.st.running = false) :
    (w.call .close).1 = .ok () ∧ Inert (w.call .close).2 := by
  have hclose : w.call .close = (.ok (), (w.setSt { w.st with
      closed := true, ready := [], timers := [], io := [], nWatchers := 0 }).setReg
        w.reg.abortAll) := by
    simp [call, close, LoopState.close, hr, h.closed]
  have hok := Registry.abortAll_ok h.ok
  rw [hclose]
  refine ⟨rfl, rfl, hr, h.outside hr, rfl, rfl, rfl, ⟨rfl, rfl⟩, rfl, fun k j hk => ?_⟩
  obtain ⟨i, hi⟩ := List.mem_iff_getElem?.mp hk
  obtain ⟨hflag, -⟩ := hok.own i k j hi
  have hlt : k.flag < w.reg.abortAll.flags.length := by
    rw [hflag, ← hok.issued_length]
    exact (List.getElem?_eq_some_iff.mp hi).1
  have hget := List.getElem?_eq_getElem hlt
  cases hv : w.reg.abortAll.flags[k.flag] with
  | true => exact hget.trans (congrArg some hv)
  | false =>
      -- A clear flag would have its watcher in the registry, which is empty.
      obtain ⟨d, hd, -⟩ := (Registry.flag_clear_iff hok hk).mp (hget.trans (congrArg some hv))
      simp [Registry.direction, Registry.abortAll] at hd

theorem open_call {w : Whole κ} (h : Open w) {c : Call κ} (hc : c ≠ .close) :
    Open (w.call c).2 := by
  have hcheck : w.st.checkClosedState = .ok () := by
    simp [LoopState.checkClosedState, h.closed]
  cases c with
  | callSoon cb | callAt when cb | callLater delay cb =>
      exact open_schedule h fun k s hs => by
        rw [of_checked hs]
        exact ⟨rfl, rfl⟩
  | callSoonThreadsafe cb =>
      have hpush : Open (w.schedule (w.st.callSoonThreadsafe cb)).2 :=
        open_schedule h fun k s hs => by
          rw [of_checked hs]
          exact ⟨rfl, rfl⟩
      simp only [call]
      split
      · rename_i heq
        rw [heq] at hpush
        exact open_notifyOne hpush
      · rename_i heq
        rw [heq] at hpush
        exact hpush
  | createTask factory firstStep =>
      simp only [call, createTask, hcheck]
      split
      · exact h
      · exact open_schedule h fun k s hs => by
          rw [of_checked hs]
          exact ⟨rfl, rfl⟩
  | createFuture =>
      simp only [call, hcheck]
      exact h
  | addReader fd cb setup | addWriter fd cb setup =>
      simp only [call]
      exact open_register h fun r hr => Registry.register_ok hr _ _ _ _ fun f => ⟨rfl, rfl, rfl⟩
  | addTcpReader fd cb errCb setup | addUdpReader fd cb errCb setup =>
      simp only [call]
      exact open_register h fun r hr => Registry.register_ok hr _ _ _ _ fun f => ⟨rfl, rfl, rfl⟩
  | removeReader fd | removeWriter fd =>
      simp only [call, remove, h.closed, Bool.false_eq_true, if_false]
      exact open_setReg h (Registry.detachWatcher_ok h.ok _ _)
  | cancel k => exact open_setSt h rfl rfl
  | cancelFd i =>
      simp only [call]
      split
      · exact h
      · rename_i k j hk
        dsimp only
        split
        · exact open_setReg h (Registry.cancel_ok h.ok (List.mem_of_getElem? hk))
        · exact h
  | stop => exact open_notifyOne (open_setSt h rfl rfl)
  | runForever => exact open_runForever h
  | runUntilComplete entries =>
      simp only [call, runUntilComplete]
      split
      · exact h
      · obtain ⟨hr, hcl⟩ := foldl_pushReady entries w.st
        exact open_runForever (open_setSt h hr hcl)
  | close => exact absurd rfl hc

/-- The loop thread clears `running` on its way out and nowhere else. -/
theorem outside_of_runStep {m m' : Main κ} (h : m.RunStep m')
    (hout : m.st.running = false → m.pc = .idle ∨ m.pc = .cleanupStop)
    (hr : m'.st.running = false) : m'.pc = .idle ∨ m'.pc = .cleanupStop := by
  -- Anywhere else inside `run_main` the flag is set.
  have hinside : ∀ {pc : Pc κ}, m.pc = pc → pc ≠ .idle → pc ≠ .cleanupStop →
      m.st.running = false → False := by
    intro pc hpc hidle hcleanup hfalse
    rcases hout hfalse with h | h
    · exact hidle (hpc ▸ h)
    · exact hcleanup (hpc ▸ h)
  cases h with
  | enter hpc => cases hr
  | quiet hpc =>
      exact (hinside hpc (by simp) (by simp) ((batchStep_taken _ _).flags.1 ▸ hr)).elim
  | invoke hpc hinv =>
      exact (hinside hpc (by simp) (by simp) ((batchStep_taken _ _).flags.1 ▸ hr)).elim
  | leave hpc => exact .inr rfl
  | left hpc => exact .inl rfl
  | again hpc hnext =>
      refine (hinside rfl ?_ ?_ hr).elim
      · rintro heq
        rw [heq] at hpc
        simp at hpc
      · rintro heq
        rw [heq] at hpc
        simp at hpc
  | reset hpc | batchDone hpc | stopped hpc hstop | notStopped hpc hstop | closed hpc hclosed
  | notClosed hpc | noReady hpc hready | noIo hpc hio | noTimers hpc | panic hpc hnext
  | await hpc | permit hpc | sleep hpc | wake hpc =>
      exact (hinside hpc (by simp) (by simp) hr).elim

theorem closed_of_runStep {m m' : Main κ} (h : m.RunStep m') : m'.st.closed = m.st.closed := by
  cases h with
  | quiet hpc => exact (batchStep_taken _ _).flags.2.2
  | invoke hpc hinv => exact (batchStep_taken _ _).flags.2.2
  | _ => rfl

theorem open_mainStep {w w' : Whole κ} {mv : Move κ} (h : Open w) (hs : w.mainStep mv = some w')
    (hcl : ∀ m, w.main.step mv = some m → m.st.closed = w.st.closed)
    (hout : ∀ m, w.main.step mv = some m → m.st.running = false →
      m.pc = .idle ∨ m.pc = .cleanupStop) : Open w' := by
  obtain ⟨m, hm, rfl⟩ := Option.map_eq_some_iff.mp hs
  exact ⟨h.ok, (hcl m hm).trans h.closed, hout m hm⟩

/-- A callback is executing, so the loop runs. -/
theorem Open.inside {w : Whole κ} (h : Open w) {pc : Pc κ} (hpc : w.main.pc = pc)
    (hidle : pc ≠ .idle) (hcleanup : pc ≠ .cleanupStop) : w.st.running = true := by
  cases hr : w.st.running with
  | true => rfl
  | false =>
      rcases h.outside hr with hout | hout
      · exact absurd (hpc ▸ hout) hidle
      · exact absurd (hpc ▸ hout) hcleanup

theorem open_step {w w' : Whole κ} {t : Turn κ} (h : Open w) (ht : t ≠ .call .close)
    (hs : w.step t = some w') : Open w' := by
  cases t with
  | call c =>
      obtain rfl := Option.some.inj hs
      exact open_call h (fun hc => ht (hc ▸ rfl))
  | loop =>
      refine open_mainStep h hs (fun m hm => ?_) (fun m hm hr => ?_)
      · exact closed_of_runStep (Main.runStep_of_run hm)
      · exact outside_of_runStep (Main.runStep_of_run hm) h.outside hr
  | returns exc =>
      refine open_mainStep h hs (fun m hm => ?_) (fun m hm hr => ?_)
      · obtain ⟨_, _, _, ⟨_, rfl⟩ | ⟨_, _, rfl⟩⟩ := Main.step_returns hm <;> rfl
      · obtain ⟨inv, b, hpc, hnext⟩ := Main.step_returns hm
        have hrun := h.inside hpc (by simp) (by simp)
        obtain ⟨_, rfl⟩ | ⟨_, _, rfl⟩ := hnext <;> exact absurd (hrun.symm.trans hr) (by simp)
  | handled =>
      refine open_mainStep h hs (fun m hm => ?_) (fun m hm hr => ?_)
      · obtain ⟨_, _, _, rfl⟩ := Main.step_handled hm
        rfl
      · obtain ⟨e, b, hpc, rfl⟩ := Main.step_handled hm
        have hrun := h.inside hpc (by simp) (by simp)
        exact absurd (hrun.symm.trans hr) (by simp)
  | timeout =>
      refine open_mainStep h hs (fun m hm => ?_) (fun m hm hr => ?_)
      · obtain ⟨_, _, _, rfl⟩ := Main.step_timeout hm
        rfl
      · obtain ⟨_, _, hpc, rfl⟩ := Main.step_timeout hm
        have hrun := h.inside hpc (by simp) (by simp)
        exact absurd (hrun.symm.trans hr) (by simp)
  | tick d =>
      refine open_mainStep h hs (fun m hm => ?_) (fun m hm hr => ?_)
      · obtain ⟨_, rfl⟩ := Main.step_tick hm
        rfl
      · obtain ⟨_, rfl⟩ := Main.step_tick hm
        exact h.outside hr
  | pushIo c =>
      simp only [step] at hs
      split at hs
      · cases hs
        exact open_notifyOne (open_setSt h rfl rfl)
      · cases hs

/-- A reachable loop is open, or closed and inert. -/
theorem open_or_inert {w : Whole κ} (h : Reach w) : Open w ∨ Inert w := by
  refine Kit.Runs.invariant (I := fun w => Open w ∨ Inert w) ?_ ?_ h
  · rintro w ⟨clock, rfl⟩
    exact .inl ⟨Registry.empty_ok, rfl, fun _ => .inl rfl⟩
  · rintro w t w' (hopen | hinert) - hs
    · by_cases ht : t = .call .close
      · subst ht
        obtain rfl := Option.some.inj hs
        cases hr : w.st.running with
        | false => exact .inr (inert_close hopen hr).2
        | true =>
            rw [close_of_running hr]
            exact .inl hopen
      · exact .inl (open_step hopen ht hs)
    · exact .inr (hinert.of_still (still_step hinert hs))

/-! ### Inert for ever -/

/-- What is true of the loop `v` at any time after `close` had made it `w`. -/
structure InertSince (w v : Whole κ) : Prop where
  inert : Inert v
  executed : v.executed = w.executed
  refuses : ∀ c : Call κ, c.schedules = true → ∃ e, v.call c = (.error e, v)
  closeAgain : v.call .close = (.ok (), v)

/-- `close` is refused while the loop runs; otherwise it succeeds, and the
loop is inert whatever is done afterwards. -/
theorem closed_loop_inert {w : Whole κ} (h : Reach w) :
    (w.st.running = true → ∃ e, w.call .close = (.error e, w)) ∧
    (w.st.running = false → ∃ w', w.call .close = (.ok (), w') ∧
      ∀ v, RunsFrom w' v → InertSince w' v) := by
  constructor
  · intro hr
    exact ⟨_, close_of_running hr⟩
  · intro hr
    have hclose : (w.call .close).1 = .ok () ∧ Inert (w.call .close).2 := by
      rcases open_or_inert h with hopen | hinert
      · exact inert_close hopen hr
      · rw [close_of_closed hr hinert.closed]
        exact ⟨rfl, hinert⟩
    refine ⟨(w.call .close).2, Prod.ext hclose.1 rfl, fun v hv => ?_⟩
    have hstill := still_of_runsFrom hclose.2 hv
    have hinert := hclose.2.of_still hstill
    exact ⟨hinert, hstill.executed, fun c hc => ⟨_, call_refused hinert.closed hc⟩,
      close_of_closed hinert.stopped hinert.closed⟩

/-- Closing with a callback and a timer queued and a reader registered, after
a run that was stopped. -/
theorem closed_loop_inert_queued : ∃ w : Whole Nat, Reach w ∧ w.st.running = false ∧
    w.st.ready.length = 1 ∧ w.st.timers.length = 1 ∧ w.reg.nWatchers = 1 ∧
    ∃ w', w.call .close = (.ok (), w') ∧ ∀ v, RunsFrom w' v → InertSince w' v := by
  have hstart : Reach (⟨⟨LoopState.new Nat 0, .idle, false, []⟩, .empty, []⟩ : Whole Nat) :=
    .start ⟨0, rfl⟩
  obtain ⟨w, hw, hp⟩ := hstart.exists_of_replay
    ([Turn.call (.addReader 5 3 ⟨none, none⟩), .call .runForever, .call .stop] ++
      List.replicate 9 Turn.loop ++ [Turn.call (.callSoon 1), .call (.callLater (.fin 5) 2)])
    (fun w => !w.st.running && w.st.ready.length == 1 && w.st.timers.length == 1 &&
      w.reg.nWatchers == 1) (by decide +kernel)
  simp only [Bool.and_eq_true, beq_iff_eq, Bool.not_eq_true'] at hp
  obtain ⟨⟨⟨hr, hready⟩, htimers⟩, hwatchers⟩ := hp
  exact ⟨w, hw, hr, hready, htimers, hwatchers, (closed_loop_inert hw).2 hr⟩

end Whole

end Tokioop.Loop
