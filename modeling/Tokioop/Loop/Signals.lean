import Tokioop.Loop.Attention
import Mathlib.Logic.Function.Basic

/-!
Signals and a loop that runs in the main thread.

`add_signal_handler` installs a Python-level handler that queues the callback
through `call_soon_threadsafe`. The interpreter only notes that a signal has
arrived; the handler runs when the main thread next executes bytecode. A
parked loop executes none, and nothing that it waits for tells it of the
signal. A signal is not slept through if it finds the main thread attentive.
-/

namespace Tokioop.Loop

variable {κ : Type}

/-! ### The methods -/

def nsig : Int := 65

def sigkill : Int := 9

def sigstop : Int := 19

inductive SignalError
  | closed
  | invalid (sig : Int)
  | uncatchable
  -- `signal.signal` raised an `OSError` with this text.
  | refused (text : String)
  deriving DecidableEq, Repr

def SignalError.message : SignalError → String
  | .closed => "Event loop is closed"
  | .invalid sig => "invalid signal number " ++ toString sig
  | .uncatchable => "signals SIGKILL and SIGSTOP cannot be caught"
  | .refused text => text

def checkSignal (sig : Int) : Except SignalError Unit :=
  if sig < 1 ∨ nsig ≤ sig then .error (.invalid sig)
  else if sig = sigkill ∨ sig = sigstop then .error .uncatchable
  else .ok ()

/-- A loop with `_signal_handlers` and the signals that the interpreter has
noted and not passed on. -/
structure SignalLoop (κ : Type) where
  main : Main κ
  handlers : Int → Option κ
  tripped : List Int

namespace SignalLoop

/-- `add_signal_handler`; `os` is what `signal.signal` fails with. -/
def addSignalHandler (w : SignalLoop κ) (sig : Int) (cb : κ) (os : Option String) :
    Except SignalError (SignalLoop κ) :=
  if w.main.st.closed then .error .closed
  else
    match checkSignal sig, os with
    | .error e, _ => .error e
    | .ok _, some text => .error (.refused text)
    | .ok _, none => .ok { w with handlers := Function.update w.handlers sig (some cb) }

/-- `remove_signal_handler`: whether a handler was removed. -/
def removeSignalHandler (w : SignalLoop κ) (sig : Int) :
    Except SignalError (Bool × SignalLoop κ) :=
  match checkSignal sig, w.handlers sig with
  | .error e, _ => .error e
  | .ok _, none => .ok (false, w)
  | .ok _, some _ => .ok (true, { w with handlers := Function.update w.handlers sig none })

end SignalLoop

/-- `call_soon_threadsafe` as called from the loop's own thread; a closed loop
raises. -/
def Main.callSoonThreadsafe (m : Main κ) (cb : κ) : Main κ :=
  match m.st.callSoonThreadsafe cb with
  | .ok (_, st) => ({ m with st := st } : Main κ).notifyOne
  | .error _ => m

namespace SignalLoop

/-- `_handler` of `add_signal_handler`. A handler that is gone by now is
skipped. -/
def runHandler (w : SignalLoop κ) (sig : Int) : SignalLoop κ :=
  { w with
    main := (w.handlers sig).elim w.main w.main.callSoonThreadsafe
    tripped := w.tripped.erase sig }

inductive Move (κ : Type)
  | loop (mv : Loop.Move κ)
  | addSignalHandler (sig : Int) (cb : κ) (os : Option String)
  | removeSignalHandler (sig : Int)
  -- A signal reaches the process.
  | arrive (sig : Int)
  -- The interpreter runs the handler of a signal that it has noted.
  | handle (sig : Int)
  deriving DecidableEq

def step (w : SignalLoop κ) : Move κ → Option (SignalLoop κ)
  | .loop mv => (w.main.step mv).map fun m => { w with main := m }
  | .addSignalHandler sig cb os =>
      if w.main.pc.runsPython then (w.addSignalHandler sig cb os).toOption else none
  | .removeSignalHandler sig =>
      if w.main.pc.runsPython then (w.removeSignalHandler sig).toOption.map Prod.snd else none
  | .arrive sig =>
      some (if (w.handlers sig).isSome then { w with tripped := w.tripped.insert sig } else w)
  | .handle sig =>
      if w.main.pc.runsPython ∧ sig ∈ w.tripped then some (w.runHandler sig) else none

def Init (w : SignalLoop κ) : Prop :=
  w.main.Init ∧ (∀ sig, w.handlers sig = none) ∧ w.tripped = []

def Pending (w : SignalLoop κ) (sig : Int) : Prop :=
  sig ∈ w.tripped ∧ (w.handlers sig).isSome = true

/-- The loop sleeps over a handler that is to run: parked, with no permit
stored and no timer due. -/
def SleepsOver (w : SignalLoop κ) : Prop :=
  ∃ wakeAt sig, w.main.pc = .parked wakeAt false ∧ w.main.permit = false ∧
    w.main.st.timersDue = false ∧ w.Pending sig

end SignalLoop

/-! ### Runs -/

namespace SignalLoop

def quiet (w : SignalLoop κ) : Bool := w.tripped.all fun sig => (w.handlers sig).isNone

theorem not_pending_of_quiet {w : SignalLoop κ} (h : w.quiet = true) (sig : Int) :
    ¬w.Pending sig := by
  rintro ⟨hsig, hsome⟩
  have hnone := List.all_eq_true.mp h sig hsig
  rw [Option.isNone_iff_eq_none] at hnone
  simp [hnone] at hsome

/-- Registered signals arrive while the main thread is attentive. Python code
that ends before the handler has run leaves a callback to run, and no method
takes away the last one. -/
def Attended (w : SignalLoop κ) : Move κ → Prop
  | .arrive sig => (w.handlers sig).isSome = true → w.main.attentive = true
  | .loop .runForever | .loop (.returns none) | .loop .handled =>
      w.quiet = true ∨ w.main.st.ahead = true
  | .loop (.op o) =>
      w.quiet = true ∨ ({ w.main with st := o.apply w.main.st } : Main κ).attentive = true
  | _ => True

/-- A handler that is to run has the attention of the main thread. -/
def Alert (w : SignalLoop κ) : Prop := w.quiet = true ∨ w.main.attentive = true

theorem alert_loop {w w' : SignalLoop κ} {mv : Loop.Move κ} (h : w.Alert)
    (hok : w.Attended (.loop mv)) (hs : w.step (.loop mv) = some w') : w'.Alert := by
  obtain ⟨m, hm, rfl⟩ := Option.map_eq_some_iff.mp hs
  rcases h with hquiet | h
  · exact .inl hquiet
  by_cases hquiet : w.quiet = true
  · exact .inl hquiet
  refine .inr (Main.attentive_step h hm ?_ ?_ ?_)
  · rintro rfl
    exact hok.resolve_left hquiet
  · rintro (rfl | rfl)
    · exact hok.resolve_left hquiet
    · exact hok.resolve_left hquiet
  · rintro o rfl
    exact hok.resolve_left hquiet

theorem runsPython_runHandler {w : SignalLoop κ} (h : w.main.pc.runsPython = true) (sig : Int) :
    (w.runHandler sig).main.pc.runsPython = true := by
  unfold runHandler
  cases w.handlers sig with
  | none => exact h
  | some cb =>
      show (w.main.callSoonThreadsafe cb).pc.runsPython = true
      unfold Main.callSoonThreadsafe Main.notifyOne
      split
      · split
        · rename_i hpc
          rw [show w.main.pc = _ from hpc] at h
          cases h
        · exact h
      · exact h

theorem main_addSignalHandler {w w' : SignalLoop κ} {sig : Int} {cb : κ} {os : Option String}
    (h : (w.addSignalHandler sig cb os).toOption = some w') : w'.main = w.main := by
  unfold addSignalHandler at h
  split at h
  · cases h
  · split at h
    · cases h
    · cases h
    · cases h
      rfl

theorem main_removeSignalHandler {w w' : SignalLoop κ} {sig : Int}
    (h : (w.removeSignalHandler sig).toOption.map Prod.snd = some w') : w'.main = w.main := by
  unfold removeSignalHandler at h
  split at h
  · cases h
  · cases h
    rfl
  · cases h
    rfl

theorem alert_step {w w' : SignalLoop κ} {mv : Move κ} (h : w.Alert) (hok : w.Attended mv)
    (hs : w.step mv = some w') : w'.Alert := by
  cases mv with
  | loop mv => exact alert_loop h hok hs
  | addSignalHandler sig cb os =>
      simp only [step] at hs
      split at hs
      · rename_i hpython
        refine .inr (Main.attentive_of_runsPython ?_)
        rw [main_addSignalHandler hs]
        exact hpython
      · cases hs
  | removeSignalHandler sig =>
      simp only [step] at hs
      split at hs
      · rename_i hpython
        refine .inr (Main.attentive_of_runsPython ?_)
        rw [main_removeSignalHandler hs]
        exact hpython
      · cases hs
  | arrive sig =>
      obtain rfl := Option.some.inj hs
      split
      · rename_i hsome
        exact .inr (hok hsome)
      · exact h
  | handle sig =>
      simp only [step] at hs
      split at hs
      · rename_i hready
        obtain rfl := Option.some.inj hs
        exact .inr (Main.attentive_of_runsPython (runsPython_runHandler hready.1 sig))
      · cases hs

theorem alert_of_reach {w : SignalLoop κ} (h : Kit.Runs step Attended Init w) : w.Alert := by
  refine h.invariant ?_ fun _ _ _ hw hok hs => alert_step hw hok hs
  rintro w ⟨-, -, htripped⟩
  exact .inl (by rw [quiet, htripped]; rfl)

/-- **Signals wake the loop**, in every run in which they find the main thread
attentive: the loop never sleeps over a handler that is to run, and comes to
execute Python by itself. -/
theorem signal_not_slept_over (w : SignalLoop κ) (h : Kit.Runs step Attended Init w) :
    ¬w.SleepsOver ∧ ∀ sig, w.Pending sig → w.main.Comes Main.AtPython := by
  have halert := alert_of_reach h
  have hattentive : ∀ sig, w.Pending sig → w.main.attentive = true := fun sig hsig =>
    halert.resolve_left fun hquiet => not_pending_of_quiet hquiet sig hsig
  refine ⟨?_, fun sig hsig => Main.comes_python (hattentive sig hsig)⟩
  rintro ⟨wakeAt, sig, hpc, -, -, hsig⟩
  have h := hattentive sig hsig
  simp [Main.attentive, hpc] at h

instance (w : SignalLoop κ) : ∀ mv : Move κ, Decidable (w.Attended mv)
  | .arrive sig => inferInstanceAs (Decidable ((w.handlers sig).isSome = true → _))
  | .loop .runForever => inferInstanceAs (Decidable (_ ∨ _))
  | .loop (.returns none) => inferInstanceAs (Decidable (_ ∨ _))
  | .loop .handled => inferInstanceAs (Decidable (_ ∨ _))
  | .loop (.op _) => inferInstanceAs (Decidable (_ ∨ _))
  | .loop .run => .isTrue trivial
  | .loop (.returns (some _)) => .isTrue trivial
  | .loop (.callSoonThreadsafe _ _) => .isTrue trivial
  | .loop (.stop _) => .isTrue trivial
  | .loop (.pushIo _ _) => .isTrue trivial
  | .loop (.notifyOne _) => .isTrue trivial
  | .loop (.tick _) => .isTrue trivial
  | .loop .timeout => .isTrue trivial
  | .addSignalHandler _ _ _ => .isTrue trivial
  | .removeSignalHandler _ => .isTrue trivial
  | .handle _ => .isTrue trivial

def fresh : SignalLoop Nat := ⟨⟨LoopState.new Nat 0, .idle, false, []⟩, fun _ => none, []⟩

theorem init_fresh : fresh.Init := ⟨⟨rfl, rfl, rfl, rfl, rfl⟩, fun _ => rfl, rfl⟩

/-- The signal arrives at the start of a batch that has a callback to run. -/
theorem signal_not_slept_over_batch : ∃ w : SignalLoop Nat,
    w.main.pc = .batch .begin ∧ w.Pending 15 ∧ ¬w.SleepsOver ∧ w.main.Comes Main.AtPython := by
  have hstart : Kit.Runs step Attended Init fresh := .start init_fresh
  obtain ⟨w, hw, hend⟩ := hstart.exists_of_replay [.addSignalHandler 15 7 none,
    .loop (.op (.callSoon 1)), .loop .runForever, .loop .run, .loop .run, .arrive 15]
    (fun w => w.main.pc = .batch .begin && (w.tripped = [15] && (w.handlers 15).isSome))
    (by decide +kernel)
  simp only [Bool.and_eq_true, decide_eq_true_eq] at hend
  have hpending : w.Pending 15 := ⟨by simp [hend.2.1], hend.2.2⟩
  obtain ⟨hawake, hcomes⟩ := signal_not_slept_over w hw
  exact ⟨w, hend.1, hpending, hawake, hcomes 15 hpending⟩

/-- The loop has parked when the signal arrives. -/
theorem signal_slept_over :
    ¬∀ w : SignalLoop Nat, Kit.Runs step (fun _ _ => True) Init w → ¬w.SleepsOver := by
  intro hall
  have hstart : Kit.Runs step (fun _ _ => True) Init fresh := .start init_fresh
  obtain ⟨w, hw, hend⟩ := hstart.exists_of_replay
    (Move.addSignalHandler 15 7 none :: Move.loop .runForever ::
      List.replicate 15 (Move.loop .run) ++ [Move.arrive 15])
    (fun w => w.main.pc = .parked none false && (!w.main.permit &&
      (!w.main.st.timersDue && (w.tripped = [15] && (w.handlers 15).isSome))))
    (by decide +kernel)
  simp only [Bool.and_eq_true, Bool.not_eq_true', decide_eq_true_eq] at hend
  obtain ⟨hpc, hpermit, hdue, htripped, hhandler⟩ := hend
  exact hall w hw ⟨none, 15, hpc, hpermit, hdue, by simp [htripped], hhandler⟩

end SignalLoop

end Tokioop.Loop
