import Tokioop.Loop.Stop

/-!
How `run_until_complete` ends.

The run is ended by the done callback that `run_until_complete` adds to its
future, `_run_until_complete_cb`, which calls `stop()`. It does not when the
future carries a `SystemExit` or a `KeyboardInterrupt`: the standard library
expects such an exception to have left `run_forever` on its own, out of the
task step that raised it. `run_batch` reports every exception of a callback
to the exception handler and goes on.
-/

namespace Tokioop.Loop

open Kit

/-- The callbacks that matter here: the stop callback, and everything else. -/
inductive Job
  | untilCompleteCb
  | user (n : Nat)
  deriving DecidableEq, Repr

inductive Outcome
  | result
  | raised (e : Exn)
  deriving DecidableEq, Repr

def Outcome.stops : Outcome → Bool
  | .raised .systemExit | .raised .keyboardInterrupt => false
  | _ => true

def Invocation.callback {κ : Type} : Invocation κ → κ
  | .ready e => e.callback
  | .timer t => t.entry.callback
  | .io _ cb => cb
  | .data _ drain _ => drain

/-- One run of `run_until_complete`, from the point where its done callback
has been added. -/
structure UntilView where
  main : Main Job
  outcome : Option Outcome
  cbRan : Bool
  deriving DecidableEq

inductive UntilMove
  | loop (mv : Move Job)
  -- The future is completed and its done callbacks are scheduled.
  | finish (o : Outcome)
  -- The stop callback, being executed, runs its body.
  | untilCompleteCb
  deriving DecidableEq

namespace UntilView

/-- The moves of the loop that a run of `run_until_complete` is made of: it is
one call of `run_forever`, and the stop callback is not a black box. -/
def admits (w : UntilView) : Move Job → Bool
  | .runForever => false
  | .returns _ =>
      match w.main.pc with
      | .calling inv _ => inv.callback != .untilCompleteCb
      | _ => true
  | _ => true

/-- `_run_until_complete_cb`: it asks the future for its exception, which
raises while the future is pending, and calls `stop()` unless the exception
is one that should have left the loop already. -/
def untilCompleteCb (w : UntilView) (b : BatchPc) : UntilView :=
  match w.outcome with
  | none => { w with main := { w.main with pc := .reporting .ordinary b } }
  | some o =>
      { w with
        main := if o.stops then
            { w.main with st := w.main.st.stop, pending := 0 :: w.main.pending, pc := .batch b }
          else { w.main with pc := .batch b }
        cbRan := true }

def step (w : UntilView) : UntilMove → Option UntilView
  | .loop mv => if w.admits mv then (w.main.step mv).map fun m => { w with main := m } else none
  | .finish o =>
      match w.outcome with
      | none =>
          some { w with
            outcome := some o
            main := { w.main with st := (Op.callSoon .untilCompleteCb).apply w.main.st } }
      | some _ => none
  | .untilCompleteCb =>
      match w.main.pc with
      | .calling inv b =>
          if inv.callback = .untilCompleteCb then some (w.untilCompleteCb b) else none
      | _ => none

/-- `run_forever_impl` has been entered; the stop callback has not run. -/
def Init (w : UntilView) : Prop := w.main.pc = .setup ∧ w.cbRan = false

/-- The loop goes on to another batch or parks. -/
def GoesOn (w : UntilView) : Prop :=
  match w.main.pc with
  | .batch .begin | .checkClosed | .checkReady | .checkIo | .checkTimers | .yieldNow | .park
  | .await _ | .parked _ _ => True
  | _ => False

/-- The future does not end with a `SystemExit` or a `KeyboardInterrupt`. -/
def EndsOrdinarily (_ : UntilView) : UntilMove → Prop
  | .finish o => o.stops = true
  | _ => True

instance (w : UntilView) : (mv : UntilMove) → Decidable (w.EndsOrdinarily mv)
  | .finish o => inferInstanceAs (Decidable (o.stops = true))
  | .loop _ | .untilCompleteCb => .isTrue trivial

end UntilView

/-! ### The end of a batch -/

/-- In a batch that has begun, at the check after it, or on the way out. -/
def Pc.ending {κ : Type} : Pc κ → Bool
  | .batch b | .calling _ b | .reporting _ b => decide (b ≠ .begin)
  | .checkStop | .cleanup | .cleanupStop | .idle => true
  | _ => false

theorem Main.ending_run {κ : Type} {m m' : Main κ} (he : m.pc.ending = true)
    (hf : m.pc.active = true → m.st.stopRequested = true) (hs : m.run = some m') :
    m'.pc.ending = true ∧ (m'.pc.active = true → m'.st.stopRequested = true) := by
  have hflag : m.pc.active = true → m'.st.stopRequested = true := by
    intro ha
    have hne : m.pc ≠ .setup ∧ m.pc ≠ .cleanupStop := by
      constructor <;> intro hpc <;> simp [hpc, Pc.active] at ha
    exact ((ran_of_run hs).stop hne.1 hne.2).trans (hf ha)
  cases runStep_of_run hs with
  | quiet hpc =>
      refine ⟨?_, fun _ => hflag (by rw [hpc]; rfl)⟩
      simp [Pc.ending, batchStep_pc_ne_begin]
  | invoke hpc hinv =>
      refine ⟨?_, fun _ => hflag (by rw [hpc]; rfl)⟩
      simp [Pc.ending, batchStep_pc_ne_begin]
  | batchDone hpc => exact ⟨rfl, fun _ => hflag (by rw [hpc]; rfl)⟩
  | notStopped hpc hstop =>
      have hset := hf (by rw [hpc]; rfl)
      simp [hstop] at hset
  | stopped | leave | left => exact ⟨rfl, fun ha => by simp [Pc.active] at ha⟩
  | again hpc hnext =>
      simp only [List.mem_cons, List.not_mem_nil, or_false] at hpc
      rcases hpc with hpc | hpc | hpc | hpc | hpc
      all_goals simp [hpc, Pc.ending] at he
  | reset hpc | enter hpc | closed hpc | notClosed hpc | noReady hpc | noIo hpc | noTimers hpc
  | panic hpc | await hpc | permit hpc | sleep hpc | wake hpc => simp [hpc, Pc.ending] at he

/-- The moves of the others, a new call of `run_forever` apart, leave the end
of a batch where it is. -/
theorem Main.ending_step {κ : Type} {m m' : Main κ} {mv : Move κ} (hrun : mv ≠ .run)
    (hforever : mv ≠ .runForever) (he : m.pc.ending = true) (hs : m.step mv = some m') :
    m'.pc.ending = true ∧ (m'.pc.active = true → m.pc.active = true) := by
  cases mv with
  | run => exact absurd rfl hrun
  | runForever => exact absurd rfl hforever
  | returns exc =>
      obtain ⟨_, _, hpc, ⟨_, rfl⟩ | ⟨_, _, rfl⟩⟩ := step_returns hs
      · rw [hpc] at he ⊢
        exact ⟨he, fun _ => rfl⟩
      · rw [hpc] at he ⊢
        exact ⟨he, fun _ => rfl⟩
  | handled =>
      obtain ⟨_, _, hpc, rfl⟩ := step_handled hs
      rw [hpc] at he ⊢
      exact ⟨he, fun _ => rfl⟩
  | op _ | stop _ | pushIo _ _ =>
      obtain rfl := Option.some.inj hs
      exact ⟨he, id⟩
  | callSoonThreadsafe i cb =>
      rw [step_callSoonThreadsafe hs]
      exact ⟨he, id⟩
  | notifyOne i =>
      rw [step_notifyOne hs]
      refine ⟨?_, fun ha => (active_notifyOne m).symm.trans ha⟩
      change m.notifyOne.pc.ending = true
      unfold notifyOne
      split
      · rename_i hpc
        simp [hpc, Pc.ending] at he
      · exact he
  | tick d =>
      obtain ⟨_, rfl⟩ := step_tick hs
      exact ⟨he, id⟩
  | timeout =>
      obtain ⟨_, _, hpc, _⟩ := step_timeout hs
      simp [hpc, Pc.ending] at he

/-- Callbacks are executed in a batch that has begun. -/
def Pc.Begun {κ : Type} : Pc κ → Prop
  | .calling _ b | .reporting _ b => b ≠ .begin
  | _ => True

theorem Main.begun_run {κ : Type} {m m' : Main κ} (hs : m.run = some m') : m'.pc.Begun := by
  cases runStep_of_run hs with
  | invoke hpc hinv => exact batchStep_pc_ne_begin _ _
  | again hpc hnext =>
      rcases hnext with rfl | rfl
      · trivial
      · trivial
  | _ => trivial

theorem Main.begun_step {κ : Type} {m m' : Main κ} {mv : Move κ} (h : m.pc.Begun)
    (hs : m.step mv = some m') : m'.pc.Begun := by
  cases mv with
  | run => exact begun_run hs
  | runForever =>
      obtain ⟨_, _, _, rfl⟩ := step_runForever hs
      trivial
  | returns exc =>
      obtain ⟨_, _, hpc, ⟨_, rfl⟩ | ⟨_, _, rfl⟩⟩ := step_returns hs
      · trivial
      · rw [hpc] at h
        exact h
  | handled =>
      obtain ⟨_, _, _, rfl⟩ := step_handled hs
      trivial
  | op _ | stop _ | pushIo _ _ =>
      obtain rfl := Option.some.inj hs
      exact h
  | callSoonThreadsafe i cb =>
      rw [step_callSoonThreadsafe hs]
      exact h
  | notifyOne i =>
      rw [step_notifyOne hs]
      change m.notifyOne.pc.Begun
      unfold notifyOne
      split
      · trivial
      · exact h
  | tick d =>
      obtain ⟨_, rfl⟩ := step_tick hs
      exact h
  | timeout =>
      obtain ⟨_, _, _, rfl⟩ := step_timeout hs
      trivial

namespace UntilView

/-- Once the stop callback has run, the batch is at its end and the flag is
set for the check. -/
structure Sound (w : UntilView) : Prop where
  begun : w.main.pc.Begun
  outcome : ∀ o, w.outcome = some o → o.stops = true
  ended : w.cbRan = true → w.main.pc.ending = true ∧
    (w.main.pc.active = true → w.main.st.stopRequested = true)

theorem sound_loop {w : UntilView} {mv : Move Job} {m : Main Job} (h : w.Sound)
    (hadm : w.admits mv = true) (hm : w.main.step mv = some m) :
    Sound { w with main := m } := by
  refine ⟨Main.begun_step h.begun hm, h.outcome, fun hran => ?_⟩
  obtain ⟨hend, hflag⟩ := h.ended hran
  by_cases hrun : mv = .run
  · subst hrun
    exact Main.ending_run hend hflag hm
  · have hforever : mv ≠ .runForever := by
      rintro rfl
      simp [admits] at hadm
    obtain ⟨hend', hback⟩ := Main.ending_step hrun hforever hend hm
    refine ⟨hend', fun ha' => ?_⟩
    have ha := hback ha'
    exact (Main.active_step hrun ha (hflag ha) hm).2

theorem sound_finish {w w' : UntilView} {o : Outcome} (h : w.Sound) (ho : o.stops = true)
    (hs : w.step (.finish o) = some w') : w'.Sound := by
  simp only [step] at hs
  split at hs
  · obtain rfl := Option.some.inj hs
    refine ⟨h.begun, ?_, fun hran => ?_⟩
    · rintro o' ho'
      exact Option.some.inj ho' ▸ ho
    · obtain ⟨hend, hflag⟩ := h.ended hran
      refine ⟨hend, fun ha => ?_⟩
      exact ((Op.called w.main.st (.callSoon .untilCompleteCb)).flags.2).trans (hflag ha)
  · simp at hs

theorem sound_untilCompleteCb {w w' : UntilView} (h : w.Sound)
    (hs : w.step .untilCompleteCb = some w') : w'.Sound := by
  simp only [step] at hs
  split at hs
  · rename_i inv b hpc
    have hbegun : b ≠ .begin := by
      have hb := h.begun
      rwa [hpc] at hb
    split at hs
    · obtain rfl := Option.some.inj hs
      unfold untilCompleteCb
      split
      · -- Still pending: the callback raises.
        refine ⟨hbegun, h.outcome, fun hran => ?_⟩
        obtain ⟨_, hflag⟩ := h.ended hran
        exact ⟨by simp [Pc.ending, hbegun], fun _ => hflag (by rw [hpc]; rfl)⟩
      · rename_i o ho
        have hstops := h.outcome o ho
        simp only [hstops, if_true]
        exact ⟨trivial, h.outcome, fun _ => ⟨by simp [Pc.ending, hbegun], fun _ => rfl⟩⟩
    · simp at hs
  · simp at hs

theorem sound_step {w w' : UntilView} {mv : UntilMove} (h : w.Sound)
    (hok : w.EndsOrdinarily mv) (hs : w.step mv = some w') : w'.Sound := by
  cases mv with
  | loop mv =>
      simp only [step] at hs
      split at hs
      · rename_i hadm
        obtain ⟨m, hm, rfl⟩ := Option.map_eq_some_iff.mp hs
        exact sound_loop h hadm hm
      · simp at hs
  | finish o => exact sound_finish h hok hs
  | untilCompleteCb => exact sound_untilCompleteCb h hs

end UntilView

/-- **`run_until_complete` ends with its future.** In every run in which the
future does not end with a `SystemExit` or a `KeyboardInterrupt`, once it is
done and the stop callback has run, the loop neither begins another batch nor
goes past the stop check. -/
theorem until_complete_ends {w : UntilView}
    (h : Runs UntilView.step UntilView.EndsOrdinarily
      (fun w => w.Init ∧ ∀ o, w.outcome = some o → o.stops = true) w) :
    w.outcome.isSome = true ∧ w.cbRan = true → ¬w.GoesOn := by
  have hsound : w.Sound := by
    refine h.invariant ?_ fun w mv w' hi hok hs => UntilView.sound_step hi hok hs
    rintro w ⟨⟨hpc, hran⟩, hout⟩
    exact ⟨by rw [hpc]; trivial, hout, fun hr => by simp [hran] at hr⟩
  rintro ⟨_, hran⟩ hgo
  have hend := (hsound.ended hran).1
  unfold UntilView.GoesOn at hgo
  split at hgo
  all_goals first | exact hgo | (rename_i hpc; simp [hpc, Pc.ending] at hend)

/-- The loop of a run whose first job is the task of the future. -/
def untilStart : UntilView :=
  ⟨⟨(LoopState.new Job 0).pushReady (.user 0) false, .setup, false, []⟩, none, false⟩

/-- The moves of a task that ends with `o`, up to the end of the batch that
runs the stop callback. -/
def untilMoves (o : Outcome) (exc : Option Exn) (handled : List UntilMove) : List UntilMove :=
  List.replicate 4 (UntilMove.loop .run) ++ [UntilMove.finish o, .loop (.returns exc)] ++
    handled ++ List.replicate 10 (UntilMove.loop .run) ++ [UntilMove.untilCompleteCb] ++
    List.replicate 5 (UntilMove.loop .run)

theorem until_complete_ends_example : ∃ w : UntilView,
    w.main.pc = .cleanup ∧ (w.outcome.isSome = true ∧ w.cbRan = true → ¬w.GoesOn) := by
  have hstart : Runs UntilView.step UntilView.EndsOrdinarily
      (fun w => w.Init ∧ ∀ o, w.outcome = some o → o.stops = true) untilStart :=
    .start ⟨⟨rfl, rfl⟩, by simp [untilStart]⟩
  obtain ⟨w, hrun, hend⟩ := hstart.exists_of_replay
    (untilMoves .result none [] ++ [UntilMove.loop .run]) (fun w => w.main.pc == .cleanup)
    (by decide +kernel)
  exact ⟨w, beq_iff_eq.mp hend, until_complete_ends hrun⟩

/-- A task that raises `SystemExit`: the exception goes to the exception
handler, the stop callback does not stop, and the loop parks. -/
theorem until_complete_hangs : ∃ w : UntilView,
    Runs UntilView.step (fun _ _ => True) UntilView.Init w ∧
      w.main.pc = .parked none false ∧ w.outcome = some (.raised .systemExit) ∧
      w.cbRan = true ∧ w.main.st.ready = [] ∧ w.GoesOn := by
  have hstart : Runs UntilView.step (fun _ _ => True) UntilView.Init untilStart :=
    .start ⟨rfl, rfl⟩
  obtain ⟨w, hrun, hend⟩ := hstart.exists_of_replay
    (untilMoves (.raised .systemExit) (some .systemExit) [.loop .handled] ++
      List.replicate 7 (UntilMove.loop .run))
    (fun w => w.main.pc == .parked none false && w.outcome == some (.raised .systemExit) &&
      w.cbRan && w.main.st.ready.isEmpty) (by decide +kernel)
  simp only [Bool.and_eq_true, beq_iff_eq, List.isEmpty_iff] at hend
  obtain ⟨⟨⟨hpc, hout⟩, hran⟩, hready⟩ := hend
  refine ⟨w, hrun, hpc, hout, hran, hready, ?_⟩
  rw [UntilView.GoesOn, hpc]
  trivial

end Tokioop.Loop
