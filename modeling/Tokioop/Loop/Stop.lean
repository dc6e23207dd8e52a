import Tokioop.Loop.Machine

/-!
What becomes of a stop request.

`stop()` only stores a flag, and `run_forever` stores `false` into the same
flag when it is entered and again when it leaves. The view below keeps the
books the flag does not keep: whether a request is outstanding, whether one
was outstanding when the current run was entered, how many batches that run
has begun, and whether some stop check was passed with a request
outstanding. Requests issued once a run is on its way out are not counted.
-/

namespace Tokioop.Loop

open Kit

variable {κ : Type}

/-- Inside `run_main` or about to enter it, with the flag already reset. -/
def Pc.active : Pc κ → Bool
  | .idle | .setup | .cleanup | .cleanupStop => false
  | _ => true

def Pc.leaving : Pc κ → Bool
  | .cleanup | .cleanupStop => true
  | _ => false

def Pc.isIdle : Pc κ → Bool
  | .idle => true
  | _ => false

def Pc.isCheckStop : Pc κ → Bool
  | .checkStop => true
  | _ => false

def Pc.isBegin : Pc κ → Bool
  | .batch .begin => true
  | _ => false

structure StopView (κ : Type) where
  main : Main κ
  owed : Bool
  owedAtStart : Bool
  batches : Nat
  missed : Bool

namespace StopView

/-- Bookkeeping for a move that took the loop to `m`. -/
def record (w : StopView κ) (m : Main κ) : Move κ → StopView κ
  | .stop _ => { w with main := m, owed := w.owed || !w.main.pc.leaving }
  | .runForever => { w with main := m, owedAtStart := w.owed, batches := 0 }
  | .run =>
      { w with main := m
               owed := w.owed && !m.pc.leaving
               missed := w.missed || (w.owed && w.main.pc.isCheckStop && !m.pc.leaving)
               batches := if m.pc.isBegin then w.batches + 1 else w.batches }
  | .timeout => { w with main := m, batches := w.batches + 1 }
  | _ => { w with main := m }

def step (w : StopView κ) (mv : Move κ) : Option (StopView κ) :=
  (w.main.step mv).map fun m => w.record m mv

def Init (w : StopView κ) : Prop :=
  w.main.Init ∧ w.owed = false ∧ w.owedAtStart = false ∧ w.missed = false

/-- No request has been lost: every check made with one outstanding ended its
run, and a run entered with one outstanding is over after one batch. -/
def Kept (w : StopView κ) : Prop :=
  w.missed = false ∧ (w.owedAtStart = true → w.batches ≤ 1)

/-- `stop()` is called neither between the runs of an open loop nor in the
set-up of a run before the flag is reset. -/
def StopsInRun (w : StopView κ) : Move κ → Prop
  | .stop _ =>
      w.main.pc.active = true ∨ w.main.pc.leaving = true ∨
        (w.main.pc.isIdle = true ∧ w.main.st.closed = true)
  | _ => True

instance (w : StopView κ) : (mv : Move κ) → Decidable (w.StopsInRun mv)
  | .stop _ =>
      inferInstanceAs (Decidable (w.main.pc.active = true ∨ w.main.pc.leaving = true ∨
        (w.main.pc.isIdle = true ∧ w.main.st.closed = true)))
  | .run | .runForever | .returns _ | .handled | .op _ | .callSoonThreadsafe _ _ | .pushIo _ _
  | .notifyOne _ | .tick _ | .timeout => .isTrue trivial

/-- An outstanding request is in the flag, unless the loop will never run
again. -/
structure Sound (w : StopView κ) : Prop where
  flag : w.owed = true → (w.main.pc.active = true ∧ w.main.st.stopRequested = true) ∨
    (w.main.pc = .idle ∧ w.main.st.closed = true)
  missed : w.missed = false
  atStart : w.owedAtStart = false

end StopView

/-! ### The program counter of a run stays in the run -/

theorem Main.active_run {m m' : Main κ} (ha : m.pc.active = true) (hs : m.run = some m') :
    m'.pc.active = true ∨ m'.pc = .cleanup := by
  cases runStep_of_run hs with
  | stopped hpc hstop => exact .inr rfl
  | closed hpc hclosed => exact .inr rfl
  | again hpc hnext =>
      rcases hnext with rfl | rfl
      · exact .inl rfl
      · exact .inl rfl
  | leave hpc => simp [hpc, Pc.active] at ha
  | left hpc => simp [hpc, Pc.active] at ha
  | _ => exact .inl rfl

theorem Main.active_notifyOne (m : Main κ) : m.notifyOne.pc.active = m.pc.active := by
  unfold notifyOne
  split
  · rename_i hpc
    rw [hpc]
    rfl
  · rfl

/-- The moves of the others leave a run running and a set flag set. -/
theorem Main.active_step {m m' : Main κ} {mv : Move κ} (hrun : mv ≠ .run)
    (ha : m.pc.active = true) (hf : m.st.stopRequested = true) (hs : m.step mv = some m') :
    m'.pc.active = true ∧ m'.st.stopRequested = true := by
  cases mv with
  | run => exact absurd rfl hrun
  | runForever =>
      obtain ⟨hpc, _⟩ := step_runForever hs
      rw [hpc] at ha
      exact absurd ha (by simp [Pc.active])
  | returns exc =>
      obtain ⟨_, _, _, ⟨_, rfl⟩ | ⟨_, _, rfl⟩⟩ := step_returns hs
      · exact ⟨rfl, hf⟩
      · exact ⟨rfl, hf⟩
  | handled =>
      obtain ⟨_, _, _, rfl⟩ := step_handled hs
      exact ⟨rfl, hf⟩
  | op o =>
      obtain rfl := Option.some.inj hs
      exact ⟨ha, ((Op.called m.st o).flags.2).trans hf⟩
  | callSoonThreadsafe i cb =>
      rw [step_callSoonThreadsafe hs]
      exact ⟨ha, hf⟩
  | stop i =>
      obtain rfl := Option.some.inj hs
      exact ⟨ha, rfl⟩
  | pushIo i c =>
      obtain rfl := Option.some.inj hs
      exact ⟨ha, hf⟩
  | notifyOne i =>
      rw [step_notifyOne hs]
      exact ⟨(active_notifyOne m).trans ha, by rw [← hf, ← st_notifyOne m]⟩
  | tick d =>
      obtain ⟨_, rfl⟩ := step_tick hs
      exact ⟨ha, hf⟩
  | timeout =>
      obtain ⟨_, _, _, rfl⟩ := step_timeout hs
      exact ⟨rfl, hf⟩

/-- A closed loop that is not running stays so. -/
theorem Main.idle_step {m m' : Main κ} {mv : Move κ} (hpc : m.pc = .idle)
    (hc : m.st.closed = true) (hs : m.step mv = some m') :
    m'.pc = .idle ∧ m'.st.closed = true := by
  cases mv with
  | run | returns exc | handled | timeout => simp [step, run, hpc] at hs
  | runForever =>
      obtain ⟨_, hopen, _⟩ := step_runForever hs
      exact absurd hc (by simp [hopen])
  | op o =>
      obtain rfl := Option.some.inj hs
      exact ⟨hpc, (Op.called m.st o).closed hc⟩
  | callSoonThreadsafe i cb =>
      rw [step_callSoonThreadsafe hs]
      exact ⟨hpc, hc⟩
  | stop i | pushIo i c =>
      obtain rfl := Option.some.inj hs
      exact ⟨hpc, hc⟩
  | notifyOne i =>
      rw [step_notifyOne hs]
      simp only [notifyOne, hpc]
      exact ⟨trivial, hc⟩
  | tick d =>
      obtain ⟨_, rfl⟩ := step_tick hs
      exact ⟨hpc, hc⟩

namespace StopView

theorem sound_run {w : StopView κ} {m : Main κ} (h : w.Sound) (hs : w.main.run = some m) :
    (w.record m .run).Sound := by
  by_cases howed : w.owed = true
  · rcases h.flag howed with ⟨ha, hf⟩ | ⟨hpc, _⟩
    · have hne : w.main.pc ≠ .setup ∧ w.main.pc ≠ .cleanupStop := by
        constructor <;> intro hpc <;> simp [hpc, Pc.active] at ha
      have hf' : m.st.stopRequested = true :=
        ((Main.ran_of_run hs).stop hne.1 hne.2).trans hf
      refine ⟨fun ho => ?_, ?_, h.atStart⟩
      · rcases Main.active_run ha hs with ha' | hpc
        · exact .inl ⟨ha', hf'⟩
        · simp [record, hpc, Pc.leaving] at ho
      · -- The check that finds the flag set ends the run.
        by_cases hpc : w.main.pc = .checkStop
        · simp only [Main.run, hpc, hf, if_true, Option.some.injEq] at hs
          simp [record, h.missed, ← hs, Pc.leaving]
        · have hno : w.main.pc.isCheckStop = false := by
            cases hp : w.main.pc with
            | checkStop => exact absurd hp hpc
            | _ => rfl
          simp [record, h.missed, hno]
    · simp [Main.run, hpc] at hs
  · simp only [Bool.not_eq_true] at howed
    exact ⟨fun ho => by simp [record, howed] at ho, by simp [record, howed, h.missed], h.atStart⟩

/-- A move that neither issues a request nor runs the loop. -/
theorem sound_other {w : StopView κ} {m : Main κ} {mv : Move κ} (h : w.Sound)
    (hrun : mv ≠ .run) (hm : w.main.step mv = some m) :
    w.owed = true → (m.pc.active = true ∧ m.st.stopRequested = true) ∨
      (m.pc = .idle ∧ m.st.closed = true) := by
  intro howed
  rcases h.flag howed with ⟨ha, hf⟩ | ⟨hpc, hc⟩
  · exact .inl (Main.active_step hrun ha hf hm)
  · exact .inr (Main.idle_step hpc hc hm)

theorem sound_stop {w : StopView κ} {m : Main κ} {i : Nat} (h : w.Sound)
    (hok : w.StopsInRun (.stop i)) (hm : w.main.step (.stop i) = some m) :
    (w.record m (.stop i)).Sound := by
  have hne : (Move.stop i : Move κ) ≠ .run := by simp
  have hother := sound_other h hne hm
  obtain rfl := Option.some.inj hm
  refine ⟨fun ho => ?_, h.missed, h.atStart⟩
  rcases hok with ha | hl | ⟨hidle, hc⟩
  · exact .inl ⟨ha, rfl⟩
  · -- A request on the way out is not counted.
    refine hother ?_
    simpa [record, hl] using ho
  · refine .inr ⟨?_, hc⟩
    cases hpc : w.main.pc with
    | idle => rfl
    | _ => simp [hpc, Pc.isIdle] at hidle

theorem sound_step {w w' : StopView κ} {mv : Move κ} (h : w.Sound) (hok : w.StopsInRun mv)
    (hs : w.step mv = some w') : w'.Sound := by
  obtain ⟨m, hm, rfl⟩ := Option.map_eq_some_iff.mp hs
  have hother (hrun : mv ≠ .run) := sound_other h hrun hm
  cases mv with
  | run => exact sound_run h hm
  | stop i => exact sound_stop h hok hm
  | runForever =>
      refine ⟨hother (by simp), h.missed, ?_⟩
      obtain ⟨hpc, hopen, _⟩ := Main.step_runForever hm
      -- Nothing was outstanding: the loop is idle and open.
      cases howed : w.owed with
      | false => exact howed
      | true =>
          rcases h.flag howed with ⟨ha, _⟩ | ⟨_, hc⟩
          · simp [hpc, Pc.active] at ha
          · simp [hopen] at hc
  | timeout | returns _ | handled | op _ | callSoonThreadsafe _ _ | pushIo _ _ | notifyOne _
  | tick _ => exact ⟨hother (by simp), h.missed, h.atStart⟩

end StopView

/-- **Stop requests inside runs are kept.** In every run in which `stop()` is
called neither between the runs of an open loop nor before the reset in a
set-up, every stop check made with a request outstanding ends its run. -/
theorem stop_kept {w : StopView κ}
    (h : Runs StopView.step StopView.StopsInRun StopView.Init w) : w.Kept := by
  have hsound : w.Sound := by
    refine h.invariant ?_ fun w mv w' hi hok hs => StopView.sound_step hi hok hs
    rintro w ⟨_, howed, hstart, hmissed⟩
    exact ⟨fun ho => by simp [howed] at ho, hmissed, hstart⟩
  exact ⟨hsound.missed, fun hs => by simp [hsound.atStart] at hs⟩

/-- A callback stops the loop, which leaves at the next check. -/
theorem stop_kept_example : ∃ w : StopView Nat,
    w.main.pc = .cleanup ∧ w.batches = 1 ∧ w.Kept := by
  have hstart : Runs StopView.step StopView.StopsInRun StopView.Init
      (⟨⟨(LoopState.new Nat 0).pushReady 7 false, .idle, false, []⟩, false, false, 0, false⟩ :
        StopView Nat) :=
    .start ⟨⟨rfl, rfl, rfl, rfl, rfl⟩, rfl, rfl, rfl⟩
  obtain ⟨w, hrun, hend⟩ := hstart.exists_of_replay
    ([Move.runForever, .run, .run, .run, .run, .stop 0, .notifyOne 0, .returns none] ++
      List.replicate 6 Move.run)
    (fun w => w.main.pc == .cleanup && w.batches == 1) (by decide +kernel)
  simp only [Bool.and_eq_true, beq_iff_eq] at hend
  exact ⟨w, hend.1, hend.2, stop_kept hrun⟩

/-- `stop()` before `run_forever()`: the set-up erases the request, and the
run passes its stop check and begins a second batch. -/
theorem stop_before_run_lost : ∃ w : StopView Nat,
    Runs StopView.step (fun _ _ => True) StopView.Init w ∧ w.main.pc = .batch .begin ∧
      w.batches = 2 ∧ w.owedAtStart = true ∧ ¬w.Kept := by
  have hstart : Runs StopView.step (fun _ _ => True) StopView.Init
      (⟨⟨LoopState.new Nat 0, .idle, false, []⟩, false, false, 0, false⟩ : StopView Nat) :=
    .start ⟨⟨rfl, rfl, rfl, rfl, rfl⟩, rfl, rfl, rfl⟩
  obtain ⟨w, hrun, hend⟩ := hstart.exists_of_replay
    ([Move.stop 0, .notifyOne 0, .runForever] ++ List.replicate 15 Move.run)
    (fun w => w.main.pc == .batch .begin && w.batches == 2 && w.owedAtStart) (by decide +kernel)
  simp only [Bool.and_eq_true, beq_iff_eq] at hend
  obtain ⟨⟨hpc, hbatches⟩, howed⟩ := hend
  refine ⟨w, hrun, hpc, hbatches, howed, fun hkept => ?_⟩
  have hone := hkept.2 howed
  omega

end Tokioop.Loop
