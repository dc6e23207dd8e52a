import Tokioop.Loop.Turn

/-!
A timer that is due comes to its turn.

The timers before it are those with an earlier deadline, or with the same and
pushed before it. A batch that samples the time from now on comes to the timer
once these are done; one that has sampled it too early passes the timer over,
and the next batch comes to it.
-/

namespace Tokioop.Loop

open Kit

variable {κ : Type}

instance TimerEntry.decidableBefore (u t : TimerEntry κ) : Decidable (u.Before t) :=
  inferInstanceAs (Decidable (_ ∨ _))

/-- The view of a loop without its past. -/
def Main.unrecorded (m : Main κ) : TimerView κ := ⟨m, m.st.cancelled, [], []⟩

theorem Main.timely_unrecorded {m : Main κ} (hf : ∀ u ∈ m.st.timers, u.when.Finite) :
    m.unrecorded.Timely :=
  ⟨hf, rfl, fun f hf => absurd hf (by simp [unrecorded]), List.nodup_nil,
    fun f hf => absurd hf (by simp [unrecorded]), fun f hf => absurd hf (by simp [unrecorded]),
    fun e he => absurd he (by simp [unrecorded])⟩

theorem Main.finite_step {m m' : Main κ} {mv : Move κ} (hwf : m.st.Wf)
    (hf : ∀ u ∈ m.st.timers, u.when.Finite) (hok : m.unrecorded.FiniteDeadlines mv)
    (hs : m.step mv = some m') : ∀ u ∈ m'.st.timers, u.when.Finite := by
  have hstep : m.unrecorded.step mv = some (m.unrecorded.record m' mv) := by
    rw [TimerView.step, show m.unrecorded.main = m from rfl, hs]
    rfl
  have htimely := TimerView.timely_step (timely_unrecorded hf) hwf hok hstep
  intro u hu
  refine htimely.finite u ?_
  rw [TimerView.record_main]
  exact hu

/-! ### The timers before one -/

structure TimerEntry.Due (t : TimerEntry κ) (s : LoopState κ) : Prop where
  mem : t ∈ s.timers
  due : t.due s.clock = true
  finite : ∀ u ∈ s.timers, u.when.Finite

namespace LoopState

variable {s s' : LoopState κ} {t top : TimerEntry κ}

/-- The top is before any other timer. -/
theorem before_of_peek (hf : ∀ u ∈ s.timers, u.when.Finite) (ht : t ∈ s.timers)
    (hpeek : s.peek = some top) (hne : top.seq ≠ t.seq) : top.Before t := by
  have hfirst := peek_least hf hpeek t ht
  have htop := hf top (peek_mem hpeek)
  rw [TimerEntry.before_iff (hf t ht) htop, not_lt] at hfirst
  rw [TimerEntry.before_iff htop (hf t ht)]
  refine lt_of_le_of_ne hfirst fun heq => hne ?_
  exact congrArg (fun k => (ofLex k).2) heq

theorem mem_popTimer (ht : t ∈ s.timers) (hne : top.seq ≠ t.seq) :
    t ∈ (s.popTimer top).timers := by
  show t ∈ s.timers.eraseP fun u => u.seq == top.seq
  rw [List.mem_eraseP_of_neg (by simpa using hne.symm)]
  exact ht

end LoopState

def BatchPc.popsTimer (t : TimerEntry κ) (s : LoopState κ) : BatchPc → Bool
  | .timers now => s.peek.any fun top => top.due now && top.seq == t.seq
  | _ => false

namespace TimerEntry

variable {t : TimerEntry κ} {s : LoopState κ}

/-- Until the batch comes to the timer it is in the heap. -/
theorem Due.mem_batchStep (h : t.Due s) {b : BatchPc} (hturn : b.popsTimer t s = false) :
    t ∈ (batchStep s b).state.timers := by
  match b with
  | .timers now =>
      cases hpeek : s.peek with
      | none => simpa only [batchStep, hpeek] using h.mem
      | some top =>
          by_cases hdue : top.due now = true
          · have hne : top.seq ≠ t.seq := by
              simpa [BatchPc.popsTimer, hpeek, hdue] using hturn
            simpa only [batchStep, hpeek, hdue, if_true] using
              LoopState.mem_popTimer h.mem hne
          · simpa only [batchStep, hpeek, if_neg hdue] using h.mem
  | .ready (n + 1) =>
      simp only [batchStep]
      split <;> exact h.mem
  | .io =>
      simp only [batchStep]
      split <;> exact h.mem
  | .begin | .ready 0 | .sample | .release slot | .finished => exact h.mem

theorem Due.step {m m' : Main κ} {mv : Move κ} (hwf : m.st.Wf) (hm : m.underway = true)
    (hm' : m'.underway = true) (h : t.Due m.st) (hok : m.unrecorded.FiniteDeadlines mv)
    (hturn : m.takes (fun s b => b.popsTimer t s) mv = false) (hs : m.step mv = some m') :
    t.Due m'.st := by
  have hfinite := Main.finite_step hwf h.finite hok hs
  have hgrown : m.st.Grown m'.st → t.Due m'.st := fun hg =>
    ⟨hg.timers h.mem, t.due_mono hg.clock h.due, hfinite⟩
  by_cases hrun : mv = .run
  · subst hrun
    rcases Main.run_state hs with ⟨b, hpc, hst⟩ | ⟨-, hg⟩
    · rw [Main.takes_batch hpc] at hturn
      have hmem := h.mem_batchStep hturn
      have hclock := (batchStep_taken m.st b).clock
      rw [← hst] at hmem hclock
      exact ⟨hmem, by rw [hclock]; exact h.due, hfinite⟩
    · exact hgrown hg
  · exact hgrown (Main.grown_step hm hm' hrun hs)

end TimerEntry

/-! ### The wait -/

/-- A batch that has sampled the time too early goes on to its end. -/
def timerSteps (t : TimerEntry κ) (ready timers io : ℕ) : BatchPc → ℕ
  | .begin => 3 * ready + 3 * timers + 4
  | .ready n => 3 * n + 3 * timers + 3
  | .sample => 3 * timers + 2
  | .timers now =>
      if t.due now then 3 * timers + 1
      else 4 * io + 11 + (3 * ready + 3 * timers + 4)
  | .io => 4 * io + 10 + (3 * ready + 3 * timers + 4)
  | .release _ => 4 * io + 11 + (3 * ready + 3 * timers + 4)
  | .finished => 9 + (3 * ready + 3 * timers + 4)

def timerPerReady (t : TimerEntry κ) : BatchPc → ℕ
  | .ready _ | .sample => 0
  | .timers now => if t.due now then 0 else 3
  | _ => 3

def timerPerIo (t : TimerEntry κ) : BatchPc → ℕ
  | .timers now => if t.due now then 0 else 4
  | .io | .release _ => 4
  | _ => 0

section

variable (t : TimerEntry κ) (ready timers io : ℕ) (b : BatchPc)

theorem timerSteps_ready : timerSteps t (ready + 1) timers io b ≤
    timerSteps t ready timers io b + timerPerReady t b := by
  cases b with
  | timers now =>
      simp only [timerSteps, timerPerReady]
      split_ifs <;> omega
  | _ =>
      simp only [timerSteps, timerPerReady]
      omega

theorem timerSteps_timers : timerSteps t ready (timers + 1) io b ≤
    timerSteps t ready timers io b + 3 := by
  cases b with
  | timers now =>
      simp only [timerSteps]
      split_ifs <;> omega
  | _ =>
      simp only [timerSteps]
      omega

theorem timerSteps_io : timerSteps t ready timers (io + 1) b ≤
    timerSteps t ready timers io b + timerPerIo t b := by
  cases b with
  | timers now =>
      simp only [timerSteps, timerPerIo]
      split_ifs <;> omega
  | _ =>
      simp only [timerSteps, timerPerIo]
      omega

theorem timerSteps_finished :
    timerSteps t ready timers io .begin + 9 ≤ timerSteps t ready timers io .finished := by
  simp only [timerSteps]
  omega

end

/-- The timers before this one count. -/
def timerGauge (t : TimerEntry κ) : Gauge κ where
  counts _ u := u.Before t
  steps ready timers io _ b := timerSteps t ready timers io b
  perReady _ b := timerPerReady t b
  perTimer _ _ := 3
  perIo _ b := timerPerIo t b
  again := rfl
  finished ready timers io _ := timerSteps_finished t ready timers io
  ready ready timers io _ b := timerSteps_ready t ready timers io b
  timers ready timers io _ b := timerSteps_timers t ready timers io b
  io ready timers io _ b := timerSteps_io t ready timers io b

theorem timerGauge_timers {t : TimerEntry κ} {s : LoopState κ} (hwf : s.Wf) (ht : t.Due s)
    {now : ℚ} (hturn : BatchPc.popsTimer t s (.timers now) = false) :
    (timerGauge t).inBatch (batchStep s (.timers now)).state 0 (batchStep s (.timers now)).pc +
        (if (batchStep s (.timers now)).invoke.isSome then 2 else 0) + 1 ≤
      (timerGauge t).inBatch s 0 (.timers now) := by
  -- A phase that has the timer does not end before it.
  have hend : (∀ top, s.peek = some top → top.due now = false) → t.due now = false := fun hnot =>
    LoopState.not_due_of_peek ht.finite hnot t ht.mem
  cases hpeek : s.peek with
  | none =>
      have hnow := hend fun top htop => by rw [hpeek] at htop; cases htop
      simp only [batchStep, hpeek, Gauge.inBatch, timerGauge, timerSteps, hnow, Option.isSome_none,
        Bool.false_eq_true, if_false]
      omega
  | some top =>
      cases hdue : top.due now with
      | true =>
          have hne : top.seq ≠ t.seq := by
            simpa [BatchPc.popsTimer, hpeek, hdue] using hturn
          have hbefore := LoopState.before_of_peek ht.finite ht.mem hpeek hne
          have hcount := popTimer_countP hwf hpeek fun u => decide (u.Before t)
          simp only [hbefore, decide_true, if_true] at hcount
          simp only [batchStep, hpeek, hdue, if_true, Gauge.inBatch, timerGauge, timerSteps,
            show (s.popTimer top).ready = s.ready from rfl,
            show (s.popTimer top).io = s.io from rfl]
          split_ifs <;> omega
      | false =>
          have hnow := hend fun top' htop => by
            rw [hpeek] at htop
            cases htop
            exact hdue
          simp only [batchStep, hpeek, hdue, Gauge.inBatch, timerGauge, timerSteps, hnow,
            Option.isSome_none, Bool.false_eq_true, if_false]
          omega

theorem timerGauge_batchStep {t : TimerEntry κ} {s : LoopState κ} (hwf : s.Wf) (ht : t.Due s)
    {b : BatchPc} (hb : b ≠ .finished) (hturn : b.popsTimer t s = false) :
    (timerGauge t).inBatch (batchStep s b).state 0 (batchStep s b).pc +
        (if (batchStep s b).invoke.isSome then 2 else 0) + 1 ≤ (timerGauge t).inBatch s 0 b := by
  match b with
  | .timers now => exact timerGauge_timers hwf ht hturn
  | .sample =>
      simp only [batchStep, Gauge.inBatch, timerGauge, timerSteps, ht.due, if_true,
        Option.isSome_none, Bool.false_eq_true, if_false]
      omega
  | .ready (n + 1) =>
      cases hready : s.ready with
      | nil =>
          simp only [batchStep, hready, Gauge.inBatch, timerGauge, timerSteps, Option.isSome_none,
            Bool.false_eq_true, if_false]
          omega
      | cons e rest =>
          simp only [batchStep, hready, Gauge.inBatch, timerGauge, timerSteps]
          split_ifs <;> omega
  | .io =>
      cases hio : s.io with
      | nil =>
          simp only [batchStep, hio, Gauge.inBatch, timerGauge, timerSteps, Option.isSome_none,
            Bool.false_eq_true, if_false]
          omega
      | cons item rest =>
          cases item with
          | callback slot cb =>
              simp only [batchStep, hio, Gauge.inBatch, timerGauge, timerSteps, List.length_cons]
              split_ifs <;> omega
          | data slot drain d =>
              simp only [batchStep, hio, Gauge.inBatch, timerGauge, timerSteps, List.length_cons,
                Option.isSome_some, if_true]
              omega
  | .begin | .ready 0 | .release slot =>
      simp only [batchStep, Gauge.inBatch, timerGauge, timerSteps, Option.isSome_none,
        Bool.false_eq_true, if_false]
      omega

theorem timerGauge_wait {t : TimerEntry κ} {m : Main κ}
    (hleft : ∀ n, m.pc.readyLeft = some n → n ≤ m.st.ready.length) :
    (timerGauge t).wait m 0 ≤ 3 * m.st.ready.length +
      3 * (m.st.timers.countP fun u => u.Before t) + 4 * m.st.io.length + 17 := by
  unfold Gauge.wait
  cases hpc : m.pc with
  | batch b | calling inv b | reporting e b =>
      rw [hpc] at hleft
      cases b with
      | ready n =>
          have hn := hleft n rfl
          simp only [Pc.goesOn, Gauge.inBatch, timerGauge, timerSteps]
          omega
      | timers now =>
          simp only [Pc.goesOn, Gauge.inBatch, timerGauge, timerSteps]
          split_ifs <;> omega
      | _ =>
          simp only [Pc.goesOn, Gauge.inBatch, timerGauge, timerSteps]
          omega
  | _ =>
      simp only [Pc.goesOn, Gauge.inBatch, timerGauge, timerSteps]
      omega

/-- **A due timer comes to its turn.** As long as it has not and the loop goes on, it is in the
heap and due; the loop thread has taken no more than a few steps for each timer before it, for
each ready callback and completion there was, for each timer added before it, and for what has
been added to a batch that has sampled the time too early; and unless it is asleep it can take
the next. -/
theorem timer_turn_comes {m : Main κ} (h : FreshReach m) (hm : m.underway = true)
    {t : TimerEntry κ} (ht : t.Due m.st) {x : Metered (Waiting κ)}
    (hx : WaitsFrom (timerGauge t) (fun s b => b.popsTimer t s)
      (fun m mv => m.unrecorded.FiniteDeadlines mv) m 0 x) :
    t.Due x.state.main.st ∧
      x.work ≤ 3 * m.st.ready.length + 3 * (m.st.timers.countP fun u => u.Before t) +
        4 * m.st.io.length + 17 + x.charge ∧
      (x.state.main.Ready ∨ ∃ wakeAt, x.state.main.pc = .parked wakeAt false) := by
  obtain ⟨⟨hreach, hunder, hdue, -⟩, hpaid⟩ := waits
    (fun s before => t.Due s ∧ before = 0) (fun _ => rfl)
    (fun m m' mv before hreach hm hm' hw hok hturn hs => by
      obtain ⟨hdue, rfl⟩ := hw
      have hno : m.takes (fun s b => b.popsTimer t s) mv = false :=
        Bool.eq_false_iff.mpr fun htakes => hturn htakes rfl
      rw [hno]
      exact ⟨hdue.step (wf_of_reach hreach) hm hm' hok hno hs, rfl⟩)
    (fun s before b hwf hw hb hturn => by
      obtain ⟨hdue, rfl⟩ := hw
      have hno : b.popsTimer t s = false := Bool.eq_false_iff.mpr fun hpops => hturn hpops rfl
      simp only [hno, Bool.false_eq_true, if_false]
      exact timerGauge_batchStep hwf hdue hb hno) h hm ⟨ht, rfl⟩ hx
  have hbound := timerGauge_wait (t := t) fun n => h.readyLeft_le (Main.open_of_underway hm)
  exact ⟨hdue, by omega, Main.ready_or_parked hunder⟩

/-- A loop with two timers that are due, in a batch that has sampled the time before the second
was. -/
def twoTimers : Main Nat :=
  ⟨{ LoopState.new Nat 4 with
      timers := [⟨.fin 3, 1, ⟨8, 1, false⟩⟩, ⟨.fin 1, 0, ⟨7, 0, false⟩⟩], seq := 2,
      running := true, nextHandle := 2 },
    .batch (.timers 1), false, []⟩

theorem twoTimers_reach : FreshReach twoTimers :=
  (Runs.start ⟨0, rfl⟩ :
    FreshReach (⟨LoopState.new Nat 0, .idle, false, []⟩ : Main Nat)).of_replay
    [.op (.callAt (.fin 1) 7), .op (.callAt (.fin 3) 8), .tick 1, .runForever, .run, .run, .run,
      .run, .run, .tick 3] (by decide +kernel)

theorem twoTimers_due : TimerEntry.Due ⟨.fin 3, 1, ⟨8, 1, false⟩⟩ twoTimers.st where
  mem := List.mem_cons_self
  due := by decide +kernel
  finite := by decide +kernel

/-- The first timer has been executed, has set another one before the second, and the batch is
done with the timers. -/
theorem timer_turn_comes_example : ∃ x : Metered (Waiting Nat),
    x.state.main.pc = .batch .io ∧ x.work = 3 ∧ x.charge = 3 ∧
      TimerEntry.Due ⟨.fin 3, 1, ⟨8, 1, false⟩⟩ x.state.main.st ∧
      x.work ≤ 3 * 0 + 3 * 1 + 4 * 0 + 17 + x.charge ∧
      (x.state.main.Ready ∨ ∃ wakeAt, x.state.main.pc = .parked wakeAt false) := by
  have hfrom : WaitsFrom (timerGauge ⟨.fin 3, 1, ⟨8, 1, false⟩⟩)
      (fun s b => b.popsTimer ⟨.fin 3, 1, ⟨8, 1, false⟩⟩ s)
      (fun m mv => m.unrecorded.FiniteDeadlines mv) twoTimers 0 ⟨⟨twoTimers, 0⟩, 0, 0⟩ := .start rfl
  obtain ⟨x, hx, hgood⟩ := hfrom.exists_of_replay
    [.run, .op (.callAt (.fin 2) 9), .returns none, .run]
    (fun x => x.state.main.pc = .batch .io && (x.work = 3 && x.charge = 3)) (by decide +kernel)
  simp only [Bool.and_eq_true, decide_eq_true_eq] at hgood
  have hcount : (twoTimers.st.timers.countP fun u =>
      u.Before ⟨.fin 3, 1, ⟨8, 1, false⟩⟩) = 1 := by decide +kernel
  obtain ⟨hdue, hbound, hgoes⟩ := timer_turn_comes twoTimers_reach rfl twoTimers_due hx
  rw [hcount] at hbound
  exact ⟨x, hgood.1, hgood.2.1, hgood.2.2, hdue, hbound, hgoes⟩

end Tokioop.Loop
