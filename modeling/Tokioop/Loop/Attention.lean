import Tokioop.Loop.Machine

/-!
When the loop thread executes Python.

It does so in callbacks and outside `run_forever`. A loop thread that has a
callback left to run cannot park without having run one, unless it has looked
at the queue before the callback came and no permit sends it back. It is
attentive, and stays so until it executes Python, to which it comes by its own
steps.
-/

namespace Tokioop.Loop

variable {κ : Type}

/-- The main thread executes bytecode: outside `run_forever`, in a callback and
in the exception handler. -/
def Pc.runsPython : Pc κ → Bool
  | .idle | .calling _ _ | .reporting _ _ => true
  | _ => false

namespace LoopState

/-- A callback that is not cancelled waits in the ready queue. -/
def hasReady (s : LoopState κ) : Bool := s.ready.any fun e => !s.isCancelled e

def live (s : LoopState κ) : IoCompletion κ → Bool
  | .callback slot _ => !s.detached.contains slot
  | .data _ _ _ => true

def hasIo (s : LoopState κ) : Bool := s.io.any s.live

def hasTimer (s : LoopState κ) : Bool :=
  s.peek.any fun top => top.due s.clock && !s.isCancelled top.entry

def ahead (s : LoopState κ) : Bool := s.hasReady || s.hasIo || s.hasTimer

theorem hasReady_pushReady (s : LoopState κ) (cb : κ) (threadsafe : Bool) (h : s.hasReady = true) :
    (s.pushReady cb threadsafe).hasReady = true := by
  obtain ⟨e, he, hlive⟩ := List.any_eq_true.mp h
  exact List.any_eq_true.mpr ⟨e, List.mem_append_left _ he, hlive⟩

theorem hasTimer_iff (s : LoopState κ) : s.hasTimer = true ↔
    ∃ top, s.peek = some top ∧ top.due s.clock = true ∧ s.isCancelled top.entry = false := by
  simp [hasTimer, Option.any_eq_true]

theorem hasTimer_tick {s : LoopState κ} {d : ℚ} (hd : 0 ≤ d) (h : s.hasTimer = true) :
    LoopState.hasTimer { s with clock := s.clock + d } = true := by
  obtain ⟨top, hpeek, hdue, hlive⟩ := s.hasTimer_iff.mp h
  refine (hasTimer_iff _).mpr ⟨top, hpeek, ?_, hlive⟩
  unfold TimerEntry.due at hdue ⊢
  cases hwhen : top.when with
  | fin q =>
      rw [hwhen, F64.le_fin, decide_eq_true_eq] at hdue
      rw [F64.le_fin, decide_eq_true_eq]
      exact hdue.trans (le_add_of_nonneg_right hd)
  | negInf => rfl
  | nan | posInf => simp [hwhen] at hdue

theorem nextDeadline_of_hasTimer {s : LoopState κ} (h : s.hasTimer = true) :
    s.nextDeadline = .ok (some 0) := by
  obtain ⟨top, hpeek, hdue, -⟩ := s.hasTimer_iff.mp h
  have hpast : (top.when.sub s.clock).le (.fin 0) = true := by
    unfold TimerEntry.due at hdue
    cases hwhen : top.when with
    | fin q =>
        rw [hwhen, F64.le_fin, decide_eq_true_eq] at hdue
        exact F64.round_le_zero (sub_nonpos.mpr hdue)
    | negInf => rfl
    | nan | posInf => simp [hwhen] at hdue
  simp only [nextDeadline, hpeek, hpast, if_true]

end LoopState

/-! ### Quiet steps of the batch -/

section

variable {s : LoopState κ} {b : BatchPc}

/-- Without a callback the batch takes cancelled entries off the ready queue. -/
theorem hasReady_batchStep (hquiet : (batchStep s b).invoke = none) :
    (batchStep s b).state.hasReady = s.hasReady := by
  match b with
  | .ready (n + 1) =>
      cases hready : s.ready with
      | nil => simp [batchStep, hready]
      | cons e rest =>
          have hdead : s.isCancelled e = true := by
            by_contra hlive
            simp [batchStep, hready, hlive] at hquiet
          simp only [batchStep, LoopState.hasReady, hready, List.any_cons, hdead]
          rfl
  | .timers now =>
      simp only [batchStep]
      split
      · split
        · rfl
        · rfl
      · rfl
  | .io =>
      simp only [batchStep]
      split
      all_goals rfl
  | .ready 0 | .begin | .sample | .finished | .release slot => rfl

/-- Likewise completions of detached watchers. -/
theorem hasIo_batchStep (hquiet : (batchStep s b).invoke = none) :
    (batchStep s b).state.hasIo = s.hasIo := by
  match b with
  | .ready (n + 1) =>
      simp only [batchStep]
      split
      · rfl
      · rfl
  | .timers now =>
      simp only [batchStep]
      split
      · split
        · rfl
        · rfl
      · rfl
  | .io =>
      cases hio : s.io with
      | nil => simp [batchStep, hio]
      | cons item rest =>
          cases item with
          | callback slot cb =>
              have hdead : s.live (.callback slot cb) = false := by
                by_contra hlive
                simp only [LoopState.live, Bool.not_eq_false, Bool.not_eq_true'] at hlive
                simp only [batchStep, hio, hlive] at hquiet
                cases hquiet
              simp only [batchStep, LoopState.hasIo, hio, List.any_cons, hdead]
              rfl
          | data slot drain d => simp [batchStep, hio] at hquiet
  | .ready 0 | .begin | .sample | .finished | .release slot => rfl

/-- A timer is popped quietly if it is cancelled. -/
theorem hasTimer_batchStep (hquiet : (batchStep s b).invoke = none) (h : s.hasTimer = true) :
    (batchStep s b).state.hasTimer = true := by
  match b with
  | .ready (n + 1) =>
      simp only [batchStep]
      split
      · exact h
      · exact h
  | .timers now =>
      obtain ⟨top, hpeek, -, hlive⟩ := s.hasTimer_iff.mp h
      by_cases hnow : top.due now = true
      · simp [batchStep, hpeek, hnow, hlive] at hquiet
      · simp only [batchStep, hpeek, hnow]
        exact h
  | .io =>
      simp only [batchStep]
      split
      all_goals exact h
  | .ready 0 | .begin | .sample | .finished | .release slot => exact h

theorem ahead_batchStep (hquiet : (batchStep s b).invoke = none) (h : s.ahead = true) :
    (batchStep s b).state.ahead = true := by
  simp only [LoopState.ahead, hasReady_batchStep hquiet, hasIo_batchStep hquiet,
    Bool.or_eq_true] at h ⊢
  exact h.imp_right (hasTimer_batchStep hquiet)

end

namespace Main

/-- The main thread executes Python, or will do so before it can park. Once
the ready queue has been looked at it takes the permit to come back to it, and
likewise for completions and timers. -/
def attentive (m : Main κ) : Bool :=
  match m.pc with
  | .idle | .calling _ _ | .reporting _ _ | .cleanup | .cleanupStop | .panicked _ => true
  | .setup | .setupRunning | .batch _ | .checkStop | .checkClosed | .checkReady | .yieldNow
  | .parked _ true => m.st.ahead
  | .checkIo => m.st.hasIo || m.st.hasTimer || (m.permit && m.st.hasReady)
  | .checkTimers | .park => m.st.hasTimer || (m.permit && m.st.ahead)
  | .await _ => m.permit && m.st.ahead
  | .parked _ false => false

theorem attentive_again {m : Main κ} (h : m.st.ahead = true) : m.again.attentive = true := by
  unfold again attentive
  split_ifs
  · exact h
  · exact h

theorem attentive_batch {m m' : Main κ} {b : BatchPc} (hpc : m.pc = .batch b)
    (h : m.st.ahead = true) (hs : m.run = some m') : m'.attentive = true := by
  cases b with
  | finished =>
      simp only [run, hpc, Option.some.injEq] at hs
      subst hs
      exact h
  | _ =>
      simp only [run, hpc] at hs
      split at hs
      · obtain rfl := Option.some.inj hs
        rfl
      · rename_i hquiet
        obtain rfl := Option.some.inj hs
        exact ahead_batchStep hquiet h

/-- The loop thread stays attentive until it executes Python. -/
theorem attentive_run {m m' : Main κ} (h : m.attentive = true) (hs : m.run = some m') :
    m'.attentive = true := by
  cases hpc : m.pc with
  | batch b => exact attentive_batch hpc (by simpa only [attentive, hpc] using h) hs
  | setup | setupRunning | yieldNow =>
      simp only [attentive, hpc] at h
      simp only [run, hpc, Option.some.injEq] at hs
      subst hs
      exact h
  | checkStop | checkClosed =>
      simp only [attentive, hpc] at h
      simp only [run, hpc, Option.some.injEq] at hs
      subst hs
      split
      · rfl
      · exact h
  | checkReady =>
      simp only [attentive, hpc] at h
      simp only [run, hpc, Option.some.injEq] at hs
      subst hs
      split
      · rename_i hempty
        have hnone : m.st.hasReady = false := by
          rw [LoopState.hasReady, List.isEmpty_iff.mp hempty]
          rfl
        rw [LoopState.ahead, hnone, Bool.false_or] at h
        simp only [attentive, h, Bool.true_or]
      · exact attentive_again h
  | checkIo =>
      simp only [attentive, hpc] at h
      simp only [run, hpc, Option.some.injEq] at hs
      subst hs
      split
      · rename_i hempty
        have hnone : m.st.hasIo = false := by
          rw [LoopState.hasIo, List.isEmpty_iff.mp hempty]
          rfl
        simp only [attentive, LoopState.ahead, hnone]
        grind
      · refine attentive_again ?_
        rw [LoopState.ahead]
        grind
  | checkTimers =>
      simp only [attentive, hpc] at h
      simp only [run, hpc, Option.some.injEq] at hs
      subst hs
      split
      · refine attentive_again ?_
        rw [LoopState.ahead] at h ⊢
        grind
      · exact h
  | park =>
      simp only [attentive, hpc] at h
      simp only [run, hpc] at hs
      cases htimer : m.st.hasTimer with
      | true =>
          rw [LoopState.nextDeadline_of_hasTimer htimer] at hs
          obtain rfl := Option.some.inj hs
          simp only [attentive, LoopState.ahead, htimer, Bool.or_true]
      | false =>
          rw [htimer, Bool.false_or] at h
          split at hs
          · obtain rfl := Option.some.inj hs
            rfl
          · obtain rfl := Option.some.inj hs
            exact h
          · obtain rfl := Option.some.inj hs
            exact (Bool.and_eq_true_iff.mp h).2
          · obtain rfl := Option.some.inj hs
            exact h
  | await wakeAt =>
      simp only [attentive, hpc, Bool.and_eq_true] at h
      simp only [run, hpc, h.1, if_true, Option.some.injEq] at hs
      subst hs
      exact h.2
  | parked wakeAt notified =>
      cases notified with
      | true =>
          simp only [attentive, hpc] at h
          simp only [run, hpc, if_true, Option.some.injEq] at hs
          subst hs
          exact h
      | false => simp [attentive, hpc] at h
  | cleanup | cleanupStop =>
      simp only [run, hpc, Option.some.injEq] at hs
      subst hs
      rfl
  | idle | calling inv b | reporting e b | panicked p => simp [run, hpc] at hs

/-- What adds to the work ahead, and leaves the program counter. -/
theorem attentive_mono {m m' : Main κ} (h : m.attentive = true) (hpc : m'.pc = m.pc)
    (hpermit : m.permit = true → m'.permit = true)
    (hready : m.st.hasReady = true → m'.st.hasReady = true)
    (hio : m.st.hasIo = true → m'.st.hasIo = true)
    (htimer : m.st.hasTimer = true → m'.st.hasTimer = true) : m'.attentive = true := by
  have hahead : m.st.ahead = true → m'.st.ahead = true := by
    simp only [LoopState.ahead, Bool.or_eq_true]
    exact Or.imp (Or.imp hready hio) htimer
  cases hm : m.pc with
  | idle | calling inv b | reporting e b | cleanup | cleanupStop | panicked p =>
      simp only [attentive, hpc, hm]
  | setup | setupRunning | batch b | checkStop | checkClosed | checkReady | yieldNow =>
      simp only [attentive, hpc, hm] at h ⊢
      exact hahead h
  | checkIo =>
      simp only [attentive, hpc, hm, Bool.or_eq_true, Bool.and_eq_true] at h ⊢
      exact Or.imp (Or.imp hio htimer) (And.imp hpermit hready) h
  | checkTimers | park =>
      simp only [attentive, hpc, hm, Bool.or_eq_true, Bool.and_eq_true] at h ⊢
      exact Or.imp htimer (And.imp hpermit hahead) h
  | await wakeAt =>
      simp only [attentive, hpc, hm, Bool.and_eq_true] at h ⊢
      exact And.imp hpermit hahead h
  | parked wakeAt notified =>
      cases notified with
      | true =>
          simp only [attentive, hpc, hm] at h ⊢
          exact hahead h
      | false => simp [attentive, hm] at h

theorem attentive_notifyOne {m : Main κ} (h : m.attentive = true) :
    m.notifyOne.attentive = true := by
  unfold notifyOne
  split
  · rename_i hpc
    simp [attentive, hpc] at h
  · exact attentive_mono h rfl (fun _ => rfl) id id id

/-- What the other parties do. -/
theorem attentive_step {m m' : Main κ} {mv : Move κ} (h : m.attentive = true)
    (hs : m.step mv = some m') (hrun : mv = .runForever → m.st.ahead = true)
    (hret : mv = .returns none ∨ mv = .handled → m.st.ahead = true)
    (hop : ∀ o, mv = .op o → ({ m with st := o.apply m.st } : Main κ).attentive = true) :
    m'.attentive = true := by
  cases mv with
  | run => exact attentive_run h hs
  | runForever =>
      obtain ⟨_, _, _, rfl⟩ := step_runForever hs
      exact hrun rfl
  | returns exc =>
      obtain ⟨_, _, _, ⟨rfl, rfl⟩ | ⟨_, _, rfl⟩⟩ := step_returns hs
      · exact hret (.inl rfl)
      · rfl
  | handled =>
      obtain ⟨_, _, _, rfl⟩ := step_handled hs
      exact hret (.inr rfl)
  | op o =>
      obtain rfl := Option.some.inj hs
      exact hop o rfl
  | callSoonThreadsafe i cb =>
      rw [step_callSoonThreadsafe hs]
      exact attentive_mono h rfl id (LoopState.hasReady_pushReady _ cb true) id id
  | stop i =>
      obtain rfl := Option.some.inj hs
      exact attentive_mono h rfl id id id id
  | pushIo i c =>
      obtain rfl := Option.some.inj hs
      refine attentive_mono h rfl id id (fun hio => ?_) id
      obtain ⟨c', hc', hlive⟩ := List.any_eq_true.mp hio
      exact List.any_eq_true.mpr ⟨c', List.mem_append_left _ hc', hlive⟩
  | notifyOne i =>
      rw [step_notifyOne hs]
      exact attentive_mono (attentive_notifyOne h) rfl id id id id
  | tick d =>
      obtain ⟨hd, rfl⟩ := step_tick hs
      exact attentive_mono h rfl id id id (LoopState.hasTimer_tick hd)
  | timeout =>
      obtain ⟨t, notified, hpc, rfl⟩ := step_timeout hs
      cases notified with
      | true =>
          simp only [attentive, hpc] at h
          exact h
      | false => simp [attentive, hpc] at h

theorem attentive_of_runsPython {m : Main κ} (h : m.pc.runsPython = true) : m.attentive = true := by
  cases hpc : m.pc with
  | idle | calling inv b | reporting e b => simp only [attentive, hpc]
  | _ =>
      rw [hpc] at h
      cases h

end Main

/-! ### Coming to Python -/

/-- The loop thread comes to a state with `P` by its own steps. -/
inductive Main.Comes (P : Main κ → Prop) : Main κ → Prop
  | here {m : Main κ} (h : P m) : Comes P m
  | step {m m' : Main κ} (hs : m.run = some m') (h : Comes P m') : Comes P m

/-- How far a batch is from its end: the phases that are left, and the turns
of the current one. -/
def BatchPc.left (s : LoopState κ) : BatchPc → ℕ × ℕ
  | .begin => (5, 0)
  | .ready n => (4, n)
  | .sample => (3, 0)
  | .timers _ => (2, s.timers.length)
  | .io => (1, 2 * s.io.length)
  | .release _ => (1, 2 * s.io.length + 1)
  | .finished => (0, 0)

theorem left_batchStep (s : LoopState κ) {b : BatchPc} (hb : b ≠ .finished) :
    Prod.Lex (· < ·) (· < ·) (BatchPc.left (batchStep s b).state (batchStep s b).pc)
      (BatchPc.left s b) := by
  match b with
  | .begin => exact .left _ _ (by omega)
  | .ready 0 => exact .left _ _ (by omega)
  | .ready (n + 1) =>
      simp only [batchStep]
      split
      · exact .left _ _ (by omega)
      · exact .right _ (by omega)
  | .sample => exact .left _ _ (by omega)
  | .timers now =>
      simp only [batchStep]
      split
      · rename_i top hpeek
        have hlen := LoopState.popTimer_length hpeek
        split
        · exact .right _ (show (s.popTimer top).timers.length < s.timers.length by omega)
        · exact .left _ _ (by omega)
      · exact .left _ _ (by omega)
  | .io =>
      simp only [batchStep]
      split
      · exact .left _ _ (by omega)
      · rename_i hio
        simp only [BatchPc.left, hio, List.length_cons]
        exact .right _ (by omega)
      · rename_i hio
        simp only [BatchPc.left, hio, List.length_cons]
        exact .right _ (by omega)
  | .release slot =>
      simp only [batchStep, BatchPc.left]
      exact .right _ (by omega)
  | .finished => exact absurd rfl hb

namespace Main

theorem Comes.trans {P Q : Main κ → Prop} {m : Main κ} (h : m.Comes P)
    (hPQ : ∀ m', P m' → m'.Comes Q) : m.Comes Q := by
  induction h with
  | here h => exact hPQ _ h
  | step hs _ ih => exact .step hs ih

theorem run_batch {m : Main κ} {b : BatchPc} (hpc : m.pc = .batch b) (hb : b ≠ .finished) :
    (∃ inv, m.run = some { m with
      st := (batchStep m.st b).state, pc := .calling inv (batchStep m.st b).pc }) ∨
    ((batchStep m.st b).invoke = none ∧ m.run = some { m with
      st := (batchStep m.st b).state, pc := .batch (batchStep m.st b).pc }) := by
  cases hinv : (batchStep m.st b).invoke with
  | none =>
      refine .inr ⟨rfl, ?_⟩
      cases b with
      | finished => exact absurd rfl hb
      | _ => simp only [run, hpc, hinv]
  | some inv =>
      refine .inl ⟨inv, ?_⟩
      cases b with
      | finished => exact absurd rfl hb
      | _ => simp only [run, hpc, hinv]

/-- The batch comes to a callback or to its end; what its quiet steps keep
holds there. -/
theorem comes_batch {T : LoopState κ → BatchPc → Prop}
    (hkeep : ∀ s b, T s b → (batchStep s b).invoke = none →
      T (batchStep s b).state (batchStep s b).pc)
    {m : Main κ} {b : BatchPc} (hpc : m.pc = .batch b) (h : T m.st b) :
    m.Comes fun m' => m'.pc.runsPython = true ∨ m'.pc = .batch .finished ∧ T m'.st .finished := by
  by_cases hb : b = .finished
  · subst hb
    exact .here (.inr ⟨hpc, h⟩)
  · rcases run_batch hpc hb with ⟨inv, hs⟩ | ⟨hquiet, hs⟩
    · exact .step hs (.here (.inl rfl))
    · exact .step hs (comes_batch hkeep rfl (hkeep _ _ h hquiet))
termination_by b.left m.st
decreasing_by exact left_batchStep _ hb

end Main

/-- A callback is left that this batch runs. -/
def LoopState.onTrack (s : LoopState κ) : BatchPc → Bool
  | .begin => s.ahead
  | .ready n => ((s.ready.take n).any fun e => !s.isCancelled e) || s.hasIo || s.hasTimer
  | .sample => s.hasIo || s.hasTimer
  | .timers now => s.hasIo || s.peek.any fun top => top.due now && !s.isCancelled top.entry
  | .io | .release _ => s.hasIo
  | .finished => false

theorem onTrack_batchStep (s : LoopState κ) (b : BatchPc) (h : s.onTrack b = true)
    (hquiet : (batchStep s b).invoke = none) :
    (batchStep s b).state.onTrack (batchStep s b).pc = true := by
  match b with
  | .begin =>
      simp only [batchStep, LoopState.onTrack, List.take_length] at h ⊢
      exact h
  | .ready 0 => exact h
  | .ready (n + 1) =>
      simp only [LoopState.onTrack] at h
      cases hready : s.ready with
      | nil =>
          simp only [hready, List.take_nil, List.any_nil, Bool.false_or] at h
          simp only [batchStep, hready, LoopState.onTrack]
          exact h
      | cons e rest =>
          have hdead : s.isCancelled e = true := by
            by_contra hlive
            simp [batchStep, hready, hlive] at hquiet
          simp only [hready, List.take_succ_cons, List.any_cons, hdead, Bool.not_true,
            Bool.false_or] at h
          simp only [batchStep, hready, LoopState.onTrack]
          exact h
  | .sample | .release slot => exact h
  | .timers now =>
      -- The first timer is cancelled or not due, so that completions are left.
      have hnone : (s.peek.any fun top => top.due now && !s.isCancelled top.entry) = false := by
        rw [Option.any_eq_false]
        intro top hpeek
        by_contra hdue
        simp only [Bool.not_eq_false, Bool.and_eq_true, Bool.not_eq_true'] at hdue
        simp [batchStep, hpeek, hdue.1, hdue.2] at hquiet
      simp only [LoopState.onTrack, hnone, Bool.or_false] at h
      simp only [batchStep]
      split
      · split
        · exact Bool.or_eq_true_iff.mpr (.inl h)
        · exact h
      · exact h
  | .io =>
      have hio := (hasIo_batchStep hquiet).trans h
      cases hs : s.io with
      | nil => simp [LoopState.onTrack, LoopState.hasIo, hs] at h
      | cons item rest =>
          cases item with
          | callback slot cb =>
              simp only [batchStep, hs] at hio ⊢
              exact hio
          | data slot drain d => simp [batchStep, hs] at hquiet
  | .finished => cases h

/-- How far the loop thread is from its next batch. -/
def Pc.rank : Pc κ → ℕ
  | .batch .begin => 0
  | .batch .finished => 10
  | .batch _ => 11
  | .checkStop => 9
  | .checkClosed => 8
  | .checkReady => 7
  | .checkIo => 6
  | .checkTimers => 5
  | .park => 4
  | .await _ => 3
  | .parked _ _ | .cleanup | .setup => 2
  | .setupRunning | .cleanupStop | .yieldNow => 1
  | .idle | .calling _ _ | .reporting _ _ | .panicked _ => 0

namespace Main

theorem rank_again (m : Main κ) : m.again.pc.rank ≤ 1 := by
  unfold again
  split
  · exact le_refl 1
  · exact Nat.zero_le 1

/-- Between two batches an attentive loop thread gets nearer to the next. -/
theorem run_descends {m : Main κ} (h : m.attentive = true) (hrank : m.pc.rank ≠ 0)
    (hb : ∀ b, m.pc = .batch b → b = .finished) :
    ∃ m', m.run = some m' ∧ m'.pc.rank < m.pc.rank := by
  have hagain := rank_again m
  cases hpc : m.pc with
  | batch b =>
      obtain rfl := hb b hpc
      simp only [run, hpc]
      exact ⟨_, rfl, Nat.lt_succ_self 9⟩
  | setup | setupRunning | cleanup | cleanupStop | yieldNow =>
      simp only [run, hpc]
      exact ⟨_, rfl, Nat.lt_succ_self _⟩
  | checkStop | checkClosed =>
      simp only [run, hpc]
      refine ⟨_, rfl, ?_⟩
      split
      all_goals simp only [Pc.rank]
      all_goals omega
  | checkReady | checkIo =>
      simp only [run, hpc]
      refine ⟨_, rfl, ?_⟩
      split
      · exact Nat.lt_succ_self _
      · exact lt_of_le_of_lt hagain (by simp only [Pc.rank]; omega)
  | checkTimers =>
      simp only [run, hpc]
      refine ⟨_, rfl, ?_⟩
      split
      · exact lt_of_le_of_lt hagain (by simp only [Pc.rank]; omega)
      · exact Nat.lt_succ_self 4
  | park =>
      simp only [run, hpc]
      split
      all_goals exact ⟨_, rfl, by simp only [Pc.rank]; omega⟩
  | await wakeAt =>
      simp only [attentive, hpc, Bool.and_eq_true] at h
      simp only [run, hpc, h.1, if_true]
      exact ⟨_, rfl, Nat.succ_pos 2⟩
  | parked wakeAt notified =>
      cases notified with
      | true =>
          simp only [run, hpc, if_true]
          exact ⟨_, rfl, Nat.succ_pos 1⟩
      | false => simp [attentive, hpc] at h
  | idle | calling inv b | reporting e b | panicked p =>
      exact absurd (by rw [hpc]; rfl) hrank

/-- The main thread executes Python, or unwinds to Python code. -/
def AtPython (m : Main κ) : Prop := m.pc.runsPython = true ∨ ∃ p, m.pc = .panicked p

theorem comes_python_begin {m : Main κ} (hpc : m.pc = .batch .begin) (h : m.st.ahead = true) :
    m.Comes AtPython := by
  refine (comes_batch (T := fun s b => s.onTrack b = true) onTrack_batchStep hpc h).trans ?_
  rintro m' (hpython | ⟨-, hno⟩)
  · exact .here (.inl hpython)
  · cases hno

/-- An attentive loop thread comes to execute Python by its own steps. -/
theorem comes_python {m : Main κ} (h : m.attentive = true) : m.Comes AtPython := by
  induction hn : m.pc.rank using Nat.strong_induction_on generalizing m with
  | _ n ih =>
  subst hn
  have hnext : m.pc.rank ≠ 0 → (∀ b, m.pc = .batch b → b = .finished) → m.Comes AtPython := by
    intro hrank hb
    obtain ⟨m', hs, hlt⟩ := run_descends h hrank hb
    exact .step hs (ih _ hlt (attentive_run h hs) rfl)
  cases hpc : m.pc with
  | batch b =>
      have hahead : m.st.ahead = true := by simpa only [attentive, hpc] using h
      by_cases hbegin : b = .begin
      · exact comes_python_begin (hbegin ▸ hpc) hahead
      by_cases hend : b = .finished
      · subst hend
        exact hnext (by rw [hpc]; exact Nat.succ_ne_zero 9) fun b' hb' =>
          (Pc.batch.inj (hpc.symm.trans hb')).symm
      -- The rest of this batch, and then the checks.
      · have hrank : m.pc.rank = 11 := by
          rw [hpc]
          cases b with
          | begin => exact absurd rfl hbegin
          | finished => exact absurd rfl hend
          | _ => rfl
        refine (comes_batch (T := fun s _ => s.ahead = true) ?_ hpc hahead).trans ?_
        · exact fun s b hs hquiet => ahead_batchStep hquiet hs
        · rintro m' (hpython | ⟨hpc', hahead'⟩)
          · exact .here (.inl hpython)
          · refine ih _ ?_ (by simp only [attentive, hpc']; exact hahead') rfl
            rw [hrank, hpc']
            exact Nat.lt_succ_self 10
  | idle | calling inv b | reporting e b => exact .here (.inl (by rw [hpc]; rfl))
  | panicked p => exact .here (.inr ⟨p, hpc⟩)
  | _ =>
      refine hnext (by rw [hpc]; exact Nat.succ_ne_zero _) fun b hb => ?_
      rw [hpc] at hb
      cases hb

end Main

end Tokioop.Loop
