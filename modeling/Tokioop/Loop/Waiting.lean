import Tokioop.Kit.Potential
import Tokioop.Loop.Attention
import Tokioop.Loop.Wakeup

/-!
How many steps the loop thread takes before it comes to something.

A gauge says how many there are at most from each place of a batch, by what is
in the queues; the steps between two batches are always the same few. Every
step of the loop thread then brings it nearer, if it does so in the batch, and
the others can only delay it, by what they add to the queues.
-/

namespace Tokioop.Loop

open Kit

variable {κ : Type}

/-- The loop thread is in `run_forever` and has no cause to leave it yet, and
the loop is open. -/
def Main.underway (m : Main κ) : Bool :=
  !m.st.closed &&
    match m.pc with
    | .idle | .cleanup | .cleanupStop | .panicked _ => false
    | _ => true

/-- A step of the loop thread, be it in a callback or not. -/
def Move.own : Move κ → ℕ
  | .run | .returns _ | .handled => 1
  | _ => 0

/-- Where the batch goes on, or the next begins, and the steps before that. -/
def Pc.goesOn : Pc κ → BatchPc × ℕ
  | .batch b => (b, 0)
  | .reporting _ b => (b, 1)
  | .calling _ b => (b, 2)
  | .checkStop => (.begin, 8)
  | .checkClosed => (.begin, 7)
  | .checkReady => (.begin, 6)
  | .checkIo => (.begin, 5)
  | .checkTimers => (.begin, 4)
  | .park => (.begin, 3)
  | .await _ | .setup => (.begin, 2)
  | .yieldNow | .parked _ _ | .setupRunning => (.begin, 1)
  | .idle | .cleanup | .cleanupStop | .panicked _ => (.begin, 0)

/-- The steps that are left at most, for so many entries, timers and completions in the
queues, with `before` of them before the one that matters. The timers in the heap do not all
count. -/
structure Gauge (κ : Type) where
  counts : BatchPc → TimerEntry κ → Bool
  steps : (ready timers io before : ℕ) → BatchPc → ℕ
  perReady : ℕ → BatchPc → ℕ
  perTimer : ℕ → BatchPc → ℕ
  perIo : ℕ → BatchPc → ℕ
  again : counts .finished = counts .begin
  finished : ∀ ready timers io before,
    steps ready timers io before .begin + 9 ≤ steps ready timers io before .finished
  ready : ∀ ready timers io before b,
    steps (ready + 1) timers io before b ≤ steps ready timers io before b + perReady before b
  timers : ∀ ready timers io before b,
    steps ready (timers + 1) io before b ≤ steps ready timers io before b + perTimer before b
  io : ∀ ready timers io before b,
    steps ready timers (io + 1) before b ≤ steps ready timers io before b + perIo before b

def LoopState.newTimer (s : LoopState κ) (when : F64) (cb : κ) : TimerEntry κ :=
  ⟨when, s.seq, ⟨cb, s.nextHandle, false⟩⟩

namespace Gauge

def inBatch (G : Gauge κ) (s : LoopState κ) (before : ℕ) (b : BatchPc) : ℕ :=
  G.steps s.ready.length (s.timers.countP (G.counts b)) s.io.length before b

/-- The steps from any place of the loop thread. -/
def wait (G : Gauge κ) (m : Main κ) (before : ℕ) : ℕ :=
  m.pc.goesOn.2 + G.inBatch m.st before m.pc.goesOn.1

def newTimer (G : Gauge κ) (m : Main κ) (before : ℕ) (when : F64) (cb : κ) : ℕ :=
  if G.counts m.pc.goesOn.1 (m.st.newTimer when cb) then G.perTimer before m.pc.goesOn.1 else 0

/-- By how much a move can delay the loop thread. -/
def delay (G : Gauge κ) (m : Main κ) (before : ℕ) : Move κ → ℕ
  | .op (.callSoon _) | .callSoonThreadsafe _ _ => G.perReady before m.pc.goesOn.1
  | .op (.callAt when cb) => G.newTimer m before when cb
  | .op (.callLater delay cb) => G.newTimer m before ((F64.fin m.st.clock).add delay) cb
  | .pushIo _ _ => G.perIo before m.pc.goesOn.1
  | _ => 0

end Gauge

namespace Main

variable {m m' : Main κ}

theorem open_of_underway (h : m.underway = true) : m.st.closed = false := by
  simp only [underway, Bool.and_eq_true, Bool.not_eq_true'] at h
  exact h.1

theorem run_batch_cases {b : BatchPc} (hpc : m.pc = .batch b) (hb : b ≠ .finished)
    (hs : m.run = some m') : m'.st = (batchStep m.st b).state ∧
      ((∃ inv, (batchStep m.st b).invoke = some inv ∧ m'.pc = .calling inv (batchStep m.st b).pc) ∨
        (batchStep m.st b).invoke = none ∧ m'.pc = .batch (batchStep m.st b).pc) := by
  cases b with
  | finished => exact absurd rfl hb
  | _ =>
      simp only [run, hpc] at hs
      split at hs
      · rename_i inv hinv
        cases hs
        exact ⟨rfl, .inl ⟨inv, hinv, rfl⟩⟩
      · rename_i hinv
        cases hs
        exact ⟨rfl, .inr ⟨hinv, rfl⟩⟩

end Main

/-! ### What a step does to the wait -/

namespace Gauge

variable {G : Gauge κ} {m m' : Main κ} {before before' : ℕ}

theorem wait_again (m : Main κ) (before : ℕ) :
    G.wait m.again before ≤ G.inBatch m.st before .begin + 1 := by
  unfold Main.again
  by_cases hw : m.st.nWatchers ≠ 0
  · rw [if_pos hw]
    simp only [wait, Pc.goesOn]
    omega
  · rw [if_neg hw]
    simp only [wait, Pc.goesOn]
    omega

/-- A step outside of a batch. -/
theorem wait_run_between (hpc : ∀ b, m.pc ≠ .batch b) (hm' : m'.underway = true)
    (hs : m.run = some m') : G.wait m' before + 1 ≤ G.wait m before := by
  have hagain := wait_again (G := G) m before
  cases hm : m.pc with
  | batch b => exact absurd hm (hpc b)
  | calling inv b | reporting e b | idle | panicked p => simp [Main.run, hm] at hs
  | cleanup | cleanupStop =>
      simp only [Main.run, hm, Option.some.injEq] at hs
      subst hs
      simp [Main.underway] at hm'
  | setup | setupRunning | yieldNow =>
      simp only [Main.run, hm, Option.some.injEq] at hs
      subst hs
      simp only [wait, hm, Pc.goesOn, inBatch]
      omega
  | checkStop | checkClosed =>
      simp only [Main.run, hm, Option.some.injEq] at hs
      subst hs
      split at hm'
      · simp [Main.underway] at hm'
      · rename_i hgo
        rw [if_neg hgo]
        simp only [wait, hm, Pc.goesOn]
        omega
  | checkReady | checkIo | checkTimers =>
      simp only [Main.run, hm, Option.some.injEq] at hs
      subst hs
      split
      all_goals
        simp only [wait, hm, Pc.goesOn] at hagain ⊢
        omega
  | park =>
      simp only [Main.run, hm] at hs
      split at hs
      · cases hs
        simp [Main.underway] at hm'
      all_goals
        cases hs
        simp only [wait, hm, Pc.goesOn]
        omega
  | await wakeAt =>
      simp only [Main.run, hm] at hs
      split at hs
      all_goals
        cases hs
        simp only [wait, hm, Pc.goesOn]
        omega
  | parked wakeAt notified =>
      simp only [Main.run, hm] at hs
      split at hs
      · cases hs
        simp only [wait, hm, Pc.goesOn]
        omega
      · cases hs

/-- A step of the loop thread, where those of the batch bring it nearer. -/
theorem wait_run (hbatch : ∀ b, m.pc = .batch b → b ≠ .finished →
      G.inBatch (batchStep m.st b).state before' (batchStep m.st b).pc +
        (if (batchStep m.st b).invoke.isSome then 2 else 0) + 1 ≤ G.inBatch m.st before b)
    (hbefore : (∀ b, m.pc = .batch b → b = .finished) → before' = before)
    (hm' : m'.underway = true) (hs : m.run = some m') :
    G.wait m' before' + 1 ≤ G.wait m before := by
  by_cases hin : ∃ b, m.pc = .batch b
  · obtain ⟨b, hpc⟩ := hin
    by_cases hb : b = .finished
    · subst hb
      rw [hbefore fun b hpc' => by rw [hpc] at hpc'; cases hpc'; rfl]
      simp only [Main.run, hpc, Option.some.injEq] at hs
      subst hs
      have hfinished := G.finished m.st.ready.length (m.st.timers.countP (G.counts .begin))
        m.st.io.length before
      simp only [wait, hpc, Pc.goesOn, inBatch, G.again]
      omega
    · have hnearer := hbatch b hpc hb
      obtain ⟨hst, ⟨inv, hinv, hpc'⟩ | ⟨hinv, hpc'⟩⟩ := Main.run_batch_cases hpc hb hs
      · simp only [hinv, Option.isSome_some, if_true] at hnearer
        simp only [wait, hpc, hpc', hst, Pc.goesOn]
        omega
      · simp only [hinv, Option.isSome_none, Bool.false_eq_true, if_false] at hnearer
        simp only [wait, hpc, hpc', hst, Pc.goesOn]
        omega
  · rw [not_exists] at hin
    rw [hbefore fun b hpc => absurd hpc (hin b)]
    exact wait_run_between hin hm' hs

/-- A step that leaves the loop thread where it is. -/
theorem wait_le {n : ℕ} (hpc : m'.pc = m.pc)
    (hst : G.inBatch m'.st before m.pc.goesOn.1 ≤ G.inBatch m.st before m.pc.goesOn.1 + n) :
    G.wait m' before ≤ G.wait m before + n := by
  unfold wait
  rw [hpc]
  omega

theorem inBatch_pushReady (s : LoopState κ) (cb : κ) (threadsafe : Bool) (b : BatchPc) :
    G.inBatch (s.pushReady cb threadsafe) before b ≤
      G.inBatch s before b + G.perReady before b := by
  simp only [inBatch, LoopState.pushReady, List.length_append, List.length_singleton]
  exact G.ready _ _ _ _ _

theorem inBatch_pushTimer (m : Main κ) (when : F64) (cb : κ) :
    G.inBatch (m.st.pushTimer when cb) before m.pc.goesOn.1 ≤
      G.inBatch m.st before m.pc.goesOn.1 + G.newTimer m before when cb := by
  have htimers : (m.st.pushTimer when cb).timers = m.st.newTimer when cb :: m.st.timers := rfl
  simp only [inBatch, newTimer, htimers, List.countP_cons]
  split
  · exact G.timers _ _ _ _ _
  · exact Nat.le_refl _

theorem wait_op (hm : m.underway = true) (o : Op κ)
    (hm' : ({ m with st := o.apply m.st } : Main κ).underway = true) :
    G.wait ({ m with st := o.apply m.st } : Main κ) before ≤
      G.wait m before + G.delay m before (.op o) := by
  have hopen := Main.open_of_underway hm
  have htimer : ∀ when cb, G.wait { m with st := (Op.callAt when cb).apply m.st } before ≤
      G.wait m before + G.newTimer m before when cb := by
    intro when cb
    refine wait_le rfl ?_
    rw [Op.apply_callAt, hopen]
    exact inBatch_pushTimer m when cb
  cases o with
  | callSoon cb =>
      refine wait_le rfl ?_
      rw [Op.apply_callSoon, hopen]
      exact inBatch_pushReady _ _ _ _
  | callAt when cb => exact htimer when cb
  | callLater delay cb => exact htimer _ cb
  | close =>
      rw [Op.apply_close] at hm' ⊢
      split at hm'
      · rename_i hstay
        rw [if_pos hstay]
        exact Nat.le_refl _
      · simp [Main.underway] at hm'
  | cancel h | detach slot | watchers n => exact Nat.le_refl _

theorem wait_notifyOne (m : Main κ) (pending : List ℕ) :
    G.wait ({ m.notifyOne with pending := pending } : Main κ) before = G.wait m before := by
  unfold Main.notifyOne
  split
  · rename_i hpc
    simp only [wait, hpc, Pc.goesOn]
  · rfl

theorem wait_step (hm : m.underway = true) (hm' : m'.underway = true) {mv : Move κ}
    (hbatch : mv = .run → ∀ b, m.pc = .batch b → b ≠ .finished →
      G.inBatch (batchStep m.st b).state before' (batchStep m.st b).pc +
        (if (batchStep m.st b).invoke.isSome then 2 else 0) + 1 ≤ G.inBatch m.st before b)
    (hbefore : (mv = .run → ∀ b, m.pc = .batch b → b = .finished) → before' = before)
    (hs : m.step mv = some m') :
    G.wait m' before' + mv.own ≤ G.wait m before + G.delay m before mv := by
  by_cases hrun : mv = .run
  · subst hrun
    exact wait_run (hbatch rfl) (fun h => hbefore fun _ => h) hm' hs
  rw [hbefore fun h => absurd h hrun]
  cases mv with
  | run => exact absurd rfl hrun
  | runForever =>
      obtain ⟨hpc, -⟩ := Main.step_runForever hs
      simp [Main.underway, hpc] at hm
  | returns exc =>
      obtain ⟨inv, b, hpc, ⟨rfl, rfl⟩ | ⟨e, rfl, rfl⟩⟩ := Main.step_returns hs
      all_goals
        simp only [wait, hpc, Pc.goesOn, Move.own, delay]
        omega
  | handled =>
      obtain ⟨e, b, hpc, rfl⟩ := Main.step_handled hs
      simp only [wait, hpc, Pc.goesOn, Move.own, delay]
      omega
  | op o =>
      cases hs
      exact wait_op hm o hm'
  | callSoonThreadsafe i cb =>
      obtain rfl := Main.step_callSoonThreadsafe hs
      exact wait_le rfl (inBatch_pushReady _ _ _ _)
  | stop i =>
      cases hs
      exact Nat.le_refl _
  | pushIo i c =>
      cases hs
      refine wait_le rfl ?_
      simp only [inBatch, List.length_append, List.length_singleton]
      exact G.io _ _ _ _ _
  | notifyOne i =>
      obtain rfl := Main.step_notifyOne hs
      exact Nat.le_of_eq (wait_notifyOne m _)
  | tick d =>
      obtain ⟨-, rfl⟩ := Main.step_tick hs
      exact Nat.le_refl _
  | timeout =>
      obtain ⟨t, notified, hpc, rfl⟩ := Main.step_timeout hs
      simp only [wait, hpc, Pc.goesOn, inBatch, Move.own, delay]
      omega

end Gauge

/-! ### The next step -/

namespace Main

variable {m m' : Main κ}

theorem permit_of_run {wakeAt : Option ℚ} (hs : m.run = some m')
    (hpc : m'.pc = .parked wakeAt false) : m'.permit = false := by
  cases hm : m.pc with
  | await wakeAt' =>
      simp only [run, hm] at hs
      split at hs
      · cases hs
        cases hpc
      · rename_i hpermit
        cases hs
        exact Bool.eq_false_iff.mpr hpermit
  | _ =>
      cases runStep_of_run hs with
      | sleep hpc' =>
          rw [hm] at hpc'
          cases hpc'
      | again _ hnext =>
          rcases hnext with rfl | rfl <;> cases hpc
      | _ => cases hpc

/-- A loop thread that sleeps has found no permit. -/
theorem permit_of_parked (h : MainReach m) {wakeAt : Option ℚ}
    (hpc : m.pc = .parked wakeAt false) : m.permit = false := by
  refine h.invariant (I := fun m => ∀ wakeAt, m.pc = .parked wakeAt false → m.permit = false)
    ?_ ?_ wakeAt hpc
  · rintro m ⟨hidle, -⟩ wakeAt hpc
    rw [hidle] at hpc
    cases hpc
  · rintro m mv m' hm - hs wakeAt hpc
    cases mv with
    | run => exact permit_of_run hs hpc
    | runForever =>
        obtain ⟨-, -, -, rfl⟩ := step_runForever hs
        cases hpc
    | returns exc =>
        obtain ⟨_, _, _, ⟨-, rfl⟩ | ⟨_, -, rfl⟩⟩ := step_returns hs <;> cases hpc
    | handled =>
        obtain ⟨_, _, _, rfl⟩ := step_handled hs
        cases hpc
    | callSoonThreadsafe i cb =>
        obtain rfl := step_callSoonThreadsafe hs
        exact hm _ hpc
    | notifyOne i =>
        obtain rfl := step_notifyOne hs
        unfold notifyOne at hpc
        split at hpc
        · cases hpc
        · rename_i hno
          exact absurd hpc (hno wakeAt)
    | tick d =>
        obtain ⟨-, rfl⟩ := step_tick hs
        exact hm _ hpc
    | timeout =>
        obtain ⟨_, _, _, rfl⟩ := step_timeout hs
        cases hpc
    | op o | stop i | pushIo i c =>
        cases hs
        exact hm _ hpc

/-- The loop thread can take a step of its own. -/
def Ready (m : Main κ) : Prop := ∃ mv m', mv.own = 1 ∧ m.step mv = some m'

theorem ready_or_parked (hm : m.underway = true) :
    m.Ready ∨ ∃ wakeAt, m.pc = .parked wakeAt false := by
  have hrun : m.run ≠ none → m.Ready := fun hs => by
    obtain ⟨m', hs⟩ := Option.ne_none_iff_exists'.mp hs
    exact ⟨.run, m', rfl, hs⟩
  cases hpc : m.pc with
  | calling inv b =>
      exact .inl ⟨.returns none, { m with pc := .batch b }, rfl, by simp only [step, hpc]⟩
  | reporting exc b =>
      exact .inl ⟨.handled, { m with pc := .batch b }, rfl, by simp only [step, hpc]⟩
  | idle | panicked p | cleanup | cleanupStop => simp [underway, hpc] at hm
  | parked wakeAt notified =>
      cases notified with
      | true => exact .inl (hrun (by simp [run, hpc]))
      | false => exact .inr ⟨wakeAt, rfl⟩
  | batch b =>
      refine .inl (hrun ?_)
      by_cases hb : b = .finished
      · simp [run, hpc, hb]
      · rcases run_batch hpc hb with ⟨inv, hs⟩ | ⟨-, hs⟩ <;> simp [hs]
  | park | await _ =>
      refine .inl (hrun ?_)
      simp only [run, hpc]
      split <;> simp
  | _ => exact .inl (hrun (by simp [run, hpc]))

/-- Somebody is about to wake the loop thread, which sleeps. -/
def Woken (m : Main κ) : Prop :=
  ∃ wakeAt i m', m.pc = .parked wakeAt false ∧ m.step (.notifyOne i) = some m' ∧
    m'.pc = .parked wakeAt true

theorem woken_of_covered (h : MainReach m) {wakeAt : Option ℚ} (hpc : m.pc = .parked wakeAt false)
    (hc : m.Covered) : m.Woken := by
  have hpending := hc.resolve_left (by rw [permit_of_parked h hpc]; exact Bool.false_ne_true)
  obtain ⟨i, hi⟩ := List.exists_mem_of_ne_nil _ hpending
  refine ⟨wakeAt, i, { m.notifyOne with pending := m.pending.erase i }, hpc, ?_, ?_⟩
  · simp only [step, if_pos hi]
  · simp only [notifyOne, hpc]

/-- For what has come from another thread the loop does not stay asleep. -/
theorem goes_ready (h : MainReach m) (hm : m.underway = true) {e : ReadyEntry κ}
    (he : e ∈ m.st.ready) (hts : e.threadsafe = true) : m.Ready ∨ m.Woken := by
  refine (ready_or_parked hm).imp_right fun ⟨wakeAt, hpc⟩ => woken_of_covered h hpc ?_
  have hawake := awake_of_reach h
  simp only [Awake, hpc] at hawake
  exact hawake.ready trivial ⟨e, he, hts⟩

theorem goes_io (h : MainReach m) (hm : m.underway = true) {c : IoCompletion κ}
    (hc : c ∈ m.st.io) : m.Ready ∨ m.Woken := by
  refine (ready_or_parked hm).imp_right fun ⟨wakeAt, hpc⟩ => woken_of_covered h hpc ?_
  have hawake := awake_of_reach h
  simp only [Awake, hpc] at hawake
  exact hawake.io trivial (List.ne_nil_of_mem hc)

end Main

end Tokioop.Loop
