import Tokioop.Loop.Ready
import Tokioop.Loop.Timers
import Tokioop.Loop.Waiting

/-!
What is in a queue of the loop comes to its turn.

A ready callback waits for those before it, and perhaps for the rest of a batch
that began without it; what is pushed behind it cannot hold it up. A completion
waits for those before it, for the callbacks of its batch and for the timers of
its batch, also for those that are added while the batch is at them: timers that
are due at once can keep completions waiting for as long as they are added.
-/

namespace Tokioop.Loop

open Kit

variable {κ : Type}

/-- Every run of a loop fresh from its constructor. -/
abbrev FreshReach : Main κ → Prop :=
  Runs Main.step (fun _ _ => True) Main.Fresh

theorem FreshReach.reach {m : Main κ} (h : FreshReach m) : MainReach m := by
  refine h.simulates (f := id) ?_ fun _ mv _ _ hs => ⟨mv, trivial, hs⟩
  rintro _ ⟨clock, rfl⟩
  exact ⟨rfl, rfl, rfl, rfl, rfl⟩

theorem FreshReach.exists_view {m : Main κ} (h : FreshReach m) :
    ∃ w : ReadyView κ, ReadyReach w ∧ w.main = m := by
  refine h.invariant (I := fun m => ∃ w : ReadyView κ, ReadyReach w ∧ w.main = m) ?_ ?_
  · exact fun m hm => ⟨⟨m, [], [], [], [], [], []⟩, .start ⟨m, hm, rfl⟩, rfl⟩
  · rintro _ mv m' ⟨w, hw, rfl⟩ - hs
    exact ⟨w.record m' mv, hw.step mv trivial (by rw [ReadyView.step, hs]; rfl),
      ReadyView.record_main w m' mv⟩

/-- The rest of the snapshot is in the queue. -/
theorem FreshReach.readyLeft_le {m : Main κ} (h : FreshReach m) (hopen : m.st.closed = false)
    {n : ℕ} (hn : m.pc.readyLeft = some n) : n ≤ m.st.ready.length := by
  obtain ⟨w, hw, rfl⟩ := h.exists_view
  exact ((ReadyView.fifo_of_reach hw hopen).left n hn).2

/-! ### Waiting -/

/-- What is waiting has `before` others before it. -/
structure Waiting (κ : Type) where
  main : Main κ
  before : ℕ

def Main.takes (m : Main κ) (pops : LoopState κ → BatchPc → Bool) : Move κ → Bool
  | .run =>
      match m.pc with
      | .batch b => pops m.st b
      | _ => false
  | _ => false

section

variable {m : Main κ} {pops : LoopState κ → BatchPc → Bool}

theorem Main.takes_batch {b : BatchPc} (hpc : m.pc = .batch b) :
    m.takes pops .run = pops m.st b := by
  simp only [takes, hpc]

theorem Main.takes_between (hpc : ∀ b, m.pc ≠ .batch b) : m.takes pops .run = false := by
  cases hm : m.pc with
  | batch b => exact absurd hm (hpc b)
  | _ => simp only [takes, hm]

theorem Main.takes_other {mv : Move κ} (hrun : mv ≠ .run) : m.takes pops mv = false := by
  cases mv with
  | run => exact absurd rfl hrun
  | _ => rfl

end

/-- Its turn ends the wait, and so does the end of the run. -/
def Waiting.step (pops : LoopState κ → BatchPc → Bool) (w : Waiting κ) (mv : Move κ) :
    Option (Waiting κ) :=
  if w.main.takes pops mv && w.before = 0 then none
  else (w.main.step mv).bind fun m =>
    if m.underway then some ⟨m, if w.main.takes pops mv then w.before - 1 else w.before⟩
    else none

/-- The runs in which it is still waiting, with the steps of the loop thread and what the
others may have delayed them by. -/
abbrev WaitsFrom (G : Gauge κ) (pops : LoopState κ → BatchPc → Bool)
    (ok : Main κ → Move κ → Prop) (m : Main κ) (before : ℕ) : Metered (Waiting κ) → Prop :=
  MeteredFrom (Waiting.step pops) (fun w => ok w.main) (fun _ mv => mv.own)
    (fun w mv => G.delay w.main w.before mv) ⟨m, before⟩

theorem Waiting.step_eq_some {pops : LoopState κ → BatchPc → Bool} {w w' : Waiting κ}
    {mv : Move κ} (h : w.step pops mv = some w') :
    (w.main.takes pops mv = true → w.before ≠ 0) ∧ w.main.step mv = some w'.main ∧
      w'.main.underway = true ∧
      w'.before = if w.main.takes pops mv then w.before - 1 else w.before := by
  unfold step at h
  split at h
  · cases h
  · rename_i hturn
    obtain ⟨m, hs, hm⟩ := Option.bind_eq_some_iff.mp h
    split at hm
    · rename_i hunder
      cases hm
      refine ⟨fun htakes hzero => hturn ?_, hs, hunder, rfl⟩
      rw [htakes, hzero]
      rfl
    · cases hm

/-- **The wait is bounded**, where each step of a batch brings what is waiting nearer. -/
theorem waits {G : Gauge κ} {pops : LoopState κ → BatchPc → Bool}
    {ok : Main κ → Move κ → Prop} (Place : LoopState κ → ℕ → Prop)
    (hfinished : ∀ s, pops s .finished = false)
    (hplace : ∀ (m m' : Main κ) mv before, FreshReach m → m.underway = true →
      m'.underway = true → Place m.st before → ok m mv → (m.takes pops mv = true → before ≠ 0) →
      m.step mv = some m' → Place m'.st (if m.takes pops mv then before - 1 else before))
    (hbatch : ∀ s before b, s.Wf → Place s before → b ≠ .finished →
      (pops s b = true → before ≠ 0) →
      G.inBatch (batchStep s b).state (if pops s b then before - 1 else before)
        (batchStep s b).pc + (if (batchStep s b).invoke.isSome then 2 else 0) + 1 ≤
        G.inBatch s before b)
    {m : Main κ} (h : FreshReach m) (hm : m.underway = true) {before : ℕ} (hp : Place m.st before)
    {x : Metered (Waiting κ)} (hx : WaitsFrom G pops ok m before x) :
    (FreshReach x.state.main ∧ x.state.main.underway = true ∧
      Place x.state.main.st x.state.before) ∧
      G.wait x.state.main x.state.before + x.work ≤ G.wait m before + x.charge := by
  refine hx.bound (I := fun w => FreshReach w.main ∧ w.main.underway = true ∧
    Place w.main.st w.before) (fun w => G.wait w.main w.before) ⟨h, hm, hp⟩ ?_
  rintro w mv w' ⟨hreach, hunder, hw⟩ hok hs
  obtain ⟨hturn, hstep, hunder', hbefore⟩ := Waiting.step_eq_some hs
  have hnext := hplace _ _ _ _ hreach hunder hunder' hw hok hturn hstep
  rw [← hbefore] at hnext
  refine ⟨⟨hreach.step mv trivial hstep, hunder', hnext⟩, ?_⟩
  rw [hbefore]
  refine Gauge.wait_step hunder hunder' (fun hrun b hpc hb => ?_) (fun hend => ?_) hstep
  · subst hrun
    rw [Main.takes_batch hpc] at hturn ⊢
    exact hbatch _ _ _ (wf_of_reach hreach) hw hb hturn
  · have hno : w.main.takes pops mv = false := by
      by_cases hrun : mv = .run
      · subst hrun
        by_cases hb : ∃ b, w.main.pc = .batch b
        · obtain ⟨b, hpc⟩ := hb
          rw [Main.takes_batch hpc, hend rfl b hpc]
          exact hfinished _
        · exact Main.takes_between (not_exists.mp hb)
      · exact Main.takes_other hrun
    simp only [hno, Bool.false_eq_true, if_false]

/-! ### The queues -/

/-- Only the loop thread takes anything off the queues, and the clock does not go back. -/
structure LoopState.Grown (s s' : LoopState κ) : Prop where
  ready : s.ready <+: s'.ready
  io : s.io <+: s'.io
  timers : s.timers ⊆ s'.timers
  clock : s.clock ≤ s'.clock

theorem LoopState.Grown.refl (s : LoopState κ) : s.Grown s :=
  ⟨List.prefix_refl _, List.prefix_refl _, List.Subset.refl _, le_refl _⟩

namespace Main

variable {m m' : Main κ}

theorem grown_op (hm : m.underway = true) (o : Op κ)
    (hm' : ({ m with st := o.apply m.st } : Main κ).underway = true) :
    m.st.Grown (o.apply m.st) := by
  have hrefl := LoopState.Grown.refl m.st
  have hopen := open_of_underway hm
  cases o with
  | callSoon cb =>
      rw [Op.apply_callSoon, hopen]
      exact { hrefl with ready := List.prefix_append _ _ }
  | callAt when cb =>
      rw [Op.apply_callAt, hopen]
      exact { hrefl with timers := List.subset_cons_self _ _ }
  | callLater delay cb =>
      rw [Op.apply_callLater, Op.apply_callAt, hopen]
      exact { hrefl with timers := List.subset_cons_self _ _ }
  | close =>
      rw [Op.apply_close] at hm' ⊢
      split at hm'
      · rename_i hstay
        rw [if_pos hstay]
        exact hrefl
      · simp [underway] at hm'
  | cancel h | detach slot | watchers n => exact { hrefl with }

theorem grown_step (hm : m.underway = true) (hm' : m'.underway = true) {mv : Move κ}
    (hrun : mv ≠ .run) (hs : m.step mv = some m') : m.st.Grown m'.st := by
  have hrefl := LoopState.Grown.refl m.st
  cases mv with
  | run => exact absurd rfl hrun
  | runForever =>
      obtain ⟨-, -, -, rfl⟩ := step_runForever hs
      exact hrefl
  | returns exc =>
      obtain ⟨_, _, _, ⟨-, rfl⟩ | ⟨_, -, rfl⟩⟩ := step_returns hs <;> exact hrefl
  | handled =>
      obtain ⟨_, _, _, rfl⟩ := step_handled hs
      exact hrefl
  | op o =>
      cases hs
      exact grown_op hm o hm'
  | callSoonThreadsafe i cb =>
      obtain rfl := step_callSoonThreadsafe hs
      exact { hrefl with ready := List.prefix_append _ _ }
  | stop i =>
      cases hs
      exact { hrefl with }
  | pushIo i c =>
      cases hs
      exact { hrefl with io := List.prefix_append _ _ }
  | notifyOne i =>
      obtain rfl := step_notifyOne hs
      show m.st.Grown m.notifyOne.st
      rw [st_notifyOne]
      exact hrefl
  | tick d =>
      obtain ⟨hd, rfl⟩ := step_tick hs
      exact { hrefl with clock := le_add_of_nonneg_right hd }
  | timeout =>
      obtain ⟨_, _, _, rfl⟩ := step_timeout hs
      exact hrefl

theorem run_state (hs : m.run = some m') :
    (∃ b, m.pc = .batch b ∧ m'.st = (batchStep m.st b).state) ∨
      (∀ b, m.pc ≠ .batch b) ∧ m.st.Grown m'.st := by
  have hrefl := LoopState.Grown.refl m.st
  cases hpc : m.pc with
  | batch b =>
      refine .inl ⟨b, rfl, ?_⟩
      by_cases hb : b = .finished
      · subst hb
        simp only [run, hpc, Option.some.injEq] at hs
        rw [← hs]
        rfl
      · exact (run_batch_cases hpc hb hs).1
  | _ =>
      refine .inr ⟨fun b h => (by cases h), ?_⟩
      cases runStep_of_run hs with
      | quiet hpc' | invoke hpc' =>
          rw [hpc] at hpc'
          cases hpc'
      | _ => exact { hrefl with }

end Main

/-- An item of a queue keeps its place. -/
theorem place_step {α : Type} (q : LoopState κ → List α) {pops : LoopState κ → BatchPc → Bool}
    (hbatch : ∀ s b, q (batchStep s b).state = if pops s b then (q s).tail else q s)
    (hgrown : ∀ s s', s.Grown s' → q s <+: q s') {m m' : Main κ} {mv : Move κ} {before : ℕ}
    (hm : m.underway = true) (hm' : m'.underway = true) {e : α} (he : (q m.st)[before]? = some e)
    (hturn : m.takes pops mv = true → before ≠ 0) (hs : m.step mv = some m') :
    (q m'.st)[if m.takes pops mv then before - 1 else before]? = some e := by
  have hstay : q m.st <+: q m'.st → (q m'.st)[before]? = some e := by
    rintro ⟨more, hmore⟩
    rw [← hmore, List.getElem?_append_left (List.getElem?_eq_some_iff.mp he).1]
    exact he
  by_cases hrun : mv = .run
  · subst hrun
    rcases Main.run_state hs with ⟨b, hpc, hst⟩ | ⟨hpc, hst⟩
    · rw [Main.takes_batch hpc] at hturn ⊢
      rw [hst, hbatch]
      cases hpops : pops m.st b with
      | false => exact he
      | true =>
          obtain ⟨n, rfl⟩ := Nat.exists_eq_succ_of_ne_zero (hturn hpops)
          simpa using he
    · rw [Main.takes_between hpc]
      exact hstay (hgrown _ _ hst)
  · rw [Main.takes_other hrun]
    exact hstay (hgrown _ _ (Main.grown_step hm hm' hrun hs))

/-! ### Ready callbacks -/

def BatchPc.popsReady (s : LoopState κ) : BatchPc → Bool
  | .ready (_ + 1) => !s.ready.isEmpty
  | _ => false

theorem ready_batchStep (s : LoopState κ) (b : BatchPc) :
    (batchStep s b).state.ready = if b.popsReady s then s.ready.tail else s.ready := by
  match b with
  | .ready (n + 1) => cases h : s.ready <;> simp [batchStep, BatchPc.popsReady, h]
  | .timers now =>
      simp only [batchStep]
      split
      · split <;> rfl
      · rfl
  | .io =>
      simp only [batchStep]
      split <;> rfl
  | .begin | .ready 0 | .sample | .release slot | .finished => rfl

def BatchPc.mayRun : BatchPc → TimerEntry κ → Bool
  | .timers now => fun t => t.due now
  | _ => fun _ => true

theorem countP_mayRun_le (s : LoopState κ) (b : BatchPc) :
    s.timers.countP b.mayRun ≤ s.timers.countP (BatchPc.mayRun .sample) :=
  List.countP_mono_left fun _ _ _ => rfl

theorem popTimer_countP {s : LoopState κ} (hwf : s.Wf) {top : TimerEntry κ}
    (hpeek : s.peek = some top) (p : TimerEntry κ → Bool) :
    s.timers.countP p = (s.popTimer top).timers.countP p + if p top then 1 else 0 := by
  rw [(LoopState.popTimer_perm hwf hpeek).countP_eq, List.countP_cons]

/-- A batch whose snapshot has the callback comes to it; any other goes on to its end. -/
def readyGauge : Gauge κ where
  counts := BatchPc.mayRun
  steps _ timers io before b :=
    match b with
    | .begin => 3 * before + 2
    | .ready n =>
        if before < n then 3 * before + 1
        else 3 * n + 3 * timers + 4 * io + 13 + (3 * (before - n) + 2)
    | .sample => 3 * timers + 4 * io + 12 + (3 * before + 2)
    | .timers _ => 3 * timers + 4 * io + 11 + (3 * before + 2)
    | .io => 4 * io + 10 + (3 * before + 2)
    | .release _ => 4 * io + 11 + (3 * before + 2)
    | .finished => 9 + (3 * before + 2)
  perReady _ _ := 0
  perTimer before b :=
    match b with
    | .ready n => if before < n then 0 else 3
    | .sample | .timers _ => 3
    | _ => 0
  perIo before b :=
    match b with
    | .ready n => if before < n then 0 else 4
    | .begin | .finished => 0
    | _ => 4
  again := rfl
  finished _ _ _ _ := by
    dsimp only
    omega
  ready _ _ _ _ _ := Nat.le_refl _
  timers _ _ _ _ b := by
    cases b with
    | ready n =>
        dsimp only
        split_ifs <;> omega
    | _ =>
        dsimp only
        omega
  io _ _ _ _ b := by
    cases b with
    | ready n =>
        dsimp only
        split_ifs <;> omega
    | _ =>
        dsimp only
        omega

theorem readyGauge_batchStep {s : LoopState κ} (hwf : s.Wf) {b : BatchPc} {before : ℕ}
    (hb : b ≠ .finished) (hr : before < s.ready.length)
    (hturn : b.popsReady s = true → before ≠ 0) :
    readyGauge.inBatch (batchStep s b).state (if b.popsReady s then before - 1 else before)
        (batchStep s b).pc + (if (batchStep s b).invoke.isSome then 2 else 0) + 1 ≤
      readyGauge.inBatch s before b := by
  match b with
  | .begin => simp [BatchPc.popsReady, batchStep, Gauge.inBatch, readyGauge, hr]
  | .ready 0 =>
      simp only [BatchPc.popsReady, batchStep, Gauge.inBatch, readyGauge, BatchPc.mayRun,
        Option.isSome_none, Bool.false_eq_true, if_false, Nat.not_lt_zero]
      omega
  | .ready (n + 1) =>
      cases hready : s.ready with
      | nil => simp [hready] at hr
      | cons e rest =>
          obtain ⟨r, rfl⟩ := Nat.exists_eq_succ_of_ne_zero
            (hturn (by simp [BatchPc.popsReady, hready]))
          simp only [BatchPc.popsReady, batchStep, Gauge.inBatch, readyGauge, BatchPc.mayRun,
            hready, List.isEmpty_cons, Bool.not_false, if_true]
          split_ifs <;> omega
  | .sample =>
      have hcount := countP_mayRun_le s (.timers s.clock)
      simp only [BatchPc.popsReady, batchStep, Gauge.inBatch, readyGauge, Option.isSome_none,
        Bool.false_eq_true, if_false]
      omega
  | .timers now =>
      cases hpeek : s.peek with
      | none =>
          simp only [batchStep, hpeek, BatchPc.popsReady, Gauge.inBatch, readyGauge,
            Option.isSome_none, Bool.false_eq_true, if_false]
          omega
      | some top =>
          by_cases hdue : top.due now = true
          · have hcount := popTimer_countP hwf hpeek (BatchPc.mayRun (.timers now))
            simp only [BatchPc.mayRun, hdue, if_true] at hcount
            simp only [batchStep, hpeek, hdue, if_true, BatchPc.popsReady, Gauge.inBatch,
              readyGauge, BatchPc.mayRun, show (s.popTimer top).io = s.io from rfl]
            split_ifs <;> omega
          · simp only [batchStep, hpeek, hdue, BatchPc.popsReady, Gauge.inBatch, readyGauge,
              Option.isSome_none, Bool.false_eq_true, if_false]
            omega
  | .io =>
      cases hio : s.io with
      | nil =>
          simp only [batchStep, hio, BatchPc.popsReady, Gauge.inBatch, readyGauge,
            Option.isSome_none, Bool.false_eq_true, if_false, List.length_nil]
          omega
      | cons item rest =>
          cases item with
          | callback slot cb =>
              simp only [batchStep, hio, BatchPc.popsReady, Gauge.inBatch, readyGauge,
                List.length_cons]
              split_ifs <;> omega
          | data slot drain d =>
              simp only [batchStep, hio, BatchPc.popsReady, Gauge.inBatch, readyGauge,
                Option.isSome_some, Bool.false_eq_true, if_true, if_false, List.length_cons]
              omega
  | .release slot =>
      simp only [BatchPc.popsReady, batchStep, Gauge.inBatch, readyGauge, Option.isSome_none,
        Bool.false_eq_true, if_false]
      omega

theorem readyGauge_wait (m : Main κ) (before : ℕ) :
    readyGauge.wait m before ≤ 3 * before + 3 * m.st.timers.length + 4 * m.st.io.length + 17 := by
  have hcount : m.st.timers.countP m.pc.goesOn.1.mayRun ≤ m.st.timers.length :=
    List.countP_le_length
  unfold Gauge.wait
  cases hpc : m.pc with
  | batch b | calling inv b | reporting e b =>
      rw [hpc] at hcount
      cases b with
      | ready n =>
          simp only [Pc.goesOn, Gauge.inBatch, readyGauge] at hcount ⊢
          split_ifs <;> omega
      | _ =>
          simp only [Pc.goesOn, Gauge.inBatch, readyGauge] at hcount ⊢
          omega
  | _ =>
      simp only [Pc.goesOn, Gauge.inBatch, readyGauge]
      omega

/-- **A ready callback comes to its turn.** As long as it has not and the loop goes on, it
keeps its place behind those that were before it; the loop thread has taken no more than a few
steps for each of these, for each timer and completion there was and for each that has been
added to a batch that is without it; and it can take the next, or will be woken to take it if
the callback is from another thread. -/
theorem ready_turn_comes {m : Main κ} (h : FreshReach m) (hm : m.underway = true) {k : ℕ}
    {e : ReadyEntry κ} (he : m.st.ready[k]? = some e) {x : Metered (Waiting κ)}
    (hx : WaitsFrom readyGauge (fun s => BatchPc.popsReady s) (fun _ _ => True) m k x) :
    x.state.main.st.ready[x.state.before]? = some e ∧
      x.work ≤ 3 * k + 3 * m.st.timers.length + 4 * m.st.io.length + 17 + x.charge ∧
      (e.threadsafe = true → x.state.main.Ready ∨ x.state.main.Woken) := by
  obtain ⟨⟨hreach, hunder, hplace⟩, hpaid⟩ := waits
    (fun s before => s.ready[before]? = some e) (fun _ => rfl)
    (fun _ _ _ _ _ hm hm' he _ hturn hs => place_step LoopState.ready ready_batchStep
      (fun _ _ hg => hg.ready) hm hm' he hturn hs)
    (fun _ _ _ hwf he hb hturn =>
      readyGauge_batchStep hwf hb (List.getElem?_eq_some_iff.mp he).1 hturn) h hm he hx
  have hbound := readyGauge_wait m k
  exact ⟨hplace, by omega,
    Main.goes_ready hreach.reach hunder (List.mem_of_getElem? hplace)⟩

/-- A loop that has two callbacks, in its first batch. -/
def twoCallbacks : Main Nat :=
  ⟨{ LoopState.new Nat 0 with
      ready := [⟨7, 0, false⟩, ⟨8, 1, true⟩], running := true, nextHandle := 2 },
    .batch (.ready 2), false, [1]⟩

theorem twoCallbacks_reach : FreshReach twoCallbacks :=
  (Runs.start ⟨0, rfl⟩ :
    FreshReach (⟨LoopState.new Nat 0, .idle, false, []⟩ : Main Nat)).of_replay
    [.op (.callSoon 7), .callSoonThreadsafe 1 8, .runForever, .run, .run, .run] (by decide +kernel)

/-- The first callback has been executed, and has set a timer, which is not before the second. -/
theorem ready_turn_comes_example : ∃ x : Metered (Waiting Nat),
    x.state.before = 0 ∧ x.work = 2 ∧ x.charge = 0 ∧
      x.state.main.st.ready[x.state.before]? = some ⟨8, 1, true⟩ ∧
      x.work ≤ 3 * 1 + 3 * 0 + 4 * 0 + 17 + x.charge ∧
      (x.state.main.Ready ∨ x.state.main.Woken) := by
  have hfrom : WaitsFrom readyGauge (fun s => BatchPc.popsReady s) (fun _ _ => True) twoCallbacks 1
      ⟨⟨twoCallbacks, 1⟩, 0, 0⟩ := .start rfl
  obtain ⟨x, hx, hgood⟩ := hfrom.exists_of_replay
    [.run, .op (.callAt (.fin 5) 9), .returns none]
    (fun x => x.state.before = 0 && (x.work = 2 && x.charge = 0)) (by decide +kernel)
  simp only [Bool.and_eq_true, decide_eq_true_eq] at hgood
  obtain ⟨hplace, hbound, hgoes⟩ := ready_turn_comes twoCallbacks_reach rfl rfl hx
  exact ⟨x, hgood.1, hgood.2.1, hgood.2.2, hplace, hbound, hgoes rfl⟩

/-! ### Completions -/

def BatchPc.popsIo (s : LoopState κ) : BatchPc → Bool
  | .io => !s.io.isEmpty
  | _ => false

theorem io_batchStep (s : LoopState κ) (b : BatchPc) :
    (batchStep s b).state.io = if b.popsIo s then s.io.tail else s.io := by
  match b with
  | .ready (n + 1) => cases h : s.ready <;> simp [batchStep, BatchPc.popsIo, h]
  | .timers now =>
      simp only [batchStep]
      split
      · split <;> rfl
      · rfl
  | .io =>
      cases h : s.io with
      | nil => simp [batchStep, BatchPc.popsIo, h]
      | cons c rest => cases c <;> simp [batchStep, BatchPc.popsIo, h]
  | .begin | .ready 0 | .sample | .release slot | .finished => rfl

/-- Every batch goes on until it has come to the completion. -/
def ioGauge : Gauge κ where
  counts := BatchPc.mayRun
  steps ready timers _ before b :=
    match b with
    | .begin => 3 * ready + 3 * timers + 4 * before + 5
    | .ready n => 3 * n + 3 * timers + 4 * before + 4
    | .sample => 3 * timers + 4 * before + 3
    | .timers _ => 3 * timers + 4 * before + 2
    | .io => 4 * before + 1
    | .release _ => 4 * before + 2
    | .finished => 9 + (3 * ready + 3 * timers + 4 * before + 5)
  perReady _ b :=
    match b with
    | .begin | .finished => 3
    | _ => 0
  perTimer _ b :=
    match b with
    | .io | .release _ => 0
    | _ => 3
  perIo _ _ := 0
  again := rfl
  finished _ _ _ _ := by
    dsimp only
    omega
  ready _ _ _ _ b := by
    cases b with
    | _ =>
        dsimp only
        omega
  timers _ _ _ _ b := by
    cases b with
    | _ =>
        dsimp only
        omega
  io _ _ _ _ _ := Nat.le_refl _

theorem ioGauge_batchStep {s : LoopState κ} (hwf : s.Wf) {b : BatchPc} {before : ℕ}
    (hb : b ≠ .finished) (hio : before < s.io.length) (hturn : b.popsIo s = true → before ≠ 0) :
    ioGauge.inBatch (batchStep s b).state (if b.popsIo s then before - 1 else before)
        (batchStep s b).pc + (if (batchStep s b).invoke.isSome then 2 else 0) + 1 ≤
      ioGauge.inBatch s before b := by
  match b with
  | .begin | .ready 0 | .release slot =>
      simp [BatchPc.popsIo, batchStep, Gauge.inBatch, ioGauge, BatchPc.mayRun]
  | .ready (n + 1) =>
      cases hready : s.ready with
      | nil => simp [BatchPc.popsIo, batchStep, hready, Gauge.inBatch, ioGauge, BatchPc.mayRun]
      | cons e rest =>
          simp only [BatchPc.popsIo, batchStep, hready, Gauge.inBatch, ioGauge, BatchPc.mayRun]
          split_ifs <;> omega
  | .sample =>
      have hcount := countP_mayRun_le s (.timers s.clock)
      simp only [BatchPc.popsIo, batchStep, Gauge.inBatch, ioGauge, Option.isSome_none,
        Bool.false_eq_true, if_false]
      omega
  | .timers now =>
      cases hpeek : s.peek with
      | none => simp [batchStep, hpeek, BatchPc.popsIo, Gauge.inBatch, ioGauge]
      | some top =>
          by_cases hdue : top.due now = true
          · have hcount := popTimer_countP hwf hpeek (BatchPc.mayRun (.timers now))
            simp only [BatchPc.mayRun, hdue, if_true] at hcount
            simp only [batchStep, hpeek, hdue, if_true, BatchPc.popsIo, Gauge.inBatch, ioGauge,
              BatchPc.mayRun]
            split_ifs <;> omega
          · simp [batchStep, hpeek, hdue, BatchPc.popsIo, Gauge.inBatch, ioGauge]
  | .io =>
      cases hitems : s.io with
      | nil => simp [hitems] at hio
      | cons item rest =>
          obtain ⟨j, rfl⟩ := Nat.exists_eq_succ_of_ne_zero
            (hturn (by simp [BatchPc.popsIo, hitems]))
          cases item with
          | callback slot cb =>
              simp only [batchStep, hitems, BatchPc.popsIo, Gauge.inBatch, ioGauge,
                List.isEmpty_cons, Bool.not_false, if_true]
              split_ifs <;> omega
          | data slot drain d =>
              simp only [batchStep, hitems, BatchPc.popsIo, Gauge.inBatch, ioGauge,
                List.isEmpty_cons, Bool.not_false, Option.isSome_some, if_true]
              omega

theorem ioGauge_wait {m : Main κ} (hleft : ∀ n, m.pc.readyLeft = some n → n ≤ m.st.ready.length)
    (before : ℕ) :
    ioGauge.wait m before ≤
      3 * m.st.ready.length + 3 * m.st.timers.length + 4 * before + 16 := by
  have hcount : m.st.timers.countP m.pc.goesOn.1.mayRun ≤ m.st.timers.length :=
    List.countP_le_length
  unfold Gauge.wait
  cases hpc : m.pc with
  | batch b | calling inv b | reporting e b =>
      rw [hpc] at hcount hleft
      cases b with
      | ready n =>
          have hn := hleft n rfl
          simp only [Pc.goesOn, Gauge.inBatch, ioGauge] at hcount ⊢
          omega
      | _ =>
          simp only [Pc.goesOn, Gauge.inBatch, ioGauge] at hcount ⊢
          omega
  | _ =>
      rw [hpc] at hcount
      simp only [Pc.goesOn, Gauge.inBatch, ioGauge] at hcount ⊢
      omega

/-- **A completion comes to its turn.** As long as it has not and the loop goes on, it keeps
its place; the loop thread has taken no more than a few steps for each completion before it,
for each ready callback and timer there was, for each callback pushed before the next batch
has begun and for each timer added until its batch is done with the timers, if the batch may
execute it; and the loop thread can take the next step or will be woken to take it. -/
theorem io_turn_comes {m : Main κ} (h : FreshReach m) (hm : m.underway = true) {j : ℕ}
    {c : IoCompletion κ} (hc : m.st.io[j]? = some c) {x : Metered (Waiting κ)}
    (hx : WaitsFrom ioGauge (fun s => BatchPc.popsIo s) (fun _ _ => True) m j x) :
    x.state.main.st.io[x.state.before]? = some c ∧
      x.work ≤ 3 * m.st.ready.length + 3 * m.st.timers.length + 4 * j + 16 + x.charge ∧
      (x.state.main.Ready ∨ x.state.main.Woken) := by
  obtain ⟨⟨hreach, hunder, hplace⟩, hpaid⟩ := waits
    (fun s before => s.io[before]? = some c) (fun _ => rfl)
    (fun _ _ _ _ _ hm hm' hc _ hturn hs => place_step LoopState.io io_batchStep
      (fun _ _ hg => hg.io) hm hm' hc hturn hs)
    (fun _ _ _ hwf hc hb hturn =>
      ioGauge_batchStep hwf hb (List.getElem?_eq_some_iff.mp hc).1 hturn) h hm hc hx
  have hbound := ioGauge_wait (fun n => h.readyLeft_le (Main.open_of_underway hm)) j
  exact ⟨hplace, by omega, Main.goes_io hreach.reach hunder (List.mem_of_getElem? hplace)⟩

/-- A loop with a callback that is executing, and a completion. -/
def callbackAndData : Main Nat :=
  ⟨{ LoopState.new Nat 0 with
      io := [.data 4 9 (.tcpChunk [1])], running := true, nextHandle := 1 },
    .calling (.ready ⟨7, 0, false⟩) (.ready 0), false, [1]⟩

theorem callbackAndData_reach : FreshReach callbackAndData :=
  (Runs.start ⟨0, rfl⟩ :
    FreshReach (⟨LoopState.new Nat 0, .idle, false, []⟩ : Main Nat)).of_replay
    [.op (.callSoon 7), .runForever, .run, .run, .run, .run, .pushIo 1 (.data 4 9 (.tcpChunk [1]))]
    (by decide +kernel)

/-- The callback has pushed itself again and has set a timer that is due in the batch. -/
theorem io_turn_comes_example : ∃ x : Metered (Waiting Nat),
    x.state.main.pc = .batch .io ∧ x.work = 6 ∧ x.charge = 3 ∧
      x.state.main.st.io[x.state.before]? = some (.data 4 9 (.tcpChunk [1])) ∧
      x.work ≤ 3 * 0 + 3 * 0 + 4 * 0 + 16 + x.charge ∧
      (x.state.main.Ready ∨ x.state.main.Woken) := by
  have hfrom : WaitsFrom ioGauge (fun s => BatchPc.popsIo s) (fun _ _ => True) callbackAndData 0
      ⟨⟨callbackAndData, 0⟩, 0, 0⟩ := .start rfl
  obtain ⟨x, hx, hgood⟩ := hfrom.exists_of_replay
    [.op (.callSoon 7), .op (.callLater (.fin 0) 8), .returns none, .run, .run, .run, .returns none,
      .run]
    (fun x => x.state.main.pc = .batch .io && (x.work = 6 && x.charge = 3)) (by decide +kernel)
  simp only [Bool.and_eq_true, decide_eq_true_eq] at hgood
  obtain ⟨hplace, hbound, hgoes⟩ := io_turn_comes callbackAndData_reach rfl rfl hx
  exact ⟨x, hgood.1, hgood.2.1, hgood.2.2, hplace, hbound, hgoes⟩

end Tokioop.Loop
