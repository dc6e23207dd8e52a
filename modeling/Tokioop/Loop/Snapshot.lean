import Tokioop.Loop.BatchRun

/-!
Which work a batch runs, and whether it ends.

The ready phase works on a snapshot: its length is taken before the first
callback runs. The timer phase has no such bound. It pops whatever is due at
the sampled time, timers included that the callbacks of this very batch have
put there. The reference batch of this file is the documented one, in which
work scheduled mid-batch runs in the next iteration: it does all that the
batch does, except that a live timer younger than the batch is set aside
instead of executed. It always ends, and the code agrees with it exactly as
long as it has nothing to set aside.
-/

namespace Tokioop.Loop

variable {κ : Type}

/-- The invocation is of work scheduled before handle `h₀` was given out;
completions are not scheduled by callbacks. -/
def Invocation.old (h₀ : Handle) : Invocation κ → Prop
  | .ready e => e.handle < h₀
  | .timer t => t.entry.handle < h₀
  | .io _ _ | .data _ _ _ => True

/-- The batch ends, and every ready callback and timer it executes had been
scheduled before it began. -/
def BatchRun.RunsOldWork (beh : Behaviour κ) (s : LoopState κ) : Prop :=
  (∃ n, ((BatchRun.next beh)^[n] (.start s)).pc = .finished) ∧
    ∀ n, ∀ inv ∈ ((BatchRun.next beh)^[n] (.start s)).calls, inv.old s.nextHandle

/-! ### The reference batch -/

structure DeferRun (κ : Type) where
  run : BatchRun κ
  deferred : List (TimerEntry κ)

namespace DeferRun

def start (s : LoopState κ) : DeferRun κ := ⟨.start s, []⟩

/-- One step of the reference batch for work older than `h₀`. -/
def next (beh : Behaviour κ) (h₀ : Handle) (r : DeferRun κ) : DeferRun κ :=
  match (batchStep r.run.st r.run.pc).invoke with
  | some (.timer t) =>
      if t.entry.handle < h₀ then ⟨r.run.next beh, r.deferred⟩
      else ⟨r.run.quiet, r.deferred ++ [t]⟩
  | _ => ⟨r.run.next beh, r.deferred⟩

/-- The reference batch has nothing to set aside: no callback of the batch
schedules a timer that is due at the time sampled for the timer phase and
still live when it comes up. -/
def DefersNothing (beh : Behaviour κ) (s : LoopState κ) : Prop :=
  ∀ n, ((next beh s.nextHandle)^[n] (start s)).deferred = []

end DeferRun

/-! ### The invariant of a batch -/

/-- What is left of the ready snapshot is old work and all there. -/
def BatchRun.SnapshotOld (h₀ : Handle) (r : BatchRun κ) : Prop :=
  match r.pc with
  | .begin => ∀ e ∈ r.st.ready, e.handle < h₀
  | .ready n => n ≤ r.st.ready.length ∧ ∀ e ∈ r.st.ready.take n, e.handle < h₀
  | _ => True

structure BatchRun.Ok (h₀ : Handle) (r : BatchRun κ) : Prop where
  wf : r.st.Wf
  running : r.st.running = true
  handles : h₀ ≤ r.st.nextHandle
  snapshot : r.SnapshotOld h₀
  calls : ∀ inv ∈ r.calls, inv.old h₀

namespace BatchRun

theorem ok_start {s : LoopState κ} (hw : s.Wf) (hr : s.running = true) :
    (start s).Ok s.nextHandle :=
  ⟨hw, hr, le_rfl, hw.ready, fun _ hinv => absurd hinv (by simp [start])⟩

theorem snapshotOld_quiet {h₀ : Handle} {r : BatchRun κ} (h : r.SnapshotOld h₀) :
    r.quiet.SnapshotOld h₀ := by
  obtain ⟨s, pc, calls⟩ := r
  cases pc with
  | begin => exact ⟨le_rfl, fun e he => h e (List.mem_of_mem_take he)⟩
  | ready n =>
      cases n with
      | zero => trivial
      | succ n =>
          obtain ⟨hlen, hold⟩ := h
          simp only [quiet, batchStep]
          split
          · trivial
          · rename_i e rest hready
            simp only [hready, List.length_cons, List.take_succ_cons] at hlen hold
            refine ⟨by simpa using hlen, fun e' he' => hold e' ?_⟩
            exact List.mem_cons_of_mem _ he'
  | timers now =>
      simp only [quiet, batchStep]
      split
      · split <;> trivial
      · trivial
  | io =>
      simp only [quiet, batchStep]
      split <;> trivial
  | sample | release slot | finished => trivial

theorem ok_quiet {h₀ : Handle} {r : BatchRun κ} (h : r.Ok h₀) : r.quiet.Ok h₀ := by
  have ht := batchStep_taken r.st r.pc
  refine ⟨h.wf.taken ht, ht.flags.1.trans h.running, ?_, snapshotOld_quiet h.snapshot, h.calls⟩
  exact h.handles.trans (le_of_eq ht.handles.1.symm)

theorem snapshotOld_grew {h₀ : Handle} {s s' : LoopState κ} {pc : BatchPc}
    {calls calls' : List (Invocation κ)} (hpc : pc ≠ .begin) (hgrew : s.Grew s')
    (h : SnapshotOld h₀ ⟨s, pc, calls⟩) : SnapshotOld h₀ ⟨s', pc, calls'⟩ := by
  obtain ⟨new, hready⟩ := hgrew.ready
  cases pc with
  | begin => exact absurd rfl hpc
  | ready n =>
      obtain ⟨hlen, hold⟩ := h
      change n ≤ s.ready.length at hlen
      refine ⟨?_, fun e he => hold e ?_⟩
      · change n ≤ s'.ready.length
        rw [hready, List.length_append]
        omega
      · change e ∈ s'.ready.take n at he
        rwa [hready, List.take_append_of_le_length hlen] at he
  | _ => trivial

theorem ok_invoke {h₀ : Handle} {r : BatchRun κ} {beh : Behaviour κ} {inv : Invocation κ}
    (h : r.Ok h₀) (hpc : r.pc ≠ .begin) (hold : inv.old h₀) : (r.invoke beh inv).Ok h₀ := by
  obtain ⟨hw, hgrew⟩ := react_spec (beh r.calls.length inv) h.wf h.running
  refine ⟨hw, hgrew.running.trans h.running, h.handles.trans hgrew.handles,
    snapshotOld_grew hpc hgrew h.snapshot, fun i hi => ?_⟩
  rcases List.mem_append.mp hi with hmem | hmem
  · exact h.calls i hmem
  · rw [List.mem_singleton.mp hmem]
    exact hold

/-- What the batch takes from the snapshot is old. -/
theorem old_of_invoke {h₀ : Handle} {r : BatchRun κ} {inv : Invocation κ} (h : r.Ok h₀)
    (hinv : (batchStep r.st r.pc).invoke = some inv)
    (htimer : ∀ t, inv = .timer t → t.entry.handle < h₀) : inv.old h₀ := by
  cases inv with
  | timer t => exact htimer t rfl
  | io slot cb => trivial
  | data slot drain d => trivial
  | ready e =>
      obtain ⟨n, rest, hpc, hready⟩ := batchStep_invoke_ready hinv
      have hsnap := h.snapshot
      simp only [SnapshotOld, hpc] at hsnap
      exact hsnap.2 e (by simp [hready])

end BatchRun

namespace DeferRun

variable (beh : Behaviour κ) {h₀ : Handle}

/-- A step of the reference batch is a step of the batch, except when it sets
a young timer aside. -/
theorem next_cases (h₀ : Handle) (r : DeferRun κ) :
    (next beh h₀ r = ⟨r.run.next beh, r.deferred⟩ ∧
      ∀ t, (batchStep r.run.st r.run.pc).invoke = some (.timer t) → t.entry.handle < h₀) ∨
    ∃ t, (batchStep r.run.st r.run.pc).invoke = some (.timer t) ∧ h₀ ≤ t.entry.handle ∧
      next beh h₀ r = ⟨r.run.quiet, r.deferred ++ [t]⟩ := by
  unfold next
  split
  · rename_i t hinv
    split
    · rename_i hlt
      refine .inl ⟨rfl, fun t' ht' => ?_⟩
      rw [hinv, Option.some.injEq, Invocation.timer.injEq] at ht'
      exact ht' ▸ hlt
    · rename_i hge
      exact .inr ⟨t, hinv, not_lt.mp hge, rfl⟩
  · rename_i hne
    exact .inl ⟨rfl, fun t ht => absurd ht (hne t)⟩

/-- What a step of the batch does when it executes no young timer. -/
theorem ok_next_run {r : BatchRun κ} (h : r.Ok h₀)
    (htimer : ∀ t, (batchStep r.st r.pc).invoke = some (.timer t) → t.entry.handle < h₀) :
    (r.next beh).Ok h₀ := by
  unfold BatchRun.next
  split
  · exact BatchRun.ok_quiet h
  · rename_i inv hinv
    refine BatchRun.ok_invoke (BatchRun.ok_quiet h) (batchStep_pc_ne_begin _ _) ?_
    exact BatchRun.old_of_invoke h hinv fun t ht => htimer t (ht ▸ hinv)

theorem ok_next {r : DeferRun κ} (h : r.run.Ok h₀) : (next beh h₀ r).run.Ok h₀ := by
  rcases next_cases beh h₀ r with ⟨heq, htimer⟩ | ⟨t, _, _, heq⟩
  · rw [heq]
    exact ok_next_run beh h htimer
  · rw [heq]
    exact BatchRun.ok_quiet h

end DeferRun

/-! ### The reference batch ends -/

def LoopState.oldTimers (h₀ : Handle) (s : LoopState κ) : Nat :=
  s.timers.countP fun t => decide (t.entry.handle < h₀)

theorem LoopState.Grew.oldTimers {h₀ : Handle} {s s' : LoopState κ} (hg : s.Grew s')
    (hh : h₀ ≤ s.nextHandle) : s'.oldTimers h₀ = s.oldTimers h₀ := by
  obtain ⟨new, htimers, hfresh⟩ := hg.timers
  have hnone : new.countP (fun t => decide (t.entry.handle < h₀)) = 0 := by
    rw [List.countP_eq_zero]
    intro t ht
    rw [decide_eq_true_eq, not_lt]
    exact hh.trans (hfresh t ht)
  unfold LoopState.oldTimers
  rw [htimers, List.countP_append, hnone, Nat.zero_add]

theorem LoopState.popTimer_oldTimers_le {h₀ : Handle} (s : LoopState κ) (top : TimerEntry κ) :
    (s.popTimer top).oldTimers h₀ ≤ s.oldTimers h₀ :=
  List.eraseP_sublist.countP_le

theorem LoopState.popTimer_oldTimers_lt {h₀ : Handle} {s : LoopState κ} {top : TimerEntry κ}
    (hw : s.Wf) (hpeek : s.peek = some top) (hold : top.entry.handle < h₀) :
    (s.popTimer top).oldTimers h₀ < s.oldTimers h₀ := by
  have hcount := (popTimer_perm hw hpeek).countP_eq fun t => decide (t.entry.handle < h₀)
  rw [List.countP_cons_of_pos (by simpa using hold)] at hcount
  unfold oldTimers
  omega

/-- What a batch still has to do: its phase, then what is left of the phase. -/
def BatchRun.rank (h₀ : Handle) (r : BatchRun κ) : ℕ × ℕ × ℕ :=
  match r.pc with
  | .begin => (5, 0, 0)
  | .ready n => (4, n, 0)
  | .sample => (3, 0, 0)
  | .timers _ => (2, r.st.oldTimers h₀, r.st.timers.length)
  | .io => (1, 2 * r.st.io.length, 0)
  | .release _ => (1, 2 * r.st.io.length + 1, 0)
  | .finished => (0, 0, 0)

def BatchRun.Closer (h₀ : Handle) (r r' : BatchRun κ) : Prop :=
  Prod.Lex (· < ·) (Prod.Lex (· < ·) (· < ·)) (r.rank h₀) (r'.rank h₀)

namespace BatchRun

variable {h₀ : Handle}

theorem closer_quiet {r : BatchRun κ} (hpc : r.pc ≠ .finished) : r.quiet.Closer h₀ r := by
  obtain ⟨s, pc, calls⟩ := r
  cases pc with
  | begin => exact Prod.Lex.left _ _ (by decide)
  | ready n =>
      cases n with
      | zero => exact Prod.Lex.left _ _ (by decide)
      | succ n =>
          simp only [Closer, quiet, batchStep]
          split
          · exact Prod.Lex.left _ _ (by decide)
          · exact Prod.Lex.right _ (Prod.Lex.left _ _ (Nat.lt_succ_self n))
  | sample => exact Prod.Lex.left _ _ (by decide)
  | timers now =>
      simp only [Closer, quiet, batchStep]
      split
      · rename_i top hpeek
        split
        · -- The heap is smaller, and holds no more old timers than before.
          have hlen := LoopState.popTimer_length hpeek
          refine Prod.Lex.right _ (Prod.Lex.right' _ (s.popTimer_oldTimers_le top) ?_)
          change (s.popTimer top).timers.length < s.timers.length
          omega
        · exact Prod.Lex.left _ _ (by decide)
      · exact Prod.Lex.left _ _ (by decide)
  | io =>
      simp only [Closer, quiet, batchStep]
      split
      · exact Prod.Lex.left _ _ (by decide)
      · rename_i slot cb rest hio
        refine Prod.Lex.right _ (Prod.Lex.left _ _ ?_)
        simp only [hio, List.length_cons]
        omega
      · rename_i slot drain d rest hio
        refine Prod.Lex.right _ (Prod.Lex.left _ _ ?_)
        simp only [hio, List.length_cons]
        omega
  | release slot => exact Prod.Lex.right _ (Prod.Lex.left _ _ (Nat.lt_succ_self _))
  | finished => exact absurd rfl hpc

/-- Outside the timer phase a callback changes nothing the rank looks at. -/
theorem rank_invoke {r : BatchRun κ} {beh : Behaviour κ} {inv : Invocation κ} (h : r.Ok h₀)
    (hpc : ∀ now, r.pc ≠ .timers now) : (r.invoke beh inv).rank h₀ = r.rank h₀ := by
  obtain ⟨_, hgrew⟩ := react_spec (beh r.calls.length inv) h.wf h.running
  cases hp : r.pc with
  | timers now => exact absurd hp (hpc now)
  | io => simp only [rank, invoke, hp, hgrew.io]
  | release slot => simp only [rank, invoke, hp, hgrew.io]
  | _ => simp only [rank, invoke, hp]

/-- Only the timer phase invokes timers, and it invokes nothing else. -/
theorem quiet_not_timers {r : BatchRun κ} {inv : Invocation κ}
    (hinv : (batchStep r.st r.pc).invoke = some inv) (hne : ∀ t, inv ≠ .timer t) :
    ∀ now, r.quiet.pc ≠ .timers now := by
  obtain ⟨s, pc, calls⟩ := r
  intro now'
  cases pc with
  | timers now =>
      simp only [batchStep] at hinv
      split at hinv
      · split at hinv
        · split at hinv
          · simp at hinv
          · exact absurd (Option.some.inj hinv).symm (hne _)
        · simp at hinv
      · simp at hinv
  | ready n =>
      cases n with
      | zero => simp [batchStep] at hinv
      | succ n =>
          simp only [quiet, batchStep]
          split <;> simp
  | io =>
      simp only [quiet, batchStep]
      split <;> simp
  | begin | sample | release slot | finished => simp [batchStep] at hinv

/-- Executing an old timer leaves one old timer less, whatever it schedules. -/
theorem closer_timer {r : BatchRun κ} {beh : Behaviour κ} {t : TimerEntry κ} (h : r.Ok h₀)
    (hinv : (batchStep r.st r.pc).invoke = some (.timer t)) (hold : t.entry.handle < h₀) :
    (r.quiet.invoke beh (.timer t)).Closer h₀ r := by
  have hq := ok_quiet h
  obtain ⟨_, hgrew⟩ := react_spec (beh r.quiet.calls.length (.timer t)) hq.wf hq.running
  obtain ⟨now, hpc, hpeek, hdue, _⟩ := batchStep_invoke_timer hinv
  have hstep : r.quiet.st = r.st.popTimer t ∧ r.quiet.pc = .timers now := by
    simp [quiet, batchStep, hpc, hpeek, hdue]
  have hcount : (r.quiet.invoke beh (.timer t)).st.oldTimers h₀ < r.st.oldTimers h₀ := by
    calc (r.quiet.invoke beh (.timer t)).st.oldTimers h₀
        = r.quiet.st.oldTimers h₀ := hgrew.oldTimers hq.handles
      _ = (r.st.popTimer t).oldTimers h₀ := by rw [hstep.1]
      _ < r.st.oldTimers h₀ := LoopState.popTimer_oldTimers_lt h.wf hpeek hold
  have hpc' : (r.quiet.invoke beh (.timer t)).pc = .timers now := hstep.2
  simp only [Closer, rank, hpc, hpc']
  exact Prod.Lex.right _ (Prod.Lex.left _ _ hcount)

theorem closer_next {r : BatchRun κ} {beh : Behaviour κ} (h : r.Ok h₀) (hpc : r.pc ≠ .finished)
    (htimer : ∀ t, (batchStep r.st r.pc).invoke = some (.timer t) → t.entry.handle < h₀) :
    (r.next beh).Closer h₀ r := by
  unfold next
  split
  · exact closer_quiet hpc
  · rename_i inv hinv
    by_cases ht : ∃ t, inv = .timer t
    · obtain ⟨t, rfl⟩ := ht
      exact closer_timer h hinv (htimer t hinv)
    · have hne : ∀ t, inv ≠ .timer t := fun t heq => ht ⟨t, heq⟩
      unfold Closer
      rw [rank_invoke (ok_quiet h) (quiet_not_timers hinv hne)]
      exact closer_quiet hpc

end BatchRun

namespace DeferRun

variable (beh : Behaviour κ) {h₀ : Handle}

theorem closer_next {r : DeferRun κ} (h : r.run.Ok h₀) (hpc : r.run.pc ≠ .finished) :
    (next beh h₀ r).run.Closer h₀ r.run := by
  rcases next_cases beh h₀ r with ⟨heq, htimer⟩ | ⟨t, _, _, heq⟩
  · rw [heq]
    exact BatchRun.closer_next h hpc htimer
  · rw [heq]
    exact BatchRun.closer_quiet hpc

theorem finishes {r : DeferRun κ} (h : r.run.Ok h₀) :
    ∃ n, ((next beh h₀)^[n] r).run.pc = .finished := by
  by_cases hpc : r.run.pc = .finished
  · exact ⟨0, hpc⟩
  · obtain ⟨n, hn⟩ := finishes (ok_next beh h)
    exact ⟨n + 1, hn⟩
termination_by r.run.rank h₀
decreasing_by exact closer_next beh h hpc

theorem ok_iterate {r : DeferRun κ} (h : r.run.Ok h₀) (n : Nat) :
    ((next beh h₀)^[n] r).run.Ok h₀ := by
  induction n with
  | zero => exact h
  | succ n ih =>
      rw [Function.iterate_succ_apply']
      exact ok_next beh ih

/-! ### The code against the reference -/

/-- As long as nothing has been set aside, the two batches are in step. -/
theorem run_eq {s : LoopState κ} {n : Nat}
    (h : ∀ k ≤ n, ((next beh h₀)^[k] (start s)).deferred = []) :
    ((next beh h₀)^[n] (start s)).run = (BatchRun.next beh)^[n] (.start s) := by
  induction n with
  | zero => rfl
  | succ n ih =>
      have hn := ih fun k hk => h k (Nat.le_succ_of_le hk)
      rw [Function.iterate_succ_apply', Function.iterate_succ_apply', ← hn]
      have hlast := h (n + 1) le_rfl
      rw [Function.iterate_succ_apply'] at hlast
      rcases next_cases beh h₀ ((next beh h₀)^[n] (start s)) with
        ⟨heq, _⟩ | ⟨t, _, _, heq⟩
      · rw [heq]
      · rw [heq] at hlast
        simp at hlast

/-- If the batch executes old work only, there is nothing to set aside. -/
theorem deferred_eq_nil {s : LoopState κ}
    (hold : ∀ n, ∀ inv ∈ ((BatchRun.next beh)^[n] (.start s)).calls, inv.old h₀) (n : Nat) :
    ∀ k ≤ n, ((next beh h₀)^[k] (start s)).deferred = [] := by
  induction n with
  | zero =>
      intro k hk
      obtain rfl : k = 0 := Nat.le_zero.mp hk
      rfl
  | succ n ih =>
      intro k hk
      rcases Nat.le_succ_iff.mp hk with hle | rfl
      · exact ih k hle
      · have hrun := run_eq beh ih
        rw [Function.iterate_succ_apply']
        rcases next_cases beh h₀ ((next beh h₀)^[n] (start s)) with
          ⟨heq, _⟩ | ⟨t, hinv, hyoung, heq⟩
        · rw [heq]
          exact ih n le_rfl
        · -- The batch would execute the young timer.
          rw [hrun] at hinv
          have hcalls : Invocation.timer t ∈
              ((BatchRun.next beh)^[n + 1] (.start s)).calls := by
            rw [Function.iterate_succ_apply', BatchRun.next, hinv]
            exact List.mem_append_right _ (List.mem_singleton_self _)
          have hlt : t.entry.handle < h₀ := hold (n + 1) _ hcalls
          exact absurd hlt (not_lt.mpr hyoung)

end DeferRun

/-- A batch with nothing to set aside ends, and all it has executed is old. -/
theorem BatchRun.runsOldWork_of_defersNothing (beh : Behaviour κ) {s : LoopState κ} (hw : s.Wf)
    (hr : s.running = true) (h : DeferRun.DefersNothing beh s) : BatchRun.RunsOldWork beh s := by
  have hok : (DeferRun.start s).run.Ok s.nextHandle := BatchRun.ok_start hw hr
  have hrun (n : Nat) := DeferRun.run_eq beh (n := n) fun k _ => h k
  refine ⟨?_, fun n inv hinv => ?_⟩
  · obtain ⟨n, hn⟩ := DeferRun.finishes beh hok
    exact ⟨n, hrun n ▸ hn⟩
  · rw [← hrun n] at hinv
    exact (DeferRun.ok_iterate beh hok n).calls inv hinv

/-- **When a batch is finite and runs only old work.** For every well-formed
state of a running loop and every behaviour of the callbacks, the batch ends
and executes only work scheduled before it began if and only if the
documented batch, which leaves the timers scheduled mid-batch to the next
iteration, has no due timer to leave. -/
theorem batch_runs_old_work_iff (beh : Behaviour κ) {s : LoopState κ} (hw : s.Wf)
    (hr : s.running = true) :
    BatchRun.RunsOldWork beh s ↔ DeferRun.DefersNothing beh s := by
  constructor
  · rintro ⟨_, hold⟩ n
    exact DeferRun.deferred_eq_nil beh hold n n le_rfl
  · intro hnothing
    exact BatchRun.runsOldWork_of_defersNothing beh hw hr hnothing

/-- The hypotheses hold wherever the loop begins a batch. -/
theorem wf_of_batch_begin {m : Main κ} (h : Kit.Runs Main.step (fun _ _ => True) Main.Fresh m)
    (hpc : m.pc = .batch .begin) : m.st.Wf ∧ m.st.running = true :=
  ⟨wf_of_reach h, running_of_reach h (by rw [hpc]; rfl)⟩

/-! ### Callbacks that plan ahead

A condition on what the callbacks do that needs no batch to be run: their
timers come due after the time that the ready phase takes at most.
-/

def Effect.duration : Effect κ → ℚ≥0
  | .elapse d => d
  | .op _ | .callSoonThreadsafe _ | .stop => 0

/-- A timer that the effect sets from `start` on is not due at `horizon`. -/
def Effect.SetsAfter (start horizon : ℚ) : Effect κ → Prop
  | .op (.callAt when _) => when.le (.fin horizon) = false
  | .op (.callLater delay _) =>
      ∀ clock, start ≤ clock → ((F64.fin clock).add delay).le (.fin horizon) = false
  | _ => True

/-- A ready callback takes `d` at most, and no callback of a batch that begins
in `s` sets a timer for the time until the ready phase must be over. -/
structure Behaviour.PlansAhead (beh : Behaviour κ) (s : LoopState κ) (d : ℚ≥0) : Prop where
  takes : ∀ k e, ((beh k (.ready e)).map Effect.duration).sum ≤ d
  sets : ∀ k inv, ∀ e ∈ beh k inv, e.SetsAfter s.clock (s.clock + s.ready.length * d)

/-- The time of the timer phase is sampled by `horizon` if every ready
callback that is left takes `d` at most. -/
def BatchRun.SampledBy (horizon : ℚ) (d : ℚ≥0) (r : BatchRun κ) : Prop :=
  match r.pc with
  | .begin => r.st.clock + r.st.ready.length * d ≤ horizon
  | .ready n => r.st.clock + n * d ≤ horizon
  | .sample => r.st.clock ≤ horizon
  | .timers now => now ≤ horizon
  | .io | .release _ | .finished => True

/-- No timer set since the batch began is due by the time that it samples. -/
structure BatchRun.Ahead (h₀ : Handle) (start horizon : ℚ) (d : ℚ≥0) (r : BatchRun κ) :
    Prop where
  clock : start ≤ r.st.clock
  timers : ∀ t ∈ r.st.timers, h₀ ≤ t.entry.handle → t.due horizon = false
  sampled : r.SampledBy horizon d

theorem Effect.clock_apply (s : LoopState κ) (e : Effect κ) :
    (e.apply s).clock = s.clock + e.duration := by
  cases e with
  | elapse d => rfl
  | stop => exact (add_zero _).symm
  | callSoonThreadsafe cb =>
      rw [apply_callSoonThreadsafe]
      split <;> exact (add_zero _).symm
  | op o =>
      refine Eq.trans ?_ (add_zero _).symm
      exact (Op.called s o).clock

theorem Effect.timers_apply {start horizon : ℚ} {s : LoopState κ} (hclock : start ≤ s.clock)
    {e : Effect κ} (h : e.SetsAfter start horizon) :
    ∀ t ∈ (e.apply s).timers, t ∈ s.timers ∨ t.due horizon = false := by
  have hpush (when : F64) (cb : κ) (hwhen : when.le (.fin horizon) = false) :
      ∀ t ∈ ((Op.callAt when cb).apply s).timers, t ∈ s.timers ∨ t.due horizon = false := by
    intro t ht
    rw [Op.apply_callAt] at ht
    split at ht
    · exact .inl ht
    · rcases List.mem_cons.mp ht with rfl | hold
      · exact .inr hwhen
      · exact .inl hold
  intro t ht
  cases e with
  | elapse _ | stop => exact .inl ht
  | callSoonThreadsafe cb =>
      rw [apply_callSoonThreadsafe] at ht
      split at ht <;> exact .inl ht
  | op o =>
      cases o with
      | callAt when cb => exact hpush when cb h t ht
      | callLater delay cb => exact hpush _ cb (h s.clock hclock) t ht
      | callSoon cb =>
          change t ∈ ((Op.callSoon cb).apply s).timers at ht
          rw [Op.apply_callSoon] at ht
          split at ht <;> exact .inl ht
      | close =>
          change t ∈ (Op.close.apply s).timers at ht
          rw [Op.apply_close] at ht
          split at ht
          · exact .inl ht
          · exact absurd ht List.not_mem_nil
      | cancel _ | detach _ | watchers _ => exact .inl ht

/-- What a whole callback does to the clock and to the heap. -/
theorem react_ahead {start horizon : ℚ} (es : List (Effect κ)) {s : LoopState κ}
    (hclock : start ≤ s.clock) (h : ∀ e ∈ es, e.SetsAfter start horizon) :
    (es.foldl Effect.apply s).clock = s.clock + (es.map Effect.duration).sum ∧
      ∀ t ∈ (es.foldl Effect.apply s).timers, t ∈ s.timers ∨ t.due horizon = false := by
  induction es generalizing s with
  | nil => exact ⟨by simp, fun t ht => .inl ht⟩
  | cons e es ih =>
      have hstep : (e.apply s).clock = s.clock + e.duration := e.clock_apply s
      have hle : start ≤ (e.apply s).clock := by
        have hpos : (0 : ℚ) ≤ e.duration := e.duration.coe_nonneg
        linarith
      obtain ⟨hsum, htimers⟩ := ih hle fun e' he' => h e' (List.mem_cons_of_mem _ he')
      refine ⟨?_, fun t ht => ?_⟩
      · rw [List.foldl_cons, hsum, hstep, List.map_cons, List.sum_cons]
        push_cast
        ring
      · rcases htimers t ht with hmem | hnot
        · exact Effect.timers_apply hclock (h e List.mem_cons_self) t hmem
        · exact .inr hnot

namespace BatchRun

variable {h₀ : Handle} {start horizon : ℚ} {d : ℚ≥0} {r : BatchRun κ} {beh : Behaviour κ}

theorem sampledBy_quiet (h : r.SampledBy horizon d) : r.quiet.SampledBy horizon d := by
  obtain ⟨s, pc, calls⟩ := r
  have hpos : (0 : ℚ) ≤ d := d.coe_nonneg
  cases pc with
  | begin => exact h
  | ready n =>
      cases n with
      | zero => simpa [SampledBy, quiet, batchStep] using h
      | succ n =>
          simp only [SampledBy, Nat.cast_succ] at h
          simp only [quiet, batchStep]
          split
          · have hrest : (0 : ℚ) ≤ (n + 1) * d := by positivity
            change s.clock ≤ horizon
            linarith
          · change s.clock + n * d ≤ horizon
            linarith
  | sample => exact h
  | timers now =>
      simp only [quiet, batchStep]
      split
      · split
        · exact h
        · trivial
      · trivial
  | io =>
      simp only [quiet, batchStep]
      split <;> trivial
  | release slot | finished => trivial

/-- A ready callback takes its share of the time. -/
theorem sampledBy_invoke {inv : Invocation κ} (h : r.SampledBy horizon d)
    (hinv : (batchStep r.st r.pc).invoke = some inv)
    (htakes : ∀ k e, ((beh k (.ready e)).map Effect.duration).sum ≤ d)
    (hclock : (r.quiet.invoke beh inv).st.clock =
      r.quiet.st.clock + ((beh r.calls.length inv).map Effect.duration).sum) :
    (r.quiet.invoke beh inv).SampledBy horizon d := by
  cases inv with
  | ready e =>
      obtain ⟨n, rest, hpc, hready⟩ := batchStep_invoke_ready hinv
      have hquiet : r.quiet.st.clock = r.st.clock := (batchStep_taken _ _).clock
      have hpc' : (r.quiet.invoke beh (.ready e)).pc = .ready n := by
        simp [quiet, invoke, batchStep, hpc, hready]
      have htook : (((beh r.calls.length (.ready e)).map Effect.duration).sum : ℚ) ≤ d :=
        NNRat.cast_le.mpr (htakes _ e)
      simp only [SampledBy, hpc, Nat.cast_succ] at h
      simp only [SampledBy, hpc', hclock, hquiet]
      linarith
  | timer t =>
      obtain ⟨now, hpc, hpeek, hdue, _⟩ := batchStep_invoke_timer hinv
      have hpc' : (r.quiet.invoke beh (.timer t)).pc = .timers now := by
        simp [quiet, invoke, batchStep, hpc, hpeek, hdue]
      simp only [SampledBy, hpc] at h
      simp only [SampledBy, hpc']
      exact h
  | io slot cb | data slot drain data =>
      have hpc := batchStep_invoke_other hinv (fun _ h => by cases h) fun _ h => by cases h
      simp only [SampledBy, invoke, quiet, batchStep, hpc]
      split
      all_goals first
        | trivial
        | rename_i heq
          split at heq <;> cases heq

/-- The loop is ahead of its timers after every step of the batch. -/
theorem ahead_next {s : LoopState κ} (hplan : beh.PlansAhead s d)
    (h : r.Ahead h₀ s.clock (s.clock + s.ready.length * d) d) :
    (r.next beh).Ahead h₀ s.clock (s.clock + s.ready.length * d) d := by
  have htaken := batchStep_taken r.st r.pc
  have hclock : s.clock ≤ r.quiet.st.clock := h.clock.trans (le_of_eq htaken.clock.symm)
  have htimers : ∀ t ∈ r.quiet.st.timers, h₀ ≤ t.entry.handle →
      t.due (s.clock + s.ready.length * d) = false :=
    fun t ht => h.timers t (htaken.timers.subset ht)
  unfold next
  split
  · exact ⟨hclock, htimers, sampledBy_quiet h.sampled⟩
  · rename_i inv hinv
    obtain ⟨hsum, hset⟩ := react_ahead (beh r.calls.length inv) hclock (hplan.sets _ inv)
    refine ⟨?_, fun t ht hyoung => ?_, sampledBy_invoke h.sampled hinv hplan.takes hsum⟩
    · have hpos := ((beh r.calls.length inv).map Effect.duration).sum.coe_nonneg
      change s.clock ≤ ((beh r.calls.length inv).foldl Effect.apply r.quiet.st).clock
      rw [hsum]
      linarith
    · rcases hset t ht with hold | hnot
      · exact htimers t hold hyoung
      · exact hnot

/-- A batch that is ahead of its young timers executes none. -/
theorem Ahead.old (h : r.Ahead h₀ start horizon d) {t : TimerEntry κ}
    (hinv : (batchStep r.st r.pc).invoke = some (.timer t)) : t.entry.handle < h₀ := by
  obtain ⟨now, hpc, hpeek, hdue, _⟩ := batchStep_invoke_timer hinv
  have hsampled := h.sampled
  simp only [SampledBy, hpc] at hsampled
  refine not_le.mp fun hyoung => ?_
  have hnot := h.timers t (LoopState.peek_mem hpeek) hyoung
  rw [t.due_mono hsampled hdue] at hnot
  cases hnot

end BatchRun

/-- If no callback sets a timer for the time until the ready phase must be
over, the documented batch has nothing to set aside. -/
theorem DeferRun.defersNothing_of_plansAhead {beh : Behaviour κ} {s : LoopState κ} {d : ℚ≥0}
    (hw : s.Wf) (hplan : beh.PlansAhead s d) : DefersNothing beh s := by
  have hrun (n : Nat) : ((next beh s.nextHandle)^[n] (start s)).deferred = [] ∧
      ((next beh s.nextHandle)^[n] (start s)).run.Ahead s.nextHandle s.clock
        (s.clock + s.ready.length * d) d := by
    induction n with
    | zero =>
        refine ⟨rfl, le_rfl, fun t ht hyoung => ?_, le_rfl⟩
        exact absurd (hw.timers t ht) (not_lt.mpr hyoung)
    | succ n ih =>
        obtain ⟨hnone, hahead⟩ := ih
        rw [Function.iterate_succ_apply']
        rcases next_cases beh s.nextHandle ((next beh s.nextHandle)^[n] (start s)) with
          ⟨heq, _⟩ | ⟨t, hinv, hyoung, _⟩
        · rw [heq]
          exact ⟨hnone, BatchRun.ahead_next hplan hahead⟩
        · exact absurd (hahead.old hinv) (not_lt.mpr hyoung)
  exact fun n => (hrun n).1

def postpone : Behaviour Nat := fun _ _ => [.op (.callAt (.fin 2) 7)]

/-! ### A timer that reschedules itself in the past -/

def respawn : Behaviour Nat := fun _ _ => [.op (.callAt (.fin 0) 7)]

/-- A running loop at time 1 whose `k`-th timer is due. -/
def respawnState (k : Nat) : LoopState Nat :=
  { LoopState.new Nat 1 with
    timers := [⟨.fin 0, k, ⟨7, k, false⟩⟩], seq := k + 1, nextHandle := k + 1, running := true }

theorem respawnState_wf (k : Nat) : (respawnState k).Wf :=
  ⟨fun _ he => absurd he (by simp [respawnState, LoopState.new]),
    fun t ht => by simp [respawnState] at ht; simp [ht, respawnState],
    fun t ht => by simp [respawnState] at ht; simp [ht, respawnState], by simp [respawnState]⟩

theorem postpone_plansAhead : postpone.PlansAhead (respawnState 0) 0 := by
  refine ⟨fun k e => by simp [postpone, Effect.duration], fun k inv e he => ?_⟩
  rw [List.mem_singleton.mp he]
  simp [Effect.SetsAfter, respawnState, LoopState.new]

/-- A timer that reschedules itself: one second ahead the batch is as it
should be, in the past neither side holds. -/
theorem batch_runs_old_work_example :
    (respawnState 0).Wf ∧ (respawnState 0).running = true ∧
      (BatchRun.RunsOldWork respawn (respawnState 0) ↔
        DeferRun.DefersNothing respawn (respawnState 0)) ∧
      DeferRun.DefersNothing postpone (respawnState 0) ∧
      BatchRun.RunsOldWork postpone (respawnState 0) := by
  have hnothing : DeferRun.DefersNothing postpone (respawnState 0) :=
    DeferRun.defersNothing_of_plansAhead (respawnState_wf 0) postpone_plansAhead
  refine ⟨respawnState_wf 0, rfl, batch_runs_old_work_iff respawn (respawnState_wf 0) rfl,
    hnothing, ?_⟩
  exact (batch_runs_old_work_iff postpone (respawnState_wf 0) rfl).mpr hnothing

theorem next_respawn (k : Nat) (calls : List (Invocation Nat)) :
    ∃ calls', BatchRun.next respawn ⟨respawnState k, .timers 1, calls⟩ =
      ⟨respawnState (k + 1), .timers 1, calls'⟩ := by
  have hdue : (⟨.fin 0, k, ⟨7, k, false⟩⟩ : TimerEntry Nat).due 1 = true := by
    simp [TimerEntry.due]
  refine ⟨calls ++ [.timer ⟨.fin 0, k, ⟨7, k, false⟩⟩], ?_⟩
  simp [BatchRun.next, BatchRun.quiet, BatchRun.invoke, batchStep, LoopState.peek, respawnState,
    LoopState.new, LoopState.isCancelled, hdue, respawn, Effect.apply, Op.apply_callAt,
    LoopState.popTimer, LoopState.pushTimer]

theorem iterate_respawn (n : Nat) : ∃ calls,
    (BatchRun.next respawn)^[n] ⟨respawnState 0, .timers 1, []⟩ =
      ⟨respawnState n, .timers 1, calls⟩ := by
  induction n with
  | zero => exact ⟨[], rfl⟩
  | succ n ih =>
      obtain ⟨calls, hn⟩ := ih
      rw [Function.iterate_succ_apply', hn]
      exact next_respawn n calls

/-- The batch of a timer that reschedules itself in the past never ends, and
what it goes on executing was scheduled by the batch itself. -/
theorem batch_respawns_forever :
    (∀ n, ((BatchRun.next respawn)^[n] (.start (respawnState 0))).pc ≠ .finished) ∧
      ¬BatchRun.RunsOldWork respawn (respawnState 0) := by
  have hpc : ∀ n, ((BatchRun.next respawn)^[n] (.start (respawnState 0))).pc ≠ .finished := by
    intro n
    match n with
    | 0 => simp [BatchRun.start]
    | 1 => simp [BatchRun.start, BatchRun.next, BatchRun.quiet, batchStep]
    | 2 => simp [BatchRun.start, BatchRun.next, BatchRun.quiet, batchStep, respawnState,
        LoopState.new]
    | n + 3 =>
        obtain ⟨calls, hn⟩ := iterate_respawn n
        have hthree : (BatchRun.next respawn)^[3] (.start (respawnState 0)) =
            ⟨respawnState 0, .timers 1, []⟩ := rfl
        rw [Function.iterate_add_apply, hthree, hn]
        simp
  refine ⟨hpc, ?_⟩
  rintro ⟨⟨n, hn⟩, _⟩
  exact hpc n hn

end Tokioop.Loop
