import Tokioop.Loop.BatchRun
import Mathlib.Data.Prod.Lex

/-!
The history of the timer heap.

The view keeps every `cancel` call, every timer callback started with the
heap it left behind and the phase of the batch that started it, and the heap
at the end of every timer phase together with the time the phase had sampled.
-/

namespace Tokioop.Loop

open Kit

variable {κ : Type}

/-- `u` has the smaller pair of deadline and sequence number. -/
def TimerEntry.Before (u t : TimerEntry κ) : Prop :=
  u.when.partialCmp t.when = some .lt ∨ (u.when.partialCmp t.when = some .eq ∧ u.seq < t.seq)

def F64.Finite : F64 → Prop
  | .fin _ => True
  | .nan | .negInf | .posInf => False

instance : (x : F64) → Decidable x.Finite
  | .fin _ => .isTrue trivial
  | .nan | .negInf | .posInf => .isFalse id

theorem F64.Finite.exists {x : F64} (h : x.Finite) : ∃ q, x = .fin q := by
  cases x with
  | fin q => exact ⟨q, rfl⟩
  | nan | negInf | posInf => exact h.elim

/-! ### The top of the heap -/

/-- The pair by which finite deadlines are ordered. -/
def TimerEntry.key (t : TimerEntry κ) : ℚ ×ₗ ℕ :=
  toLex (match t.when with | .fin q => q | _ => 0, t.seq)

theorem TimerEntry.before_iff {u t : TimerEntry κ} (hu : u.when.Finite) (ht : t.when.Finite) :
    u.Before t ↔ u.key < t.key := by
  obtain ⟨a, ha⟩ := hu.exists
  obtain ⟨b, hb⟩ := ht.exists
  unfold Before key
  rw [ha, hb, Prod.Lex.toLex_lt_toLex]
  simp only [F64.partialCmp, Option.some.injEq]
  rcases lt_trichotomy a b with h | h | h
  · simp [h]
  · simp [h]
  · simp [h.not_gt, h.ne']

/-- `Ord for TimerEntry` puts the smaller pair higher. -/
theorem TimerEntry.cmp_lt_iff {t u : TimerEntry κ} (ht : t.when.Finite) (hu : u.when.Finite) :
    t.cmp u = .lt ↔ u.key < t.key := by
  rw [← before_iff hu ht]
  obtain ⟨a, ha⟩ := ht.exists
  obtain ⟨b, hb⟩ := hu.exists
  unfold cmp Before
  rw [ha, hb]
  simp only [F64.partialCmp, Option.getD_some, Option.some.injEq]
  rcases lt_trichotomy b a with h | h | h
  · simp [h]
  · simp [h, Ordering.then, Nat.compare_eq_lt]
  · simp [h.not_gt, h.ne', Ordering.then]

namespace LoopState

theorem foldl_peek_least {ts : List (TimerEntry κ)} {t : TimerEntry κ} (ht : t.when.Finite)
    (hts : ∀ u ∈ ts, u.when.Finite) :
    (ts.foldl (fun best u => if best.cmp u = .lt then u else best) t).key ≤ t.key ∧
      ∀ u ∈ ts, (ts.foldl (fun best u => if best.cmp u = .lt then u else best) t).key ≤ u.key := by
  induction ts generalizing t with
  | nil => exact ⟨le_rfl, fun u hu => absurd hu (by simp)⟩
  | cons v ts ih =>
      have hv : v.when.Finite := hts v List.mem_cons_self
      have hts' : ∀ u ∈ ts, u.when.Finite := fun u hu => hts u (List.mem_cons_of_mem _ hu)
      rw [List.foldl_cons]
      by_cases hlt : t.cmp v = .lt
      · rw [if_pos hlt]
        obtain ⟨hle, hrest⟩ := ih hv hts'
        have hvt := (TimerEntry.cmp_lt_iff ht hv).mp hlt
        refine ⟨hle.trans hvt.le, fun u hu => ?_⟩
        rcases List.mem_cons.mp hu with rfl | hu
        · exact hle
        · exact hrest u hu
      · rw [if_neg hlt]
        obtain ⟨hle, hrest⟩ := ih ht hts'
        have htv : t.key ≤ v.key := by
          rw [TimerEntry.cmp_lt_iff ht hv] at hlt
          exact not_lt.mp hlt
        refine ⟨hle, fun u hu => ?_⟩
        rcases List.mem_cons.mp hu with rfl | hu
        · exact hle.trans htv
        · exact hrest u hu

/-- Among finite deadlines the top of the heap has the least pair. -/
theorem peek_least {s : LoopState κ} (hf : ∀ t ∈ s.timers, t.when.Finite) {top : TimerEntry κ}
    (h : s.peek = some top) : ∀ u ∈ s.timers, ¬u.Before top := by
  intro u hu
  rw [TimerEntry.before_iff (hf u hu) (hf top (peek_mem h)), not_lt]
  unfold peek at h
  split at h
  · cases h
  · rename_i t ts heq
    rw [heq] at hu hf
    injection h with h
    have hleast := foldl_peek_least (hf t List.mem_cons_self)
      fun v hv => hf v (List.mem_cons_of_mem _ hv)
    rw [h] at hleast
    rcases List.mem_cons.mp hu with rfl | hu
    · exact hleast.1
    · exact hleast.2 u hu

theorem peek_eq_none {s : LoopState κ} (h : s.peek = none) : s.timers = [] := by
  unfold peek at h
  split at h
  · assumption
  · cases h

/-- When the top is not due, nothing is. -/
theorem not_due_of_peek {s : LoopState κ} (hf : ∀ t ∈ s.timers, t.when.Finite) {now : ℚ}
    (h : ∀ top, s.peek = some top → top.due now = false) :
    ∀ u ∈ s.timers, u.due now = false := by
  intro u hu
  cases hpeek : s.peek with
  | none =>
      rw [peek_eq_none hpeek] at hu
      cases hu
  | some top =>
      have hnot := peek_least hf hpeek u hu
      have hdue := h top hpeek
      obtain ⟨a, ha⟩ := (hf u hu).exists
      obtain ⟨b, hb⟩ := (hf top (peek_mem hpeek)).exists
      unfold TimerEntry.due at hdue ⊢
      rw [hb, F64.le_fin, decide_eq_false_iff_not, not_le] at hdue
      rw [ha, F64.le_fin, decide_eq_false_iff_not, not_le]
      refine lt_of_lt_of_le hdue (not_lt.mp fun hlt => hnot (Or.inl ?_))
      rw [ha, hb]
      simp [F64.partialCmp, hlt]

end LoopState

/-! ### The view -/

/-- A timer callback that was started: in which phase, whether its handle had
been cancelled by then, and what was in the heap. -/
structure Firing (κ : Type) where
  timer : TimerEntry κ
  phase : BatchPc
  cancelled : Bool
  pending : List (TimerEntry κ)

/-- `ended` lists the sampled time and the heap at the end of every timer
phase. -/
structure TimerView (κ : Type) where
  main : Main κ
  cancels : List Handle
  fired : List (Firing κ)
  ended : List (ℚ × List (TimerEntry κ))

namespace TimerView

/-- The timer callback that a step to `m` has started. -/
def started (w : TimerView κ) (m : Main κ) : List (Firing κ) :=
  match m.pc with
  | .calling (.timer t) b => [⟨t, b, w.cancels.contains t.entry.handle, m.st.timers⟩]
  | _ => []

/-- The timer phase that a step to `m` has ended. -/
def finished (w : TimerView κ) (m : Main κ) : List (ℚ × List (TimerEntry κ)) :=
  match w.main.pc, m.pc with
  | .batch (.timers now), .batch .io => [(now, m.st.timers)]
  | _, _ => []

def record (w : TimerView κ) (m : Main κ) : Move κ → TimerView κ
  | .run => { w with main := m, fired := w.fired ++ w.started m, ended := w.ended ++ w.finished m }
  | .op (.cancel h) => { w with main := m, cancels := h :: w.cancels }
  | _ => { w with main := m }

def step (w : TimerView κ) (mv : Move κ) : Option (TimerView κ) :=
  (w.main.step mv).map fun m => w.record m mv

def Init (w : TimerView κ) : Prop := ∃ m : Main κ, m.Fresh ∧ w = ⟨m, [], [], []⟩

/-- Every deadline that is scheduled is finite. -/
def FiniteDeadlines (w : TimerView κ) : Move κ → Prop
  | .op (.callAt when _) => when.Finite
  | .op (.callLater delay _) => ((F64.fin w.main.st.clock).add delay).Finite
  | _ => True

instance (w : TimerView κ) : (mv : Move κ) → Decidable (w.FiniteDeadlines mv)
  | .op (.callAt when _) => inferInstanceAs (Decidable when.Finite)
  | .op (.callLater delay _) =>
      inferInstanceAs (Decidable ((F64.fin w.main.st.clock).add delay).Finite)
  | .op (.callSoon _) | .op (.cancel _) | .op (.detach _) | .op (.watchers _) | .op .close
  | .run | .runForever | .returns _ | .handled | .callSoonThreadsafe _ _ | .stop _ | .pushIo _ _
  | .notifyOne _ | .tick _ | .timeout => .isTrue trivial

/-- The firing was in order: due at the sampled time, not cancelled before,
and no timer left in the heap came first. -/
structure Orderly (f : Firing κ) : Prop where
  due : ∃ now, f.phase = .timers now ∧ f.timer.due now = true
  live : f.cancelled = false
  first : ∀ u ∈ f.pending, ¬u.Before f.timer

structure Timely (w : TimerView κ) : Prop where
  finite : ∀ t ∈ w.main.st.timers, t.when.Finite
  cancels : w.cancels = w.main.st.cancelled
  orderly : ∀ f ∈ w.fired, Orderly f
  once : (w.fired.map (·.timer.seq)).Nodup
  old : ∀ f ∈ w.fired, f.timer.seq < w.main.st.seq
  gone : ∀ f ∈ w.fired, ∀ u ∈ w.main.st.timers, u.seq ≠ f.timer.seq
  ended : ∀ e ∈ w.ended, ∀ u ∈ e.2, u.due e.1 = false

/-! ### Steps that start no timer -/

/-- A step that adds no timer and starts none. -/
theorem Timely.of_subset {w : TimerView κ} (h : w.Timely) {m : Main κ}
    (htimers : ∀ t ∈ m.st.timers, t ∈ w.main.st.timers) (hseq : m.st.seq = w.main.st.seq)
    (hcancelled : m.st.cancelled = w.main.st.cancelled) : Timely { w with main := m } := by
  refine ⟨fun t ht => h.finite t (htimers t ht), ?_, h.orderly, h.once, ?_, ?_, h.ended⟩
  · show w.cancels = m.st.cancelled
    rw [hcancelled]
    exact h.cancels
  · show ∀ f ∈ w.fired, f.timer.seq < m.st.seq
    rw [hseq]
    exact h.old
  · exact fun f hf u hu => h.gone f hf u (htimers u hu)

theorem Timely.pushTimer {w : TimerView κ} (h : w.Timely) {when : F64} (hw : when.Finite) (cb : κ) :
    Timely { w with main := { w.main with st := w.main.st.pushTimer when cb } } := by
  refine ⟨fun t ht => ?_, h.cancels, h.orderly, h.once, fun f hf => ?_, fun f hf u hu => ?_,
    h.ended⟩
  · rcases List.mem_cons.mp ht with rfl | hold
    · exact hw
    · exact h.finite t hold
  · exact Nat.lt_succ_of_lt (h.old f hf)
  · rcases List.mem_cons.mp hu with rfl | hold
    · exact (h.old f hf).ne'
    · exact h.gone f hf u hold

theorem timely_op {w : TimerView κ} (h : w.Timely) (o : Op κ) (hok : w.FiniteDeadlines (.op o)) :
    Timely (w.record { w.main with st := o.apply w.main.st } (.op o)) := by
  cases o with
  | callSoon cb =>
      have hsame : (Op.callSoon cb).apply w.main.st = w.main.st ∨
          (Op.callSoon cb).apply w.main.st = w.main.st.pushReady cb false := by
        rw [Op.apply_callSoon]
        split
        · exact Or.inl rfl
        · exact Or.inr rfl
      rcases hsame with hs | hs
      all_goals
        refine h.of_subset ?_ ?_ ?_
        all_goals rw [hs]
      · exact fun t ht => ht
      · exact fun t ht => ht
      · rfl
      · rfl
  | callAt when cb =>
      show Timely { w with main := { w.main with st := (Op.callAt when cb).apply w.main.st } }
      rw [Op.apply_callAt]
      split
      · exact h
      · exact h.pushTimer hok cb
  | callLater delay cb =>
      show Timely { w with main := { w.main with st := (Op.callLater delay cb).apply w.main.st } }
      rw [Op.apply_callLater, Op.apply_callAt]
      split
      · exact h
      · exact h.pushTimer hok cb
  | cancel k =>
      refine ⟨h.finite, ?_, h.orderly, h.once, h.old, h.gone, h.ended⟩
      show k :: w.cancels = k :: w.main.st.cancelled
      rw [h.cancels]
  | close =>
      show Timely { w with main := { w.main with st := Op.close.apply w.main.st } }
      rw [Op.apply_close]
      split
      · exact h
      · exact h.of_subset (fun t ht => absurd ht (by simp)) rfl rfl
  | detach slot => exact h.of_subset (fun _ ht => ht) rfl rfl
  | watchers n => exact h.of_subset (fun _ ht => ht) rfl rfl

/-! ### The loop thread -/

/-- A step of the loop thread that starts no timer and ends no timer phase. -/
theorem timely_quiet {w : TimerView κ} (h : w.Timely) {m : Main κ} (hs : w.main.Ran m)
    (hseq : m.st.seq = w.main.st.seq) (hcancelled : m.st.cancelled = w.main.st.cancelled)
    (hstarted : w.started m = []) (hfinished : w.finished m = []) :
    Timely (w.record m .run) := by
  show Timely
    { w with main := m, fired := w.fired ++ w.started m, ended := w.ended ++ w.finished m }
  rw [hstarted, hfinished, List.append_nil, List.append_nil]
  exact h.of_subset hs.timers hseq hcancelled

/-- The top of the heap is due, not cancelled, and is started. -/
theorem timely_fire {w : TimerView κ} (h : w.Timely) (hwf : w.main.st.Wf) {now : ℚ}
    {top : TimerEntry κ} (hpeek : w.main.st.peek = some top) (hdue : top.due now = true)
    (hlive : w.main.st.isCancelled top.entry = false) :
    Timely (w.record { w.main with st := w.main.st.popTimer top,
                                   pc := .calling (.timer top) (.timers now) } .run) := by
  have hperm := LoopState.popTimer_perm hwf hpeek
  have hmem := LoopState.peek_mem hpeek
  have hsub : ∀ u ∈ (w.main.st.popTimer top).timers, u ∈ w.main.st.timers := fun u hu =>
    hperm.mem_iff.mpr (List.mem_cons_of_mem _ hu)
  have hne : ∀ u ∈ (w.main.st.popTimer top).timers, u.seq ≠ top.seq := by
    have hnodup := (hperm.map (·.seq)).nodup_iff.mp hwf.nodup
    rw [List.map_cons, List.nodup_cons] at hnodup
    intro u hu heq
    exact hnodup.1 (List.mem_map.mpr ⟨u, hu, heq⟩)
  have horderly : Orderly (⟨top, .timers now, w.cancels.contains top.entry.handle,
      (w.main.st.popTimer top).timers⟩ : Firing κ) := by
    refine ⟨⟨now, rfl, hdue⟩, ?_, fun u hu => LoopState.peek_least h.finite hpeek u (hsub u hu)⟩
    show w.cancels.contains top.entry.handle = false
    rw [h.cancels]
    exact hlive
  have hfinished : ∀ st : LoopState κ, w.finished
      { w.main with st := st, pc := .calling (.timer top) (.timers now) } = [] := by
    intro st
    unfold finished
    split
    · rename_i hpc
      cases hpc
    · rfl
  show Timely { w with main := _, fired := w.fired ++ [_], ended := w.ended ++ w.finished _ }
  rw [hfinished, List.append_nil]
  refine ⟨fun t ht => h.finite t (hsub t ht), h.cancels, fun f hf => ?_, ?_, fun f hf => ?_,
    fun f hf u hu => ?_, h.ended⟩
  · rcases List.mem_append.mp hf with hold | hnew
    · exact h.orderly f hold
    · rw [List.mem_singleton.mp hnew]
      exact horderly
  · rw [List.map_append, List.nodup_append]
    refine ⟨h.once, List.nodup_singleton _, fun a ha b hb => ?_⟩
    obtain ⟨f, hf, rfl⟩ := List.mem_map.mp ha
    rw [List.map_singleton, List.mem_singleton] at hb
    rw [hb]
    exact (h.gone f hf top hmem).symm
  · rcases List.mem_append.mp hf with hold | hnew
    · exact h.old f hold
    · rw [List.mem_singleton.mp hnew]
      exact hwf.seqs top hmem
  · rcases List.mem_append.mp hf with hold | hnew
    · exact h.gone f hold u (hsub u hu)
    · rw [List.mem_singleton.mp hnew]
      exact hne u hu

/-- The top of the heap, if there is one, is not due: the phase ends. -/
theorem timely_end {w : TimerView κ} (h : w.Timely) {now : ℚ}
    (hpc : w.main.pc = .batch (.timers now))
    (hnot : ∀ top, w.main.st.peek = some top → top.due now = false) :
    Timely (w.record { w.main with pc := .batch .io } .run) := by
  have hfinished : w.finished { w.main with pc := .batch .io } = [(now, w.main.st.timers)] := by
    simp only [finished, hpc]
  show Timely { w with main := _, fired := w.fired ++ [], ended := w.ended ++ w.finished _ }
  rw [List.append_nil, hfinished]
  refine ⟨h.finite, h.cancels, h.orderly, h.once, h.old, h.gone, fun e he => ?_⟩
  rcases List.mem_append.mp he with hold | hnew
  · exact h.ended e hold
  · rw [List.mem_singleton.mp hnew]
    exact LoopState.not_due_of_peek h.finite hnot

theorem timely_timers {w : TimerView κ} (h : w.Timely) (hwf : w.main.st.Wf) {m : Main κ} {now : ℚ}
    (hpc : w.main.pc = .batch (.timers now)) (hs : w.main.run = some m) :
    Timely (w.record m .run) := by
  have hran := Main.ran_of_run hs
  simp only [Main.run, hpc, batchStep] at hs
  cases hpeek : w.main.st.peek with
  | none =>
      simp only [hpeek, Option.some.injEq] at hs
      rw [← hs]
      exact timely_end h hpc fun top htop => by simp [hpeek] at htop
  | some top =>
      by_cases hdue : top.due now = true
      · by_cases hlive : w.main.st.isCancelled top.entry = true
        · simp only [hpeek, hdue, hlive, if_true, Option.some.injEq] at hs
          rw [← hs] at hran ⊢
          refine timely_quiet h hran rfl rfl rfl ?_
          simp [finished]
        · rw [Bool.not_eq_true] at hlive
          simp only [hpeek, hdue, hlive, if_true, Bool.false_eq_true, if_false,
            Option.some.injEq] at hs
          rw [← hs]
          exact timely_fire h hwf hpeek hdue hlive
      · rw [Bool.not_eq_true] at hdue
        simp only [hpeek, hdue, Bool.false_eq_true, if_false, Option.some.injEq] at hs
        rw [← hs]
        refine timely_end h hpc fun top' htop => ?_
        rw [hpeek] at htop
        injection htop with htop
        exact htop ▸ hdue

/-- The heap bookkeeping a step of the loop thread leaves alone. -/
theorem handles_of_run {m m' : Main κ} (hs : m.run = some m') :
    m'.st.seq = m.st.seq ∧ m'.st.cancelled = m.st.cancelled := by
  cases Main.runStep_of_run hs with
  | @quiet b hpc =>
      have htaken := (batchStep_taken m.st b).handles
      exact ⟨htaken.2.2, htaken.2.1⟩
  | @invoke b inv hpc hinv =>
      have htaken := (batchStep_taken m.st b).handles
      exact ⟨htaken.2.2, htaken.2.1⟩
  | _ => exact ⟨rfl, rfl⟩

theorem timely_run {w : TimerView κ} (h : w.Timely) (hwf : w.main.st.Wf) {m : Main κ}
    (hs : w.main.run = some m) : Timely (w.record m .run) := by
  by_cases htimers : ∃ now, w.main.pc = .batch (.timers now)
  · obtain ⟨now, hpc⟩ := htimers
    exact timely_timers h hwf hpc hs
  · obtain ⟨hseq, hcancelled⟩ := handles_of_run hs
    refine timely_quiet h (Main.ran_of_run hs) hseq hcancelled ?_ ?_
    · unfold started
      split
      · rename_i t b hpc'
        cases Main.runStep_of_run hs with
        | @invoke b inv hpc hinv =>
            cases hpc'
            obtain ⟨now, rfl, -⟩ := batchStep_invoke_timer hinv
            exact absurd ⟨now, hpc⟩ htimers
        | again hpc hnext => rcases hnext with rfl | rfl <;> cases hpc'
        | _ => cases hpc'
      · rfl
    · unfold finished
      split
      · rename_i now hpc _
        exact absurd ⟨now, hpc⟩ htimers
      · rfl

theorem timely_step {w w' : TimerView κ} {mv : Move κ} (h : w.Timely) (hwf : w.main.st.Wf)
    (hok : w.FiniteDeadlines mv) (hs : w.step mv = some w') : w'.Timely := by
  obtain ⟨m, hm, rfl⟩ := Option.map_eq_some_iff.mp hs
  cases mv with
  | run => exact timely_run h hwf hm
  | runForever =>
      obtain ⟨_, _, _, rfl⟩ := Main.step_runForever hm
      exact h.of_subset (fun _ ht => ht) rfl rfl
  | returns exc =>
      obtain ⟨_, _, _, ⟨_, rfl⟩ | ⟨_, _, rfl⟩⟩ := Main.step_returns hm
      · exact h.of_subset (fun _ ht => ht) rfl rfl
      · exact h.of_subset (fun _ ht => ht) rfl rfl
  | handled =>
      obtain ⟨_, _, _, rfl⟩ := Main.step_handled hm
      exact h.of_subset (fun _ ht => ht) rfl rfl
  | op o =>
      obtain rfl := Option.some.inj hm
      exact timely_op h o hok
  | callSoonThreadsafe i cb =>
      rw [Main.step_callSoonThreadsafe hm]
      exact h.of_subset (fun _ ht => ht) rfl rfl
  | stop _ | pushIo _ _ =>
      obtain rfl := Option.some.inj hm
      exact h.of_subset (fun _ ht => ht) rfl rfl
  | notifyOne i =>
      rw [Main.step_notifyOne hm]
      have hst : w.main.notifyOne.st = w.main.st := Main.st_notifyOne _
      refine h.of_subset (fun t ht => ?_) ?_ ?_
      · exact hst ▸ ht
      · exact congrArg LoopState.seq hst
      · exact congrArg LoopState.cancelled hst
  | tick d =>
      obtain ⟨_, rfl⟩ := Main.step_tick hm
      exact h.of_subset (fun _ ht => ht) rfl rfl
  | timeout =>
      obtain ⟨_, _, _, rfl⟩ := Main.step_timeout hm
      exact h.of_subset (fun _ ht => ht) rfl rfl

theorem record_main (w : TimerView κ) (m : Main κ) (mv : Move κ) : (w.record m mv).main = m := by
  cases mv with
  | op o => cases o <;> rfl
  | _ => rfl

end TimerView

/-- Every run of a fresh loop in which only finite deadlines are scheduled. -/
abbrev TimerReach : TimerView κ → Prop :=
  Runs TimerView.step TimerView.FiniteDeadlines TimerView.Init

theorem TimerView.wf_of_reach {w : TimerView κ} (h : TimerReach w) : w.main.st.Wf := by
  refine Loop.wf_of_reach (m := w.main) (h.simulates (f := TimerView.main) ?_ ?_)
  · rintro w ⟨m, hm, rfl⟩
    exact hm
  · intro w mv w' _ hs
    obtain ⟨m, hm, rfl⟩ := Option.map_eq_some_iff.mp hs
    exact ⟨mv, trivial, by rw [record_main, hm]⟩

theorem TimerView.timely_of_reach {w : TimerView κ} (h : TimerReach w) : w.Timely := by
  induction h with
  | start h =>
      obtain ⟨m, ⟨clock, rfl⟩, rfl⟩ := h
      exact ⟨fun t ht => absurd ht (by simp [LoopState.new]), rfl, fun f hf => absurd hf (by simp),
        List.nodup_nil, fun f hf => absurd hf (by simp), fun f hf => absurd hf (by simp),
        fun e he => absurd he (by simp)⟩
  | step mv h hok hs ih => exact timely_step ih (wf_of_reach h) hok hs

/-- With finite deadlines no timer is started twice; every timer started was
due at the time its batch had sampled, had not been cancelled, and had the
smallest pair of deadline and sequence number in the heap; and no timer phase
ends with a due timer in the heap. -/
theorem timers_in_order {w : TimerView κ} (h : TimerReach w) :
    (w.fired.map (·.timer.seq)).Nodup ∧
      (∀ f ∈ w.fired, (∃ now, f.phase = .timers now ∧ f.timer.when.le (.fin now) = true) ∧
        f.cancelled = false ∧ ∀ u ∈ f.pending, ¬u.Before f.timer) ∧
      ∀ e ∈ w.ended, ∀ u ∈ e.2, u.when.le (.fin e.1) = false := by
  have ht := TimerView.timely_of_reach h
  refine ⟨ht.once, fun f hf => ?_, ht.ended⟩
  have ho := ht.orderly f hf
  exact ⟨ho.due, ho.live, ho.first⟩

/-- Three timers, two with the same deadline and one cancelled, and a fourth
added by a callback: they start in the order of deadline and insertion. -/
theorem timers_in_order_four : ∃ w : TimerView Nat, TimerReach w ∧
    w.fired.map (·.timer.entry.callback) = [2, 3, 4] ∧ w.ended.length = 1 ∧
    (w.fired.map (·.timer.seq)).Nodup ∧ ∀ e ∈ w.ended, ∀ u ∈ e.2, u.when.le (.fin e.1) = false := by
  have hstart : TimerReach (⟨⟨LoopState.new Nat 0, .idle, false, []⟩, [], [], []⟩ :
      TimerView Nat) := .start ⟨_, ⟨0, rfl⟩, rfl⟩
  obtain ⟨w, hw, hP⟩ := hstart.exists_of_replay [.op (.callAt (.fin 5) 1), .op (.callAt (.fin 3) 2),
    .op (.callLater (.fin 3) 3), .op (.cancel 0), .tick 6, .runForever, .run, .run, .run, .run,
    .run, .run, .op (.callAt (.fin 3) 4), .returns none, .run, .returns none, .run, .returns none,
    .run, .run]
    (fun w => w.fired.map (·.timer.entry.callback) = [2, 3, 4] ∧ w.ended.length = 1)
    (by decide +kernel)
  rw [decide_eq_true_eq] at hP
  obtain ⟨honce, -, hended⟩ := timers_in_order hw
  exact ⟨w, hw, hP.1, hP.2, honce, hended⟩

end Tokioop.Loop
