import Tokioop.Loop.Machine
import Mathlib.Data.List.Nodup
import Mathlib.Data.NNRat.Defs

/-!
A batch together with what its callbacks do.

A `Behaviour` fixes the effects of each invocation of a batch, numbered in
the order in which they happen, so a start state and a behaviour determine
the batch. The effects are calls of the loop's methods and the passing of
time. No completion is pushed while a batch runs, because the watcher tasks
share its thread.
-/

namespace Tokioop.Loop

variable {κ : Type}

inductive Effect (κ : Type)
  | op (o : Op κ)
  | callSoonThreadsafe (cb : κ)
  | stop
  | elapse (d : ℚ≥0)

def Effect.apply (s : LoopState κ) : Effect κ → LoopState κ
  | .op o => o.apply s
  | .callSoonThreadsafe cb => s.orSame (s.callSoonThreadsafe cb)
  | .stop => s.stop
  | .elapse d => { s with clock := s.clock + d }

/-- What the callbacks of a batch do, invocation by invocation. -/
abbrev Behaviour (κ : Type) := Nat → Invocation κ → List (Effect κ)

/-- A batch in progress with the invocations it has made. -/
structure BatchRun (κ : Type) where
  st : LoopState κ
  pc : BatchPc
  calls : List (Invocation κ)

namespace BatchRun

def start (s : LoopState κ) : BatchRun κ := ⟨s, .begin, []⟩

/-- The step of the batch itself, before the callback is invoked. -/
def quiet (r : BatchRun κ) : BatchRun κ :=
  ⟨(batchStep r.st r.pc).state, (batchStep r.st r.pc).pc, r.calls⟩

/-- Invoke a callback and let it do what it does. -/
def invoke (beh : Behaviour κ) (r : BatchRun κ) (inv : Invocation κ) : BatchRun κ :=
  ⟨(beh r.calls.length inv).foldl Effect.apply r.st, r.pc, r.calls ++ [inv]⟩

/-- One step of `run_batch`. -/
def next (beh : Behaviour κ) (r : BatchRun κ) : BatchRun κ :=
  match (batchStep r.st r.pc).invoke with
  | none => r.quiet
  | some inv => r.quiet.invoke beh inv

end BatchRun

/-! ### Well-formed states -/

/-- Handles and sequence numbers in use are older than the next ones, and no
two timers share a sequence number. -/
structure LoopState.Wf (s : LoopState κ) : Prop where
  ready : ∀ e ∈ s.ready, e.handle < s.nextHandle
  timers : ∀ t ∈ s.timers, t.entry.handle < s.nextHandle
  seqs : ∀ t ∈ s.timers, t.seq < s.seq
  nodup : (s.timers.map (·.seq)).Nodup

namespace LoopState

theorem wf_new (clock : ℚ) : (LoopState.new κ clock).Wf :=
  ⟨fun _ he => absurd he (by simp [new]), fun _ ht => absurd ht (by simp [new]),
    fun _ ht => absurd ht (by simp [new]), by simp [new]⟩

theorem Wf.taken {s s' : LoopState κ} (h : s.Wf) (ht : s.Taken s') : s'.Wf := by
  obtain ⟨hhandle, _, hseq⟩ := ht.handles
  refine ⟨fun e he => ?_, fun t hm => ?_, fun t hm => ?_, ?_⟩
  · rw [hhandle]
    exact h.ready e (ht.ready.subset he)
  · rw [hhandle]
    exact h.timers t (ht.timers.subset hm)
  · rw [hseq]
    exact h.seqs t (ht.timers.subset hm)
  · exact h.nodup.sublist (ht.timers.map _)

theorem Wf.pushReady {s : LoopState κ} (h : s.Wf) (cb : κ) (threadsafe : Bool) :
    (s.pushReady cb threadsafe).Wf := by
  refine ⟨fun e he => ?_, fun t ht => Nat.lt_succ_of_lt (h.timers t ht), h.seqs, h.nodup⟩
  rcases List.mem_append.mp he with hold | hnew
  · exact Nat.lt_succ_of_lt (h.ready e hold)
  · rw [List.mem_singleton.mp hnew]
    exact Nat.lt_succ_self _

theorem Wf.pushTimer {s : LoopState κ} (h : s.Wf) (when : F64) (cb : κ) :
    (s.pushTimer when cb).Wf := by
  refine ⟨fun e he => Nat.lt_succ_of_lt (h.ready e he), fun t ht => ?_, fun t ht => ?_, ?_⟩
  · rcases List.mem_cons.mp ht with rfl | hold
    · exact Nat.lt_succ_self _
    · exact Nat.lt_succ_of_lt (h.timers t hold)
  · rcases List.mem_cons.mp ht with rfl | hold
    · exact Nat.lt_succ_self _
    · exact Nat.lt_succ_of_lt (h.seqs t hold)
  · refine List.nodup_cons.mpr ⟨fun hmem => ?_, h.nodup⟩
    obtain ⟨t, ht, heq⟩ := List.mem_map.mp hmem
    have hlt : t.seq < s.seq := h.seqs t ht
    simp only at heq
    omega

/-- Popping takes the top itself out of the heap. -/
theorem popTimer_perm {s : LoopState κ} {top : TimerEntry κ} (hw : s.Wf)
    (hpeek : s.peek = some top) : s.timers.Perm (top :: (s.popTimer top).timers) := by
  have hmem := peek_mem hpeek
  obtain ⟨a, l₁, l₂, _, ha, hl, herase⟩ :=
    List.exists_of_eraseP (p := fun t : TimerEntry κ => t.seq == top.seq) hmem (by simp)
  have hseq : a.seq = top.seq := by simpa using ha
  have hamem : a ∈ s.timers := by simp [hl]
  have hatop : a = top := List.inj_on_of_nodup_map hw.nodup hamem hmem hseq
  have hpop : (s.popTimer top).timers = l₁ ++ l₂ := herase
  rw [hpop, hl, hatop]
  exact List.perm_middle

end LoopState

theorem Op.wf_apply {s : LoopState κ} (h : s.Wf) (o : Op κ) : (o.apply s).Wf := by
  cases o with
  | callSoon cb =>
      rw [Op.apply_callSoon]
      split
      · exact h
      · exact h.pushReady cb false
  | callAt when cb =>
      rw [Op.apply_callAt]
      split
      · exact h
      · exact h.pushTimer when cb
  | callLater delay cb =>
      rw [Op.apply_callLater, Op.apply_callAt]
      split
      · exact h
      · exact h.pushTimer _ cb
  | close =>
      rw [Op.apply_close]
      split
      · exact h
      · exact ⟨fun _ he => absurd he (by simp), fun _ ht => absurd ht (by simp),
          fun _ ht => absurd ht (by simp), by simp⟩
  | cancel _ => exact ⟨h.ready, h.timers, h.seqs, h.nodup⟩
  | detach _ => exact ⟨h.ready, h.timers, h.seqs, h.nodup⟩
  | watchers _ => exact ⟨h.ready, h.timers, h.seqs, h.nodup⟩

theorem Effect.apply_callSoonThreadsafe (s : LoopState κ) (cb : κ) :
    (Effect.callSoonThreadsafe cb).apply s = if s.closed then s else s.pushReady cb true := by
  by_cases h : s.closed = true
  · simp [apply, LoopState.callSoonThreadsafe, LoopState.checkClosedState, LoopState.orSame, h]
  · simp [apply, LoopState.callSoonThreadsafe, LoopState.checkClosedState, LoopState.orSame, h]

theorem Effect.wf_apply {s : LoopState κ} (h : s.Wf) (e : Effect κ) : (e.apply s).Wf := by
  cases e with
  | op o => exact Op.wf_apply h o
  | callSoonThreadsafe cb =>
      rw [Effect.apply_callSoonThreadsafe]
      split
      · exact h
      · exact h.pushReady cb true
  | stop => exact ⟨h.ready, h.timers, h.seqs, h.nodup⟩
  | elapse d => exact ⟨h.ready, h.timers, h.seqs, h.nodup⟩

/-- Every state the loop reaches is well formed. -/
theorem wf_of_reach {m : Main κ} (h : Kit.Runs Main.step (fun _ _ => True) Main.Fresh m) :
    m.st.Wf := by
  refine h.invariant (I := fun m : Main κ => m.st.Wf) ?_ fun m mv m' hi _ hs => ?_
  · rintro m ⟨clock, rfl⟩
    exact LoopState.wf_new clock
  cases mv with
  | run =>
      cases Main.runStep_of_run hs with
      | quiet hpc => exact hi.taken (batchStep_taken _ _)
      | invoke hpc hinv => exact hi.taken (batchStep_taken _ _)
      | _ => exact ⟨hi.ready, hi.timers, hi.seqs, hi.nodup⟩
  | runForever =>
      obtain ⟨_, _, _, rfl⟩ := Main.step_runForever hs
      exact hi
  | returns exc =>
      obtain ⟨_, _, _, ⟨_, rfl⟩ | ⟨_, _, rfl⟩⟩ := Main.step_returns hs
      · exact hi
      · exact hi
  | handled =>
      obtain ⟨_, _, _, rfl⟩ := Main.step_handled hs
      exact hi
  | op o =>
      obtain rfl := Option.some.inj hs
      exact Op.wf_apply hi o
  | callSoonThreadsafe i cb =>
      rw [Main.step_callSoonThreadsafe hs]
      exact hi.pushReady cb true
  | stop _ | pushIo _ _ =>
      obtain rfl := Option.some.inj hs
      exact ⟨hi.ready, hi.timers, hi.seqs, hi.nodup⟩
  | notifyOne i =>
      rw [Main.step_notifyOne hs]
      change m.notifyOne.st.Wf
      rw [Main.st_notifyOne]
      exact hi
  | tick d =>
      obtain ⟨_, rfl⟩ := Main.step_tick hs
      exact ⟨hi.ready, hi.timers, hi.seqs, hi.nodup⟩
  | timeout =>
      obtain ⟨_, _, _, rfl⟩ := Main.step_timeout hs
      exact hi

/-- Between the two stores of the `running` flag. -/
def Pc.inRun : Pc κ → Bool
  | .idle | .setup | .setupRunning | .cleanupStop => false
  | _ => true

/-- Batches run only while the loop is marked as running. -/
theorem running_of_reach {m : Main κ} (h : Kit.Runs Main.step (fun _ _ => True) Main.Fresh m) :
    m.pc.inRun = true → m.st.running = true := by
  refine h.invariant (I := fun m : Main κ => m.pc.inRun = true → m.st.running = true) ?_
    fun m mv m' hi _ hs hpc' => ?_
  · rintro m ⟨clock, rfl⟩ hpc
    simp [Pc.inRun] at hpc
  cases mv with
  | run =>
      cases Main.runStep_of_run hs with
      | quiet hpc => exact (batchStep_taken _ _).flags.1.trans (hi (by rw [hpc]; rfl))
      | invoke hpc hinv => exact (batchStep_taken _ _).flags.1.trans (hi (by rw [hpc]; rfl))
      | enter hpc => rfl
      | again hpc hnext =>
          simp only [List.mem_cons, List.not_mem_nil, or_false] at hpc
          rcases hpc with hpc | hpc | hpc | hpc | hpc
          all_goals exact hi (by rw [hpc]; rfl)
      | reset | leave | left => simp [Pc.inRun] at hpc'
      | batchDone hpc | stopped hpc | notStopped hpc | closed hpc | notClosed hpc | noReady hpc
      | noIo hpc | noTimers hpc | panic hpc | await hpc | permit hpc | sleep hpc | wake hpc =>
          exact hi (by rw [hpc]; rfl)
  | runForever =>
      obtain ⟨_, _, _, rfl⟩ := Main.step_runForever hs
      simp [Pc.inRun] at hpc'
  | returns exc =>
      obtain ⟨_, _, hpc, ⟨_, rfl⟩ | ⟨_, _, rfl⟩⟩ := Main.step_returns hs
      · exact hi (by rw [hpc]; rfl)
      · exact hi (by rw [hpc]; rfl)
  | handled =>
      obtain ⟨_, _, hpc, rfl⟩ := Main.step_handled hs
      exact hi (by rw [hpc]; rfl)
  | op o =>
      obtain rfl := Option.some.inj hs
      exact (Op.called m.st o).flags.1.trans (hi hpc')
  | callSoonThreadsafe i cb =>
      rw [Main.step_callSoonThreadsafe hs] at hpc' ⊢
      exact hi hpc'
  | stop _ | pushIo _ _ =>
      obtain rfl := Option.some.inj hs
      exact hi hpc'
  | notifyOne i =>
      rw [Main.step_notifyOne hs] at hpc' ⊢
      change m.notifyOne.pc.inRun = true at hpc'
      change m.notifyOne.st.running = true
      rw [Main.st_notifyOne]
      apply hi
      unfold Main.notifyOne at hpc'
      split at hpc'
      · rename_i hpc
        rw [hpc]
        rfl
      · exact hpc'
  | tick d =>
      obtain ⟨_, rfl⟩ := Main.step_tick hs
      exact hi hpc'
  | timeout =>
      obtain ⟨_, _, hpc, rfl⟩ := Main.step_timeout hs
      exact hi (by rw [hpc]; rfl)

/-! ### What a callback can do to a running batch -/

/-- While the loop runs, callbacks add work behind what is there, under fresh
handles, and take nothing away. -/
structure LoopState.Grew (s s' : LoopState κ) : Prop where
  running : s'.running = s.running
  handles : s.nextHandle ≤ s'.nextHandle
  ready : ∃ new, s'.ready = s.ready ++ new
  timers : ∃ new, s'.timers = new ++ s.timers ∧ ∀ t ∈ new, s.nextHandle ≤ t.entry.handle
  io : s'.io = s.io

namespace LoopState

theorem Grew.of_eq {s s' : LoopState κ} (hrunning : s'.running = s.running)
    (hhandles : s.nextHandle ≤ s'.nextHandle) (hready : s'.ready = s.ready)
    (htimers : s'.timers = s.timers) (hio : s'.io = s.io) : s.Grew s' :=
  ⟨hrunning, hhandles, ⟨[], by simp [hready]⟩, ⟨[], by simp [htimers], by simp⟩, hio⟩

theorem Grew.refl (s : LoopState κ) : s.Grew s := .of_eq rfl le_rfl rfl rfl rfl

theorem Grew.trans {s t u : LoopState κ} (h : s.Grew t) (h' : t.Grew u) : s.Grew u := by
  obtain ⟨r, hr⟩ := h.ready
  obtain ⟨r', hr'⟩ := h'.ready
  obtain ⟨n, hn, hfresh⟩ := h.timers
  obtain ⟨n', hn', hfresh'⟩ := h'.timers
  refine ⟨h'.running.trans h.running, h.handles.trans h'.handles, ⟨r ++ r', ?_⟩, ⟨n' ++ n, ?_, ?_⟩,
    h'.io.trans h.io⟩
  · rw [hr', hr, List.append_assoc]
  · rw [hn', hn, List.append_assoc]
  · intro t ht
    rcases List.mem_append.mp ht with hmem | hmem
    · exact h.handles.trans (hfresh' t hmem)
    · exact hfresh t hmem

theorem grew_pushReady (s : LoopState κ) (cb : κ) (threadsafe : Bool) :
    s.Grew (s.pushReady cb threadsafe) :=
  ⟨rfl, Nat.le_succ _, ⟨_, rfl⟩, ⟨[], rfl, by simp⟩, rfl⟩

theorem grew_pushTimer (s : LoopState κ) (when : F64) (cb : κ) : s.Grew (s.pushTimer when cb) := by
  refine ⟨rfl, Nat.le_succ _, ⟨[], by simp [pushTimer]⟩, ⟨[_], rfl, fun t ht => ?_⟩, rfl⟩
  rw [List.mem_singleton.mp ht]

end LoopState

theorem Op.grew_apply {s : LoopState κ} (hr : s.running = true) (o : Op κ) :
    s.Grew (o.apply s) := by
  cases o with
  | callSoon cb =>
      rw [Op.apply_callSoon]
      split
      · exact .refl s
      · exact s.grew_pushReady cb false
  | callAt when cb =>
      rw [Op.apply_callAt]
      split
      · exact .refl s
      · exact s.grew_pushTimer when cb
  | callLater delay cb =>
      rw [Op.apply_callLater, Op.apply_callAt]
      split
      · exact .refl s
      · exact s.grew_pushTimer _ cb
  | close =>
      -- A running loop refuses to be closed.
      rw [Op.apply_close, if_pos (.inl hr)]
      exact .refl s
  | cancel _ | detach _ | watchers _ => exact .of_eq rfl le_rfl rfl rfl rfl

theorem Effect.grew_apply {s : LoopState κ} (hr : s.running = true) (e : Effect κ) :
    s.Grew (e.apply s) := by
  cases e with
  | op o => exact Op.grew_apply hr o
  | callSoonThreadsafe cb =>
      rw [Effect.apply_callSoonThreadsafe]
      split
      · exact .refl s
      · exact s.grew_pushReady cb true
  | stop | elapse d => exact .of_eq rfl le_rfl rfl rfl rfl

/-- The spec of a whole callback: the state stays well formed and grows. -/
theorem react_spec (es : List (Effect κ)) {s : LoopState κ} (hw : s.Wf) (hr : s.running = true) :
    (es.foldl Effect.apply s).Wf ∧ s.Grew (es.foldl Effect.apply s) := by
  induction es generalizing s with
  | nil => exact ⟨hw, .refl s⟩
  | cons e es ih =>
      have hgrew := Effect.grew_apply hr e
      obtain ⟨hw', hgrew'⟩ := ih (Effect.wf_apply hw e) (hgrew.running.trans hr)
      exact ⟨hw', hgrew.trans hgrew'⟩

end Tokioop.Loop
