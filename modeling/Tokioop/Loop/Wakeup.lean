import Tokioop.Loop.Machine

/-!
No wakeup is lost.

The loop looks at the stop flag, at the ready queue and at the completion
queue before it parks, and others may push right after it has looked. What
saves the late push is that its party still owes a `notify_one`, or has
already left the permit. The invariant says so check by check: once a queue
has been found empty, anything that is in it now is covered.
-/

namespace Tokioop.Loop

variable {κ : Type}

namespace Main

/-- A wakeup is on its way: the permit is stored, or someone is about to
notify. -/
def Covered (m : Main κ) : Prop := m.permit = true ∨ m.pending ≠ []

def HasThreadsafe (m : Main κ) : Prop := ∃ e ∈ m.st.ready, e.threadsafe = true

/-- Nothing the loop has already looked at needs it, or a wakeup is coming. -/
structure Watched (m : Main κ) (ready io : Prop) : Prop where
  stop : m.st.stopRequested = true → m.Covered
  ready : ready → m.HasThreadsafe → m.Covered
  io : io → m.st.io ≠ [] → m.Covered

/-- What is known at each place of the loop thread. -/
def Awake (m : Main κ) : Prop :=
  match m.pc with
  | .checkClosed | .checkReady => m.Watched False False
  | .checkIo => m.Watched True False
  | .checkTimers | .park | .await _ | .parked _ false => m.Watched True True
  | _ => True

theorem Watched.of_covered {m : Main κ} {ready io : Prop} (h : m.Covered) : m.Watched ready io :=
  ⟨fun _ => h, fun _ _ => h, fun _ _ => h⟩

theorem awake_of_covered {m : Main κ} (h : m.Covered) : m.Awake := by
  unfold Awake
  split
  all_goals first | exact Watched.of_covered h | trivial

/-- A change of the state that adds nothing a wakeup is owed for keeps what
is known. -/
theorem Watched.mono {m m' : Main κ} {ready io : Prop} (h : m.Watched ready io)
    (hpermit : m'.permit = m.permit) (hpending : m'.pending = m.pending)
    (hstop : m'.st.stopRequested = m.st.stopRequested)
    (hready : ∀ e ∈ m'.st.ready, e.threadsafe = true → e ∈ m.st.ready)
    (hio : m.st.io = [] → m'.st.io = []) : m'.Watched ready io := by
  have hcov : m.Covered → m'.Covered := by
    unfold Covered
    rw [hpermit, hpending]
    exact id
  refine ⟨fun hs => hcov (h.stop (hstop ▸ hs)), ?_, fun hl hne => hcov (h.io hl ?_)⟩
  · rintro hl ⟨e, he, hts⟩
    exact hcov (h.ready hl ⟨e, hready e he hts, hts⟩)
  · exact fun hnil => hne (hio hnil)

/-- A step that leaves the program counter where it is. -/
theorem Awake.mono {m m' : Main κ} (h : m.Awake) (hpc : m'.pc = m.pc)
    (hpermit : m'.permit = m.permit) (hpending : m'.pending = m.pending)
    (hstop : m'.st.stopRequested = m.st.stopRequested)
    (hready : ∀ e ∈ m'.st.ready, e.threadsafe = true → e ∈ m.st.ready)
    (hio : m.st.io = [] → m'.st.io = []) : m'.Awake := by
  unfold Awake at h ⊢
  rw [hpc]
  split at h
  all_goals first | exact h.mono hpermit hpending hstop hready hio | trivial

/-- The steps of the loop thread: each check that finds nothing adds to what
is known. -/
theorem awake_run {m m' : Main κ} (h : m.Awake) (hs : m.run = some m') : m'.Awake := by
  cases runStep_of_run hs with
  | notStopped hpc hstop =>
      exact ⟨fun hs => absurd hs (by simp [hstop]), False.elim, False.elim⟩
  | notClosed hpc =>
      simp only [Awake, hpc] at h
      exact h.mono rfl rfl rfl (fun _ he _ => he) id
  | noReady hpc hready =>
      simp only [Awake, hpc] at h
      refine ⟨h.stop, ?_, False.elim⟩
      rintro _ ⟨e, he, _⟩
      exact absurd he (by simp [hready])
  | noIo hpc hio =>
      simp only [Awake, hpc] at h
      exact ⟨h.stop, h.ready, fun _ hne => absurd hio hne⟩
  | noTimers hpc | await hpc | sleep hpc =>
      simp only [Awake, hpc] at h
      exact h.mono rfl rfl rfl (fun _ he _ => he) id
  | again hpc hnext =>
      rcases hnext with rfl | rfl
      · trivial
      · trivial
  | _ => trivial

theorem awake_notifyOne (m : Main κ) (pending : List Nat) :
    ({ m.notifyOne with pending := pending } : Main κ).Awake := by
  unfold notifyOne
  split
  · trivial
  · exact awake_of_covered (.inl rfl)

theorem awake_step {m m' : Main κ} {mv : Move κ} (h : m.Awake) (hs : m.step mv = some m') :
    m'.Awake := by
  cases mv with
  | run => exact awake_run h hs
  | runForever =>
      obtain ⟨_, _, _, rfl⟩ := step_runForever hs
      trivial
  | returns exc =>
      obtain ⟨_, _, _, ⟨_, rfl⟩ | ⟨_, _, rfl⟩⟩ := step_returns hs
      · trivial
      · trivial
  | handled =>
      obtain ⟨_, _, _, rfl⟩ := step_handled hs
      trivial
  | op o =>
      obtain rfl := Option.some.inj hs
      have hcall := Op.called m.st o
      refine h.mono rfl rfl rfl hcall.flags.2 hcall.threadsafe fun hnil => ?_
      rcases hcall.io with heq | heq
      · exact heq.trans hnil
      · exact heq
  | callSoonThreadsafe i cb =>
      rw [step_callSoonThreadsafe hs]
      exact awake_of_covered (.inr (List.cons_ne_nil _ _))
  | stop i =>
      obtain rfl := Option.some.inj hs
      exact awake_of_covered (.inr (List.cons_ne_nil _ _))
  | pushIo i c =>
      obtain rfl := Option.some.inj hs
      refine awake_of_covered (.inr ?_)
      by_cases hi : i ∈ m.pending
      · simp only [if_pos hi]
        exact List.ne_nil_of_mem hi
      · simp [hi]
  | notifyOne i =>
      rw [step_notifyOne hs]
      exact awake_notifyOne m _
  | tick d =>
      obtain ⟨_, rfl⟩ := step_tick hs
      exact h.mono rfl rfl rfl rfl (fun _ he _ => he) id
  | timeout =>
      obtain ⟨_, _, _, rfl⟩ := step_timeout hs
      trivial

theorem awake_of_reach {m : Main κ} (h : MainReach m) : m.Awake := by
  refine h.invariant ?_ fun m mv m' hi _ hs => awake_step hi hs
  rintro m ⟨hpc, _⟩
  simp [Awake, hpc]

end Main

/-- **No lost wakeup.** In every run, when the loop is parked, has not been
notified, and no permit is stored and no notification is owed, then no entry
of `call_soon_threadsafe` is queued, no completion is queued, and no stop
request is waiting to be seen. -/
theorem parked_has_nothing_to_do {m : Main κ} {wakeAt : Option ℚ} (h : MainReach m)
    (hpc : m.pc = .parked wakeAt false) (hpermit : m.permit = false) (hpending : m.pending = []) :
    (∀ e ∈ m.st.ready, e.threadsafe = false) ∧ m.st.io = [] ∧ m.st.stopRequested = false := by
  have hnot : ¬m.Covered := by
    rintro (hp | hp)
    · simp [hpermit] at hp
    · exact hp hpending
  have hawake := Main.awake_of_reach h
  simp only [Main.Awake, hpc] at hawake
  refine ⟨fun e he => ?_, ?_, ?_⟩
  · by_contra hts
    exact hnot (hawake.ready trivial ⟨e, he, by simpa using hts⟩)
  · by_contra hne
    exact hnot (hawake.io trivial hne)
  · by_contra hstop
    exact hnot (hawake.stop (by simpa using hstop))

/-- A thread pushes while the loop is about to park, notifies, and the loop
parks only after running what was pushed. -/
theorem parked_has_nothing_to_do_example : ∃ m : Main Nat,
    m.pc = .parked none false ∧ m.st.nextHandle = 1 ∧
      ((∀ e ∈ m.st.ready, e.threadsafe = false) ∧ m.st.io = [] ∧ m.st.stopRequested = false) := by
  have hstart : MainReach (⟨LoopState.new Nat 0, .idle, false, []⟩ : Main Nat) :=
    .start ⟨rfl, rfl, rfl, rfl, rfl⟩
  obtain ⟨m, hrun, hend⟩ := hstart.exists_of_replay
    [.runForever :: List.replicate 12 .run, [.callSoonThreadsafe 1 7, .notifyOne 1],
      List.replicate 5 .run, .returns none :: List.replicate 12 .run].flatten
    (fun m => decide (m.pc = .parked none false) && (decide (m.st.nextHandle = 1) &&
      (!m.permit && decide (m.pending = [])))) (by decide +kernel)
  simp only [Bool.and_eq_true, decide_eq_true_eq, Bool.not_eq_true'] at hend
  obtain ⟨hpc, hhandle, hpermit, hpending⟩ := hend
  exact ⟨m, hpc, hhandle, parked_has_nothing_to_do hrun hpc hpermit hpending⟩

end Tokioop.Loop
