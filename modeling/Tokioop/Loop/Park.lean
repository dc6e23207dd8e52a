import Tokioop.Loop.Machine
import Mathlib.Tactic.Linarith

/-!
How long the loop may park.

`next_deadline` converts the distance to the earliest deadline with
`Duration::from_secs_f64`, which panics on what a `Duration` cannot hold.
Nothing between the Python argument and the conversion looks at the
deadline, and a cancelled timer keeps its place in the heap, so the
conversion is safe exactly as long as every deadline that goes into the heap
is within `2 ^ 64` seconds, by a margin: the distance is rounded to a double,
and from `2 ^ 64 - 2 ^ 10` on it is rounded to `2 ^ 64`.
-/

namespace Tokioop.Loop

open Kit

variable {κ : Type}

/-- At `clock`, the rounded distance to the deadline fits a `Duration` or the
deadline has passed. -/
def F64.Near (clock : ℚ) : F64 → Prop
  | .negInf => True
  | .fin q => q < clock + (2 ^ 64 - 2 ^ 10)
  | .nan | .posInf => False

instance (clock : ℚ) : (x : F64) → Decidable (x.Near clock)
  | .negInf => .isTrue trivial
  | .fin q => inferInstanceAs (Decidable (q < clock + (2 ^ 64 - 2 ^ 10)))
  | .nan => .isFalse id
  | .posInf => .isFalse id

theorem F64.Near.mono {x : F64} {c d : ℚ} (h : x.Near c) (hcd : c ≤ d) : x.Near d := by
  cases x with
  | negInf => trivial
  | fin q =>
      change q < d + (2 ^ 64 - 2 ^ 10)
      have hq : q < c + (2 ^ 64 - 2 ^ 10) := h
      linarith
  | nan => exact h.elim
  | posInf => exact h.elim

/-- The conversion panics exactly on the rounding of what is too far away. -/
theorem F64.fromSecsF64_round {q : ℚ} (h₀ : 0 < q) :
    fromSecsF64 (round q) = none ↔ ¬q < 2 ^ 64 - 2 ^ 10 := by
  rw [← nearest_lt_iff h₀, not_lt]
  have hpos := nearest_nonneg h₀.le
  have hlow : ¬nearest q ≤ -2 ^ 1024 :=
    not_le.mpr (lt_of_lt_of_le (neg_lt_zero.mpr (by positivity)) hpos)
  unfold round
  rw [if_neg hlow]
  split_ifs with hhigh
  · have hpow : (2 : ℚ) ^ 64 ≤ 2 ^ 1024 := pow_le_pow_right₀ one_le_two (by omega)
    exact iff_of_true rfl (hpow.trans hhigh)
  · simp [fromSecsF64, not_lt.mpr hpos]

/-- What is far away is not rounded to zero. -/
theorem F64.round_far {q : ℚ} (h₀ : 0 < q) (hfar : ¬q < 2 ^ 64 - 2 ^ 10) :
    (round q).le (.fin 0) = false := by
  rw [← nearest_lt_iff h₀, not_lt] at hfar
  have hpos : 0 < nearest q := lt_of_lt_of_le (by positivity) hfar
  have hlow : ¬nearest q ≤ -2 ^ 1024 :=
    not_le.mpr ((neg_lt_zero.mpr (by positivity)).trans hpos)
  unfold round
  rw [if_neg hlow]
  split_ifs
  · rfl
  · rw [le_fin, decide_eq_false_iff_not]
    exact not_le.mpr hpos

/-- The conversion panics exactly on a top deadline that is not near. -/
theorem LoopState.nextDeadline_error_iff (s : LoopState κ) (p : Panic) :
    s.nextDeadline = .error p ↔ ∃ top, s.peek = some top ∧ ¬top.when.Near s.clock := by
  unfold nextDeadline
  cases hpeek : s.peek with
  | none => simp
  | some top =>
      cases hw : top.when with
      | negInf => simp [F64.sub, F64.Near, hw]
      | posInf =>
          cases p
          simp [F64.sub, F64.Near, fromSecsF64, hw]
      | nan =>
          cases p
          simp [F64.sub, F64.Near, fromSecsF64, hw]
      | fin q =>
          cases p
          have hnear : (F64.fin q).Near s.clock ↔ q - s.clock < 2 ^ 64 - 2 ^ 10 :=
            sub_lt_iff_lt_add'.symm
          by_cases hdue : q - s.clock ≤ 0
          · have hpast := F64.round_le_zero hdue
            have hsoon : q - s.clock < 2 ^ 64 - 2 ^ 10 := by linarith
            simp [F64.sub, hw, hpast, hnear, hsoon]
          · have hround := F64.fromSecsF64_round (not_le.mp hdue)
            by_cases hzero : (F64.round (q - s.clock)).le (.fin 0) = true
            · have hsoon : q - s.clock < 2 ^ 64 - 2 ^ 10 := by
                by_contra hfar
                rw [F64.round_far (not_le.mp hdue) hfar] at hzero
                cases hzero
              simp [F64.sub, hw, hzero, hnear, hsoon]
            · cases hconv : fromSecsF64 (F64.round (q - s.clock)) with
              | none =>
                  rw [hconv] at hround
                  simp [F64.sub, hw, hzero, hconv, hnear, hround.mp rfl]
              | some d =>
                  rw [hconv] at hround
                  have hsoon : q - s.clock < 2 ^ 64 - 2 ^ 10 := by
                    by_contra hfar
                    cases hround.mpr hfar
                  simp [F64.sub, hw, hzero, hconv, hnear, hsoon]

theorem Op.timers_callAt {s : LoopState κ} {when : F64} {cb : κ} {t : TimerEntry κ}
    (h : t ∈ ((Op.callAt when cb).apply s).timers) : t ∈ s.timers ∨ t.when = when := by
  rw [Op.apply_callAt] at h
  split at h
  · exact .inl h
  · rcases List.mem_cons.mp h with rfl | h
    · exact .inr rfl
    · exact .inl h

namespace Main

/-- Every call of `call_at` and `call_later` asks for a deadline that is
`-inf` or finite and less than `2 ^ 64 - 2 ^ 10` seconds away. -/
def NearDeadline (m : Main κ) : Move κ → Prop
  | .op (.callAt when _) => when.Near m.st.clock
  | .op (.callLater delay _) => ((F64.fin m.st.clock).add delay).Near m.st.clock
  | _ => True

instance (m : Main κ) : (mv : Move κ) → Decidable (m.NearDeadline mv)
  | .op (.callAt when _) => inferInstanceAs (Decidable (when.Near m.st.clock))
  | .op (.callLater delay _) =>
      inferInstanceAs (Decidable (((F64.fin m.st.clock).add delay).Near m.st.clock))
  | .op (.callSoon _) | .op (.cancel _) | .op (.detach _) | .op (.watchers _) | .op .close
  | .run | .runForever | .returns _ | .handled | .callSoonThreadsafe _ _ | .stop _ | .pushIo _ _
  | .notifyOne _ | .tick _ | .timeout => .isTrue trivial

def TimersNear (m : Main κ) : Prop := ∀ t ∈ m.st.timers, t.when.Near m.st.clock

theorem timersNear_callAt {m : Main κ} {when : F64} {cb : κ} (h : m.TimersNear)
    (hnear : when.Near m.st.clock) :
    ({ m with st := (Op.callAt when cb).apply m.st } : Main κ).TimersNear := by
  intro t ht
  change t.when.Near ((Op.callAt when cb).apply m.st).clock
  rw [(Op.called m.st (.callAt when cb)).clock]
  rcases Op.timers_callAt ht with hold | rfl
  · exact h t hold
  · exact hnear

theorem timersNear_op {m : Main κ} {o : Op κ} (h : m.TimersNear) (hok : m.NearDeadline (.op o)) :
    ({ m with st := o.apply m.st } : Main κ).TimersNear := by
  cases o with
  | callAt when cb => exact timersNear_callAt h hok
  | callLater delay cb => exact timersNear_callAt h hok
  | callSoon cb =>
      unfold TimersNear
      rw [Op.apply_callSoon]
      split
      · exact h
      · exact h
  | close =>
      unfold TimersNear
      rw [Op.apply_close]
      split
      · exact h
      · exact fun t ht => absurd ht (by simp)
  | cancel _ => exact h
  | detach _ => exact h
  | watchers _ => exact h

theorem timersNear_step {m m' : Main κ} {mv : Move κ} (h : m.TimersNear)
    (hok : m.NearDeadline mv) (hs : m.step mv = some m') : m'.TimersNear := by
  cases mv with
  | run =>
      have hran := ran_of_run hs
      intro t ht
      rw [hran.clock]
      exact h t (hran.timers t ht)
  | op o =>
      obtain rfl := Option.some.inj hs
      exact timersNear_op h hok
  | tick d =>
      obtain ⟨hd, rfl⟩ := step_tick hs
      intro t ht
      refine (h t ht).mono ?_
      change m.st.clock ≤ m.st.clock + d
      linarith
  | runForever =>
      obtain ⟨_, _, _, rfl⟩ := step_runForever hs
      exact h
  | returns exc =>
      obtain ⟨_, _, _, ⟨_, rfl⟩ | ⟨_, _, rfl⟩⟩ := step_returns hs
      · exact h
      · exact h
  | handled =>
      obtain ⟨_, _, _, rfl⟩ := step_handled hs
      exact h
  | callSoonThreadsafe i cb =>
      rw [step_callSoonThreadsafe hs]
      exact h
  | stop i | pushIo i c =>
      obtain rfl := Option.some.inj hs
      exact h
  | notifyOne i =>
      rw [step_notifyOne hs]
      change ∀ t ∈ m.notifyOne.st.timers, t.when.Near m.notifyOne.st.clock
      rw [st_notifyOne]
      exact h
  | timeout =>
      obtain ⟨_, _, _, rfl⟩ := step_timeout hs
      exact h

end Main

/-- **The park duration exists.** In every run whose timers are all asked for
with a deadline of `-inf` or a finite one less than `2 ^ 64 - 2 ^ 10` seconds
away, `next_deadline` returns in every state, and so at every park. -/
theorem park_duration_exists {m : Main κ}
    (h : Runs Main.step Main.NearDeadline Main.Fresh m) : ∃ d, m.st.nextDeadline = .ok d := by
  have hnear : m.TimersNear := by
    refine h.invariant ?_ fun m mv m' hi hok hs => Main.timersNear_step hi hok hs
    rintro m ⟨clock, rfl⟩ t ht
    simp [LoopState.new] at ht
  cases hd : m.st.nextDeadline with
  | ok d => exact ⟨d, rfl⟩
  | error p =>
      obtain ⟨top, hpeek, hfar⟩ := (m.st.nextDeadline_error_iff p).mp hd
      exact absurd (hnear top (LoopState.peek_mem hpeek)) hfar

def toFirstPark : List (Move Nat) := .runForever :: List.replicate 13 .run

def parkWith (when : F64) (cancelled : List Handle) : Main Nat :=
  ⟨{ LoopState.new Nat 0 with
      timers := [⟨when, 0, ⟨7, 0, false⟩⟩], seq := 1, running := true, nextHandle := 1,
      cancelled := cancelled }, .park, false, []⟩

/-- A timer five seconds ahead and a park. -/
theorem park_duration_exists_example :
    (parkWith (.fin 5) []).pc = .park ∧ ∃ d, (parkWith (.fin 5) []).st.nextDeadline = .ok d := by
  have hstart : Runs Main.step Main.NearDeadline Main.Fresh
      (⟨LoopState.new Nat 0, .idle, false, []⟩ : Main Nat) := .start ⟨0, rfl⟩
  have hrun : Runs Main.step Main.NearDeadline Main.Fresh (parkWith (.fin 5) []) :=
    hstart.of_replay (.op (.callLater (.fin 5) 7) :: toFirstPark) (by decide +kernel)
  exact ⟨rfl, park_duration_exists hrun⟩

/-- A timer at `+inf`, already cancelled, takes the loop down at its first
park. -/
theorem park_panics_at_infinity : ∃ m : Main Nat,
    Runs Main.step (fun _ _ => True) Main.Fresh m ∧ m.pc = .park ∧ m.st.cancelled = [0] ∧
      m.st.nextDeadline = .error .fromSecsF64 ∧
      m.run.map Main.pc = some (.panicked .fromSecsF64) := by
  have hstart : Runs Main.step (fun _ _ => True) Main.Fresh
      (⟨LoopState.new Nat 0, .idle, false, []⟩ : Main Nat) := .start ⟨0, rfl⟩
  have hrun : Runs Main.step (fun _ _ => True) Main.Fresh (parkWith .posInf [0]) :=
    hstart.of_replay (.op (.callAt .posInf 7) :: .op (.cancel 0) :: toFirstPark) (by decide +kernel)
  exact ⟨parkWith .posInf [0], hrun, rfl, rfl, rfl, rfl⟩

end Tokioop.Loop
