import Mathlib.Data.List.Basic
import Tokioop.Executor.State

/-!
Shutting down the default executor.

The report of a thread is the last thing that it does with the loop, so that
joining the thread cannot hold the loop up for good. What a call has shut down
when it returns has no work left and will get none: whoever submits asks first
whether the executor refuses, and shutting down makes it refuse before it waits.
-/

namespace Tokioop.Executor

open Kit

namespace ThreadPc

/-- The executor that `shutdown` has come back for. -/
def served : ThreadPc → Option Nat
  | .stopped e | .reporting e => some e
  | .posted o | .finished o => o
  | .start | .found _ | .stopping _ | .failed | .complaining => none

/-- The thread may have made its report. -/
def sent : ThreadPc → Bool
  | .posted _ | .finished _ => true
  | .start | .found _ | .stopping _ | .stopped _ | .reporting _ | .failed | .complaining => false

end ThreadPc

namespace Host

variable {s s' : Host} {i : Nat} {c : Shutdown}

/-- Nothing is left of the executor's work, and nothing will be added. -/
def Stopped (s : Host) (e : Nat) : Prop := s.executors[e]? = some ⟨true, 0⟩

/-- The reports to a call that the loop has still to deliver. -/
def mail (s : Host) (i : Nat) : List Report := s.ready.filter (·.call = i)

/-- A call, its thread and what is between them. -/
structure CallOk (s : Host) (i : Nat) (c : Shutdown) : Prop where
  found : ∀ e, c.thread = .found e → e < s.executors.length
  stopping : ∀ e, c.thread = .stopping e → ∃ w, s.executors[e]? = some w ∧ w.refusing = true
  served : ∀ e, c.thread.served = some e → s.Stopped e
  settled : c.future = .result ∨ c.future = .exception → c.thread.sent = true
  result : c.future = .result → ∃ e, c.thread.served = some e
  joined : c.pc = .joining ∨ c.pc = .returned → c.future = .result
  returned : c.pc = .returned → ∃ o, c.thread = .finished o
  mail : s.mail i = [] ∨ c.thread.sent = true ∧ (c.future = .pending ∨ c.future = .cancelled) ∧
    s.mail i = [⟨i, c.thread.served.isSome⟩]

structure Inv (s : Host) : Prop where
  calls : ∀ i c, s.shutdowns[i]? = some c → CallOk s i c
  default : ∀ e, s.default = some e → e < s.executors.length
  called : s.shutdowns ≠ [] → s.shutdownCalled = true
  ready : ∀ r ∈ s.ready, r.call < s.shutdowns.length
  invalid : ∀ i ∈ s.invalid, ∃ c, s.shutdowns[i]? = some c ∧ c.future = .cancelled ∧
    c.thread.sent = true ∧ c.thread.served = none

/-! ### Executors only wind down -/

/-- Executors stay, and those that refuse work get none. -/
def Winds (s s' : Host) : Prop := ∀ (e : Nat) (w : Workers), s.executors[e]? = some w →
  ∃ w' : Workers, s'.executors[e]? = some w' ∧
    (w.refusing = true → w'.refusing = true ∧ w'.pending ≤ w.pending)

theorem Winds.refl (s : Host) : Winds s s := fun _ w h => ⟨w, h, fun hr => ⟨hr, Nat.le_refl _⟩⟩

theorem Winds.of_eq (h : s'.executors = s.executors) : Winds s s' := fun e w hw =>
  ⟨w, by rw [h]; exact hw, fun hr => ⟨hr, Nat.le_refl _⟩⟩

theorem Winds.trans {s'' : Host} (h : Winds s s') (h' : Winds s' s'') : Winds s s'' := by
  intro e w hw
  obtain ⟨w', hw', hr⟩ := h e w hw
  obtain ⟨w'', hw'', hr'⟩ := h' e w' hw'
  refine ⟨w'', hw'', fun hrefusing => ?_⟩
  obtain ⟨h₁, h₂⟩ := hr hrefusing
  exact ⟨(hr' h₁).1, Nat.le_trans (hr' h₁).2 h₂⟩

theorem Winds.length (h : Winds s s') : s.executors.length ≤ s'.executors.length := by
  by_contra hlt
  obtain ⟨w, hw⟩ : ∃ w, s.executors[s'.executors.length]? = some w :=
    ⟨_, List.getElem?_eq_getElem (by omega)⟩
  obtain ⟨w', hw', -⟩ := h _ _ hw
  rw [List.getElem?_eq_none (Nat.le_refl _)] at hw'
  cases hw'

theorem Winds.stopped (h : Winds s s') {e : Nat} (hs : s.Stopped e) : s'.Stopped e := by
  obtain ⟨⟨refusing, pending⟩, hw', hr⟩ := h e _ hs
  obtain ⟨h₁, h₂⟩ := hr rfl
  rw [Stopped, hw']
  cases h₁
  rw [Nat.le_zero.mp (show pending ≤ 0 from h₂)]

theorem winds_modify {e : Nat} {f : Workers → Workers} (hf : ∀ w, s.executors[e]? = some w →
    w.refusing = true → (f w).refusing = true ∧ (f w).pending ≤ w.pending) :
    Winds s (s.modifyExecutor e f) := by
  intro e' w hw
  by_cases he : e = e'
  · subst he
    exact ⟨f w, by simp [modifyExecutor, hw], hf w hw⟩
  · exact ⟨w, by simp [modifyExecutor, he, hw], fun hr => ⟨hr, Nat.le_refl _⟩⟩

theorem winds_refuse (s : Host) (e : Nat) : Winds s (s.refuse e) :=
  winds_modify fun _ _ _ => ⟨rfl, Nat.le_refl _⟩

/-- Only an executor that accepts work gets some. -/
theorem winds_submit {e : Nat} (h : s.submit e = .ok s') : Winds s s' := by
  unfold submit at h
  split at h
  · cases h
  · rename_i hw
    cases h
    refine winds_modify fun w hw' hr => ?_
    rw [hw'] at hw
    exact absurd hr hw

theorem winds_append (s : Host) (w : Workers) :
    Winds s { s with executors := s.executors ++ [w] } := by
  intro e w' hw'
  have hlt := (List.getElem?_eq_some_iff.mp hw').1
  exact ⟨w', by rw [List.getElem?_append_left hlt]; exact hw', fun hr => ⟨hr, Nat.le_refl _⟩⟩

theorem winds_runInExecutor {executor : Option Nat} (h : s.runInExecutor executor = .ok s') :
    Winds s s' ∧ s'.shutdowns = s.shutdowns ∧ s'.shutdownCalled = s.shutdownCalled ∧
      s'.ready = s.ready ∧ s'.invalid = s.invalid ∧
      ∀ e, s'.default = some e → s.default = some e ∨ e < s'.executors.length := by
  have hsubmit : ∀ {u v : Host} {e : Nat}, u.submit e = .ok v → Winds u v ∧
      v.shutdowns = u.shutdowns ∧ v.shutdownCalled = u.shutdownCalled ∧ v.ready = u.ready ∧
      v.invalid = u.invalid ∧ v.default = u.default := by
    intro u v e huv
    have hw := winds_submit huv
    unfold submit at huv
    split at huv
    · cases huv
    · cases huv
      exact ⟨hw, rfl, rfl, rfl, rfl, rfl⟩
  unfold runInExecutor at h
  split at h
  · cases h
  · split at h
    · obtain ⟨hw, h₁, h₂, h₃, h₄, h₅⟩ := hsubmit h
      exact ⟨hw, h₁, h₂, h₃, h₄, fun e he => .inl (h₅ ▸ he)⟩
    · split at h
      · cases h
      · split at h
        · obtain ⟨hw, h₁, h₂, h₃, h₄, h₅⟩ := hsubmit h
          exact ⟨hw, h₁, h₂, h₃, h₄, fun e he => .inl (h₅ ▸ he)⟩
        · -- The executor is a new one.
          obtain ⟨hw, h₁, h₂, h₃, h₄, h₅⟩ := hsubmit h
          have hnew : Winds s { s with
              executors := s.executors ++ [⟨false, 0⟩], default := some s.executors.length } :=
            (winds_append s _).trans (.of_eq rfl)
          refine ⟨hnew.trans hw, h₁, h₂, h₃, h₄, fun e he => .inr ?_⟩
          cases h₅.symm.trans he
          refine Nat.lt_of_lt_of_le ?_ hw.length
          simp

/-! ### What a step leaves in order -/

theorem CallOk.frame (h : CallOk s i c) (hw : Winds s s') (hm : s'.mail i = s.mail i) :
    CallOk s' i c := by
  refine ⟨fun e he => Nat.lt_of_lt_of_le (h.found e he) hw.length, fun e he => ?_,
    fun e he => hw.stopped (h.served e he), h.settled, h.result, h.joined, h.returned,
    by rw [hm]; exact h.mail⟩
  obtain ⟨w, hw₀, hr⟩ := h.stopping e he
  obtain ⟨w', hw', hrefusing⟩ := hw e w hw₀
  exact ⟨w', hw', (hrefusing hr).1⟩

/-- A step that concerns no call. -/
theorem Inv.frame (h : Inv s) (hw : Winds s s') (hshutdowns : s'.shutdowns = s.shutdowns)
    (hcalled : s.shutdownCalled = true → s'.shutdownCalled = true) (hready : s'.ready = s.ready)
    (hinvalid : s'.invalid = s.invalid)
    (hdefault : ∀ e, s'.default = some e → s.default = some e ∨ e < s'.executors.length) :
    Inv s' := by
  refine ⟨fun i c hc => ?_, fun e he => ?_, fun hne => hcalled (h.called (hshutdowns ▸ hne)),
    fun r hr => ?_, fun i hi => ?_⟩
  · exact (h.calls i c (hshutdowns ▸ hc)).frame hw (by rw [mail, mail, hready])
  · exact (hdefault e he).elim (fun h' => Nat.lt_of_lt_of_le (h.default e h') hw.length) id
  · rw [hshutdowns]
    exact h.ready r (hready ▸ hr)
  · rw [hshutdowns]
    exact h.invalid i (hinvalid ▸ hi)

/-- A step of one call. -/
theorem Inv.modify (h : Inv s) (hc : s.shutdowns[i]? = some c) {f : Shutdown → Shutdown}
    (hw : Winds s s') (hshutdowns : s'.shutdowns = s.shutdowns.modify i f)
    (hmail : ∀ j, j ≠ i → s'.mail j = s.mail j)
    (hready : ∀ r ∈ s'.ready, r ∈ s.ready ∨ r.call = i) (hdefault : s'.default = s.default)
    (hcalled : s'.shutdownCalled = s.shutdownCalled) (hinvalid : s'.invalid = s.invalid)
    (hcall : CallOk s' i (f c))
    (hstay : c.future = .cancelled → c.thread.sent = true → (f c).future = .cancelled ∧
      (f c).thread.sent = true ∧ (f c).thread.served = c.thread.served) : Inv s' := by
  have hat : s'.shutdowns[i]? = some (f c) := by rw [hshutdowns]; simp [hc]
  have hother : ∀ j, j ≠ i → s'.shutdowns[j]? = s.shutdowns[j]? := fun j hj => by
    rw [hshutdowns]; simp [Ne.symm hj]
  have hlength : s'.shutdowns.length = s.shutdowns.length := by
    rw [hshutdowns, List.length_modify]
  have hne : s.shutdowns ≠ [] := List.ne_nil_of_mem (List.mem_of_getElem? hc)
  refine ⟨fun j d hd => ?_, fun e he => ?_, fun _ => hcalled.trans (h.called hne), fun r hr => ?_,
    fun j hj => ?_⟩
  · by_cases hji : j = i
    · subst hji
      cases hat.symm.trans hd
      exact hcall
    · exact (h.calls j d ((hother j hji).symm.trans hd)).frame hw (hmail j hji)
  · exact Nat.lt_of_lt_of_le (h.default e (hdefault ▸ he)) hw.length
  · rw [hlength]
    rcases hready r hr with hr | hr
    · exact h.ready r hr
    · rw [hr]
      exact (List.getElem?_eq_some_iff.mp hc).1
  · obtain ⟨d, hd, hfuture, hsent, hserved⟩ := h.invalid j (hinvalid ▸ hj)
    by_cases hji : j = i
    · subst hji
      cases hc.symm.trans hd
      obtain ⟨h₁, h₂, h₃⟩ := hstay hfuture hsent
      exact ⟨_, hat, h₁, h₂, h₃.trans hserved⟩
    · exact ⟨d, (hother j hji).trans hd, hfuture, hsent, hserved⟩

/-- A step of the coroutine, which leaves the thread alone. -/
theorem CallOk.coroutine (h : CallOk s i c) {c' : Shutdown} (hthread : c'.thread = c.thread)
    (hfuture : c'.future = c.future ∨ c.future = .pending ∧ c'.future = .cancelled)
    (hjoined : c'.pc = .joining ∨ c'.pc = .returned → c'.future = .result)
    (hreturned : c'.pc = .returned → ∃ o, c.thread = .finished o) : CallOk s i c' := by
  refine ⟨hthread ▸ h.found, hthread ▸ h.stopping, hthread ▸ h.served, fun hf => ?_,
    fun hf => ?_, hjoined, hthread ▸ hreturned, ?_⟩
  · rcases hfuture with hsame | ⟨-, hcancelled⟩
    · exact hthread ▸ h.settled (hsame ▸ hf)
    · rw [hcancelled] at hf
      rcases hf with hf | hf <;> cases hf
  · rcases hfuture with hsame | ⟨-, hcancelled⟩
    · exact hthread ▸ h.result (hsame ▸ hf)
    · rw [hcancelled] at hf
      cases hf
  · rw [hthread]
    refine h.mail.imp_right fun ⟨hsent, hopen, hm⟩ => ⟨hsent, ?_, hm⟩
    rcases hfuture with hsame | ⟨-, hcancelled⟩
    · rw [hsame]
      exact hopen
    · exact .inr hcancelled

/-- A step of a thread that has not made its report. -/
theorem CallOk.before (h : CallOk s i c) (hsent : c.thread.sent = false) :
    s.mail i = [] ∧ (c.future = .pending ∨ c.future = .cancelled) ∧
      ¬(c.pc = .joining ∨ c.pc = .returned) := by
  have hnot : ¬ c.thread.sent = true := by rw [hsent]; exact Bool.false_ne_true
  refine ⟨h.mail.resolve_right fun hm => hnot hm.1, ?_, fun hpc =>
    hnot (h.settled (.inl (h.joined hpc)))⟩
  cases hf : c.future with
  | pending => exact .inl rfl
  | cancelled => exact .inr rfl
  | result => exact absurd (h.settled (.inl hf)) hnot
  | exception => exact absurd (h.settled (.inr hf)) hnot

theorem CallOk.thread (h : CallOk s i c) (hsent : c.thread.sent = false) {pc : ThreadPc}
    (hfound : ∀ e, pc = .found e → e < s'.executors.length)
    (hstopping : ∀ e, pc = .stopping e → ∃ w, s'.executors[e]? = some w ∧ w.refusing = true)
    (hserved : ∀ e, pc.served = some e → s'.Stopped e)
    (hmail : s'.mail i = [] ∨ pc.sent = true ∧ s'.mail i = [⟨i, pc.served.isSome⟩]) :
    CallOk s' i { c with thread := pc } := by
  obtain ⟨-, hopen, hpc⟩ := h.before hsent
  have hnot : ¬(c.future = .result ∨ c.future = .exception) := by
    rcases hopen with hf | hf <;> rw [hf] <;> rintro (h | h) <;> cases h
  exact ⟨hfound, hstopping, hserved, fun hf => absurd hf hnot, fun hf => absurd (.inl hf) hnot,
    fun h => absurd h hpc, fun h => absurd (.inr h) hpc,
    hmail.imp_right fun hm => ⟨hm.1, hopen, hm.2⟩⟩

/-! ### Each step -/

theorem Inv.setThread (h : Inv s) (hc : s.shutdowns[i]? = some c) (hsent : c.thread.sent = false)
    {pc : ThreadPc} (hfound : ∀ e, pc = .found e → e < s.executors.length)
    (hstopping : ∀ e, pc ≠ .stopping e) (hserved : ∀ e, pc.served = some e → s.Stopped e) :
    Inv (s.setThread i pc) := by
  have hcall := h.calls i c hc
  refine h.modify hc (.of_eq rfl) rfl (fun _ _ => rfl) (fun _ hr => .inl hr) rfl rfl rfl
    (hcall.thread hsent hfound (fun e he => absurd he (hstopping e)) hserved
      (.inl (hcall.before hsent).1)) fun _ hs => ?_
  rw [hsent] at hs
  cases hs

theorem Inv.post (h : Inv s) (hc : s.shutdowns[i]? = some c) (hsent : c.thread.sent = false)
    {o : Option Nat} (hserved : ∀ e, o = some e → s.Stopped e) : Inv (s.post i o) := by
  have hcall := h.calls i c hc
  refine h.modify hc (.of_eq rfl) rfl (fun j hj => ?_) (fun r hr => ?_) rfl rfl rfl
    (hcall.thread hsent (fun _ he => by cases he) (fun _ he => by cases he) hserved
      (.inr ⟨rfl, ?_⟩))
    fun _ hs => ?_
  · show (s.ready ++ [_]).filter _ = s.ready.filter _
    simp [List.filter_append, Ne.symm hj]
  · rcases List.mem_append.mp hr with hr | hr
    · exact .inl hr
    · rw [List.mem_singleton.mp hr]
      exact .inr rfl
  · show (s.ready ++ [_]).filter _ = _
    rw [List.filter_append, show s.ready.filter _ = [] from (hcall.before hsent).1]
    simp [ThreadPc.served]
  · rw [hsent] at hs
    cases hs

theorem Inv.threadStep (h : Inv s) (hc : s.shutdowns[i]? = some c) {raises : Bool}
    (hs : s.threadStep i c raises = some s') : Inv s' := by
  have hcall := h.calls i c hc
  have hnone : ∀ {pc : ThreadPc}, pc.served = none → ∀ e, pc.served = some e → s.Stopped e := by
    intro pc hpc e he
    rw [hpc] at he
    cases he
  unfold Host.threadStep at hs
  cases hthread : c.thread with
  | start =>
      have hsent : c.thread.sent = false := by rw [hthread]; rfl
      rw [hthread] at hs
      cases hdefault : s.default with
      | none =>
          simp only [hdefault] at hs
          cases hs
          exact h.setThread hc hsent (fun _ he => by cases he) (fun _ he => by cases he) (hnone rfl)
      | some e =>
          simp only [hdefault] at hs
          cases hs
          refine h.setThread hc hsent (fun e' he => ?_) (fun _ he => by cases he) (hnone rfl)
          cases he
          exact h.default e hdefault
  | found e =>
      have hsent : c.thread.sent = false := by rw [hthread]; rfl
      have hlt := hcall.found e hthread
      rw [hthread] at hs
      cases hs
      have hnext : CallOk ((s.refuse e).setThread i (.stopping e)) i
          { c with thread := .stopping e } := by
        refine hcall.thread hsent (fun _ he => by cases he) (fun e' he => ?_)
          (fun e' he => by cases he) (.inl (hcall.before hsent).1)
        cases he
        refine ⟨{ s.executors[e] with refusing := true }, ?_, rfl⟩
        show (s.executors.modify e _)[e]? = _
        simp [hlt]
      refine h.modify hc (winds_refuse s e) rfl (fun _ _ => rfl) (fun _ hr => .inl hr) rfl rfl
        rfl hnext fun _ hs => ?_
      rw [hsent] at hs
      cases hs
  | stopping e =>
      have hsent : c.thread.sent = false := by rw [hthread]; rfl
      rw [hthread] at hs
      dsimp only at hs
      split at hs
      · cases hs
        exact h.setThread hc hsent (fun _ he => by cases he) (fun _ he => by cases he) (hnone rfl)
      · split at hs
        · rename_i hdone
          cases hs
          refine h.setThread hc hsent (fun _ he => by cases he) (fun _ he => by cases he)
            fun e' he => ?_
          cases he
          -- It has been refusing since it was told to stop.
          obtain ⟨⟨refusing, pending⟩, hw, hr⟩ := hcall.stopping e hthread
          rw [hw] at hdone
          cases hdone
          cases hr
          exact hw
        · cases hs
  | stopped e =>
      have hsent : c.thread.sent = false := by rw [hthread]; rfl
      have hserved : s.Stopped e := hcall.served e (by rw [hthread]; rfl)
      rw [hthread] at hs
      dsimp only at hs
      split at hs
      all_goals
        cases hs
        exact h.setThread hc hsent (fun _ he => by cases he) (fun _ he => by cases he)
          fun e' he => by cases he; exact hserved
  | reporting e =>
      have hsent : c.thread.sent = false := by rw [hthread]; rfl
      have hserved : s.Stopped e := hcall.served e (by rw [hthread]; rfl)
      rw [hthread] at hs
      dsimp only at hs
      split at hs
      · cases hs
        exact h.setThread hc hsent (fun _ he => by cases he) (fun _ he => by cases he) (hnone rfl)
      · cases hs
        exact h.post hc hsent fun e' he => by cases he; exact hserved
  | failed =>
      have hsent : c.thread.sent = false := by rw [hthread]; rfl
      rw [hthread] at hs
      dsimp only at hs
      split at hs
      all_goals
        cases hs
        exact h.setThread hc hsent (fun _ he => by cases he) (fun _ he => by cases he) (hnone rfl)
  | complaining =>
      have hsent : c.thread.sent = false := by rw [hthread]; rfl
      rw [hthread] at hs
      dsimp only at hs
      split at hs
      · cases hs
        exact h.setThread hc hsent (fun _ he => by cases he) (fun _ he => by cases he) (hnone rfl)
      · cases hs
        exact h.post hc hsent fun e' he => by cases he
  | posted o =>
      rw [hthread] at hs
      cases hs
      have hserved : (ThreadPc.finished o).served = c.thread.served := by rw [hthread]; rfl
      refine h.modify hc (.of_eq rfl) rfl (fun _ _ => rfl) (fun _ hr => .inl hr) rfl rfl rfl
        ⟨fun e he => ?_, fun e he => ?_, fun e he => hcall.served e (hserved ▸ he), fun _ => rfl,
          fun hf => ?_, hcall.joined, fun hpc => ⟨o, rfl⟩, ?_⟩ fun hf _ => ⟨hf, rfl, hserved⟩
      · cases he
      · cases he
      · obtain ⟨e, he⟩ := hcall.result hf
        exact ⟨e, hserved.trans he⟩
      · refine hcall.mail.imp_right fun hm => ⟨rfl, hm.2.1, ?_⟩
        rw [show (ThreadPc.finished o).served = _ from hserved]
        exact hm.2.2
  | finished o =>
      rw [hthread] at hs
      cases hs

/-- A step of the coroutine. -/
theorem Inv.coroutine (h : Inv s) (hc : s.shutdowns[i]? = some c) {f : Shutdown → Shutdown}
    (hthread : (f c).thread = c.thread)
    (hfuture : (f c).future = c.future ∨ c.future = .pending ∧ (f c).future = .cancelled)
    (hjoined : (f c).pc = .joining ∨ (f c).pc = .returned → (f c).future = .result)
    (hreturned : (f c).pc = .returned → ∃ o, c.thread = .finished o) :
    Inv (s.modifyCall i f) := by
  refine h.modify hc (.of_eq rfl) rfl (fun _ _ => rfl) (fun _ hr => .inl hr) rfl rfl rfl
    (CallOk.frame ((h.calls i c hc).coroutine hthread hfuture hjoined hreturned) (.of_eq rfl) rfl)
    fun hf hs => ⟨?_, ?_, ?_⟩
  · rcases hfuture with hsame | ⟨hpending, -⟩
    · exact hsame.trans hf
    · rw [hf] at hpending
      cases hpending
  · rw [hthread]
    exact hs
  · rw [hthread]

theorem interrupt_future (c : Shutdown) :
    c.interrupt.future = c.future ∨ c.future = .pending ∧ c.interrupt.future = .cancelled := by
  unfold Shutdown.interrupt
  dsimp only
  split
  · rename_i hf
    exact .inr ⟨hf, rfl⟩
  · exact .inl rfl

theorem Inv.refuse (h : Inv s) (e : Nat) : Inv (s.refuse e) :=
  h.frame (winds_refuse s e) rfl id rfl rfl fun _ he => .inl he

theorem Inv.resume (h : Inv s) (hc : s.shutdowns[i]? = some c) (timeoutError : Bool) :
    Inv (s.resume i c timeoutError) := by
  have hstay : ∀ {u : Host} {pc : CallPc}, Inv u → u.shutdowns[i]? = some c → pc ≠ .returned →
      (pc = .joining → c.future = .result) → Inv (u.modifyCall i fun c => { c with pc }) := by
    intro u pc hu hcu hret hjoin
    exact hu.coroutine hcu rfl (.inl rfl) (fun hpc => hjoin (hpc.resolve_right hret))
      fun hpc => absurd hpc hret
  have hraised : Inv (s.modifyCall i fun c => { c with pc := .raised }) :=
    hstay h hc (by decide) fun hpc => by cases hpc
  have hwarned : Inv (s.warn i) := by
    unfold warn
    split
    · exact hstay (h.refuse _) hc (by decide) fun hpc => by cases hpc
    · exact hraised
  unfold Host.resume
  split
  · exact hraised
  · split
    · exact hwarned
    · split
      · rename_i hf
        exact hstay h hc (by decide) fun _ => hf
      · split
        · exact hwarned
        · exact hraised
      all_goals exact hraised

/-- The report that is run is the one that the call has been waiting for. -/
theorem Inv.deliver (h : Inv s) {r : Report} {rest : List Report} (hready : s.ready = r :: rest)
    (hc : s.shutdowns[r.call]? = some c) : Inv (deliver { s with ready := rest } r c) := by
  have hcall := h.calls r.call c hc
  have hmail : s.mail r.call = r :: rest.filter (·.call = r.call) := by
    rw [mail, hready, List.filter_cons_of_pos (by simp)]
  obtain ⟨hsent, hopen, hm⟩ := hcall.mail.resolve_left (by rw [hmail]; exact List.cons_ne_nil _ _)
  obtain ⟨hr, hrest⟩ := List.cons_eq_cons.mp (hmail.symm.trans hm)
  have hok : r.ok = c.thread.served.isSome := by rw [hr]
  -- Without the report, and perhaps with another future.
  have hset : ∀ {f : Shutdown → Shutdown}, (f c).thread = c.thread → (f c).pc = c.pc →
      ((f c).future = .result → ∃ e, c.thread.served = some e) →
      ((f c).future = c.future ∨ c.future ≠ .cancelled) →
      Inv (modifyCall { s with ready := rest } r.call f) := by
    intro f hthread hpc hresult hkeep
    have hidle : ¬(c.pc = .joining ∨ c.pc = .returned) := fun hp => by
      rw [hcall.joined hp] at hopen
      rcases hopen with hf | hf <;> cases hf
    refine h.modify hc (.of_eq rfl) rfl (fun j hj => ?_) (fun r' hr' => .inl ?_) rfl rfl rfl
      ⟨hthread ▸ hcall.found, hthread ▸ hcall.stopping, hthread ▸ hcall.served,
        fun _ => hthread ▸ hsent,
        fun hf => hthread ▸ hresult hf, fun hp => absurd (hpc ▸ hp) hidle,
        fun hp => absurd (.inr (hpc ▸ hp)) hidle, .inl hrest⟩ fun hf hs => ⟨?_, ?_, ?_⟩
    · show rest.filter _ = s.ready.filter _
      rw [hready, List.filter_cons_of_neg (by simpa using Ne.symm hj)]
    · rw [hready]
      exact List.mem_cons_of_mem _ hr'
    · exact (hkeep.resolve_right fun hne => hne hf).trans hf
    · rw [hthread]
      exact hs
    · rw [hthread]
  have hsame : Inv { s with ready := rest } := by
    have hnext := hset (f := id) rfl rfl hcall.result (.inl rfl)
    rwa [show modifyCall { s with ready := rest } r.call id = { s with ready := rest } by
      simp [modifyCall]] at hnext
  unfold Host.deliver
  split
  · exact hsame
  · rename_i hrefused
    split
    · rename_i hpending
      refine hset rfl rfl (fun hf => ?_) (.inr (by rw [hpending]; decide))
      dsimp only at hf
      split at hf
      · rename_i hrok
        exact Option.isSome_iff_exists.mp (hok.symm.trans hrok)
      · cases hf
    · -- The future has been cancelled since the thread looked.
      rename_i hpending
      have hcancelled := hopen.resolve_left hpending
      have hrok : r.ok = false := by simpa [hcancelled] using hrefused
      refine ⟨fun i d hd => (hsame.calls i d hd).frame (.of_eq rfl) rfl, hsame.default,
        hsame.called, hsame.ready, fun i hi => ?_⟩
      rcases List.mem_append.mp hi with hi | hi
      · exact hsame.invalid i hi
      · rw [List.mem_singleton.mp hi]
        refine ⟨c, hc, hcancelled, hsent, ?_⟩
        exact Option.isNone_iff_eq_none.mp (by rw [← Option.not_isSome, ← hok, hrok]; rfl)

theorem Inv.shutdown (h : Inv s) (timed : Bool) : Inv (s.shutdown timed) := by
  unfold Host.shutdown
  dsimp only
  split
  · exact h.frame (.of_eq rfl) rfl (fun _ => rfl) rfl rfl fun _ he => .inl he
  · -- The thread of the new call has not done anything yet.
    have hnew : s.mail s.shutdowns.length = [] := by
      rw [mail, List.filter_eq_nil_iff]
      intro r hr
      have hlt := h.ready r hr
      simp only [decide_eq_true_eq]
      omega
    refine ⟨fun i c hc => ?_, h.default, fun _ => rfl, fun r hr => ?_, fun i hi => ?_⟩
    · rw [List.getElem?_append] at hc
      split at hc
      · exact (h.calls i c hc).frame (.of_eq rfl) rfl
      · rename_i hge
        have hi : i = s.shutdowns.length := by
          by_contra hne
          rw [List.getElem?_eq_none (by simp; omega)] at hc
          cases hc
        subst hi
        simp only [Nat.sub_self, List.getElem?_cons_zero, Option.some.injEq] at hc
        subst hc
        refine ⟨fun e he => ?_, fun e he => ?_, fun e he => ?_, fun hf => ?_, fun hf => ?_,
          fun hpc => ?_, fun hpc => ?_, .inl hnew⟩
        · cases he
        · cases he
        · cases he
        · rcases hf with hf | hf <;> cases hf
        · cases hf
        · rcases hpc with hpc | hpc <;> cases hpc
        · cases hpc
    · rw [List.length_append]
      exact Nat.lt_add_right _ (h.ready r hr)
    · obtain ⟨c, hc, hrest⟩ := h.invalid i hi
      exact ⟨c, by rw [List.getElem?_append_left (List.getElem?_eq_some_iff.mp hc).1]; exact hc,
        hrest⟩

theorem Inv.close (h : Inv s) : Inv s.close := by
  have hdrained : Inv { s with closed := true, ready := [], shutdownCalled := true } := by
    refine ⟨fun i c hc => ?_, h.default, fun _ => rfl, fun r hr => ?_, h.invalid⟩
    · have hcall := h.calls i c hc
      exact ⟨hcall.found, hcall.stopping, hcall.served, hcall.settled, hcall.result,
        hcall.joined, hcall.returned, .inl rfl⟩
    · cases hr
  unfold Host.close
  dsimp only
  split
  · refine (hdrained.refuse _).frame (.of_eq rfl) rfl id rfl rfl fun e he => ?_
    cases he
  · exact hdrained

theorem onLoop_eq_some {o : Option Host} : s.onLoop o = some s' ↔
    (s.closed || s.blocked) = false ∧ o = some s' := by
  unfold onLoop
  split
  · rename_i hb
    simp [hb]
  · rename_i hb
    rw [Bool.not_eq_true] at hb
    simp [hb]

theorem Inv.step (h : Inv s) {m : Move} (hs : s.step m = some s') : Inv s' := by
  have hat : ∀ {i : Nat} {f : Shutdown → Option Host}, s.atCall i f = some s' →
      ∃ c, s.shutdowns[i]? = some c ∧ f c = some s' := Option.bind_eq_some_iff.mp
  cases m with
  | create =>
      cases hs
      exact h.frame (winds_append s _) rfl id rfl rfl fun _ he => .inl he
  | refuse e =>
      cases hs
      exact h.refuse e
  | work e =>
      simp only [Host.step] at hs
      split at hs
      · cases hs
      · cases hs
        exact h.frame (winds_modify fun _ _ hr => ⟨hr, Nat.sub_le _ _⟩) rfl id rfl rfl
          fun _ he => .inl he
  | setDefault e =>
      simp only [Host.step] at hs
      split at hs
      · cases hs
      · split at hs
        · rename_i hlt
          cases hs
          exact h.frame (.of_eq rfl) rfl id rfl rfl fun e' he => .inr (by cases he; exact hlt)
        · cases hs
  | runInExecutor executor =>
      simp only [Host.step] at hs
      split at hs
      · cases hs
      · split at hs
        · rename_i u hu
          cases hs
          obtain ⟨hw, h₁, h₂, h₃, h₄, h₅⟩ := winds_runInExecutor hu
          exact h.frame hw h₁ (fun hc => h₂.trans hc) h₃ h₄ h₅
        · cases hs
          exact h
  | shutdown timed =>
      obtain ⟨-, hs⟩ := onLoop_eq_some.mp hs
      cases hs
      exact h.shutdown timed
  | timeout i =>
      obtain ⟨c, hc, hs⟩ := hat hs
      obtain ⟨-, hs⟩ := onLoop_eq_some.mp hs
      split at hs
      · rename_i hw
        cases hs
        have hpc : c.pc = .waiting := of_decide_eq_true (Bool.and_eq_true_iff.mp hw).2
        refine h.coroutine hc rfl (interrupt_future c) (fun hp => ?_) fun hp => ?_
        · change c.pc = _ ∨ c.pc = _ at hp
          rw [hpc] at hp
          rcases hp with hp | hp <;> cases hp
        · change c.pc = _ at hp
          rw [hpc] at hp
          cases hp
      · cases hs
  | cancel i =>
      obtain ⟨c, hc, hs⟩ := hat hs
      obtain ⟨-, hs⟩ := onLoop_eq_some.mp hs
      split at hs
      · rename_i hpc
        cases hs
        refine h.coroutine hc rfl (interrupt_future c) (fun hp => ?_) fun hp => ?_
        · change c.pc = _ ∨ c.pc = _ at hp
          rw [hpc] at hp
          rcases hp with hp | hp <;> cases hp
        · change c.pc = _ at hp
          rw [hpc] at hp
          cases hp
      · cases hs
  | resume i timeoutError =>
      obtain ⟨c, hc, hs⟩ := hat hs
      obtain ⟨-, hs⟩ := onLoop_eq_some.mp hs
      split at hs
      · cases hs
        exact h.resume hc timeoutError
      · cases hs
  | join i =>
      obtain ⟨c, hc, hs⟩ := hat hs
      split at hs
      · rename_i o hpc hthread
        cases hs
        exact h.coroutine hc rfl (.inl rfl) (fun _ => (h.calls i c hc).joined (.inl hpc))
          fun _ => ⟨o, hthread⟩
      · cases hs
  | callback =>
      simp only [Host.step] at hs
      split at hs
      · cases hs
      · rename_i r rest hready
        obtain ⟨-, hs⟩ := onLoop_eq_some.mp hs
        obtain ⟨c, hc, hs⟩ := hat hs
        cases hs
        exact h.deliver hready hc
  | close =>
      simp only [Host.step] at hs
      split at hs
      · cases hs
      · split at hs
        · cases hs
          exact h
        · cases hs
          exact h.close
  | thread i raises =>
      obtain ⟨c, hc, hs⟩ := hat hs
      exact h.threadStep hc hs

theorem inv_start : Inv start := by
  refine ⟨fun i c hc => ?_, fun e he => ?_, fun hne => absurd rfl hne, fun r hr => ?_,
    fun i hi => ?_⟩
  · cases hc
  · cases he
  · cases hr
  · cases hi

/-- The states that any order of steps leads to. -/
def Reachable : Host → Prop := Runs step (fun _ _ => True) (· = start)

theorem Reachable.start : Reachable Host.start :=
  Runs.start rfl

theorem Reachable.inv (h : Reachable s) : Inv s :=
  Runs.invariant (fun _ h => h ▸ inv_start) (fun _ _ _ hi _ hs => hi.step hs) h

/-! ### What a call can rely on -/

theorem Stopped.submit {e : Nat} (h : s.Stopped e) : ∃ message, s.submit e = .error message := by
  refine ⟨"cannot schedule new futures after shutdown", ?_⟩
  rw [Host.submit, show s.executors[e]? = some ⟨true, 0⟩ from h]
  rfl

/-- **A call that has returned has shut its executor down for good**: there is no work left,
and there will be none. -/
theorem returned_stopped (h : s.Reachable) (hc : s.shutdowns[i]? = some c)
    (hpc : c.pc = .returned) : ∃ e, c.thread = .finished (some e) ∧ s.Stopped e ∧
      (∃ message, s.runInExecutor (some e) = .error message) ∧
      ∃ message, s.runInExecutor none = .error message := by
  have hcall := h.inv.calls i c hc
  obtain ⟨o, ho⟩ := hcall.returned hpc
  obtain ⟨e, he⟩ := hcall.result (hcall.joined (.inr hpc))
  have hstopped := hcall.served e he
  rw [ho] at he
  obtain rfl : o = some e := he
  have hcalled := h.inv.called (List.ne_nil_of_mem (List.mem_of_getElem? hc))
  refine ⟨e, ho, hstopped, ?_, ?_⟩
  · unfold runInExecutor
    split
    · exact ⟨_, rfl⟩
    · exact hstopped.submit
  · unfold runInExecutor
    rw [hcalled]
    split <;> exact ⟨_, rfl⟩

/-- A worker and the thread take their turns, and the call returns. -/
theorem returned_stopped_example : ∃ s : Host, s.shutdowns.map (·.pc) = [.returned] ∧
    ∃ message, s.runInExecutor none = .error message := by
  obtain ⟨s, hs, hgood⟩ := Reachable.start.exists_of_replay
    [.runInExecutor none, .shutdown true, .thread 0 false, .thread 0 false, .work 0,
      .thread 0 false, .thread 0 false, .thread 0 false, .callback, .resume 0 false,
      .thread 0 false, .join 0]
    (fun s => s.shutdowns.map (·.pc) = [.returned]) (by decide +kernel)
  have hpc := of_decide_eq_true hgood
  obtain ⟨c, hc, hreturned⟩ : ∃ c, s.shutdowns[0]? = some c ∧ c.pc = .returned := by
    have hget := congrArg (·[0]?) hpc
    simpa using hget
  obtain ⟨_, _, _, _, hrefused⟩ := returned_stopped hs hc hreturned
  exact ⟨s, hpc, hrefused⟩

/-- **Joining the thread does not hold the loop up for good**: the thread is on its last
step or has taken it, and needs nobody for it. -/
theorem join_comes_back (h : s.Reachable) (hc : s.shutdowns[i]? = some c)
    (hpc : c.pc = .joining) (raises : Bool) : (∃ s', s.step (.join i) = some s') ∨
      ∃ s₁ s₂, s.step (.thread i raises) = some s₁ ∧ s₁.step (.join i) = some s₂ := by
  have hcall := h.inv.calls i c hc
  have hsent := hcall.settled (.inl (hcall.joined (.inl hpc)))
  cases hthread : c.thread with
  | finished o =>
      refine .inl ⟨s.modifyCall i fun c => { c with pc := .returned }, ?_⟩
      simp only [step, atCall, hc, Option.bind_some, hpc, hthread]
  | posted o =>
      have hat : (s.setThread i (.finished o)).shutdowns[i]? =
          some { c with thread := .finished o } := by
        simp [setThread, modifyCall, hc]
      refine .inr ⟨s.setThread i (.finished o),
        (s.setThread i (.finished o)).modifyCall i fun c => { c with pc := .returned }, ?_, ?_⟩
      · simp only [step, atCall, hc, Option.bind_some, threadStep, hthread]
      · simp only [step, atCall, hat, Option.bind_some, hpc]
  | start | found _ | stopping _ | stopped _ | reporting _ | failed | complaining =>
      rw [hthread] at hsent
      cases hsent

/-- The loop is being held up. -/
theorem join_comes_back_example : ∃ s : Host, s.blocked = true ∧
    ((∃ s', s.step (.join 0) = some s') ∨
      ∃ s₁ s₂, s.step (.thread 0 false) = some s₁ ∧ s₁.step (.join 0) = some s₂) := by
  obtain ⟨s, hs, hgood⟩ := Reachable.start.exists_of_replay
    [.runInExecutor none, .shutdown true, .thread 0 false, .thread 0 false, .work 0,
      .thread 0 false, .thread 0 false, .thread 0 false, .callback, .resume 0 false]
    (fun s => s.shutdowns.map (·.pc) = [.joining] && s.blocked) (by decide +kernel)
  have hboth := Bool.and_eq_true_iff.mp hgood
  obtain ⟨c, hc, hjoining⟩ : ∃ c, s.shutdowns[0]? = some c ∧ c.pc = .joining := by
    have hget := congrArg (·[0]?) (of_decide_eq_true hboth.1)
    simpa using hget
  exact ⟨s, hboth.2, join_comes_back hs hc hjoining false⟩

/-- **Which report can fail**: only that of an exception, to a future that has been cancelled
since the thread looked. -/
theorem invalid_cancelled (h : s.Reachable) (hi : i ∈ s.invalid) :
    ∃ c, s.shutdowns[i]? = some c ∧ c.future = .cancelled ∧
      (c.thread = .posted none ∨ c.thread = .finished none) := by
  obtain ⟨c, hc, hfuture, hsent, hserved⟩ := h.inv.invalid i hi
  refine ⟨c, hc, hfuture, ?_⟩
  cases hthread : c.thread with
  | posted o =>
      rw [hthread] at hserved
      exact .inl (congrArg _ hserved)
  | finished o =>
      rw [hthread] at hserved
      exact .inr (congrArg _ hserved)
  | start | found _ | stopping _ | stopped _ | reporting _ | failed | complaining =>
      rw [hthread] at hsent
      cases hsent

/-- The task is cancelled after the thread has looked. -/
theorem invalid_cancelled_example : ∃ (s : Host) (c : Shutdown), s.invalid = [0] ∧
    s.shutdowns[0]? = some c ∧ c.future = .cancelled := by
  obtain ⟨s, hs, hgood⟩ := Reachable.start.exists_of_replay
    [.runInExecutor none, .shutdown false, .thread 0 false, .thread 0 false, .thread 0 true,
      .thread 0 false, .cancel 0, .thread 0 false, .callback]
    (fun s => s.invalid = [0]) (by decide +kernel)
  have hinvalid := of_decide_eq_true hgood
  obtain ⟨c, hc, hfuture, -⟩ := invalid_cancelled hs (i := 0) (by rw [hinvalid]; simp)
  exact ⟨s, c, hinvalid, hc, hfuture⟩

end Host

end Tokioop.Executor
