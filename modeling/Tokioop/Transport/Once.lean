import Tokioop.Transport.Rules

/-!
`_call_connection_lost` is executed at most once, as long as the writer does
not start a teardown that is scheduled already.

A teardown is scheduled by `close` and `_force_close`, which count it in
`_conn_lost`, or started by the writer when the buffer of a closing transport
is empty, which does not. So there are two moments at which the two can meet:
`resume_writing`, which the writer calls between emptying the buffer and
looking at `_closing`, and the `connection_lost` of a teardown that the writer
started, during which `_conn_lost` is still 0. `tornOnce` leaves out the runs
in which one of them is used to schedule or start another teardown.
-/

namespace Tokioop.Transport

open Fd Kit Kit.Prog

def Job.isTeardown : Job → Bool
  | .callConnectionLost _ => true
  | _ => false

namespace World

def scheduled (s : World) : Nat := s.ready.countP Job.isTeardown

/-- The `connection_lost` of a teardown that the writer started is running. -/
def Departing (s : World) : Prop := s.teardowns ≠ 0 ∧ s.connLost = 0 ∧ s.attached = true

/-- Nothing is scheduled that the writer is about to do itself, or it will not
get that far. -/
def Unscheduled (s : World) : Prop :=
  s.connLost = 0 ∨ s.attached = false ∨ s.emptyWaiter = some .done

instance (s : World) : Decidable s.Departing := inferInstanceAs (Decidable (_ ∧ _ ∧ _))

instance (s : World) : Decidable s.Unscheduled := inferInstanceAs (Decidable (_ ∨ _ ∨ _))

end World

/-- The send neither fails nor empties the buffer. -/
def Query.spares : Query → Reply → World → Bool
  | .send _, .fail _, _ => false
  | .send size, .done n, s =>
      s.buffer = [] || adjustLeftoverBuffer s.buffer (min n size) ≠ some []
  | _, _, _ => true

/-- What a callback that the writer makes before it looks at `_closing` may
leave. -/
def returnsUnscheduled : UserCall → Except Exc Nat → World → Prop
  | .resumeWriting, .ok _, s => s.Unscheduled
  | .exceptionHandler message _, _, s =>
      message = "protocol.resume_writing() failed" → s.Unscheduled
  | _, _, _ => True

instance : (e : UserCall) → (r : Except Exc Nat) → (s : World) →
    Decidable (returnsUnscheduled e r s)
  | .resumeWriting, .ok _, s => inferInstanceAs (Decidable s.Unscheduled)
  | .resumeWriting, .error _, _ => .isTrue trivial
  | .exceptionHandler message _, .ok _, s =>
      inferInstanceAs (Decidable (message = _ → s.Unscheduled))
  | .exceptionHandler message _, .error _, s =>
      inferInstanceAs (Decidable (message = _ → s.Unscheduled))
  | .connectionMade, _, _ => .isTrue trivial
  | .dataReceived _, _, _ => .isTrue trivial
  | .eofReceived, _, _ => .isTrue trivial
  | .getBuffer, _, _ => .isTrue trivial
  | .bufferUpdated _, _, _ => .isTrue trivial
  | .pauseWriting, _, _ => .isTrue trivial
  | .connectionLost _, _, _ => .isTrue trivial

/-- Batches wait for callbacks to return. `resume_writing` does not leave a
scheduled teardown, and the `connection_lost` of a teardown that the writer
started neither aborts nor meets a send that fails or empties the buffer. -/
def tornOnce : TransportPolicy where
  call top m s := (top = false → m.ofBatch = false) ∧ (m = .abort → ¬s.Departing)
  env _ _ _ := True
  ret := returnsUnscheduled
  answer q a s := s.Departing → q.spares a s = true

instance (top : Bool) (m : Method) (s : World) : Decidable (tornOnce.call top m s) :=
  inferInstanceAs (Decidable ((_ → _) ∧ (_ → _)))

instance (top : Bool) (h : Env) (s : World) : Decidable (tornOnce.env top h s) :=
  inferInstanceAs (Decidable True)

instance (e : UserCall) (r : Except Exc Nat) (s : World) : Decidable (tornOnce.ret e r s) :=
  inferInstanceAs (Decidable (returnsUnscheduled e r s))

instance (q : Query) (a : Reply) (s : World) : Decidable (tornOnce.answer q a s) :=
  inferInstanceAs (Decidable (s.Departing → _))

structure Once (s : World) : Prop where
  base : Base s
  quiet : s.connLost = 0 → s.scheduled = 0
  once : s.teardowns + s.scheduled ≤ 1
  begun : s.teardowns ≠ 0 → s.closing = true

def onceContract : Contract World UserCall Nat Exc Query Reply where
  Inv := Once
  Rely s t := (¬s.Departing → ¬t.Departing) ∧
    (s.Departing → s.buffer ≠ [] → t.Departing ∧ t.buffer ≠ []) ∧
    (s.closing = true → t.closing = true)
  Ret := returnsUnscheduled
  Answer := tornOnce.answer
  refl _ := ⟨id, fun hd hb => ⟨hd, hb⟩, id⟩
  trans h h' := ⟨h'.1 ∘ h.1, fun hd hb => h'.2.1 (h.2.1 hd hb).1 (h.2.1 hd hb).2,
    h'.2.2 ∘ h.2.2⟩

/-- The contract away from such a `connection_lost`. -/
abbrev calmContract : Contract World UserCall Nat Exc Query Reply :=
  onceContract.within fun s => ¬s.Departing

theorem wp_of_calm {α : Type} {p : Meth α} {Q : Except Exc α → World → Prop} {s : World}
    (h : p.wp calmContract Q s) : p.wp onceContract Q s :=
  wp_of_within onceContract (fun hd hr => hr.1 hd) h

abbrev StaysOnce (s t : World) : Prop := Once t ∧ onceContract.Rely s t

theorem departing_aside {s s' : World} (ha : Aside s s') : s'.Departing ↔ s.Departing := by
  unfold World.Departing
  rw [ha.teardowns, ha.connLost, ha.attached]

theorem Once.aside {s s' : World} (h : Once s) (ha : Aside s s') : StaysOnce s s' := by
  have hscheduled : s'.scheduled = s.scheduled := by rw [World.scheduled, ha.ready]; rfl
  refine ⟨⟨h.base.aside ha, ?_, ?_, ?_⟩, mt (departing_aside ha).mp, fun hd hb => ?_,
    ha.closing.trans⟩
  · rw [ha.connLost, hscheduled]
    exact h.quiet
  · rw [ha.teardowns, hscheduled]
    exact h.once
  · rw [ha.teardowns, ha.closing]
    exact h.begun
  · rw [ha.buffer]
    exact ⟨(departing_aside ha).mpr hd, hb⟩

theorem sidelined_once : Sidelined onceContract where
  base := Once.base
  aside := Once.aside

/-! ### Scheduling -/

/-- A teardown is scheduled where none has been and none has begun. -/
theorem Once.schedule {s s' : World} (exc : Option Exc) (h : Once s) (hl : s.connLost = 0)
    (ht : s.teardowns = 0) (hlost : s'.connLost = s.connLost + 1)
    (hready : s'.ready = s.ready ++ [.callConnectionLost exc])
    (hteardowns : s'.teardowns = s.teardowns) (hc : s'.closing = true) :
    StaysOnce s s' ∧ ¬s'.Departing := by
  have hcalm : ¬s'.Departing := fun hd => by
    have := hd.2.1
    omega
  have hone : s'.scheduled = 1 := by
    have h0 := h.quiet hl
    unfold World.scheduled at h0 ⊢
    rw [hready, List.countP_append, h0]
    rfl
  refine ⟨⟨⟨.of_closing hc, fun h0 => by omega, by omega, fun _ => hc⟩, fun _ => hcalm, ?_,
    fun _ => hc⟩, hcalm⟩
  exact fun hd => absurd ht hd.1

theorem Once.forceClose {C : Contract World UserCall Nat Exc Query Reply} (exc : Option Exc)
    {s : World} (h : Once s) (hd : ¬s.Departing) :
    (forceClose exc).wp C (fun _ t => StaysOnce s t ∧ ¬t.Departing) s := by
  refine wp_forceClose exc h.base (fun _ => ⟨⟨h, onceContract.refl s⟩, hd⟩) (fun hl ha => ?_)
    fun hl ha => ?_
  · have ht : s.teardowns = 0 := by
      by_contra ht
      exact hd ⟨ht, hl, ha⟩
    exact h.schedule exc hl ht rfl rfl rfl rfl
  · have hc := h.base.closing_of_detached ha
    have hgone : ∀ t : World, t.attached = s.attached → ¬t.Departing := fun t hta htd =>
      absurd ((ha.symm.trans hta.symm).trans htd.2.2) Bool.false_ne_true
    split
    · refine ⟨⟨⟨.of_closing hc, fun h0 => absurd h0 (Nat.succ_ne_zero _), h.once, h.begun⟩,
        fun _ => hgone _ rfl, fun hd' => absurd hd' hd, id⟩, hgone _ rfl⟩
    · exact ⟨⟨⟨.of_closing hc, h.quiet, h.once, h.begun⟩, fun _ => hgone _ rfl,
        fun hd' => absurd hd' hd, id⟩, hgone _ rfl⟩

theorem Once.baseClose {C : Contract World UserCall Nat Exc Query Reply} {s : World} (h : Once s) :
    baseClose.wp C (fun _ t => StaysOnce s t ∧ (¬s.Departing → ¬t.Departing)) s := by
  refine wp_baseClose h.base (fun _ => ⟨⟨h, onceContract.refl s⟩, id⟩) fun hc => ?_
  have ht : s.teardowns = 0 := by
    by_contra ht
    exact absurd (hc.symm.trans (h.begun ht)) Bool.false_ne_true
  unfold World.closed
  split
  · refine And.imp_right (fun hcalm _ => hcalm) ?_
    exact h.schedule none (h.base.lost_eq_zero hc) ht rfl rfl rfl rfl
  · have hcalm : ¬World.Departing { s with closing := true, reader := none } :=
      fun hd => absurd ht hd.1
    exact ⟨⟨⟨.of_closing rfl, h.quiet, h.once, fun _ => rfl⟩, fun _ => hcalm,
      fun hd => absurd ht hd.1, fun _ => rfl⟩, fun _ => hcalm⟩

theorem unread_calm : Unread calmContract where
  base hs := hs.1.base
  aside hs ha :=
    ⟨⟨(hs.1.aside ha).1, mt (departing_aside ha).mp hs.2⟩, (hs.1.aside ha).2⟩
  forceClose exc _ hs :=
    wp_mono _ (fun _ _ ht => ⟨⟨ht.1.1, ht.2⟩, ht.1.2⟩) (hs.1.forceClose exc hs.2)
  baseClose _ hs :=
    wp_mono _ (fun _ _ ht => ⟨⟨ht.1.1, ht.2 hs.2⟩, ht.1.2⟩) hs.1.baseClose

/-! ### The teardown -/

theorem Once.severed {s : World} (h : Once s) (hc : s.closing = true) :
    Once s.severed ∧ s.severed.attached = false ∧ s.severed.closing = true := by
  unfold World.severed
  split
  · exact ⟨⟨.of_closing hc, h.quiet, h.once, h.begun⟩, rfl, hc⟩
  · rename_i ha
    exact ⟨h, Bool.eq_false_iff.mpr ha, hc⟩

/-- The one teardown: nothing is scheduled, and none has begun. -/
theorem once_callConnectionLost (exc : Option Exc) {s : World} (hc : s.closing = true)
    (ht : s.teardowns = 0) (hs : s.scheduled = 0) :
    (callConnectionLost exc).wp onceContract (fun _ t => StaysOnce s t) s := by
  have hbegun : Once s.tearing := by
    refine ⟨.of_closing hc, fun _ => hs, ?_, fun _ => hc⟩
    show s.teardowns + 1 + s.scheduled ≤ 1
    omega
  have hend : ∀ t, Once t → t.closing = true → StaysOnce s t.severed := by
    intro t hto htc
    obtain ⟨hsev, hatt, hclosing⟩ := hto.severed htc
    refine ⟨hsev, fun _ hd => ?_, fun hd => absurd ht hd.1, fun _ => hclosing⟩
    exact absurd (hatt.symm.trans hd.2.2) Bool.false_ne_true
  refine wp_callConnectionLost exc (fun t hto => ?_) (fun _ => (hbegun.aside (Aside.logged _ _)).1)
    (fun t r hto htr _ => hend t hto (htr.2.2 hc)) (hend _ hbegun hc)
  have hwaiter : Aside t { t with emptyWaiter := some .done } := { Aside.refl t with }
  exact ⟨(hto.1.aside hwaiter).1, onceContract.trans hto.2 (hto.1.aside hwaiter).2⟩

/-! ### Writing -/

theorem Once.step {s s' : World} (h : Once s) (hb : Base s') (hl : s'.connLost = s.connLost)
    (ha : s'.attached = s.attached) (hr : s'.ready = s.ready)
    (ht : s'.teardowns = s.teardowns) (hc : s'.closing = s.closing)
    (hbuf : s.Departing → s.buffer ≠ [] → s'.buffer ≠ []) : StaysOnce s s' := by
  have hd : s'.Departing ↔ s.Departing := by
    unfold World.Departing
    rw [ht, hl, ha]
  have hscheduled : s'.scheduled = s.scheduled := by rw [World.scheduled, hr]; rfl
  refine ⟨⟨hb, ?_, ?_, ?_⟩, mt hd.mp, fun hds hne => ⟨hd.mpr hds, hbuf hds hne⟩, hc.trans⟩
  · rw [hl, hscheduled]
    exact h.quiet
  · rw [ht, hscheduled]
    exact h.once
  · rw [ht, hc]
    exact h.begun

/-- Counting a write on a lost connection. -/
theorem Once.count {s s' : World} (h : Once s) (hl : s.connLost ≠ 0)
    (hlost : s'.connLost = s.connLost + 1) (hr : s'.ready = s.ready)
    (ht : s'.teardowns = s.teardowns) (hc : s'.closing = s.closing) : StaysOnce s s' := by
  have hclosing := hc.trans (h.base.lost hl)
  have hscheduled : s'.scheduled = s.scheduled := by rw [World.scheduled, hr]; rfl
  have hne : s'.connLost ≠ 0 := by omega
  refine ⟨⟨.of_closing hclosing, fun h0 => absurd h0 hne, ?_, fun _ => hclosing⟩,
    fun _ hd => hne hd.2.1, fun hd => absurd hd.2.1 hl, fun _ => hclosing⟩
  rw [ht, hscheduled]
  exact h.once

/-- Go on away from such a `connection_lost`. -/
theorem once_calmly {s t : World} {p : Meth Unit} (hp : Keeps calmContract p)
    (ht : StaysOnce s t) (hd : ¬t.Departing) : p.wp onceContract (fun _ u => StaysOnce s u) t :=
  wp_of_calm (wp_mono _ (fun _ _ hu => ⟨hu.1.1, onceContract.trans ht.2 hu.2⟩) (hp t ⟨ht.1, hd⟩))

theorem once_bufferRest {s t : World} {data : List UInt8}
    (ht : StaysOnce s { t with buffer := t.buffer ++ [data] }) :
    (bufferRest data).wp onceContract (fun _ u => StaysOnce s u) t :=
  sidelined_once.maybePauseProtocol.after ht.1 ht.2

theorem once_write (data : List UInt8) : Keeps onceContract (write data) := by
  intro s hs
  have hb := hs.base
  have hstay : StaysOnce s s := ⟨hs, onceContract.refl s⟩
  have hmove : ∀ s' : World, Base s' → s'.connLost = s.connLost → s'.attached = s.attached →
      s'.ready = s.ready → s'.teardowns = s.teardowns → s'.closing = s.closing →
      (s.buffer ≠ [] → s'.buffer ≠ []) → StaysOnce s s' :=
    fun s' hb' hl ha hr ht hc hbuf => hs.step hb' hl ha hr ht hc fun _ => hbuf
  refine wp_write (fun _ _ => hstay) (fun _ _ => ?_) (fun _ hl => ?_) (fun _ hl hbuf _ => ?_)
    (fun _ hl hbuf ha => ?_) (fun _ hl hbuf ha _ e hans => ?_) (fun _ hl hbuf ha _ n hn => ?_)
    fun _ hl hbuf ha n _ => ?_
  · exact hmove _ (hb.offer data) rfl rfl rfl rfl rfl id
  · exact hs.count hl rfl rfl rfl rfl
  · exact once_bufferRest (hmove _ ((hb.offer data).buffered _) rfl rfl rfl rfl rfl
      fun _ => by simp)
  · refine once_calmly (unread_calm.fatalError _ _)
      (hmove _ (hb.offer data) rfl rfl rfl rfl rfl id) fun hd => ?_
    exact absurd (ha.symm.trans hd.2.2) Bool.false_ne_true
  · refine once_calmly (unread_calm.fatalError _ _)
      (hmove _ (hb.offer data) rfl rfl rfl rfl rfl id) fun hd => ?_
    cases hans hd
  · exact hmove _ ((hb.offer data).took _) rfl rfl rfl rfl rfl id
  · have hsent : Base ((s.offer data).took (data.take n)) := (hb.offer data).took _
    rw [wp_bind]
    refine wp_addWriter (fun _ => ?_) (fun _ _ _ => ?_) fun _ a _ _ => ?_
    · exact hmove _ hsent rfl rfl rfl rfl rfl id
    · exact hmove _ hsent rfl rfl rfl rfl rfl id
    · exact once_bufferRest (hmove _ (hsent.writing.buffered _) rfl rfl rfl rfl rfl
        fun _ => by simp)

/-- The writer has sent something and looks whether it was the rest. During
such a `connection_lost` it never is. -/
theorem once_afterSend {s : World} (hs : Once s) (hl : s.connLost = 0)
    (hd : s.Departing → s.buffer ≠ []) :
    afterSend.wp onceContract (fun _ t => StaysOnce s t) s := by
  have hflow : FlowControlled onceContract .resumeWriting "protocol.resume_writing() failed"
      World.Unscheduled fun _ => True :=
    ⟨id, fun {_ _ r} h => (by cases r <;> exact h rfl), fun _ _ => trivial, fun _ => trivial⟩
  have hresume := wp_maybeResumeProtocol sidelined_once hflow hs (.inl hl)
  have hdropped : ∀ t w, StaysOnce s t →
      StaysOnce s { t with writer := none, emptyWaiter := w } := by
    intro t w ht
    have hb := ht.1.base
    have hstep : StaysOnce t { t with writer := none, emptyWaiter := w } :=
      ht.1.step ⟨hb.lost, hb.attached, hb.jobs⟩ rfl rfl rfl rfl rfl fun _ => id
    exact ⟨hstep.1, onceContract.trans ht.2 hstep.2⟩
  refine wp_afterSend hresume (fun e t ht => ht.1) (fun t ht _ => ht.1) (fun t ht _ _ => ht.1)
    (fun t ht _ _ _ => hdropped t _ ht.1) (fun t w ht hbuf ha hc hcompletes => ?_)
    (fun t w ht _ _ _ _ _ => ?_) fun t w ht _ _ _ _ => hdropped t w ht.1
  · have hlost : t.connLost = 0 := by
      rcases ht.2 with h0 | hno | hdone
      · exact h0
      · exact absurd (hno.symm.trans ha) Bool.false_ne_true
      · exact absurd hdone hcompletes.1
    have hcalm : ¬t.Departing := by
      by_cases hds : s.Departing
      · exact fun _ => (ht.1.2.2.1 hds (hd hds)).2 hbuf
      · exact ht.1.2.1 hds
    have hnone : t.teardowns = 0 := by
      by_contra h
      exact hcalm ⟨h, hlost, ha⟩
    have hgo := hdropped t w ht.1
    have hlast := once_callConnectionLost none (s := { t with writer := none, emptyWaiter := w })
      hc hnone (ht.1.1.quiet hlost)
    exact wp_since hgo.2 hlast
  · have hb := ht.1.1.base
    have hstep : StaysOnce t { t with writer := none, emptyWaiter := w, shutdownWr := true
                                      shutdowns := t.shutdowns ++ [(t.sent, t.offered)] } :=
      ht.1.1.step ⟨hb.lost, hb.attached, hb.jobs⟩ rfl rfl rfl rfl rfl fun _ => id
    exact ⟨hstep.1, onceContract.trans ht.1.2 hstep.2⟩

theorem once_writeSendmsg : Keeps onceContract writeSendmsg := by
  intro s hs
  have hb := hs.base
  have hstay : StaysOnce s s := ⟨hs, onceContract.refl s⟩
  refine wp_writeSendmsg (fun _ => hstay) (fun _ => hstay) (fun _ _ _ => hstay)
    (fun _ _ _ => hstay) (fun hbuf hl ha e hans => ?_) fun hbuf hl ha n rest hans hrest _ => ?_
  · have hcalm : ¬s.Departing := fun hd => by cases hans hd
    refine once_calmly (keeps_bind (unread_calm.fatalError _ _) fun _ =>
      unread_calm.resolveEmptyWaiter) ?_ hcalm
    exact hs.step ⟨hb.lost, hb.attached, hb.jobs⟩ rfl rfl rfl rfl rfl fun hd => absurd hd hcalm
  · have hleft : s.Departing → rest ≠ [] := by
      rintro hd rfl
      have hspares := hans hd
      simp [Query.spares, hbuf, hrest] at hspares
    have ht : StaysOnce s { s.took (s.gathered.take n) with buffer := rest } :=
      hs.step ⟨hb.lost, hb.attached, hb.jobs⟩ rfl rfl rfl rfl rfl fun hd _ => hleft hd
    exact wp_since ht.2 (once_afterSend ht.1 hl hleft)

theorem once_writelines (lines : List (List UInt8)) : Keeps onceContract (writelines lines) := by
  intro s hs
  have hb := hs.base
  have hstay : StaysOnce s s := ⟨hs, onceContract.refl s⟩
  refine wp_writelines (fun _ => hstay) (fun _ => hstay) (fun _ hl => hs.count hl rfl rfl rfl rfl)
    (fun _ _ => ?_) fun _ hl ha hlines => ?_
  · exact hs.step ⟨hb.lost, hb.attached, hb.jobs⟩ rfl rfl rfl rfl rfl fun _ hbuf =>
      List.append_ne_nil_of_left_ne_nil hbuf _
  · have ht : StaysOnce s { s.offer lines.flatten with buffer := s.buffer ++ lines } :=
      hs.step ⟨hb.lost, hb.attached, hb.jobs⟩ rfl rfl rfl rfl rfl fun _ hbuf =>
        List.append_ne_nil_of_left_ne_nil hbuf _
    refine wp_mono _ ?_ (once_writeSendmsg _ ht.1)
    intro r t htr
    have hst : StaysOnce s t := ⟨htr.1, onceContract.trans ht.2 htr.2⟩
    cases r with
    | error e => exact hst
    | ok a =>
        show if t.buffer = [] then _ else _
        split
        · exact hst
        · rw [wp_bind]
          have hb' := hst.1.base
          have hwriting : StaysOnce t t.writing :=
            hst.1.step ⟨hb'.lost, hb'.attached, hb'.jobs⟩ rfl rfl rfl rfl rfl fun _ => id
          refine wp_addWriter (fun _ => hst) (fun _ _ _ => hst) fun _ a _ _ => ?_
          exact sidelined_once.maybePauseProtocol.after hwriting.1
            (onceContract.trans hst.2 hwriting.2)

theorem once_writeEof : Keeps onceContract writeEof := by
  have hkeep : ∀ f : World → World, (∀ s, Once s → StaysOnce s (f s)) →
      Keeps onceContract (Prog.modify f : Meth Unit) := fun f h => keeps_modify h
  refine keeps_bind keeps_get fun s => keeps_ite (keeps_done _) ?_
  refine keeps_bind (hkeep _ fun t ht => ?_) fun _ => keeps_ite (keeps_bind keeps_get fun _ =>
    keeps_ite (hkeep _ fun t ht => ?_) (keeps_done _)) (keeps_done _)
  all_goals
    have hb := ht.base
    exact ht.step ⟨hb.lost, hb.attached, hb.jobs⟩ rfl rfl rfl rfl rfl fun _ => id

/-! ### Runs -/

theorem Once.popped {s : World} (hs : Once s) {j : Job} {rest : List Job}
    (hready : s.ready = j :: rest) :
    StaysOnce s { s with ready := rest } ∧
      s.scheduled = World.scheduled { s with ready := rest } + if j.isTeardown then 1 else 0 := by
  have hb := hs.base
  have hcount : s.scheduled =
      World.scheduled { s with ready := rest } + if j.isTeardown then 1 else 0 := by
    rw [World.scheduled, hready, List.countP_cons]
    rfl
  have hbase : Base { s with ready := rest } := by
    refine ⟨hb.lost, hb.attached, fun exc h => hb.jobs exc ?_⟩
    rw [hready]
    exact List.mem_cons_of_mem _ h
  have hle : World.scheduled { s with ready := rest } ≤ s.scheduled := by omega
  refine ⟨⟨⟨hbase, fun hl => ?_, ?_, hs.begun⟩, onceContract.refl s⟩, hcount⟩
  · have h0 := hs.quiet hl
    omega
  · have hone := hs.once
    show s.teardowns + _ ≤ 1
    omega

theorem once_popReady {s : World} (hs : Once s) :
    popReady.wp onceContract (fun _ t => StaysOnce s t) s := by
  refine sidelined_once.popReady hs (fun j rest hready _ => (hs.popped hready).1) ?_
  intro exc rest hready
  obtain ⟨hstay, hcount⟩ := hs.popped hready
  have hone := hs.once
  simp only [Job.isTeardown, if_true] at hcount
  have hlast := once_callConnectionLost exc (s := { s with ready := rest })
    (hs.base.jobs exc (by rw [hready]; exact List.mem_cons_self))
    (show s.teardowns = 0 by omega) (by omega)
  exact wp_since hstay.2 hlast

theorem once_popIo {s : World} (hs : Once s) (hd : ¬s.Departing) :
    popIo.wp onceContract (fun _ t => StaysOnce s t) s := by
  refine sidelined_once.popIo hs (fun item t ht hst _ => ?_) (fun t ht hst => ?_)
    fun t ht _ => once_writeSendmsg t ht
  · exact once_calmly (unread_calm.deliverReplay item) ⟨ht, onceContract.refl t⟩ (hst.1 hd)
  · exact once_calmly unread_calm.readReady ⟨ht, onceContract.refl t⟩ (hst.1 hd)

/-- During such a `connection_lost` the transport is closing, so that most
methods do nothing. -/
theorem once_body {m : Method} {s : World} (hs : Once s) (hbatch : m.ofBatch = true → ¬s.Departing)
    (habort : m = .abort → ¬s.Departing) :
    m.body.wp onceContract (fun _ t => StaysOnce s t) s := by
  have hstay : StaysOnce s s := ⟨hs, onceContract.refl s⟩
  match m, hbatch, habort with
  | .pauseReading, _, _ => exact sidelined_once.pauseReading s hs
  | .registerReader, _, _ => exact sidelined_once.registerReader s hs
  | .setProtocol kind, _, _ => exact sidelined_once.setProtocol kind s hs
  | .setWriteBufferLimits high low, _, _ => exact sidelined_once.setWriteBufferLimits high low s hs
  | .makeEmptyWaiter, _, _ => exact sidelined_once.makeEmptyWaiter s hs
  | .resetEmptyWaiter, _, _ => exact sidelined_once.resetEmptyWaiter s hs
  | .write data, _, _ => exact once_write data s hs
  | .writelines lines, _, _ => exact once_writelines lines s hs
  | .writeEof, _, _ => exact once_writeEof s hs
  | .abort, _, habort => exact once_calmly unread_calm.abort hstay (habort rfl)
  | .popReady, _, _ => exact once_popReady hs
  | .popIo, hbatch, _ => exact once_popIo hs (hbatch rfl)
  | .close, _, _ =>
      have hcb : Aside s { s with readReadyCb := none } := { Aside.refl s with }
      obtain ⟨ht, htr⟩ := hs.aside hcb
      exact wp_mono _ (fun _ _ hu => ⟨hu.1.1, onceContract.trans htr hu.1.2⟩) ht.baseClose
  | .resumeReading, _, _ =>
      by_cases hd : s.Departing
      · have hc := hs.begun hd.1
        show wp _ (get >>= _) _ s
        rw [wp_bind, wp_get]
        simpa [hc] using hstay
      · exact once_calmly unread_calm.resumeReading hstay hd

theorem sound_once : Sound transport tornOnce onceContract fun s => Once s ∧ ¬s.Departing where
  ret := id
  answer := id
  call_top _ _ hs hm :=
    wp_mono _ (fun _ _ ht => ⟨ht.1, ht.2.1 hs.2⟩) (once_body hs.1 (fun _ => hs.2) hm.2)
  call_inner _ _ hs hm :=
    once_body hs (fun hb => absurd ((hm.1 rfl).symm.trans hb) Bool.false_ne_true) hm.2
  env_top _ _ _ hs _ he :=
    ⟨(hs.1.aside (aside_env he)).1, mt (departing_aside (aside_env he)).mp hs.2⟩
  env_inner _ _ _ hs _ he := hs.aside (aside_env he)

theorem once_new (kind : ProtocolKind) (kernel : Socket) :
    Once (World.new kind kernel) ∧ ¬(World.new kind kernel).Departing := by
  refine ⟨⟨⟨?_, ?_, ?_⟩, ?_, ?_, ?_⟩, fun hd => hd.1 rfl⟩
  all_goals simp [World.new, World.scheduled, Job.isTeardown]

/-- A stream transport is torn down at most once. -/
theorem teardowns_le_one {c : Config World UserCall Nat Exc Query Reply}
    (h : Reach transport tornOnce (fun s => ∃ kind kernel, s = World.new kind kernel) c)
    (ho : c.Outside) : c.state.teardowns ≤ 1 := by
  have hinit : ∀ s, (∃ kind kernel, s = World.new kind kernel) → Once s ∧ ¬s.Departing := by
    rintro s ⟨kind, kernel, rfl⟩
    exact once_new kind kernel
  have hs : Once c.state := sound_once.inv hinit (fun _ hs => hs.1) h ho
  have hone := hs.once
  omega

end Tokioop.Transport
