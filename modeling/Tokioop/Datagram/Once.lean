import Tokioop.Datagram.Reading
import Tokioop.Transport.Once
import Tokioop.Transport.Replay

/-!
`_call_connection_lost` of a datagram transport is executed at most once, as
long as the writer does not start a teardown that is scheduled already.

As for streams, `resume_writing` and the `connection_lost` of a teardown that
the writer started are moments at which a second one can be scheduled. Besides,
`_sendto_ready` does not look at `_conn_lost`: a writer that is registered
while a teardown is scheduled starts another. `tornOnce` leaves out the runs
in which this happens.
-/

namespace Tokioop.Datagram

open Fd Kit Kit.Prog
open Transport (Exc Query Reply Job IoItem)

namespace World

def scheduled (s : World) : Nat := s.ready.countP Job.isTeardown

/-- The `connection_lost` of a teardown that the writer started is running. -/
def Departing (s : World) : Prop := s.teardowns ≠ 0 ∧ s.connLost = 0 ∧ s.attached = true

/-- Nothing is scheduled that the writer is about to do itself, or it will not
get that far. -/
def Unscheduled (s : World) : Prop := s.connLost = 0 ∨ s.attached = false ∨ s.buffer ≠ []

instance (s : World) : Decidable s.Departing := inferInstanceAs (Decidable (_ ∧ _ ∧ _))

instance (s : World) : Decidable s.Unscheduled := inferInstanceAs (Decidable (_ ∨ _ ∨ _))

/-- `sendto` tries to send a datagram that has nowhere to go. -/
def astray (s : World) : Method → Bool
  | .sendto data addr => s.buffer = [] && !s.addressed (data.bytes, s.address.or addr)
  | _ => false

/-- The next completion calls the writer callback. -/
def writerNext (s : World) : Bool :=
  match s.io with
  | .callback slot :: _ => s.writer = some slot
  | _ => false

end World

/-- What a callback that the writer makes before it looks at `_closing` may
leave. -/
def returnsUnscheduled : UserCall → Except Exc Unit → World → Prop
  | .resumeWriting, .ok _, s => s.Unscheduled
  | .exceptionHandler message _, _, s =>
      message = "protocol.resume_writing() failed" → s.Unscheduled
  | _, _, _ => True

/-- Batches wait for callbacks to return. `resume_writing` does not leave a
scheduled teardown, the `connection_lost` of a teardown that the writer
started neither aborts nor sends a datagram astray, and the writer callback
does not run while a teardown is scheduled. -/
def tornOnce : TransportPolicy where
  call top m s := (top = false → m.ofBatch = false) ∧ (m = .abort → ¬s.Departing) ∧
    (s.Departing → s.astray m = false) ∧
    (m = .popIo → s.writerNext = true → s.connLost = 0 ∨ s.attached = false)
  env _ _ _ := True
  ret := returnsUnscheduled
  answer _ _ _ := True

instance : (e : UserCall) → (r : Except Exc Unit) → (s : World) →
    Decidable (returnsUnscheduled e r s)
  | .resumeWriting, .ok _, s => inferInstanceAs (Decidable s.Unscheduled)
  | .resumeWriting, .error _, _ => .isTrue trivial
  | .exceptionHandler message _, .ok _, s =>
      inferInstanceAs (Decidable (message = _ → s.Unscheduled))
  | .exceptionHandler message _, .error _, s =>
      inferInstanceAs (Decidable (message = _ → s.Unscheduled))
  | .connectionMade, _, _ => .isTrue trivial
  | .datagramReceived _ _, _, _ => .isTrue trivial
  | .errorReceived _ _, _, _ => .isTrue trivial
  | .pauseWriting, _, _ => .isTrue trivial
  | .connectionLost _, _, _ => .isTrue trivial

instance (top : Bool) (m : Method) (s : World) : Decidable (tornOnce.call top m s) :=
  inferInstanceAs (Decidable ((_ → _) ∧ (_ → _) ∧ (_ → _) ∧ (_ → _ → _)))

instance (top : Bool) (h : Env) (s : World) : Decidable (tornOnce.env top h s) :=
  inferInstanceAs (Decidable True)

instance (e : UserCall) (r : Except Exc Unit) (s : World) : Decidable (tornOnce.ret e r s) :=
  inferInstanceAs (Decidable (returnsUnscheduled e r s))

instance (q : Query) (a : Reply) (s : World) : Decidable (tornOnce.answer q a s) :=
  inferInstanceAs (Decidable True)

structure Once (s : World) : Prop where
  base : Base s
  quiet : s.connLost = 0 → s.scheduled = 0
  once : s.teardowns + s.scheduled ≤ 1
  begun : s.teardowns ≠ 0 → s.closing = true

def onceContract : TransportContract where
  Inv := Once
  Rely s t := (¬s.Departing → ¬t.Departing) ∧ (s.closing = true → t.closing = true)
  Ret := returnsUnscheduled
  Answer _ _ _ := True
  refl _ := ⟨id, id⟩
  trans h h' := ⟨h'.1 ∘ h.1, h'.2 ∘ h.2⟩

abbrev StaysOnce (s t : World) : Prop := Once t ∧ onceContract.Rely s t

theorem Once.step {s s' : World} (h : Once s) (hb : Base s') (hl : s'.connLost = s.connLost)
    (ha : s'.attached = s.attached) (hr : s'.ready = s.ready) (ht : s'.teardowns = s.teardowns)
    (hc : s'.closing = s.closing) : StaysOnce s s' := by
  have hscheduled : s'.scheduled = s.scheduled := by rw [World.scheduled, hr]; rfl
  refine ⟨⟨hb, ?_, ?_, ?_⟩, fun hd => ?_, hc.trans⟩
  · rw [hl, hscheduled]
    exact h.quiet
  · rw [ht, hscheduled]
    exact h.once
  · rw [ht, hc]
    exact h.begun
  · unfold World.Departing
    rw [ht, hl, ha]
    exact hd

/-- Steps that leave alone what `Base` speaks of as well. -/
theorem Once.still {s s' : World} (h : Once s)
    (heq : s' = { s with
      buffer := s'.buffer, bufferSize := s'.bufferSize, paused := s'.paused, replay := s'.replay
      protocolPaused := s'.protocolPaused, highWater := s'.highWater, lowWater := s'.lowWater
      reader := s'.reader, writer := s'.writer, nextSlot := s'.nextSlot, io := s'.io
      kernel := s'.kernel, log := s'.log, untimely := s'.untimely, sent := s'.sent
      fatal := s'.fatal }) : StaysOnce s s' := by
  have hb := h.base
  rw [heq]
  exact h.step ⟨hb.lost, hb.attached, hb.protocol, hb.jobs⟩ rfl rfl rfl rfl rfl

theorem speaks_once : Speaks onceContract where
  base h := h.base
  tune h ht _ := h.still (by rw [ht])
  say _ h _ _ := h.still rfl

/-! ### Scheduling -/

/-- A teardown is scheduled where none has been and none has begun. -/
theorem Once.schedule {s s' : World} (exc : Option Exc) (h : Once s) (hl : s.connLost = 0)
    (ht : s.teardowns = 0) (hlost : s'.connLost = s.connLost + 1)
    (hready : s'.ready = s.ready ++ [.callConnectionLost exc])
    (hteardowns : s'.teardowns = s.teardowns) (hc : s'.closing = true)
    (hp : s'.attached = true → s'.protocol = true) : StaysOnce s s' := by
  have hone : s'.scheduled = 1 := by
    have h0 := h.quiet hl
    unfold World.scheduled at h0 ⊢
    rw [hready, List.countP_append, h0]
    rfl
  refine ⟨⟨.of_closing hc hp, fun h0 => by omega, by omega, fun _ => hc⟩, fun _ hd => ?_,
    fun _ => hc⟩
  have := hd.2.1
  omega

theorem once_forceClose (exc : Option Exc) {s : World} (h : Once s) (hd : ¬s.Departing) :
    (forceClose exc).wp onceContract (fun _ t => StaysOnce s t) s := by
  have hb := h.base
  refine wp_forceClose exc hb (fun _ => ⟨h, onceContract.refl s⟩) (fun hl ha => ?_) fun hl ha => ?_
  · have ht : s.teardowns = 0 := by
      by_contra ht
      exact hd ⟨ht, hl, ha⟩
    exact h.schedule exc hl ht rfl rfl rfl rfl hb.protocol
  · have hc := hb.closing_of_detached ha
    split
    · refine ⟨⟨.of_closing hc hb.protocol, fun h0 => absurd h0 (Nat.succ_ne_zero _), h.once,
        h.begun⟩, fun _ hd' => ?_, id⟩
      exact absurd (ha.symm.trans hd'.2.2) Bool.false_ne_true
    · exact h.still rfl

theorem reads_once : Reads onceContract fun s => ¬s.Departing where
  toSpeaks := speaks_once
  pause h := Once.still h rfl
  watch _ h _ := Once.still h rfl
  fit h := h.1
  hand h _ _ _ := Once.still h rfl
  fatalError exc message h hd := by
    refine wp_fatalError speaks_once exc message (Once.still h rfl) fun t ht hst => ?_
    exact once_forceClose (some exc) ht (hst.1 hd)

theorem once_close : Keeps onceContract close := by
  intro s h
  have hb := h.base
  refine wp_close hb (fun _ => ⟨h, onceContract.refl s⟩) fun hc => ?_
  have ht : s.teardowns = 0 := by
    by_contra ht
    exact absurd (hc.symm.trans (h.begun ht)) Bool.false_ne_true
  unfold World.closed
  split
  · exact h.schedule none (hb.lost_eq_zero hc) ht rfl rfl rfl rfl hb.protocol
  · exact ⟨⟨.of_closing rfl hb.protocol, h.quiet, h.once, fun _ => rfl⟩,
      fun _ hd => hd.1 ht, fun _ => rfl⟩

/-! ### The teardown -/

/-- The one teardown: nothing is scheduled, and none has begun. -/
theorem once_callConnectionLost (exc : Option Exc) {s : World} (h : Once s) (hc : s.closing = true)
    (ht : s.teardowns = 0) (hs : s.scheduled = 0) :
    (callConnectionLost exc).wp onceContract (fun _ t => StaysOnce s t) s := by
  have hbegun : Once s.tearing := by
    refine ⟨.of_closing hc h.base.protocol, fun _ => hs, ?_, fun _ => hc⟩
    show s.teardowns + 1 + s.scheduled ≤ 1
    omega
  have hend : ∀ t, Once t → t.closing = true → StaysOnce s t.severed := by
    intro t hto htc
    have hgone : ∀ u : World, u.attached = false → ¬u.Departing := fun u ha hd =>
      absurd (ha.symm.trans hd.2.2) Bool.false_ne_true
    unfold World.severed
    split
    · exact ⟨⟨.of_closing htc fun h => (by cases h), hto.quiet, hto.once, hto.begun⟩,
        fun _ => hgone _ rfl, fun _ => htc⟩
    · rename_i ha
      exact ⟨hto, fun _ => hgone t (Bool.eq_false_iff.mpr ha), fun _ => htc⟩
  refine wp_callConnectionLost exc (fun _ => (hbegun.still rfl).1) (fun t hto htr => ?_)
    (hend _ hbegun hc)
  exact hend t hto (htr.2 hc)

/-! ### Writing -/

theorem once_enqueue (d : Outgoing) (len : Nat) : Keeps onceContract (enqueue d len) :=
  keeps_bind (keeps_modify fun _ h => Once.still h rfl) fun _ =>
    keeps_maybePauseProtocol speaks_once

theorem once_sendto {data : Payload} {addr : Option Target} {s : World} (h : Once s)
    (hstray : s.Departing → s.astray (.sendto data addr) = false) :
    (sendto data addr).wp onceContract (fun _ t => StaysOnce s t) s := by
  have hb := h.base
  have hstay : StaysOnce s s := ⟨h, onceContract.refl s⟩
  refine wp_sendto hstay (fun hl => ?_) (fun _ => once_enqueue _ _ s h) (fun e hbuf hno => ?_)
    (fun e _ _ => keeps_callProtocol speaks_once rfl rfl s h) (fun _ _ => h.still rfl) fun _ _ => ?_
  · have hc := hb.lost hl
    exact ⟨⟨.of_closing hc hb.protocol, fun h0 => absurd h0 (Nat.succ_ne_zero _), h.once, h.begun⟩,
      fun _ hd => absurd hd.2.1 (Nat.succ_ne_zero _), id⟩
  · refine reads_once.fatalError e _ h fun hd => ?_
    cases hno with
    | detached ha => exact absurd (ha.symm.trans hd.2.2) Bool.false_ne_true
    | unaddressed _ hno => simpa [World.astray, hbuf, hno] using hstray hd
  · rw [wp_bind]
    refine wp_addWriter (fun _ => hstay) (fun _ _ _ => hstay) fun _ _ _ _ => ?_
    have hwriting : StaysOnce s s.writing := h.still rfl
    exact (once_enqueue _ _).after hwriting.1 hwriting.2

theorem once_afterSending {s : World} (h : Once s) (hd : ¬s.Departing) (hs : s.Unscheduled) :
    afterSending.wp onceContract (fun _ t => StaysOnce s t) s := by
  have hflow : FlowControlled onceContract .resumeWriting "protocol.resume_writing() failed"
      World.Unscheduled fun _ => True :=
    ⟨id, fun {_ _ r} h => (by cases r <;> exact h rfl), fun _ _ => trivial, fun _ => trivial⟩
  have hnone : ∀ t, StaysOnce s t → StaysOnce s { t with writer := none } := by
    intro t ht
    have hstep : StaysOnce t { t with writer := none } := ht.1.still rfl
    exact ⟨hstep.1, onceContract.trans ht.2 hstep.2⟩
  refine wp_afterSending (wp_maybeResumeProtocol speaks_once hflow h hs) (fun t ht => ht.1)
    (fun t ht _ => ht.1) (fun t ht _ _ => ht.1) (fun t ht hbuf ha hc => ?_)
    fun t ht _ _ _ => hnone t ht.1
  have hlost : t.connLost = 0 := by
    rcases ht.2 with h0 | hno | hne
    · exact h0
    · exact absurd (hno.symm.trans ha) Bool.false_ne_true
    · exact absurd hbuf hne
  have hfirst : t.teardowns = 0 := by
    by_contra hn
    exact ht.1.2.1 hd ⟨hn, hlost, ha⟩
  obtain ⟨hu, hur⟩ := hnone t ht.1
  exact wp_since hur (once_callConnectionLost none hu hc hfirst (ht.1.1.quiet hlost))

theorem once_sendtoReady {s : World} (h : Once s) (hd : ¬s.Departing)
    (hl : s.connLost = 0 ∨ s.attached = false) :
    sendtoReady.wp onceContract (fun _ t => StaysOnce s t) s := by
  have hgo : ∀ u, Sending s u → StaysOnce s u := fun u hu => h.still (by rw [hu.eq])
  refine wp_sendtoReady (fun u hu => ?_) (fun u e hu _ => ?_) fun u d e hu _ _ => ?_
  · have huns : u.Unscheduled := by
      rw [hu.eq]
      exact hl.imp_right .inl
    obtain ⟨hi, hr⟩ := hgo u hu
    exact wp_since hr (once_afterSending hi (hr.1 hd) huns)
  · exact (keeps_callProtocol speaks_once rfl rfl).after (hgo u hu).1 (hgo u hu).2
  · obtain ⟨hi, hr⟩ := hgo u hu
    exact wp_since hr (reads_once.fatalError e _ hi (hr.1 hd))

/-! ### Runs -/

theorem once_popReady {s : World} (h : Once s) :
    popReady.wp onceContract (fun _ t => StaysOnce s t) s := by
  have hb := h.base
  have hpop : ∀ j rest, s.ready = j :: rest → StaysOnce s { s with ready := rest } ∧
      s.scheduled = World.scheduled { s with ready := rest } + if j.isTeardown then 1 else 0 := by
    intro j rest hready
    have hcount : s.scheduled =
        World.scheduled { s with ready := rest } + if j.isTeardown then 1 else 0 := by
      rw [World.scheduled, hready, List.countP_cons]
      rfl
    refine ⟨⟨⟨⟨hb.lost, hb.attached, hb.protocol, fun exc hm => hb.jobs exc ?_⟩, fun hl => ?_, ?_,
      h.begun⟩, onceContract.refl s⟩, hcount⟩
    · rw [hready]
      exact List.mem_cons_of_mem _ hm
    · have h0 := h.quiet hl
      omega
    · have hone := h.once
      show s.teardowns + _ ≤ 1
      omega
  refine wp_popReady reads_once h (fun rest hready => ?_)
    (fun rest hready => (hpop _ rest hready).1) fun exc rest hready => ?_
  · obtain ⟨ht, htr⟩ := (hpop _ rest hready).1
    have hsay := speaks_once.say .connectionMade ht rfl rfl
    exact ⟨hsay.1, onceContract.trans htr hsay.2⟩
  · obtain ⟨⟨ht, htr⟩, hcount⟩ := hpop _ rest hready
    have hone := h.once
    simp only [Job.isTeardown, if_true] at hcount
    have hc : s.closing = true := hb.jobs exc (by rw [hready]; exact List.mem_cons_self)
    have hfirst : s.teardowns = 0 := by omega
    exact wp_since htr (once_callConnectionLost exc ht hc hfirst (by omega))

theorem once_popIo {s : World} (h : Once s) (hd : ¬s.Departing)
    (hwriter : s.writerNext = true → s.connLost = 0 ∨ s.attached = false) :
    popIo.wp onceContract (fun _ t => StaysOnce s t) s := by
  refine wp_popIo reads_once h hd (fun i rest _ _ => h.still rfl)
    (fun i rest item _ _ _ => h.still rfl) (fun i rest item _ _ _ => h.still rfl)
    fun slot rest hio hw => ?_
  have htake : StaysOnce s { s with io := rest } := h.still rfl
  have hnext : s.writerNext = true := by simp [World.writerNext, hio, hw]
  exact wp_since htake.2 (once_sendtoReady htake.1 (htake.2.1 hd) (hwriter hnext))

theorem once_body {m : Method} {s : World} (h : Once s) (hbatch : m.ofBatch = true → ¬s.Departing)
    (habort : m = .abort → ¬s.Departing)
    (hstray : s.Departing → s.astray m = false)
    (hwriter : m = .popIo → s.writerNext = true → s.connLost = 0 ∨ s.attached = false) :
    m.body.wp onceContract (fun _ t => StaysOnce s t) s := by
  have hb := h.base
  match m, hbatch, habort, hstray, hwriter with
  | .pauseReading, _, _, _, _ => exact keeps_pauseReading reads_once s h
  | .resumeReading, _, _, _, _ =>
      refine keeps_resumeReading reads_once h (fun hc hd => ?_) (h.still rfl)
      exact absurd (hc.symm.trans (h.begun hd.1)) Bool.false_ne_true
  | .registerReader, _, _, _, _ => exact keeps_registerReader reads_once s h
  | .setProtocol, _, _, _, _ =>
      exact h.step ⟨hb.lost, hb.attached, fun _ => rfl, hb.jobs⟩ rfl rfl rfl rfl rfl
  | .close, _, _, _, _ => exact once_close s h
  | .abort, _, habort, _, _ => exact once_forceClose none h (habort rfl)
  | .sendto data addr, _, _, hstray, _ => exact once_sendto h hstray
  | .setWriteBufferLimits high low, _, _, _, _ =>
      exact keeps_setWriteBufferLimits speaks_once high low s h
  | .popReady, _, _, _, _ => exact once_popReady h
  | .popIo, hbatch, _, _, hwriter => exact once_popIo h (hbatch rfl) (hwriter rfl)

theorem sound_once : Sound transport tornOnce onceContract fun s => Once s ∧ ¬s.Departing where
  ret := id
  answer _ := trivial
  call_top m s hs hm := by
    obtain ⟨-, habort, hstray, hwriter⟩ := hm
    have hbody := once_body hs.1 (fun _ => hs.2) habort hstray hwriter
    exact wp_mono _ (fun _ t ht => ⟨ht.1, ht.2.1 hs.2⟩) hbody
  call_inner m s hs hm := by
    obtain ⟨hbatch, habort, hstray, hwriter⟩ := hm
    refine once_body hs (fun hb => ?_) habort hstray hwriter
    exact absurd ((hbatch rfl).symm.trans hb) Bool.false_ne_true
  env_top e s s' hs _ he := by
    have hstep : StaysOnce s s' := hs.1.still (by rw [(env_eq he).1])
    exact ⟨hstep.1, hstep.2.1 hs.2⟩
  env_inner e s s' hs _ he := hs.still (by rw [(env_eq he).1])

/-- A datagram transport is torn down at most once. -/
theorem datagram_teardowns_le_one {c : Config World UserCall Unit Exc Query Reply}
    (h : Reach transport tornOnce
      (fun s => ∃ address peername kernel, s = World.new address peername kernel) c)
    (ho : c.Outside) : c.state.teardowns ≤ 1 := by
  have hinit : ∀ s, (∃ address peername kernel, s = World.new address peername kernel) →
      Once s ∧ ¬s.Departing := by
    rintro s ⟨address, peername, kernel, rfl⟩
    refine ⟨⟨⟨?_, ?_, ?_, ?_⟩, ?_, ?_, ?_⟩, fun hd => hd.1 rfl⟩
    all_goals simp [World.new, World.scheduled, Job.isTeardown]
  have hs : Once c.state := sound_once.inv hinit (fun _ hs => hs.1) h ho
  have hone := hs.once
  omega

/-- **One teardown.** In every run of a stream transport and of a datagram
transport in which no second teardown is scheduled or started before the first
is over, `_call_connection_lost` is executed at most once. -/
theorem torn_down_once (c : Config Transport.World Transport.UserCall Nat Exc Query Reply)
    (d : Config World UserCall Unit Exc Query Reply) :
    (Reach Transport.transport Transport.tornOnce
        (fun s => ∃ kind kernel, s = Transport.World.new kind kernel) c →
      c.Outside → c.state.teardowns ≤ 1) ∧
    (Reach transport tornOnce
        (fun s => ∃ address peername kernel, s = World.new address peername kernel) d →
      d.Outside → d.state.teardowns ≤ 1) :=
  ⟨Transport.teardowns_le_one, datagram_teardowns_le_one⟩

/-- Each transport is closed with something in its buffer; the writer sends it
and starts the teardown, whose `connection_lost` closes once more. -/
theorem torn_down_once_example :
    (∃ c : Config Transport.World Transport.UserCall Nat Exc Query Reply,
      c.state.attached = false ∧ c.state.sent = [1, 2] ∧ c.state.teardowns ≤ 1) ∧
    ∃ d : Config World UserCall Unit Exc Query Reply,
      d.state.attached = false ∧ d.state.sent = [([7], someone)] ∧
        d.state.teardowns ≤ 1 := by
  have hstream : Reach Transport.transport Transport.tornOnce
      (fun s => ∃ kind kernel, s = Transport.World.new kind kernel)
      ⟨.new .plain ⟨[], [], none, false⟩, none, []⟩ := .start ⟨_, ⟨_, _, rfl⟩, rfl⟩
  obtain ⟨c, hc, hcend⟩ := hstream.exists_of_replay [Transport.connect,
    Move.andRun (.call (.write [1, 2])) 3, Move.andRun (.answer (.done 1)) 2,
    Move.andRun (.answer (.done 0)) 4, Move.andRun (.call .close) 8, [.env .fireWriter],
    Move.andRun (.call .popIo) 6, Move.andRun (.answer (.done 1)) 13,
    Move.andRun (.call .close) 3, Move.andRun (.ret (.ok 0)) 4].flatten
    (fun c => c.code.isNone && (!c.state.attached && c.state.sent = [1, 2])) (by decide +kernel)
  have hdatagram : Reach transport tornOnce
      (fun s => ∃ address peername kernel, s = World.new address peername kernel)
      ⟨.new none false ⟨[], [], none, false⟩, none, []⟩ := .start ⟨_, ⟨_, _, _, rfl⟩, rfl⟩
  obtain ⟨d, hd, hdend⟩ := hdatagram.exists_of_replay [connect,
    Move.andRun (.call (.sendto (.ofBytes [7]) someone)) 2, Move.andRun (.answer .wouldBlock) 1,
    Move.andRun (.answer (.done 0)) 4, Move.andRun (.call .close) 7, [.env .fireWriter],
    Move.andRun (.call .popIo) 7, Move.andRun (.answer (.done 1)) 11,
    Move.andRun (.call .close) 2, Move.andRun (.ret (.ok ())) 3].flatten
    (fun d => d.code.isNone && (!d.state.attached && d.state.sent = [([7], someone)]))
    (by decide +kernel)
  simp only [Bool.and_eq_true, Option.isNone_iff_eq_none, decide_eq_true_eq,
    Bool.not_eq_true'] at hcend hdend
  obtain ⟨hone, hone'⟩ := torn_down_once c d
  exact ⟨⟨c, hcend.2.1, hcend.2.2, hone hc hcend.1⟩, d, hdend.2.1, hdend.2.2, hone' hd hdend.1⟩

/-- The writer empties the buffer and calls `resume_writing`, which closes the
transport and so schedules a teardown; back in the writer the transport is
closing, and a teardown is started. The scheduled one follows. -/
theorem torn_down_twice : ¬∀ c : Config Transport.World Transport.UserCall Nat Exc Query Reply,
    Reach Transport.transport Transport.fixedProtocol
      (fun s => ∃ kind kernel, s = Transport.World.new kind kernel) c →
    c.Outside → c.state.teardowns ≤ 1 := by
  intro hall
  have hstart : Reach Transport.transport Transport.fixedProtocol
      (fun s => ∃ kind kernel, s = Transport.World.new kind kernel)
      ⟨.new .plain ⟨[], [], none, false⟩, none, []⟩ := .start ⟨_, ⟨_, _, rfl⟩, rfl⟩
  obtain ⟨c, hrun, hend⟩ := hstart.exists_of_replay [Transport.connect,
    Move.andRun (.call (.setWriteBufferLimits (some 0) none)) 3,
    Move.andRun (.call (.write [1, 2])) 3, Move.andRun (.answer (.done 1)) 2,
    Move.andRun (.answer (.done 0)) 7, Move.andRun (.ret (.ok 0)) 1, [.env .fireWriter],
    Move.andRun (.call .popIo) 6, Move.andRun (.answer (.done 1)) 8,
    Move.andRun (.call .close) 13, Move.andRun (.ret (.ok 0)) 9, Move.andRun (.ret (.ok 0)) 4,
    Move.andRun (.call .popReady) 8].flatten
    (fun c => c.code.isNone && c.state.teardowns = 2) (by decide +kernel)
  simp only [Bool.and_eq_true, Option.isNone_iff_eq_none, decide_eq_true_eq] at hend
  have hone := hall c hrun hend.1
  omega

end Tokioop.Datagram
