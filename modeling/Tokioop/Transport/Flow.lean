import Tokioop.Kit.Coupled
import Tokioop.Transport.Apart
import Tokioop.Transport.Watched

/-!
Flow control of a stream transport.

The protocol is told to pause when the buffer has grown beyond the high-water
mark, and to resume when it has shrunk to the low-water mark. The two calls
alternate, whatever the code behind them does, and agree with
`_protocol_paused` as long as the transport has its loop. Between operations
the size of the buffer is on the right side of the mark. It need not be where
a registration of the writer fails, since `writelines` then leaves without
looking, or where the limits are changed under a paused protocol, which only
the next firing of the writer resumes. Both are excluded where the levels
matter; the contract says which of the two facts is meant.
-/

namespace Tokioop.Transport

open Fd Kit Kit.Prog

namespace World

/-- The transport has its loop and has not lost its connection. -/
def Live (s : World) : Prop := s.connLost = 0 ∧ s.attached = true

/-- A protocol that may write has not been given cause to stop. -/
def Below (s : World) : Prop :=
  s.Live → s.protocolPaused = false → s.getWriteBufferSize ≤ s.highWater

theorem getWriteBufferSize_flatten (s : World) : s.getWriteBufferSize = s.buffer.flatten.length :=
  List.length_flatten.symm

end World

/-- The protocol takes itself for what the transport takes it for. -/
structure Informed (s : World) : Prop where
  base : Base s
  protocol : s.attached = true → s.protocol.isSome = true
  told : ∃ b, s.told = some b ∧ (s.protocolPaused = false → b = false) ∧
    (s.attached = true → b = s.protocolPaused)

/-- A protocol that has been paused has cause to wait. -/
structure Risen (s : World) : Prop where
  limits : s.lowWater ≤ s.highWater
  above : s.Live → s.protocolPaused = true → s.lowWater < s.getWriteBufferSize

/-! ### Steps of no concern to flow control -/

structure Afloat (s t : World) : Prop where
  buffer : t.buffer = s.buffer
  connLost : t.connLost = s.connLost
  closing : t.closing = s.closing
  attached : t.attached = s.attached
  jobs : ∀ exc, Job.callConnectionLost exc ∈ t.ready → Job.callConnectionLost exc ∈ s.ready
  protocol : s.protocol.isSome = true → t.protocol.isSome = true
  told : t.told = s.told
  protocolPaused : t.protocolPaused = s.protocolPaused
  highWater : t.highWater = s.highWater
  lowWater : t.lowWater = s.lowWater

theorem Afloat.refl (s : World) : Afloat s s :=
  ⟨rfl, rfl, rfl, rfl, fun _ => id, id, rfl, rfl, rfl, rfl⟩

theorem Apart.afloat {s t : World} (h : Apart s t) : Afloat s t :=
  ⟨h.buffer, h.connLost, h.closing, h.attached, fun _ => h.ready ▸ id, h.protocol, h.told,
    h.protocolPaused, h.highWater, h.lowWater⟩

section

variable {s t : World}

theorem World.Live.afloat (h : t.Live) (ha : Afloat s t) : s.Live :=
  ⟨ha.connLost ▸ h.1, ha.attached ▸ h.2⟩

theorem Informed.afloat (h : Informed s) (ha : Afloat s t) : Informed t := by
  refine ⟨⟨?_, ?_, ?_⟩, ?_, ?_⟩
  · rw [ha.connLost, ha.closing]
    exact h.base.lost
  · rw [ha.closing, ha.attached]
    exact fun hc => ⟨(h.base.attached hc).1, ha.protocol (h.base.attached hc).2⟩
  · rw [ha.closing]
    exact fun exc hmem => h.base.jobs exc (ha.jobs exc hmem)
  · rw [ha.attached]
    exact fun hatt => ha.protocol (h.protocol hatt)
  · rw [ha.told, ha.protocolPaused, ha.attached]
    exact h.told

theorem Risen.afloat (h : Risen s) (ha : Afloat s t) : Risen t := by
  refine ⟨?_, fun hl => ?_⟩
  · rw [ha.lowWater, ha.highWater]
    exact h.limits
  · rw [ha.protocolPaused, ha.lowWater, World.getWriteBufferSize, ha.buffer]
    exact h.above (hl.afloat ha)

theorem World.Below.afloat (h : s.Below) (ha : Afloat s t) : t.Below := by
  intro hl
  rw [ha.protocolPaused, ha.highWater, World.getWriteBufferSize, ha.buffer]
  exact h (hl.afloat ha)

/-- The levels are of no concern to a transport that is through. -/
theorem Risen.dead (h : Risen s) (ht : ¬t.Live) (hlow : t.lowWater = s.lowWater)
    (hhigh : t.highWater = s.highWater) : Risen t ∧ t.Below := by
  refine ⟨⟨?_, fun hl => absurd hl ht⟩, fun hl => absurd hl ht⟩
  rw [hlow, hhigh]
  exact h.limits

/-- The buffer has grown, which a paused protocol does not mind. -/
theorem Risen.grown (h : Risen s) (more : List (List UInt8)) :
    Risen { s with buffer := s.buffer ++ more } := by
  refine ⟨h.limits, fun hl hp => ?_⟩
  have := h.above hl hp
  simp only [World.getWriteBufferSize_flatten, List.flatten_append, List.length_append] at this ⊢
  omega

theorem World.below_of_empty (h : t.buffer = []) : t.Below := by
  intro _ _
  simp [World.getWriteBufferSize, h]

/-- A closing transport whose flow control has not moved. -/
theorem Informed.closed (h : Informed s) (hc : t.closing = true) (ht : t.told = s.told)
    (hp : t.protocolPaused = s.protocolPaused) (ha : t.attached = true → s.attached = true)
    (hprotocol : t.attached = true → t.protocol = s.protocol) : Informed t := by
  refine ⟨.of_closing hc, fun hatt => ?_, ?_⟩
  · rw [hprotocol hatt]
    exact h.protocol (ha hatt)
  · obtain ⟨b, hb, hfalse, heq⟩ := h.told
    refine ⟨b, ht.trans hb, ?_, fun hatt => ?_⟩
    · rw [hp]
      exact hfalse
    · rw [hp]
      exact heq (ha hatt)

end

/-! ### The contract -/

/-- What holds between the calls of a transport; the levels are part of it if
they matter (`W`). -/
def flowContract (W : Prop) : Contract World UserCall Nat Exc Query Reply where
  Inv s := Informed s ∧ (W → Risen s ∧ s.Below)
  Rely s t := s.closing = true → t.closing = true
  Ret _ _ _ := True
  Answer q a s := W → writerRegisters.answer q a s
  refl _ := id
  trans h h' := h' ∘ h

variable {W : Prop}

theorem flow_afloat {s t : World} (hs : (flowContract W).Inv s) (ha : Afloat s t) :
    (flowContract W).Inv t ∧ (flowContract W).Rely s t :=
  ⟨⟨hs.1.afloat ha, fun w => ⟨(hs.2 w).1.afloat ha, (hs.2 w).2.afloat ha⟩⟩, ha.closing.trans⟩

theorem flow_modify {f : World → World} (h : ∀ s, Afloat s (f s)) :
    Keeps (flowContract W) (modify f : Meth Unit) :=
  keeps_modify fun s hs => flow_afloat hs (h s)

/-- A closing transport that is through. -/
theorem flow_dead {s t : World} (hs : (flowContract W).Inv s) (ht : Informed t)
    (hdead : ¬t.Live) (hlow : t.lowWater = s.lowWater) (hhigh : t.highWater = s.highWater) :
    (flowContract W).Inv t :=
  ⟨ht, fun w => (hs.2 w).1.dead hdead hlow hhigh⟩

theorem flow_forceClose (exc : Option Exc) : Keeps (flowContract W) (forceClose exc) := by
  intro s hs
  refine wp_forceClose exc hs.1.base (fun _ => ⟨hs, id⟩) (fun _ _ => ?_) fun _ ha => ?_
  · refine ⟨flow_dead hs ?_ (fun hl => ?_) rfl rfl, fun _ => rfl⟩
    · exact hs.1.closed rfl rfl rfl id fun _ => rfl
    · cases hl.1
  · have hc := hs.1.base.closing_of_detached ha
    have hgone : ∀ t : World, t.attached = s.attached → ¬t.Live := fun t htatt hl => by
      rw [← htatt, hl.2] at ha
      cases ha
    split
    · exact ⟨flow_dead hs (hs.1.closed hc rfl rfl id fun _ => rfl) (hgone _ rfl) rfl rfl, id⟩
    · exact ⟨flow_dead hs (hs.1.closed hc rfl rfl id fun _ => rfl) (hgone _ rfl) rfl rfl, id⟩

theorem flow_baseClose : Keeps (flowContract W) baseClose := by
  intro s hs
  refine wp_baseClose hs.1.base (fun _ => ⟨hs, id⟩) fun _ => ?_
  unfold World.closed
  split
  · refine ⟨flow_dead hs ?_ (fun hl => ?_) rfl rfl, fun _ => rfl⟩
    · exact hs.1.closed rfl rfl rfl id fun _ => rfl
    · cases hl.1
  · have htold : Informed { s with closing := true, reader := none } :=
      hs.1.closed rfl rfl rfl id fun _ => rfl
    refine ⟨⟨htold, fun w => ⟨⟨(hs.2 w).1.limits, (hs.2 w).1.above⟩, (hs.2 w).2⟩⟩, fun _ => rfl⟩

theorem flow_sockRecv (size : Nat) : Keeps (flowContract W) (sockRecv size) := by
  refine keeps_bind keeps_get fun s => keeps_ite ?_ (keeps_done _)
  refine keeps_bind (keeps_query _) fun a => ?_
  cases a with
  | wouldBlock => exact keeps_done _
  | fail e => exact keeps_done _
  | done n =>
      exact keeps_bind keeps_get fun t =>
        keeps_bind (flow_modify fun s => { Afloat.refl s with }) fun _ => keeps_done _

theorem abides_flow : Abides fun _ p => Keeps (flowContract W) p where
  toCompositional := compositional_keeps _
  apart h := flow_modify fun s => (h s).afloat
  sockRecv := flow_sockRecv
  forceClose := flow_forceClose
  baseClose := flow_baseClose

theorem flow_callConnectionLost (exc : Option Exc) {s : World} (hs : (flowContract W).Inv s)
    (hc : s.closing = true) : (callConnectionLost exc).wp (flowContract W)
      (fun _ t => (flowContract W).Inv t ∧ (flowContract W).Rely s t) s := by
  have hsevered : ∀ t : World, (flowContract W).Inv t → t.closing = true →
      (flowContract W).Inv t.severed ∧ (flowContract W).Rely s t.severed := by
    intro t ht htc
    unfold World.severed
    split
    · refine ⟨flow_dead ht ?_ (fun hl => ?_) rfl rfl, fun _ => htc⟩
      · exact ht.1.closed htc rfl rfl (fun h => by cases h) fun h => by cases h
      · cases hl.2
    · exact ⟨ht, fun _ => htc⟩
  have htearing := (flow_afloat hs (t := s.tearing) { Afloat.refl s with }).1
  refine wp_callConnectionLost exc (fun t ht => ?_) (fun _ => ?_) (fun t r ht htr _ => ?_) ?_
  · obtain ⟨hu, hur⟩ := flow_afloat ht.1 (t := { t with emptyWaiter := some .done })
      { Afloat.refl t with }
    exact ⟨hu, hur ∘ ht.2⟩
  · exact (flow_afloat htearing (apart_logged _ rfl).afloat).1
  · exact hsevered t ht (htr hc)
  · exact hsevered _ htearing hc

/-! ### Pausing and resuming -/

theorem flow_flowControl {e : UserCall} {message : String} {s : World}
    (hcall : s.protocol.isSome = true → (flowContract W).Inv (s.logged e))
    (hnone : s.protocol.isSome = false → (flowContract W).Inv s) :
    (flowControl e message).wp (flowContract W)
      (fun _ t => (flowContract W).Inv t ∧ (flowContract W).Rely s t) s := by
  have hreport : ∀ exc, Keeps (flowContract W)
      (if exc.exits then raise exc else callExceptionHandler message exc : Meth Unit) := fun exc =>
    keeps_ite (keeps_done _) (abides_flow.callExceptionHandler message exc)
  unfold flowControl
  rw [wp_tryCatch, wp_bind, wp_get]
  show wp _ (if s.protocol.isSome = true then _ else _) _ s
  split
  · rename_i hp
    rw [wp_discard]
    refine ⟨hcall hp, fun t r ht htr _ => ?_⟩
    cases r with
    | ok a => exact ⟨ht, htr⟩
    | error exc => exact (hreport exc).after ht htr
  · rename_i hp
    exact hreport _ s (hnone (Bool.eq_false_iff.mpr hp))

/-- Whatever the buffer has grown to. -/
theorem flow_maybePauseProtocol {s : World} (hs : Informed s) (hr : W → Risen s) :
    maybePauseProtocol.wp (flowContract W)
      (fun _ t => (flowContract W).Inv t ∧ (flowContract W).Rely s t) s := by
  unfold maybePauseProtocol
  rw [wp_bind, wp_get]
  show wp _ (if s.getWriteBufferSize ≤ s.highWater ∨ s.protocolPaused = true then _ else _) _ s
  split
  · rename_i h
    refine ⟨⟨hs, fun w => ⟨hr w, fun _ hp => h.resolve_right ?_⟩⟩, id⟩
    rw [hp]
    exact Bool.false_ne_true
  · rename_i h
    rw [not_or, Nat.not_le, Bool.not_eq_true] at h
    obtain ⟨hhigh, hp⟩ := h
    obtain ⟨b, hb, hfalse, -⟩ := hs.told
    have hunpaused : s.told = some false := hfalse hp ▸ hb
    have hlow : W → s.lowWater < s.getWriteBufferSize := fun w =>
      Nat.lt_of_le_of_lt (hr w).limits hhigh
    rw [wp_bind, wp_modify]
    refine flow_flowControl (s := { s with protocolPaused := true })
      (fun _ => ⟨⟨?_, hs.protocol, true, ?_, ?_, fun _ => rfl⟩, fun w => ⟨⟨(hr w).limits, ?_⟩, ?_⟩⟩)
      fun hnone => ⟨⟨?_, hs.protocol, false, hunpaused, fun _ => rfl, fun ha => ?_⟩,
        fun w => ⟨⟨(hr w).limits, fun _ _ => hlow w⟩, fun _ h => by cases h⟩⟩
    · exact ⟨hs.base.lost, hs.base.attached, hs.base.jobs⟩
    · rw [World.told_logged]
      show UserCall.heed s.told _ = _
      rw [hunpaused]
      rfl
    · exact fun h => by cases h
    · exact fun _ _ => hlow w
    · exact fun _ h => by cases h
    · exact ⟨hs.base.lost, hs.base.attached, hs.base.jobs⟩
    · -- A transport with its loop has a protocol to call.
      rw [show s.protocol.isSome = true from hs.protocol ha] at hnone
      cases hnone

/-- What is known after a firing of the writer that ran on a state in which
the buffer may have grown: it has been compared with the low-water mark. -/
structure Settled (W : Prop) (s : World) (r : Except Exc Unit) (t : World) : Prop where
  told : Informed t
  rely : (flowContract W).Rely s t
  risen : W → Risen t
  below : W → s.Below ∨ r ≠ .ok () → t.Below

namespace Settled

variable {s t u : World} {r : Except Exc Unit}

theorem of_inv (ht : (flowContract W).Inv t) (hr : (flowContract W).Rely s t) : Settled W s r t :=
  ⟨ht.1, hr, fun w => (ht.2 w).1, fun w _ => (ht.2 w).2⟩

theorem inv (h : Settled W s r t) (hb : W → t.Below) : (flowContract W).Inv t :=
  ⟨h.told, fun w => ⟨h.risen w, hb w⟩⟩

theorem afloat (h : Settled W s r t) (ha : Afloat t u) : Settled W s r u :=
  ⟨h.told.afloat ha, ha.closing.trans ∘ h.rely, fun w => (h.risen w).afloat ha,
    fun w hb => (h.below w hb).afloat ha⟩

/-- With an empty buffer there is no cause to pause. -/
theorem raised (h : Settled W s r t) (hb : t.buffer = []) (r' : Except Exc Unit) :
    Settled W s r' t :=
  of_inv (h.inv fun _ => World.below_of_empty hb) h.rely

end Settled

theorem settled_maybeResumeProtocol {s : World} (hs : Informed s)
    (hl : W → s.lowWater ≤ s.highWater) (ha : s.attached = true) :
    maybeResumeProtocol.wp (flowContract W) (Settled W s) s := by
  unfold maybeResumeProtocol
  rw [wp_bind, wp_get]
  show wp _ (if s.protocolPaused = true ∧ s.getWriteBufferSize ≤ s.lowWater then _ else _) _ s
  split
  · rename_i h
    obtain ⟨hp, hlow⟩ := h
    obtain ⟨b, hb, -, heq⟩ := hs.told
    have hpaused : s.told = some true := by rw [hb, heq ha, hp]
    rw [wp_bind, wp_modify]
    refine wp_mono _ (fun r t ht => Settled.of_inv ht.1 ht.2) (flow_flowControl (fun _ => ?_) ?_)
    · refine ⟨⟨?_, hs.protocol, false, ?_, fun _ => rfl, fun _ => rfl⟩, fun w => ⟨⟨hl w, ?_⟩, ?_⟩⟩
      · exact ⟨hs.base.lost, hs.base.attached, hs.base.jobs⟩
      · rw [World.told_logged]
        show UserCall.heed s.told _ = _
        rw [hpaused]
        rfl
      · exact fun _ h => by cases h
      · exact fun _ _ => Nat.le_trans hlow (hl w)
    · intro hnone
      rw [show s.protocol.isSome = true from hs.protocol ha] at hnone
      cases hnone
  · rename_i h
    refine ⟨hs, id, fun w => ⟨hl w, fun _ hp => ?_⟩, fun _ hb => hb.resolve_right ?_⟩
    · exact Nat.lt_of_not_le fun hle => h ⟨hp, hle⟩
    · exact fun hno => hno rfl

/-! ### Writing -/

theorem settled_afterSend {s : World} (hs : Informed s) (hl : W → s.lowWater ≤ s.highWater)
    (ha : s.attached = true) : afterSend.wp (flowContract W) (Settled W s) s := by
  refine wp_afterSend (settled_maybeResumeProtocol hs hl ha) (fun e t ht => ht)
    (fun t ht _ => ht) (fun t ht hbuf _ => ht.raised hbuf _)
    (fun t ht hbuf _ _ => (ht.raised hbuf _).afloat { Afloat.refl t with })
    (fun t w ht hbuf _ hc _ => ?_) (fun t w ht _ _ _ _ _ => ht.afloat { Afloat.refl t with })
    fun t w ht _ _ _ _ => ht.afloat { Afloat.refl t with }
  have hu : Settled W s (.ok ()) { t with writer := none, emptyWaiter := w } :=
    ht.afloat { Afloat.refl t with }
  have hinv := hu.inv fun _ => World.below_of_empty hbuf
  exact wp_mono _ (fun r v hv => Settled.of_inv hv.1 (hv.2 ∘ hu.rely))
    (flow_callConnectionLost none hinv hc)

theorem settled_writeSendmsg {s : World} (hs : Informed s) (hr : W → Risen s) :
    writeSendmsg.wp (flowContract W) (Settled W s) s := by
  have hstay : ∀ {r}, (W → s.Below) → Settled W s r s := fun hb =>
    Settled.of_inv ⟨hs, fun w => ⟨hr w, hb w⟩⟩ id
  refine wp_writeSendmsg (fun hbuf => hstay fun _ => World.below_of_empty hbuf)
    (fun hlost => hstay fun _ hl => absurd hl.1 hlost) (fun _ _ ha => hstay fun _ hl => ?_)
    (fun _ _ _ => ⟨hs, id, hr, fun _ h => h.resolve_right fun hno => hno rfl⟩)
    (fun _ hlost ha e _ => ?_) fun _ _ ha n rest _ _ hflat => ?_
  · rw [hl.2] at ha
    cases ha
  · -- The buffer is given up together with the connection.
    rw [wp_bind]
    refine wp_fatalError_osError ha (wp_forceClose _ ?_ (fun h => absurd hlost h) (fun _ _ => ?_)
      fun _ hno => ?_)
    · exact ⟨hs.base.lost, hs.base.attached, hs.base.jobs⟩
    · have hdead : (flowContract W).Inv (World.forceClosed
          { s with writer := none, buffer := [], fatal := true } (some (.osError e))) := by
        refine ⟨hs.closed rfl rfl rfl id fun _ => rfl, fun w => (hr w).dead (fun hl => ?_) rfl rfl⟩
        cases hl.1
      exact wp_mono _ (fun r t ht => Settled.of_inv ht.1 fun _ => ht.2 rfl)
        (abides_flow.resolveEmptyWaiter _ hdead)
    · rw [show s.attached = false from hno] at ha
      cases ha
  · have htold : Informed { s.took (s.gathered.take n) with buffer := rest } :=
      ⟨⟨hs.base.lost, hs.base.attached, hs.base.jobs⟩, hs.protocol, hs.told⟩
    refine wp_mono _ (fun r t ht => ?_) (settled_afterSend htold (fun w => (hr w).limits) ha)
    refine ⟨ht.told, ht.rely, ht.risen, fun w h => ht.below w (h.imp_left fun hb hl hp => ?_)⟩
    have hsize := hb hl hp
    have hlen := congrArg List.length hflat
    simp only [World.getWriteBufferSize_flatten, List.length_append] at hsize hlen ⊢
    exact Nat.le_trans (by omega) hsize

theorem flow_writeSendmsg : Keeps (flowContract W) writeSendmsg := by
  intro s hs
  refine wp_mono _ (fun r t ht => ?_) (settled_writeSendmsg hs.1 fun w => (hs.2 w).1)
  exact ⟨ht.inv fun w => ht.below w (.inl (hs.2 w).2), ht.rely⟩

theorem flow_bufferRest (data : List UInt8) : Keeps (flowContract W) (bufferRest data) := by
  intro s hs
  have htold : Informed { s with buffer := s.buffer ++ [data] } :=
    ⟨⟨hs.1.base.lost, hs.1.base.attached, hs.1.base.jobs⟩, hs.1.protocol, hs.1.told⟩
  unfold bufferRest
  rw [wp_bind, wp_modify]
  exact flow_maybePauseProtocol htold fun w => (hs.2 w).1.grown [data]

theorem flow_write (data : List UInt8) : Keeps (flowContract W) (write data) := by
  intro s hs
  obtain ⟨ho, hor⟩ := flow_afloat hs (t := s.offer data) { Afloat.refl s with }
  have htook : ∀ n, (flowContract W).Inv ((s.offer data).took (data.take n)) ∧
      (flowContract W).Rely s ((s.offer data).took (data.take n)) := fun n =>
    flow_afloat hs { Afloat.refl s with }
  refine wp_write (fun _ _ => ⟨hs, id⟩) (fun _ _ => ⟨ho, hor⟩) (fun _ hlost => ?_)
    (fun _ _ _ _ => (flow_bufferRest data).after ho hor)
    (fun _ _ _ _ => (abides_flow.fatalError _ _).after ho hor)
    (fun _ _ _ _ _ _ _ => (abides_flow.fatalError _ _).after ho hor)
    (fun _ _ _ _ _ n _ => htook n) fun _ _ _ _ n _ => ?_
  · have hc := hs.1.base.lost hlost
    refine ⟨flow_dead hs (hs.1.closed hc rfl rfl id fun _ => rfl) (fun hl => ?_) rfl rfl, id⟩
    cases hl.1
  · exact (keeps_bind abides_flow.addWriter fun _ => flow_bufferRest _).after
      (htook n).1 (htook n).2

theorem flow_writelines (lines : List (List UInt8)) :
    Keeps (flowContract W) (writelines lines) := by
  intro s hs
  have hgrown : ∀ u : World, Afloat s u → Informed { u with buffer := s.buffer ++ lines } := by
    intro u hu
    have ht := hs.1.afloat hu
    exact ⟨⟨ht.base.lost, ht.base.attached, ht.base.jobs⟩, ht.protocol, ht.told⟩
  have hoffer : Afloat s (s.offer lines.flatten) := { Afloat.refl s with }
  refine wp_writelines (fun _ => ⟨hs, id⟩) (fun _ => ⟨hs, id⟩) (fun _ hlost => ?_)
    (fun _ ha => ?_) fun _ _ _ _ => ?_
  · have hc := hs.1.base.lost hlost
    refine ⟨flow_dead hs (hs.1.closed hc rfl rfl id fun _ => rfl) (fun hl => ?_) rfl rfl, id⟩
    cases hl.1
  · refine ⟨flow_dead hs (hgrown s (.refl s)) (fun hl => ?_) rfl rfl, id⟩
    rw [show s.attached = true from hl.2] at ha
    cases ha
  · refine wp_mono _ (fun r t ht => ?_)
      (settled_writeSendmsg (hgrown _ hoffer) fun w => ((hs.2 w).1.afloat hoffer).grown lines)
    cases r with
    | error e => exact ⟨ht.inv fun w => ht.below w (.inr fun h => by cases h), ht.rely⟩
    | ok _ =>
        show if t.buffer = [] then _ else _
        split
        · rename_i hbuf
          exact ⟨ht.inv fun _ => World.below_of_empty hbuf, ht.rely⟩
        · -- The levels wait for a writer that can be registered.
          rw [wp_bind]
          refine wp_addWriter (fun hno => ⟨ht.inv fun _ hl => ?_, ht.rely⟩)
            (fun _ e hans => ⟨ht.inv fun w => ?_, ht.rely⟩) fun _ _ _ _ => ?_
          · rw [hl.2] at hno
            cases hno
          · cases hans w rfl
          · have hw : Afloat t t.writing := { Afloat.refl t with }
            exact wp_mono _ (fun _ _ hu => ⟨hu.1, hu.2 ∘ ht.rely⟩)
              (flow_maybePauseProtocol (ht.told.afloat hw) fun w => (ht.risen w).afloat hw)

theorem flow_writeEof : Keeps (flowContract W) writeEof := by
  refine keeps_bind keeps_get fun _ => keeps_ite (keeps_done _) ?_
  refine keeps_bind (flow_modify fun s => { Afloat.refl s with }) fun _ =>
    keeps_ite ?_ (keeps_done _)
  exact keeps_bind keeps_get fun _ =>
    keeps_ite (flow_modify fun s => { Afloat.refl s with }) (keeps_done _)

theorem flow_setWriteBufferLimits {high low : Option Nat} {s : World}
    (hs : (flowContract W).Inv s)
    (hlow : W → s.protocolPaused = true → (writeBufferLimits high low).2 < s.getWriteBufferSize) :
    (setWriteBufferLimits high low).wp (flowContract W)
      (fun _ t => (flowContract W).Inv t ∧ (flowContract W).Rely s t) s := by
  unfold setWriteBufferLimits
  dsimp only
  split
  · exact ⟨hs, id⟩
  · rename_i hle
    rw [wp_bind, wp_modify]
    refine flow_maybePauseProtocol ?_ fun w => ⟨Nat.not_lt.mp hle, fun _ hp => hlow w hp⟩
    exact ⟨⟨hs.1.base.lost, hs.1.base.attached, hs.1.base.jobs⟩, hs.1.protocol, hs.1.told⟩

theorem flow_popReady : Keeps (flowContract W) popReady := by
  intro s hs
  unfold popReady
  rw [wp_bind, wp_get]
  dsimp only
  cases hready : s.ready with
  | nil => exact ⟨hs, id⟩
  | cons j rest =>
      have hpop : Afloat s { s with ready := rest } :=
        { Afloat.refl s with jobs := fun _ h => hready ▸ List.mem_cons_of_mem _ h }
      obtain ⟨ht, htr⟩ := flow_afloat hs hpop
      rw [wp_bind, wp_modify, wp_tryCatch]
      have hjob : (runJob j).wp (flowContract W)
          (fun _ u => (flowContract W).Inv u ∧ (flowContract W).Rely s u)
          { s with ready := rest } := by
        cases j with
        | connectionMade => exact (abides_flow.discard (abides_flow.invoke rfl)).after ht htr
        | registerReader => exact abides_flow.registerReader.after ht htr
        | callConnectionLost exc =>
            exact wp_since htr (flow_callConnectionLost exc ht
              (hs.1.base.jobs exc (hready ▸ List.mem_cons_self)))
      refine wp_mono _ (fun r u hu => ?_) hjob
      cases r with
      | ok a => exact hu
      | error e => exact (abides_flow.reportCallbackError e).after hu.1 hu.2

/-- The environment does not move what has been written. -/
theorem afloat_env {s t : World} {h : Env} (he : s.env h = some t) : Afloat s t := by
  by_cases hrun : ∃ size, h = .drainRun size
  · obtain ⟨size, rfl⟩ := hrun
    obtain ⟨u, o, -, -, rfl⟩ := env_drainRun he
    exact { Afloat.refl s with }
  · have hd := drift_of_env he fun size hs => hrun ⟨size, hs⟩
    rw [hd.eq]
    exact { Afloat.refl s with }

theorem sound_flow {P : TransportPolicy}
    (hanswer : W → ∀ q a s, P.answer q a s → writerRegisters.answer q a s)
    (hlow : W → ∀ top high low s, P.call top (.setWriteBufferLimits high low) s →
      s.protocolPaused = true → (writeBufferLimits high low).2 < s.getWriteBufferSize) :
    Sound transport P (flowContract W) (flowContract W).Inv := by
  have hbody : ∀ top m s, (flowContract W).Inv s → P.call top m s →
      (transport.body m).wp (flowContract W)
        (fun _ t => (flowContract W).Inv t ∧ (flowContract W).Rely s t) s := by
    intro top m s hs hcall
    cases m with
    | pauseReading => exact abides_flow.pauseReading s hs
    | resumeReading => exact abides_flow.resumeReading s hs
    | registerReader => exact abides_flow.registerReader s hs
    | setProtocol kind => exact abides_flow.setProtocol kind s hs
    | close => exact abides_flow.close s hs
    | abort => exact flow_forceClose none s hs
    | write data => exact flow_write data s hs
    | writelines lines => exact flow_writelines lines s hs
    | writeEof => exact flow_writeEof s hs
    | setWriteBufferLimits high low =>
        exact flow_setWriteBufferLimits hs fun w => hlow w _ _ _ _ hcall
    | makeEmptyWaiter => exact abides_flow.makeEmptyWaiter s hs
    | resetEmptyWaiter => exact abides_flow.resetEmptyWaiter s hs
    | popReady => exact flow_popReady s hs
    | popIo => exact abides_flow.popIo flow_writeSendmsg s hs
  exact {
    ret := fun _ => trivial
    answer := fun h w => hanswer w _ _ _ h
    call_top := fun m s hs hm => wp_mono _ (fun _ _ ht => ht.1) (hbody true m s hs hm)
    call_inner := fun m s hs hm => hbody false m s hs hm
    env_top := fun h s t hs _ he => (flow_afloat hs (afloat_env he)).1
    env_inner := fun h s t hs _ he => flow_afloat hs (afloat_env he) }

theorem flow_of_reach {P : TransportPolicy}
    (hanswer : W → ∀ q a s, P.answer q a s → writerRegisters.answer q a s)
    (hlow : W → ∀ top high low s, P.call top (.setWriteBufferLimits high low) s →
      s.protocolPaused = true → (writeBufferLimits high low).2 < s.getWriteBufferSize)
    {c : Config World UserCall Nat Exc Query Reply}
    (h : Reach transport P (fun s => ∃ kind kernel, s = World.new kind kernel) c)
    (ho : c.Outside) : (flowContract W).Inv c.state := by
  refine (sound_flow hanswer hlow).inv ?_ (fun _ hs => hs) h ho
  rintro s ⟨kind, kernel, rfl⟩
  refine ⟨⟨⟨?_, ?_, ?_⟩, fun _ => rfl, false, rfl, fun _ => rfl, fun _ => rfl⟩,
    fun _ => ⟨⟨?_, fun _ hp => ?_⟩, World.below_of_empty rfl⟩⟩
  · exact fun h => absurd rfl h
  · exact fun _ => ⟨rfl, rfl⟩
  · simp [World.new]
  · simp [World.new]
  · cases hp

/-! ### What the protocol sees -/

/-- Whatever is called, answered and returned, `pause_writing` and
`resume_writing` are called in turns, the first of the two first; and while the
transport has its loop, the last of these calls is what `_protocol_paused`
says. -/
theorem pause_resume_alternate {P : TransportPolicy} {c : Config World UserCall Nat Exc Query Reply}
    (h : Reach transport P (fun s => ∃ kind kernel, s = World.new kind kernel) c)
    (ho : c.Outside) :
    ∃ b, c.state.told = some b ∧ (c.state.attached = true → b = c.state.protocolPaused) := by
  obtain ⟨b, hb, -, heq⟩ :=
    (flow_of_reach (W := False) (fun h => h.elim) (fun h => h.elim) h ho).1.told
  exact ⟨b, hb, heq⟩

/-- The protocol is paused, resumed by the writer, and writes again from
`resume_writing`. -/
theorem pause_resume_alternate_example : ∃ c : Config World UserCall Nat Exc Query Reply,
    c.state.log = [.pauseWriting, .resumeWriting, .pauseWriting] ∧
    ∃ b, c.state.told = some b ∧ (c.state.attached = true → b = c.state.protocolPaused) := by
  have hstart : Reach transport writerRegisters (fun s => ∃ kind kernel, s = World.new kind kernel)
      ⟨World.new .plain ⟨[], [], none, false⟩, none, []⟩ := .start ⟨_, ⟨_, _, rfl⟩, rfl⟩
  obtain ⟨c, hrun, hend⟩ := hstart.exists_of_replay [
    Move.andRun (.call (.setWriteBufferLimits (some 0) none)) 3,
    Move.andRun (.call (.write [1, 2, 3])) 3, Move.andRun (.answer (.done 1)) 2,
    Move.andRun (.answer (.done 0)) 7, Move.andRun (.ret (.ok 0)) 1,
    [.env .fireWriter], Move.andRun (.call .popIo) 6, Move.andRun (.answer (.done 2)) 8,
    Move.andRun (.call (.write [4, 5])) 3, Move.andRun (.answer (.done 1)) 2,
    Move.andRun (.answer (.done 0)) 7].flatten
    (fun c => c.code.isNone && c.state.log = [.pauseWriting, .resumeWriting, .pauseWriting])
    (by decide +kernel)
  simp only [Bool.and_eq_true, Option.isNone_iff_eq_none, decide_eq_true_eq] at hend
  exact ⟨c, hend.2, pause_resume_alternate hrun hend.1⟩

/-- New limits leave a paused protocol cause to wait. -/
def Method.leavesRisen (m : Method) (s : World) : Prop :=
  ∀ high low, m = .setWriteBufferLimits high low → s.protocolPaused = true →
    (writeBufferLimits high low).2 < s.getWriteBufferSize

instance : (m : Method) → (s : World) → Decidable (m.leavesRisen s)
  | .setWriteBufferLimits high low, s =>
      decidable_of_iff (s.protocolPaused = true →
        (writeBufferLimits high low).2 < s.getWriteBufferSize)
        ⟨fun h _ _ he => by cases he; exact h, fun h => h high low rfl⟩
  | .pauseReading, _ | .resumeReading, _ | .registerReader, _ | .setProtocol _, _ | .close, _
  | .abort, _ | .write _, _ | .writelines _, _ | .writeEof, _ | .makeEmptyWaiter, _
  | .resetEmptyWaiter, _ | .popReady, _ | .popIo, _ => .isTrue fun _ _ he => by cases he

/-- The writer is steady, and new limits do not strand a paused protocol. -/
def levelled : TransportPolicy where
  call top m s := steadyWriter.call top m s ∧ m.leavesRisen s
  env := steadyWriter.env
  ret := steadyWriter.ret
  answer := steadyWriter.answer

instance (top : Bool) (m : Method) (s : World) : Decidable (levelled.call top m s) :=
  inferInstanceAs (Decidable (_ ∧ _))

instance (top : Bool) (h : Env) (s : World) : Decidable (levelled.env top h s) :=
  inferInstanceAs (Decidable True)

instance (e : UserCall) (r : Except Exc Nat) (s : World) : Decidable (levelled.ret e r s) :=
  inferInstanceAs (Decidable (steadyWriter.ret e r s))

instance (q : Query) (a : Reply) (s : World) : Decidable (levelled.answer q a s) :=
  inferInstanceAs (Decidable (steadyWriter.answer q a s))

/-- A connected transport has paused its protocol only with more than the
low-water mark in its buffer, and between operations with a writer that will
send it; and it lets the protocol write only while the buffer holds at most
the high-water mark. -/
theorem water_levels {c : Config World UserCall Nat Exc Query Reply}
    (h : Reach transport levelled (fun s => ∃ kind kernel, s = World.new kind kernel) c)
    (ho : c.Outside) (hl : c.state.connLost = 0) (ht : c.state.teardowns = 0) :
    (c.state.protocolPaused = true → c.state.told = some true ∧
      c.state.lowWater < c.state.getWriteBufferSize ∧
      (c.calls = [] → c.state.writer.isSome = true)) ∧
    (c.state.protocolPaused = false → c.state.told = some false ∧
      c.state.getWriteBufferSize ≤ c.state.highWater) := by
  have hsteady := steady_of_reach (Reach.weaken (P := levelled) (fun h => h.1) id id id h) ho
  obtain ⟨htold, hlevels⟩ := flow_of_reach (W := True) (P := levelled) (fun _ _ _ _ => id)
    (fun _ _ _ _ _ h => h.2 _ _ rfl) h ho
  obtain ⟨hrisen, hbelow⟩ := hlevels trivial
  have ha := hsteady.1.attached ht
  obtain ⟨b, hb, -, heq⟩ := htold.told
  refine ⟨fun hp => ?_, fun hp => ⟨?_, hbelow ⟨hl, ha⟩ hp⟩⟩
  · have habove := hrisen.above ⟨hl, ha⟩ hp
    refine ⟨by rw [hb, heq ha, hp], habove, fun hcalls => ?_⟩
    refine (hsteady.2 hcalls ht).mpr fun hempty => ?_
    rw [World.getWriteBufferSize, hempty] at habove
    exact Nat.not_lt_zero _ habove
  · rw [hb, heq ha, hp]

/-- Three bytes are buffered above a mark of one. -/
theorem water_levels_example : ∃ c : Config World UserCall Nat Exc Query Reply,
    c.state.buffer = [[2, 3], [4]] ∧ c.state.told = some true ∧
    c.state.lowWater < c.state.getWriteBufferSize ∧ c.state.writer.isSome = true := by
  have hstart : Reach transport levelled (fun s => ∃ kind kernel, s = World.new kind kernel)
      ⟨World.new .plain ⟨[], [], none, false⟩, none, []⟩ := .start ⟨_, ⟨_, _, rfl⟩, rfl⟩
  obtain ⟨c, hrun, hend⟩ := hstart.exists_of_replay [
    Move.andRun (.call (.setWriteBufferLimits (some 1) (some 1))) 3,
    Move.andRun (.call (.write [1, 2, 3])) 3, Move.andRun (.answer (.done 1)) 2,
    Move.andRun (.answer (.done 0)) 7, Move.andRun (.call (.write [4])) 5,
    Move.andRun (.ret (.ok 0)) 1].flatten
    (fun c => c.code.isNone && c.calls.isEmpty && c.state.connLost = 0 && c.state.teardowns = 0 &&
      c.state.buffer = [[2, 3], [4]] && c.state.protocolPaused) (by decide +kernel)
  simp only [Bool.and_eq_true, Option.isNone_iff_eq_none, List.isEmpty_iff,
    decide_eq_true_eq] at hend
  obtain ⟨⟨⟨⟨⟨ho, hcalls⟩, hl⟩, ht⟩, hbuf⟩, hp⟩ := hend
  obtain ⟨htold, hlow, hwriter⟩ := (water_levels hrun ho hl ht).1 hp
  exact ⟨c, hbuf, htold, hlow, hwriter hcalls⟩

end Tokioop.Transport
