import Tokioop.Transport.Reading

/-!
What reading leaves alone.

The counterpart of `Teardown`, seen from the write side. An `Aside` step
moves neither bytes on their way out nor the teardown; everything that
pausing, resuming, registering, delivering and flow control do themselves is
an aside, and what they do besides is to close the transport, by `close` or by
`_force_close`. So a contract that puts up with asides (`Sidelined`) and with
these two (`Unread`) is kept by the whole read side.
-/

namespace Tokioop.Transport

open Fd Kit Kit.Prog

/-- A step of no concern to writing and tearing down. -/
structure Aside (s s' : World) : Prop where
  buffer : s'.buffer = s.buffer
  connLost : s'.connLost = s.connLost
  closing : s'.closing = s.closing
  eof : s'.eof = s.eof
  attached : s'.attached = s.attached
  writer : s'.writer = s.writer
  ready : s'.ready = s.ready
  sent : s'.sent = s.sent
  offered : s'.offered = s.offered
  shutdowns : s'.shutdowns = s.shutdowns
  teardowns : s'.teardowns = s.teardowns
  protocol : s.protocol.isSome = true → s'.protocol.isSome = true
  reader : s.closing = true → s.reader = none → s'.reader = none

theorem Aside.refl (s : World) : Aside s s :=
  ⟨rfl, rfl, rfl, rfl, rfl, rfl, rfl, rfl, rfl, rfl, rfl, id, fun _ => id⟩

/-- Calls are made from anywhere. -/
theorem Aside.logged (s : World) (e : UserCall) : Aside s (s.logged e) := { Aside.refl s with }

theorem Base.aside {s s' : World} (h : Base s) (ha : Aside s s') : Base s' := by
  refine ⟨?_, ?_, ?_⟩
  · rw [ha.connLost, ha.closing]
    exact h.lost
  · rw [ha.closing, ha.attached]
    exact fun hc => ⟨(h.attached hc).1, ha.protocol (h.attached hc).2⟩
  · rw [ha.ready, ha.closing]
    exact h.jobs

theorem Base.closing_of_detached {s : World} (h : Base s) (ha : s.attached = false) :
    s.closing = true := by
  by_contra hc
  have hatt := (h.attached (Bool.eq_false_iff.mpr hc)).1
  rw [ha] at hatt
  cases hatt

theorem Base.lost_eq_zero {s : World} (h : Base s) (hc : s.closing = false) : s.connLost = 0 := by
  by_contra hl
  rw [h.lost hl] at hc
  cases hc

/-- A contract about writing and tearing down. -/
structure Sidelined (C : Contract World UserCall Nat Exc Query Reply) : Prop where
  base : ∀ {s}, C.Inv s → Base s
  aside : ∀ {s s'}, C.Inv s → Aside s s' → C.Inv s' ∧ C.Rely s s'

/-- A contract that closing keeps as well. -/
structure Unread (C : Contract World UserCall Nat Exc Query Reply) : Prop extends Sidelined C where
  forceClose : ∀ exc, Keeps C (forceClose exc)
  baseClose : Keeps C baseClose

namespace Sidelined

variable {C : Contract World UserCall Nat Exc Query Reply} (hS : Sidelined C)
include hS

/-! ### Single steps -/

theorem modify {f : World → World} (h : ∀ s, Aside s (f s)) : Keeps C (Prog.modify f : Meth Unit) :=
  keeps_modify fun s hs => hS.aside hs (h s)

theorem onLoop {f : World → World} (h : ∀ s, Aside s (f s)) : Keeps C (onLoop f) :=
  keeps_bind keeps_get fun _ => keeps_ite (hS.modify h) (keeps_done _)

theorem invoke (e : UserCall) : Keeps C (invoke e) :=
  keeps_bind (hS.modify fun s => Aside.logged s e) fun _ => keeps_callback e

theorem discardInvoke (e : UserCall) : Keeps C (discard (Transport.invoke e) : Meth Unit) :=
  keeps_bind (hS.invoke e) fun _ => keeps_done _

theorem callExceptionHandler (message : String) (exc : Exc) :
    Keeps C (callExceptionHandler message exc) :=
  keeps_bind keeps_get fun _ => keeps_ite
    (keeps_tryCatch (hS.discardInvoke _) fun _ => keeps_done _) (keeps_done _)

theorem reportCallbackError (exc : Exc) : Keeps C (reportCallbackError exc) :=
  keeps_tryCatch (hS.discardInvoke _) fun _ => keeps_done _

theorem removeReader : Keeps C removeReader :=
  hS.onLoop fun s => { Aside.refl s with reader := fun _ _ => rfl }

/-! ### Flow control and the empty waiter -/

theorem flowControl (e : UserCall) (message : String) : Keeps C (flowControl e message) :=
  keeps_tryCatch
    (keeps_bind keeps_get fun _ => keeps_ite (hS.discardInvoke e) (keeps_done _))
    fun exc => keeps_ite (keeps_done _) (hS.callExceptionHandler message exc)

theorem maybePauseProtocol : Keeps C maybePauseProtocol :=
  keeps_bind keeps_get fun _ => keeps_ite (keeps_done _) <|
    keeps_bind (hS.modify fun s => { Aside.refl s with }) fun _ => hS.flowControl _ _

theorem setWriteBufferLimits (high low : Option Nat) : Keeps C (setWriteBufferLimits high low) :=
  keeps_ite (keeps_done _) <|
    keeps_bind (hS.modify fun s => { Aside.refl s with }) fun _ => hS.maybePauseProtocol

theorem maybeResumeProtocol : Keeps C maybeResumeProtocol :=
  keeps_bind keeps_get fun _ => keeps_ite
    (keeps_bind (hS.modify fun s => { Aside.refl s with }) fun _ => hS.flowControl _ _)
    (keeps_done _)

theorem resolveEmptyWaiter : Keeps C resolveEmptyWaiter := by
  refine keeps_bind keeps_get fun s => ?_
  split
  · exact keeps_done _
  · exact hS.modify fun s => { Aside.refl s with }
  · exact keeps_done _

theorem makeEmptyWaiter : Keeps C makeEmptyWaiter :=
  keeps_bind keeps_get fun _ => keeps_ite (keeps_done _) <|
    hS.onLoop fun s => { Aside.refl s with }

theorem resetEmptyWaiter : Keeps C resetEmptyWaiter := hS.modify fun s => { Aside.refl s with }

/-! ### Reading -/

/-- Registering is for transports that are not closing. -/
theorem registerReader : Keeps C registerReader := by
  intro s hs
  refine wp_registerReader (fun _ => ⟨hs, C.refl s⟩) (fun _ _ => ⟨hs, C.refl s⟩)
    (fun _ _ _ => ⟨hs, C.refl s⟩) ?_
  intro hreading a edge _ _
  have hc := (s.isReading_iff.mp hreading).1
  refine hS.aside hs ?_
  unfold World.watched
  split
  · exact { Aside.refl s with reader := fun hclosing => by simp [hc] at hclosing }
  · exact { Aside.refl s with reader := fun hclosing => by simp [hc] at hclosing }

theorem dataReceived (data : List UInt8) : Keeps C (dataReceived data) := by
  refine keeps_bind keeps_get fun s => ?_
  split
  · exact hS.discardInvoke _
  · exact keeps_bind (hS.modify fun s => { Aside.refl s with }) fun _ => keeps_done _
  · exact keeps_done _

theorem getBuffer : Keeps C getBuffer := by
  refine keeps_bind keeps_get fun s => ?_
  split
  · exact keeps_bind (hS.invoke _) fun len => keeps_ite (keeps_done _) (keeps_done _)
  · exact keeps_done _

theorem bufferUpdated (nbytes : Nat) : Keeps C (bufferUpdated nbytes) := by
  refine keeps_bind keeps_get fun s => ?_
  split
  · exact hS.discardInvoke _
  · exact keeps_done _

theorem setProtocol (kind : ProtocolKind) : Keeps C (setProtocol kind) := by
  have hswitch : Keeps C (switchReader (decide (kind = .plain))) :=
    keeps_bind keeps_get fun _ => keeps_ite
      (keeps_bind (hS.modify fun s => { Aside.refl s with }) fun _ =>
        keeps_bind keeps_get fun _ => keeps_ite
          (keeps_bind hS.removeReader fun _ => hS.registerReader) (keeps_done _))
      (keeps_done _)
  refine keeps_bind (hS.modify fun s => { Aside.refl s with }) fun _ =>
    keeps_bind hswitch fun _ => ?_
  exact hS.modify fun s => { Aside.refl s with protocol := fun _ => rfl }

theorem sockRecv (size : Nat) : Keeps C (sockRecv size) := by
  refine keeps_bind keeps_get fun s => keeps_ite ?_ (keeps_done _)
  refine keeps_bind (keeps_query _) fun a => ?_
  cases a with
  | wouldBlock => exact keeps_done _
  | fail e => exact keeps_done _
  | done n =>
      exact keeps_bind keeps_get fun t =>
        keeps_bind (hS.modify fun s => { Aside.refl s with }) fun _ => keeps_done _

theorem pauseReading : Keeps C pauseReading :=
  keeps_bind keeps_get fun _ => keeps_ite
    (keeps_bind (hS.modify fun s => { Aside.refl s with }) fun _ =>
      keeps_bind keeps_get fun _ => keeps_ite (keeps_done _) hS.removeReader)
    (keeps_done _)

/-! ### What the loop calls -/

/-- The batch takes a ready callback; only the teardown is of concern. -/
theorem popReady {s : World} (hs : C.Inv s)
    (hother : ∀ j rest, s.ready = j :: rest → (∀ exc, j ≠ .callConnectionLost exc) →
      C.Inv { s with ready := rest } ∧ C.Rely s { s with ready := rest })
    (hlost : ∀ exc rest, s.ready = .callConnectionLost exc :: rest →
      (callConnectionLost exc).wp C (fun _ t => C.Inv t ∧ C.Rely s t) { s with ready := rest }) :
    popReady.wp C (fun _ t => C.Inv t ∧ C.Rely s t) s := by
  unfold Transport.popReady
  rw [wp_bind, wp_get]
  dsimp only
  cases hready : s.ready with
  | nil => exact ⟨hs, C.refl s⟩
  | cons j rest =>
      rw [wp_bind, wp_modify, wp_tryCatch]
      have hjob : (runJob j).wp C (fun _ t => C.Inv t ∧ C.Rely s t) { s with ready := rest } := by
        cases j with
        | connectionMade =>
            obtain ⟨ht, htr⟩ := hother _ rest hready (fun _ h => by cases h)
            exact (hS.discardInvoke _).after ht htr
        | registerReader =>
            obtain ⟨ht, htr⟩ := hother _ rest hready (fun _ h => by cases h)
            exact hS.registerReader.after ht htr
        | callConnectionLost exc => exact hlost exc rest hready
      refine wp_mono C ?_ hjob
      rintro r t ⟨ht, htr⟩
      cases r with
      | ok a => exact ⟨ht, htr⟩
      | error e => exact (hS.reportCallbackError e).after ht htr

/-- A completion is delivered, read, or given to the writer callback. -/
theorem popIo {s : World} (hs : C.Inv s)
    (hdeliver : ∀ item t, C.Inv t → C.Rely s t → t.closing = false →
      (deliverReplay item).wp C (fun _ u => C.Inv u ∧ C.Rely t u) t)
    (hread : ∀ t, C.Inv t → C.Rely s t → readReady.wp C (fun _ u => C.Inv u ∧ C.Rely t u) t)
    (hwrite : ∀ t, C.Inv t → C.Rely s t → writeSendmsg.wp C (fun _ u => C.Inv u ∧ C.Rely t u) t) :
    popIo.wp C (fun _ t => C.Inv t ∧ C.Rely s t) s := by
  unfold Transport.popIo
  rw [wp_bind, wp_get]
  dsimp only
  cases hio : s.io with
  | nil => exact ⟨hs, C.refl s⟩
  | cons i rest =>
      have hpop : Aside s { s with io := rest } := { Aside.refl s with }
      obtain ⟨ht, htr⟩ := hS.aside hs hpop
      have hgo : ∀ {u v : World}, C.Rely s u → C.Inv v ∧ C.Rely u v → C.Inv v ∧ C.Rely s v :=
        fun hr hv => ⟨hv.1, C.trans hr hv.2⟩
      rw [wp_bind, wp_modify, wp_tryCatch]
      have hitem : (runItem i).wp C (fun _ u => C.Inv u ∧ C.Rely s u) { s with io := rest } := by
        cases hi : i.payload with
        | some item =>
            refine wp_runItem hi (fun _ => ⟨ht, htr⟩) (fun _ _ => ?_) fun hreading => ?_
            · exact hgo htr (hS.aside ht { Aside.refl _ with })
            · have hc := (World.isReading_iff _).mp hreading
              exact wp_mono C (fun _ _ hu => hgo htr hu) (hdeliver item _ ht htr hc.1)
        | none =>
            match i, hi with
            | .data (.udpDatagram _ _), _ => exact ⟨ht, htr⟩
            | .callback slot, _ =>
                unfold runItem
                rw [wp_bind, wp_get]
                show wp C (if s.reader = some (.callback slot) then _ else _) _ _
                split
                · exact wp_mono C (fun _ _ hu => hgo htr hu) (hread _ ht htr)
                split
                · exact wp_mono C (fun _ _ hu => hgo htr hu) (hwrite _ ht htr)
                · exact ⟨ht, htr⟩
      refine wp_mono C ?_ hitem
      rintro r u ⟨hu, hur⟩
      cases r with
      | ok a => exact ⟨hu, hur⟩
      | error e => exact (hS.reportCallbackError e).after hu hur

end Sidelined

namespace Unread

variable {C : Contract World UserCall Nat Exc Query Reply} (hU : Unread C)
include hU

/-! ### Delivering -/

theorem fatalError (exc : Exc) (message : String) : Keeps C (fatalError exc message) :=
  have hdebug : Keeps C getDebug :=
    keeps_bind keeps_get fun _ => keeps_ite (keeps_done _) (keeps_done _)
  keeps_bind (hU.modify fun s => { Aside.refl s with }) fun _ =>
    keeps_bind (keeps_ite hdebug (hU.callExceptionHandler message exc)) fun _ => hU.forceClose _

theorem abort : Keeps C abort := hU.forceClose none

theorem close : Keeps C close :=
  keeps_bind (hU.modify fun s => { Aside.refl s with }) fun _ => hU.baseClose

theorem orFatal {α : Type} {k : α → Meth Unit} (message : String) (hk : ∀ a, Keeps C (k a))
    (r : Except Exc α) : Keeps C (orFatal message k r) := by
  cases r with
  | ok a => exact hk a
  | error e => exact keeps_ite (keeps_done _) (hU.fatalError e message)

theorem readReadyOnEof : Keeps C readReadyOnEof :=
  keeps_andThen (keeps_bind keeps_get fun _ => keeps_ite (hU.invoke _) (keeps_done _)) <|
    hU.orFatal _ fun _ => keeps_ite hU.removeReader hU.close

theorem deliverStream (data : List UInt8) : Keeps C (deliverStream data) :=
  keeps_ite hU.readReadyOnEof <|
    keeps_andThen (hU.dataReceived data) (hU.orFatal _ fun _ => keeps_done _)

theorem deliverReplay (item : ReplayItem) : Keeps C (deliverReplay item) := by
  cases item with
  | stream data => exact hU.deliverStream data
  | error e => exact hU.fatalError _ _

theorem flushReplay : Keeps C flushReplay := by
  intro s hs
  refine wp_repeatWhile C (fun t => C.Inv t ∧ C.Rely s t) ⟨hs, C.refl s⟩ ?_
  rintro t ⟨ht, hst⟩
  have hturn : Keeps C flushTurn := by
    refine keeps_bind keeps_get fun u => ?_
    split
    · exact keeps_done _
    · refine keeps_ite ?_ (keeps_done _)
      exact keeps_bind (hU.modify fun u => { Aside.refl u with }) fun _ =>
        keeps_bind (hU.deliverReplay _) fun _ => keeps_done _
  refine wp_mono C ?_ (hturn.after ht hst)
  intro r u hu
  match r with
  | .ok true => exact hu
  | .ok false => exact hu
  | .error e => exact hu

theorem resumeReading : Keeps C resumeReading :=
  keeps_bind keeps_get fun _ => keeps_ite (keeps_done _) <|
    keeps_bind (hU.modify fun s => { Aside.refl s with }) fun _ =>
      keeps_bind hU.flushReplay fun _ => keeps_bind keeps_get fun _ =>
        keeps_ite (keeps_done _) (keeps_ite (keeps_done _) hU.registerReader)

theorem afterRecv {k : List UInt8 → Meth Unit} (hk : ∀ data, Keeps C (k data))
    (r : Recv (List UInt8)) : Keeps C (afterRecv k r) := by
  match r with
  | .ok [] => exact hU.readReadyOnEof
  | .ok (b :: bs) => exact hk (b :: bs)
  | .wouldBlock => exact keeps_done _
  | .fail e => exact hU.fatalError _ _

theorem readBurst (n : Nat) : Keeps C (readBurst n) := by
  induction n with
  | zero => exact keeps_done _
  | succ n ih =>
      refine keeps_bind keeps_get fun s => keeps_andThen (hU.sockRecv _) (hU.orFatal _ ?_)
      refine hU.afterRecv fun data => ?_
      refine keeps_andThen (hU.dataReceived data) (hU.orFatal _ fun _ => ?_)
      exact keeps_bind keeps_get fun _ => keeps_ite (keeps_done _) ih

theorem readReady : Keeps C readReady := by
  refine keeps_bind keeps_get fun s => ?_
  split
  · refine keeps_bind keeps_get fun _ => keeps_ite (keeps_done _) ?_
    refine keeps_andThen hU.getBuffer (hU.orFatal _ fun size => ?_)
    refine keeps_andThen (hU.sockRecv size) (hU.orFatal _ (hU.afterRecv fun data => ?_))
    exact keeps_andThen (hU.bufferUpdated _) (hU.orFatal _ fun _ => keeps_done _)
  · exact keeps_bind keeps_get fun _ => keeps_ite (keeps_done _) (hU.readBurst _)
  · exact keeps_done _

/-- The methods that neither write nor run what the loop has scheduled. -/
theorem body {m : Method} {s : World} (hs : C.Inv s)
    (hwrite : ∀ data, m = .write data →
      (Transport.write data).wp C (fun _ t => C.Inv t ∧ C.Rely s t) s)
    (hlines : ∀ lines, m = .writelines lines →
      (writelines lines).wp C (fun _ t => C.Inv t ∧ C.Rely s t) s)
    (heof : m = .writeEof → writeEof.wp C (fun _ t => C.Inv t ∧ C.Rely s t) s)
    (hready : m = .popReady → popReady.wp C (fun _ t => C.Inv t ∧ C.Rely s t) s)
    (hio : m = .popIo → popIo.wp C (fun _ t => C.Inv t ∧ C.Rely s t) s) :
    m.body.wp C (fun _ t => C.Inv t ∧ C.Rely s t) s := by
  match m with
  | .pauseReading => exact hU.pauseReading s hs
  | .resumeReading => exact hU.resumeReading s hs
  | .registerReader => exact hU.registerReader s hs
  | .setProtocol kind => exact hU.setProtocol kind s hs
  | .close => exact hU.close s hs
  | .abort => exact hU.abort s hs
  | .write data => exact hwrite data rfl
  | .writelines lines => exact hlines lines rfl
  | .writeEof => exact heof rfl
  | .setWriteBufferLimits high low => exact hU.setWriteBufferLimits high low s hs
  | .makeEmptyWaiter => exact hU.makeEmptyWaiter s hs
  | .resetEmptyWaiter => exact hU.resetEmptyWaiter s hs
  | .popReady => exact hready rfl
  | .popIo => exact hio rfl

end Unread

/-- What the environment does is of no concern to writing. -/
theorem aside_env {s s' : World} {h : Env} (he : s.env h = some s') : Aside s s' := by
  by_cases hrun : ∃ size, h = .drainRun size
  · obtain ⟨size, rfl⟩ := hrun
    obtain ⟨t, o, hr, -, rfl⟩ := env_drainRun he
    exact { Aside.refl s with reader := fun _ hnone => by rw [hr] at hnone; cases hnone }
  · have hd := drift_of_env he fun size hs => hrun ⟨size, hs⟩
    have hidle := hd.idle
    rw [hd.eq] at hidle ⊢
    exact { Aside.refl s with reader := fun _ => hidle }

end Tokioop.Transport
