import Tokioop.Datagram.Rules

/-!
The read side of a datagram transport, flow control and the batch, against an
arbitrary contract. `Reads` is what the contract has to put up with: that
settings change, that the protocol is called, and that payloads are handed
over by a transport that is reading and in a state (`Fit`) that callbacks
leave alone. Fatal errors too are met in such states only.
-/

namespace Tokioop.Datagram

open Fd Kit Kit.Prog
open Transport (Exc Query Reply Job IoItem writeBufferLimits)

/-- Nothing but settings and the record of what was sent has changed. -/
def Tuned (s s' : World) : Prop :=
  s' = { s with
    paused := s'.paused, protocolPaused := s'.protocolPaused, highWater := s'.highWater
    lowWater := s'.lowWater, sent := s'.sent }

/-- A contract that calls keep which hand nothing over. -/
structure Speaks (C : TransportContract) : Prop where
  base : ∀ {s}, C.Inv s → Base s
  tune : ∀ {s s'}, C.Inv s → Tuned s s' → s'.paused = s.paused → C.Inv s' ∧ C.Rely s s'
  say : ∀ {s} e, C.Inv s → e.isRead = false → e.isLost = false →
    C.Inv (s.logged e) ∧ C.Rely s (s.logged e)

structure Reads (C : TransportContract) (Fit : World → Prop) : Prop extends Speaks C where
  pause : ∀ {s}, C.Inv s → C.Inv { s with paused := true } ∧ C.Rely s { s with paused := true }
  watch : ∀ {s} (edge : Bool), C.Inv s → s.isReading = true →
    C.Inv { s with reader := some (DrainTask.fresh edge) } ∧
      C.Rely s { s with reader := some (DrainTask.fresh edge) }
  fit : ∀ {s t}, C.Rely s t → Fit s → Fit t
  hand : ∀ {s item rest}, C.Inv s → s.isReading = true → Fit s → s.replay = item :: rest →
    C.Inv (World.logged { s with replay := rest } item.call) ∧
      C.Rely s (World.logged { s with replay := rest } item.call)
  fatalError : ∀ {s} exc message, C.Inv s → Fit s →
    (fatalError exc message).wp C (fun _ t => C.Inv t ∧ C.Rely s t) s

section

variable {C : TransportContract} (hS : Speaks C) {s : World}
include hS

theorem keeps_tuned {f : World → World} (h : ∀ s, Tuned s (f s))
    (hp : ∀ s, (f s).paused = s.paused) : Keeps C (modify f : Meth Unit) :=
  keeps_modify fun _ hs => hS.tune hs (h _) (hp _)

/-! ### Calling out -/

theorem keeps_invoke {e : UserCall} (he : e.isRead = false) (hl : e.isLost = false) :
    Keeps C (invoke e) :=
  keeps_bind (keeps_modify fun _ hs => hS.say e hs he hl) fun _ => keeps_callback e

theorem keeps_callProtocol {e : UserCall} (he : e.isRead = false) (hl : e.isLost = false) :
    Keeps C (callProtocol e) :=
  keeps_bind keeps_get fun _ => keeps_ite (keeps_invoke hS he hl) (keeps_done _)

theorem keeps_callExceptionHandler (message : String) (exc : Exc) :
    Keeps C (callExceptionHandler message exc) :=
  keeps_bind keeps_get fun _ => keeps_ite
    (keeps_tryCatch (keeps_invoke hS rfl rfl) fun _ => keeps_done _) (keeps_done _)

theorem keeps_reportCallbackError (exc : Exc) : Keeps C (reportCallbackError exc) :=
  keeps_tryCatch (keeps_invoke hS rfl rfl) fun _ => keeps_done _

theorem wp_fatalError (exc : Exc) (message : String)
    (hfail : C.Inv { s with fatal := true } ∧ C.Rely s { s with fatal := true })
    (hclose : ∀ t, C.Inv t → C.Rely s t →
      (forceClose (some exc)).wp C (fun _ u => C.Inv u ∧ C.Rely t u) t) :
    (fatalError exc message).wp C (fun _ t => C.Inv t ∧ C.Rely s t) s := by
  refine keeps_then hfail fun _ t ht hst => keeps_then ?_ fun _ u hu htu => ?_
  · have hdebug : Keeps C getDebug :=
      keeps_bind keeps_get fun _ => keeps_ite (keeps_done _) (keeps_done _)
    exact keeps_ite hdebug (keeps_callExceptionHandler hS message exc) t ht
  · exact hclose u hu (C.trans hst htu)

/-! ### Flow control -/

theorem keeps_flowControl {e : UserCall} (he : e.isRead = false) (hl : e.isLost = false)
    (message : String) : Keeps C (flowControl e message) :=
  keeps_tryCatch (keeps_callProtocol hS he hl) fun _ =>
    keeps_ite (keeps_done _) (keeps_callExceptionHandler hS _ _)

theorem keeps_maybePauseProtocol : Keeps C maybePauseProtocol :=
  keeps_bind keeps_get fun _ => keeps_ite (keeps_done _) <|
    keeps_bind (keeps_tuned hS (fun _ => rfl) fun _ => rfl) fun _ => keeps_flowControl hS rfl rfl _

theorem keeps_maybeResumeProtocol : Keeps C maybeResumeProtocol :=
  keeps_bind keeps_get fun _ => keeps_ite
    (keeps_bind (keeps_tuned hS (fun _ => rfl) fun _ => rfl) fun _ =>
      keeps_flowControl hS rfl rfl _)
    (keeps_done _)

theorem keeps_setWriteBufferLimits (high low : Option Nat) :
    Keeps C (setWriteBufferLimits high low) :=
  keeps_ite (keeps_done _) <|
    keeps_bind (keeps_tuned hS (fun _ => rfl) fun _ => rfl) fun _ => keeps_maybePauseProtocol hS

/-- Something is known of the state when a call of the flow control comes back
(`Good`), and something when it raises what transports pass on (`Bad`). -/
structure FlowControlled (C : TransportContract) (e : UserCall) (message : String)
    (Good Bad : World → Prop) : Prop where
  ret : ∀ {t}, C.Ret e (.ok ()) t → Good t
  handler : ∀ {t exc r}, C.Ret (.exceptionHandler message exc) r t → Good t
  exit : ∀ {t x}, x.exits = true → C.Ret e (.error x) t → Bad t
  detached : ∀ {t : World}, t.attached = false → Bad t

theorem wp_flowControl {e : UserCall} {message : String} {Good Bad : World → Prop}
    (he : e.isRead = false) (hlost : e.isLost = false)
    (hf : FlowControlled C e message Good Bad) (hs : C.Inv s) :
    (flowControl e message).wp C (fun r t =>
      match r with
      | .ok _ => (C.Inv t ∧ C.Rely s t) ∧ Good t
      | .error _ => (C.Inv t ∧ C.Rely s t) ∧ Bad t) s := by
  have hreport : ∀ exc t, C.Inv t → C.Rely s t → (exc.exits = true → Bad t) →
      (if exc.exits then raise exc else callExceptionHandler message exc : Meth Unit).wp C
        (fun r t =>
          match r with
          | .ok _ => (C.Inv t ∧ C.Rely s t) ∧ Good t
          | .error _ => (C.Inv t ∧ C.Rely s t) ∧ Bad t) t := by
    intro exc t ht htr hbad
    split
    · rename_i hx
      exact ⟨⟨ht, htr⟩, hbad hx⟩
    unfold callExceptionHandler
    rw [wp_bind, wp_get]
    show wp C (if t.attached = true then _ else _) _ t
    split
    · rw [wp_tryCatch]
      obtain ⟨hl, hlr⟩ := hS.say (.exceptionHandler message exc) ht rfl rfl
      refine ⟨hl, fun u r hu hur hret => ?_⟩
      have hgood : (C.Inv u ∧ C.Rely s u) ∧ Good u :=
        ⟨⟨hu, C.trans htr (C.trans hlr hur)⟩, hf.handler hret⟩
      cases r with
      | ok a => exact hgood
      | error x => exact hgood
    · rename_i ha
      exact ⟨⟨ht, htr⟩, hf.detached (Bool.eq_false_iff.mpr ha)⟩
  obtain ⟨hl, hlr⟩ := hS.say e hs he hlost
  unfold flowControl
  rw [wp_tryCatch]
  refine wp_callProtocol (fun _ => hl) (fun t r ht htr hr => ?_) fun _ => ?_
  · cases r with
    | ok a => exact ⟨⟨ht, C.trans hlr htr⟩, hf.ret hr⟩
    | error x => exact hreport x t ht (C.trans hlr htr) fun hx => hf.exit hx hr
  · exact hreport _ s hs (C.refl s) fun hx => by cases hx

theorem wp_maybeResumeProtocol {Good Bad : World → Prop}
    (hf : FlowControlled C .resumeWriting "protocol.resume_writing() failed" Good Bad)
    (hs : C.Inv s) (hgood : Good s) :
    maybeResumeProtocol.wp C (fun r t =>
      match r with
      | .ok _ => (C.Inv t ∧ C.Rely s t) ∧ Good t
      | .error _ => (C.Inv t ∧ C.Rely s t) ∧ Bad t) s := by
  unfold maybeResumeProtocol
  rw [wp_bind, wp_get]
  show wp C (if s.protocolPaused = true ∧ s.getWriteBufferSize ≤ s.lowWater then _ else _) _ s
  split
  · have htuned : Tuned s { s with protocolPaused := false } := rfl
    obtain ⟨ht, htr⟩ := hS.tune hs htuned rfl
    rw [wp_bind, wp_modify]
    refine wp_mono C ?_ (wp_flowControl hS rfl rfl hf ht)
    intro r u hu
    cases r with
    | ok a => exact ⟨⟨hu.1.1, C.trans htr hu.1.2⟩, hu.2⟩
    | error e => exact ⟨⟨hu.1.1, C.trans htr hu.1.2⟩, hu.2⟩
  · exact ⟨⟨hs, C.refl s⟩, hgood⟩

/-- A fatal error is reported, where there is a loop to report it to, and the
transport closed. The state in between is nobody's but the exception
handler's. -/
theorem wp_fatalError_closing {R : World → Prop} {exc : Exc} {message : String}
    (hfail : C.Inv { s with fatal := true })
    (hclose : ∀ t, C.Inv t → C.Rely { s with fatal := true } t →
      (forceClose (some exc)).wp C (fun _ => R) t)
    (hdetached : s.attached = false → R { s with fatal := true }) :
    (fatalError exc message).wp C (fun _ => R) s := by
  unfold fatalError reportFatal
  rw [wp_bind, wp_modify]
  show wp C ((if exc.isOSError = true then _ else _) >>= _) _ { s with fatal := true }
  rw [wp_bind]
  split
  · unfold getDebug
    rw [wp_bind, wp_get]
    show wp C (if s.attached = true then _ else _) _ _
    split
    · exact hclose _ hfail (C.refl _)
    · rename_i ha
      exact hdetached (Bool.eq_false_iff.mpr ha)
  unfold callExceptionHandler
  rw [wp_bind, wp_get]
  show wp C (if s.attached = true then _ else _) _ _
  split
  · obtain ⟨hl, hlr⟩ := hS.say (.exceptionHandler message exc) hfail rfl rfl
    rw [wp_tryCatch]
    refine ⟨hl, fun u r hu hur _ => ?_⟩
    have hgo := hclose u hu (C.trans hlr hur)
    cases r with
    | ok _ => exact hgo
    | error _ => exact hgo
  · rename_i ha
    exact hdetached (Bool.eq_false_iff.mpr ha)

end

/-- The reader is registered, unless the transport is not reading or the
registration fails. -/
theorem wp_registerReader {C : TransportContract} {s : World} {Q : Except Exc Unit → World → Prop}
    (hstay : ∀ r, Q r s)
    (hwatch : s.isReading = true → ∀ edge,
      Q (.ok ()) { s with reader := some (DrainTask.fresh edge) }) :
    registerReader.wp C Q s := by
  unfold registerReader
  rw [wp_bind, wp_get]
  show wp C (if s.isReading = true then _ else _) _ s
  split
  · rename_i hreading
    unfold addUdpReader
    rw [wp_bind, wp_get]
    show wp C (if s.attached = true then _ else _) _ s
    split
    · rw [wp_bind, wp_query]
      intro a _
      cases a with
      | fail e => exact hstay _
      | done n => exact hwatch hreading _
      | wouldBlock => exact hwatch hreading _
    · exact hstay _
  · exact hstay _

section

variable {C : TransportContract} {Fit : World → Prop} (hR : Reads C Fit) {s : World}
include hR

/-! ### Reading -/

theorem keeps_registerReader : Keeps C registerReader := fun _ hs =>
  wp_registerReader (fun _ => ⟨hs, C.refl _⟩) fun hreading edge => hR.watch edge hs hreading

theorem keeps_pauseReading : Keeps C pauseReading :=
  keeps_bind keeps_get fun _ => keeps_ite (keeps_modify fun _ hs => hR.pause hs) (keeps_done _)

theorem wp_deliverReplay {u : World} {item : ReplayItem} (hp : u.protocol = true) (hfit : Fit s)
    (h : C.Inv (u.logged item.call) ∧ C.Rely s (u.logged item.call)) :
    (deliverReplay item).wp C (fun _ t => C.Inv t ∧ C.Rely s t) u := by
  obtain ⟨hu, hur⟩ := h
  have hno : ∀ {P : Prop}, u.protocol = false → P := fun hno =>
    absurd (hno.symm.trans hp) Bool.false_ne_true
  cases item with
  | error e => exact wp_callProtocol (fun _ => hu) (fun t _ ht htr _ => ⟨ht, C.trans hur htr⟩) hno
  | datagram data addr =>
      unfold deliverReplay deliverDatagram
      rw [wp_andThen]
      refine wp_callProtocol (fun _ => hu) (fun t r ht htr _ => ?_) hno
      cases r with
      | ok a => exact ⟨ht, C.trans hur htr⟩
      | error x =>
          have hst := C.trans hur htr
          show wp C (if x.exits = true then _ else _) _ t
          split
          · exact ⟨ht, hst⟩
          · exact wp_since hst (hR.fatalError x _ ht (hR.fit hst hfit))

/-- The protocol is there while the transport is not closing. -/
theorem protocol_of_reading (hs : C.Inv s) (hreading : s.isReading = true) : s.protocol = true :=
  (hR.base hs).protocol ((hR.base hs).attached (s.isReading_iff.mp hreading).1)

theorem keeps_flushReplay (hs : C.Inv s) (hfit : Fit s) :
    flushReplay.wp C (fun _ t => C.Inv t ∧ C.Rely s t) s := by
  refine wp_repeatWhile C (fun t => C.Inv t ∧ C.Rely s t) ⟨hs, C.refl s⟩ ?_
  rintro t ⟨ht, hst⟩
  unfold flushTurn
  rw [wp_bind, wp_get]
  dsimp only
  cases hreplay : t.replay with
  | nil => exact ⟨ht, hst⟩
  | cons item rest =>
      show wp C (if (!t.paused && !t.closing && decide (t.connLost = 0)) = true then _ else _) _ t
      split
      · rename_i hgo
        simp only [Bool.and_eq_true, Bool.not_eq_true', decide_eq_true_eq] at hgo
        have hreading := t.isReading_iff.mpr ⟨hgo.1.2, hgo.1.1⟩
        have hhand := hR.hand ht hreading (hR.fit hst hfit) hreplay
        have hp := protocol_of_reading hR ht hreading
        rw [wp_bind, wp_modify, wp_bind]
        have hdeliver := wp_deliverReplay hR (u := { t with replay := rest }) hp
          (hR.fit hst hfit) hhand
        refine wp_mono C ?_ hdeliver
        intro r u hu
        cases r with
        | ok _ => exact ⟨hu.1, C.trans hst hu.2⟩
        | error e => exact ⟨hu.1, C.trans hst hu.2⟩
      · exact ⟨ht, hst⟩

theorem keeps_resumeReading (hs : C.Inv s) (hfit : s.closing = false → Fit s)
    (hresume : C.Inv { s with paused := false } ∧ C.Rely s { s with paused := false }) :
    resumeReading.wp C (fun _ t => C.Inv t ∧ C.Rely s t) s := by
  unfold resumeReading
  rw [wp_bind, wp_get]
  show wp C (if (s.closing || !s.paused) = true then _ else _) _ s
  split
  · exact ⟨hs, C.refl s⟩
  · rename_i hgo
    simp only [Bool.or_eq_true, Bool.not_eq_true', not_or, Bool.not_eq_true,
      Bool.not_eq_false] at hgo
    obtain ⟨ht, htr⟩ := hresume
    rw [wp_bind, wp_modify, wp_bind]
    refine wp_mono C ?_ (keeps_flushReplay hR ht (hR.fit htr (hfit hgo.1)))
    rintro r u ⟨hu, hur⟩
    have hsu := C.trans htr hur
    cases r with
    | error e => exact ⟨hu, hsu⟩
    | ok _ =>
        exact (keeps_bind keeps_get fun _ => keeps_ite (keeps_done _)
          (keeps_ite (keeps_done _) (keeps_registerReader hR))).after hu hsu

/-! ### What the loop calls -/

theorem wp_popReady (hs : C.Inv s)
    (hmade : ∀ rest, s.ready = .connectionMade :: rest →
      C.Inv (World.logged { s with ready := rest } .connectionMade) ∧
        C.Rely s (World.logged { s with ready := rest } .connectionMade))
    (hregister : ∀ rest, s.ready = .registerReader :: rest →
      C.Inv { s with ready := rest } ∧ C.Rely s { s with ready := rest })
    (hlost : ∀ exc rest, s.ready = .callConnectionLost exc :: rest →
      (callConnectionLost exc).wp C (fun _ t => C.Inv t ∧ C.Rely s t) { s with ready := rest }) :
    popReady.wp C (fun _ t => C.Inv t ∧ C.Rely s t) s := by
  unfold popReady
  rw [wp_bind, wp_get]
  dsimp only
  cases hready : s.ready with
  | nil => exact ⟨hs, C.refl s⟩
  | cons j rest =>
      rw [wp_bind, wp_modify, wp_tryCatch]
      have hjob : (runJob j).wp C (fun _ u => C.Inv u ∧ C.Rely s u) { s with ready := rest } := by
        cases j with
        | connectionMade =>
            obtain ⟨ht, htr⟩ := hmade rest hready
            exact ⟨ht, fun u r hu hur _ => ⟨hu, C.trans htr hur⟩⟩
        | registerReader =>
            obtain ⟨ht, htr⟩ := hregister rest hready
            exact (keeps_registerReader hR).after ht htr
        | callConnectionLost exc => exact hlost exc rest hready
      refine wp_mono C ?_ hjob
      rintro r u ⟨hu, hur⟩
      cases r with
      | ok _ => exact ⟨hu, hur⟩
      | error e => exact (keeps_reportCallbackError hR.toSpeaks e).after hu hur

/-- The batch takes a completion: dropped, stashed while paused, handed over,
or a call of the writer callback. -/
theorem wp_popIo (hs : C.Inv s) (hfit : Fit s)
    (htake : ∀ i rest, s.io = i :: rest → s.closing = true ∨ payloadOf i = none →
      C.Inv { s with io := rest } ∧ C.Rely s { s with io := rest })
    (hstash : ∀ i rest item, s.io = i :: rest → payloadOf i = some item → s.paused = true →
      C.Inv { s with io := rest, replay := s.replay ++ [item] } ∧
        C.Rely s { s with io := rest, replay := s.replay ++ [item] })
    (hhand : ∀ i rest (item : ReplayItem), s.io = i :: rest → payloadOf i = some item →
      s.isReading = true →
      C.Inv (World.logged { s with io := rest } item.call) ∧
        C.Rely s (World.logged { s with io := rest } item.call))
    (hwrite : ∀ slot rest, s.io = .callback slot :: rest → s.writer = some slot →
      sendtoReady.wp C (fun _ t => C.Inv t ∧ C.Rely s t) { s with io := rest }) :
    popIo.wp C (fun _ t => C.Inv t ∧ C.Rely s t) s := by
  unfold popIo
  rw [wp_bind, wp_get]
  dsimp only
  cases hio : s.io with
  | nil => exact ⟨hs, C.refl s⟩
  | cons i rest =>
      have hdrain : ∀ item, payloadOf i = some item →
          (drain item).wp C (fun _ u => C.Inv u ∧ C.Rely s u) { s with io := rest } := by
        intro item hitem
        unfold drain
        rw [wp_bind, wp_get]
        show wp C (if s.connLost ≠ 0 ∨ s.closing = true then _ else _) _ _
        split
        · rename_i hdrop
          exact htake i rest hio (.inl (hdrop.elim (hR.base hs).lost id))
        rename_i hgo
        simp only [not_or, Bool.not_eq_true] at hgo
        split
        · rename_i hp
          exact hstash i rest item hio hitem hp
        · rename_i hp
          have hreading := s.isReading_iff.mpr ⟨hgo.2, Bool.eq_false_iff.mpr hp⟩
          have hproto := protocol_of_reading hR hs hreading
          exact wp_deliverReplay hR hproto hfit (hhand i rest item hio hitem hreading)
      rw [wp_bind, wp_modify, wp_tryCatch]
      have hitem : (runItem i).wp C (fun _ u => C.Inv u ∧ C.Rely s u) { s with io := rest } := by
        match i with
        | .data (.udpDatagram payload addr) => exact hdrain _ rfl
        | .data (.readError e) => exact hdrain _ rfl
        | .data (.tcpChunk payload) => exact htake _ rest hio (.inr rfl)
        | .data .tcpEof => exact htake _ rest hio (.inr rfl)
        | .callback slot =>
            unfold runItem
            rw [wp_bind, wp_get]
            show wp C (if s.writer = some slot then _ else _) _ _
            split
            · rename_i hw
              exact hwrite slot rest hio hw
            · exact htake _ rest hio (.inr rfl)
      refine wp_mono C ?_ hitem
      rintro r u ⟨hu, hur⟩
      cases r with
      | ok _ => exact ⟨hu, hur⟩
      | error e => exact (keeps_reportCallbackError hR.toSpeaks e).after hu hur

end

theorem env_eq {s s' : World} {h : Env} (he : s.env h = some s') :
    s' = { s with reader := s'.reader, kernel := s'.kernel, io := s'.io } ∧
      (s.reader = none → s'.reader = none) := by
  cases h with
  | arriveDatagram d =>
      cases he
      exact ⟨rfl, fun hr => by simp [World.arrive, hr]⟩
  | arriveError e =>
      cases he
      exact ⟨rfl, fun hr => by simp [World.arrive, hr]⟩
  | harvest =>
      simp only [World.env] at he
      split at he
      · rename_i t ht
        split at he
        · cases he
          exact ⟨rfl, fun hr => by simp [ht] at hr⟩
        · cases he
      · cases he
  | drainRun =>
      simp only [World.env] at he
      split at he
      · rename_i t ht
        obtain ⟨o, -, rfl⟩ := Option.map_eq_some_iff.mp he
        exact ⟨rfl, fun hr => by simp [ht] at hr⟩
      · cases he
  | fireWriter =>
      simp only [World.env] at he
      split at he
      · cases he
        exact ⟨rfl, id⟩
      · cases he

end Tokioop.Datagram
