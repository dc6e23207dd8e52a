import Tokioop.Transport.Teardown

/-!
The read side against an arbitrary contract.

The rules of this file say what a contract has to put up with (`Reads`) for
pausing, resuming, registering and delivering to keep it: mostly that the
state in which a call of the protocol has been recorded satisfies the
invariant. What happens afterwards, the exception handler, tearing down,
closing at the end of the stream, is covered by the rules of `Teardown`. A
contract may ask that a transport resumes reading and delivers in certain
states (`Fit`) only.
-/

namespace Tokioop.Transport

open Fd Kit Kit.Prog

namespace World

def halted (s : World) : World :=
  { s with paused := true, reader := if s.drainTcp then s.reader else none }

def watched (s : World) (edge : Bool) : World :=
  if s.drainTcp then { s with reader := some (.drain (DrainTask.fresh edge)) }
  else { s with reader := some (.callback s.nextSlot), nextSlot := s.nextSlot + 1 }

/-- Nothing is left to replay, or replaying has been stopped. -/
def Flushed (s : World) : Prop := s.replay = [] ∨ s.paused = true ∨ s.closing = true

theorem watched_drain {s : World} (h : s.drainTcp = true) (edge : Bool) :
    s.watched edge = { s with reader := some (.drain (DrainTask.fresh edge)) } := if_pos h

theorem watched_callback {s : World} (h : ¬s.drainTcp = true) (edge : Bool) :
    s.watched edge =
      { s with reader := some (.callback s.nextSlot), nextSlot := s.nextSlot + 1 } := if_neg h

theorem isReading_iff (s : World) :
    s.isReading = true ↔ s.closing = false ∧ s.paused = false := by
  simp [isReading]

/-! What several contracts rely on: a closing transport stays so. -/

theorem stays_closing_refl (s : World) : s.closing = true → s.closing = true := id

theorem stays_closing_trans {s t u : World} (h : s.closing = true → t.closing = true)
    (h' : t.closing = true → u.closing = true) : s.closing = true → u.closing = true := h' ∘ h

end World

/-- `data_received` and `eof_received` raise ordinary exceptions only. -/
def Ordinary (C : Contract World UserCall Nat Exc Query Reply) : Prop :=
  ∀ e x s, e.quiet = false → C.Ret e (.error x) s → x.exits = false

/-- The method keeps the contract and, where the protocol raises ordinary
exceptions only, raises on a closing transport only. -/
def Ends (C : Contract World UserCall Nat Exc Query Reply) (s : World) {α : Type}
    (r : Except Exc α) (s' : World) : Prop :=
  C.Inv s' ∧ C.Rely s s' ∧ (Ordinary C → ∀ e, r = .error e → s'.closing = true)

/-- The payload, taken off its queue in going from `s` to `u`, can be handed
over in `u`. -/
def Accepts (C : Contract World UserCall Nat Exc Query Reply) (s u : World) : ReplayItem → Prop
  | .stream [] => u.protocol.isSome = true ∧
      C.Inv (u.logged .eofReceived) ∧ C.Rely s (u.logged .eofReceived)
  | .stream data => u.protocol = some .plain ∧
      C.Inv (u.logged (.dataReceived data)) ∧ C.Rely s (u.logged (.dataReceived data))
  | .error _ => C.Inv u ∧ C.Rely s u

structure Reads (C : Contract World UserCall Nat Exc Query Reply) (Calm Fit : World → Prop) :
    Prop extends Frames C Calm where
  fit : ∀ {s t}, C.Rely s t → Fit s → Fit t
  fit_unpause : ∀ {s}, Fit s → Fit { s with paused := false }
  pause : ∀ {s}, C.Inv s → s.isReading = true → C.Inv s.halted ∧ C.Rely s s.halted
  unpause : ∀ {s}, C.Inv s → s.closing = false → s.paused = true →
    C.Inv { s with paused := false }
  flushed : ∀ {s t}, s.paused = true → C.Rely { s with paused := false } t →
    (Ordinary C → t.Flushed) → C.Rely s t
  watch : ∀ {s a} (edge : Bool), C.Inv s → s.isReading = true →
    C.Answer (.register true) a s → a.failed = false →
    C.Inv (s.watched edge) ∧ C.Rely s (s.watched edge)
  deliver : ∀ {s item rest}, C.Inv s → s.replay = item :: rest → s.isReading = true → Fit s →
    Accepts C s { s with replay := rest } item

section

variable {C : Contract World UserCall Nat Exc Query Reply}

theorem Lands.ends {s t : World} {α : Type} {r : Except Exc α} (h : Lands C s r t) :
    Ends C s r t :=
  ⟨h.1, h.2.1, fun _ => h.2.2⟩

theorem Ends.trans {s t u : World} {α : Type} {r : Except Exc α} (hr : C.Rely s t)
    (h : Ends C t r u) : Ends C s r u :=
  ⟨h.1, C.trans hr h.2.1, h.2.2⟩

theorem ends_ok {s t : World} {α : Type} {a : α} (ht : C.Inv t) (hr : C.Rely s t) :
    Ends C s (.ok a) t :=
  ⟨ht, hr, fun _ _ he => by cases he⟩

/-! ### Registering -/

theorem wp_addTcpReader {s : World} {Q : Except Exc Unit → World → Prop}
    (hdetached : s.attached = false → Q (.error .attributeError) s)
    (hfail : ∀ e, C.Answer (.register true) (.fail e) s → Q (.error (.osError e)) s)
    (hwatch : ∀ a edge, C.Answer (.register true) a s → a.failed = false →
      Q (.ok ()) { s with reader := some (.drain (DrainTask.fresh edge)) }) :
    addTcpReader.wp C Q s := by
  unfold addTcpReader
  rw [wp_bind, wp_get]
  show wp C (if s.attached = true then _ else _) _ s
  split
  · rw [wp_bind, wp_query]
    intro a ha
    cases a with
    | fail e => exact hfail e ha
    | done n => exact hwatch (.done n) _ ha rfl
    | wouldBlock => exact hwatch .wouldBlock _ ha rfl
  · rename_i hatt
    exact hdetached (Bool.eq_false_iff.mpr hatt)

theorem wp_addReader {s : World} {Q : Except Exc Unit → World → Prop}
    (hdetached : s.attached = false → Q (.error .attributeError) s)
    (hfail : ∀ e, C.Answer (.register true) (.fail e) s → Q (.error (.osError e)) s)
    (hwatch : ∀ a, C.Answer (.register true) a s → a.failed = false →
      Q (.ok ()) { s with reader := some (.callback s.nextSlot), nextSlot := s.nextSlot + 1 }) :
    addReader.wp C Q s := by
  unfold addReader addCallback
  rw [wp_bind, wp_get]
  show wp C (if s.attached = true then _ else _) _ s
  split
  · rw [wp_bind, wp_query]
    intro a ha
    cases a with
    | fail e => exact hfail e ha
    | done n => exact hwatch (.done n) ha rfl
    | wouldBlock => exact hwatch .wouldBlock ha rfl
  · rename_i hatt
    exact hdetached (Bool.eq_false_iff.mpr hatt)

theorem wp_registerReader {s : World} {Q : Except Exc Unit → World → Prop}
    (hidle : s.isReading = false → Q (.ok ()) s)
    (hdetached : s.isReading = true → s.attached = false → Q (.error .attributeError) s)
    (hfail : s.isReading = true → ∀ e, C.Answer (.register true) (.fail e) s →
      Q (.error (.osError e)) s)
    (hwatch : s.isReading = true → ∀ a edge, C.Answer (.register true) a s →
      a.failed = false → Q (.ok ()) (s.watched edge)) :
    registerReader.wp C Q s := by
  unfold registerReader
  rw [wp_bind, wp_get]
  show wp C (if s.isReading = true then _ else _) _ s
  split
  · rename_i hreading
    split
    · rename_i hd
      simp only [World.watched_drain hd] at hwatch
      exact wp_addTcpReader (hdetached hreading) (hfail hreading) (hwatch hreading)
    · rename_i hd
      simp only [World.watched_callback hd] at hwatch
      exact wp_addReader (hdetached hreading) (hfail hreading) fun a => hwatch hreading a false
  · rename_i hreading
    exact hidle (Bool.eq_false_iff.mpr hreading)

variable {Calm Fit : World → Prop} (hR : Reads C Calm Fit)
include hR

theorem keeps_registerReader : Keeps C registerReader := by
  intro s hs
  refine wp_registerReader (fun _ => ⟨hs, C.refl s⟩) (fun _ _ => ⟨hs, C.refl s⟩)
    (fun _ _ _ => ⟨hs, C.refl s⟩) ?_
  intro hreading a edge ha hok
  exact hR.watch edge hs hreading ha hok

/-! ### Handing over payloads -/

/-- An exception of the protocol tears the transport down, unless it exits. -/
theorem ends_orFatal {e : UserCall} {α : Type} {x : Exc} {message : String} {k : α → Meth Unit}
    {t : World} (ht : C.Inv t) (he : e.quiet = false) (hret : C.Ret e (.error x) t) :
    (orFatal message k (.error x)).wp C (Ends C t) t := by
  show wp C (if x.exits = true then _ else _) _ t
  split
  · rename_i hx
    refine ⟨ht, C.refl t, fun hO => ?_⟩
    rw [hO e x t he hret] at hx
    cases hx
  · exact wp_mono C (fun _ _ hu => hu.lands.ends) (closes_fatalError hR.toFrames x message ht)

theorem ends_readReadyOnEof {s u : World} (hp : u.protocol.isSome = true)
    (hu : C.Inv (u.logged .eofReceived)) (hr : C.Rely s (u.logged .eofReceived)) :
    readReadyOnEof.wp C (Ends C s) u := by
  unfold readReadyOnEof eofReceived
  rw [wp_andThen, wp_bind, wp_get]
  simp only [hp, if_true]
  refine ⟨hu, fun t r ht htr hret => ?_⟩
  refine wp_mono C (fun _ _ hv => Ends.trans (C.trans hr htr) hv) ?_
  cases r with
  | error x => exact ends_orFatal hR ht rfl hret
  | ok keepOpen =>
      show wp C (if keepOpen ≠ 0 then _ else _) _ t
      split
      · exact wp_mono C (fun _ _ hv => hv.ends) (lands_removeReader hR.toFrames ht)
      · exact wp_mono C (fun _ _ hv => hv.lands.ends) (closes_close hR.toFrames ht)

theorem ends_deliverData {s u : World} {data : List UInt8} (hne : data ≠ [])
    (hp : u.protocol = some .plain) (hu : C.Inv (u.logged (.dataReceived data)))
    (hr : C.Rely s (u.logged (.dataReceived data))) :
    (deliverStream data).wp C (Ends C s) u := by
  unfold deliverStream dataReceived
  rw [if_neg hne, wp_andThen, wp_bind, wp_get]
  simp only [hp]
  rw [wp_discard]
  refine ⟨hu, fun t r ht htr hret => ?_⟩
  cases r with
  | error x =>
      refine wp_mono C (fun _ _ hv => Ends.trans (C.trans hr htr) hv) ?_
      exact ends_orFatal hR ht rfl hret
  | ok a => exact ends_ok ht (C.trans hr htr)

theorem ends_deliverReplay {s u : World} {item : ReplayItem} (h : Accepts C s u item) :
    (deliverReplay item).wp C (Ends C s) u := by
  match item, h with
  | .stream [], ⟨hp, hu, hr⟩ => exact ends_readReadyOnEof hR hp hu hr
  | .stream (b :: bs), ⟨hp, hu, hr⟩ => exact ends_deliverData hR (by simp) hp hu hr
  | .error e, ⟨hu, hr⟩ =>
      refine wp_mono C (fun _ _ hv => Ends.trans hr (Lands.ends (Closes.lands hv))) ?_
      exact closes_fatalError hR.toFrames _ _ hu

/-- Flushing goes on until nothing is left or it is stopped. -/
theorem wp_flushReplay {s : World} (hs : C.Inv s) (hfit : Fit s) :
    flushReplay.wp C (fun r t => Ends C s r t ∧ (Ordinary C → t.Flushed)) s := by
  refine wp_repeatWhile C (fun t => C.Inv t ∧ C.Rely s t) ⟨hs, C.refl s⟩ ?_
  rintro t ⟨ht, hst⟩
  unfold flushTurn
  rw [wp_bind, wp_get]
  dsimp only
  cases hreplay : t.replay with
  | nil => exact ⟨ends_ok ht hst, fun _ => .inl hreplay⟩
  | cons item rest =>
      show wp C (if (!t.paused && !t.closing && decide (t.connLost = 0)) = true then _ else _) _ t
      split
      · rename_i hgo
        simp only [Bool.and_eq_true, Bool.not_eq_true', decide_eq_true_eq] at hgo
        have hreading := t.isReading_iff.mpr ⟨hgo.1.2, hgo.1.1⟩
        rw [wp_bind, wp_modify, wp_bind]
        refine wp_mono C ?_
          (ends_deliverReplay hR (hR.deliver ht hreplay hreading (hR.fit hst hfit)))
        intro r u hu
        cases r with
        | ok _ => exact ⟨hu.1, C.trans hst hu.2.1⟩
        | error e =>
            have hc : Ordinary C → u.closing = true := fun hO => hu.2.2 hO e rfl
            exact ⟨⟨hu.1, C.trans hst hu.2.1, fun hO _ _ => hc hO⟩, fun hO => .inr (.inr (hc hO))⟩
      · rename_i hstop
        refine ⟨ends_ok ht hst, fun _ => .inr ?_⟩
        by_cases hp : t.paused = true
        · exact .inl hp
        by_cases hc : t.closing = true
        · exact .inr hc
        have hl : t.connLost ≠ 0 := fun h0 => by simp [hp, hc, h0] at hstop
        exact .inr ((hR.base ht).lost hl)

/-! ### Pausing and resuming -/

theorem keeps_pauseReading : Keeps C pauseReading := by
  intro s hs
  unfold pauseReading
  rw [wp_bind, wp_get]
  show wp C (if s.isReading = true then _ else _) _ s
  split
  · rename_i hreading
    have hpause := hR.pause hs hreading
    have hatt := ((hR.base hs).attached (s.isReading_iff.mp hreading).1).1
    unfold World.halted at hpause
    rw [wp_bind, wp_modify, wp_bind, wp_get]
    show wp C (if s.drainTcp = true then _ else _) _ _
    split
    · rename_i hd
      rwa [if_pos hd] at hpause
    · rename_i hd
      rw [if_neg hd] at hpause
      unfold removeReader
      rw [wp_onLoop]
      refine ⟨fun _ => hpause, fun hno => ?_⟩
      simp [hatt] at hno
  · exact ⟨hs, C.refl s⟩

theorem keeps_resumeReading {s : World} (hs : C.Inv s) (hfit : s.closing = false → Fit s) :
    resumeReading.wp C (fun _ t => C.Inv t ∧ C.Rely s t) s := by
  unfold resumeReading
  rw [wp_bind, wp_get]
  show wp C (if (s.closing || !s.paused) = true then _ else _) _ s
  split
  · exact ⟨hs, C.refl s⟩
  · rename_i hgo
    simp only [Bool.or_eq_true, Bool.not_eq_true', not_or, Bool.not_eq_true,
      Bool.not_eq_false] at hgo
    rw [wp_bind, wp_modify, wp_bind]
    have hflush := wp_flushReplay hR (hR.unpause hs hgo.1 hgo.2) (hR.fit_unpause (hfit hgo.1))
    refine wp_mono C ?_ hflush
    rintro r t ⟨⟨ht, htr, -⟩, hflushed⟩
    have hst := hR.flushed hgo.2 htr hflushed
    cases r with
    | error e => exact ⟨ht, hst⟩
    | ok _ =>
        show wp C (get >>= _) _ t
        rw [wp_bind, wp_get]
        show wp C (if (t.paused || t.closing) = true then _ else _) _ t
        split
        · exact ⟨ht, hst⟩
        split
        · exact ⟨ht, hst⟩
        · exact (keeps_registerReader hR).after ht hst

/-! ### What the loop calls -/

theorem keeps_popReady {s : World} (hs : C.Inv s) (hcalm : Calm s) :
    popReady.wp C (fun _ t => C.Inv t ∧ C.Rely s t) s := by
  have hb := hR.base hs
  unfold popReady
  rw [wp_bind, wp_get]
  dsimp only
  cases hready : s.ready with
  | nil => exact ⟨hs, C.refl s⟩
  | cons j rest =>
      have hb' : Base { s with ready := rest } :=
        ⟨hb.lost, hb.attached, fun exc h => hb.jobs exc (by simp [hready, h])⟩
      have hlate : .connectionMade ∈ rest → .connectionMade ∈ s.ready := by
        intro h
        simp [hready, h]
      have hpop : j ≠ .connectionMade → Silent s { s with ready := rest } := fun hj =>
        { Silent.refl hb with
          base := hb', made := fun h => .inl (by simpa [hready, hj.symm] using h), late := hlate }
      rw [wp_bind, wp_modify, wp_tryCatch]
      have hjob : (runJob j).wp C (fun _ u => C.Inv u ∧ C.Rely s u) { s with ready := rest } := by
        cases j with
        | connectionMade =>
            -- Taking the job and recording the call is one silent step.
            have hq : Silent s (World.logged { s with ready := rest } .connectionMade) :=
              { silent_logged hb rfl rfl with
                base := ⟨hb'.lost, hb'.attached, hb'.jobs⟩
                made := fun _ => .inr (by simp [World.logged]), late := hlate }
            obtain ⟨ht, htr⟩ := hR.silent hs hq
            show wp C (discard _) _ _
            rw [wp_discard]
            refine ⟨ht, fun u r hu hur _ => ?_⟩
            cases r with
            | ok a => exact ⟨hu, C.trans htr hur⟩
            | error e => exact ⟨hu, C.trans htr hur⟩
        | registerReader =>
            obtain ⟨ht, htr⟩ := hR.silent hs (hpop (by simp))
            exact (keeps_registerReader hR).after ht htr
        | callConnectionLost exc =>
            obtain ⟨ht, htr⟩ := hR.silent hs (hpop (by simp))
            have hc : s.closing = true := hb.jobs exc (by simp [hready])
            have hlost := closes_callConnectionLost hR.toFrames exc ht hc (hR.calm htr hcalm)
            exact wp_mono C (fun _ u hu => ⟨hu.1, C.trans htr hu.2.1⟩) hlost
      refine wp_mono C ?_ hjob
      rintro r u ⟨hu, hur⟩
      cases r with
      | ok _ => exact ⟨hu, hur⟩
      | error e => exact (keeps_reportCallbackError hR.toFrames e).after hu hur

omit hR in
/-- `_drain_stream` and `_drain_error`. -/
theorem wp_runItem {i : IoItem} {item : ReplayItem} (hi : i.payload = some item)
    {Q : Except Exc Unit → World → Prop} {s : World}
    (hdrop : s.connLost ≠ 0 ∨ s.closing = true → Q (.ok ()) s)
    (hstash : s.closing = false → s.paused = true →
      Q (.ok ()) { s with replay := s.replay ++ [item] })
    (hdeliver : s.isReading = true → (deliverReplay item).wp C Q s) : (runItem i).wp C Q s := by
  have hitem : runItem i = (do
      let s ← get
      if s.connLost ≠ 0 ∨ s.closing then pure ()
      else if s.paused then modify fun s => { s with replay := s.replay ++ [item] }
      else deliverReplay item) := by
    match i, hi with
    | .data (.tcpChunk payload), rfl => rfl
    | .data .tcpEof, rfl => rfl
    | .data (.readError e), rfl => rfl
  rw [hitem, wp_bind, wp_get]
  show wp C (if s.connLost ≠ 0 ∨ s.closing = true then _ else _) _ s
  split
  · rename_i hno
    exact hdrop hno
  · rename_i hgo
    simp only [not_or, Bool.not_eq_true] at hgo
    split
    · rename_i hp
      exact hstash hgo.2 hp
    · rename_i hp
      exact hdeliver (s.isReading_iff.mpr ⟨hgo.2, Bool.eq_false_iff.mpr hp⟩)

/-- The batch takes a completion: dropped, stashed while paused, delivered,
or a call of the reader or writer callback. -/
theorem wp_popIo {s : World} (hs : C.Inv s) (hcalm : Calm s)
    (hdrop : ∀ i rest, s.io = i :: rest → s.closing = true ∨ i.payload = none →
      C.Inv { s with io := rest } ∧ C.Rely s { s with io := rest })
    (hstash : ∀ i item rest, s.io = i :: rest → i.payload = some item → s.closing = false →
      s.paused = true → C.Inv { s with io := rest, replay := s.replay ++ [item] } ∧
        C.Rely s { s with io := rest, replay := s.replay ++ [item] })
    (hdeliver : ∀ i item rest, s.io = i :: rest → i.payload = some item → s.isReading = true →
      Accepts C s { s with io := rest } item)
    (hread : ∀ t slot, C.Inv t → t.reader = some (.callback slot) →
      readReady.wp C (fun _ u => C.Inv u ∧ C.Rely t u) t) :
    popIo.wp C (fun _ t => C.Inv t ∧ C.Rely s t) s := by
  unfold popIo
  rw [wp_bind, wp_get]
  dsimp only
  cases hio : s.io with
  | nil => exact ⟨hs, C.refl s⟩
  | cons i rest =>
      rw [wp_bind, wp_modify, wp_tryCatch]
      have hrun : (runItem i).wp C (fun _ u => C.Inv u ∧ C.Rely s u) { s with io := rest } := by
        cases hi : i.payload with
        | some item =>
            refine wp_runItem hi ?_ (hstash i item rest hio hi) ?_
            · rintro (hl | hc)
              · exact hdrop i rest hio (.inl ((hR.base hs).lost hl))
              · exact hdrop i rest hio (.inl hc)
            · intro hreading
              have hends := ends_deliverReplay hR (hdeliver i item rest hio hi hreading)
              exact wp_mono C (fun _ _ hu => ⟨hu.1, hu.2.1⟩) hends
        | none =>
            obtain ⟨ht, htr⟩ := hdrop i rest hio (.inr hi)
            match i, hi with
            | .data (.udpDatagram payload addr), _ => exact ⟨ht, htr⟩
            | .callback slot, _ =>
                unfold runItem
                rw [wp_bind, wp_get]
                show wp C (if s.reader = some (.callback slot) then _ else _) _ _
                split
                · rename_i hr
                  exact wp_since htr (hread _ slot ht hr)
                split
                · have hsend := keeps_writeSendmsg hR.toFrames ht (hR.calm htr hcalm)
                  exact wp_since htr hsend
                · exact ⟨ht, htr⟩
      refine wp_mono C ?_ hrun
      rintro r u ⟨hu, hur⟩
      cases r with
      | ok _ => exact ⟨hu, hur⟩
      | error e => exact (keeps_reportCallbackError hR.toFrames e).after hu hur

/-- The methods that may tear the transport down before they return. -/
def Method.tearsDown : Method → Bool
  | .writelines _ | .popReady | .popIo => true
  | _ => false

/-- The methods that neither set the protocol nor take a completion keep
every contract that reading keeps. -/
theorem keeps_body (m : Method) (hset : ∀ kind, m ≠ .setProtocol kind) (hio : m ≠ .popIo)
    {s : World} (hs : C.Inv s) (hcalm : m.tearsDown = true → Calm s)
    (hfit : m = .resumeReading → s.closing = false → Fit s) :
    m.body.wp C (fun _ t => C.Inv t ∧ C.Rely s t) s := by
  have hF := hR.toFrames
  match m, hset, hio, hcalm, hfit with
  | .pauseReading, _, _, _, _ => exact keeps_pauseReading hR s hs
  | .resumeReading, _, _, _, hfit => exact keeps_resumeReading hR hs (hfit rfl)
  | .registerReader, _, _, _, _ => exact keeps_registerReader hR s hs
  | .setProtocol kind, hset, _, _, _ => exact absurd rfl (hset kind)
  | .close, _, _, _, _ => exact keeps_close hF s hs
  | .abort, _, _, _, _ => exact keeps_abort hF s hs
  | .write data, _, _, _, _ => exact keeps_write hF data s hs
  | .writelines lines, _, _, hcalm, _ => exact keeps_writelines hF lines hs (hcalm rfl)
  | .writeEof, _, _, _, _ => exact keeps_writeEof hF s hs
  | .setWriteBufferLimits high low, _, _, _, _ => exact keeps_setWriteBufferLimits hF high low s hs
  | .makeEmptyWaiter, _, _, _, _ => exact keeps_makeEmptyWaiter hF s hs
  | .resetEmptyWaiter, _, _, _, _ => exact keeps_resetEmptyWaiter hF s hs
  | .popReady, _, _, hcalm, _ => exact keeps_popReady hR hs (hcalm rfl)
  | .popIo, _, hio, _, _ => exact absurd rfl hio

end

/-! ### The environment -/

/-- What the environment does besides running the drain task. -/
structure Drift (s s' : World) : Prop where
  eq : s' = { s with kernel := s'.kernel, reader := s'.reader, io := s'.io }
  pending : s'.pending = s.pending
  callback : ∀ slot, s'.reader = some (.callback slot) → s.reader = some (.callback slot)
  drain : ∀ t', s'.reader = some (.drain t') → ∃ t, s.reader = some (.drain t) ∧ t'.pc = t.pc
  idle : s.reader = none → s'.reader = none
  fin : s.kernel.fin = true → s'.kernel.fin = true ∧ s'.kernel.stream = s.kernel.stream

theorem drift_arrive {s : World} {kernel : Socket}
    (hfin : s.kernel.fin = true → kernel.fin = true ∧ kernel.stream = s.kernel.stream) :
    Drift s (s.arrive kernel) := by
  refine ⟨rfl, rfl, fun slot hr => ?_, fun t' hr => ?_, fun hr => ?_, hfin⟩
  · unfold World.arrive at hr
    split at hr
    · cases hr
    · exact hr
  · unfold World.arrive at hr
    split at hr
    · rename_i t ht
      cases hr
      exact ⟨t, ht, rfl⟩
    · exact ⟨t', hr, rfl⟩
  · rw [World.arrive, hr]

theorem drift_fire {s : World} (slot : Nat) :
    Drift s { s with io := s.io ++ [.callback slot] } :=
  ⟨rfl, by simp [World.pending, IoItem.payload], fun _ => id, fun t' hr => ⟨t', hr, rfl⟩,
    id, fun h => ⟨h, rfl⟩⟩

theorem drift_of_env {s s' : World} {h : Env} (he : s.env h = some s')
    (hrun : ∀ size, h ≠ .drainRun size) : Drift s s' := by
  cases h with
  | arriveBytes bs =>
      simp only [World.env] at he
      split at he
      · cases he
      · rename_i hno
        rw [not_or] at hno
        cases he
        exact drift_arrive fun hfin => absurd hfin hno.2
  | arriveFin =>
      cases he
      exact drift_arrive fun _ => ⟨rfl, rfl⟩
  | arriveError e =>
      cases he
      exact drift_arrive fun hfin => ⟨hfin, rfl⟩
  | harvest =>
      simp only [World.env] at he
      split at he
      · rename_i t ht
        split at he
        · cases he
          refine ⟨rfl, rfl, fun slot hr => by simp at hr, fun t' hr => ?_,
            fun hr => by simp [ht] at hr, fun h => ⟨h, rfl⟩⟩
          simp only [Option.some.injEq, Reader.drain.injEq] at hr
          exact ⟨t, ht, by rw [← hr]⟩
        · cases he
      · cases he
  | drainRun size => exact absurd rfl (hrun size)
  | fireReader =>
      simp only [World.env] at he
      split at he
      · cases he
        exact drift_fire _
      · cases he
  | fireWriter =>
      simp only [World.env] at he
      split at he
      · cases he
        exact drift_fire _
      · cases he

theorem env_drainRun {s s' : World} {size : Nat} (he : s.env (.drainRun size) = some s') :
    ∃ t o, s.reader = some (.drain t) ∧
      drainStep (.tcp s.chunk) false size t s.kernel = some o ∧ s' = s.afterDrain o := by
  simp only [World.env] at he
  split at he
  · rename_i t ht
    obtain ⟨o, ho, rfl⟩ := Option.map_eq_some_iff.mp he
    exact ⟨t, o, ht, ho, rfl⟩
  · cases he

end Tokioop.Transport
