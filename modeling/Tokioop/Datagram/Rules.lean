import Tokioop.Datagram.Transport

/-!
Rules for the methods of a datagram transport, over an arbitrary contract.
Those for writing and tearing down list the ways in which a method can go on,
with the state it has led to by then; those for reading say what a contract
has to put up with (`Reads`).
-/

namespace Tokioop.Datagram

open Fd Kit Kit.Prog
open Transport (Exc Query Reply Job IoItem writeBufferLimits)

abbrev TransportContract := Contract World UserCall Unit Exc Query Reply

structure Base (s : World) : Prop where
  lost : s.connLost ≠ 0 → s.closing = true
  attached : s.closing = false → s.attached = true
  protocol : s.attached = true → s.protocol = true
  jobs : ∀ exc, Job.callConnectionLost exc ∈ s.ready → s.closing = true

theorem Base.closing_of_detached {s : World} (h : Base s) (ha : s.attached = false) :
    s.closing = true := by
  by_contra hc
  exact absurd (ha.symm.trans (h.attached (Bool.eq_false_iff.mpr hc))) Bool.false_ne_true

theorem Base.lost_eq_zero {s : World} (h : Base s) (hc : s.closing = false) : s.connLost = 0 := by
  by_contra hl
  exact absurd (hc.symm.trans (h.lost hl)) Bool.false_ne_true

theorem Base.of_closing {s : World} (hc : s.closing = true)
    (hp : s.attached = true → s.protocol = true) : Base s :=
  ⟨fun _ => hc, fun h => absurd (h.symm.trans hc) Bool.false_ne_true, hp, fun _ _ => hc⟩

namespace World

/-- What `_force_close` leaves of a transport that has its loop. -/
def forceClosed (s : World) (exc : Option Exc) : World :=
  { s with
    buffer := []
    writer := if s.buffer = [] then s.writer else none
    closing := true
    reader := if s.closing then s.reader else none
    connLost := s.connLost + 1
    ready := s.ready ++ [.callConnectionLost exc] }

/-- What `close` leaves of a transport that was not closing. -/
def closed (s : World) : World :=
  if s.buffer = [] then
    { s with
      closing := true, reader := none, connLost := s.connLost + 1, writer := none
      ready := s.ready ++ [.callConnectionLost none] }
  else { s with closing := true, reader := none }

def tearing (s : World) : World := { s with teardowns := s.teardowns + 1 }

/-- The transport lets go of its socket, its protocol and its loop, if it
still has them. -/
def severed (s : World) : World :=
  if s.attached then { s with attached := false, protocol := false } else s

/-- What a registration of the writer leaves. -/
def writing (s : World) : World :=
  { s with writer := some s.nextSlot, nextSlot := s.nextSlot + 1 }

def queued (s : World) (d : Outgoing) (len : Nat) : World :=
  { s with buffer := s.buffer ++ [d], bufferSize := s.bufferSize + (len + headerSize : Nat) }

end World

/-- What a completion hands to `_drain_datagram` or `_drain_error`. -/
def payloadOf : IoItem → Option ReplayItem
  | .data (.udpDatagram payload addr) => some (.datagram payload addr)
  | .data (.readError e) => some (.error e)
  | _ => none

/-- The calls that hand a payload to the protocol. -/
def ReplayItem.call : ReplayItem → UserCall
  | .datagram data addr => .datagramReceived data addr
  | .error e => .errorReceived e .read

section

variable {C : TransportContract} {s : World} {Q : Except Exc Unit → World → Prop}

theorem wp_onLoop (f : World → World) :
    (onLoop f).wp C Q s ↔
      (s.attached = true → Q (.ok ()) (f s)) ∧
        (s.attached = false → Q (.error .attributeError) s) := by
  unfold onLoop
  rw [wp_bind, wp_get]
  cases h : s.attached <;> simp [h]

theorem wp_callProtocol {e : UserCall} (hcall : s.protocol = true → C.Inv (s.logged e))
    (hreturn : ∀ t r, C.Inv t → C.Rely (s.logged e) t → C.Ret e r t → Q r t)
    (hnone : s.protocol = false → Q (.error .attributeError) s) :
    (callProtocol e).wp C Q s := by
  unfold callProtocol
  rw [wp_bind, wp_get]
  show wp C (if s.protocol = true then _ else _) _ s
  split
  · rename_i hp
    exact ⟨hcall hp, fun t r ht htr hr => hreturn t r ht htr hr⟩
  · rename_i hp
    exact hnone (Bool.eq_false_iff.mpr hp)

/-! ### Tearing down -/

/-- Without its loop a transport is closing, and `_force_close` gets as far as
it can. -/
theorem wp_forceClose (exc : Option Exc) (hb : Base s)
    (hlost : s.connLost ≠ 0 → Q (.ok ()) s)
    (hclose : s.connLost = 0 → s.attached = true → Q (.ok ()) (s.forceClosed exc))
    (hdetached : s.connLost = 0 → s.attached = false →
      if s.buffer = [] then Q (.error .attributeError) { s with connLost := s.connLost + 1 }
      else Q (.error .attributeError) { s with buffer := [] }) :
    (forceClose exc).wp C Q s := by
  have hclosing := fun ha => hb.closing_of_detached (s := s) ha
  unfold forceClose dropBuffer beginClosing removeReader removeWriter callSoon onLoop
  unfold World.forceClosed at hclose
  by_cases hl : s.connLost = 0
  · cases ha : s.attached with
    | true =>
        replace hclose := hclose hl ha
        by_cases hbuf : s.buffer = [] <;> by_cases hc : s.closing = true
        all_goals simp [hl, ha, hbuf, hc] at hclose ⊢
        all_goals exact hclose
    | false =>
        replace hdetached := hdetached hl ha
        by_cases hbuf : s.buffer = []
        all_goals simp [hl, ha, hbuf, hclosing ha] at hdetached ⊢
        all_goals exact hdetached
  · simpa [hl] using hlost hl

theorem wp_close (hb : Base s) (hclosing : s.closing = true → Q (.ok ()) s)
    (hclose : s.closing = false → Q (.ok ()) s.closed) : close.wp C Q s := by
  unfold close beginClosing removeReader removeWriter callSoon onLoop
  unfold World.closed at hclose
  cases hc : s.closing with
  | true => simpa [hc] using hclosing hc
  | false =>
      replace hclose := hclose hc
      have hatt := hb.attached hc
      by_cases hbuf : s.buffer = []
      all_goals simp [hc, hatt, hbuf] at hclose ⊢
      all_goals exact hclose

/-- The teardown, with or without a call of `connection_lost`. -/
theorem wp_callConnectionLost {Q : World → Prop} (exc : Option Exc)
    (hcall : s.protocol = true → C.Inv (s.tearing.logged (.connectionLost exc)))
    (hreturn : ∀ t, C.Inv t → C.Rely (s.tearing.logged (.connectionLost exc)) t → Q t.severed)
    (hskip : Q s.tearing.severed) :
    (callConnectionLost exc).wp C (fun _ => Q) s := by
  -- However the call ended, the `finally` clause follows.
  have hfinally : ∀ t : World, Q t.severed →
      (onLoop fun s => { s with attached := false, protocol := false }).wp C (fun _ => Q) t := by
    intro t ht
    unfold World.severed at ht
    rw [wp_onLoop]
    refine ⟨fun ha => ?_, fun ha => ?_⟩
    · rwa [if_pos ha] at ht
    · rwa [if_neg (Bool.eq_false_iff.mp ha)] at ht
  unfold callConnectionLost
  rw [wp_bind, wp_modify]
  refine wp_finally C ?_
  show wp C (get >>= _) _ s.tearing
  rw [wp_bind, wp_get]
  show wp C (if s.protocolConnected = true then _ else _) _ s.tearing
  split
  · refine wp_callProtocol hcall (fun t r ht htr _ => hfinally t (hreturn t ht htr)) fun _ => ?_
    exact hfinally _ hskip
  · exact hfinally _ hskip

/-! ### Writing -/

theorem wp_sockSend {d : Outgoing} {Q : Except Exc Bool → World → Prop}
    (hdetached : s.attached = false → Q (.error .attributeError) s)
    (hlost : s.attached = true → s.addressed d = false → Q (.error (refusal d.2)) s)
    (hblock : s.attached = true → Q (.ok false) s)
    (hfail : s.attached = true → ∀ e, C.Answer (.send d.1.length) (.fail e) s →
      Q (.error (.osError e)) s)
    (htook : s.attached = true → Q (.ok true) { s with sent := s.sent ++ [d] }) :
    (sockSend d).wp C Q s := by
  unfold sockSend
  rw [wp_bind, wp_get]
  show wp C (if s.attached = true then _ else _) _ s
  split
  · rename_i ha
    split
    · rw [wp_bind, wp_query]
      intro a hans
      cases a with
      | wouldBlock => exact hblock ha
      | fail e => exact hfail ha e hans
      | done n => exact htook ha
    · rename_i hno
      exact hlost ha (Bool.eq_false_iff.mpr hno)
  · rename_i ha
    exact hdetached (Bool.eq_false_iff.mpr ha)

theorem wp_addWriter (hdetached : s.attached = false → Q (.error .attributeError) s)
    (hfail : s.attached = true → ∀ e, C.Answer (.register false) (.fail e) s →
      Q (.error (.osError e)) s)
    (hwatch : s.attached = true → ∀ a, C.Answer (.register false) a s → a.failed = false →
      Q (.ok ()) s.writing) : addWriter.wp C Q s := by
  unfold addWriter
  rw [wp_bind, wp_get]
  show wp C (if s.attached = true then _ else _) _ s
  split
  · rename_i ha
    rw [wp_bind, wp_query]
    intro a hans
    cases a with
    | fail e => exact hfail ha e hans
    | done n => exact hwatch ha (.done n) hans rfl
    | wouldBlock => exact hwatch ha .wouldBlock hans rfl
  · rename_i ha
    exact hdetached (Bool.eq_false_iff.mpr ha)

/-- A send fails for want of a socket or of an address; the exceptions that
the kernel raises are `OSError`s. -/
inductive Unsendable (s : World) (d : Outgoing) : Exc → Prop
  | detached : s.attached = false → Unsendable s d .attributeError
  | unaddressed : s.attached = true → s.addressed d = false → Unsendable s d (refusal d.2)

theorem refusal_cases (a : Option Target) :
    refusal a = .typeError ∨ refusal a = .overflowError := by
  unfold refusal
  split
  · exact .inr rfl
  · exact .inl rfl

theorem refusal_not_osError (a : Option Target) : (refusal a).isOSError = false := by
  rcases refusal_cases a with h | h <;> rw [h] <;> rfl

/-- What the socket refuses is a fatal error. -/
theorem sendFailed_refusal (source : ErrorSource) (a : Option Target) :
    sendFailed source (refusal a) =
      fatalError (refusal a) "Fatal write error on datagram transport" := by
  rcases refusal_cases a with h | h <;> rw [h] <;> rfl

/-- The datagram is rejected, dropped, queued behind others, or given to the
kernel. -/
theorem wp_sendto {data : Payload} {addr : Option Target}
    (hrejected : Q (.error .valueError) s)
    (hlost : s.connLost ≠ 0 → Q (.ok ()) { s with connLost := s.connLost + 1 })
    (hqueue : s.buffer ≠ [] → (enqueue (data.bytes, s.address.or addr) data.len).wp C Q s)
    (hfatal : ∀ e, s.buffer = [] → Unsendable s (data.bytes, s.address.or addr) e →
      (fatalError e "Fatal write error on datagram transport").wp C Q s)
    (herror : ∀ e, s.buffer = [] → s.attached = true →
      (callProtocol (.errorReceived e .sendto)).wp C Q s)
    (hsent : s.buffer = [] → s.attached = true →
      Q (.ok ()) { s with sent := s.sent ++ [(data.bytes, s.address.or addr)] })
    (hblock : s.buffer = [] → s.attached = true →
      (addWriter >>= fun _ => enqueue (data.bytes, s.address.or addr) data.len).wp C Q s) :
    (sendto data addr).wp C Q s := by
  unfold sendto
  rw [wp_bind, wp_get]
  show wp C (if s.address.isSome = true ∧ addr.isSome = true ∧ addr ≠ s.address then _ else _) _ s
  split
  · exact hrejected
  show wp C (if s.connLost ≠ 0 ∧ s.address.isSome = true then _ else _) _ s
  split
  · rename_i hl
    exact hlost hl.1
  split
  · rename_i hbuf
    rw [wp_andThen]
    refine wp_sockSend (fun ha => ?_) (fun ha hno => ?_) (hblock hbuf) (fun ha e _ => ?_)
      (hsent hbuf)
    · exact hfatal _ hbuf (.detached ha)
    · show (sendFailed .sendto (refusal _)).wp C Q s
      rw [sendFailed_refusal]
      exact hfatal _ hbuf (.unaddressed ha hno)
    · exact herror e hbuf ha
  · rename_i hbuf
    exact hqueue hbuf

/-- The loop of `_sendto_ready` has taken datagrams off the buffer. -/
structure Sending (s u : World) : Prop where
  eq : u = { s with buffer := u.buffer, bufferSize := u.bufferSize, sent := u.sent }
  suffix : u.buffer <:+ s.buffer

theorem Sending.refl (s : World) : Sending s s := ⟨rfl, List.suffix_refl _⟩

theorem Sending.trans {s t u : World} (h : Sending s t) (h' : Sending t u) : Sending s u := by
  refine ⟨?_, h'.suffix.trans h.suffix⟩
  rw [h'.eq, h.eq]

/-- The loop comes to its end, or stops at a datagram that cannot be sent. -/
theorem wp_sendQueued {n : Nat} {Q : Except Exc Bool → World → Prop}
    (hend : ∀ u, Sending s u → Q (.ok true) u)
    (herror : ∀ u e, Sending s u → u.attached = true →
      (callProtocol (.errorReceived e .writer) >>= fun _ => pure false).wp C Q u)
    (hfatal : ∀ u d e, Sending s u → d :: u.buffer <:+ s.buffer → Unsendable s d e →
      (fatalError e "Fatal write error on datagram transport" >>= fun _ => pure false).wp C Q u) :
    (sendQueued n).wp C Q s := by
  induction n generalizing s with
  | zero => exact hend s (.refl s)
  | succ n ih =>
      unfold sendQueued
      rw [wp_bind, wp_get]
      dsimp only
      cases hbuf : s.buffer with
      | nil => exact hend s (.refl s)
      | cons d rest =>
          rw [wp_bind, wp_modify]
          have hpop : ∀ sent, Sending s
              { s with buffer := rest, bufferSize := s.bufferSize - d.size, sent := sent } := by
            intro sent
            refine ⟨rfl, ?_⟩
            rw [hbuf]
            exact List.suffix_cons d rest
          have hmore : ∀ {u : World}, u.buffer = rest → d :: u.buffer <:+ s.buffer := by
            rintro u rfl
            exact hbuf ▸ List.suffix_refl _
          rw [wp_andThen]
          refine wp_sockSend (fun ha => ?_) (fun ha hno => ?_) (fun _ => ?_) (fun ha e _ => ?_)
            fun _ => ?_
          · exact hfatal _ d _ (hpop s.sent) (hmore rfl) (.detached ha)
          · show (sendFailed .writer (refusal d.2) >>= fun _ => pure false).wp C Q _
            rw [sendFailed_refusal]
            exact hfatal _ d _ (hpop s.sent) (hmore rfl) (.unaddressed ha hno)
          · exact hend _ ⟨rfl, hbuf ▸ List.suffix_refl _⟩
          · exact herror _ e (hpop s.sent) ha
          · have hgo := hpop (s.sent ++ [d])
            refine ih (fun u hu => hend u (hgo.trans hu))
              (fun u e hu ha => herror u e (hgo.trans hu) ha) fun u d' e hu hsuf hno => ?_
            refine hfatal u d' e (hgo.trans hu) (hsuf.trans hgo.suffix) ?_
            cases hno with
            | detached ha => exact .detached ha
            | unaddressed ha hno => exact .unaddressed ha hno

theorem wp_sendtoReady {Q : World → Prop}
    (hend : ∀ u, Sending s u → afterSending.wp C (fun _ => Q) u)
    (herror : ∀ u e, Sending s u → u.attached = true →
      (callProtocol (.errorReceived e .writer)).wp C (fun _ => Q) u)
    (hfatal : ∀ u d e, Sending s u → d :: u.buffer <:+ s.buffer → Unsendable s d e →
      (fatalError e "Fatal write error on datagram transport").wp C (fun _ => Q) u) :
    sendtoReady.wp C (fun _ => Q) s := by
  have hstop : ∀ {R : Except Exc Bool → World → Prop} {p : Meth Unit} {u : World},
      (∀ t, Q t → R (.ok false) t) → (∀ e t, Q t → R (.error e) t) → p.wp C (fun _ => Q) u →
      (p >>= fun _ => pure false).wp C R u := by
    intro R p u hfalse hraise hp
    rw [wp_bind]
    refine wp_mono C ?_ hp
    intro r t ht
    cases r with
    | ok a => exact hfalse t ht
    | error e => exact hraise e t ht
  unfold sendtoReady
  rw [wp_bind, wp_get]
  show wp C (sendQueued _ >>= _) _ s
  rw [wp_bind]
  refine wp_sendQueued hend (fun u e hu ha => ?_) fun u d e hu hsuf hno => ?_
  · exact hstop (fun _ => id) (fun _ _ => id) (herror u e hu ha)
  · exact hstop (fun _ => id) (fun _ _ => id) (hfatal u d e hu hsuf hno)

/-- The buffer is empty when it is looked at, or something is left. -/
theorem wp_afterSending {Q : World → Prop} {Good Bad : World → Prop}
    (hresume : maybeResumeProtocol.wp C (fun r t =>
      match r with
      | .ok _ => Good t
      | .error _ => Bad t) s)
    (hraise : ∀ t, Bad t → Q t)
    (hleft : ∀ t, Good t → t.buffer ≠ [] → Q t)
    (hdetached : ∀ t, Good t → t.buffer = [] → t.attached = false → Q t)
    (hclosing : ∀ t, Good t → t.buffer = [] → t.attached = true → t.closing = true →
      (callConnectionLost none).wp C (fun _ => Q) { t with writer := none })
    (hopen : ∀ t, Good t → t.buffer = [] → t.attached = true → t.closing = false →
      Q { t with writer := none }) :
    afterSending.wp C (fun _ => Q) s := by
  unfold afterSending
  rw [wp_bind]
  refine wp_mono C ?_ hresume
  intro r t ht
  cases r with
  | error e => exact hraise t ht
  | ok a =>
      show wp C (get >>= _) _ t
      rw [wp_bind, wp_get]
      show wp C (if t.buffer = [] then _ else _) _ t
      split
      · rename_i hbuf
        unfold removeWriter
        rw [wp_bind, wp_onLoop]
        refine ⟨fun ha => ?_, fun ha => hdetached t ht hbuf ha⟩
        show wp C (get >>= _) _ { t with writer := none }
        rw [wp_bind, wp_get]
        show wp C (if t.closing = true then _ else _) _ { t with writer := none }
        split
        · rename_i hc
          exact hclosing t ht hbuf ha hc
        · rename_i hc
          exact hopen t ht hbuf ha (Bool.eq_false_iff.mpr hc)
      · rename_i hbuf
        exact hleft t ht hbuf

end

end Tokioop.Datagram
