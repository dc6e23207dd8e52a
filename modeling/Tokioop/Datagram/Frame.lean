import Mathlib.Algebra.Ring.Int.Defs
import Tokioop.Datagram.Reading
import Tokioop.Kit.Noted

/-!
Rules for a datagram transport next to a record of the calls made to it.

Most methods leave the sends alone: what is in the buffer and what counts for
it, what the kernel has accepted, and the errors reported for sends. `Frames`
is a contract that such steps keep, and the methods made of them keep it too.
The rules for the rest, `sendto` and the writer, follow every datagram from
its place to the next.
-/

namespace Tokioop.Datagram

open Fd Kit Kit.Prog
open Transport (Exc Query Reply Job IoItem writeBufferLimits)

/-- A contract next to a record. -/
abbrev NotedContract (τ : Type) := Contract (World × τ) UserCall Unit Exc Query Reply

/-- An `error_received` for a datagram that could not be sent. -/
def UserCall.isSendError : UserCall → Bool
  | .errorReceived _ source => source ≠ .read
  | _ => false

namespace World

/-- `sendto` refuses an address other than that of its connected socket. -/
def rejects (s : World) (o : Outgoing) : Bool :=
  s.address.isSome && o.2.isSome && o.2 ≠ s.address

/-- Where a datagram goes that `sendto` is called with. -/
def outgoing (s : World) (o : Outgoing) : Outgoing := (o.1, s.address.or o.2)

/-- The connection is neither lost nor about to be. -/
def live (s : World) : Bool := s.connLost = 0 && !s.fatal && s.attached

/-- How often an error was reported for a send. -/
def sendErrors (s : World) : Nat := s.log.countP UserCall.isSendError

/-- While there is a loop there is a protocol. -/
def manned (s : World) : Prop := s.attached = true → s.protocol = true

/-- The sends of `t` are those of `s`. -/
structure Aside (s t : World) : Prop where
  address : t.address = s.address
  buffer : t.buffer = s.buffer
  size : t.bufferSize = s.bufferSize
  sent : t.sent = s.sent
  errors : t.sendErrors = s.sendErrors
  manned : s.manned → t.manned
  live : t.live = true → s.live = true

theorem Aside.of_eq {s t : World}
    (heq : t = { s with
      closing := t.closing, paused := t.paused, replay := t.replay
      protocolPaused := t.protocolPaused, highWater := t.highWater, lowWater := t.lowWater
      reader := t.reader, writer := t.writer, nextSlot := t.nextSlot, ready := t.ready, io := t.io
      kernel := t.kernel, teardowns := t.teardowns, untimely := t.untimely }) : Aside s t := by
  rw [heq]
  exact ⟨rfl, rfl, rfl, rfl, rfl, id, id⟩

/-- A step that leaves the transport lost. -/
theorem Aside.of_dead {s t : World} (hsends : t.address = s.address ∧ t.buffer = s.buffer ∧
      t.bufferSize = s.bufferSize ∧ t.sent = s.sent ∧ t.log = s.log)
    (hmanned : s.manned → t.manned) (hdead : t.live = false) : Aside s t := by
  obtain ⟨haddress, hbuffer, hsize, hsent, hlog⟩ := hsends
  refine ⟨haddress, hbuffer, hsize, hsent, ?_, hmanned, fun h => ?_⟩
  · rw [sendErrors, sendErrors, hlog]
  · rw [hdead] at h
    cases h

theorem aside_logged (s : World) {e : UserCall} (he : e.isSendError = false) :
    Aside s (s.logged e) := by
  refine ⟨rfl, rfl, rfl, rfl, ?_, id, id⟩
  show (s.log ++ [e]).countP _ = s.log.countP _
  rw [List.countP_append, List.countP_singleton, he, if_neg Bool.false_ne_true, Nat.add_zero]

theorem live_of_lost {s : World} (h : s.connLost ≠ 0) : s.live = false := by
  simp [live, h]

theorem live_of_fatal {s : World} (h : s.fatal = true) : s.live = false := by
  simp [live, h]

theorem live_of_detached {s : World} (h : s.attached = false) : s.live = false := by
  simp [live, h]

end World

variable {τ : Type}

/-- The messages with which `_fatal_error` is called. -/
def fatalMessages : List String :=
  ["Fatal read error on datagram transport", "Fatal write error on datagram transport"]

/-- A contract that steps keep which leave the sends alone. A fatal error
closes the transport, either right after `datagram_received` has failed or
once the exception handler has returned. -/
structure Frames (C : NotedContract τ) : Prop where
  aside : ∀ {s t g}, C.Inv (s, g) → World.Aside s t → C.Inv (t, g) ∧ C.Rely (s, g) (t, g)
  failed : ∀ {s g data addr x}, C.Inv (s, g) →
    C.Ret (.datagramReceived data addr) (.error x) (s, g) →
    x.exits = false → x.isOSError = true →
    ((forceClose (some x)).beside τ).wp C
      (fun _ t => C.Inv t ∧ C.Rely ({ s with fatal := true }, g) t) ({ s with fatal := true }, g)
  handled : ∀ {u message exc r}, C.Inv u → message ∈ fatalMessages →
    C.Ret (.exceptionHandler message exc) r u →
    ((forceClose (some exc)).beside τ).wp C (fun _ t => C.Inv t ∧ C.Rely u t) u

section

variable {C : NotedContract τ} (hF : Frames C)
include hF

theorem kept_aside {f : World → World} (h : ∀ s, World.Aside s (f s)) :
    Kept C (modify f : Meth Unit) :=
  kept_modify fun s _ hs => hF.aside hs (h s)

/-! ### Calling out -/

theorem kept_invoke {e : UserCall} (he : e.isSendError = false) : Kept C (invoke e) :=
  kept_bind (kept_aside hF fun s => s.aside_logged he) fun _ => kept_callback e

theorem kept_callProtocol {e : UserCall} (he : e.isSendError = false) : Kept C (callProtocol e) :=
  kept_bind kept_get fun _ => kept_ite (kept_invoke hF he) (kept_done _)

theorem kept_onLoop {f : World → World} (h : ∀ s, World.Aside s (f s)) : Kept C (onLoop f) :=
  kept_bind kept_get fun _ => kept_ite (kept_aside hF h) (kept_done _)

theorem kept_callExceptionHandler (message : String) (exc : Exc) :
    Kept C (callExceptionHandler message exc) :=
  kept_bind kept_get fun _ => kept_ite
    (kept_tryCatch (kept_invoke hF rfl) fun _ => kept_done _) (kept_done _)

theorem kept_reportCallbackError (exc : Exc) : Kept C (reportCallbackError exc) :=
  kept_tryCatch (kept_invoke hF rfl) fun _ => kept_done _

/-- `_fatal_error`, where an `OSError` may close the transport as it is. -/
theorem wp_beside_fatalError {exc : Exc} {message : String} (hm : message ∈ fatalMessages)
    {s : World} {g : τ} (hs : C.Inv ({ s with fatal := true }, g))
    (hclose : exc.isOSError = true → ((forceClose (some exc)).beside τ).wp C
      (fun _ t => C.Inv t ∧ C.Rely ({ s with fatal := true }, g) t) ({ s with fatal := true }, g)) :
    ((fatalError exc message).beside τ).wp C
      (fun _ t => C.Inv t ∧ C.Rely ({ s with fatal := true }, g) t) (s, g) := by
  unfold fatalError reportFatal
  rw [wp_beside_bind, wp_beside_modify]
  show (((if exc.isOSError = true then _ else _ : Meth Unit) >>= _).beside τ).wp C _ _
  rw [wp_beside_bind]
  split
  · rename_i hos
    unfold getDebug
    rw [wp_beside_bind, wp_beside_get]
    show ((if _ then _ else _ : Meth Unit).beside τ).wp C _ _
    split
    · exact hclose hos
    · exact ⟨hs, C.refl _⟩
  unfold callExceptionHandler
  rw [wp_beside_bind, wp_beside_get]
  show ((if _ then _ else _ : Meth Unit).beside τ).wp C _ _
  split
  · rw [wp_beside_tryCatch]
    unfold invoke
    rw [wp_beside_bind, wp_beside_modify]
    obtain ⟨hl, hlr⟩ := hF.aside hs (World.aside_logged _ (e := .exceptionHandler message exc) rfl)
    refine ⟨hl, fun u r hu hur hret => ?_⟩
    have hgo := wp_since (C.trans hlr hur) (hF.handled hu hm hret)
    cases r with
    | ok a => exact hgo
    | error x => exact hgo
  · exact ⟨hs, C.refl _⟩

/-- The same of a transport that the contract holds of. -/
theorem wp_beside_fatalError_of_inv {exc : Exc} {message : String} (hm : message ∈ fatalMessages)
    {s : World} {g : τ} (hs : C.Inv (s, g))
    (hclose : exc.isOSError = true → ((forceClose (some exc)).beside τ).wp C
      (fun _ t => C.Inv t ∧ C.Rely ({ s with fatal := true }, g) t) ({ s with fatal := true }, g)) :
    ((fatalError exc message).beside τ).wp C (fun _ t => C.Inv t ∧ C.Rely (s, g) t) (s, g) := by
  obtain ⟨ht, htr⟩ := hF.aside hs (t := { s with fatal := true })
    (.of_dead ⟨rfl, rfl, rfl, rfl, rfl⟩ id (World.live_of_fatal rfl))
  refine wp_mono C ?_ (wp_beside_fatalError hF hm ht hclose)
  exact fun _ u hu => ⟨hu.1, C.trans htr hu.2⟩

/-! ### Flow control -/

theorem kept_flowControl {e : UserCall} (he : e.isSendError = false) (message : String) :
    Kept C (flowControl e message) :=
  kept_tryCatch (kept_callProtocol hF he) fun _ =>
    kept_ite (kept_done _) (kept_callExceptionHandler hF _ _)

theorem kept_maybePauseProtocol : Kept C maybePauseProtocol :=
  kept_bind kept_get fun _ => kept_ite (kept_done _) <|
    kept_bind (kept_aside hF fun _ => .of_eq rfl) fun _ =>
      kept_flowControl hF rfl _

theorem kept_maybeResumeProtocol : Kept C maybeResumeProtocol :=
  kept_bind kept_get fun _ => kept_ite
    (kept_bind (kept_aside hF fun _ => .of_eq rfl) fun _ =>
      kept_flowControl hF rfl _)
    (kept_done _)

theorem kept_setWriteBufferLimits (high low : Option Nat) :
    Kept C (setWriteBufferLimits high low) :=
  kept_ite (kept_done _) <|
    kept_bind (kept_aside hF fun _ => .of_eq rfl) fun _ =>
      kept_maybePauseProtocol hF

/-! ### Watchers and the end -/

theorem kept_registerReader : Kept C registerReader := by
  refine kept_bind kept_get fun _ => kept_ite ?_ (kept_done _)
  refine kept_bind kept_get fun _ => kept_ite ?_ (kept_done _)
  refine kept_bind (kept_query _) fun a => ?_
  cases a with
  | fail e => exact kept_done _
  | done n => exact kept_aside hF fun _ => .of_eq rfl
  | wouldBlock => exact kept_aside hF fun _ => .of_eq rfl

theorem kept_removeWriter : Kept C removeWriter :=
  kept_onLoop hF fun _ => .of_eq rfl

theorem kept_addWriter : Kept C addWriter := by
  refine kept_bind kept_get fun _ => kept_ite ?_ (kept_done _)
  refine kept_bind (kept_query _) fun a => ?_
  cases a with
  | fail e => exact kept_done _
  | done n => exact kept_aside hF fun _ => .of_eq rfl
  | wouldBlock => exact kept_aside hF fun _ => .of_eq rfl

theorem kept_beginClosing : Kept C beginClosing :=
  kept_bind kept_get fun _ => kept_ite (kept_done _) <|
    kept_bind (kept_aside hF fun _ => .of_eq rfl) fun _ =>
      kept_onLoop hF fun _ => .of_eq rfl

theorem kept_close : Kept C close := by
  have hlost : ∀ s : World, World.Aside s { s with connLost := s.connLost + 1 } := fun s =>
    .of_dead ⟨rfl, rfl, rfl, rfl, rfl⟩ id (World.live_of_lost (Nat.succ_ne_zero _))
  refine kept_bind kept_get fun _ => kept_ite (kept_done _) ?_
  refine kept_bind (kept_beginClosing hF) fun _ => kept_bind kept_get fun _ => ?_
  refine kept_ite (kept_bind (kept_aside hF hlost) fun _ => ?_) (kept_done _)
  exact kept_bind (kept_removeWriter hF) fun _ =>
    kept_onLoop hF fun _ => .of_eq rfl

theorem kept_callConnectionLost (exc : Option Exc) : Kept C (callConnectionLost exc) := by
  refine kept_bind (kept_aside hF fun _ => .of_eq rfl) fun _ => ?_
  refine kept_tryFinally ?_ ?_
  · exact kept_bind kept_get fun _ => kept_ite (kept_callProtocol hF rfl) (kept_done _)
  · refine kept_onLoop hF fun _ => .of_dead ⟨rfl, rfl, rfl, rfl, rfl⟩ (fun _ ha => ?_) ?_
    · cases ha
    · exact World.live_of_detached rfl

theorem kept_afterSending : Kept C afterSending := by
  refine kept_bind (kept_maybeResumeProtocol hF) fun _ => kept_bind kept_get fun _ => ?_
  refine kept_ite (kept_bind (kept_removeWriter hF) fun _ => ?_) (kept_done _)
  exact kept_bind kept_get fun _ => kept_ite (kept_callConnectionLost hF none) (kept_done _)

/-! ### Reading -/

theorem kept_pauseReading : Kept C pauseReading :=
  kept_bind kept_get fun _ => kept_ite
    (kept_aside hF fun _ => .of_eq rfl) (kept_done _)

theorem kept_deliverReplay (item : ReplayItem) : Kept C (deliverReplay item) := by
  cases item with
  | error e => exact kept_callProtocol hF rfl
  | datagram data addr =>
      rintro ⟨s, g⟩ hs
      show ((deliverDatagram data addr).beside τ).wp C _ (s, g)
      unfold deliverDatagram
      rw [wp_beside_andThen]
      unfold callProtocol
      rw [wp_beside_bind, wp_beside_get]
      show ((if s.protocol = true then _ else _ : Meth Unit).beside τ).wp C _ (s, g)
      split
      · unfold invoke
        rw [wp_beside_bind, wp_beside_modify]
        obtain ⟨hl, hlr⟩ := hF.aside hs (s.aside_logged (e := .datagramReceived data addr) rfl)
        refine ⟨hl, fun t r ht htr hret => ?_⟩
        have hst := C.trans hlr htr
        cases r with
        | ok a => exact ⟨ht, hst⟩
        | error x =>
            show ((if x.exits = true then raise x else _ : Meth Unit).beside τ).wp C _ t
            split
            · exact ⟨ht, hst⟩
            · rename_i hx
              refine wp_since hst
                (wp_beside_fatalError_of_inv hF (by simp [fatalMessages]) ht fun hos => ?_)
              exact hF.failed ht hret (Bool.eq_false_iff.mpr hx) hos
      · exact wp_beside_fatalError_of_inv hF (by simp [fatalMessages]) hs fun hos => by cases hos

theorem kept_flushReplay : Kept C flushReplay := by
  refine kept_repeatWhile (kept_bind kept_get fun s => ?_)
  cases s.replay with
  | nil => exact kept_done _
  | cons item rest =>
      refine kept_ite (kept_bind (kept_aside hF fun _ => ?_) fun _ => ?_) (kept_done _)
      · exact .of_eq rfl
      · exact kept_bind (kept_deliverReplay hF item) fun _ => kept_done _

theorem kept_resumeReading : Kept C resumeReading := by
  refine kept_bind kept_get fun _ => kept_ite (kept_done _) ?_
  refine kept_bind (kept_aside hF fun _ => .of_eq rfl) fun _ => ?_
  refine kept_bind (kept_flushReplay hF) fun _ => kept_bind kept_get fun _ => ?_
  exact kept_ite (kept_done _) (kept_ite (kept_done _) (kept_registerReader hF))

theorem kept_drain (item : ReplayItem) : Kept C (drain item) :=
  kept_bind kept_get fun _ => kept_ite (kept_done _) <|
    kept_ite (kept_aside hF fun _ => .of_eq rfl) (kept_deliverReplay hF item)

/-! ### What the loop calls -/

theorem kept_popReady : Kept C popReady := by
  refine kept_bind kept_get fun s => ?_
  cases s.ready with
  | nil => exact kept_done _
  | cons j rest =>
      refine kept_bind (kept_aside hF fun _ => .of_eq rfl) fun _ => ?_
      refine kept_tryCatch ?_ (kept_reportCallbackError hF)
      cases j with
      | connectionMade => exact kept_invoke hF rfl
      | registerReader => exact kept_registerReader hF
      | callConnectionLost exc => exact kept_callConnectionLost hF exc

theorem kept_popIo (hwrite : Kept C sendtoReady) : Kept C popIo := by
  refine kept_bind kept_get fun s => ?_
  cases s.io with
  | nil => exact kept_done _
  | cons i rest =>
      refine kept_bind (kept_aside hF fun _ => .of_eq rfl) fun _ => ?_
      refine kept_tryCatch ?_ (kept_reportCallbackError hF)
      match i with
      | .data (.udpDatagram payload addr) => exact kept_drain hF _
      | .data (.readError e) => exact kept_drain hF _
      | .data (.tcpChunk payload) => exact kept_done _
      | .data .tcpEof => exact kept_done _
      | .callback slot => exact kept_bind kept_get fun _ => kept_ite hwrite (kept_done _)

/-- The methods that neither send nor abort. -/
theorem kept_body {m : Method} (hsendto : ∀ data addr, m ≠ .sendto data addr) (habort : m ≠ .abort)
    (hwrite : Kept C sendtoReady) : Kept C m.body := by
  cases m with
  | pauseReading => exact kept_pauseReading hF
  | resumeReading => exact kept_resumeReading hF
  | registerReader => exact kept_registerReader hF
  | setProtocol => exact kept_aside hF fun _ => ⟨rfl, rfl, rfl, rfl, rfl, fun _ _ => rfl, id⟩
  | close => exact kept_close hF
  | abort => exact absurd rfl habort
  | sendto data addr => exact absurd rfl (hsendto data addr)
  | setWriteBufferLimits high low => exact kept_setWriteBufferLimits hF high low
  | popReady => exact kept_popReady hF
  | popIo => exact kept_popIo hF hwrite

theorem frames_env {s s' : World} {g : τ} {h : Env} (hs : C.Inv (s, g)) (he : s.env h = some s') :
    C.Inv (s', g) ∧ C.Rely (s, g) (s', g) := by
  refine hF.aside hs ?_
  rw [(env_eq he).1]
  exact .of_eq rfl

end

/-! ### Closing and sending -/

section

variable {C : NotedContract τ} {s : World} {g : τ}

/-- `_force_close` finds the connection lost already, or leaves an empty
buffer and a transport that is lost or without its loop. -/
theorem wp_beside_forceClose (exc : Option Exc) {Q : World × τ → Prop}
    (hlost : s.connLost ≠ 0 → Q (s, g))
    (hclose : ∀ t : World, s.connLost = 0 → t.live = false → t.buffer = [] →
      t.bufferSize = s.bufferSize → (s.manned → t.manned) → Q (t, g)) :
    ((forceClose exc).beside τ).wp C (fun _ => Q) (s, g) := by
  refine wp_beside C ?_
  unfold forceClose dropBuffer beginClosing removeReader removeWriter callSoon onLoop
  by_cases hl : s.connLost = 0
  · have hdead : ∀ t : World, t.buffer = [] → t.bufferSize = s.bufferSize →
        t.connLost ≠ 0 ∨ t.attached = false → t.attached = s.attached → t.protocol = s.protocol →
        Q (t, g) := by
      intro t hbuf hsize hor ha hp
      refine hclose t hl ?_ hbuf hsize fun h => by rwa [World.manned, ha, hp]
      rcases hor with hlt | ha
      · exact World.live_of_lost hlt
      · exact World.live_of_detached ha
    by_cases hbuf : s.buffer = [] <;> by_cases hc : s.closing = true <;> cases ha : s.attached
    all_goals simp [hl, ha, hbuf, hc]
    all_goals exact hdead _ rfl rfl (by simp) ha.symm rfl
  · simpa [hl] using hlost hl

theorem wp_beside_sockSend {d : Outgoing} {Q : Except Exc Bool → World × τ → Prop}
    (hunsendable : ∀ e, Unsendable s d e → Q (.error e) (s, g))
    (hblock : Q (.ok false) (s, g))
    (hfail : s.attached = true → ∀ e, Q (.error (.osError e)) (s, g))
    (htook : s.attached = true → s.addressed d = true →
      Q (.ok true) ({ s with sent := s.sent ++ [d] }, g)) :
    ((sockSend d).beside τ).wp C Q (s, g) := by
  refine wp_beside C ?_
  unfold sockSend
  rw [wp_bind, wp_get]
  show wp _ (if s.attached = true then _ else _) _ s
  split
  · rename_i ha
    split
    · rename_i hd
      rw [wp_bind, wp_query]
      intro a _
      cases a with
      | wouldBlock => exact hblock
      | fail e => exact hfail ha e
      | done n => exact htook ha hd
    · rename_i hno
      exact hunsendable _ (.unaddressed ha (Bool.eq_false_iff.mpr hno))
  · rename_i ha
    exact hunsendable _ (.detached (Bool.eq_false_iff.mpr ha))

theorem wp_beside_sendto {data : Payload} {addr : Option Target}
    {Q : Except Exc Unit → World × τ → Prop}
    (hrejected : s.rejects (data.bytes, addr) = true → Q (.error .valueError) (s, g))
    (haccepted : s.rejects (data.bytes, addr) = false →
      (s.connLost ≠ 0 → Q (.ok ()) ({ s with connLost := s.connLost + 1 }, g)) ∧
      (s.buffer ≠ [] →
        ((enqueue (s.outgoing (data.bytes, addr)) data.len).beside τ).wp C Q (s, g)) ∧
      (s.buffer = [] →
        (∀ e, Unsendable s (s.outgoing (data.bytes, addr)) e →
          ((fatalError e "Fatal write error on datagram transport").beside τ).wp C Q (s, g)) ∧
        (∀ e, ((callProtocol (.errorReceived e .sendto)).beside τ).wp C Q (s, g)) ∧
        Q (.ok ()) ({ s with sent := s.sent ++ [s.outgoing (data.bytes, addr)] }, g) ∧
        ((addWriter >>= fun _ => enqueue (s.outgoing (data.bytes, addr)) data.len).beside τ).wp
          C Q (s, g))) :
    ((sendto data addr).beside τ).wp C Q (s, g) := by
  unfold sendto
  rw [wp_beside_bind, wp_beside_get]
  show ((if s.address.isSome = true ∧ addr.isSome = true ∧ addr ≠ s.address then _ else _ :
    Meth Unit).beside τ).wp C _ (s, g)
  split
  · rename_i hno
    exact hrejected (by simpa [World.rejects, and_assoc] using hno)
  rename_i hyes
  obtain ⟨hlost, hqueue, hempty⟩ := haccepted (by simpa [World.rejects, and_assoc] using hyes)
  show ((if s.connLost ≠ 0 ∧ s.address.isSome = true then _ else _ : Meth Unit).beside τ).wp C _ _
  split
  · rename_i hl
    exact hlost hl.1
  split
  · rename_i hbuf
    obtain ⟨hfatal, herror, hsent, hblock⟩ := hempty hbuf
    rw [wp_beside_andThen]
    refine wp_beside_sockSend (fun e hno => ?_) hblock (fun _ e => herror e) fun _ _ => hsent
    cases hno with
    | detached ha => exact hfatal _ (.detached ha)
    | unaddressed ha hno =>
        show ((sendFailed .sendto (refusal _)).beside τ).wp C Q (s, g)
        rw [sendFailed_refusal]
        exact hfatal _ (.unaddressed ha hno)
  · rename_i hbuf
    exact hqueue hbuf

/-- The loop of `_sendto_ready` has sent `taken` and then taken `dropped` off
the buffer. -/
structure Shipped (s u : World) (taken dropped : List Outgoing) : Prop where
  eq : u = { s with
    buffer := u.buffer, sent := s.sent ++ taken
    bufferSize := s.bufferSize - ((taken ++ dropped).map Outgoing.size).sum }
  buffer : s.buffer = taken ++ dropped ++ u.buffer

/-- The first datagram is sent before the others are looked at. -/
theorem Shipped.cons {s u : World} {d : Outgoing} {rest taken dropped : List Outgoing}
    (hbuf : s.buffer = d :: rest)
    (h : Shipped { s with
      buffer := rest, bufferSize := s.bufferSize - d.size
      sent := s.sent ++ [d] } u taken dropped) :
    Shipped s u (d :: taken) dropped := by
  refine ⟨?_, ?_⟩
  · rw [h.eq]
    simp only [List.cons_append, List.map_cons, List.sum_cons, List.append_assoc,
      List.nil_append, World.mk.injEq, true_and, and_true]
    omega
  · rw [hbuf, List.cons_append, List.cons_append, ← h.buffer]

theorem wp_beside_sendQueued {n : Nat} {Q : Except Exc Bool → World × τ → Prop}
    (hend : ∀ u taken, Shipped s u taken [] → Q (.ok true) (u, g))
    (herror : ∀ u taken d e, Shipped s u taken [d] →
      ((callProtocol (.errorReceived e .writer) >>= fun _ => pure false).beside τ).wp C Q (u, g))
    (hfatal : ∀ u taken d e, Shipped s u taken [d] → Unsendable s d e →
      ((fatalError e "Fatal write error on datagram transport" >>= fun _ => pure false).beside
        τ).wp C Q (u, g)) :
    ((sendQueued n).beside τ).wp C Q (s, g) := by
  have hstay : Shipped s s [] [] := ⟨by simp, rfl⟩
  induction n generalizing s with
  | zero => exact hend s [] hstay
  | succ n ih =>
      unfold sendQueued
      rw [wp_beside_bind, wp_beside_get]
      dsimp only
      cases hbuf : s.buffer with
      | nil => exact hend s [] hstay
      | cons d rest =>
          have hpop :
              Shipped s { s with buffer := rest, bufferSize := s.bufferSize - d.size } [] [d] :=
            ⟨by simp, hbuf⟩
          rw [wp_beside_bind, wp_beside_modify]
          show ((Prog.andThen _ _).beside τ).wp C _ _
          rw [wp_beside_andThen]
          refine wp_beside_sockSend (fun e hno => ?_) ?_ (fun _ e => herror _ [] d e hpop)
            fun _ _ => ?_
          · cases hno with
            | detached ha => exact hfatal _ [] d _ hpop (.detached ha)
            | unaddressed ha hno =>
                show ((sendFailed .writer (refusal d.2) >>= fun _ => pure false).beside τ).wp C Q _
                rw [sendFailed_refusal]
                exact hfatal _ [] d _ hpop (.unaddressed ha hno)
          · -- The datagram is put back.
            refine hend _ [] ⟨?_, hbuf⟩
            simp
          · refine ih (fun u taken hu => hend u _ (hu.cons hbuf))
              (fun u taken d' e hu => herror u _ d' e (hu.cons hbuf))
              (fun u taken d' e hu hno => ?_) ⟨by simp, rfl⟩
            refine hfatal u _ d' e (hu.cons hbuf) ?_
            cases hno with
            | detached ha => exact .detached ha
            | unaddressed ha hno => exact .unaddressed ha hno

theorem wp_beside_sendtoReady {Q : World × τ → Prop}
    (hend : ∀ u taken, Shipped s u taken [] → (afterSending.beside τ).wp C (fun _ => Q) (u, g))
    (herror : ∀ u taken d e, Shipped s u taken [d] →
      ((callProtocol (.errorReceived e .writer)).beside τ).wp C (fun _ => Q) (u, g))
    (hfatal : ∀ u taken d e, Shipped s u taken [d] → Unsendable s d e →
      ((fatalError e "Fatal write error on datagram transport").beside τ).wp C (fun _ => Q)
        (u, g)) :
    (sendtoReady.beside τ).wp C (fun _ => Q) (s, g) := by
  have hstop : ∀ {R : Except Exc Bool → World × τ → Prop} {p : Meth Unit} {u : World × τ},
      (∀ t, Q t → R (.ok false) t) → (∀ e t, Q t → R (.error e) t) →
      (p.beside τ).wp C (fun _ => Q) u → ((p >>= fun _ => pure false).beside τ).wp C R u := by
    intro R p u hfalse hraise hp
    rw [wp_beside_bind]
    refine wp_mono C ?_ hp
    intro r t ht
    cases r with
    | ok a => exact hfalse t ht
    | error e => exact hraise e t ht
  unfold sendtoReady
  rw [wp_beside_bind, wp_beside_get]
  show ((sendQueued _ >>= _).beside τ).wp C _ (s, g)
  rw [wp_beside_bind]
  refine wp_beside_sendQueued hend (fun u taken d e hu => ?_) fun u taken d e hu hno => ?_
  · exact hstop (fun _ => id) (fun _ _ => id) (herror u taken d e hu)
  · exact hstop (fun _ => id) (fun _ _ => id) (hfatal u taken d e hu hno)

end

end Tokioop.Datagram
