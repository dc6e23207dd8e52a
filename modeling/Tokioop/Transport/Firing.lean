import Tokioop.Kit.Exec
import Tokioop.Transport.Writing

/-!
A firing of the writer against a kernel that is known.

The two write-ready handlers of a stream transport differ in what they try to
send and agree in everything around it; `writeReady` is what they share. The
batch executes such a handler for a completion of the registered writer.
-/

namespace Tokioop.Transport

open Fd Kit Kit.Prog

/-- The clauses that follow the `try` of a write-ready handler. -/
def afterTry : Except Exc Bool → Meth Unit
  | .ok true => afterSend
  | .ok false => pure ()
  | .error exc =>
      if exc.exits then raise exc
      else do
        removeWriter
        modify fun s => { s with buffer := [] }
        fatalError exc "Fatal write error on socket transport"
        resolveEmptyWaiter

/-- A write-ready handler that tries `send`, which says whether the kernel
answered with a number of bytes. -/
def writeReady (send : Meth Bool) : Meth Unit := do
  let s ← get
  if s.buffer = [] then raise .assertionError
  else if s.connLost ≠ 0 then pure ()
  else send.andThen afterTry

theorem writeSendmsg_eq : writeSendmsg = writeReady sendBuffer := rfl

/-- The batch executes a completion of the registered writer; what it raises
goes to the exception handler. -/
def World.fireBy (ready : Meth Unit) (O : Oracle World UserCall Nat Exc Query Reply) (s : World) :
    World :=
  match s.writer with
  | none => s
  | some _ =>
      match (tryCatch ready reportCallbackError).exec O s with
      | some (_, t) => t
      | none => s

/-- `resume_writing` does not end the process. -/
structure Resumes (O : Oracle World UserCall Nat Exc Query Reply) : Prop where
  resume : ∀ s x, O.ret .resumeWriting s = .error x → x.exits = false

/-- From `s` to `t` callbacks have been made and flow control has changed. -/
structure Told (s t : World) : Prop where
  eq : t = { s with protocolPaused := t.protocolPaused, log := t.log, untimely := t.untimely }

namespace Told

variable {s t u : World}

theorem refl (s : World) : Told s s := ⟨rfl⟩

theorem trans (h : Told s t) (h' : Told t u) : Told s u := by
  refine ⟨h'.eq.trans ?_⟩
  rw [h.eq]

theorem logged (s : World) (e : UserCall) : Told s (s.logged e) := ⟨rfl⟩

end Told

section Exec

variable {O : Oracle World UserCall Nat Exc Query Reply} {s : World}

theorem exec_invoke (e : UserCall) :
    (invoke e).exec O s = some (O.ret e (s.logged e), s.logged e) := rfl

theorem exec_callExceptionHandler (ha : s.attached = true) (message : String) (exc : Exc) :
    (callExceptionHandler message exc).exec O s =
      some (.ok (), s.logged (.exceptionHandler message exc)) := by
  cases hr : O.ret (.exceptionHandler message exc) (s.logged (.exceptionHandler message exc)) <;>
    simp [callExceptionHandler, ha, exec_invoke, hr]

theorem exec_flowControl (ha : s.attached = true) (e : UserCall) (message : String) :
    ∃ r t, (flowControl e message).exec O s = some (r, t) ∧ Told s t ∧
      t.protocolPaused = s.protocolPaused ∧
      ((∀ t x, O.ret e t = .error x → x.exits = false) → r = .ok ()) := by
  cases hp : s.protocol with
  | none =>
      refine ⟨.ok (), _, ?_, Told.logged s (.exceptionHandler message .attributeError), rfl,
        fun _ => rfl⟩
      simp [flowControl, hp, Exc.exits, exec_callExceptionHandler ha]
  | some k =>
      cases hr : O.ret e (s.logged e) with
      | ok a =>
          refine ⟨.ok (), _, ?_, Told.logged s e, rfl, fun _ => rfl⟩
          simp [flowControl, hp, exec_invoke, hr]
      | error x =>
          by_cases hx : x.exits = true
          · refine ⟨.error x, _, ?_, Told.logged s e, rfl, fun h => ?_⟩
            · simp [flowControl, hp, exec_invoke, hr, hx]
            · exact absurd (hx.symm.trans (h _ x hr)) Bool.noConfusion
          · have hlogged : (s.logged e).attached = true := ha
            refine ⟨.ok (), _, ?_,
              (Told.logged s e).trans (Told.logged _ (.exceptionHandler message x)), rfl,
              fun _ => rfl⟩
            simp [flowControl, hp, exec_invoke, hr, hx, exec_callExceptionHandler hlogged]

/-- How a call of the flow control ends: a protocol that is paused has
something to wait for, and only an end of the process gets out. -/
structure Resumed (O : Oracle World UserCall Nat Exc Query Reply) (s : World)
    (r : Except Exc Unit) (t : World) : Prop where
  told : Told s t
  ok : Resumes O → r = .ok ()
  paused : t.protocolPaused = true → t.buffer ≠ []
  due : r ≠ .ok () → s.protocolPaused = true

theorem buffer_ne_nil_of_size {n : Nat} (h : n < s.getWriteBufferSize) : s.buffer ≠ [] := by
  intro hb
  simp [World.getWriteBufferSize, hb] at h

theorem exec_maybeResumeProtocol (ha : s.attached = true) :
    ∃ r t, maybeResumeProtocol.exec O s = some (r, t) ∧ Resumed O s r t := by
  by_cases hdue : s.protocolPaused = true ∧ s.getWriteBufferSize ≤ s.lowWater
  · obtain ⟨r, t, ht, htold, hpaused, hok⟩ := exec_flowControl (O := O)
      (s := { s with protocolPaused := false }) ha .resumeWriting "protocol.resume_writing() failed"
    refine ⟨r, t, ?_, Told.trans ⟨rfl⟩ htold, fun hO => hok hO.resume, fun h => ?_, fun _ => hdue.1⟩
    · simp [maybeResumeProtocol, hdue, ht]
    · exact absurd (hpaused.symm.trans h) Bool.noConfusion
  · refine ⟨.ok (), s, ?_, Told.refl s, fun _ => rfl, fun hp => ?_, fun h => absurd rfl h⟩
    · simp [maybeResumeProtocol, hdue]
    · exact buffer_ne_nil_of_size (Nat.lt_of_not_le fun hle => hdue ⟨hp, hle⟩)

theorem exec_maybePauseProtocol (ha : s.attached = true) :
    ∃ r t, maybePauseProtocol.exec O s = some (r, t) ∧ Told s t := by
  by_cases hidle : s.getWriteBufferSize ≤ s.highWater ∨ s.protocolPaused = true
  · exact ⟨.ok (), s, by simp [maybePauseProtocol, hidle], Told.refl s⟩
  · obtain ⟨r, t, ht, htold, -⟩ := exec_flowControl (O := O)
      (s := { s with protocolPaused := true }) ha .pauseWriting "protocol.pause_writing() failed"
    refine ⟨r, t, ?_, Told.trans ⟨rfl⟩ htold⟩
    simp [maybePauseProtocol, hidle, ht]

theorem exec_reportCallbackError (exc : Exc) :
    (reportCallbackError exc).exec O s =
      some (.ok (), s.logged (.exceptionHandler "Exception in callback" exc)) := by
  cases hr : O.ret (.exceptionHandler "Exception in callback" exc)
      (s.logged (.exceptionHandler "Exception in callback" exc)) <;>
    simp [reportCallbackError, exec_invoke, hr]

theorem exec_resolveEmptyWaiter :
    ∃ r w, resolveEmptyWaiter.exec O s = some (r, { s with emptyWaiter := w }) ∧
      (s.emptyWaiter ≠ some .done → r = .ok ()) := by
  have hsame : ∀ w, s.emptyWaiter = w → s = { s with emptyWaiter := w } := by
    rintro w rfl
    rfl
  rcases hw : s.emptyWaiter with _ | _ | _
  · refine ⟨.ok (), none, ?_, fun _ => rfl⟩
    simpa [resolveEmptyWaiter, hw] using hsame _ hw
  · refine ⟨.ok (), some .done, ?_, fun _ => rfl⟩
    simp [resolveEmptyWaiter, hw]
  · refine ⟨.error .invalidState, some .done, ?_, fun h => absurd rfl h⟩
    simpa [resolveEmptyWaiter, hw] using hsame _ hw

theorem exec_baseCallConnectionLost (ha : s.attached = true) :
    ∃ r t, (baseCallConnectionLost none).exec O s = some (r, t) ∧ t.attached = false ∧
      t.buffer = s.buffer ∧ t.writer = s.writer ∧ t.sent = s.sent := by
  by_cases hc : s.protocolConnected = true <;> by_cases hp : s.protocol.isSome = true <;>
    simp [baseCallConnectionLost, onLoop, exec_invoke, hc, hp, ha, World.logged]

theorem exec_callConnectionLost (ha : s.attached = true) :
    ∃ r t, (callConnectionLost none).exec O s = some (r, t) ∧ t.attached = false ∧
      t.buffer = s.buffer ∧ t.writer = s.writer ∧ t.sent = s.sent := by
  obtain ⟨r, t, ht, hkept⟩ := exec_baseCallConnectionLost (O := O)
    (s := { s with teardowns := s.teardowns + 1 }) ha
  obtain ⟨r', w, hr', -⟩ := exec_resolveEmptyWaiter (O := O) (s := t)
  cases r' with
  | ok _ =>
      have hexec : (callConnectionLost none).exec O s = some (r, { t with emptyWaiter := w }) := by
        simp [callConnectionLost, ht, hr']
      exact ⟨_, _, hexec, hkept⟩
  | error e =>
      have hexec : (callConnectionLost none).exec O s =
          some (.error e, { t with emptyWaiter := w }) := by
        simp [callConnectionLost, ht, hr']
      exact ⟨_, _, hexec, hkept⟩

theorem exec_removeWriter (ha : s.attached = true) :
    removeWriter.exec O s = some (.ok (), { s with writer := none }) := by
  simp [removeWriter, onLoop, ha]

/-- What `_write_sendmsg` does once the buffer is empty. -/
def onEmpty (u : World) : Meth Unit :=
  if u.closing then callConnectionLost none else if u.eof then shutdownWrite else pure ()

theorem exec_afterSend_last {t u : World} (hm : maybeResumeProtocol.exec O s = some (.ok (), t))
    (hb : t.buffer = []) (ha : t.attached = true)
    (hr : resolveEmptyWaiter.exec O { t with writer := none } = some (.ok (), u)) :
    afterSend.exec O s = (onEmpty u).exec O u := by
  simp only [afterSend, exec_bind, hm, Option.bind_some, exec_get, if_pos hb,
    exec_removeWriter ha, hr, onEmpty]

theorem exec_onEmpty (ha : s.attached = true) :
    ∃ r t, (onEmpty s).exec O s = some (r, t) ∧
      (t.buffer = s.buffer ∧ t.writer = s.writer ∧ t.sent = s.sent) ∧
      (s.closing = true → t.attached = false) ∧
      (s.closing = false → s.eof = true → t.shutdownWr = true) := by
  by_cases hc : s.closing = true
  · obtain ⟨r, t, ht, hdetached, hkept⟩ := exec_callConnectionLost (O := O) ha
    refine ⟨r, t, ?_, hkept, fun _ => hdetached, fun h => ?_⟩
    · rw [onEmpty, if_pos hc, ht]
    · exact absurd (hc.symm.trans h) Bool.noConfusion
  · rw [onEmpty, if_neg hc]
    by_cases he : s.eof = true
    · have hshut : shutdownWrite.exec O s = some (.ok (), { s with
          shutdownWr := true, shutdowns := s.shutdowns ++ [(s.sent, s.offered)] }) := by
        simp [shutdownWrite, onLoop, ha]
      rw [if_pos he]
      exact ⟨_, _, hshut, ⟨rfl, rfl, rfl⟩, fun h => absurd h hc, fun _ _ => rfl⟩
    · rw [if_neg he]
      exact ⟨.ok (), s, rfl, ⟨rfl, rfl, rfl⟩, fun h => absurd h hc, fun _ h => absurd h he⟩

theorem exec_sendBuffer_done {n : Nat} (ha : s.attached = true)
    (hans : O.answer (.send s.gathered.length) s = .done n) :
    ∃ rest, sendBuffer.exec O s =
        some (.ok true, { s.took (s.gathered.take n) with buffer := rest }) ∧
      adjustLeftoverBuffer s.buffer (min n s.gathered.length) = some rest ∧
      s.gathered.take n ++ rest.flatten = s.buffer.flatten := by
  obtain ⟨rest, heq, hflat⟩ := leftover_append s.buffer s.iovMax n
  refine ⟨rest, ?_, heq, hflat⟩
  rw [World.gathered] at hans
  simp [sendBuffer, sockSend, ha, hans, -List.length_flatten, heq, World.took, World.gathered]

theorem exec_sendBuffer_blocked (ha : s.attached = true)
    (hans : O.answer (.send s.gathered.length) s = .wouldBlock) :
    sendBuffer.exec O s = some (.ok false, s) := by
  rw [World.gathered] at hans
  simp [sendBuffer, sockSend, ha, hans, -List.length_flatten]

theorem exec_sendBuffer_failed {e : Errno} (ha : s.attached = true)
    (hans : O.answer (.send s.gathered.length) s = .fail e) :
    sendBuffer.exec O s = some (.error (.osError e), s) := by
  rw [World.gathered] at hans
  simp [sendBuffer, sockSend, ha, hans, -List.length_flatten]

theorem exec_writeReady {send : Meth Bool} {v : World} {r : Except Exc Bool} (hb : s.buffer ≠ [])
    (hl : s.connLost = 0) (hsend : send.exec O s = some (r, v)) :
    (writeReady send).exec O s = (afterTry r).exec O v := by
  simp [writeReady, hb, hl, exec_andThen, hsend]

theorem exec_fatalError (ha : s.attached = true) (hl : s.connLost = 0) (e : Errno)
    (message : String) :
    (fatalError (.osError e) message).exec O s =
      some (.ok (), World.forceClosed { s with fatal := true } (some (.osError e))) := by
  by_cases hb : s.buffer = [] <;> by_cases hc : s.closing = true <;>
    simp [fatalError, reportFatal, getDebug, Exc.isOSError, forceClose, dropBuffer, beginClosing,
      scheduleConnectionLost, removeReader, removeWriter, callSoon, onLoop, ha, hb, hl, hc,
      World.forceClosed]

/-- A fatal error drops the buffer and the writer, and closes. -/
theorem exec_afterTry_failed (ha : s.attached = true) (hl : s.connLost = 0) (e : Errno) :
    ∃ r t, (afterTry (.error (.osError e))).exec O s = some (r, t) ∧ t.buffer = [] ∧
      t.writer = none ∧ t.closing = true ∧ (s.emptyWaiter ≠ some .done → r = .ok ()) := by
  have hfatal := exec_fatalError (O := O) (s := { s with writer := none, buffer := [] }) ha hl e
    "Fatal write error on socket transport"
  obtain ⟨r, w, hr, hok⟩ := exec_resolveEmptyWaiter (O := O)
    (s := World.forceClosed { s with writer := none, buffer := [], fatal := true }
      (some (.osError e)))
  refine ⟨r, { World.forceClosed { s with writer := none, buffer := [], fatal := true }
    (some (.osError e)) with emptyWaiter := w }, ?_, rfl, rfl, rfl, hok⟩
  simp only [afterTry, Exc.exits, Bool.false_eq_true, if_false, exec_bind, exec_removeWriter ha,
    exec_modify, Option.bind_some, hfatal, hr]

end Exec

/-- The writer has something to send. -/
structure World.Draining (s : World) : Prop where
  writer : s.writer.isSome = true
  buffer : s.buffer ≠ []
  connLost : s.connLost = 0
  attached : s.attached = true
  waiter : s.emptyWaiter ≠ some .done

/-- What was buffered in `s` has been sent, and what waited for it done. -/
structure World.Drained (s t : World) : Prop where
  buffer : t.buffer = []
  writer : t.writer = none
  closed : s.buffer ≠ [] → s.closing = true → t.attached = false
  ended : s.buffer ≠ [] → s.closing = false → s.eof = true → t.shutdownWr = true

theorem fireBy_eq {O : Oracle World UserCall Nat Exc Query Reply} {s t : World} {ready : Meth Unit}
    {r : Except Exc Unit} (hw : s.writer.isSome = true) (he : ready.exec O s = some (r, t)) :
    s.fireBy ready O = match r with
      | .ok _ => t
      | .error e => t.logged (.exceptionHandler "Exception in callback" e) := by
  obtain ⟨slot, hslot⟩ := Option.isSome_iff_exists.mp hw
  cases r <;> simp [World.fireBy, hslot, he, exec_reportCallbackError]

/-- From `s` to `v` a part of the buffer has been sent. -/
structure Took (s v : World) : Prop where
  eq : v = { s with sent := v.sent, buffer := v.buffer }

namespace World.Draining

variable {O : Oracle World UserCall Nat Exc Query Reply} {send : Meth Bool} {s t v : World}

/-- Nothing was sent. -/
theorem fireBy_blocked (h : s.Draining) (hsend : send.exec O s = some (.ok false, v)) :
    s.fireBy (writeReady send) O = v :=
  fireBy_eq h.writer (exec_writeReady h.buffer h.connLost hsend)

/-- A send that leaves something does nothing else. -/
theorem fireBy_more (h : s.Draining) (hO : Resumes O) (hsend : send.exec O s = some (.ok true, v))
    (hv : Took s v) (hmore : v.buffer ≠ []) : Told v (s.fireBy (writeReady send) O) := by
  have ha : v.attached = true := by
    rw [hv.eq]
    exact h.attached
  obtain ⟨r, t, ht, hresumed⟩ := exec_maybeResumeProtocol (O := O) ha
  obtain rfl := hresumed.ok hO
  have htold := hresumed.told
  have hbuf : t.buffer ≠ [] := by
    rw [htold.eq]
    exact hmore
  have hexec : afterSend.exec O v = some (.ok (), t) := by
    simp [afterSend, ht, hbuf]
  rw [fireBy_eq h.writer ((exec_writeReady h.buffer h.connLost hsend).trans hexec)]
  exact htold

/-- The send of the last of the buffer removes the writer and does what was
waiting. -/
theorem fireBy_last (h : s.Draining) (hO : Resumes O) (hsend : send.exec O s = some (.ok true, v))
    (hv : Took s v) (hlast : v.buffer = []) :
    s.Drained (s.fireBy (writeReady send) O) ∧
      (s.fireBy (writeReady send) O).sent = v.sent := by
  obtain ⟨r, t, ht, hresumed⟩ := exec_maybeResumeProtocol (O := O) (s := v)
    (by rw [hv.eq]; exact h.attached)
  obtain rfl := hresumed.ok hO
  have htold := hresumed.told
  obtain ⟨hbuf, ha, hc, he, hw, hsent⟩ : t.buffer = [] ∧ t.attached = true ∧
      t.closing = s.closing ∧ t.eof = s.eof ∧ t.emptyWaiter = s.emptyWaiter ∧ t.sent = v.sent := by
    rw [htold.eq, hv.eq]
    exact ⟨hlast, h.attached, rfl, rfl, rfl, rfl⟩
  obtain ⟨r, w, hr, hok⟩ := exec_resolveEmptyWaiter (O := O) (s := { t with writer := none })
  obtain rfl : r = .ok () := hok (hw ▸ h.waiter)
  obtain ⟨r, u, hu, ⟨hub, huw, hus⟩, hclosed, hended⟩ := exec_onEmpty (O := O)
    (s := { t with writer := none, emptyWaiter := w }) ha
  have hexec := (exec_writeReady h.buffer h.connLost hsend).trans
    ((exec_afterSend_last ht hbuf ha hr).trans hu)
  rw [fireBy_eq h.writer hexec]
  have hdone : s.Drained u := by
    refine ⟨hub.trans hbuf, huw, fun _ h => hclosed (hc.trans h), fun _ h h' => ?_⟩
    exact hended (hc.trans h) (he.trans h')
  cases r with
  | ok _ => exact ⟨hdone, hus.trans hsent⟩
  | error e => exact ⟨⟨hdone.buffer, hdone.writer, hdone.closed, hdone.ended⟩, hus.trans hsent⟩

/-- A fatal error drops the buffer and the writer. -/
theorem fireBy_failed (h : s.Draining) {e : Errno}
    (hsend : send.exec O s = some (.error (.osError e), v)) (hv : Took s v) :
    (s.fireBy (writeReady send) O).buffer = [] ∧ (s.fireBy (writeReady send) O).writer = none := by
  have ha : v.attached = true := by
    rw [hv.eq]
    exact h.attached
  have hl : v.connLost = 0 := by
    rw [hv.eq]
    exact h.connLost
  obtain ⟨r, t, ht, hbuf, hw, -⟩ := exec_afterTry_failed (O := O) ha hl e
  rw [fireBy_eq h.writer ((exec_writeReady h.buffer h.connLost hsend).trans ht)]
  cases r with
  | ok _ => exact ⟨hbuf, hw⟩
  | error e => exact ⟨hbuf, hw⟩

theorem told (h : s.Draining) (hv : Took s v) (htold : Told v t) (hmore : v.buffer ≠ []) :
    t.Draining := by
  rw [htold.eq, hv.eq]
  exact ⟨h.writer, hmore, h.connLost, h.attached, h.waiter⟩

end World.Draining

end Tokioop.Transport
