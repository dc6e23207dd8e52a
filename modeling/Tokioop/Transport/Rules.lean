import Tokioop.Transport.Aside

/-!
Rules for the methods that write and tear down, one for each method and over
an arbitrary contract. Each lists the ways in which the method can go on, with
the state it has led to by then, so that the proofs about a contract do not
look into the bodies.
-/

namespace Tokioop.Transport

open Fd Kit Kit.Prog

namespace World

/-- What `_force_close` leaves of a transport that has its loop. -/
def forceClosed (s : World) (exc : Option Exc) : World :=
  { s with
    buffer := []
    writer := if s.buffer = [] then s.writer else none
    closing := true
    reader := if s.closing then s.reader else none
    connLost := s.connLost + 1
    ready := s.ready ++ [.callConnectionLost exc] }

/-- What `close` leaves of a transport that was not closing. -/
def closed (s : World) : World :=
  if s.buffer = [] then
    { s with
      closing := true, reader := none, connLost := s.connLost + 1, writer := none
      ready := s.ready ++ [.callConnectionLost none] }
  else { s with closing := true, reader := none }

/-- What a registration of the writer leaves. -/
def writing (s : World) : World :=
  { s with writer := some s.nextSlot, nextSlot := s.nextSlot + 1 }

def offer (s : World) (data : List UInt8) : World := { s with offered := s.offered ++ data }

def took (s : World) (data : List UInt8) : World := { s with sent := s.sent ++ data }

/-- What `_write_sendmsg` passes to `sendmsg`. -/
def gathered (s : World) : List UInt8 := (s.buffer.take s.iovMax).flatten

/-- The future can be completed, if there is one, and `w` is what it is then. -/
def Completes (s : World) (w : Option Waiter) : Prop :=
  s.emptyWaiter ≠ some .done ∧ w = s.emptyWaiter.map fun _ => .done

end World

/-! Writing changes neither the flags of a transport nor what is scheduled. -/

namespace Base

variable {s : World}

theorem offer (h : Base s) (data : List UInt8) : Base (s.offer data) :=
  ⟨h.lost, h.attached, h.jobs⟩

theorem took (h : Base s) (data : List UInt8) : Base (s.took data) :=
  ⟨h.lost, h.attached, h.jobs⟩

theorem writing (h : Base s) : Base s.writing := ⟨h.lost, h.attached, h.jobs⟩

theorem buffered (h : Base s) (bs : List (List UInt8)) : Base { s with buffer := bs } :=
  ⟨h.lost, h.attached, h.jobs⟩

end Base

section

variable {C : Contract World UserCall Nat Exc Query Reply} {s : World}
  {Q : Except Exc Unit → World → Prop}

/-! ### Tearing down -/

/-- Without its loop a transport is closing, and `_force_close` gets as far as
it can. -/
theorem wp_forceClose (exc : Option Exc) (hb : Base s)
    (hlost : s.connLost ≠ 0 → Q (.ok ()) s)
    (hclose : s.connLost = 0 → s.attached = true → Q (.ok ()) (s.forceClosed exc))
    (hdetached : s.connLost = 0 → s.attached = false →
      if s.buffer = [] then Q (.error .attributeError) { s with connLost := s.connLost + 1 }
      else Q (.error .attributeError) { s with buffer := [] }) :
    (forceClose exc).wp C Q s := by
  have hclosing := fun ha => hb.closing_of_detached (s := s) ha
  unfold forceClose dropBuffer beginClosing scheduleConnectionLost removeReader removeWriter
    callSoon onLoop
  unfold World.forceClosed at hclose
  by_cases hl : s.connLost = 0
  · cases ha : s.attached with
    | true =>
        replace hclose := hclose hl ha
        by_cases hbuf : s.buffer = [] <;> by_cases hc : s.closing = true
        all_goals simp [hl, ha, hbuf, hc] at hclose ⊢
        all_goals exact hclose
    | false =>
        replace hdetached := hdetached hl ha
        by_cases hbuf : s.buffer = []
        all_goals simp [hl, ha, hbuf, hclosing ha] at hdetached ⊢
        all_goals exact hdetached
  · simpa [hl] using hlost hl

/-- An `OSError` goes straight to `_force_close`. -/
theorem wp_fatalError_osError {e : Errno} {message : String} (ha : s.attached = true)
    (h : (forceClose (some (.osError e))).wp C Q { s with fatal := true }) :
    (fatalError (.osError e) message).wp C Q s := by
  unfold fatalError reportFatal getDebug
  rw [wp_bind, wp_modify]
  simpa [Exc.isOSError, ha] using h

theorem wp_baseClose (hb : Base s) (hclosing : s.closing = true → Q (.ok ()) s)
    (hclose : s.closing = false → Q (.ok ()) s.closed) : baseClose.wp C Q s := by
  unfold baseClose beginClosing removeReader removeWriter callSoon onLoop
  unfold World.closed at hclose
  cases hc : s.closing with
  | true => simpa [hc] using hclosing hc
  | false =>
      replace hclose := hclose hc
      have hatt := (hb.attached hc).1
      by_cases hbuf : s.buffer = []
      all_goals simp [hc, hatt, hbuf] at hclose ⊢
      all_goals exact hclose

/-! ### Writing -/

theorem wp_sockSend {data : List UInt8} {Q : Except Exc (Option Nat) → World → Prop}
    (hdetached : s.attached = false → Q (.error .attributeError) s)
    (hblock : s.attached = true → Q (.ok none) s)
    (hfail : s.attached = true → ∀ e, C.Answer (.send data.length) (.fail e) s →
      Q (.error (.osError e)) s)
    (htook : s.attached = true → ∀ n, C.Answer (.send data.length) (.done n) s →
      Q (.ok (some (min n data.length))) (s.took (data.take n))) :
    (sockSend data).wp C Q s := by
  unfold sockSend
  rw [wp_bind, wp_get]
  show wp C (if s.attached = true then _ else _) _ s
  split
  · rename_i ha
    rw [wp_bind, wp_query]
    intro a hans
    cases a with
    | wouldBlock => exact hblock ha
    | fail e => exact hfail ha e hans
    | done n => exact htook ha n hans
  · rename_i ha
    exact hdetached (Bool.eq_false_iff.mpr ha)

theorem wp_addWriter (hdetached : s.attached = false → Q (.error .attributeError) s)
    (hfail : s.attached = true → ∀ e, C.Answer (.register false) (.fail e) s →
      Q (.error (.osError e)) s)
    (hwatch : s.attached = true → ∀ a, C.Answer (.register false) a s → a.failed = false →
      Q (.ok ()) s.writing) : addWriter.wp C Q s := by
  unfold addWriter addCallback
  rw [wp_bind, wp_get]
  show wp C (if s.attached = true then _ else _) _ s
  split
  · rename_i ha
    rw [wp_bind, wp_query]
    intro a hans
    cases a with
    | fail e => exact hfail ha e hans
    | done n => exact hwatch ha (.done n) hans rfl
    | wouldBlock => exact hwatch ha .wouldBlock hans rfl
  · rename_i ha
    exact hdetached (Bool.eq_false_iff.mpr ha)

/-- The bytes are dropped, queued behind others, or given to the kernel, which
takes the first `n` of them (none if it would block). -/
theorem wp_write {data : List UInt8}
    (hrejected : s.eof = true ∨ s.emptyWaiter.isSome = true →
      ∀ message, Q (.error (.runtimeError message)) s)
    (hempty : s.eof = false → data = [] → Q (.ok ()) (s.offer data))
    (hlost : s.eof = false → s.connLost ≠ 0 →
      Q (.ok ()) { s.offer data with connLost := s.connLost + 1 })
    (hqueue : s.eof = false → s.connLost = 0 → s.buffer ≠ [] → data ≠ [] →
      (bufferRest data).wp C Q (s.offer data))
    (hdetached : s.eof = false → s.connLost = 0 → s.buffer = [] → s.attached = false →
      (fatalError .attributeError "Fatal write error on socket transport").wp C Q (s.offer data))
    (hfail : s.eof = false → s.connLost = 0 → s.buffer = [] → s.attached = true → data ≠ [] →
      ∀ e, C.Answer (.send data.length) (.fail e) (s.offer data) →
      (fatalError (.osError e) "Fatal write error on socket transport").wp C Q (s.offer data))
    (hall : s.eof = false → s.connLost = 0 → s.buffer = [] → s.attached = true → data ≠ [] →
      ∀ n, data.drop n = [] → Q (.ok ()) ((s.offer data).took (data.take n)))
    (hrest : s.eof = false → s.connLost = 0 → s.buffer = [] → s.attached = true → ∀ n,
      data.drop n ≠ [] → (addWriter >>= fun _ => bufferRest (data.drop n)).wp C Q
        ((s.offer data).took (data.take n))) :
    (write data).wp C Q s := by
  unfold write
  rw [wp_bind, wp_get]
  show wp C (if s.eof = true then _ else _) _ s
  split
  · rename_i heof
    exact hrejected (.inl heof) _
  rename_i heof
  replace heof := Bool.eq_false_iff.mpr heof
  split
  · rename_i hwaiter
    exact hrejected (.inr hwaiter) _
  rw [wp_bind, wp_modify]
  show wp C (if data = [] then _ else _) _ (s.offer data)
  split
  · rename_i hd
    exact hempty heof hd
  rename_i hd
  split
  · rename_i hl
    exact hlost heof hl
  rename_i hl
  replace hl := not_not.mp hl
  split
  · rename_i hbuf
    rw [wp_andThen]
    refine wp_sockSend (hdetached heof hl hbuf) (fun ha => ?_)
      (fun ha => hfail heof hl hbuf ha hd) fun ha n _ => ?_
    · have h := hrest heof hl hbuf ha 0 hd
      rw [List.take_zero, List.drop_zero, World.took, List.append_nil] at h
      exact h
    · have hmin : data.drop (min n data.length) = data.drop n := by
        rw [← List.drop_eq_drop_min]
      show wp C (if data.drop (min n data.length) = [] then _ else _) Q _
      rw [hmin]
      split
      · rename_i hnil
        exact hall heof hl hbuf ha hd n hnil
      · rename_i hsome
        exact hrest heof hl hbuf ha n hsome
  · rename_i hbuf
    exact hqueue heof hl hbuf hd

/-- The leftover of a gathering write is what was not taken, and there is
always enough in the buffer to take from. -/
theorem adjustLeftoverBuffer_flatten (bs : List (List UInt8)) (n : Nat)
    (hn : n ≤ bs.flatten.length) :
    ∃ rest, adjustLeftoverBuffer bs n = some rest ∧ rest.flatten = bs.flatten.drop n := by
  induction bs generalizing n with
  | nil =>
      have hn : n = 0 := by simpa using hn
      exact ⟨[], by rw [hn]; rfl, by simp⟩
  | cons b bs ih =>
      cases n with
      | zero => exact ⟨b :: bs, rfl, by simp⟩
      | succ n =>
          rw [adjustLeftoverBuffer]
          split
          · rename_i hle
            have hrest : n + 1 - b.length ≤ bs.flatten.length := by
              simp only [List.flatten_cons, List.length_append] at hn
              omega
            obtain ⟨rest, heq, hflat⟩ := ih _ hrest
            refine ⟨rest, heq, ?_⟩
            rw [hflat, List.flatten_cons, List.drop_append, List.drop_of_length_le hle,
              List.nil_append]
          · rename_i hlt
            refine ⟨_, rfl, ?_⟩
            simp only [List.flatten_cons]
            rw [List.drop_append_of_le_length (by omega)]

/-- A gathering write of the first `iov` chunks: the kernel takes a part of
what the buffer starts with, and the rest stays. -/
theorem leftover_append (bs : List (List UInt8)) (iov n : Nat) :
    ∃ rest, adjustLeftoverBuffer bs (min n (bs.take iov).flatten.length) = some rest ∧
      (bs.take iov).flatten.take n ++ rest.flatten = bs.flatten := by
  have hsplit : bs.flatten = (bs.take iov).flatten ++ (bs.drop iov).flatten := by
    rw [← List.flatten_append, List.take_append_drop]
  have hlen := congrArg List.length hsplit
  rw [List.length_append] at hlen
  obtain ⟨rest, heq, hflat⟩ :=
    adjustLeftoverBuffer_flatten bs (min n (bs.take iov).flatten.length) (by omega)
  refine ⟨rest, heq, ?_⟩
  have htake : (bs.take iov).flatten.take n =
      bs.flatten.take (min n (bs.take iov).flatten.length) := by
    rw [hsplit, List.take_append_of_le_length (by omega), ← List.take_eq_take_min]
  rw [hflat, htake, List.take_append_drop]

theorem wp_sendBuffer {Q : Except Exc Bool → World → Prop}
    (hdetached : s.attached = false → Q (.error .attributeError) s)
    (hblock : s.attached = true → Q (.ok false) s)
    (hfail : s.attached = true → ∀ e, C.Answer (.send s.gathered.length) (.fail e) s →
      Q (.error (.osError e)) s)
    (htook : s.attached = true → ∀ n rest, C.Answer (.send s.gathered.length) (.done n) s →
      adjustLeftoverBuffer s.buffer (min n s.gathered.length) = some rest →
      s.gathered.take n ++ rest.flatten = s.buffer.flatten →
      Q (.ok true) { s.took (s.gathered.take n) with buffer := rest }) :
    sendBuffer.wp C Q s := by
  unfold sendBuffer
  rw [wp_bind, wp_get]
  show wp C (sockSend s.gathered >>= _) Q s
  rw [wp_bind]
  refine wp_sockSend hdetached hblock hfail fun ha n hans => ?_
  obtain ⟨rest, heq, hflat⟩ := leftover_append s.buffer s.iovMax n
  rw [show (s.buffer.take s.iovMax).flatten = s.gathered from rfl] at heq hflat
  show wp C (get >>= _) Q _
  rw [wp_bind, wp_get]
  dsimp only
  rw [show adjustLeftoverBuffer (s.took (s.gathered.take n)).buffer
    (min n s.gathered.length) = some rest from heq]
  exact htook ha n rest hans heq hflat

/-- What is known when a call of the flow control is through: it has come
back, or it raised what transports pass on, or there is no loop any more. -/
structure FlowControlled (C : Contract World UserCall Nat Exc Query Reply) (e : UserCall)
    (message : String) (Good Bad : World → Prop) : Prop where
  ret : ∀ {t a}, C.Ret e (.ok a) t → Good t
  handler : ∀ {t exc r}, C.Ret (.exceptionHandler message exc) r t → Good t
  exit : ∀ {t x}, x.exits = true → C.Ret e (.error x) t → Bad t
  detached : ∀ {t : World}, t.attached = false → Bad t

theorem wp_flowControl (hS : Sidelined C) {e : UserCall} {message : String}
    {Good Bad : World → Prop} (hf : FlowControlled C e message Good Bad) (hs : C.Inv s) :
    (flowControl e message).wp C (fun r t => (C.Inv t ∧ C.Rely s t) ∧
      match r with
      | .ok _ => Good t
      | .error _ => Bad t) s := by
  have hreport : ∀ exc t, C.Inv t → C.Rely s t → (exc.exits = true → Bad t) →
      (if exc.exits then raise exc else callExceptionHandler message exc : Meth Unit).wp C
        (fun r t => (C.Inv t ∧ C.Rely s t) ∧
          match r with
          | .ok _ => Good t
          | .error _ => Bad t) t := by
    intro exc t ht htr hbad
    split
    · rename_i hx
      exact ⟨⟨ht, htr⟩, hbad hx⟩
    unfold callExceptionHandler
    rw [wp_bind, wp_get]
    show wp C (if t.attached = true then _ else _) _ t
    split
    · rw [wp_tryCatch, wp_discard]
      obtain ⟨hl, hlr⟩ := hS.aside ht (Aside.logged t (.exceptionHandler message exc))
      refine ⟨hl, fun u r hu hur hret => ?_⟩
      have hgood : (C.Inv u ∧ C.Rely s u) ∧ Good u :=
        ⟨⟨hu, C.trans htr (C.trans hlr hur)⟩, hf.handler hret⟩
      cases r with
      | ok a => exact hgood
      | error x => exact hgood
    · rename_i ha
      exact ⟨⟨ht, htr⟩, hf.detached (Bool.eq_false_iff.mpr ha)⟩
  unfold flowControl
  rw [wp_tryCatch, wp_bind, wp_get]
  show wp C (if s.protocol.isSome = true then _ else _) _ s
  split
  · obtain ⟨hl, hlr⟩ := hS.aside hs (Aside.logged s e)
    rw [wp_discard]
    refine ⟨hl, fun t r ht htr hr => ?_⟩
    cases r with
    | ok a => exact ⟨⟨ht, C.trans hlr htr⟩, hf.ret hr⟩
    | error x => exact hreport x t ht (C.trans hlr htr) fun hx => hf.exit hx hr
  · exact hreport _ s hs (C.refl s) fun hx => by cases hx

theorem wp_maybeResumeProtocol (hS : Sidelined C) {Good Bad : World → Prop}
    (hf : FlowControlled C .resumeWriting "protocol.resume_writing() failed" Good Bad)
    (hs : C.Inv s) (hgood : Good s) :
    maybeResumeProtocol.wp C (fun r t => (C.Inv t ∧ C.Rely s t) ∧
      match r with
      | .ok _ => Good t
      | .error _ => Bad t) s := by
  unfold maybeResumeProtocol
  rw [wp_bind, wp_get]
  show wp C (if s.protocolPaused = true ∧ s.getWriteBufferSize ≤ s.lowWater then _ else _) _ s
  split
  · have hresumed : Aside s { s with protocolPaused := false } := { Aside.refl s with }
    obtain ⟨ht, htr⟩ := hS.aside hs hresumed
    rw [wp_bind, wp_modify]
    refine wp_mono C ?_ (wp_flowControl hS hf ht)
    exact fun r u hu => ⟨⟨hu.1.1, C.trans htr hu.1.2⟩, hu.2⟩
  · exact ⟨⟨hs, C.refl s⟩, hgood⟩

/-- After a send that went through: with an empty buffer the writer goes, and a
transport that was only waiting for this is torn down or half-closed. -/
theorem wp_afterSend {R : Except Exc Unit → World → Prop} (hresume : maybeResumeProtocol.wp C R s)
    (herror : ∀ e t, R (.error e) t → Q (.error e) t)
    (hmore : ∀ t, R (.ok ()) t → t.buffer ≠ [] → Q (.ok ()) t)
    (hdetached : ∀ t, R (.ok ()) t → t.buffer = [] → t.attached = false →
      Q (.error .attributeError) t)
    (hwaited : ∀ t, R (.ok ()) t → t.buffer = [] → t.attached = true →
      t.emptyWaiter = some .done → Q (.error .invalidState) { t with writer := none })
    (hteardown : ∀ t w, R (.ok ()) t → t.buffer = [] → t.attached = true → t.closing = true →
      t.Completes w →
      (callConnectionLost none).wp C Q { t with writer := none, emptyWaiter := w })
    (hshutdown : ∀ t w, R (.ok ()) t → t.buffer = [] → t.attached = true → t.closing = false →
      t.eof = true → t.Completes w → Q (.ok ())
        { t with writer := none, emptyWaiter := w, shutdownWr := true
                 shutdowns := t.shutdowns ++ [(t.sent, t.offered)] })
    (hidle : ∀ t w, R (.ok ()) t → t.buffer = [] → t.attached = true → t.closing = false →
      t.Completes w → Q (.ok ()) { t with writer := none, emptyWaiter := w }) :
    afterSend.wp C Q s := by
  unfold afterSend
  rw [wp_bind]
  refine wp_mono C ?_ hresume
  intro r t hr
  cases r with
  | error e => exact herror e t hr
  | ok a =>
      show wp C (get >>= _) Q t
      rw [wp_bind, wp_get]
      show wp C (if t.buffer = [] then _ else _) Q t
      split
      · rename_i hbuf
        unfold removeWriter
        rw [wp_bind, wp_onLoop]
        refine ⟨fun ha => ?_, hdetached t hr hbuf⟩
        have hgo : ∀ w, t.Completes w → wp C (do
            let s ← get
            if s.closing then callConnectionLost none
            else if s.eof then shutdownWrite
            else pure ()) Q { t with writer := none, emptyWaiter := w } := by
          intro w hw
          rw [wp_bind, wp_get]
          show wp C (if t.closing = true then _ else _) Q _
          split
          · rename_i hc
            exact hteardown t w hr hbuf ha hc hw
          rename_i hc
          replace hc := Bool.eq_false_iff.mpr hc
          split
          · rename_i heof
            unfold shutdownWrite
            rw [wp_onLoop]
            refine ⟨fun _ => hshutdown t w hr hbuf ha hc heof hw, fun hno => ?_⟩
            rw [ha] at hno
            cases hno
          · exact hidle t w hr hbuf ha hc hw
        show wp C (resolveEmptyWaiter >>= _) Q _
        unfold resolveEmptyWaiter
        rw [wp_bind, wp_bind, wp_get]
        dsimp only
        cases hw : t.emptyWaiter with
        | none => exact hgo none ⟨by simp [hw], by rw [hw]; rfl⟩
        | some w =>
            cases w with
            | pending => exact hgo (some .done) ⟨by simp [hw], by rw [hw]; rfl⟩
            | done =>
                have h := hwaited t hr hbuf ha hw
                rw [hw] at h
                exact h
      · rename_i hbuf
        exact hmore t hr hbuf

/-- The writer callback: `sendmsg` and what follows its outcome. -/
theorem wp_writeSendmsg
    (hempty : s.buffer = [] → Q (.error .assertionError) s)
    (hlost : s.connLost ≠ 0 → Q (.ok ()) s)
    (hdetached : s.buffer ≠ [] → s.connLost = 0 → s.attached = false →
      Q (.error .attributeError) s)
    (hblock : s.buffer ≠ [] → s.connLost = 0 → s.attached = true → Q (.ok ()) s)
    (hfail : s.buffer ≠ [] → s.connLost = 0 → s.attached = true → ∀ e,
      C.Answer (.send s.gathered.length) (.fail e) s →
      (fatalError (.osError e) "Fatal write error on socket transport" >>= fun _ =>
        resolveEmptyWaiter).wp C Q { s with writer := none, buffer := [] })
    (htook : s.buffer ≠ [] → s.connLost = 0 → s.attached = true → ∀ n rest,
      C.Answer (.send s.gathered.length) (.done n) s →
      adjustLeftoverBuffer s.buffer (min n s.gathered.length) = some rest →
      s.gathered.take n ++ rest.flatten = s.buffer.flatten →
      afterSend.wp C Q { s.took (s.gathered.take n) with buffer := rest }) :
    writeSendmsg.wp C Q s := by
  unfold writeSendmsg
  rw [wp_bind, wp_get]
  show wp C (if s.buffer = [] then _ else _) Q s
  split
  · rename_i hbuf
    exact hempty hbuf
  rename_i hbuf
  split
  · rename_i hl
    exact hlost hl
  rename_i hl
  replace hl := not_not.mp hl
  rw [wp_andThen]
  refine wp_sendBuffer (fun ha => ?_) (hblock hbuf hl) (fun ha e hans => ?_)
    (htook hbuf hl)
  · show wp C (removeWriter >>= _) Q s
    unfold removeWriter onLoop
    simpa [ha] using hdetached hbuf hl ha
  · show wp C (removeWriter >>= _) Q s
    have h := hfail hbuf hl ha e hans
    rw [wp_bind]
    unfold removeWriter
    rw [wp_onLoop]
    refine ⟨fun _ => h, fun hno => ?_⟩
    rw [ha] at hno
    cases hno

/-- `writelines` is `_write_sendmsg` on a longer buffer, and the registration
of the writer if that leaves something. -/
theorem wp_writelines {lines : List (List UInt8)}
    (hrejected : ∀ message, Q (.error (.runtimeError message)) s)
    (hempty : lines = [] → Q (.ok ()) s)
    (hlost : s.eof = false → s.connLost ≠ 0 →
      Q (.ok ()) { s.offer lines.flatten with connLost := s.connLost + 1 })
    (hdetached : s.connLost = 0 → s.attached = false →
      Q (.error .typeError) { s with buffer := s.buffer ++ lines })
    (hsend : s.eof = false → s.connLost = 0 → s.attached = true → lines ≠ [] →
      writeSendmsg.wp C (fun r t =>
        match r with
        | .ok _ =>
            if t.buffer = [] then Q (.ok ()) t
            else (addWriter >>= fun _ => maybePauseProtocol).wp C Q t
        | .error e => Q (.error e) t) { s.offer lines.flatten with buffer := s.buffer ++ lines }) :
    (writelines lines).wp C Q s := by
  unfold writelines
  rw [wp_bind, wp_get]
  show wp C (if s.eof = true then _ else _) _ s
  split
  · exact hrejected _
  rename_i heof
  replace heof := Bool.eq_false_iff.mpr heof
  split
  · exact hrejected _
  split
  · rename_i hlines
    exact hempty hlines
  rename_i hlines
  split
  · rename_i hl
    exact hlost heof hl
  rename_i hl
  replace hl := not_not.mp hl
  cases ha : s.attached with
  | false => exact hdetached hl ha
  | true =>
      show wp C (Prog.modify _ >>= _) Q s
      rw [wp_bind, wp_modify]
      show wp C (writeSendmsg >>= _) Q { s.offer lines.flatten with buffer := s.buffer ++ lines }
      rw [wp_bind]
      refine wp_mono C ?_ (hsend heof hl ha hlines)
      intro r t ht
      cases r with
      | error e => exact ht
      | ok a =>
          show wp C (get >>= _) Q t
          rw [wp_bind, wp_get]
          show wp C (if t.buffer = [] then _ else _) Q t
          split
          · rename_i hbuf
            simpa [hbuf] using ht
          · rename_i hbuf
            simpa only [hbuf, if_false] using ht

end

end Tokioop.Transport
