import Tokioop.Transport.Apart

/-!
What the other end of the connection sees of a transport.

The bytes that have come in, read or not; the bytes that have gone out; and
whether more can follow. `Onward` says how a step of the code can change
these: what has come in stays, what goes out grows at its end, and nothing
goes out once the socket is closed. Every update that the methods make is
such a step, at whatever moment the other end looks.
-/

namespace Tokioop.Transport

open Fd Kit Kit.Prog

namespace World

/-- The bytes that have reached the socket, read or not. -/
def received (s : World) : List UInt8 := s.read ++ s.kernel.stream

/-- The socket is shut down for writing or closed. -/
def HungUp (s : World) : Prop := s.shutdownWr = true ∨ s.attached = false

instance (s : World) : Decidable s.HungUp := inferInstanceAs (Decidable (_ ∨ _))

end World

/-- What the code can do to what the other end sees. -/
structure Onward (s t : World) : Prop where
  received : t.received = s.received
  fin : t.kernel.fin = s.kernel.fin
  sent : s.sent <+: t.sent
  detached : s.attached = false → t.attached = false ∧ t.sent = s.sent
  shutdowns : ∃ new, t.shutdowns = s.shutdowns ++ new ∧ ∀ p ∈ new, p.1 = t.sent
  shutdownWr : t.shutdownWr = true → s.shutdownWr = true ∨ t.shutdowns ≠ []

/-- A step that the other end does not see. -/
structure Still (s t : World) : Prop where
  read : t.read = s.read
  kernel : t.kernel = s.kernel
  sent : t.sent = s.sent
  attached : t.attached = s.attached
  shutdowns : t.shutdowns = s.shutdowns
  shutdownWr : t.shutdownWr = s.shutdownWr

theorem Still.refl (s : World) : Still s s := ⟨rfl, rfl, rfl, rfl, rfl, rfl⟩

theorem Still.onward {s t : World} (h : Still s t) : Onward s t := by
  refine ⟨?_, ?_, ?_, fun ha => ⟨h.attached.trans ha, h.sent⟩, ⟨[], ?_, ?_⟩, ?_⟩
  · rw [World.received, World.received, h.read, h.kernel]
  · rw [h.kernel]
  · exact h.sent ▸ List.prefix_refl _
  · rw [h.shutdowns, List.append_nil]
  · exact fun p hp => by cases hp
  · rw [h.shutdownWr]
    exact .inl

/-- The updates of the method are of this kind. -/
abbrev Advances {α : Type} (p : Meth α) : Prop := Guarantees Onward p

theorem advances_modify {f : World → World} (h : ∀ s, Still s (f s)) : Advances (modify f) :=
  guarantees_modify fun s => (h s).onward

theorem advances_onLoop {f : World → World} (h : ∀ s, Onward s (f s)) : Advances (onLoop f) :=
  guarantees_bind guarantees_get fun _ =>
    guarantees_ite (guarantees_modify h) (guarantees_done _)

theorem advances_aside {f : World → World} (h : ∀ s, Still s (f s)) : Advances (onLoop f) :=
  advances_onLoop fun s => (h s).onward

/-! ### Reading and closing -/

theorem advances_removeReader : Advances removeReader :=
  advances_aside fun s => { Still.refl s with }

theorem advances_removeWriter : Advances removeWriter :=
  advances_aside fun s => { Still.refl s with }

theorem advances_callSoon (j : Job) : Advances (callSoon j) :=
  advances_aside fun s => { Still.refl s with }

theorem advances_beginClosing : Advances beginClosing :=
  guarantees_bind guarantees_get fun _ => guarantees_ite (guarantees_done _) <|
    guarantees_bind (advances_modify fun s => { Still.refl s with }) fun _ => advances_removeReader

theorem advances_forceClose (exc : Option Exc) : Advances (forceClose exc) := by
  have hdrop : Advances dropBuffer :=
    guarantees_bind guarantees_get fun _ => guarantees_ite
      (guarantees_bind (advances_modify fun s => { Still.refl s with }) fun _ =>
        advances_removeWriter) (guarantees_done _)
  refine guarantees_bind guarantees_get fun _ => guarantees_ite (guarantees_done _) ?_
  refine guarantees_bind hdrop fun _ => guarantees_bind advances_beginClosing fun _ => ?_
  exact guarantees_bind (advances_modify fun s => { Still.refl s with }) fun _ =>
    advances_callSoon _

theorem advances_baseClose : Advances baseClose := by
  refine guarantees_bind guarantees_get fun _ => guarantees_ite (guarantees_done _) ?_
  refine guarantees_bind advances_beginClosing fun _ => guarantees_bind guarantees_get fun _ =>
    guarantees_ite ?_ (guarantees_done _)
  exact guarantees_bind (advances_modify fun s => { Still.refl s with }) fun _ =>
    guarantees_bind advances_removeWriter fun _ => advances_callSoon _

/-- Bytes at the front of the stream are read. -/
theorem onward_read {s : World} {data : List UInt8} {sock : Socket}
    (hdata : data ++ sock.stream = s.kernel.stream) (hfin : sock.fin = s.kernel.fin) :
    Onward s { s with kernel := sock, read := s.read ++ data } := by
  refine ⟨?_, hfin, List.prefix_refl _, fun ha => ⟨ha, rfl⟩,
    ⟨[], (List.append_nil _).symm, fun p hp => by cases hp⟩, .inl⟩
  show (s.read ++ data) ++ sock.stream = s.read ++ s.kernel.stream
  rw [List.append_assoc, hdata]

theorem advances_sockRecv (size : Nat) : Advances (sockRecv size) := by
  intro s
  show guards Onward (if s.attached = true then _ else _) s
  split
  · intro a
    cases a with
    | wouldBlock => trivial
    | fail e => trivial
    | done n =>
        refine ⟨?_, trivial⟩
        unfold Socket.tcpRecv
        split
        · exact onward_read (List.nil_append _) rfl
        split
        · split
          · exact onward_read (List.nil_append _) rfl
          · exact onward_read (List.nil_append _) rfl
        · exact onward_read (List.take_append_drop _ _) rfl
  · trivial

/-- Nor does it see steps apart. -/
theorem Apart.still {s t : World} (h : Apart s t) : Still s t :=
  ⟨h.read, h.kernel, h.sent, h.attached, h.shutdowns, h.shutdownWr⟩

/-- So the read side makes onward steps. -/
theorem abides_onward : Abides fun _ p => Advances p where
  toCompositional := compositional_guarantees Onward
  apart h := advances_modify fun s => (h s).still
  sockRecv := advances_sockRecv
  forceClose := advances_forceClose
  baseClose := advances_baseClose

/-- The socket is closed; nothing has gone out with that. -/
theorem onward_detach (s : World) : Onward s { s with attached := false, protocol := none } :=
  ⟨rfl, rfl, List.prefix_refl _, fun _ => ⟨rfl, rfl⟩,
    ⟨[], (List.append_nil _).symm, fun p hp => by cases hp⟩, .inl⟩

theorem advances_callConnectionLost (exc : Option Exc) : Advances (callConnectionLost exc) := by
  have hbase : Advances (baseCallConnectionLost exc) := by
    refine guarantees_tryFinally ?_ (advances_onLoop onward_detach)
    refine guarantees_bind guarantees_get fun _ => guarantees_ite ?_ (guarantees_done _)
    exact guarantees_ite (guarantees_discard (abides_onward.invoke rfl)) (guarantees_done _)
  exact guarantees_bind (advances_modify fun s => { Still.refl s with }) fun _ =>
    guarantees_tryFinally hbase abides_onward.resolveEmptyWaiter

/-! ### Writing -/

theorem advances_invoke (e : UserCall) : Advances (invoke e) :=
  guarantees_bind (advances_modify fun s => { Still.refl s with }) fun _ => guarantees_callback e

theorem advances_flowControl (e : UserCall) (message : String) : Advances (flowControl e message) :=
  guarantees_tryCatch
    (guarantees_bind guarantees_get fun _ =>
      guarantees_ite (guarantees_discard (advances_invoke e)) (guarantees_done _))
    fun exc => guarantees_ite (guarantees_done _) (abides_onward.callExceptionHandler message exc)

theorem advances_maybePauseProtocol : Advances maybePauseProtocol :=
  guarantees_bind guarantees_get fun _ => guarantees_ite (guarantees_done _) <|
    guarantees_bind (advances_modify fun s => { Still.refl s with }) fun _ =>
      advances_flowControl _ _

theorem advances_maybeResumeProtocol : Advances maybeResumeProtocol :=
  guarantees_bind guarantees_get fun _ => guarantees_ite
    (guarantees_bind (advances_modify fun s => { Still.refl s with }) fun _ =>
      advances_flowControl _ _) (guarantees_done _)

theorem advances_setWriteBufferLimits (high low : Option Nat) :
    Advances (setWriteBufferLimits high low) :=
  guarantees_ite (guarantees_done _) <|
    guarantees_bind (advances_modify fun s => { Still.refl s with }) fun _ =>
      advances_maybePauseProtocol

/-- The kernel takes bytes from a socket that is open. -/
theorem onward_send {s : World} (ha : s.attached = true) (data : List UInt8) :
    Onward s { s with sent := s.sent ++ data } := by
  refine ⟨rfl, rfl, List.prefix_append _ _, fun hno => ?_,
    ⟨[], (List.append_nil _).symm, fun p hp => by cases hp⟩, .inl⟩
  rw [ha] at hno
  cases hno

theorem advances_sockSend (data : List UInt8) : Advances (sockSend data) := by
  intro s
  show guards Onward (if s.attached = true then _ else _) s
  split
  · rename_i ha
    intro a
    cases a with
    | wouldBlock => trivial
    | fail e => trivial
    | done n => exact ⟨onward_send ha _, trivial⟩
  · trivial

theorem advances_bufferRest (data : List UInt8) : Advances (bufferRest data) :=
  guarantees_bind (advances_modify fun s => { Still.refl s with }) fun _ =>
    advances_maybePauseProtocol

theorem advances_write (data : List UInt8) : Advances (write data) := by
  have hrest : ∀ rest, Advances (addWriter >>= fun _ => bufferRest rest) := fun rest =>
    guarantees_bind abides_onward.addWriter fun _ => advances_bufferRest rest
  refine guarantees_bind guarantees_get fun s => guarantees_ite (guarantees_done _) ?_
  refine guarantees_ite (guarantees_done _) ?_
  refine guarantees_bind (advances_modify fun s => { Still.refl s with }) fun _ => ?_
  refine guarantees_ite (guarantees_done _) (guarantees_ite ?_ (guarantees_ite ?_ ?_))
  · exact advances_modify fun s => { Still.refl s with }
  · refine guarantees_andThen (advances_sockSend data) (abides_onward.orFatal _ fun r => ?_)
    cases r with
    | none => exact hrest data
    | some n => exact guarantees_ite (guarantees_done _) (hrest _)
  · exact advances_bufferRest data

theorem advances_sendBuffer : Advances sendBuffer := by
  refine guarantees_bind guarantees_get fun s => guarantees_bind (advances_sockSend _) fun r => ?_
  cases r with
  | none => exact guarantees_done _
  | some n =>
      refine guarantees_bind guarantees_get fun t => ?_
      split
      · exact guarantees_done _
      · exact guarantees_bind (advances_modify fun s => { Still.refl s with }) fun _ =>
          guarantees_done _

theorem advances_shutdownWrite : Advances shutdownWrite := by
  refine advances_onLoop fun s => ⟨rfl, rfl, List.prefix_refl _, fun ha => ⟨ha, rfl⟩,
    ⟨[(s.sent, s.offered)], rfl, ?_⟩, fun _ => .inr (by simp)⟩
  exact fun p hp => congrArg Prod.fst (List.mem_singleton.mp hp)

theorem advances_afterSend : Advances afterSend :=
  guarantees_bind advances_maybeResumeProtocol fun _ => guarantees_bind guarantees_get fun _ =>
    guarantees_ite
      (guarantees_bind advances_removeWriter fun _ =>
        guarantees_bind abides_onward.resolveEmptyWaiter fun _ =>
          guarantees_bind guarantees_get fun _ => guarantees_ite (advances_callConnectionLost none)
            (guarantees_ite advances_shutdownWrite (guarantees_done _)))
      (guarantees_done _)

theorem advances_writeSendmsg : Advances writeSendmsg := by
  refine guarantees_bind guarantees_get fun s => guarantees_ite (guarantees_done _) ?_
  refine guarantees_ite (guarantees_done _) (guarantees_andThen advances_sendBuffer fun r => ?_)
  rcases r with exc | more
  · refine guarantees_ite (guarantees_done _) (guarantees_bind advances_removeWriter fun _ => ?_)
    exact guarantees_bind (advances_modify fun s => { Still.refl s with }) fun _ =>
      guarantees_bind (abides_onward.fatalError _ _) fun _ => abides_onward.resolveEmptyWaiter
  · cases more with
    | true => exact advances_afterSend
    | false => exact guarantees_done _

theorem advances_writeEof : Advances writeEof :=
  guarantees_bind guarantees_get fun _ => guarantees_ite (guarantees_done _) <|
    guarantees_bind (advances_modify fun s => { Still.refl s with }) fun _ =>
      guarantees_ite advances_shutdownWrite (guarantees_done _)

theorem advances_writelines (lines : List (List UInt8)) : Advances (writelines lines) := by
  refine guarantees_bind guarantees_get fun s => guarantees_ite (guarantees_done _) ?_
  refine guarantees_ite (guarantees_done _) (guarantees_ite (guarantees_done _) ?_)
  refine guarantees_ite (advances_modify fun s => { Still.refl s with })
    (guarantees_ite ?_ ?_)
  · exact guarantees_bind (advances_modify fun s => { Still.refl s with }) fun _ =>
      guarantees_done _
  · refine guarantees_bind (advances_modify fun s => { Still.refl s with }) fun _ => ?_
    refine guarantees_bind advances_writeSendmsg fun _ => guarantees_bind guarantees_get fun _ => ?_
    exact guarantees_ite (guarantees_done _)
      (guarantees_bind abides_onward.addWriter fun _ => advances_maybePauseProtocol)

/-! ### What the loop calls -/

theorem advances_popReady : Advances popReady := by
  refine guarantees_bind guarantees_get fun s => ?_
  split
  · exact guarantees_done _
  · rename_i j rest _
    refine guarantees_bind (advances_modify fun s => { Still.refl s with }) fun _ => ?_
    refine guarantees_tryCatch ?_ abides_onward.reportCallbackError
    cases j with
    | connectionMade => exact guarantees_discard (advances_invoke _)
    | registerReader => exact abides_onward.registerReader
    | callConnectionLost exc => exact advances_callConnectionLost exc

/-- Whatever method is called, its updates are onward steps. -/
theorem advances_body (m : Method) : Advances (transport.body m) := by
  cases m with
  | pauseReading => exact abides_onward.pauseReading
  | resumeReading => exact abides_onward.resumeReading
  | registerReader => exact abides_onward.registerReader
  | setProtocol kind => exact abides_onward.setProtocol kind
  | close => exact abides_onward.close
  | abort => exact advances_forceClose none
  | write data => exact advances_write data
  | writelines lines => exact advances_writelines lines
  | writeEof => exact advances_writeEof
  | setWriteBufferLimits high low => exact advances_setWriteBufferLimits high low
  | makeEmptyWaiter => exact abides_onward.makeEmptyWaiter
  | resetEmptyWaiter => exact abides_onward.resetEmptyWaiter
  | popReady => exact advances_popReady
  | popIo => exact abides_onward.popIo advances_writeSendmsg

end Tokioop.Transport
