import Tokioop.Transport.Firing
import Tokioop.Transport.Torn
import Tokioop.Transport.Watched

/-!
Writes whose watcher cannot be registered.

Registering a writer duplicates the descriptor, and that can fail. `write` has
then sent a part of its data already, and drops the rest; `writelines` has put
its lines into the buffer already, and nothing sends them. Both are harmless
when the kernel had taken nothing yet, or when there is a writer anyway. A
`Booked` transport keeps a book of the calls that were made, and a book is
`Gapless` with the bytes that went out or are buffered if these are made of
whole arguments.
-/

namespace Tokioop.Transport

open Fd Kit Kit.Prog

/-! ### Calls and their book -/

/-- What a call meets outside: the answers to its send and to its
registration of a writer, and what callbacks return. -/
structure Answers where
  send : Reply
  register : Reply
  ret : UserCall → World → Except Exc Nat

def Answers.oracle (A : Answers) : Oracle World UserCall Nat Exc Query Reply where
  ret := A.ret
  answer q _ := match q with
    | .register _ => A.register
    | .recv | .send _ => A.send

@[simp] theorem Answers.oracle_register (A : Answers) (read : Bool) (s : World) :
    A.oracle.answer (.register read) s = A.register := rfl

@[simp] theorem Answers.oracle_send (A : Answers) (n : Nat) (s : World) :
    A.oracle.answer (.send n) s = A.send := rfl

inductive WriteAct
  | write (data : List UInt8)
  | writelines (lines : List (List UInt8))
  -- The registered writer fires.
  | fire

/-- A transport, and for each call its data and whether it returned, the last
call first. -/
structure Booked where
  state : World
  history : List (List UInt8 × Bool)

namespace Booked

def after (b : Booked) (data : List UInt8) (m : Meth Unit) (A : Answers) : Option Booked :=
  (m.exec A.oracle b.state).map fun o => ⟨o.2, (data, o.1.isOk) :: b.history⟩

def step (b : Booked) : WriteAct × Answers → Option Booked
  | (.write data, A) => b.after data (Transport.write data) A
  | (.writelines lines, A) => b.after lines.flatten (Transport.writelines lines) A
  | (.fire, A) => some { b with state := b.state.fireBy writeSendmsg A.oracle }

/-- A registration fails in `write` only when the kernel has taken nothing, and
in `writelines` only when there is a writer, unless nothing is left to send. -/
def harmless (b : Booked) : WriteAct × Answers → Prop
  | (.write data, A) => A.register.failed = true → b.state.buffer = [] →
      ∀ n, A.send = .done n → n = 0 ∨ data.length ≤ n
  | (.writelines lines, A) => A.register.failed = true → b.state.writer.isSome = true ∨
      ∃ n, A.send = .done n ∧
        adjustLeftoverBuffer lines (min n (lines.take b.state.iovMax).flatten.length) = some []
  | (.fire, _) => True

end Booked

/-- The bytes are made of whole arguments: all of a call that returned, and all
or nothing of one that raised. -/
inductive Gapless : List (List UInt8 × Bool) → List UInt8 → Prop
  | nil : Gapless [] []
  | whole {history : List (List UInt8 × Bool)} {out : List UInt8} (data : List UInt8)
      (returned : Bool) (h : Gapless history out) :
      Gapless ((data, returned) :: history) (out ++ data)
  | nothing {history : List (List UInt8 × Bool)} {out : List UInt8} (data : List UInt8)
      (h : Gapless history out) : Gapless ((data, false) :: history) out

/-! ### An open transport -/

/-- What the kernel has taken and what it is to take. -/
def World.outgoing (s : World) : List UInt8 := s.sent ++ s.buffer.flatten

/-- Nothing keeps a write from being made. -/
structure Writable (s : World) : Prop where
  attached : s.attached = true
  closing : s.closing = false
  connLost : s.connLost = 0
  eof : s.eof = false
  waiter : s.emptyWaiter = none

/-- What is buffered has a writer, and the protocol is paused only while
something is buffered. -/
structure Tended (s : World) : Prop extends Writable s where
  watched : s.Watched
  paused : s.protocolPaused = true → s.buffer ≠ []

/-- A call with `data` has ended with `r`. -/
def Wrote (s : World) (data : List UInt8) (r : Except Exc Unit) (t : World) : Prop :=
  t.closing = true ∨ Tended t ∧
    (t.outgoing = s.outgoing ++ data ∨ r.isOk = false ∧ t.outgoing = s.outgoing)

section Exec

variable {O : Oracle World UserCall Nat Exc Query Reply} {s t v : World}

theorem Writable.told (h : Writable v) (htold : Told v t) : Writable t := by
  rw [htold.eq]
  exact ⟨h.attached, h.closing, h.connLost, h.eof, h.waiter⟩

theorem Tended.of_busy (h : Writable s) (hb : s.buffer ≠ []) (hw : s.writer.isSome = true) :
    Tended s := ⟨h, fun _ => hw, fun _ => hb⟩

/-- After a call of the flow control with a writer in place. -/
theorem Tended.of_told (h : Writable v) (htold : Told v t) (hb : v.buffer ≠ [])
    (hw : v.writer.isSome = true) : Tended t ∧ t.outgoing = v.outgoing := by
  have ht := h.told htold
  rw [htold.eq] at ht ⊢
  exact ⟨.of_busy ht hb hw, rfl⟩

theorem exec_bufferRest (h : Writable s) (hw : s.writer.isSome = true) (data : List UInt8) :
    ∃ r t, (bufferRest data).exec O s = some (r, t) ∧ Tended t ∧
      t.outgoing = s.outgoing ++ data := by
  obtain ⟨r, t, ht, htold⟩ := exec_maybePauseProtocol (O := O)
    (s := { s with buffer := s.buffer ++ [data] }) h.attached
  obtain ⟨htended, hout⟩ := Tended.of_told
    (v := { s with buffer := s.buffer ++ [data] })
    ⟨h.attached, h.closing, h.connLost, h.eof, h.waiter⟩ htold (by simp) hw
  refine ⟨r, t, ?_, htended, ?_⟩
  · simp [bufferRest, ht]
  · rw [hout]
    simp [World.outgoing]

theorem exec_addWriter (h : Writable s) :
    addWriter.exec O s = match O.answer (.register false) s with
      | .fail e => some (.error (.osError e), s)
      | _ => some (.ok (), s.writing) := by
  cases hr : O.answer (.register false) s <;>
    simp [addWriter, addCallback, h.attached, hr, World.writing]

end Exec

/-! ### One call -/

section Call

variable {A : Answers} {s : World}

/-- Register a writer and buffer what the kernel did not take. -/
theorem exec_register_rest (h : Writable s) (data : List UInt8) :
    ∃ r t, (addWriter >>= fun _ => bufferRest data).exec A.oracle s = some (r, t) ∧
      if A.register.failed then r.isOk = false ∧ t = s
      else Tended t ∧ t.outgoing = s.outgoing ++ data := by
  have hadd := exec_addWriter (O := A.oracle) h
  cases hr : A.register with
  | fail e =>
      refine ⟨.error (.osError e), s, ?_, rfl, rfl⟩
      simp [hadd, hr]
  | done _ | wouldBlock =>
      obtain ⟨r, t, ht, hkept⟩ := exec_bufferRest (O := A.oracle) (s := s.writing)
        ⟨h.attached, h.closing, h.connLost, h.eof, h.waiter⟩ rfl data
      refine ⟨r, t, ?_, hkept⟩
      simpa [hadd, hr] using ht

/-- What `write` does with what the kernel did not take. -/
def keepRest (data : List UInt8) : Option Nat → Meth Unit
  | none => do
      addWriter
      bufferRest data
  | some n =>
      if data.drop n = [] then pure ()
      else do
        addWriter
        bufferRest (data.drop n)

theorem exec_write (h : Writable s) {data : List UInt8} (hdata : data ≠ []) :
    (write data).exec A.oracle s = (if s.buffer = [] then
      (sockSend data).andThen (orFatal "Fatal write error on socket transport" (keepRest data))
    else bufferRest data).exec A.oracle (s.offer data) := by
  have heof : ¬s.eof = true := by simp [h.eof]
  have hwaiter : ¬s.emptyWaiter.isSome = true := by simp [h.waiter]
  have hlost : ¬s.connLost ≠ 0 := by simp [h.connLost]
  simp only [write, exec_bind, exec_get, exec_modify, Option.bind_some, if_neg heof,
    if_neg hwaiter, if_neg hdata, if_neg hlost]
  rfl

theorem Tended.took (h : Tended s) (data d : List UInt8) : Tended ((s.offer data).took d) :=
  ⟨⟨h.attached, h.closing, h.connLost, h.eof, h.waiter⟩, h.watched, h.paused⟩

/-- The kernel took the first `n` bytes, and the rest waits for a writer: with
no writer it is the call that has not been made, if `n` is zero. -/
theorem wrote_rest (A : Answers) (data : List UInt8) (n : Nat) (h : Tended s) (hb : s.buffer = [])
    (hharmless : A.register.failed = true → n = 0) :
    ∃ r t, (addWriter >>= fun _ => bufferRest (data.drop n)).exec A.oracle
        ((s.offer data).took (data.take n)) = some (r, t) ∧ Wrote s data r t := by
  have hout : ((s.offer data).took (data.take n)).outgoing = s.outgoing ++ data.take n := by
    simp [World.outgoing, World.offer, World.took, hb]
  obtain ⟨r, t, ht, hkept⟩ := exec_register_rest (A := A) (h.took data (data.take n)).toWritable
    (data.drop n)
  refine ⟨r, t, ht, .inr ?_⟩
  split at hkept
  · rename_i hfailed
    obtain ⟨hr, rfl⟩ := hkept
    refine ⟨h.took data _, .inr ⟨hr, ?_⟩⟩
    rw [hout, hharmless hfailed, List.take_zero, List.append_nil]
  · refine ⟨hkept.1, .inl ?_⟩
    rw [hkept.2, hout, List.append_assoc, List.take_append_drop]

/-- `write` with nothing buffered sends at once. -/
theorem wrote_now (h : Tended s) {data : List UInt8} (hb : s.buffer = [])
    (hharmless : A.register.failed = true → ∀ n, A.send = .done n → n = 0 ∨ data.length ≤ n) :
    ∃ r t, ((sockSend data).andThen (orFatal "Fatal write error on socket transport"
      (keepRest data))).exec A.oracle (s.offer data) = some (r, t) ∧ Wrote s data r t := by
  have ha : (s.offer data).attached = true := h.attached
  rw [exec_andThen]
  cases hsend : A.send with
  | wouldBlock =>
      have hblock : (sockSend data).exec A.oracle (s.offer data) =
          some (.ok none, s.offer data) := by
        simp [sockSend, ha, hsend]
      have htook : (s.offer data).took (data.take 0) = s.offer data := by
        simp [World.took]
      rw [hblock]
      obtain ⟨r, t, ht, hwrote⟩ := wrote_rest A data 0 h hb fun _ => rfl
      rw [htook] at ht
      exact ⟨r, t, ht, hwrote⟩
  | fail e =>
      have hfail : (sockSend data).exec A.oracle (s.offer data) =
          some (.error (.osError e), s.offer data) := by
        simp [sockSend, ha, hsend]
      rw [hfail]
      exact ⟨_, _, exec_fatalError ha h.connLost e _, .inl rfl⟩
  | done n =>
      have htook : (sockSend data).exec A.oracle (s.offer data) =
          some (.ok (some (min n data.length)), (s.offer data).took (data.take n)) := by
        simp [sockSend, ha, hsend, World.took]
      rw [htook]
      by_cases hall : data.length ≤ n
      · refine ⟨.ok (), (s.offer data).took (data.take n), ?_, .inr ⟨h.took data _, .inl ?_⟩⟩
        · simp [orFatal, keepRest, hall]
        · simp [World.outgoing, World.offer, World.took, hb, List.take_of_length_le hall]
      · have hrest : data.drop n ≠ [] := by simpa using hall
        obtain ⟨r, t, ht, hwrote⟩ := wrote_rest A data n h hb fun hfailed =>
          (hharmless hfailed n hsend).resolve_right hall
        refine ⟨r, t, ?_, hwrote⟩
        simp only [Option.bind_some, orFatal, keepRest, Nat.min_eq_left (Nat.le_of_not_le hall),
          if_neg hrest, ht]

theorem wrote_write (h : Tended s) (data : List UInt8)
    (hharmless : A.register.failed = true → s.buffer = [] → ∀ n, A.send = .done n →
      n = 0 ∨ data.length ≤ n) :
    ∃ r t, (write data).exec A.oracle s = some (r, t) ∧ Wrote s data r t := by
  have hoffer : Writable (s.offer data) :=
    ⟨h.attached, h.closing, h.connLost, h.eof, h.waiter⟩
  by_cases hdata : data = []
  · refine ⟨.ok (), s.offer data, ?_, .inr ⟨⟨hoffer, h.watched, h.paused⟩, .inl ?_⟩⟩
    · simp [write, h.eof, h.waiter, hdata, World.offer]
    · simp [World.outgoing, World.offer, hdata]
  rw [exec_write h.toWritable hdata]
  split
  · rename_i hb
    exact wrote_now h hb fun hfailed => hharmless hfailed hb
  · rename_i hb
    obtain ⟨r, t, ht, htended, hout⟩ := exec_bufferRest (O := A.oracle) hoffer (h.watched hb) data
    exact ⟨r, t, ht, .inr ⟨htended, .inl hout⟩⟩

/-- What `_write_sendmsg` leaves of a transport that it does not close: only a
`resume_writing` that was due can have raised. -/
structure Pushed (A : Answers) (s : World) (r : Except Exc Unit) (t : World) : Prop where
  writable : Writable t
  outgoing : t.outgoing = s.outgoing
  writer : t.buffer ≠ [] → t.writer = s.writer
  paused : t.protocolPaused = true → t.buffer ≠ []
  due : r ≠ .ok () → s.protocolPaused = true
  rest : ∀ n, A.send = .done n →
    adjustLeftoverBuffer s.buffer (min n s.gathered.length) = some t.buffer

theorem exec_afterSend {O : Oracle World UserCall Nat Exc Query Reply} (h : Writable s) :
    ∃ r t, afterSend.exec O s = some (r, t) ∧ Writable t ∧ t.sent = s.sent ∧
      t.buffer = s.buffer ∧ (t.buffer ≠ [] → t.writer = s.writer) ∧
      (t.protocolPaused = true → t.buffer ≠ []) ∧ (r ≠ .ok () → s.protocolPaused = true) := by
  obtain ⟨r, t, ht, hresumed⟩ := exec_maybeResumeProtocol (O := O) h.attached
  have hw := h.told hresumed.told
  obtain ⟨hsent, hbuf, hwriter⟩ : t.sent = s.sent ∧ t.buffer = s.buffer ∧ t.writer = s.writer := by
    rw [hresumed.told.eq]
    exact ⟨rfl, rfl, rfl⟩
  cases r with
  | error e =>
      refine ⟨.error e, t, ?_, hw, hsent, hbuf, fun _ => hwriter, hresumed.paused, hresumed.due⟩
      simp [afterSend, ht]
  | ok _ =>
      by_cases hb : t.buffer = []
      · have hresolve : resolveEmptyWaiter.exec O { t with writer := none } =
            some (.ok (), { t with writer := none }) := by
          simp [resolveEmptyWaiter, hw.waiter]
        have hexec := exec_afterSend_last ht hb hw.attached hresolve
        refine ⟨.ok (), { t with writer := none }, ?_,
          ⟨hw.attached, hw.closing, hw.connLost, hw.eof, hw.waiter⟩, hsent, hbuf,
          fun h => absurd hb h, hresumed.paused, fun h => absurd rfl h⟩
        rw [hexec]
        simp [onEmpty, hw.closing, hw.eof]
      · refine ⟨.ok (), t, ?_, hw, hsent, hbuf, fun _ => hwriter, hresumed.paused,
          fun h => absurd rfl h⟩
        simp [afterSend, ht, hb]

theorem exec_writeSendmsg (h : Writable s) (hb : s.buffer ≠ []) :
    ∃ r t, writeSendmsg.exec A.oracle s = some (r, t) ∧
      (t.closing = true ∧ t.buffer = [] ∧ r = .ok () ∨ Pushed A s r t) := by
  rw [writeSendmsg_eq]
  cases hsend : A.send with
  | wouldBlock =>
      have hblock := exec_sendBuffer_blocked (O := A.oracle) h.attached hsend
      refine ⟨.ok (), s, exec_writeReady hb h.connLost hblock, .inr ?_⟩
      exact ⟨h, rfl, fun _ => rfl, fun _ => hb, fun h => absurd rfl h, fun n hn => by
        rw [hsend] at hn; cases hn⟩
  | fail e =>
      have hfail := exec_sendBuffer_failed (O := A.oracle) h.attached hsend
      obtain ⟨r, t, ht, hbuf, -, hc, hok⟩ := exec_afterTry_failed (O := A.oracle) h.attached
        h.connLost e
      refine ⟨r, t, (exec_writeReady hb h.connLost hfail).trans ht, .inl ⟨hc, hbuf, hok ?_⟩⟩
      simp [h.waiter]
  | done n =>
      obtain ⟨rest, htook, hadjust, hflat⟩ :=
        exec_sendBuffer_done (O := A.oracle) h.attached hsend
      obtain ⟨r, t, ht, hw, hsent, hbuf, hwriter, hpaused, hdue⟩ := exec_afterSend (O := A.oracle)
        (s := { s.took (s.gathered.take n) with buffer := rest })
        ⟨h.attached, h.closing, h.connLost, h.eof, h.waiter⟩
      refine ⟨r, t, (exec_writeReady hb h.connLost htook).trans ht, .inr ?_⟩
      refine ⟨hw, ?_, hwriter, hpaused, hdue, fun m hm => ?_⟩
      · rw [World.outgoing, hsent, hbuf, World.outgoing, ← hflat]
        exact List.append_assoc _ _ _
      · obtain rfl : n = m := Reply.done.inj (hsend.symm.trans hm)
        rw [hadjust, hbuf]

/-- The end of `writelines`. -/
def registerRest : Meth Unit := do
  if (← get).buffer = [] then pure ()
  else
    addWriter
    maybePauseProtocol

theorem exec_writelines (h : Writable s) {lines : List (List UInt8)} (hlines : lines ≠ []) :
    (writelines lines).exec A.oracle s = (writeSendmsg >>= fun _ => registerRest).exec A.oracle
      { s.offer lines.flatten with buffer := s.buffer ++ lines } := by
  have heof : ¬s.eof = true := by simp [h.eof]
  have hwaiter : ¬s.emptyWaiter.isSome = true := by simp [h.waiter]
  have hlost : ¬s.connLost ≠ 0 := by simp [h.connLost]
  have hdetached : ¬(!s.attached) = true := by simp [h.attached]
  simp only [writelines, exec_bind, exec_get, exec_modify, Option.bind_some, if_neg heof,
    if_neg hwaiter, if_neg hlines, if_neg hlost, if_neg hdetached]
  rfl

/-- What is left gets a writer, unless that fails. -/
theorem exec_registerRest (h : Writable s) (hb : s.buffer ≠ []) :
    ∃ r t, registerRest.exec A.oracle s = some (r, t) ∧
      if A.register.failed then r.isOk = false ∧ t = s
      else Tended t ∧ t.outgoing = s.outgoing := by
  have hadd := exec_addWriter (O := A.oracle) h
  cases hr : A.register with
  | fail e =>
      refine ⟨.error (.osError e), s, ?_, rfl, rfl⟩
      simp [registerRest, hb, hadd, hr]
  | done _ | wouldBlock =>
      have hwriting : Writable s.writing :=
        ⟨h.attached, h.closing, h.connLost, h.eof, h.waiter⟩
      obtain ⟨r, t, ht, htold⟩ := exec_maybePauseProtocol (O := A.oracle) (s := s.writing)
        hwriting.attached
      have hkept := Tended.of_told hwriting htold hb rfl
      refine ⟨r, t, ?_, hkept⟩
      simpa [registerRest, hb, hadd, hr] using ht

theorem wrote_writelines (h : Tended s) (lines : List (List UInt8))
    (hharmless : A.register.failed = true → s.writer.isSome = true ∨ ∃ n, A.send = .done n ∧
      adjustLeftoverBuffer lines (min n (lines.take s.iovMax).flatten.length) = some []) :
    ∃ r t, (writelines lines).exec A.oracle s = some (r, t) ∧ Wrote s lines.flatten r t := by
  by_cases hlines : lines = []
  · refine ⟨.ok (), s, ?_, .inr ⟨h, .inl ?_⟩⟩
    · simp [writelines, h.eof, h.waiter, hlines]
    · simp [hlines]
  have hne : s.buffer ++ lines ≠ [] := List.append_ne_nil_of_right_ne_nil _ hlines
  obtain ⟨r, t, ht, hpushed⟩ := exec_writeSendmsg (A := A)
    (s := { s.offer lines.flatten with buffer := s.buffer ++ lines })
    ⟨h.attached, h.closing, h.connLost, h.eof, h.waiter⟩ hne
  rw [exec_writelines h.toWritable hlines, exec_bind, ht]
  rcases hpushed with ⟨hc, hb, rfl⟩ | hpushed
  · exact ⟨.ok (), t, by simp [registerRest, hb], .inl hc⟩
  have hout : t.outgoing = s.outgoing ++ lines.flatten := by
    rw [hpushed.outgoing]
    simp [World.outgoing, World.offer]
  cases r with
  | error e =>
      -- The protocol was paused, so there was something buffered, and a writer.
      have hw := h.watched (h.paused (hpushed.due (by simp)))
      refine ⟨.error e, t, rfl, .inr ⟨⟨hpushed.writable, fun hb => ?_, hpushed.paused⟩, .inl hout⟩⟩
      rw [hpushed.writer hb]
      exact hw
  | ok _ =>
      by_cases hb : t.buffer = []
      · exact ⟨.ok (), t, by simp [registerRest, hb], .inr
          ⟨⟨hpushed.writable, fun h => absurd hb h, hpushed.paused⟩, .inl hout⟩⟩
      · obtain ⟨r, u, hu, hkept⟩ := exec_registerRest (A := A) hpushed.writable hb
        refine ⟨r, u, hu, .inr ?_⟩
        split at hkept
        · rename_i hfailed
          obtain ⟨-, rfl⟩ := hkept
          have hw : s.writer.isSome = true := by
            by_contra hno
            obtain ⟨n, hn, hadjust⟩ := (hharmless hfailed).resolve_left hno
            have hempty : s.buffer = [] := by_contra fun hb => hno (h.watched hb)
            have hrest := hpushed.rest n hn
            simp only [World.gathered, World.offer, hempty, List.nil_append] at hrest
            exact hb (Option.some.inj (hrest.symm.trans hadjust))
          refine ⟨.of_busy hpushed.writable hb ?_, .inl hout⟩
          rw [hpushed.writer hb]
          exact hw
        · exact ⟨hkept.1, .inl (hkept.2.trans hout)⟩

theorem Tended.logged (h : Tended s) (e : UserCall) : Tended (s.logged e) :=
  ⟨⟨h.attached, h.closing, h.connLost, h.eof, h.waiter⟩, h.watched, h.paused⟩

theorem fired (h : Tended s) :
    (s.fireBy writeSendmsg A.oracle).closing = true ∨
      Tended (s.fireBy writeSendmsg A.oracle) ∧
        (s.fireBy writeSendmsg A.oracle).outgoing = s.outgoing := by
  by_cases hw : s.writer.isSome = true
  · by_cases hb : s.buffer = []
    · have hassert : writeSendmsg.exec A.oracle s = some (.error .assertionError, s) := by
        simp [writeSendmsg, hb]
      rw [fireBy_eq hw hassert]
      exact .inr ⟨h.logged _, rfl⟩
    · obtain ⟨r, t, ht, hpushed⟩ := exec_writeSendmsg (A := A) h.toWritable hb
      rw [fireBy_eq hw ht]
      rcases hpushed with ⟨hc, -, rfl⟩ | hpushed
      · exact .inl hc
      · have htended : Tended t := by
          refine ⟨hpushed.writable, fun hb' => ?_, hpushed.paused⟩
          rw [hpushed.writer hb']
          exact hw
        right
        cases r with
        | ok _ => exact ⟨htended, hpushed.outgoing⟩
        | error e => exact ⟨htended.logged _, hpushed.outgoing⟩
  · have hsame : s.fireBy writeSendmsg A.oracle = s := by
      rw [World.fireBy, Option.not_isSome_iff_eq_none.mp hw]
    rw [hsame]
    exact .inr ⟨h, rfl⟩

end Call

/-! ### Runs -/

/-- Whatever is called, a transport that is closing stays so. -/
theorem closing_of_exec {A : Answers} {m : Meth Unit} {s t : World} {r : Except Exc Unit}
    (hm : Keeps baseContract m) (hc : s.closing = true) (he : m.exec A.oracle s = some (r, t)) :
    t.closing = true :=
  (exec_of_wp (C := baseContract) A.oracle (fun _ _ => trivial) (fun _ _ => trivial)
    (hm s (.of_closing hc)) he).2 hc

theorem closing_fireBy {A : Answers} {s : World} (hc : s.closing = true) :
    (s.fireBy writeSendmsg A.oracle).closing = true := by
  rw [World.fireBy]
  split
  · exact hc
  · split
    · rename_i he
      have hkeeps : Keeps baseContract (tryCatch writeSendmsg reportCallbackError) :=
        keeps_tryCatch (fun _ hs => keeps_writeSendmsg frames_base hs trivial)
          unread_base.reportCallbackError
      exact closing_of_exec hkeeps hc he
    · exact hc

/-- The transport is closing, or its bytes are whole arguments. -/
def Booked.Sound (b : Booked) : Prop :=
  b.state.closing = true ∨ Tended b.state ∧ Gapless b.history b.state.outgoing

theorem Booked.sound_after {b b' : Booked} {A : Answers} {data : List UInt8} {m : Meth Unit}
    (hm : Keeps baseContract m)
    (hwrote : Tended b.state → ∃ r t, m.exec A.oracle b.state = some (r, t) ∧
      Wrote b.state data r t)
    (h : b.Sound) (hb : b.after data m A = some b') : b'.Sound := by
  rw [Booked.after, Option.map_eq_some_iff] at hb
  obtain ⟨⟨r, t⟩, he, rfl⟩ := hb
  rcases h with hc | ⟨htended, hgapless⟩
  · exact .inl (closing_of_exec hm hc he)
  · obtain ⟨r', t', he', hwrote⟩ := hwrote htended
    obtain ⟨rfl, rfl⟩ : r' = r ∧ t' = t := by
      rw [he] at he'
      simpa [eq_comm] using he'
    rcases hwrote with hc | ⟨ht, hout | ⟨hr, hout⟩⟩
    · exact .inl hc
    · refine .inr ⟨ht, ?_⟩
      rw [hout]
      exact .whole data _ hgapless
    · refine .inr ⟨ht, ?_⟩
      rw [hout]
      show Gapless ((data, r'.isOk) :: b.history) _
      rw [hr]
      exact .nothing data hgapless

theorem Booked.sound_step {b b' : Booked} {m : WriteAct × Answers} (h : b.Sound)
    (hok : b.harmless m) (hstep : b.step m = some b') : b'.Sound := by
  obtain ⟨a, A⟩ := m
  cases a with
  | write data =>
      exact Booked.sound_after (keeps_write frames_base data) (fun ht => wrote_write ht data hok) h
        hstep
  | writelines lines =>
      refine Booked.sound_after (fun s hs => keeps_writelines frames_base lines hs trivial)
        (fun ht => wrote_writelines ht lines hok) h hstep
  | fire =>
      cases hstep
      rcases h with hc | ⟨ht, hgapless⟩
      · exact .inl (closing_fireBy hc)
      · rcases fired (A := A) ht with hc | ⟨ht', hout⟩
        · exact .inl hc
        · refine .inr ⟨ht', ?_⟩
          show Gapless b.history _
          rw [hout]
          exact hgapless

/-- While registrations fail only where that is harmless, a transport is
closing, or the bytes that the kernel has taken and that are buffered are
whole arguments and what is buffered has a writer. -/
theorem no_gap {b : Booked}
    (h : Runs Booked.step Booked.harmless (fun b => ∃ kind kernel, b = ⟨World.new kind kernel, []⟩)
      b) :
    b.state.closing = true ∨
      Gapless b.history (b.state.sent ++ b.state.buffer.flatten) ∧
        (b.state.buffer ≠ [] → b.state.writer.isSome = true) := by
  have hsound : b.Sound := by
    refine Runs.invariant ?_ (fun _ _ _ => Booked.sound_step) h
    rintro _ ⟨kind, kernel, rfl⟩
    refine .inr ⟨⟨⟨rfl, rfl, rfl, rfl, rfl⟩, fun h => absurd rfl h, fun h => ?_⟩, .nil⟩
    cases h
  exact hsound.imp id fun ⟨ht, hgapless⟩ => ⟨hgapless, ht.watched⟩

/-- The kernel takes one byte of three, and the `writelines` behind it cannot
register its writer: it raises, and its line is buffered behind the first. -/
theorem no_gap_raised : ∃ b : Booked, b.history = [([4], false), ([1, 2, 3], true)] ∧
    b.state.sent = [1] ∧ b.state.buffer = [[2, 3], [4]] ∧
    (b.state.closing = true ∨
      Gapless b.history (b.state.sent ++ b.state.buffer.flatten) ∧
        (b.state.buffer ≠ [] → b.state.writer.isSome = true)) := by
  obtain ⟨b, hb⟩ : ∃ b, Booked.step ⟨World.new .plain ⟨[], [], none, false⟩, []⟩
      (.write [1, 2, 3], ⟨.done 1, .done 0, fun _ _ => .ok 0⟩) = some b := ⟨_, rfl⟩
  obtain ⟨b', hb'⟩ : ∃ b', b.step (.writelines [[4]], ⟨.wouldBlock, .fail 24, fun _ _ => .ok 0⟩) =
      some b' := by
    cases hb
    exact ⟨_, rfl⟩
  have hwriter : b.state.writer.isSome = true := by
    cases hb
    rfl
  have hrun : Runs Booked.step Booked.harmless
      (fun b => ∃ kind kernel, b = ⟨World.new kind kernel, []⟩) b' := by
    refine .step _ (.step _ (.start ⟨_, _, rfl⟩) ?_ hb) ?_ hb'
    · intro hfailed
      cases hfailed
    · exact fun _ => .inl hwriter
  refine ⟨b', ?_, ?_, ?_, no_gap hrun⟩
  all_goals
    cases hb
    cases hb'
    rfl

/-- The kernel takes one byte of two, and the writer cannot be registered: the
second byte is gone, and the transport stays open. -/
theorem write_leaves_gap : ¬∀ b : Booked,
    Runs Booked.step (fun _ _ => True) (fun b => ∃ kind kernel, b = ⟨World.new kind kernel, []⟩) b →
    b.state.closing = true ∨
      Gapless b.history (b.state.sent ++ b.state.buffer.flatten) ∧
        (b.state.buffer ≠ [] → b.state.writer.isSome = true) := by
  intro hall
  obtain ⟨b, hb⟩ : ∃ b, Booked.step ⟨World.new .plain ⟨[], [], none, false⟩, []⟩
      (.write [1, 2], ⟨.done 1, .fail 24, fun _ _ => .ok 0⟩) = some b := ⟨_, rfl⟩
  have hend := hall b (.step _ (.start ⟨_, _, rfl⟩) trivial hb)
  cases hb
  rcases hend with hc | ⟨hgapless, -⟩
  · cases hc
  · have hlost : ¬Gapless [([1, 2], false)] [1] := by
      intro h
      generalize hout : ([1] : List UInt8) = out at h
      cases h with
      | @whole _ out' data returned h =>
          have hlen := congrArg List.length hout
          simp at hlen
      | nothing data h => cases h; cases hout
    exact hlost hgapless

end Tokioop.Transport
