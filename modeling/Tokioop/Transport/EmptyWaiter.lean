import Tokioop.Transport.Rules

/-!
The future of `_make_empty_waiter`, which `_sendfile_native` waits for until
the write buffer is empty.

It is completed by the writer and by `_call_connection_lost`, which look only
at whether there is a future, and it is put away by the task that waits for it,
when the loop gets to the wakeup that the completion has scheduled. So the queue
of the loop is part of the state, with the wakeup and the teardown in it.
`resume_writing` and `connection_lost` are calls of code that may do anything
to the transport before they return, and these are frames on a stack; when a
firing calls `resume_writing` is left open. `raised` records that a future that
was done has been completed again.
-/

namespace Tokioop.Transport.EmptyWaiter

open Fd Kit

/-! ### The state -/

inductive Fut
  | pending
  | result
  | exception
  | cancelled
  deriving DecidableEq, Repr

/-- What the loop has scheduled with `call_soon`. -/
inductive Entry
  | connectionLost
  /-- The task that waits for the future goes on. -/
  | wake
  deriving DecidableEq, Repr

/-- Code of the protocol that is running. -/
inductive Frame
  | resumeWriting
  | connectionLost
  deriving DecidableEq, Repr

/-- `_write_ready` is `_write_sendmsg`, or `_write_send` where there is no
`sendmsg`. -/
inductive Handler
  | sendmsg (iovMax : Nat)
  | send
  deriving DecidableEq, Repr

structure Side where
  buffer : List (List UInt8)
  eof : Bool
  connLost : Nat
  closing : Bool
  -- `_sock`, `_loop` and `_protocol` are not `None`.
  attached : Bool
  emptyWaiter : Option Fut
  -- The task has been cancelled since its future was done.
  mustCancel : Bool
  ready : List Entry
  frames : List Frame
  raised : Bool
  deriving DecidableEq, Repr

def Side.new : Side :=
  { buffer := [], eof := false, connLost := 0, closing := false, attached := true
    emptyWaiter := none, mustCancel := false, ready := [], frames := [], raised := false }

/-! ### The transport -/

namespace Side

/-- `set_result` and `set_exception` of the future, if there is one. -/
def settle (s : Side) (f : Fut) : Side :=
  match s.emptyWaiter with
  | none => s
  | some .pending => { s with emptyWaiter := some f, ready := s.ready ++ [.wake] }
  | some _ => { s with raised := true }

/-- Without its loop the transport gets as far as the first use of it. -/
def forceClose (s : Side) : Side :=
  if s.connLost ≠ 0 then s
  else if s.attached then
    { s with
      buffer := []
      closing := true
      connLost := 1
      ready := s.ready ++ [.connectionLost] }
  else if s.buffer = [] then { s with connLost := 1 }
  else { s with buffer := [] }

def close (s : Side) : Side :=
  if s.closing then s
  else if s.buffer = [] then
    { s with
      closing := true
      connLost := s.connLost + 1
      ready := s.ready ++ [.connectionLost] }
  else { s with closing := true }

def write (s : Side) (data : List UInt8) (a : Reply) : Side :=
  if s.eof || s.emptyWaiter.isSome then s
  else if data = [] then s
  else if s.connLost ≠ 0 then { s with connLost := s.connLost + 1 }
  else if s.buffer = [] then
    if s.attached then
      match a with
      | .wouldBlock => { s with buffer := [data] }
      | .fail _ => s.forceClose
      | .done n => if data.drop n = [] then s else { s with buffer := [data.drop n] }
    else s
  else { s with buffer := s.buffer ++ [data] }

/-- `_call_connection_lost`, up to the call of `connection_lost` if there is
a protocol. -/
def callConnectionLost (s : Side) : Side :=
  if s.attached then { s with frames := .connectionLost :: s.frames }
  else s.settle .exception

def drained (s : Side) : Side :=
  if s.buffer = [] ∧ s.attached then
    match s.emptyWaiter with
    | none | some .pending =>
        if s.closing then (s.settle .result).callConnectionLost else s.settle .result
    | some _ => s.settle .result
  else s

end Side

/-- What a call of `sendmsg` or `send` comes to. -/
inductive Sent
  | failed
  | blocked (rest : List (List UInt8))
  | sent (rest : List (List UInt8))
  deriving DecidableEq, Repr

/-- The body of the `try` of `_write_sendmsg` and of `_write_send`, with what
it leaves of the buffer. -/
def Handler.attempt : Handler → List (List UInt8) → Reply → Sent
  | _, _, .fail _ => .failed
  | .sendmsg _, buffer, .wouldBlock => .blocked buffer
  | .sendmsg iovMax, buffer, .done n =>
      match adjustLeftoverBuffer buffer (min n (buffer.take iovMax).flatten.length) with
      | none => .failed
      | some rest => .sent rest
  | .send, buffer, .wouldBlock => .blocked buffer.tail
  | .send, [], .done _ => .failed
  | .send, b :: rest, .done n => .sent (if n < b.length then b.drop n :: rest else rest)

namespace Side

/-- The writer callback; `resumes` says whether it calls `resume_writing`. -/
def writeReady (h : Handler) (s : Side) (a : Reply) (resumes : Bool) : Side :=
  if s.buffer = [] then s
  else if s.connLost ≠ 0 then s
  else if !s.attached then s
  else
    match h.attempt s.buffer a with
    | .failed => { s with buffer := [] }.forceClose.settle .exception
    | .blocked rest => { s with buffer := rest }
    | .sent rest =>
        if resumes then { s with buffer := rest, frames := .resumeWriting :: s.frames }
        else { s with buffer := rest }.drained

def writelines (h : Handler) (s : Side) (lines : List (List UInt8)) (a : Reply)
    (resumes : Bool) : Side :=
  if s.eof || s.emptyWaiter.isSome then s
  else if lines = [] then s
  else if s.connLost ≠ 0 then { s with connLost := s.connLost + 1 }
  else { s with buffer := s.buffer ++ lines }.writeReady h a resumes

/-- A call of the protocol returns. What `resume_writing` raises is reported,
unless it is passed on. -/
def ret (s : Side) (exits : Bool) : Side :=
  match s.frames with
  | [] => s
  | .resumeWriting :: rest =>
      if exits then { s with frames := rest } else { s with frames := rest }.drained
  | .connectionLost :: rest => { s with frames := rest, attached := false }.settle .exception

/-! ### The task -/

/-- `sendfile` up to the `await` of the future. A future that is done is not
waited for, and it is put away at once. -/
def sendfile (s : Side) : Side :=
  if s.closing || s.emptyWaiter.isSome || s.buffer = [] then s
  else { s with emptyWaiter := some .pending }

/-- `task.cancel()`, which cancels the future the task waits for. -/
def cancel (s : Side) : Side :=
  match s.emptyWaiter with
  | none => s
  | some .pending => { s with emptyWaiter := some .cancelled, ready := s.ready ++ [.wake] }
  | some _ => if .wake ∈ s.ready then { s with mustCancel := true } else s

/-- The task goes on. It puts the future away if that has a result; an exception
leaves `_sendfile_native` in front of its `try`. -/
def wake (s : Side) : Side :=
  if s.emptyWaiter = some .result ∧ s.mustCancel = false then { s with emptyWaiter := none }
  else { s with mustCancel := false }

def popReady (s : Side) : Side :=
  match s.ready with
  | [] => s
  | .connectionLost :: rest => { s with ready := rest }.callConnectionLost
  | .wake :: rest => { s with ready := rest }.wake

inductive Move
  | close
  -- `abort`, and a fatal error while reading.
  | abort
  | write (data : List UInt8) (a : Reply)
  | writelines (lines : List (List UInt8)) (a : Reply) (resumes : Bool)
  | writeEof
  | ret (exits : Bool)
  | fire (a : Reply) (resumes : Bool)
  | popReady
  | sendfile
  | cancel
  deriving DecidableEq

def step (h : Handler) (s : Side) : Move → Side
  | .close => s.close
  | .abort => s.forceClose
  | .write data a => s.write data a
  | .writelines lines a resumes => s.writelines h lines a resumes
  | .writeEof => { s with eof := s.eof || !s.closing }
  | .ret exits => s.ret exits
  | .fire a resumes => if s.frames = [] then s.writeReady h a resumes else s
  | .popReady => if s.frames = [] then s.popReady else s
  | .sendfile => if s.frames = [] then s.sendfile else s
  | .cancel => s.cancel

/-! ### The condition -/

/-- A sendfile that was cancelled has left its future behind, or is about to. -/
def Forsaken (s : Side) : Prop :=
  s.emptyWaiter = some .cancelled ∨
    (s.emptyWaiter = some .result ∨ s.emptyWaiter = some .exception) ∧ .wake ∉ s.ready

instance (s : Side) : Decidable s.Forsaken := inferInstanceAs (Decidable (_ ∨ _ ∧ _))

/-- The writer that finds the buffer empty may complete the future. -/
def Completable (s : Side) : Prop :=
  s.emptyWaiter.isSome → ¬ s.Forsaken ∧ s.closing = false

instance (s : Side) : Decidable s.Completable := inferInstanceAs (Decidable (_ → _))

/-- What the writer does while there is a future: it neither fails nor empties
the buffer of a closing transport. -/
def Spares (s : Side) (resumes : Bool) : Sent → Prop
  | .failed => s.emptyWaiter = none
  | .blocked _ => True
  | .sent rest => rest = [] → resumes = false → s.Completable

/-- While there is a future, the writer neither fails nor empties the buffer of
a closing transport; and with the future of a cancelled sendfile the writer does
not empty the buffer, and the transport is not torn down. -/
def Careful (h : Handler) (s : Side) : Move → Prop
  | .fire a resumes =>
      s.buffer ≠ [] → s.connLost = 0 → s.attached = true →
        s.Spares resumes (h.attempt s.buffer a)
  | .ret exits =>
      match s.frames with
      | .resumeWriting :: _ =>
          exits = false → s.buffer = [] → s.attached = true → s.Completable
      | .connectionLost :: _ => ¬ s.Forsaken
      | [] => True
  | .popReady => s.ready.head? = some .connectionLost → ¬ s.Forsaken
  | _ => True

instance (s : Side) (resumes : Bool) : (x : Sent) → Decidable (s.Spares resumes x)
  | .failed => inferInstanceAs (Decidable (_ = _))
  | .blocked _ => .isTrue trivial
  | .sent rest => inferInstanceAs (Decidable (rest = [] → resumes = false → s.Completable))

instance (h : Handler) (s : Side) : (m : Move) → Decidable (Careful h s m)
  | .fire a resumes =>
      inferInstanceAs (Decidable
        (s.buffer ≠ [] → s.connLost = 0 → s.attached = true → s.Spares resumes _))
  | .ret exits =>
      match hframes : s.frames with
      | [] => .isTrue (by simp [Careful, hframes])
      | .resumeWriting :: _ =>
          decidable_of_iff
            (exits = false → s.buffer = [] → s.attached = true → s.Completable)
            (by simp [Careful, hframes])
      | .connectionLost :: _ => decidable_of_iff (¬ s.Forsaken) (by simp [Careful, hframes])
  | .popReady => inferInstanceAs (Decidable (_ = _ → ¬ s.Forsaken))
  | .close | .abort | .write _ _ | .writelines _ _ _ | .writeEof | .sendfile | .cancel =>
      .isTrue trivial

/-! ### The invariant -/

/-- What the loop has scheduled: a teardown once the connection is lost, and a
wakeup. -/
def Queued (s : Side) : Prop :=
  s.ready = [] ∨ s.ready = [.wake] ∨
    s.connLost ≠ 0 ∧
      (s.ready = [.connectionLost] ∨ s.ready = [.wake, .connectionLost] ∨
        s.ready = [.connectionLost, .wake])

/-- The calls of the protocol that can be open while there is a future. -/
def Framed (s : Side) : Prop :=
  s.frames = [] ∨ s.frames = [.resumeWriting] ∨
    s.frames = [.connectionLost] ∧ s.connLost ≠ 0 ∧ .connectionLost ∉ s.ready

/-- What is known of a future. The wakeup of one with a result comes before the
teardown, and one with an exception has seen the teardown. -/
def Watched (s : Side) : Prop :=
  match s.emptyWaiter with
  | none => .wake ∉ s.ready
  | some .pending => .wake ∉ s.ready ∧ s.attached = true ∧ s.Framed
  | some .cancelled => s.attached = true ∧ s.Framed
  | some .result =>
      s.attached = true ∧ (s.connLost = 0 → s.buffer = []) ∧ s.frames = [] ∧
        s.ready ≠ [.connectionLost, .wake]
  | some .exception =>
      s.attached = false ∧ s.connLost ≠ 0 ∧ .connectionLost ∉ s.ready ∧ s.frames = []

structure Inv (s : Side) : Prop where
  raised : s.raised = false
  lost : s.connLost ≠ 0 → s.closing = true
  attached : s.closing = false → s.attached = true
  leaving : .connectionLost ∈ s.frames → s.closing = true
  queued : s.Queued
  watched : s.Watched

namespace Inv

variable {s : Side} {h : Handler}

theorem new : Inv Side.new :=
  ⟨rfl, fun h => absurd rfl h, fun _ => rfl, nofun, .inl rfl, List.not_mem_nil⟩

/-- A step that schedules nothing and neither touches the future. -/
theorem same {s' : Side} (hs : Inv s) (hraised : s'.raised = s.raised)
    (hlost : s'.connLost ≠ 0 ↔ s.connLost ≠ 0) (hclosing : s'.closing = s.closing)
    (hatt : s'.attached = s.attached) (hready : s'.ready = s.ready)
    (hwaiter : s'.emptyWaiter = s.emptyWaiter) (hframes : s'.frames = s.frames)
    (hbuf : s.emptyWaiter.isSome → s.buffer = [] → s'.buffer = []) : Inv s' := by
  refine ⟨hraised ▸ hs.raised, ?_, ?_, ?_, ?_, ?_⟩
  · rw [hlost, hclosing]
    exact hs.lost
  · rw [hclosing, hatt]
    exact hs.attached
  · rw [hframes, hclosing]
    exact hs.leaving
  · have hq := hs.queued
    unfold Queued at hq ⊢
    rwa [hready, hlost]
  · have hw := hs.watched
    unfold Watched Framed at hw ⊢
    rw [hwaiter, hready, hlost, hatt, hframes]
    cases hf : s.emptyWaiter with
    | none => rw [hf] at hw; exact hw
    | some f =>
        rw [hf] at hw hbuf
        cases f with
        | pending | cancelled | exception => exact hw
        | result =>
            refine ⟨hw.1, fun h0 => hbuf rfl (hw.2.1 ?_), hw.2.2⟩
            exact not_not.mp (mt hlost.mpr (not_not_intro h0))

/-- Before the connection is lost no teardown is scheduled or running. -/
theorem ready_of_open (hs : Inv s) (hl : s.connLost = 0) : s.ready = [] ∨ s.ready = [.wake] :=
  hs.queued.imp_right fun h => h.resolve_right fun h => h.1 hl

theorem framed_lose {s' : Side} (hf : s.Framed) (hl : s.connLost = 0)
    (hframes : s'.frames = s.frames) : s'.Framed := by
  rw [Framed, hframes]
  rcases hf with hf | hf | hf
  · exact .inl hf
  · exact .inr (.inl hf)
  · exact absurd hl hf.2.1

/-- The connection is lost, and the teardown is scheduled. -/
theorem lose (hs : Inv s) (hl : s.connLost = 0) (n : Nat) :
    Inv { s with
      buffer := [], closing := true, connLost := n + 1
      ready := s.ready ++ [.connectionLost] } := by
  have hready := hs.ready_of_open hl
  refine ⟨hs.raised, fun _ => rfl, nofun, fun _ => rfl, ?_, ?_⟩
  · refine .inr (.inr ⟨Nat.succ_ne_zero n, ?_⟩)
    rcases hready with hr | hr
    · exact .inl (by rw [hr]; rfl)
    · exact .inr (.inl (by rw [hr]; rfl))
  · have hw := hs.watched
    unfold Watched at hw ⊢
    have hwake : .wake ∉ s.ready → Entry.wake ∉ s.ready ++ [.connectionLost] := by
      intro hno hmem
      rcases List.mem_append.mp hmem with hmem | hmem
      · exact hno hmem
      · cases List.mem_singleton.mp hmem
    cases hf : s.emptyWaiter with
    | none =>
        rw [hf] at hw
        exact hwake hw
    | some f =>
        rw [hf] at hw
        cases f with
        | pending => exact ⟨hwake hw.1, hw.2.1, framed_lose hw.2.2 hl rfl⟩
        | cancelled => exact ⟨hw.1, framed_lose hw.2 hl rfl⟩
        | exception => exact absurd hl hw.2.1
        | result =>
            refine ⟨hw.1, fun _ => rfl, hw.2.2.1, ?_⟩
            show s.ready ++ [.connectionLost] ≠ _
            rcases hready with hr | hr <;> rw [hr] <;> decide

theorem close (hs : Inv s) : Inv s.close := by
  unfold Side.close
  split
  · exact hs
  rename_i hc
  have hl : s.connLost = 0 := by
    by_contra hl
    exact hc (hs.lost hl)
  split
  · rename_i hbuf
    have h := hs.lose hl s.connLost
    rwa [← hbuf] at h
  · exact ⟨hs.raised, fun _ => rfl, nofun, fun _ => rfl, hs.queued, hs.watched⟩

/-- A transport that has lost its loop, but not its connection, has no future
any more. -/
theorem waiter_of_detached (hs : Inv s) (hl : s.connLost = 0) (hatt : s.attached = false) :
    s.emptyWaiter = none := by
  have hw := hs.watched
  unfold Watched at hw
  cases hf : s.emptyWaiter with
  | none => rfl
  | some f =>
      rw [hf, hatt] at hw
      cases f with
      | pending => cases hw.2.1
      | cancelled | result => cases hw.1
      | exception => exact absurd hl hw.2.1

theorem forceClose (hs : Inv s) : Inv s.forceClose := by
  unfold Side.forceClose
  split
  · exact hs
  rename_i hl
  replace hl := of_not_not hl
  split
  · exact hs.lose hl 0
  rename_i hatt
  replace hatt := Bool.eq_false_iff.mpr hatt
  split
  · have hclosing : s.closing = true := by
      by_contra hc
      rw [hs.attached (Bool.eq_false_iff.mpr hc)] at hatt
      cases hatt
    have hready := hs.ready_of_open hl
    have hw := hs.watched
    unfold Watched at hw
    rw [hs.waiter_of_detached hl hatt] at hw
    refine ⟨hs.raised, fun _ => hclosing, hs.attached, hs.leaving, hready.imp_right .inl, ?_⟩
    unfold Watched
    rw [show s.emptyWaiter = none from hs.waiter_of_detached hl hatt]
    exact hw
  · exact hs.same rfl Iff.rfl rfl rfl rfl rfl rfl fun _ _ => rfl

theorem write (hs : Inv s) (data : List UInt8) (a : Reply) : Inv (s.write data a) := by
  unfold Side.write
  split
  · exact hs
  rename_i hrefused
  have hnone : s.emptyWaiter.isSome = false := by
    rw [Bool.or_eq_true, not_or] at hrefused
    exact Bool.eq_false_iff.mpr hrefused.2
  have hbuffered : ∀ bs, Inv { s with buffer := bs } := by
    intro bs
    refine hs.same rfl Iff.rfl rfl rfl rfl rfl rfl fun h => ?_
    rw [hnone] at h
    cases h
  split
  · exact hs
  split
  · rename_i hl
    refine hs.same rfl (iff_of_true (Nat.succ_ne_zero _) hl) rfl rfl rfl rfl rfl fun _ h => h
  split
  · split
    · split
      · exact hbuffered _
      · exact hs.forceClose
      · split
        · exact hs
        · exact hbuffered _
    · exact hs
  · exact hbuffered _

/-- `connection_lost` is called when no future is in its way. -/
theorem callConnectionLost (hs : Inv s) (hc : s.closing = true)
    (hwaiter : s.emptyWaiter = none ∨
      s.emptyWaiter = some .pending ∧ s.frames = [] ∧ s.connLost ≠ 0 ∧
        .connectionLost ∉ s.ready) :
    Inv s.callConnectionLost := by
  have hw := hs.watched
  unfold Watched at hw
  unfold Side.callConnectionLost
  split
  · refine ⟨hs.raised, hs.lost, hs.attached, fun _ => hc, hs.queued, ?_⟩
    unfold Watched
    rcases hwaiter with hf | ⟨hf, hframes, hl, hno⟩
    · rw [hf] at hw
      rw [show s.emptyWaiter = none from hf]
      exact hw
    · rw [hf] at hw
      rw [show s.emptyWaiter = some .pending from hf]
      exact ⟨hw.1, hw.2.1, .inr (.inr ⟨by rw [hframes], hl, hno⟩)⟩
  · rename_i hatt
    rcases hwaiter with hf | ⟨hf, -⟩
    · rw [settle, hf]
      exact hs
    · rw [hf] at hw
      exact absurd hw.2.1 hatt

/-- The future gets its result before anything is scheduled. -/
theorem settle_result (hs : Inv s) (hf : s.emptyWaiter = some .pending) (hbuf : s.buffer = [])
    (hc : s.closing = false) (hframes : s.frames = []) : Inv (s.settle .result) := by
  have hl : s.connLost = 0 := by
    by_contra hl
    rw [hs.lost hl] at hc
    cases hc
  have hw := hs.watched
  unfold Watched at hw
  rw [hf] at hw
  have hready : s.ready = [] := (hs.ready_of_open hl).resolve_right fun h => hw.1 (by simp [h])
  have hsettle : s.settle .result =
      { s with emptyWaiter := some .result, ready := [.wake] } := by
    rw [settle, hf, hready]
    rfl
  rw [hsettle]
  refine ⟨hs.raised, hs.lost, hs.attached, hs.leaving, .inr (.inl rfl), ?_⟩
  exact ⟨hw.2.1, fun _ => hbuf, hframes, fun h => absurd (List.cons.inj h).1 (by decide)⟩

theorem drained (hs : Inv s)
    (hok : s.buffer = [] → s.emptyWaiter = none ∨
      s.emptyWaiter = some .pending ∧ s.closing = false ∧ s.frames = []) : Inv s.drained := by
  unfold Side.drained
  split
  · rename_i h
    rcases hok h.1 with hf | ⟨hf, hc, hframes⟩
    · rw [hf]
      have hsettle : s.settle .result = s := by rw [settle, hf]
      dsimp only
      rw [hsettle]
      split
      · rename_i hc
        exact hs.callConnectionLost hc (.inl hf)
      · exact hs
    · rw [hf]
      dsimp only
      rw [hc]
      exact hs.settle_result hf h.1 hc hframes
  · exact hs

theorem resume (hs : Inv s) (hwaiter : s.emptyWaiter = none ∨
      (s.emptyWaiter = some .pending ∨ s.emptyWaiter = some .cancelled) ∧ s.frames = []) :
    Inv { s with frames := .resumeWriting :: s.frames } := by
  have hw := hs.watched
  unfold Watched at hw
  refine ⟨hs.raised, hs.lost, hs.attached, fun h => hs.leaving ?_, hs.queued, ?_⟩
  · exact (List.mem_cons.mp h).resolve_left nofun
  · unfold Watched
    rcases hwaiter with hf | ⟨hf | hf, hframes⟩ <;> rw [hf] at hw
    · rw [show s.emptyWaiter = none from hf]
      exact hw
    · rw [show s.emptyWaiter = some .pending from hf]
      exact ⟨hw.1, hw.2.1, .inr (.inl (by rw [hframes]))⟩
    · rw [show s.emptyWaiter = some .cancelled from hf]
      exact ⟨hw.1, .inr (.inl (by rw [hframes]))⟩

/-- The futures that a writer with something to send can meet. -/
theorem waiter_of_writing (hs : Inv s) (hbuf : s.buffer ≠ []) (hl : s.connLost = 0) :
    s.emptyWaiter = none ∨ s.emptyWaiter = some .pending ∨ s.emptyWaiter = some .cancelled := by
  have hw := hs.watched
  unfold Watched at hw
  cases hf : s.emptyWaiter with
  | none => exact .inl rfl
  | some f =>
      rw [hf] at hw
      cases f with
      | pending => exact .inr (.inl rfl)
      | cancelled => exact .inr (.inr rfl)
      | result => exact absurd (hw.2.1 hl) hbuf
      | exception => exact absurd hl hw.2.1

theorem spares_of_none (hf : s.emptyWaiter = none) (resumes : Bool) (x : Sent) :
    s.Spares resumes x := by
  cases x with
  | failed => exact hf
  | blocked rest => trivial
  | sent rest =>
      intro _ _ h
      rw [hf] at h
      cases h

theorem settle_forceClose_none (f : Fut) (hf : s.emptyWaiter = none) :
    s.forceClose.settle f = s.forceClose := by
  have hnone : s.forceClose.emptyWaiter = none := by
    unfold Side.forceClose
    split
    · exact hf
    split
    · exact hf
    split <;> exact hf
  rw [settle, hnone]

theorem writeReady (hs : Inv s) {a : Reply} {resumes : Bool}
    (hframes : s.emptyWaiter.isSome → s.frames = [])
    (hok : s.buffer ≠ [] → s.connLost = 0 → s.attached = true →
      s.Spares resumes (h.attempt s.buffer a)) : Inv (s.writeReady h a resumes) := by
  unfold Side.writeReady
  split
  · exact hs
  rename_i hbuf
  split
  · exact hs
  rename_i hl
  replace hl := of_not_not hl
  split
  · exact hs
  rename_i hatt
  rw [Bool.not_eq_true, Bool.not_eq_false'] at hatt
  have hspares := hok hbuf hl hatt
  have hwaiter := hs.waiter_of_writing hbuf hl
  have hrest : ∀ rest, Inv { s with buffer := rest } := by
    intro rest
    refine ⟨hs.raised, hs.lost, hs.attached, hs.leaving, hs.queued, ?_⟩
    have hw := hs.watched
    unfold Watched at hw ⊢
    rcases hwaiter with hf | hf | hf
    · rw [hf] at hw
      rw [show s.emptyWaiter = none from hf]
      exact hw
    · rw [hf] at hw
      rw [show s.emptyWaiter = some .pending from hf]
      exact hw
    · rw [hf] at hw
      rw [show s.emptyWaiter = some .cancelled from hf]
      exact hw
  unfold Spares at hspares
  split
  · rename_i heq
    rw [heq] at hspares
    have hsettle := settle_forceClose_none (s := { s with buffer := [] }) .exception hspares
    rw [hsettle]
    exact (hrest []).forceClose
  · exact hrest _
  · rename_i rest heq
    rw [heq] at hspares
    split
    · refine (hrest rest).resume ?_
      rcases hwaiter with hf | hf
      · exact .inl hf
      · refine .inr ⟨hf, hframes ?_⟩
        rcases hf with hf | hf <;> rw [hf] <;> rfl
    · rename_i hresumes
      refine (hrest rest).drained fun hempty => ?_
      rcases hwaiter with hf | hf | hf
      · exact .inl hf
      · obtain ⟨-, hc⟩ := hspares hempty (Bool.eq_false_iff.mpr hresumes) (by rw [hf]; rfl)
        exact .inr ⟨hf, hc, hframes (by rw [hf]; rfl)⟩
      · obtain ⟨hno, -⟩ := hspares hempty (Bool.eq_false_iff.mpr hresumes) (by rw [hf]; rfl)
        exact absurd (.inl hf) hno

theorem writelines (hs : Inv s) (lines : List (List UInt8)) (a : Reply) (resumes : Bool) :
    Inv (s.writelines h lines a resumes) := by
  unfold Side.writelines
  split
  · exact hs
  rename_i hrefused
  have hnone : s.emptyWaiter = none := by
    rw [Bool.or_eq_true, not_or, Option.not_isSome_iff_eq_none] at hrefused
    exact hrefused.2
  split
  · exact hs
  split
  · rename_i hl
    exact hs.same rfl (iff_of_true (Nat.succ_ne_zero _) hl) rfl rfl rfl rfl rfl fun _ h => h
  · have hmore : Inv { s with buffer := s.buffer ++ lines } :=
      hs.same rfl Iff.rfl rfl rfl rfl rfl rfl fun h => by rw [hnone] at h; cases h
    refine hmore.writeReady (fun h => ?_) fun _ _ _ => ?_
    · rw [show s.emptyWaiter = none from hnone] at h
      cases h
    · exact spares_of_none hnone resumes _

/-- What is known of the future while a call of the protocol is open. -/
theorem waiter_of_frame (hs : Inv s) {frame : Frame} {rest : List Frame}
    (hframes : s.frames = frame :: rest) :
    s.emptyWaiter = none ∨
      (s.emptyWaiter = some .pending ∨ s.emptyWaiter = some .cancelled) ∧ s.attached = true ∧
        rest = [] ∧ (frame = .connectionLost → s.connLost ≠ 0 ∧ .connectionLost ∉ s.ready) := by
  have hw := hs.watched
  have hframed : s.Framed →
      rest = [] ∧ (frame = .connectionLost → s.connLost ≠ 0 ∧ .connectionLost ∉ s.ready) := by
    intro hf
    rw [Framed, hframes] at hf
    rcases hf with hf | hf | ⟨hf, hl⟩
    · cases hf
    · cases hf
      exact ⟨rfl, nofun⟩
    · cases hf
      exact ⟨rfl, fun _ => hl⟩
  unfold Watched at hw
  cases hf : s.emptyWaiter with
  | none => exact .inl rfl
  | some f =>
      rw [hf] at hw
      cases f with
      | pending => exact .inr ⟨.inl rfl, hw.2.1, hframed hw.2.2⟩
      | cancelled => exact .inr ⟨.inr rfl, hw.1, hframed hw.2⟩
      | result =>
          rw [hframes] at hw
          cases hw.2.2.1
      | exception =>
          rw [hframes] at hw
          cases hw.2.2.2

theorem closeFrame (hs : Inv s) {frame : Frame} {rest : List Frame}
    (hframes : s.frames = frame :: rest) : Inv { s with frames := rest } := by
  refine ⟨hs.raised, hs.lost, hs.attached, fun hmem => hs.leaving ?_, hs.queued, ?_⟩
  · rw [hframes]
    exact List.mem_cons_of_mem _ hmem
  · have hw := hs.watched
    unfold Watched at hw ⊢
    rcases hs.waiter_of_frame hframes with hf | ⟨hf | hf, -, hrest, -⟩ <;> rw [hf] at hw
    · rw [show s.emptyWaiter = none from hf]
      exact hw
    · rw [show s.emptyWaiter = some .pending from hf]
      exact ⟨hw.1, hw.2.1, .inl hrest⟩
    · rw [show s.emptyWaiter = some .cancelled from hf]
      exact ⟨hw.1, .inl hrest⟩

theorem ret (hs : Inv s) (exits : Bool) (hok : Careful h s (.ret exits)) : Inv (s.ret exits) := by
  unfold Careful at hok
  unfold Side.ret
  split
  · exact hs
  · rename_i rest hframes
    rw [hframes] at hok
    have hback := hs.closeFrame hframes
    split
    · exact hback
    · rename_i hexits
      refine hback.drained fun hbuf => ?_
      rcases hs.waiter_of_frame hframes with hf | ⟨hf, hatt, hrest, -⟩
      · exact .inl hf
      · have hsome : s.emptyWaiter.isSome = true := by rcases hf with hf | hf <;> rw [hf] <;> rfl
        obtain ⟨hno, hc⟩ := hok (Bool.eq_false_iff.mpr hexits) hbuf hatt hsome
        exact .inr ⟨hf.resolve_right fun hf => hno (.inl hf), hc, hrest⟩
  · rename_i rest hframes
    rw [hframes] at hok
    have hclosing : s.closing = true := hs.leaving (by rw [hframes]; exact List.mem_cons_self ..)
    have hback := hs.closeFrame hframes
    have hw := hs.watched
    unfold Watched at hw
    rcases hs.waiter_of_frame hframes with hf | ⟨hf, hatt, hrest, hlost⟩
    · rw [hf] at hw
      have hsettle : settle { s with frames := rest, attached := false } .exception =
          { s with frames := rest, attached := false } := by
        rw [settle, show s.emptyWaiter = none from hf]
      rw [hsettle]
      refine ⟨hs.raised, hs.lost, fun hc => ?_, hback.leaving, hs.queued, ?_⟩
      · rw [show s.closing = true from hclosing] at hc
        cases hc
      · unfold Watched
        rw [show s.emptyWaiter = none from hf]
        exact hw
    · have hpending := hf.resolve_right fun hf => hok (.inl hf)
      obtain ⟨hl, hno⟩ := hlost rfl
      rw [hpending] at hw
      have hready : s.ready = [] := by
        rcases hs.queued with hr | hr | ⟨-, hr | hr | hr⟩
        · exact hr
        · exact absurd (by rw [hr]; exact List.mem_cons_self ..) hw.1
        all_goals exact absurd (by rw [hr]; simp) hno
      have hsettle : settle { s with frames := rest, attached := false } .exception =
          { s with frames := rest, attached := false, emptyWaiter := some .exception
                   ready := [.wake] } := by
        rw [settle, show s.emptyWaiter = some .pending from hpending]
        show { s with frames := rest, attached := false, emptyWaiter := some .exception
                      ready := s.ready ++ [Entry.wake] } = _
        rw [hready]
        rfl
      rw [hsettle]
      refine ⟨hs.raised, hs.lost, fun hc => ?_, hback.leaving, .inr (.inl rfl), ?_⟩
      · rw [show s.closing = true from hclosing] at hc
        cases hc
      · exact ⟨rfl, hl, by simp, hrest⟩

theorem queued_tail {e : Entry} {rest : List Entry} (hs : Inv s) (hready : s.ready = e :: rest) :
    (e = .wake → .wake ∉ rest ∧ (rest = [] ∨ s.connLost ≠ 0 ∧ rest = [.connectionLost])) ∧
      (e = .connectionLost →
        s.connLost ≠ 0 ∧ .connectionLost ∉ rest ∧ (rest = [] ∨ rest = [.wake])) := by
  rcases hs.queued with hr | hr | ⟨hl, hr | hr | hr⟩ <;> rw [hready] at hr <;> cases hr
  · exact ⟨fun _ => ⟨List.not_mem_nil, .inl rfl⟩, nofun⟩
  · exact ⟨nofun, fun _ => ⟨hl, List.not_mem_nil, .inl rfl⟩⟩
  · exact ⟨fun _ => ⟨by decide, .inr ⟨hl, rfl⟩⟩, nofun⟩
  · exact ⟨nofun, fun _ => ⟨hl, by decide, .inr rfl⟩⟩

theorem popTeardown (hs : Inv s) {rest : List Entry} (hready : s.ready = .connectionLost :: rest)
    (hframes : s.frames = []) (hno : ¬ s.Forsaken) :
    Inv (Side.callConnectionLost { s with ready := rest }) := by
  obtain ⟨hl, hrest, hqueue⟩ := (hs.queued_tail hready).2 rfl
  have hw := hs.watched
  unfold Watched at hw
  have hwaiter : s.emptyWaiter = none ∨ s.emptyWaiter = some .pending := by
    unfold Forsaken at hno
    cases hf : s.emptyWaiter with
    | none => exact .inl rfl
    | some f =>
        rw [hf] at hw hno
        cases f with
        | pending => exact .inr rfl
        | cancelled => exact absurd (.inl rfl) hno
        | exception => exact absurd (by rw [hready]; exact List.mem_cons_self ..) hw.2.2.1
        | result =>
            -- Without the wakeup behind it, the future has been forsaken.
            rcases hqueue with rfl | rfl
            · exact absurd (.inr ⟨.inl rfl, by rw [hready]; decide⟩) hno
            · exact absurd hready hw.2.2.2
  have hwake : .wake ∉ s.ready → .wake ∉ rest := by
    intro h hmem
    exact h (by rw [hready]; exact List.mem_cons_of_mem _ hmem)
  have hpop : Inv { s with ready := rest } := by
    refine ⟨hs.raised, hs.lost, hs.attached, hs.leaving, ?_, ?_⟩
    · exact hqueue.imp_right .inl
    · unfold Watched
      rcases hwaiter with hf | hf <;> rw [hf] at hw
      · rw [show s.emptyWaiter = none from hf]
        exact hwake hw
      · rw [show s.emptyWaiter = some .pending from hf]
        exact ⟨hwake hw.1, hw.2.1, .inl hframes⟩
  refine hpop.callConnectionLost (hs.lost hl) ?_
  exact hwaiter.imp_right fun hf => ⟨hf, hframes, hl, hrest⟩

theorem popWake (hs : Inv s) {rest : List Entry} (hready : s.ready = .wake :: rest) :
    Inv (Side.wake { s with ready := rest }) := by
  obtain ⟨hno, hrest⟩ := (hs.queued_tail hready).1 rfl
  have hw := hs.watched
  unfold Watched at hw
  have hqueue : rest = [] ∨ rest = [.wake] ∨ s.connLost ≠ 0 ∧
      (rest = [.connectionLost] ∨ rest = [.wake, .connectionLost] ∨
        rest = [.connectionLost, .wake]) :=
    hrest.imp_right fun h => .inr ⟨h.1, .inl h.2⟩
  have hmem : Entry.wake ∈ s.ready := by rw [hready]; exact List.mem_cons_self ..
  unfold Side.wake
  split
  · exact ⟨hs.raised, hs.lost, hs.attached, hs.leaving, hqueue, hno⟩
  · refine ⟨hs.raised, hs.lost, hs.attached, hs.leaving, hqueue, ?_⟩
    unfold Watched
    cases hf : s.emptyWaiter with
    | none =>
        rw [hf] at hw
        exact absurd hmem hw
    | some f =>
        rw [hf] at hw
        have hframed :
            Side.Framed s → Side.Framed { s with ready := rest, mustCancel := false } := by
          rintro (h | h | ⟨h, hl, hout⟩)
          · exact .inl h
          · exact .inr (.inl h)
          · refine .inr (.inr ⟨h, hl, fun hin => hout ?_⟩)
            rw [hready]
            exact List.mem_cons_of_mem _ hin
        cases f with
        | pending => exact absurd hmem hw.1
        | cancelled => exact ⟨hw.1, hframed hw.2⟩
        | result =>
            refine ⟨hw.1, hw.2.1, hw.2.2.1, ?_⟩
            rcases hrest with h | ⟨-, h⟩
            · show rest ≠ _
              rw [h]
              decide
            · show rest ≠ _
              rw [h]
              decide
        | exception =>
            refine ⟨hw.1, hw.2.1, fun hin => hw.2.2.1 ?_, hw.2.2.2⟩
            rw [hready]
            exact List.mem_cons_of_mem _ hin

/-- The batch takes a callback, and the teardown does not come before the
wakeup of a future that is done. -/
theorem popReady (hs : Inv s) (hframes : s.frames = []) (hok : Careful h s .popReady) :
    Inv s.popReady := by
  unfold Side.popReady
  split
  · exact hs
  · rename_i rest hready
    exact hs.popTeardown hready hframes (hok (by rw [hready]; rfl))
  · rename_i rest hready
    exact hs.popWake hready

theorem sendfile (hs : Inv s) (hframes : s.frames = []) : Inv s.sendfile := by
  unfold Side.sendfile
  split
  · exact hs
  rename_i hgo
  have hw := hs.watched
  unfold Watched at hw
  simp only [Bool.or_eq_true, decide_eq_true_eq, not_or, Option.not_isSome_iff_eq_none] at hgo
  obtain ⟨⟨hc, hnone⟩, hbuf⟩ := hgo
  rw [hnone] at hw
  refine ⟨hs.raised, hs.lost, hs.attached, hs.leaving, hs.queued, ?_⟩
  exact ⟨hw, hs.attached (Bool.eq_false_iff.mpr hc), .inl hframes⟩

theorem cancel (hs : Inv s) : Inv s.cancel := by
  have hw := hs.watched
  unfold Watched at hw
  unfold Side.cancel
  split
  · exact hs
  · rename_i hf
    rw [hf] at hw
    obtain ⟨hno, hatt, hframed⟩ := hw
    refine ⟨hs.raised, hs.lost, hs.attached, hs.leaving, ?_, hatt, ?_⟩
    · unfold Queued
      rcases hs.queued with hr | hr | ⟨hl, hr | hr | hr⟩
      · exact .inr (.inl (by rw [hr]; rfl))
      · exact absurd (by rw [hr]; simp) hno
      · exact .inr (.inr ⟨hl, .inr (.inr (by rw [hr]; rfl))⟩)
      · exact absurd (by rw [hr]; simp) hno
      · exact absurd (by rw [hr]; simp) hno
    · rcases hframed with h | h | ⟨h, hl, hout⟩
      · exact .inl h
      · exact .inr (.inl h)
      · refine .inr (.inr ⟨h, hl, fun hin => ?_⟩)
        rcases List.mem_append.mp hin with hin | hin
        · exact hout hin
        · cases List.mem_singleton.mp hin
  · split
    · exact hs.same rfl Iff.rfl rfl rfl rfl rfl rfl fun _ h => h
    · exact hs

theorem step (hs : Inv s) (m : Move) (hok : Careful h s m) : Inv (s.step h m) := by
  cases m with
  | close => exact hs.close
  | abort => exact hs.forceClose
  | write data a => exact hs.write data a
  | writelines lines a resumes => exact hs.writelines lines a resumes
  | writeEof => exact hs.same rfl Iff.rfl rfl rfl rfl rfl rfl fun _ h => h
  | ret exits => exact hs.ret exits hok
  | fire a resumes =>
      show Inv (if s.frames = [] then s.writeReady h a resumes else s)
      split
      · rename_i hframes
        exact hs.writeReady (fun _ => hframes) hok
      · exact hs
  | popReady =>
      show Inv (if s.frames = [] then s.popReady else s)
      split
      · rename_i hframes
        exact hs.popReady hframes hok
      · exact hs
  | sendfile =>
      show Inv (if s.frames = [] then s.sendfile else s)
      split
      · rename_i hframes
        exact hs.sendfile hframes
      · exact hs
  | cancel => exact hs.cancel

end Inv

end Side

open Side

/-- **A future is completed at most once**, in every state of a run whose steps
are careful. -/
theorem completed_once (h : Handler) (ms : List Move)
    (hok : EachMove (step h) (Careful h) .new ms) :
    Throughout (step h) (fun s => s.raised = false) .new ms :=
  throughout_of_eachMove (fun _ m hs hm => hs.step m hm) (fun _ hs => hs.raised) Inv.new hok

/-- The buffer drains and the task goes on before the transport is closed. -/
theorem completed_once_drained :
    Throughout (step (.sendmsg 16)) (fun s => s.raised = false) .new
      [.write [1, 2] (.done 1), .sendfile, .fire (.done 1) false, .close, .popReady, .popReady,
        .ret false] :=
  completed_once _ _ (by decide)

/-- Two runs in which a future is completed twice: the writer empties the buffer
of a closing transport, and the writer fails before the teardown. -/
theorem completed_twice :
    ¬ Throughout (step (.sendmsg 16)) (fun s => s.raised = false) .new
        [.write [1, 2] (.done 1), .sendfile, .close, .fire (.done 1) false, .ret false] ∧
      ¬ Throughout (step (.sendmsg 16)) (fun s => s.raised = false) .new
        [.write [1, 2] (.done 1), .sendfile, .fire (.fail 104) false, .popReady,
          .ret false] := by
  constructor
  · rintro ⟨-, -, -, -, -, h⟩
    exact absurd h.head (by decide)
  · rintro ⟨-, -, -, -, -, h⟩
    exact absurd h.head (by decide)

end Tokioop.Transport.EmptyWaiter
