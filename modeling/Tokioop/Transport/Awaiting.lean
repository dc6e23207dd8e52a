import Mathlib.Logic.Relation
import Tokioop.Transport.EmptyWaiter
import Tokioop.Transport.Once

/-!
The machine that waits for an empty buffer can do what the transport does.

`Follows` is a transport as the machine sees it. What the protocol does to the
transport before a call of it returns is taken to be something that moves of the
machine do as well (`awaiting`); then so is what is done by the method that has
made the call, and an `InvalidStateError` that it raises is one that the machine
has recorded.
-/

namespace Tokioop.Transport.EmptyWaiter

open Fd Kit Kit.Prog Relation

/-- What the transport can tell of the future. -/
def Fut.waiter : Fut → Waiter
  | .pending => .pending
  | .result | .exception | .cancelled => .done

/-- No protocol is set on a transport that has been torn down. -/
structure Side.Follows (s : Side) (w : World) : Prop where
  buffer : w.buffer = s.buffer
  eof : w.eof = s.eof
  connLost : w.connLost = s.connLost
  closing : w.closing = s.closing
  attached : w.attached = s.attached
  waiter : w.emptyWaiter = s.emptyWaiter.map Fut.waiter
  scheduled : w.scheduled = s.ready.count .connectionLost
  bare : w.attached = false → w.protocol = none

/-- What holds of a transport between calls, and how much it gathers for a write. -/
abbrev Standing (iovMax : Nat) (w : World) : Prop := Base w ∧ w.iovMax = iovMax

/-- What moves of the machine lead to. -/
def Reaches (iovMax : Nat) : Side → Side → Prop :=
  ReflTransGen fun s t => ∃ m, t = s.step (.sendmsg iovMax) m

/-- The same calls of the protocol are open, and a closing transport still is. -/
structure Side.Level (s t : Side) : Prop where
  frames : t.frames = s.frames
  closing : s.closing = true → t.closing = true

theorem Side.Level.refl (s : Side) : s.Level s := ⟨rfl, id⟩

theorem Side.Level.trans {s t u : Side} (h : s.Level t) (h' : t.Level u) : s.Level u :=
  ⟨h'.frames.trans h.frames, h'.closing ∘ h.closing⟩

/-- What moves lead to by the time that the calls they have opened are over. -/
def Returns (iovMax : Nat) (s t : Side) : Prop := Reaches iovMax s t ∧ s.Level t

/-- What the protocol does by the time it returns is what moves of the machine do,
and its `connection_lost` raises no `InvalidStateError`. -/
def awaiting (iovMax : Nat) : Contract World UserCall Nat Exc Query Reply where
  Inv w := Standing iovMax w ∧ ∃ s : Side, s.Follows w
  Rely w w' := ∀ s : Side, s.Follows w → ∃ s', Returns iovMax s s' ∧ s'.Follows w'
  Ret _ r _ := r ≠ .error .invalidState
  Answer _ _ _ := True
  refl _ s hs := ⟨s, ⟨.refl, .refl s⟩, hs⟩
  trans h h' s hs := by
    obtain ⟨s', hs', hw'⟩ := h s hs
    obtain ⟨s'', hs'', hw''⟩ := h' s' hw'
    exact ⟨s'', ⟨hs'.1.trans hs''.1, hs'.2.trans hs''.2⟩, hw''⟩

/-- A method that was called in `s` leaves what the machine has come to. -/
def Side.Comes (iovMax : Nat) (s : Side) (r : Except Exc Unit) (w : World) : Prop :=
  Standing iovMax w ∧
    ∃ s', Returns iovMax s s' ∧ s'.Follows w ∧ (r = .error .invalidState → s'.raised = true)

section

variable {iovMax : Nat} {s s' : Side} {w w' : World} {r : Except Exc Unit}

/-! ### Moves -/

theorem Reaches.next (h : Reaches iovMax s s') (m : Side.Move) :
    Reaches iovMax s (s'.step (.sendmsg iovMax) m) :=
  h.tail ⟨m, rfl⟩

/-- One move, and it comes to `s'`. -/
theorem Returns.move (m : Side.Move) (hstep : s.step (.sendmsg iovMax) m = s')
    (hs : s.Level s') : Returns iovMax s s' :=
  ⟨.single ⟨m, hstep.symm⟩, hs⟩

/-- The machine sees only a part of the transport. -/
structure Unseen (w w' : World) : Prop where
  buffer : w'.buffer = w.buffer
  eof : w'.eof = w.eof
  connLost : w'.connLost = w.connLost
  closing : w'.closing = w.closing
  attached : w'.attached = w.attached
  emptyWaiter : w'.emptyWaiter = w.emptyWaiter
  ready : w'.ready = w.ready
  protocol : w'.protocol = w.protocol
  iovMax : w'.iovMax = w.iovMax

theorem Unseen.refl (w : World) : Unseen w w := ⟨rfl, rfl, rfl, rfl, rfl, rfl, rfl, rfl, rfl⟩

theorem Unseen.keeps (h : Unseen w w') (hw : Standing iovMax w) :
    Standing iovMax w' := by
  refine ⟨⟨?_, ?_, ?_⟩, h.iovMax.trans hw.2⟩
  · rw [h.connLost, h.closing]
    exact hw.1.lost
  · rw [h.closing, h.attached, h.protocol]
    exact hw.1.attached
  · rw [h.ready, h.closing]
    exact hw.1.jobs

namespace Side.Follows

theorem unseen (h : s.Follows w) (hw : Unseen w w') : s.Follows w' := by
  refine ⟨hw.buffer.trans h.buffer, hw.eof.trans h.eof, hw.connLost.trans h.connLost,
    hw.closing.trans h.closing, hw.attached.trans h.attached, hw.emptyWaiter.trans h.waiter, ?_, ?_⟩
  · rw [World.scheduled, hw.ready]
    exact h.scheduled
  · rw [hw.attached, hw.protocol]
    exact h.bare

/-- The transport does not show which calls are open. -/
theorem frames (h : s.Follows w) (fs : List Frame) : Side.Follows { s with frames := fs } w :=
  ⟨h.buffer, h.eof, h.connLost, h.closing, h.attached, h.waiter, h.scheduled, h.bare⟩

end Side.Follows

namespace Side.Comes

theorem stay (hw : Standing iovMax w) (h : s.Follows w) (hr : r ≠ .error .invalidState) :
    s.Comes iovMax r w :=
  ⟨hw, s, ⟨.refl, .refl s⟩, h, fun he => absurd he hr⟩

theorem of (hs : Returns iovMax s s') (hw : Standing iovMax w) (h : s'.Follows w)
    (hr : r ≠ .error .invalidState) : s.Comes iovMax r w :=
  ⟨hw, s', hs, h, fun he => absurd he hr⟩

theorem unseen (h : s.Comes iovMax r w) (hw : Unseen w w') : s.Comes iovMax r w' := by
  obtain ⟨hbase, s', hs', hfollows, hr⟩ := h
  exact ⟨hw.keeps hbase, s', hs', hfollows.unseen hw, hr⟩

theorem after (h : Returns iovMax s s') (hs : s'.Comes iovMax r w) : s.Comes iovMax r w := by
  obtain ⟨hw, t, ht, hfollows, hr⟩ := hs
  exact ⟨hw, t, ⟨h.1.trans ht.1, h.2.trans ht.2⟩, hfollows, hr⟩

end Side.Comes

/-! ### Closing -/

theorem Side.Follows.forceClosed (h : s.Follows w) (hl : w.connLost = 0) (ha : w.attached = true)
    (exc : Option Exc) : s.forceClose.Follows (w.forceClosed exc) := by
  unfold Side.forceClose
  rw [if_neg (not_not_intro (h.connLost.symm.trans hl)), if_pos (h.attached.symm.trans ha)]
  refine ⟨rfl, h.eof, congrArg (· + 1) hl, rfl, h.attached, h.waiter, ?_, h.bare⟩
  have hcount : (w.forceClosed exc).scheduled = w.scheduled + 1 := by
    simp [World.forceClosed, World.scheduled, Job.isTeardown]
  rw [hcount, h.scheduled, List.count_append, List.count_singleton_self]

theorem level_forceClose (s : Side) : s.Level s.forceClose := by
  unfold Side.forceClose
  split_ifs
  · exact .refl s
  · exact ⟨rfl, fun _ => rfl⟩
  · exact ⟨rfl, id⟩
  · exact ⟨rfl, id⟩

theorem comes_forceClose {C : Contract World UserCall Nat Exc Query Reply} (exc : Option Exc)
    (hw : Standing iovMax w) (h : s.Follows w) :
    (forceClose exc).wp C (s.Comes iovMax) w := by
  refine wp_forceClose exc hw.1 (fun _ => .stay hw h (by simp)) (fun hl ha => ?_) fun hl ha => ?_
  · exact .of (.move .abort rfl (level_forceClose s)) ⟨.of_closing rfl, hw.2⟩
      (h.forceClosed hl ha exc) (by simp)
  · have hc := hw.1.closing_of_detached ha
    have hstep : s.step (.sendmsg iovMax) .abort =
        if s.buffer = [] then { s with connLost := 1 } else { s with buffer := [] } := by
      show s.forceClose = _
      unfold Side.forceClose
      rw [if_neg (not_not_intro (h.connLost.symm.trans hl)),
        if_neg (Bool.eq_false_iff.mp (h.attached.symm.trans ha))]
    by_cases hbuf : w.buffer = []
    · rw [if_pos hbuf]
      rw [if_pos (h.buffer.symm.trans hbuf)] at hstep
      refine .of (.move .abort hstep ⟨rfl, id⟩) ⟨.of_closing hc, hw.2⟩ ?_ (by simp)
      exact ⟨h.buffer, h.eof, congrArg (· + 1) hl, h.closing, h.attached, h.waiter, h.scheduled,
        h.bare⟩
    · rw [if_neg hbuf]
      rw [if_neg (h.buffer ▸ hbuf)] at hstep
      refine .of (.move .abort hstep ⟨rfl, id⟩) ⟨.of_closing hc, hw.2⟩ ?_ (by simp)
      exact ⟨rfl, h.eof, h.connLost, h.closing, h.attached, h.waiter, h.scheduled, h.bare⟩

theorem comes_close {C : Contract World UserCall Nat Exc Query Reply}
    (hw : Standing iovMax w) (h : s.Follows w) : close.wp C (s.Comes iovMax) w := by
  have hb : Base { w with readReadyCb := none } := ⟨hw.1.lost, hw.1.attached, hw.1.jobs⟩
  have hfollows : s.Follows { w with readReadyCb := none } := h.unseen { Unseen.refl w with }
  unfold close
  rw [wp_bind, wp_modify]
  refine wp_baseClose hb (fun _ => .stay ⟨hb, hw.2⟩ hfollows (by simp)) fun hc => ?_
  have hstep : s.step (.sendmsg iovMax) .close =
      if s.buffer = [] then
        { s with
          closing := true
          connLost := s.connLost + 1
          ready := s.ready ++ [.connectionLost] }
      else { s with closing := true } := by
    show s.close = _
    unfold Side.close
    rw [if_neg (Bool.eq_false_iff.mp (h.closing.symm.trans hc))]
  unfold World.closed
  by_cases hbuf : w.buffer = []
  · rw [if_pos hbuf]
    rw [if_pos (h.buffer.symm.trans hbuf)] at hstep
    refine .of (.move .close hstep ⟨rfl, fun _ => rfl⟩) ⟨.of_closing rfl, hw.2⟩ ?_ (by simp)
    refine ⟨h.buffer, h.eof, congrArg (· + 1) h.connLost, rfl, h.attached, h.waiter, ?_, h.bare⟩
    rw [List.count_append, List.count_singleton_self, ← h.scheduled]
    simp [World.scheduled, Job.isTeardown]
  · rw [if_neg hbuf]
    rw [if_neg (h.buffer ▸ hbuf)] at hstep
    refine .of (.move .close hstep ⟨rfl, fun _ => rfl⟩) ⟨.of_closing rfl, hw.2⟩ ?_ (by simp)
    exact ⟨h.buffer, h.eof, h.connLost, rfl, h.attached, h.waiter, h.scheduled, h.bare⟩

theorem comes_writeEof {C : Contract World UserCall Nat Exc Query Reply}
    (hw : Standing iovMax w) (h : s.Follows w) : writeEof.wp C (s.Comes iovMax) w := by
  unfold writeEof
  rw [wp_bind, wp_get]
  show wp C (if (w.closing || w.eof) = true then _ else _) _ w
  split
  · exact .stay hw h (by simp)
  rename_i hopen
  simp only [Bool.or_eq_true, not_or, Bool.not_eq_true] at hopen
  have hfollows : Side.Follows (s.step (.sendmsg iovMax) .writeEof) { w with eof := true } := by
    refine ⟨h.buffer, ?_, h.connLost, h.closing, h.attached, h.waiter, h.scheduled, h.bare⟩
    show true = (s.eof || !s.closing)
    rw [← h.closing, hopen.1, Bool.not_false, Bool.or_true]
  have hmove : ∀ w' : World, Base w' → w'.iovMax = iovMax →
      (s.step (.sendmsg iovMax) .writeEof).Follows w' → s.Comes iovMax (.ok ()) w' :=
    fun w' hb hi hf => .of (.move .writeEof rfl ⟨rfl, id⟩) ⟨hb, hi⟩ hf (by simp)
  have hb : Base { w with eof := true } := ⟨hw.1.lost, hw.1.attached, hw.1.jobs⟩
  rw [wp_bind, wp_modify]
  show wp C (if w.buffer = [] then _ else _) _ { w with eof := true }
  split
  · unfold shutdownWrite
    rw [wp_onLoop]
    refine ⟨fun _ => ?_, fun ha => ?_⟩
    · exact hmove _ ⟨hb.lost, hb.attached, hb.jobs⟩ hw.2
        (hfollows.unseen { Unseen.refl _ with })
    · exact absurd ((hw.1.closing_of_detached ha).symm.trans hopen.1) Bool.true_eq_false.mp
  · exact hmove _ hb hw.2 hfollows

/-! ### Flow control -/

/-- The call has gone through, with what the protocol has done in it. -/
def Flows (iovMax : Nat) (w : World) (r : Except Exc Unit) (t : World) : Prop :=
  ((awaiting iovMax).Inv t ∧ (awaiting iovMax).Rely w t) ∧ r ≠ .error .invalidState

theorem Flows.comes (hf : Flows iovMax w r w') (h : s.Follows w) : s.Comes iovMax r w' := by
  obtain ⟨⟨hw', hrely⟩, hr⟩ := hf
  obtain ⟨s', hs', hfollows⟩ := hrely s h
  exact .of hs' hw'.1 hfollows hr

theorem Unseen.rely (h : Unseen w w') (hw : (awaiting iovMax).Inv w) :
    (awaiting iovMax).Inv w' ∧ (awaiting iovMax).Rely w w' :=
  ⟨⟨h.keeps hw.1, hw.2.imp fun _ hs => hs.unseen h⟩,
    fun s hs => ⟨s, ⟨.refl, .refl s⟩, hs.unseen h⟩⟩

theorem flows_callExceptionHandler (message : String) (exc : Exc)
    (hw : (awaiting iovMax).Inv w) :
    (callExceptionHandler message exc).wp (awaiting iovMax) (Flows iovMax w) w := by
  unfold callExceptionHandler
  rw [wp_bind, wp_get]
  show wp _ (if w.attached = true then _ else _) _ w
  split
  · rw [wp_tryCatch, wp_discard]
    have hlogged : Unseen w (w.logged (.exceptionHandler message exc)) := { Unseen.refl w with }
    obtain ⟨hl, hlr⟩ := hlogged.rely hw
    refine ⟨hl, fun t r ht htr _ => ?_⟩
    have hflows : Flows iovMax w (.ok ()) t :=
      ⟨⟨ht, (awaiting iovMax).trans hlr htr⟩, by simp⟩
    cases r with
    | ok a => exact hflows
    | error x => exact hflows
  · exact ⟨⟨hw, (awaiting iovMax).refl w⟩, by simp⟩

theorem flows_flowControl (e : UserCall) (message : String) (hw : (awaiting iovMax).Inv w) :
    (flowControl e message).wp (awaiting iovMax) (Flows iovMax w) w := by
  have hreport : ∀ exc t, (awaiting iovMax).Inv t → (awaiting iovMax).Rely w t →
      (if exc.exits then raise exc else callExceptionHandler message exc : Meth Unit).wp
        (awaiting iovMax) (Flows iovMax w) t := by
    intro exc t ht htr
    split
    · rename_i hx
      refine ⟨⟨ht, htr⟩, fun he => ?_⟩
      cases he
      cases hx
    · refine wp_mono _ (fun r u hu => ?_) (flows_callExceptionHandler message exc ht)
      exact ⟨⟨hu.1.1, (awaiting iovMax).trans htr hu.1.2⟩, hu.2⟩
  unfold flowControl
  rw [wp_tryCatch, wp_bind, wp_get]
  show wp _ (if w.protocol.isSome = true then _ else _) _ w
  split
  · have hlogged : Unseen w (w.logged e) := { Unseen.refl w with }
    obtain ⟨hl, hlr⟩ := hlogged.rely hw
    rw [wp_discard]
    refine ⟨hl, fun t r ht htr _ => ?_⟩
    have hr := (awaiting iovMax).trans hlr htr
    cases r with
    | ok a => exact ⟨⟨ht, hr⟩, by simp⟩
    | error x => exact hreport x t ht hr
  · exact hreport _ w hw ((awaiting iovMax).refl w)

/-- With `pause_writing` or without. -/
theorem flows_maybePauseProtocol (hw : (awaiting iovMax).Inv w) :
    maybePauseProtocol.wp (awaiting iovMax) (Flows iovMax w) w := by
  unfold maybePauseProtocol
  rw [wp_bind, wp_get]
  show wp _ (if w.getWriteBufferSize ≤ w.highWater ∨ w.protocolPaused = true then _ else _) _ w
  split
  · exact ⟨⟨hw, (awaiting iovMax).refl w⟩, by simp⟩
  · have hpaused : Unseen w { w with protocolPaused := true } := { Unseen.refl w with }
    obtain ⟨ht, htr⟩ := hpaused.rely hw
    rw [wp_bind, wp_modify]
    refine wp_mono _ (fun r u hu => ?_) (flows_flowControl _ _ ht)
    exact ⟨⟨hu.1.1, (awaiting iovMax).trans htr hu.1.2⟩, hu.2⟩

/-! ### `write` -/

theorem comes_fatalError (exc : Exc) (message : String) (hw : Standing iovMax w)
    (h : s.Follows w) : (fatalError exc message).wp (awaiting iovMax) (s.Comes iovMax) w := by
  have hu : Unseen w { w with fatal := true } := { Unseen.refl w with }
  obtain ⟨ht, htr⟩ := hu.rely ⟨hw, s, h⟩
  unfold fatalError
  rw [wp_bind, wp_modify]
  show wp _ (reportFatal exc message >>= _) _ _
  rw [wp_bind]
  have hreport : (reportFatal exc message).wp (awaiting iovMax) (Flows iovMax w)
      { w with fatal := true } := by
    unfold reportFatal
    split
    · unfold getDebug
      rw [wp_bind, wp_get]
      show wp _ (if w.attached = true then _ else _) _ _
      split
      · exact ⟨⟨ht, htr⟩, by simp⟩
      · exact ⟨⟨ht, htr⟩, by simp⟩
    · refine wp_mono _ (fun r u hu => ?_) (flows_callExceptionHandler message exc ht)
      exact ⟨⟨hu.1.1, (awaiting iovMax).trans htr hu.1.2⟩, hu.2⟩
  refine wp_mono _ (fun r t ht => ?_) hreport
  cases r with
  | error e => exact ht.comes h
  | ok a =>
      obtain ⟨s', hs', hfollows⟩ := ht.1.2 s h
      exact wp_mono _ (fun _ _ hc => .after hs' hc) (comes_forceClose (some exc) ht.1.1.1 hfollows)

theorem comes_bufferRest (data : List UInt8) (hw : Standing iovMax w)
    (hs : Returns iovMax s s') (h : s'.Follows { w with buffer := w.buffer ++ [data] }) :
    (bufferRest data).wp (awaiting iovMax) (s.Comes iovMax) w := by
  unfold bufferRest
  rw [wp_bind, wp_modify]
  refine wp_mono _ (fun r t ht => .after hs (ht.comes h)) (flows_maybePauseProtocol ?_)
  exact ⟨⟨hw.1.buffered _, hw.2⟩, s', h⟩

theorem write_lost {data : List UInt8} (a : Reply) (heof : s.eof = false)
    (hnone : s.emptyWaiter = none) (hd : data ≠ []) (hl : s.connLost ≠ 0) :
    s.write data a = { s with connLost := s.connLost + 1 } := by
  simp [Side.write, heof, hnone, hd, hl]

theorem write_queued {data : List UInt8} (a : Reply) (heof : s.eof = false)
    (hnone : s.emptyWaiter = none) (hd : data ≠ []) (hl : s.connLost = 0) (hbuf : s.buffer ≠ []) :
    s.write data a = { s with buffer := s.buffer ++ [data] } := by
  simp [Side.write, heof, hnone, hd, hl, hbuf]

theorem write_rest {data : List UInt8} {n : Nat} (heof : s.eof = false)
    (hnone : s.emptyWaiter = none) (hl : s.connLost = 0) (hbuf : s.buffer = [])
    (ha : s.attached = true) (hrest : data.drop n ≠ []) :
    s.write data (.done n) = { s with buffer := [data.drop n] } := by
  have hd : data ≠ [] := fun hd => hrest (by rw [hd, List.drop_nil])
  simp only [Side.write, heof, hnone, hd, hl, hbuf, ha, hrest, Option.isSome_none, Bool.or_false,
    Bool.false_eq_true, ne_eq, not_true_eq_false, if_true, if_false]

theorem Side.Follows.waiter_none (h : s.Follows w) (hw : w.emptyWaiter = none) :
    s.emptyWaiter = none := by
  rw [h.waiter] at hw
  exact Option.map_eq_none_iff.mp hw

theorem comes_write (data : List UInt8) (hw : Standing iovMax w) (h : s.Follows w) :
    (write data).wp (awaiting iovMax) (s.Comes iovMax) w := by
  have hoffer : Unseen w (w.offer data) := { Unseen.refl w with }
  by_cases hgo : w.emptyWaiter = none ∧ data ≠ []
  · obtain ⟨hwaiter, hd⟩ := hgo
    have hnone := h.waiter_none hwaiter
    have hstay : ∀ {r w'}, Unseen w w' → r ≠ .error .invalidState → s.Comes iovMax r w' :=
      fun hu hr => .stay (hu.keeps hw) (h.unseen hu) hr
    refine wp_write (fun _ _ => hstay (.refl w) (by simp)) (fun _ hnil => absurd hnil hd)
      (fun heof hl => ?_) (fun heof hl hbuf _ => ?_)
      (fun _ _ _ _ => comes_fatalError _ _ (hoffer.keeps hw) (h.unseen hoffer))
      (fun _ _ _ _ _ _ _ => comes_fatalError _ _ (hoffer.keeps hw) (h.unseen hoffer))
      (fun _ _ _ _ _ _ _ => hstay { Unseen.refl w with } (by simp))
      fun heof hl hbuf ha n hrest => ?_
    · have hstep := write_lost .wouldBlock (h.eof ▸ heof) hnone hd (h.connLost ▸ hl)
      refine .of (.move (.write data .wouldBlock) hstep ⟨rfl, id⟩)
        ⟨.of_closing (hw.1.lost hl), hw.2⟩ ?_ (by simp)
      exact ⟨h.buffer, h.eof, congrArg (· + 1) h.connLost, h.closing, h.attached, h.waiter,
        h.scheduled, h.bare⟩
    · have hstep := write_queued .wouldBlock (h.eof ▸ heof) hnone hd (h.connLost ▸ hl)
        (h.buffer ▸ hbuf)
      refine comes_bufferRest data (hoffer.keeps hw)
        (.move (.write data .wouldBlock) hstep ⟨rfl, id⟩) ?_
      exact ⟨congrArg (· ++ [data]) h.buffer, h.eof, h.connLost, h.closing, h.attached, h.waiter,
        h.scheduled, h.bare⟩
    · have hstep := write_rest (h.eof ▸ heof) hnone (h.connLost ▸ hl) (h.buffer ▸ hbuf)
        (h.attached ▸ ha) hrest
      rw [wp_bind]
      refine wp_addWriter (fun _ => hstay { Unseen.refl w with } (by simp))
        (fun _ _ _ => hstay { Unseen.refl w with } (by simp)) fun _ _ _ _ => ?_
      have hwriting : Unseen w ((w.offer data).took (data.take n)).writing :=
        { Unseen.refl w with }
      refine comes_bufferRest (data.drop n) (hwriting.keeps hw)
        (.move (.write data (.done n)) hstep ⟨rfl, id⟩) ?_
      refine ⟨?_, h.eof, h.connLost, h.closing, h.attached, h.waiter, h.scheduled, h.bare⟩
      show w.buffer ++ [data.drop n] = [data.drop n]
      rw [hbuf, List.nil_append]
  · -- What is refused or empty is not for the buffer.
    have hstay := Side.Comes.stay (r := .ok ()) (hoffer.keeps hw) (h.unseen hoffer) (by simp)
    unfold write
    rw [wp_bind, wp_get]
    show wp _ (if w.eof = true then _ else if w.emptyWaiter.isSome = true then _ else _) _ w
    split
    · exact .stay hw h (by simp)
    split
    · exact .stay hw h (by simp)
    · rename_i hwaiter
      have hnil : data = [] := by
        by_contra hd
        exact hgo ⟨Option.not_isSome_iff_eq_none.mp hwaiter, hd⟩
      rw [wp_bind, wp_modify]
      show wp _ (if data = [] then _ else _) _ _
      rw [if_pos hnil]
      exact hstay

/-! ### Completing the future -/

namespace Side

variable {f : Fut}

theorem settle_none (h : s.emptyWaiter = none) : s.settle f = s := by rw [settle, h]

theorem settle_pending (h : s.emptyWaiter = some .pending) :
    s.settle f = { s with emptyWaiter := some f, ready := s.ready ++ [.wake] } := by rw [settle, h]

theorem level_settle (s : Side) : s.Level (s.settle f) := by
  unfold settle
  split
  · exact .refl s
  · exact ⟨rfl, id⟩
  · exact ⟨rfl, id⟩

end Side

namespace Side.Follows

variable {f : Fut}

theorem future (h : s.Follows w) :
    w.emptyWaiter = none ∧ s.emptyWaiter = none ∨
      w.emptyWaiter = some .pending ∧ s.emptyWaiter = some .pending ∨
        w.emptyWaiter = some .done ∧ ∀ f, s.settle f = { s with raised := true } := by
  have hw := h.waiter
  cases hf : s.emptyWaiter with
  | none => exact .inl ⟨by rw [hw, hf]; rfl, rfl⟩
  | some fut =>
      rw [hf] at hw
      cases fut with
      | pending => exact .inr (.inl ⟨hw, rfl⟩)
      | result => exact .inr (.inr ⟨hw, fun f => by rw [settle, hf]⟩)
      | exception => exact .inr (.inr ⟨hw, fun f => by rw [settle, hf]⟩)
      | cancelled => exact .inr (.inr ⟨hw, fun f => by rw [settle, hf]⟩)

theorem recorded (h : s.Follows w) : Side.Follows { s with raised := true } w :=
  ⟨h.buffer, h.eof, h.connLost, h.closing, h.attached, h.waiter, h.scheduled, h.bare⟩

/-- A future that is not done is completed, if there is one. -/
theorem settle (h : s.Follows w) (hf : f.waiter = .done) (hne : w.emptyWaiter ≠ some .done) :
    (s.settle f).Follows { w with emptyWaiter := w.emptyWaiter.map fun _ => .done } := by
  rcases h.future with ⟨hw, hs⟩ | ⟨hw, hs⟩ | ⟨hw, -⟩
  · rw [settle_none hs, hw]
    exact ⟨h.buffer, h.eof, h.connLost, h.closing, h.attached, by rw [hs]; rfl, h.scheduled, h.bare⟩
  · rw [settle_pending hs, hw]
    refine ⟨h.buffer, h.eof, h.connLost, h.closing, h.attached, ?_, ?_, h.bare⟩
    · show some Waiter.done = some f.waiter
      rw [hf]
    · show w.scheduled = (s.ready ++ [Entry.wake]).count Entry.connectionLost
      rw [List.count_append, h.scheduled]
      rfl
  · exact absurd hw hne

end Side.Follows

theorem comes_resolveEmptyWaiter {C : Contract World UserCall Nat Exc Query Reply} {f : Fut}
    (hf : f.waiter = .done) (hw : Standing iovMax w) (h : s'.Follows w)
    (hs : Reaches iovMax s (s'.settle f)) (hlevel : s.Level s') :
    resolveEmptyWaiter.wp C (s.Comes iovMax) w := by
  have hret : Returns iovMax s (s'.settle f) := ⟨hs, hlevel.trans s'.level_settle⟩
  have hsettle := h.settle hf
  unfold resolveEmptyWaiter
  rw [wp_bind, wp_get]
  dsimp only
  rcases h.future with ⟨hwait, hnone⟩ | ⟨hwait, -⟩ | ⟨hwait, hdone⟩
  · rw [hwait]
    rw [Side.settle_none hnone] at hret
    exact .of hret hw h (by simp)
  · rw [hwait] at hsettle ⊢
    exact .of hret ⟨⟨hw.1.lost, hw.1.attached, hw.1.jobs⟩, hw.2⟩ (hsettle (by simp)) (by simp)
  · rw [hwait]
    rw [hdone] at hret
    exact ⟨hw, _, hret, h.recorded, fun _ => rfl⟩

/-! ### Tearing down -/

theorem Side.Comes.other (h : s.Comes iovMax r w) {r' : Except Exc Unit}
    (hr : r' ≠ .error .invalidState) : s.Comes iovMax r' w := by
  obtain ⟨hw, s', hs', hfollows, -⟩ := h
  exact .of hs' hw hfollows hr

/-- `connection_lost` is over, and the future is next. -/
def Side.Parted (iovMax : Nat) (s : Side) (r : Except Exc Unit) (w : World) : Prop :=
  (w.closing = true ∧ w.iovMax = iovMax) ∧ r ≠ .error .invalidState ∧
    ∃ s', s.Level s' ∧ s'.Follows w ∧ Reaches iovMax s (s'.settle .exception)

/-- A transport without its socket. -/
theorem Side.Follows.severed {t : World} (h : s'.Follows t) (fs : List Frame) :
    Side.Follows { s' with frames := fs, attached := false } t.severed := by
  unfold World.severed
  split
  · exact ⟨h.buffer, h.eof, h.connLost, h.closing, rfl, h.waiter, h.scheduled, fun _ => rfl⟩
  · rename_i ha
    exact ⟨h.buffer, h.eof, h.connLost, h.closing, Bool.eq_false_iff.mpr ha, h.waiter,
      h.scheduled, h.bare⟩

theorem Side.Parted.onLoop {t : World} (ht : s.Parted iovMax r t.severed) :
    (Transport.onLoop fun s => { s with attached := false, protocol := none }).wp (awaiting iovMax)
      (fun r' u => (r' = .ok () → s.Parted iovMax r u) ∧
        ∀ e, r' = .error e → s.Parted iovMax (.error e) u) t := by
  unfold World.severed at ht
  rw [wp_onLoop]
  refine ⟨fun ha => ?_, fun ha => ?_⟩
  · rw [if_pos ha] at ht
    exact ⟨fun _ => ht, fun e he => by cases he⟩
  · rw [if_neg (Bool.eq_false_iff.mp ha)] at ht
    refine ⟨fun he => (by cases he), fun e he => ?_⟩
    cases he
    exact ⟨ht.1, by simp, ht.2.2⟩

theorem Side.Parted.resolve (ht : s.Parted iovMax r w) :
    resolveEmptyWaiter.wp (awaiting iovMax) (fun r' u => (r' = .ok () → s.Comes iovMax r u) ∧
      ∀ e, r' = .error e → s.Comes iovMax (.error e) u) w := by
  obtain ⟨⟨hc, hi⟩, hr, s', hlevel, hs', hreach⟩ := ht
  refine wp_mono _ (fun r' u hu => ⟨fun _ => hu.other hr, fun e he => he ▸ hu⟩) ?_
  exact comes_resolveEmptyWaiter rfl ⟨.of_closing hc, hi⟩ hs' hreach hlevel

theorem ret_connectionLost {fs : List Frame} (hf : s.frames = .connectionLost :: fs)
    (exits : Bool) :
    s.ret exits = Side.settle { s with frames := fs, attached := false } .exception := by
  rw [Side.ret, hf]

/-- `connection_lost` returns, or there was nothing to call. -/
theorem parted_of_returned {t : World} (h : s'.Follows t) (hc : t.closing = true)
    (hi : t.iovMax = iovMax) (hr : r ≠ .error .invalidState) {fs : List Frame}
    (hf : s'.frames = .connectionLost :: fs) (hs : Reaches iovMax s s')
    (hlevel : s.Level { s' with frames := fs }) : s.Parted iovMax r t.severed := by
  refine ⟨?_, hr, { s' with frames := fs, attached := false }, ⟨hlevel.frames, hlevel.closing⟩,
    h.severed fs, ?_⟩
  · unfold World.severed
    split
    · exact ⟨hc, hi⟩
    · exact ⟨hc, hi⟩
  · rw [← ret_connectionLost hf false]
    exact hs.next (.ret false)

/-- The teardown, where the machine has come to it. -/
theorem comes_callConnectionLost (exc : Option Exc) (hc : w.closing = true)
    (hi : w.iovMax = iovMax) (h : s'.Follows w) (hs : Reaches iovMax s s'.callConnectionLost)
    (hlevel : s.Level s') :
    (callConnectionLost exc).wp (awaiting iovMax) (s.Comes iovMax) w := by
  have htearing : s'.Follows w.tearing := h.unseen { Unseen.refl w with }
  have hcall : w.attached = true →
      s'.callConnectionLost = { s' with frames := .connectionLost :: s'.frames } := by
    intro ha
    rw [Side.callConnectionLost, if_pos (h.attached.symm.trans ha)]
  have hskip : ∀ r : Except Exc Unit, r ≠ .error .invalidState →
      s.Parted iovMax r w.tearing.severed := by
    intro r hr
    cases ha : w.attached with
    | true =>
        rw [hcall ha] at hs
        exact parted_of_returned (htearing.frames _) hc hi hr rfl hs hlevel
    | false =>
        rw [Side.callConnectionLost, if_neg (Bool.eq_false_iff.mp (h.attached.symm.trans ha))] at hs
        have hsevered : w.tearing.severed = w.tearing := if_neg (Bool.eq_false_iff.mp ha)
        rw [hsevered]
        exact ⟨⟨hc, hi⟩, hr, s', hlevel, htearing, hs⟩
  unfold callConnectionLost baseCallConnectionLost
  rw [wp_bind, wp_modify]
  refine wp_tryFinally_of _ (wp_tryFinally_of _ (R := fun r t => s.Parted iovMax r t.severed) ?_
    fun r t ht => ht.onLoop) fun r t ht => ht.resolve
  show wp _ (get >>= _) _ w.tearing
  rw [wp_bind, wp_get]
  show wp _ (if w.protocolConnected = true then
    if w.protocol.isSome = true then _ else _ else _) _ w.tearing
  split
  · split
    · rename_i hp
      have ha : w.attached = true := by
        by_contra hno
        rw [h.bare (Bool.eq_false_iff.mpr hno)] at hp
        cases hp
      rw [hcall ha] at hs
      have hw : Standing iovMax w.tearing := ⟨.of_closing hc, hi⟩
      have hlogged : Unseen w.tearing (w.tearing.logged (.connectionLost exc)) :=
        { Unseen.refl w.tearing with }
      rw [wp_discard]
      have hcalled := (htearing.frames (.connectionLost :: s'.frames)).unseen hlogged
      refine ⟨⟨hlogged.keeps hw, _, hcalled⟩, fun t r ht htr hret => ?_⟩
      obtain ⟨s₃, hs₃, hfollows⟩ := htr _ hcalled
      have htc : t.closing = true := by
        rw [hfollows.closing]
        exact hs₃.2.closing (h.closing.symm.trans hc)
      have hgone : ∀ r : Except Exc Unit, r ≠ .error .invalidState →
          s.Parted iovMax r t.severed := by
        intro r hr
        refine parted_of_returned hfollows htc ht.1.2 hr hs₃.2.frames (hs.trans hs₃.1) ?_
        exact ⟨hlevel.frames, fun hcs => hs₃.2.closing (hlevel.closing hcs)⟩
      cases r with
      | ok a => exact hgone _ (by simp)
      | error e => exact hgone _ fun he => hret (by cases he; rfl)
    · exact hskip _ (by simp)
  · exact hskip _ (by simp)

/-! ### The writer -/

/-- `resume_writing` has been called, or has not, and `drained` is next unless
it raised what is passed on. -/
def Side.Resumes (iovMax : Nat) (s : Side) (r : Except Exc Unit) (w : World) : Prop :=
  Standing iovMax w ∧ ∃ s', s.Level s' ∧ s'.Follows w ∧
    (r = .ok () → Reaches iovMax s s'.drained) ∧
    ∀ e, r = .error e → e ≠ .invalidState ∧ Reaches iovMax s s'

theorem ret_resumeWriting {fs : List Frame} (hf : s.frames = .resumeWriting :: fs)
    (exits : Bool) :
    s.ret exits =
      if exits then { s with frames := fs } else Side.drained { s with frames := fs } := by
  rw [Side.ret, hf]

theorem resumes_maybeResumeProtocol (hw : Standing iovMax w) (h : s'.Follows w)
    (hlevel : s.Level s') (hskip : Reaches iovMax s s'.drained)
    (hcall : Reaches iovMax s { s' with frames := .resumeWriting :: s'.frames }) :
    maybeResumeProtocol.wp (awaiting iovMax) (s.Resumes iovMax) w := by
  unfold maybeResumeProtocol
  rw [wp_bind, wp_get]
  show wp _ (if w.protocolPaused = true ∧ w.getWriteBufferSize ≤ w.lowWater then _ else _) _ w
  split
  · have hu : Unseen w { w with protocolPaused := false } := { Unseen.refl w with }
    rw [wp_bind, wp_modify]
    refine wp_mono _ ?_ (flows_flowControl _ _ ⟨hu.keeps hw, s', h.unseen hu⟩)
    rintro r t ⟨⟨ht, htr⟩, hr⟩
    obtain ⟨s₂, hs₂, hfollows⟩ := htr _ ((h.frames (.resumeWriting :: s'.frames)).unseen hu)
    have hreach : Reaches iovMax s s₂ := hcall.trans hs₂.1
    refine ⟨ht.1, { s₂ with frames := s'.frames },
      ⟨hlevel.frames, fun hc => hs₂.2.closing (hlevel.closing hc)⟩, hfollows.frames _, fun _ => ?_,
      fun e he => ⟨fun hno => hr (by rw [he, hno]), ?_⟩⟩
    · have hret : Reaches iovMax s (s₂.ret false) := hreach.next (.ret false)
      rwa [ret_resumeWriting hs₂.2.frames, if_neg Bool.false_ne_true] at hret
    · have hret : Reaches iovMax s (s₂.ret true) := hreach.next (.ret true)
      rwa [ret_resumeWriting hs₂.2.frames, if_pos rfl] at hret
  · exact ⟨hw, s', hlevel, h, fun _ => hskip, fun e he => by cases he⟩

theorem drained_of_rest (h : s.buffer ≠ [] ∨ s.attached = false) : s.drained = s := by
  unfold Side.drained
  rw [if_neg]
  rintro ⟨hbuf, ha⟩
  rcases h with h | h
  · exact h hbuf
  · rw [h] at ha
    cases ha

/-- The writer finds a future that is done. -/
theorem Side.Follows.drained_done (h : s.Follows w) (hbuf : w.buffer = [])
    (ha : w.attached = true) (hd : w.emptyWaiter = some .done) :
    s.drained = { s with raised := true } := by
  have hw := h.waiter
  rw [hd] at hw
  unfold Side.drained
  rw [if_pos ⟨h.buffer.symm.trans hbuf, h.attached.symm.trans ha⟩]
  rcases h.future with ⟨hno, -⟩ | ⟨hno, -⟩ | ⟨-, hs⟩
  · exact absurd (hd.symm.trans hno) (by decide)
  · exact absurd (hd.symm.trans hno) (by decide)
  · split
    · rename_i hf
      rw [hf] at hw
      exact absurd hw (by decide)
    · rename_i hf
      rw [hf] at hw
      exact absurd hw (by decide)
    · exact hs .result

/-- The writer finds no future, or one that is pending. -/
theorem Side.Follows.drained_waiting (h : s.Follows w) (hbuf : w.buffer = [])
    (ha : w.attached = true) (hne : w.emptyWaiter ≠ some .done) :
    s.drained =
      if s.closing then (s.settle .result).callConnectionLost else s.settle .result := by
  unfold Side.drained
  rw [if_pos ⟨h.buffer.symm.trans hbuf, h.attached.symm.trans ha⟩]
  rcases h.future with ⟨-, hs⟩ | ⟨-, hs⟩ | ⟨hd, -⟩
  · rw [hs]
  · rw [hs]
  · exact absurd hd hne

theorem comes_afterSend (hw : Standing iovMax w) (h : s'.Follows w)
    (hlevel : s.Level s') (hskip : Reaches iovMax s s'.drained)
    (hcall : Reaches iovMax s { s' with frames := .resumeWriting :: s'.frames }) :
    afterSend.wp (awaiting iovMax) (s.Comes iovMax) w := by
  have hidle : ∀ t waiter, s.Resumes iovMax (.ok ()) t → t.buffer = [] → t.attached = true →
      t.closing = false → t.Completes waiter →
      s.Comes iovMax (.ok ()) { t with writer := none, emptyWaiter := waiter } := by
    rintro t _ ⟨ht, s₂, hlevel₂, hs₂, hdrained, -⟩ hbuf ha hc ⟨hne, rfl⟩
    have hreach := hdrained rfl
    rw [hs₂.drained_waiting hbuf ha hne,
      if_neg (Bool.eq_false_iff.mp (hs₂.closing.symm.trans hc))] at hreach
    exact .of ⟨hreach, hlevel₂.trans s₂.level_settle⟩
      ⟨⟨ht.1.lost, ht.1.attached, ht.1.jobs⟩, ht.2⟩
      ((hs₂.settle rfl hne).unseen { Unseen.refl _ with }) (by simp)
  refine wp_afterSend (resumes_maybeResumeProtocol hw h hlevel hskip hcall) ?_ ?_ ?_ ?_ ?_ ?_ ?_
  · rintro e t ⟨ht, s₂, hlevel₂, hs₂, -, herror⟩
    obtain ⟨he, hreach⟩ := herror e rfl
    exact .of ⟨hreach, hlevel₂⟩ ht hs₂ (by simp [he])
  · rintro t ⟨ht, s₂, hlevel₂, hs₂, hdrained, -⟩ hbuf
    have hreach := hdrained rfl
    rw [drained_of_rest (.inl (hs₂.buffer ▸ hbuf))] at hreach
    exact .of ⟨hreach, hlevel₂⟩ ht hs₂ (by simp)
  · rintro t ⟨ht, s₂, hlevel₂, hs₂, hdrained, -⟩ - ha
    have hreach := hdrained rfl
    rw [drained_of_rest (.inr (hs₂.attached.symm.trans ha))] at hreach
    exact .of ⟨hreach, hlevel₂⟩ ht hs₂ (by simp)
  · rintro t ⟨ht, s₂, hlevel₂, hs₂, hdrained, -⟩ hbuf ha hd
    have hreach := hdrained rfl
    rw [hs₂.drained_done hbuf ha hd] at hreach
    exact ⟨⟨⟨ht.1.lost, ht.1.attached, ht.1.jobs⟩, ht.2⟩, _,
      ⟨hreach, ⟨hlevel₂.frames, hlevel₂.closing⟩⟩,
      hs₂.recorded.unseen { Unseen.refl t with }, fun _ => rfl⟩
  · rintro t _ ⟨ht, s₂, hlevel₂, hs₂, hdrained, -⟩ hbuf ha hc ⟨hne, rfl⟩
    have hreach := hdrained rfl
    rw [hs₂.drained_waiting hbuf ha hne, if_pos (hs₂.closing.symm.trans hc)] at hreach
    exact comes_callConnectionLost none hc ht.2
      ((hs₂.settle rfl hne).unseen { Unseen.refl _ with }) hreach (hlevel₂.trans s₂.level_settle)
  · intro t waiter ht hbuf ha hc _ hcompletes
    exact (hidle t waiter ht hbuf ha hc hcompletes).unseen { Unseen.refl _ with }
  · exact hidle

section

variable {h : Handler} {resumes : Bool}

theorem writeReady_idle {a : Reply} (hno : s.buffer = [] ∨ s.connLost ≠ 0 ∨ s.attached = false) :
    s.writeReady h a resumes = s := by
  rcases hno with hno | hno | hno
  · rw [Side.writeReady, if_pos hno]
  · simp [Side.writeReady, hno]
  · simp [Side.writeReady, hno]

variable (hbuf : s.buffer ≠ []) (hl : s.connLost = 0) (ha : s.attached = true)
include hbuf hl ha

theorem writeReady_blocked :
    s.writeReady (.sendmsg iovMax) .wouldBlock resumes = s := by
  rw [Side.writeReady, if_neg hbuf, if_neg (not_not_intro hl), if_neg (by simp [ha])]
  rfl

theorem writeReady_failed (e : Errno) :
    s.writeReady h (.fail e) resumes =
      Side.settle (Side.forceClose { s with buffer := [] }) .exception := by
  simp [Side.writeReady, Handler.attempt, hbuf, hl, ha]

theorem writeReady_sent {n : Nat} {rest : List (List UInt8)}
    (hrest : adjustLeftoverBuffer s.buffer
      (min n (s.buffer.take iovMax).flatten.length) = some rest) :
    s.writeReady (.sendmsg iovMax) (.done n) resumes =
      if resumes then { s with buffer := rest, frames := .resumeWriting :: s.frames }
      else Side.drained { s with buffer := rest } := by
  simp only [Side.writeReady, Handler.attempt, hbuf, hl, ha, hrest, if_false, ne_eq,
    not_true_eq_false, Bool.not_true, Bool.false_eq_true]

end

/-- The handler is called where the machine takes a move that calls it, by the loop
or by `writelines`. -/
theorem comes_writeSendmsg (hw : Standing iovMax w) (h : s'.Follows w)
    (hlevel : s.Level s')
    (hs : ∀ a resumes, Reaches iovMax s (s'.writeReady (.sendmsg iovMax) a resumes)) :
    writeSendmsg.wp (awaiting iovMax) (s.Comes iovMax) w := by
  have hidle : (w.buffer = [] ∨ w.connLost ≠ 0 ∨ w.attached = false) → ∀ {r},
      r ≠ .error .invalidState → s.Comes iovMax r w := by
    intro hno r hr
    have hreach := hs .wouldBlock false
    rw [h.buffer, h.connLost, h.attached] at hno
    rw [writeReady_idle hno] at hreach
    exact .of ⟨hreach, hlevel⟩ hw h hr
  refine wp_writeSendmsg (fun hbuf => hidle (.inl hbuf) (by simp))
    (fun hl => hidle (.inr (.inl hl)) (by simp)) (fun _ _ ha => hidle (.inr (.inr ha)) (by simp))
    (fun hbuf hl ha => ?_) (fun hbuf hl ha e _ => ?_) fun hbuf hl ha n rest _ hrest _ => ?_
  all_goals
    have hbuf' := h.buffer ▸ hbuf
    have hl' := h.connLost.symm.trans hl
    have ha' := h.attached.symm.trans ha
  · have hreach := hs .wouldBlock false
    rw [writeReady_blocked hbuf' hl' ha'] at hreach
    exact .of ⟨hreach, hlevel⟩ hw h (by simp)
  · have hreach := hs (.fail e) false
    rw [writeReady_failed hbuf' hl' ha'] at hreach
    have hcleared : Side.Follows { s' with buffer := [] }
        { w with writer := none, buffer := [], fatal := true } :=
      ⟨rfl, h.eof, h.connLost, h.closing, h.attached, h.waiter, h.scheduled, h.bare⟩
    have hlost := hcleared.forceClosed hl ha (some (.osError e))
    have hwaiter : resolveEmptyWaiter.wp (awaiting iovMax) (s.Comes iovMax)
        (World.forceClosed { w with writer := none, buffer := [], fatal := true }
          (some (.osError e))) := by
      refine comes_resolveEmptyWaiter rfl ⟨.of_closing rfl, hw.2⟩ hlost hreach ?_
      have hcleared : s'.Level { s' with buffer := [] } := ⟨rfl, id⟩
      exact hlevel.trans (hcleared.trans (level_forceClose _))
    rw [wp_bind]
    refine wp_fatalError_osError ha (wp_forceClose _ ⟨hw.1.lost, hw.1.attached, hw.1.jobs⟩
      (fun hno => absurd hl hno) (fun _ _ => hwaiter) fun _ hno => ?_)
    exact absurd (ha.symm.trans hno) (by decide)
  · have hmore : ∀ resumes, Reaches iovMax s
        (if resumes = true then { s' with buffer := rest, frames := .resumeWriting :: s'.frames }
        else Side.drained { s' with buffer := rest }) := by
      intro resumes
      have hreach := hs (.done n) resumes
      rw [World.gathered, h.buffer, hw.2] at hrest
      rwa [writeReady_sent hbuf' hl' ha' hrest] at hreach
    have hcalled := hmore true
    have hskipped := hmore false
    rw [if_pos rfl] at hcalled
    rw [if_neg Bool.false_ne_true] at hskipped
    have hleft : Side.Follows { s' with buffer := rest }
        { w.took (w.gathered.take n) with buffer := rest } :=
      ⟨rfl, h.eof, h.connLost, h.closing, h.attached, h.waiter, h.scheduled, h.bare⟩
    exact comes_afterSend ⟨⟨hw.1.lost, hw.1.attached, hw.1.jobs⟩, hw.2⟩ hleft
      (hlevel.trans ⟨rfl, id⟩) hskipped hcalled

/-- The writer callback, which the loop calls when no call of the protocol is open. -/
theorem comes_fire (hw : Standing iovMax w) (h : s.Follows w) (hf : s.frames = []) :
    writeSendmsg.wp (awaiting iovMax) (s.Comes iovMax) w := by
  refine comes_writeSendmsg hw h (.refl s) fun a resumes => ?_
  have hmove : s.step (.sendmsg iovMax) (.fire a resumes) =
      s.writeReady (.sendmsg iovMax) a resumes := if_pos hf
  exact .single ⟨.fire a resumes, hmove.symm⟩

theorem writelines_go {h : Handler} {lines : List (List UInt8)} {a : Reply} {resumes : Bool}
    (heof : s.eof = false) (hnone : s.emptyWaiter = none) (hlines : lines ≠ [])
    (hl : s.connLost = 0) :
    s.writelines h lines a resumes =
      Side.writeReady h { s with buffer := s.buffer ++ lines } a resumes := by
  rw [Side.writelines, if_neg (by simp [heof, hnone]), if_neg hlines, if_neg (not_not_intro hl)]

theorem comes_writelines (lines : List (List UInt8)) (hw : Standing iovMax w)
    (h : s.Follows w) : (writelines lines).wp (awaiting iovMax) (s.Comes iovMax) w := by
  by_cases hgo : (w.eof = false ∧ w.emptyWaiter = none) ∧ lines ≠ []
  · obtain ⟨⟨heof, hwaiter⟩, hlines⟩ := hgo
    have hnone := h.waiter_none hwaiter
    have heof' := h.eof.symm.trans heof
    have hbuffered : Side.Follows { s with buffer := s.buffer ++ lines }
        { w with buffer := w.buffer ++ lines } :=
      ⟨congrArg (· ++ lines) h.buffer, h.eof, h.connLost, h.closing, h.attached, h.waiter,
        h.scheduled, h.bare⟩
    refine wp_writelines (fun _ => .stay hw h (by simp)) (fun hno => absurd hno hlines)
      (fun _ hl => ?_) (fun hl ha => ?_) fun _ hl ha _ => ?_
    · have hstep : s.step (.sendmsg iovMax) (.writelines lines .wouldBlock false) =
          { s with connLost := s.connLost + 1 } := by
        show s.writelines (.sendmsg iovMax) lines .wouldBlock false = _
        rw [Side.writelines, if_neg (by simp [heof', hnone]), if_neg hlines,
          if_pos (h.connLost ▸ hl)]
      refine .of (.move _ hstep ⟨rfl, id⟩) ⟨.of_closing (hw.1.lost hl), hw.2⟩ ?_ (by simp)
      exact ⟨h.buffer, h.eof, congrArg (· + 1) h.connLost, h.closing, h.attached, h.waiter,
        h.scheduled, h.bare⟩
    · have hstep : s.step (.sendmsg iovMax) (.writelines lines .wouldBlock false) =
          { s with buffer := s.buffer ++ lines } := by
        show s.writelines (.sendmsg iovMax) lines .wouldBlock false = _
        rw [writelines_go heof' hnone hlines (h.connLost.symm.trans hl)]
        exact writeReady_idle (.inr (.inr (h.attached.symm.trans ha)))
      exact .of (.move _ hstep ⟨rfl, id⟩) ⟨hw.1.buffered _, hw.2⟩ hbuffered (by simp)
    · have hoffered : Unseen { w with buffer := w.buffer ++ lines }
          { w.offer lines.flatten with buffer := w.buffer ++ lines } := { Unseen.refl _ with }
      refine wp_mono _ ?_ (comes_writeSendmsg (s := s) (hoffered.keeps ⟨hw.1.buffered _, hw.2⟩)
        (hbuffered.unseen hoffered) ⟨rfl, id⟩ fun a resumes => ?_)
      · intro r t ht
        cases r with
        | error e => exact ht
        | ok a =>
            show if t.buffer = [] then _ else _
            split
            · exact ht
            · obtain ⟨hbase, s₂, hs₂, hfollows, -⟩ := ht
              rw [wp_bind]
              refine wp_addWriter (fun _ => .of hs₂ hbase hfollows (by simp))
                (fun _ _ _ => .of hs₂ hbase hfollows (by simp)) fun _ _ _ _ => ?_
              have hwriting : Unseen t t.writing := { Unseen.refl t with }
              exact wp_mono _ (fun r u hu => .after hs₂ (hu.comes (hfollows.unseen hwriting)))
                (flows_maybePauseProtocol
                  ⟨hwriting.keeps hbase, s₂, hfollows.unseen hwriting⟩)
      · rw [← writelines_go heof' hnone hlines (h.connLost.symm.trans hl)]
        exact .single ⟨.writelines lines a resumes, rfl⟩
  · -- What is refused or empty is not for the buffer.
    unfold writelines
    rw [wp_bind, wp_get]
    show wp _ (if w.eof = true then _ else if w.emptyWaiter.isSome = true then _ else
      if lines = [] then _ else _) _ w
    split
    · exact .stay hw h (by simp)
    rename_i heof
    split
    · exact .stay hw h (by simp)
    rename_i hwaiter
    split
    · exact .stay hw h (by simp)
    · rename_i hlines
      exact absurd ⟨⟨Bool.eq_false_iff.mpr heof, Option.not_isSome_iff_eq_none.mp hwaiter⟩, hlines⟩
        hgo

/-! ### The task and the loop -/

theorem comes_makeEmptyWaiter {C : Contract World UserCall Nat Exc Query Reply}
    (hw : Standing iovMax w) (h : s.Follows w) (hf : s.frames = [])
    (hc : w.closing = false) (hbuf : w.buffer ≠ []) :
    makeEmptyWaiter.wp C (s.Comes iovMax) w := by
  unfold makeEmptyWaiter
  rw [wp_bind, wp_get]
  show wp C (if w.emptyWaiter.isSome = true then _ else _) _ w
  split
  · exact .stay hw h (by simp)
  rename_i hno
  have hnone := h.waiter_none (Option.not_isSome_iff_eq_none.mp hno)
  have hstep : s.step (.sendmsg iovMax) .sendfile = { s with emptyWaiter := some .pending } := by
    show (if s.frames = [] then s.sendfile else s) = _
    rw [if_pos hf, Side.sendfile, if_neg]
    rw [← h.closing, hc, hnone, ← h.buffer]
    simpa using hbuf
  rw [wp_onLoop, if_neg hbuf]
  refine ⟨fun _ => .of (.move .sendfile hstep ⟨rfl, id⟩)
    ⟨⟨hw.1.lost, hw.1.attached, hw.1.jobs⟩, hw.2⟩ ?_ (by simp), fun ha => ?_⟩
  · exact ⟨h.buffer, h.eof, h.connLost, h.closing, h.attached, rfl, h.scheduled, h.bare⟩
  · exact absurd ((hw.1.closing_of_detached ha).symm.trans hc) (by decide)

/-- The task goes on with the result. -/
theorem comes_resetEmptyWaiter {C : Contract World UserCall Nat Exc Query Reply}
    {rest : List Entry} (hw : Standing iovMax w) (h : s.Follows w) (hf : s.frames = [])
    (hready : s.ready = .wake :: rest) (hresult : s.emptyWaiter = some .result)
    (hcancel : s.mustCancel = false) : resetEmptyWaiter.wp C (s.Comes iovMax) w := by
  have hstep : s.step (.sendmsg iovMax) .popReady =
      { s with ready := rest, emptyWaiter := none } := by
    show (if s.frames = [] then s.popReady else s) = _
    rw [if_pos hf, Side.popReady, hready]
    exact if_pos ⟨hresult, hcancel⟩
  refine .of (.move .popReady hstep ⟨rfl, id⟩) ⟨⟨hw.1.lost, hw.1.attached, hw.1.jobs⟩, hw.2⟩ ?_
    (by simp)
  refine ⟨h.buffer, h.eof, h.connLost, h.closing, h.attached, rfl, ?_, h.bare⟩
  show w.scheduled = rest.count .connectionLost
  rw [h.scheduled, hready]
  rfl

/-- The loop takes the teardown when the machine does. -/
theorem comes_teardown {exc : Option Exc} {jobs : List Job} {rest : List Entry}
    (hw : Standing iovMax w) (h : s.Follows w) (hf : s.frames = [])
    (hready : s.ready = .connectionLost :: rest)
    (hjobs : w.ready = .callConnectionLost exc :: jobs) :
    (callConnectionLost exc).wp (awaiting iovMax) (s.Comes iovMax) { w with ready := jobs } := by
  have hclosing : w.closing = true :=
    hw.1.jobs exc (by rw [hjobs]; exact List.mem_cons_self ..)
  have hpopped : Side.Follows { s with ready := rest } { w with ready := jobs } := by
    refine ⟨h.buffer, h.eof, h.connLost, h.closing, h.attached, h.waiter, ?_, h.bare⟩
    have hcount := h.scheduled
    rw [hready, World.scheduled, hjobs, List.countP_cons_of_pos rfl, List.count_cons_self] at hcount
    exact Nat.succ.inj hcount
  have hmove : s.step (.sendmsg iovMax) .popReady =
      Side.callConnectionLost { s with ready := rest } := by
    show (if s.frames = [] then s.popReady else s) = _
    rw [if_pos hf, Side.popReady, hready]
  exact comes_callConnectionLost exc hclosing hw.2 hpopped (.single ⟨.popReady, hmove.symm⟩)
    ⟨rfl, id⟩

end

/-! ### What the protocol may call -/

/-- Every run of the machine that a method accounts for, at once. -/
theorem keeps_of_comes {iovMax : Nat} {p : Meth Unit}
    (hp : ∀ (s : Side) (w : World), Standing iovMax w → s.Follows w →
      p.wp (awaiting iovMax) (s.Comes iovMax) w) : Keeps (awaiting iovMax) p := by
  rintro w ⟨hw, s₀, hs₀⟩
  have hall : p.wp (awaiting iovMax)
      (fun r t => ∀ s : { s : Side // s.Follows w }, s.1.Comes iovMax r t) w := by
    have : Nonempty { s : Side // s.Follows w } := ⟨⟨s₀, hs₀⟩⟩
    exact wp_forall _ fun s => hp s.1 w hw s.2
  refine wp_mono _ (fun r t ht => ?_) hall
  obtain ⟨hbase, s', -, hs', -⟩ := ht ⟨s₀, hs₀⟩
  refine ⟨⟨hbase, s', hs'⟩, fun s hs => ?_⟩
  obtain ⟨-, s', hreturns, hfollows, -⟩ := ht ⟨s, hs⟩
  exact ⟨s', hreturns, hfollows⟩

/-- What the protocol is taken to do, the methods that write and close do: when it
calls them, from any of its calls, the machine goes along. -/
theorem keeps_awaiting (iovMax : Nat) :
    Keeps (awaiting iovMax) close ∧ Keeps (awaiting iovMax) abort ∧
      (∀ data, Keeps (awaiting iovMax) (write data)) ∧
      (∀ lines, Keeps (awaiting iovMax) (writelines lines)) ∧
      Keeps (awaiting iovMax) writeEof :=
  ⟨keeps_of_comes fun _ _ hw h => comes_close hw h,
    keeps_of_comes fun _ _ hw h => comes_forceClose none hw h,
    fun data => keeps_of_comes fun _ _ hw h => comes_write data hw h,
    fun lines => keeps_of_comes fun _ _ hw h => comes_writelines lines hw h,
    keeps_of_comes fun _ _ hw h => comes_writeEof hw h⟩

end Tokioop.Transport.EmptyWaiter
