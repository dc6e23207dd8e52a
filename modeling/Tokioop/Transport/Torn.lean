import Tokioop.Kit.Exec
import Tokioop.Transport.Mode
import Tokioop.Transport.Rules

/-!
Calling a transport that has been torn down.

Once `_call_connection_lost` has run, `_sock`, `_loop`, `_protocol` and
`_write_ready` are `None`, and every use of them raises. `_closing` guards
`close`, `write_eof`, `pause_reading` and `resume_reading`; `abort`, `write`
and `writelines` are guarded by `_conn_lost`, which the writer that drains a
closing transport leaves at zero.
-/

namespace Tokioop.Transport

open Fd Kit Kit.Prog

/-! ### Whoever has let go of the loop is closing -/

def baseContract : Contract World UserCall Nat Exc Query Reply where
  Inv := Base
  Rely s t := s.closing = true → t.closing = true
  Ret _ _ _ := True
  Answer _ _ _ := True
  refl := @World.stays_closing_refl
  trans := @World.stays_closing_trans

theorem frames_base : Frames baseContract fun _ => True :=
  Frames.of_quiet id (fun h => h) fun _ hq => ⟨hq.base, hq.closing⟩

theorem unread_base : Unread baseContract where
  base := id
  aside hs ha := ⟨Base.aside hs ha, ha.closing.trans⟩
  forceClose exc _ hs :=
    wp_mono _ (fun _ _ ht => ⟨ht.1, ht.2.1⟩) (closes_forceClose frames_base exc hs)
  baseClose _ hs := wp_mono _ (fun _ _ ht => ⟨ht.1, ht.2.1⟩) (closes_baseClose frames_base hs)

theorem base_popReady : Keeps baseContract popReady := by
  intro s hs
  have hpop : ∀ j rest, s.ready = j :: rest → Base { s with ready := rest } := by
    intro j rest hready
    refine ⟨hs.lost, hs.attached, fun exc hmem => hs.jobs exc ?_⟩
    rw [hready]
    exact List.mem_cons_of_mem _ hmem
  refine unread_base.popReady hs (fun j rest hready _ => ⟨hpop j rest hready, id⟩) ?_
  intro exc rest hready
  have hc : s.closing = true := hs.jobs exc (by rw [hready]; exact List.mem_cons_self)
  exact wp_mono _ (fun _ _ ht => ⟨ht.1, ht.2.1⟩)
    (closes_callConnectionLost frames_base exc (hpop _ rest hready) hc trivial)

theorem base_popIo : Keeps baseContract popIo := fun _ hs =>
  unread_base.popIo hs (fun item t ht _ _ => unread_base.deliverReplay item t ht)
    (fun t ht _ => unread_base.readReady t ht)
    fun _ ht _ => keeps_writeSendmsg frames_base ht trivial

theorem sound_base : Sound transport anyProtocol baseContract Base := by
  have hbody : ∀ m : Method, Keeps baseContract m.body := fun m s hs =>
    unread_base.body hs (fun data _ => keeps_write frames_base data s hs)
      (fun lines _ => keeps_writelines frames_base lines hs trivial)
      (fun _ => keeps_writeEof frames_base s hs) (fun _ => base_popReady s hs)
      fun _ => base_popIo s hs
  exact {
    ret := fun _ => trivial
    answer := fun _ => trivial
    call_top := fun m s hs _ => wp_mono _ (fun _ _ ht => ht.1) (hbody m s hs)
    call_inner := fun m s hs _ => hbody m s hs
    env_top := fun h s s' hs _ he => hs.aside (aside_env he)
    env_inner := fun h s s' hs _ he => unread_base.aside hs (aside_env he) }

theorem base_of_reach {c : Config World UserCall Nat Exc Query Reply}
    (h : Reach transport anyProtocol (fun s => ∃ kind kernel, s = World.new kind kernel) c)
    (ho : c.Outside) : Base c.state := by
  refine sound_base.inv ?_ (fun _ hs => hs) h ho
  rintro s ⟨kind, kernel, rfl⟩
  refine ⟨?_, ?_, ?_⟩
  all_goals simp [World.new]

/-! ### Which calls are harmless -/

/-- The calls that are expected to be harmless after the teardown; a write is
not expected to be so after `write_eof`. -/
def World.expects (s : World) : Method → Prop
  | .write _ | .writelines _ => s.eof = false
  | .close | .abort | .writeEof | .pauseReading | .resumeReading => True
  | _ => False

/-- The call returns, and uses nothing that the teardown has cleared: that
would raise. -/
def World.Returns (s : World) (m : Method) : Prop :=
  ∀ O, ∃ s', m.body.exec O s = some (.ok (), s')

/-- `_closing` is enough for most methods. The others need `_conn_lost`, unless
there is nothing to write, or a `writelines` that failed has left something in
`_buffer` and no flow control is due. -/
def World.harmless (s : World) : Method → Prop
  | .abort => s.connLost ≠ 0
  | .write data => s.emptyWaiter = none ∧ (data = [] ∨ s.connLost ≠ 0 ∨ s.buffer ≠ [] ∧
      (s.getWriteBufferSize + data.length ≤ s.highWater ∨ s.protocolPaused = true))
  | .writelines lines => s.emptyWaiter = none ∧ (lines = [] ∨ s.connLost ≠ 0)
  | _ => True

/-- Callbacks raise and the kernel would block. -/
def World.unfriendly : Oracle World UserCall Nat Exc Query Reply :=
  ⟨fun _ _ => .error .valueError, fun _ _ => .wouldBlock⟩

section Torn

variable {s : World}

theorem not_returns {m : Method}
    (h : ∃ e s', m.body.exec World.unfriendly s = some (.error e, s')) : ¬s.Returns m := by
  intro hr
  obtain ⟨e, s', he⟩ := h
  obtain ⟨t, ht⟩ := hr World.unfriendly
  rw [he] at ht
  cases ht

theorem returns_of_closing (hc : s.closing = true) {m : Method}
    (hm : m = .close ∨ m = .writeEof ∨ m = .pauseReading ∨ m = .resumeReading) :
    s.Returns m := by
  intro O
  rcases hm with rfl | rfl | rfl | rfl
  · simp [Method.body, close, baseClose, hc]
  · simp [Method.body, writeEof, hc]
  · simp [Method.body, pauseReading, World.isReading, hc]
  · simp [Method.body, resumeReading, hc]

theorem returns_abort_iff (ha : s.attached = false) (hc : s.closing = true) :
    s.Returns .abort ↔ s.connLost ≠ 0 := by
  constructor
  · rintro h hl
    refine not_returns ?_ h
    by_cases hb : s.buffer = []
    · simp [Method.body, abort, forceClose, dropBuffer, beginClosing, scheduleConnectionLost,
        callSoon, onLoop, hl, hb, hc, ha]
    · simp [Method.body, abort, forceClose, dropBuffer, removeWriter, onLoop, hl, hb, ha]
  · intro hl O
    simp [Method.body, abort, forceClose, hl]

/-- When `pause_writing` is due, nobody is left to report that it failed. -/
theorem maybePauseProtocol_raises (ha : s.attached = false)
    (hdue : ¬(s.getWriteBufferSize ≤ s.highWater ∨ s.protocolPaused = true)) :
    ∃ e s', maybePauseProtocol.exec World.unfriendly s = some (.error e, s') := by
  cases hp : s.protocol with
  | none => simp [maybePauseProtocol, hdue, flowControl, callExceptionHandler, ha, hp, Exc.exits]
  | some k =>
      simp [maybePauseProtocol, hdue, flowControl, callExceptionHandler, invoke, ha, hp,
        Exc.exits, World.logged, World.unfriendly]

theorem returns_write_iff (ha : s.attached = false) (heof : s.eof = false)
    (data : List UInt8) : s.Returns (.write data) ↔ s.harmless (.write data) := by
  by_cases hw : s.emptyWaiter = none
  · by_cases hdata : data = []
    · refine iff_of_true (fun O => ?_) ⟨hw, .inl hdata⟩
      simp [Method.body, write, heof, hw, hdata]
    by_cases hl : s.connLost = 0
    · by_cases hb : s.buffer = []
      · -- The missing socket is a fatal error, and the fatal error needs the loop.
        refine iff_of_false (not_returns ?_) ?_
        · simp [Method.body, write, heof, hw, hdata, hl, hb, exec_andThen, sockSend, ha, orFatal,
            Exc.exits, fatalError, reportFatal, Exc.isOSError, callExceptionHandler]
        · simp [World.harmless, hdata, hl, hb]
      · have hexec : ∀ O, (Method.write data).body.exec O s = maybePauseProtocol.exec O
            { s with offered := s.offered ++ data, buffer := s.buffer ++ [data] } := by
          intro O
          simp [Method.body, write, heof, hw, hdata, hl, hb, bufferRest]
        have hsize : ({ s with offered := s.offered ++ data, buffer := s.buffer ++ [data] } :
            World).getWriteBufferSize = s.getWriteBufferSize + data.length := by
          simp [World.getWriteBufferSize]
        by_cases hdue : s.getWriteBufferSize + data.length ≤ s.highWater ∨ s.protocolPaused = true
        · refine iff_of_true (fun O => ?_) ⟨hw, .inr (.inr ⟨hb, hdue⟩)⟩
          rw [hexec O]
          simp [maybePauseProtocol, hsize, hdue]
        · refine iff_of_false (not_returns ?_) ?_
          · rw [hexec]
            refine maybePauseProtocol_raises ha ?_
            rw [hsize]
            exact hdue
          · simp [World.harmless, hdata, hl, hdue]
    · refine iff_of_true (fun O => ?_) ⟨hw, .inr (.inl hl)⟩
      simp [Method.body, write, heof, hw, hdata, hl]
  · refine iff_of_false (not_returns ?_) (fun h => hw h.1)
    simp [Method.body, write, heof, Option.isSome_iff_ne_none, hw]

theorem returns_writelines_iff (ha : s.attached = false) (heof : s.eof = false)
    (lines : List (List UInt8)) :
    s.Returns (.writelines lines) ↔ s.harmless (.writelines lines) := by
  by_cases hw : s.emptyWaiter = none
  · by_cases hlines : lines = []
    · refine iff_of_true (fun O => ?_) ⟨hw, .inl hlines⟩
      simp [Method.body, writelines, heof, hw, hlines]
    · by_cases hl : s.connLost = 0
      · refine iff_of_false (not_returns ?_) ?_
        · simp [Method.body, writelines, heof, hw, hlines, hl, ha]
        · simp [World.harmless, hlines, hl]
      · refine iff_of_true (fun O => ?_) ⟨hw, .inr hl⟩
        simp [Method.body, writelines, heof, hw, hlines, hl]
  · refine iff_of_false (not_returns ?_) (fun h => hw h.1)
    simp [Method.body, writelines, heof, Option.isSome_iff_ne_none, hw]

end Torn

/-- After the teardown a call is harmless exactly when it does not rely on
`_conn_lost` having been set. -/
theorem torn_returns_iff {c : Config World UserCall Nat Exc Query Reply} {m : Method}
    (h : Reach transport anyProtocol (fun s => ∃ kind kernel, s = World.new kind kernel) c)
    (ho : c.Outside) (ha : c.state.attached = false) (hm : c.state.expects m) :
    c.state.Returns m ↔ c.state.harmless m := by
  have hc := (base_of_reach h ho).closing_of_detached ha
  cases m with
  | abort => exact returns_abort_iff ha hc
  | write data => exact returns_write_iff ha hm data
  | writelines lines => exact returns_writelines_iff ha hm lines
  | close => exact iff_of_true (returns_of_closing hc (.inl rfl)) trivial
  | writeEof => exact iff_of_true (returns_of_closing hc (.inr (.inl rfl))) trivial
  | pauseReading => exact iff_of_true (returns_of_closing hc (.inr (.inr (.inl rfl)))) trivial
  | resumeReading => exact iff_of_true (returns_of_closing hc (.inr (.inr (.inr rfl)))) trivial
  | registerReader | setProtocol _ | setWriteBufferLimits _ _ | makeEmptyWaiter
  | resetEmptyWaiter | popReady | popIo => cases hm

/-- An aborted transport, with bytes still in its buffer: a write afterwards
is only counted. -/
theorem torn_returns_iff_aborted : ∃ c : Config World UserCall Nat Exc Query Reply,
    c.state.attached = false ∧ c.state.sent = [1] ∧ c.state.Returns (.write [4]) := by
  have hstart : Reach transport anyProtocol (fun s => ∃ kind kernel, s = World.new kind kernel)
      ⟨World.new .plain ⟨[], [], none, false⟩, none, []⟩ := .start ⟨_, ⟨_, _, rfl⟩, rfl⟩
  obtain ⟨c, hrun, hend⟩ := hstart.exists_of_replay [
    Move.andRun (.call .popReady) 4, Move.andRun (.ret (.ok 0)) 1,
    Move.andRun (.call .popReady) 4, Move.andRun (.answer (.done 0)) 2,
    Move.andRun (.call (.write [1, 2, 3])) 3, Move.andRun (.answer (.done 1)) 2,
    Move.andRun (.answer (.done 0)) 4, Move.andRun (.call .abort) 13,
    Move.andRun (.call .popReady) 6, Move.andRun (.ret (.ok 0)) 4].flatten
    (fun c => c.code.isNone && !c.state.attached && c.state.sent = [1] && !c.state.eof &&
      c.state.emptyWaiter = none && c.state.connLost = 1) (by decide +kernel)
  simp only [Bool.and_eq_true, Option.isNone_iff_eq_none, decide_eq_true_eq,
    Bool.not_eq_true'] at hend
  obtain ⟨⟨⟨⟨⟨ho, ha⟩, hsent⟩, heof⟩, hw⟩, hl⟩ := hend
  exact ⟨c, ha, hsent, (torn_returns_iff (m := .write [4]) hrun ho ha heof).mpr
    ⟨hw, .inr (.inl (by rw [hl]; exact Nat.one_ne_zero))⟩⟩

/-- `close` waits for two bytes in the buffer, the writer sends them and tears
down: the next `write` raises. -/
theorem torn_write_raises : ¬∀ (c : Config World UserCall Nat Exc Query Reply) (m : Method),
    Reach transport anyProtocol (fun s => ∃ kind kernel, s = World.new kind kernel) c →
    c.Outside → c.state.attached = false → c.state.expects m → c.state.Returns m := by
  intro hall
  have hstart : Reach transport anyProtocol (fun s => ∃ kind kernel, s = World.new kind kernel)
      ⟨World.new .plain ⟨[], [], none, false⟩, none, []⟩ := .start ⟨_, ⟨_, _, rfl⟩, rfl⟩
  obtain ⟨c, hrun, hend⟩ := hstart.exists_of_replay [
    Move.andRun (.call .popReady) 4, Move.andRun (.ret (.ok 0)) 1,
    Move.andRun (.call .popReady) 4, Move.andRun (.answer (.done 0)) 2,
    Move.andRun (.call (.write [1, 2, 3])) 3, Move.andRun (.answer (.done 1)) 2,
    Move.andRun (.answer (.done 0)) 4, Move.andRun (.call .close) 8, [.env .fireWriter],
    Move.andRun (.call .popIo) 6, Move.andRun (.answer (.done 2)) 13,
    Move.andRun (.ret (.ok 0)) 4].flatten
    (fun c => c.code.isNone && !c.state.attached && !c.state.eof &&
      ((Method.write [4]).body.exec World.unfriendly c.state).any fun r => !r.1.isOk)
    (by decide +kernel)
  simp only [Bool.and_eq_true, Option.isNone_iff_eq_none, Bool.not_eq_true'] at hend
  obtain ⟨⟨⟨ho, ha⟩, heof⟩, hraise⟩ := hend
  refine not_returns ?_ (hall c (.write [4]) hrun ho ha heof)
  obtain ⟨⟨r, s'⟩, he, hr⟩ := (Option.any_eq_true _ _).mp hraise
  cases r with
  | error e => exact ⟨e, s', he⟩
  | ok a => cases hr

end Tokioop.Transport
