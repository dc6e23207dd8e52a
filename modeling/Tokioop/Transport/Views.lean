import Mathlib.Data.List.TakeDrop
import Tokioop.Fd.SendAll
import Tokioop.Transport.Rules

/-!
The write side of a stream transport with the views that `write` accepts.

`write` slices what is left by the count of the kernel, `_adjust_leftover_buffer`
takes it off the lengths of the entries of `_buffer`, and `get_write_buffer_size`
sums these lengths up. The kernel counts bytes; slices and lengths count items.

`resume_writing` may write before `_write_sendmsg` looks at the buffer again,
so that the end of a firing is a step of its own. Registering the writer
succeeds, and `connection_lost` does not write.
-/

namespace Tokioop.Transport.Views

open Fd Kit

/-! ### The transport -/

/-- `_adjust_leftover_buffer`, with `none` for the `IndexError` of an empty
deque. -/
def adjustLeftoverBuffer : List MemView → Nat → Option (List MemView)
  | vs, 0 => some vs
  | [], _ + 1 => none
  | v :: vs, n + 1 =>
      if v.len ≤ n + 1 then adjustLeftoverBuffer vs (n + 1 - v.len)
      else some (v.drop (n + 1) :: vs)

/-- The write side of a transport. `sent` is what the kernel has accepted, and
`offered` what `write` has accepted. -/
structure WriteSide where
  buffer : List MemView
  eof : Bool
  -- `_empty_waiter` is not `None`.
  emptyWaiter : Bool
  connLost : Nat
  closing : Bool
  -- `_sock` and `_loop` are not `None`.
  attached : Bool
  protocolPaused : Bool
  writer : Bool
  -- `resume_writing` has been called in a firing that is not over.
  resuming : Bool
  iovMax : Nat
  highWater : Nat
  lowWater : Nat
  sent : List UInt8
  offered : List UInt8
  deriving DecidableEq

def WriteSide.new (iovMax highWater lowWater : Nat) : WriteSide :=
  { buffer := [], eof := false, emptyWaiter := false, connLost := 0, closing := false
    attached := true, protocolPaused := false, writer := false, resuming := false
    iovMax := iovMax, highWater := highWater, lowWater := lowWater, sent := [], offered := [] }

namespace WriteSide

def getWriteBufferSize (s : WriteSide) : Nat := (s.buffer.map MemView.len).sum

def held (s : WriteSide) : List UInt8 := (s.buffer.map MemView.bytes).flatten

def forceClose (s : WriteSide) : WriteSide :=
  if s.connLost ≠ 0 then s
  else
    { s with
      buffer := []
      writer := s.writer && s.buffer = []
      closing := true
      connLost := 1 }

def close (s : WriteSide) : WriteSide :=
  if s.closing then s
  else if s.buffer = [] then
    { s with closing := true, connLost := s.connLost + 1, writer := false }
  else { s with closing := true }

/-- `self._buffer.append(data)` and `_maybe_pause_protocol`. -/
def append (s : WriteSide) (v : MemView) : WriteSide :=
  let s := { s with buffer := s.buffer ++ [v] }
  if s.getWriteBufferSize ≤ s.highWater then s else { s with protocolPaused := true }

/-- `write` on an empty buffer. -/
def sendNow (s : WriteSide) (v : MemView) : SockAnswer → WriteSide
  | .wouldBlock => { s with writer := true, offered := s.offered ++ v.bytes }.append v
  | .error => s.forceClose
  | .exit => s
  | .result n =>
      let s := { s with sent := s.sent ++ v.bytes.take n, offered := s.offered ++ v.bytes }
      let rest := v.drop (min n v.bytes.length)
      if rest.len = 0 then s else { s with writer := true }.append rest

/-- Without its socket the transport meets an `AttributeError`, and cannot report
it without its loop. -/
def write (s : WriteSide) (v : MemView) (a : SockAnswer) : WriteSide :=
  if s.eof || s.emptyWaiter then s
  else if v.len = 0 then s
  else if s.connLost ≠ 0 then { s with connLost := s.connLost + 1 }
  else if s.buffer = [] then
    if s.attached then s.sendNow v a else s
  else { s with offered := s.offered ++ v.bytes }.append v

def drained (s : WriteSide) : WriteSide :=
  if s.buffer = [] then { s with writer := false, attached := s.attached && !s.closing } else s

/-- The `else` clause of `_write_sendmsg`, up to the call of `resume_writing`
if there is one. -/
def afterSend (s : WriteSide) : WriteSide :=
  if s.protocolPaused ∧ s.getWriteBufferSize ≤ s.lowWater then
    { s with protocolPaused := false, resuming := true }
  else s.drained

/-- What `_write_sendmsg` passes to `sendmsg`. -/
def gathered (s : WriteSide) : List UInt8 := ((s.buffer.take s.iovMax).map MemView.bytes).flatten

def failed (s : WriteSide) : WriteSide := { s with writer := false, buffer := [] }.forceClose

def writeSendmsg (s : WriteSide) (a : SockAnswer) : WriteSide :=
  if s.connLost ≠ 0 then s
  else
    match a with
    | .wouldBlock | .exit => s
    | .error => s.failed
    | .result n =>
        match adjustLeftoverBuffer s.buffer (min n s.gathered.length) with
        | none => { s with sent := s.sent ++ s.gathered.take n }.failed
        | some rest => { s with sent := s.sent ++ s.gathered.take n, buffer := rest }.afterSend

inductive Move
  | write (v : MemView) (a : SockAnswer)
  -- The writer fires.
  | fire (a : SockAnswer)
  -- `resume_writing` returns.
  | resumed
  | writeEof
  | makeEmptyWaiter
  | resetEmptyWaiter
  | close
  -- `abort`, or a fatal error of the read side.
  | abort
  -- The loop runs `_call_connection_lost`, once it has been scheduled.
  | connectionLost
  deriving DecidableEq

def step (s : WriteSide) : Move → WriteSide
  | .write v a => s.write v a
  | .fire a => if s.writer && !s.resuming && s.buffer ≠ [] then s.writeSendmsg a else s
  | .resumed => if s.resuming then { s with resuming := false }.drained else s
  | .writeEof => if s.closing then s else { s with eof := true }
  | .makeEmptyWaiter => { s with emptyWaiter := true }
  | .resetEmptyWaiter => { s with emptyWaiter := false }
  | .close => s.close
  | .abort => s.forceClose
  | .connectionLost => if s.connLost ≠ 0 then { s with attached := false } else s

/-- The view is bytewise, or the whole of it is sent at once, or nothing is
done with it. -/
def Careful (s : WriteSide) : Move → Prop
  | .write v a =>
      v.Bytewise ∨ s.eof = true ∨ s.emptyWaiter = true ∨ s.connLost ≠ 0 ∨
        s.buffer = [] ∧ (s.attached = false ∨
          match a with
          | .result n => v.bytes.length ≤ n
          | .wouldBlock => False
          | .error | .exit => True)
  | _ => True

/-! ### Accounting -/

/-- Unless the connection was lost, the bytes that were accepted and those still
held are the data, and the size of the buffer is their number. -/
structure Accounted (s : WriteSide) : Prop where
  whole : s.connLost = 0 → s.sent ++ s.held = s.offered
  size : s.getWriteBufferSize = s.held.length

end WriteSide

theorem sum_len_le (vs : List MemView) :
    (vs.map MemView.len).sum ≤ (vs.map MemView.bytes).flatten.length := by
  induction vs with
  | nil => exact Nat.le_refl _
  | cons v vs ih =>
      rw [List.map_cons, List.map_cons, List.sum_cons, List.flatten_cons, List.length_append]
      exact Nat.add_le_add v.len_le_length_bytes ih

/-- Items and bytes of a buffer are equally many when those of its views are. -/
theorem sum_len_eq_iff (vs : List MemView) :
    (vs.map MemView.len).sum = (vs.map MemView.bytes).flatten.length ↔ ∀ v ∈ vs, v.Bytewise := by
  induction vs with
  | nil => simp
  | cons v vs ih =>
      have hv := v.len_le_length_bytes
      have hvs := sum_len_le vs
      rw [List.forall_mem_cons, ← ih, MemView.Bytewise, List.map_cons, List.map_cons,
        List.sum_cons, List.flatten_cons, List.length_append]
      omega

/-- On bytewise views, `_adjust_leftover_buffer` does to what they show what it
does to chunks of bytes. -/
theorem adjustLeftoverBuffer_bytes {vs : List MemView} (h : ∀ v ∈ vs, v.Bytewise) (n : Nat) :
    (adjustLeftoverBuffer vs n).map (List.map MemView.bytes) =
      Transport.adjustLeftoverBuffer (vs.map MemView.bytes) n := by
  induction vs generalizing n with
  | nil => cases n <;> rfl
  | cons v vs ih =>
      have hv := h v (List.mem_cons_self ..)
      cases n with
      | zero => rfl
      | succ n =>
          rw [List.map_cons, adjustLeftoverBuffer, Transport.adjustLeftoverBuffer, hv]
          split
          · exact ih (fun w hw => h w (List.mem_cons_of_mem v hw)) _
          · rw [Option.map_some, List.map_cons, hv.bytes_drop]

theorem adjustLeftoverBuffer_bytewise {vs rest : List MemView} (h : ∀ v ∈ vs, v.Bytewise) {n : Nat}
    (hrest : adjustLeftoverBuffer vs n = some rest) : ∀ v ∈ rest, v.Bytewise := by
  induction vs generalizing n with
  | nil =>
      cases n with
      | zero => cases hrest; exact h
      | succ n => cases hrest
  | cons v vs ih =>
      cases n with
      | zero => cases hrest; exact h
      | succ n =>
          rw [adjustLeftoverBuffer] at hrest
          split at hrest
          · exact ih (fun w hw => h w (List.mem_cons_of_mem v hw)) hrest
          · cases hrest
            intro w hw
            rcases List.mem_cons.mp hw with rfl | hw
            · exact (h v (List.mem_cons_self ..)).drop _
            · exact h w (List.mem_cons_of_mem v hw)

namespace WriteSide

variable {s : WriteSide}

theorem size_iff : s.getWriteBufferSize = s.held.length ↔ ∀ v ∈ s.buffer, v.Bytewise :=
  sum_len_eq_iff s.buffer

theorem accounted_iff :
    s.Accounted ↔
      (s.connLost = 0 → s.sent ++ s.held = s.offered) ∧ ∀ v ∈ s.buffer, v.Bytewise := by
  rw [← size_iff]
  exact ⟨fun h => ⟨h.whole, h.size⟩, fun h => ⟨h.1, h.2⟩⟩

namespace Accounted

theorem bytewise (h : s.Accounted) : ∀ v ∈ s.buffer, v.Bytewise := size_iff.mp h.size

/-- Nothing is claimed of the bytes once the connection is lost. -/
theorem of_lost (hl : s.connLost ≠ 0) (hbuf : ∀ v ∈ s.buffer, v.Bytewise) : s.Accounted :=
  accounted_iff.mpr ⟨fun h0 => absurd h0 hl, hbuf⟩

theorem same {s' : WriteSide} (h : s.Accounted) (hbuf : s'.buffer = s.buffer)
    (hsent : s'.sent = s.sent) (hoffered : s'.offered = s.offered)
    (hlost : s'.connLost = 0 → s.connLost = 0) : s'.Accounted := by
  refine accounted_iff.mpr ⟨fun h0 => ?_, hbuf ▸ h.bytewise⟩
  rw [held, hsent, hbuf, hoffered]
  exact h.whole (hlost h0)

theorem forceClose (h : s.Accounted) : s.forceClose.Accounted := by
  unfold WriteSide.forceClose
  split
  · exact h
  · exact .of_lost Nat.one_ne_zero (List.forall_mem_nil _)

theorem close (h : s.Accounted) : s.close.Accounted := by
  unfold WriteSide.close
  split
  · exact h
  split
  · exact h.same rfl rfl rfl fun h0 => absurd h0 (Nat.succ_ne_zero _)
  · exact h.same rfl rfl rfl id

theorem drained (h : s.Accounted) : s.drained.Accounted := by
  unfold WriteSide.drained
  split
  · exact h.same rfl rfl rfl id
  · exact h

theorem afterSend (h : s.Accounted) : s.afterSend.Accounted := by
  unfold WriteSide.afterSend
  split
  · exact h.same rfl rfl rfl id
  · exact h.drained

end Accounted

theorem accounted_failed (s : WriteSide) (hl : s.connLost = 0) : s.failed.Accounted := by
  have hfailed : s.failed = _ := if_neg (not_not_intro hl)
  rw [hfailed]
  exact .of_lost Nat.one_ne_zero (List.forall_mem_nil _)

theorem append_eq (s : WriteSide) (v : MemView) :
    ∃ paused, s.append v = { s with buffer := s.buffer ++ [v], protocolPaused := paused } := by
  unfold append
  dsimp only
  split
  · exact ⟨s.protocolPaused, rfl⟩
  · exact ⟨true, rfl⟩

/-- A view that is appended is accounted for when it is bytewise and what is
left of the data. -/
theorem accounted_append (hbuf : ∀ v ∈ s.buffer, v.Bytewise) (hl : s.connLost = 0) (v : MemView) :
    (s.append v).Accounted ↔ v.Bytewise ∧ s.sent ++ s.held ++ v.bytes = s.offered := by
  obtain ⟨paused, heq⟩ := s.append_eq v
  have hheld : (s.append v).held = s.held ++ v.bytes := by
    rw [held, heq, List.map_append, List.flatten_append, List.map_singleton,
      List.flatten_singleton]
    rfl
  have hmem : (∀ w ∈ (s.append v).buffer, w.Bytewise) ↔ v.Bytewise := by
    rw [heq]
    refine ⟨fun h => h v (List.mem_append_right _ (List.mem_singleton_self v)), fun hv w hw => ?_⟩
    rcases List.mem_append.mp hw with hw | hw
    · exact hbuf w hw
    · rwa [List.mem_singleton.mp hw]
  rw [accounted_iff, hheld, hmem, List.append_assoc, and_comm, heq]
  exact and_congr_right fun _ => ⟨fun h => h hl, fun h _ => h⟩

/-- What is left of a view on an empty buffer. -/
theorem accounted_sendNow (h : s.Accounted) (hl : s.connLost = 0) (hnone : s.buffer = [])
    {v : MemView} (a : SockAnswer) :
    (s.sendNow v a).Accounted ↔ v.Bytewise ∨
      match a with
      | .result n => v.bytes.length ≤ n
      | .wouldBlock => False
      | .error | .exit => True := by
  have hheld : s.held = [] := by rw [held, hnone, List.map_nil, List.flatten_nil]
  have hwhole : s.sent = s.offered := by
    have := h.whole hl
    rwa [hheld, List.append_nil] at this
  have hbuf : ∀ w ∈ s.buffer, w.Bytewise := h.bytewise
  cases a with
  | error => exact iff_of_true h.forceClose (.inr trivial)
  | exit => exact iff_of_true h (.inr trivial)
  | wouldBlock =>
      refine (accounted_append (s := { s with writer := true, offered := s.offered ++ v.bytes })
        hbuf hl v).trans ?_
      rw [or_false]
      refine and_iff_left ?_
      show s.sent ++ s.held ++ v.bytes = s.offered ++ v.bytes
      rw [hheld, List.append_nil, hwhole]
  | result n =>
      have hle := v.len_le_length_bytes
      have htake : v.bytes.take n = v.bytes.take (min n v.bytes.length) := List.take_eq_take_min
      show (WriteSide.Accounted (if (v.drop (min n v.bytes.length)).len = 0 then _ else _)) ↔ _
      rw [MemView.len_drop]
      split
      · rename_i hdone
        rw [accounted_iff]
        show (s.connLost = 0 → s.sent ++ v.bytes.take n ++ s.held = s.offered ++ v.bytes) ∧ _ ↔ _
        rw [hheld, hwhole, List.append_nil, List.append_cancel_left_eq, List.take_eq_self_iff,
          and_iff_left hbuf, or_iff_right_of_imp fun hv => ?_]
        · exact ⟨fun h => h hl, fun h _ => h⟩
        · rw [MemView.Bytewise] at hv
          omega
      · rename_i hmore
        refine (accounted_append (s :=
          { s with writer := true, sent := s.sent ++ v.bytes.take n
                   offered := s.offered ++ v.bytes }) hbuf hl _).trans ?_
        rw [MemView.bytewise_drop (by omega), or_iff_left (by omega)]
        refine and_iff_left_of_imp fun hv => ?_
        show s.sent ++ v.bytes.take n ++ s.held ++ _ = s.offered ++ v.bytes
        rw [hheld, hwhole, List.append_nil, hv.bytes_drop, htake, List.append_assoc,
          List.take_append_drop]

/-- `write` keeps the accounts exactly when it is careful. -/
theorem accounted_write (h : s.Accounted) (v : MemView) (a : SockAnswer) :
    (s.write v a).Accounted ↔ s.Careful (.write v a) := by
  show _ ↔ v.Bytewise ∨ s.eof = true ∨ s.emptyWaiter = true ∨ s.connLost ≠ 0 ∨
    s.buffer = [] ∧ (s.attached = false ∨ _)
  unfold write
  by_cases heof : s.eof = true
  · simp [heof, h]
  by_cases hwaiter : s.emptyWaiter = true
  · simp [hwaiter, h]
  by_cases hv : v.len = 0
  · have hbytewise : v.Bytewise := (MemView.bytewise_iff v).mpr (.inr hv)
    simp [heof, hwaiter, hv, hbytewise, h]
  by_cases hl : s.connLost = 0
  · by_cases hnone : s.buffer = []
    · cases hatt : s.attached with
      | false => simp [heof, hwaiter, hv, hl, hnone, h]
      | true => simpa [heof, hwaiter, hv, hl, hnone] using accounted_sendNow h hl hnone a
    · have happend := accounted_append (s := { s with offered := s.offered ++ v.bytes })
        h.bytewise hl v
      have hheld : held { s with offered := s.offered ++ v.bytes } = s.held := rfl
      rw [hheld, h.whole hl] at happend
      simpa [heof, hwaiter, hv, hl, hnone] using happend
  · have hlost : Accounted { s with connLost := s.connLost + 1 } :=
      h.same rfl rfl rfl fun h0 => absurd h0 (Nat.succ_ne_zero _)
    rw [if_neg (by simp [heof, hwaiter]), if_neg hv, if_pos hl]
    exact iff_of_true hlost (.inr (.inr (.inr (.inl hl))))

/-- A firing keeps the accounts, whatever the kernel takes. -/
theorem accounted_writeSendmsg (h : s.Accounted) (a : SockAnswer) :
    (s.writeSendmsg a).Accounted := by
  unfold writeSendmsg
  split
  · exact h
  rename_i hl
  replace hl := of_not_not hl
  cases a with
  | wouldBlock | exit => exact h
  | error => exact accounted_failed s hl
  | result n =>
      obtain ⟨chunks, hchunks, hbytes⟩ := leftover_append (s.buffer.map MemView.bytes) s.iovMax n
      rw [← List.map_take, ← adjustLeftoverBuffer_bytes h.bytewise] at hchunks
      obtain ⟨rest, hrest, rfl⟩ := Option.map_eq_some_iff.mp hchunks
      dsimp only [gathered]
      rw [hrest]
      refine Accounted.afterSend (accounted_iff.mpr ⟨fun _ => ?_, ?_⟩)
      · rw [← List.map_take] at hbytes
        show s.sent ++ _ ++ (rest.map MemView.bytes).flatten = s.offered
        rw [List.append_assoc, hbytes]
        exact h.whole hl
      · exact adjustLeftoverBuffer_bytewise h.bytewise hrest

/-- A step keeps the accounts exactly when it is careful. -/
theorem accounted_step (h : s.Accounted) (m : Move) : (s.step m).Accounted ↔ s.Careful m := by
  cases m with
  | write v a => exact accounted_write h v a
  | fire a =>
      refine iff_of_true ?_ trivial
      show (if _ then s.writeSendmsg a else s).Accounted
      split
      · exact accounted_writeSendmsg h a
      · exact h
  | resumed =>
      refine iff_of_true ?_ trivial
      show (if s.resuming then { s with resuming := false }.drained else s).Accounted
      split
      · exact (h.same rfl rfl rfl id : Accounted { s with resuming := false }).drained
      · exact h
  | writeEof =>
      refine iff_of_true ?_ trivial
      show (if s.closing then s else { s with eof := true }).Accounted
      split
      · exact h
      · exact h.same rfl rfl rfl id
  | makeEmptyWaiter | resetEmptyWaiter => exact iff_of_true (h.same rfl rfl rfl id) trivial
  | close => exact iff_of_true h.close trivial
  | abort => exact iff_of_true h.forceClose trivial
  | connectionLost =>
      refine iff_of_true ?_ trivial
      show (if s.connLost ≠ 0 then { s with attached := false } else s).Accounted
      split
      · exact h.same rfl rfl rfl id
      · exact h

end WriteSide

/-- **Accounts in bytes.** A transport keeps its accounts along a run, whatever
its writers are answered, exactly when every view that is not bytewise is sent
at once. `sock_sendall` does when its view is bytewise, or nothing is sent. -/
theorem accounted_throughout_iff (iovMax highWater lowWater : Nat) (ms : List WriteSide.Move)
    (view : MemView) (first : SockAnswer) (registers : Bool) (fs : List SendAll.Move) :
    (Throughout WriteSide.step WriteSide.Accounted (.new iovMax highWater lowWater) ms ↔
        EachMove WriteSide.step WriteSide.Careful (.new iovMax highWater lowWater) ms) ∧
      (Throughout SendAll.step SendAll.Accounted (.start view first registers) fs ↔
        (view.Bytewise ∨ first.sends = false) ∧
          EachMove SendAll.step SendAll.Careful (.start view first registers) fs) := by
  constructor
  · have hnew : (WriteSide.new iovMax highWater lowWater).Accounted :=
      WriteSide.accounted_iff.mpr ⟨fun _ => rfl, List.forall_mem_nil _⟩
    exact throughout_iff_eachMove (f := WriteSide.step) (P := WriteSide.Accounted)
      (I := fun _ => True) (fun _ _ _ => trivial) (fun _ m _ h => WriteSide.accounted_step h m)
      trivial hnew ms
  · have hcounted := SendAll.counted_start view first registers
    rw [← SendAll.accounted_start view first registers]
    by_cases h : (SendAll.start view first registers).Accounted
    · rw [and_iff_right h]
      exact throughout_iff_eachMove (f := SendAll.step) (P := SendAll.Accounted)
        (fun _ m hc => SendAll.Counted.step hc m)
        (fun _ m hc hacc => SendAll.accounted_step hacc hc m) hcounted h fs
    · exact iff_of_false (fun hall => h hall.head) fun hand => h hand.1

/-- Two bytes that are one item. -/
def pair : MemView where
  items := [[0xAA, 0xBB]]
  itemSize := 2
  itemSize_pos := Nat.two_pos
  length_item := by decide

/-- Bytes may be sent one at a time, and a pair as a whole. -/
theorem accounted_throughout_example :
    Throughout WriteSide.step WriteSide.Accounted (.new 16 64 16)
        [.write (.ofBytes [1, 2]) (.result 1), .fire (.result 1), .write pair (.result 2)] ∧
      Throughout SendAll.step SendAll.Accounted (.start (.ofBytes [1, 2]) (.result 1) true)
        [.fire (.result 1)] := by
  have h := accounted_throughout_iff 16 64 16
    [.write (.ofBytes [1, 2]) (.result 1), .fire (.result 1), .write pair (.result 2)]
    (.ofBytes [1, 2]) (.result 1) true [.fire (.result 1)]
  refine ⟨h.1.mpr ⟨.inl rfl, trivial, ?_, trivial⟩, h.2.mpr ⟨.inl rfl, .inl rfl, trivial⟩⟩
  exact .inr (.inr (.inr (.inr ⟨rfl, .inr (Nat.le_refl 2)⟩)))

/-- The kernel takes the first byte of a pair. `write` drops the second, and
`sock_sendall` returns without having sent it. -/
theorem pair_torn :
    ¬ ((WriteSide.new 16 64 16).step (.write pair (.result 1))).Accounted ∧
      ((WriteSide.new 16 64 16).step (.write pair (.result 1))).sent = [0xAA] ∧
      ((WriteSide.new 16 64 16).step (.write pair (.result 1))).buffer = [] ∧
      ((WriteSide.new 16 64 16).step (.write pair (.result 1))).offered = [0xAA, 0xBB] ∧
      ¬ (SendAll.start pair (.result 1) true).Accounted ∧
      (SendAll.start pair (.result 1) true).status = .returned ∧
      (SendAll.start pair (.result 1) true).sent = [0xAA] := by
  refine ⟨fun h => ?_, by decide, by decide, by decide, fun h => ?_, by decide, by decide⟩
  · exact absurd (h.whole (by decide)) (by decide)
  · exact absurd h.whole (by decide)

end Tokioop.Transport.Views
