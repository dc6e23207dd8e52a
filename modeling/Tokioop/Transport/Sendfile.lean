import Tokioop.Transport.Rules

/-!
`loop.sendfile` on a stream transport: `_sendfile_fallback`, which reads the
file block by block into one `bytearray` and passes a view of it to `write`.

What `write` cannot send at once it keeps, as a view and not as a copy. So a
transfer is modelled with the block buffer as shared state: the entries of
`_buffer` are intervals of it, and what is sent is what the intervals hold
when the kernel takes them. `drain` waits only while the transport has paused
its protocol, so that the next block may be read while views of the last are
waiting. The bytes that reach the socket are those of the file as long as no
`readinto` changes what the transport still has to send.
-/

namespace Tokioop.Transport.Sendfile

open Fd Kit

/-- A `memoryview` of the block buffer: where it starts and how long it is. -/
abbrev View := Nat × Nat

def View.bytes (buf : List UInt8) (v : View) : List UInt8 := (buf.drop v.1).take v.2

/-- `_adjust_leftover_buffer`, with `none` for the `IndexError` of an empty
deque. -/
def adjustLeftover : List View → Nat → Option (List View)
  | vs, 0 => some vs
  | [], _ + 1 => none
  | v :: vs, n + 1 =>
      if v.2 ≤ n + 1 then adjustLeftover vs (n + 1 - v.2)
      else some ((v.1 + (n + 1), v.2 - (n + 1)) :: vs)

inductive Pc
  /-- In `await self.run_in_executor(None, file.readinto, view)`. -/
  | reading
  /-- The executor has read this much, and the loop has yet to resume. -/
  | resumed (read : Nat)
  /-- In `await proto.drain()`. -/
  | draining (read : Nat)
  | returned (total : Nat)
  | raised
  deriving DecidableEq, Repr

/-- The file, the arguments of `sendfile`, and the limits of the transport. -/
structure Request where
  content : List UInt8
  -- Where the file is when `sendfile` is called.
  position : Nat
  -- `hasattr(file, "seek")`.
  hasSeek : Bool
  offset : Nat
  count : Option Nat
  iovMax : Nat
  highWater : Nat
  lowWater : Nat
  deriving DecidableEq, Repr

/-- The coroutine, the file position, the block buffer and the write side of
the transport. -/
structure Transfer where
  pc : Pc
  blocksize : Nat
  totalSent : Nat
  pos : Nat
  buf : List UInt8
  views : List View
  writer : Bool
  protocolPaused : Bool
  -- `_conn_lost` is not 0, and the transport is closing.
  lost : Bool
  sent : List UInt8
  deriving DecidableEq, Repr

namespace Transfer

def getWriteBufferSize (s : Transfer) : Nat := (s.views.map Prod.snd).sum

/-- What is waiting in `_buffer`. -/
def pending (s : Transfer) : List UInt8 := (s.views.map (View.bytes s.buf)).flatten

/-- What `_write_sendmsg` passes to `sendmsg`. -/
def gathered (s : Transfer) (iovMax : Nat) : List UInt8 :=
  ((s.views.take iovMax).map (View.bytes s.buf)).flatten

end Transfer

namespace Request

/-- `count`, if it is one: `if count:` does not tell 0 from `None`. -/
def limit (r : Request) : Option Nat := r.count.filter (· ≠ 0)

def origin (r : Request) : Nat := if r.hasSeek then r.offset else r.position

/-- The part of the file that is asked for. -/
def slice (r : Request) : List UInt8 :=
  match r.count with
  | some count => (r.content.drop r.offset).take count
  | none => r.content.drop r.offset

theorem origin_eq (r : Request) (h : r.hasSeek = true ∨ r.position = r.offset) :
    r.origin = r.offset := by
  unfold origin
  split
  · rfl
  · rename_i hno
    exact h.resolve_left hno

/-! ### The coroutine -/

def readbufferSize : Nat := 16384

def finish (r : Request) (s : Transfer) (pc : Pc) : Transfer :=
  { s with
    pc := pc
    pos := if 0 < s.totalSent ∧ r.hasSeek then r.offset + s.totalSent else s.pos }

/-- The head of the loop, up to the call of `readinto`. -/
def loopHead (r : Request) (s : Transfer) : Transfer :=
  match r.limit with
  | some count =>
      let blocksize := min (count - s.totalSent) s.blocksize
      if blocksize = 0 then r.finish { s with blocksize := blocksize } (.returned s.totalSent)
      else { s with blocksize := blocksize, pc := .reading }
  | none => { s with pc := .reading }

/-- `_sendfile_fallback` up to its first suspension. `_sendfile_native`, which
has failed by then, has waited for the buffer to be empty. -/
def start (r : Request) : Transfer :=
  let blocksize := match r.limit with
    | some count => min count readbufferSize
    | none => readbufferSize
  r.loopHead
    { pc := .reading, blocksize := blocksize, totalSent := 0, pos := r.origin
      buf := List.replicate blocksize 0, views := [], writer := false, protocolPaused := false
      lost := false, sent := [] }

def available (r : Request) (s : Transfer) : Nat := min s.blocksize (r.content.length - s.pos)

/-- `file.readinto(view)` reads `n` bytes. -/
def readinto (r : Request) (s : Transfer) (n : Nat) : Transfer :=
  { s with
    buf := (r.content.drop s.pos).take n ++ s.buf.drop n
    pos := s.pos + n
    pc := .resumed n }

/-! ### The transport -/

def maybePauseProtocol (r : Request) (s : Transfer) : Transfer :=
  if s.getWriteBufferSize ≤ r.highWater then s else { s with protocolPaused := true }

def maybeResumeProtocol (r : Request) (s : Transfer) : Transfer :=
  if s.protocolPaused ∧ s.getWriteBufferSize ≤ r.lowWater then { s with protocolPaused := false }
  else s

/-- `self._buffer.append(data)` and what follows. -/
def append (r : Request) (s : Transfer) (v : View) : Transfer :=
  r.maybePauseProtocol { s with views := s.views ++ [v] }

/-- Register the writer, which may fail, and keep the rest of the data. -/
def keep (r : Request) (s : Transfer) (registers : Bool) (v : View) : Transfer :=
  if registers then r.append { s with writer := true } v else { s with pc := .raised }

def write (r : Request) (s : Transfer) (v : View) (a : Reply) (registers : Bool) : Transfer :=
  if v.2 = 0 then s
  else if s.lost then s
  else if s.views = [] then
    match a with
    | .wouldBlock => r.keep s registers v
    | .fail _ => { s with lost := true }
    | .done n =>
        let n := min n v.2
        let s := { s with sent := s.sent ++ (v.bytes s.buf).take n }
        if v.2 - n = 0 then s else r.keep s registers (v.1 + n, v.2 - n)
  else r.append s v

/-- `transp.write(view[:read])`, on to `proto.drain()` if that does not raise. -/
def pass (r : Request) (s : Transfer) (n : Nat) (a : Reply) (registers : Bool) : Transfer :=
  let s := r.write { s with pc := .draining n } (0, n) a registers
  if s.pc = .raised then r.finish s .raised else s

/-- The connection is lost with a fatal error, and the buffer is cleared. -/
def fail (s : Transfer) : Transfer := { s with views := [], writer := false, lost := true }

/-- The `else` clause of `_write_sendmsg`. -/
def afterSend (r : Request) (s : Transfer) : Transfer :=
  let s := r.maybeResumeProtocol s
  if s.views = [] then { s with writer := false } else s

def writeSendmsg (r : Request) (s : Transfer) (a : Reply) : Transfer :=
  if s.views = [] then s
  else if s.lost then s
  else
    match a with
    | .wouldBlock => s
    | .fail _ => fail s
    | .done n =>
        let data := s.gathered r.iovMax
        match adjustLeftover s.views (min n data.length) with
        | none => fail s
        | some rest => r.afterSend { s with sent := s.sent ++ data.take n, views := rest }

/-! ### Runs -/

inductive Move
  -- The executor has run `readinto`.
  | read (n : Nat)
  -- The loop resumes the coroutine, which writes what was read.
  | resume (a : Reply) (registers : Bool)
  -- `proto.drain()` comes back.
  | drain
  -- The writer fires.
  | fire (a : Reply)
  deriving DecidableEq

def step (r : Request) (s : Transfer) : Move → Option Transfer
  | .read n =>
      -- A short read is one byte at least, unless there is nothing to read.
      if s.pc = .reading ∧ n ≤ r.available s ∧ (n = 0 → r.available s = 0) then
        some (r.readinto s n)
      else none
  | .resume a registers =>
      match s.pc with
      | .resumed n =>
          if n = 0 then some (r.finish s (.returned s.totalSent))
          else some (r.pass s n a registers)
      | _ => none
  | .drain =>
      match s.pc with
      | .draining n =>
          if s.lost then some (r.finish s .raised)
          else if s.protocolPaused then none
          else some (r.loopHead { s with totalSent := s.totalSent + n })
      | _ => none
  | .fire a => if s.writer then some (r.writeSendmsg s a) else none

/-- `readinto` changes nothing that the transport still has to send. -/
def Undisturbed (r : Request) (s : Transfer) : Move → Prop
  | .read n => ∀ v ∈ s.views, v.bytes (r.readinto s n).buf = v.bytes s.buf
  | _ => True

instance (r : Request) (s : Transfer) : (m : Move) → Decidable (r.Undisturbed s m)
  | .read _ => inferInstanceAs (Decidable (∀ v ∈ _, _))
  | .resume _ _ => .isTrue trivial
  | .drain => .isTrue trivial
  | .fire _ => .isTrue trivial

end Request

/-! ### Views and what they show -/

def View.Within (buf : List UInt8) (v : View) : Prop := v.1 + v.2 ≤ buf.length

theorem View.length_bytes {buf : List UInt8} {v : View} (h : v.Within buf) :
    (v.bytes buf).length = v.2 := by
  unfold View.Within at h
  rw [View.bytes, List.length_take, List.length_drop]
  omega

/-- The rest of a view shows the rest of its bytes. -/
theorem View.bytes_rest (buf : List UInt8) (v : View) (n : Nat) :
    View.bytes buf (v.1 + n, v.2 - n) = (v.bytes buf).drop n := by
  rw [View.bytes, View.bytes, List.drop_take, List.drop_drop]

theorem View.within_rest {buf : List UInt8} {v : View} (h : v.Within buf) {n : Nat} (hn : n ≤ v.2) :
    View.Within buf (v.1 + n, v.2 - n) := by
  unfold View.Within at h ⊢
  show v.1 + n + (v.2 - n) ≤ _
  omega

/-- On views in the buffer, `_adjust_leftover_buffer` does to what they show
what it does to chunks of bytes. -/
theorem adjustLeftover_bytes {buf : List UInt8} {vs : List View}
    (h : ∀ v ∈ vs, View.Within buf v) (n : Nat) :
    (adjustLeftover vs n).map (List.map (View.bytes buf)) =
      adjustLeftoverBuffer (vs.map (View.bytes buf)) n := by
  induction vs generalizing n with
  | nil => cases n <;> rfl
  | cons v vs ih =>
      have hv := View.length_bytes (h v (by simp))
      cases n with
      | zero => rfl
      | succ n =>
          rw [List.map_cons, adjustLeftover, adjustLeftoverBuffer, hv]
          split
          · exact ih (fun w hw => h w (by simp [hw])) _
          · simp [View.bytes_rest]

theorem adjustLeftover_within {buf : List UInt8} {vs rest : List View}
    (h : ∀ v ∈ vs, View.Within buf v) {n : Nat} (hrest : adjustLeftover vs n = some rest) :
    ∀ v ∈ rest, View.Within buf v := by
  induction vs generalizing n with
  | nil =>
      cases n with
      | zero => cases hrest; exact h
      | succ n => cases hrest
  | cons v vs ih =>
      cases n with
      | zero => cases hrest; exact h
      | succ n =>
          rw [adjustLeftover] at hrest
          split at hrest
          · exact ih (fun w hw => h w (by simp [hw])) hrest
          · rename_i hlt
            cases hrest
            intro w hw
            rcases List.mem_cons.mp hw with rfl | hw
            · exact View.within_rest (h v (by simp)) (by omega)
            · exact h w (by simp [hw])

/-! ### What the transport does to a transfer -/

/-- The views lie in the buffer. -/
def Transfer.Sane (s : Transfer) : Prop := ∀ v ∈ s.views, View.Within s.buf v

/-- The transport has been given `data`. It leaves the coroutine, the file and
the block buffer alone, unless it raises, and a connection stays lost. Until
then the data is sent or waits, after everything before it. -/
structure Given (s : Transfer) (data : List UInt8) (s' : Transfer) : Prop where
  buf : s'.buf = s.buf
  blocksize : s'.blocksize = s.blocksize
  totalSent : s'.totalSent = s.totalSent
  pos : s'.pos = s.pos
  pc : s'.pc = s.pc ∨ s'.pc = .raised
  lost : s'.lost = false → s.lost = false
  sane : s'.Sane
  books : s'.lost = false → s'.pc ≠ .raised →
    s'.sent ++ s'.pending = s.sent ++ s.pending ++ data

namespace Given

variable {s : Transfer}

theorem nothing (hs : s.Sane) : Given s [] s :=
  ⟨rfl, rfl, rfl, rfl, .inl rfl, id, hs, fun _ _ => (List.append_nil _).symm⟩

/-- Nothing is claimed of the data once the connection is lost. -/
theorem of_lost (hs : s.Sane) {data : List UInt8} (hl : s.lost = true) : Given s data s :=
  { nothing hs with books := fun h => absurd (h.symm.trans hl) Bool.false_ne_true }

end Given

namespace Request

variable {r : Request} {s : Transfer}

theorem maybePauseProtocol_eq (r : Request) (s : Transfer) :
    ∃ b, r.maybePauseProtocol s = { s with protocolPaused := b } := by
  unfold maybePauseProtocol
  split
  · exact ⟨s.protocolPaused, rfl⟩
  · exact ⟨true, rfl⟩

theorem maybeResumeProtocol_eq (r : Request) (s : Transfer) :
    ∃ b, r.maybeResumeProtocol s = { s with protocolPaused := b } := by
  unfold maybeResumeProtocol
  split
  · exact ⟨false, rfl⟩
  · exact ⟨s.protocolPaused, rfl⟩

theorem afterSend_eq (r : Request) (s : Transfer) :
    ∃ writer paused, r.afterSend s = { s with writer := writer, protocolPaused := paused } := by
  obtain ⟨paused, h⟩ := r.maybeResumeProtocol_eq s
  unfold afterSend
  simp only [h]
  split
  · exact ⟨false, paused, rfl⟩
  · exact ⟨s.writer, paused, rfl⟩

theorem append_given (hs : s.Sane) {v : View} (hv : v.Within s.buf) :
    Given s (v.bytes s.buf) (r.append s v) := by
  obtain ⟨b, hb⟩ := r.maybePauseProtocol_eq { s with views := s.views ++ [v] }
  unfold append
  rw [hb]
  refine ⟨rfl, rfl, rfl, rfl, .inl rfl, id, fun w hw => ?_, fun _ _ => ?_⟩
  · rcases List.mem_append.mp hw with hw | hw
    · exact hs w hw
    · rw [List.mem_singleton.mp hw]
      exact hv
  · simp [Transfer.pending]

theorem keep_given (hs : s.Sane) (registers : Bool) {v : View} (hv : v.Within s.buf) :
    Given s (v.bytes s.buf) (r.keep s registers v) := by
  unfold keep
  split
  · have hwriter : Transfer.Sane { s with writer := true } := hs
    exact { append_given (r := r) hwriter hv with }
  · exact { Given.nothing hs with pc := .inr rfl, books := fun _ h => absurd rfl h }

theorem write_given (hs : s.Sane) {v : View} (hv : v.Within s.buf) (a : Reply)
    (registers : Bool) : Given s (v.bytes s.buf) (r.write s v a registers) := by
  unfold write
  split
  · rename_i h0
    have hnil : v.bytes s.buf = [] := by rw [View.bytes, h0, List.take_zero]
    rw [hnil]
    exact .nothing hs
  split
  · rename_i hl
    exact .of_lost hs hl
  split
  · rename_i hviews
    have hnone : s.pending = [] := by simp [Transfer.pending, hviews]
    cases a with
    | wouldBlock => exact keep_given hs registers hv
    | fail e =>
        exact { Given.nothing hs with
          lost := fun h => by cases h
          books := fun h => by cases h }
    | done n =>
        have hsplit := List.take_append_drop (min n v.2) (v.bytes s.buf)
        show Given s _ (if v.2 - min n v.2 = 0 then _ else _)
        split
        · rename_i hall
          have hdrop : (v.bytes s.buf).drop (min n v.2) = [] := by
            refine List.drop_eq_nil_of_le ?_
            rw [View.length_bytes hv]
            omega
          rw [hdrop, List.append_nil] at hsplit
          refine { Given.nothing hs with books := fun _ _ => ?_ }
          show s.sent ++ (v.bytes s.buf).take (min n v.2) ++ s.pending = _
          rw [hsplit, hnone, List.append_nil, List.append_nil]
        · have htook : Transfer.Sane
              { s with sent := s.sent ++ (v.bytes s.buf).take (min n v.2) } := hs
          have hrest := View.within_rest hv (Nat.min_le_right n v.2)
          have hkeep := keep_given (r := r) htook registers hrest
          refine { hkeep with books := fun hl hpc => ?_ }
          rw [hkeep.books hl hpc]
          show s.sent ++ _ ++ s.pending ++ View.bytes s.buf _ = _
          rw [View.bytes_rest, hnone, List.append_nil, List.append_nil, List.append_assoc, hsplit]
  · exact append_given hs hv

theorem fail_given (s : Transfer) : Given s [] (fail s) :=
  ⟨rfl, rfl, rfl, rfl, .inl rfl, fun h => (by cases h), fun v hv => (by cases hv),
    fun h => (by cases h)⟩

/-- The writer leaves the transfer alone, or loses the connection, or has sent
bytes from the front of what waits. -/
theorem writeSendmsg_cases (r : Request) (s : Transfer) (a : Reply) :
    r.writeSendmsg s a = s ∨ r.writeSendmsg s a = fail s ∨
      ∃ n rest writer paused,
        adjustLeftover s.views (min n (s.gathered r.iovMax).length) = some rest ∧
        r.writeSendmsg s a = { s with
          sent := s.sent ++ (s.gathered r.iovMax).take n
          views := rest
          writer := writer
          protocolPaused := paused } := by
  unfold writeSendmsg
  split
  · exact .inl rfl
  split
  · exact .inl rfl
  cases a with
  | wouldBlock => exact .inl rfl
  | fail e => exact .inr (.inl rfl)
  | done n =>
      dsimp only
      cases hrest : adjustLeftover s.views (min n (s.gathered r.iovMax).length) with
      | none => exact .inr (.inl rfl)
      | some rest =>
          obtain ⟨writer, paused, h⟩ := r.afterSend_eq
            { s with sent := s.sent ++ (s.gathered r.iovMax).take n, views := rest }
          exact .inr (.inr ⟨n, rest, writer, paused, hrest, h⟩)

theorem writeSendmsg_pc (r : Request) (s : Transfer) (a : Reply) :
    (r.writeSendmsg s a).pc = s.pc := by
  obtain h | h | ⟨n, rest, writer, paused, -, h⟩ := r.writeSendmsg_cases s a
  · rw [h]
  · rw [h]
    rfl
  · rw [h]

theorem writeSendmsg_given (hs : s.Sane) (a : Reply) : Given s [] (r.writeSendmsg s a) := by
  obtain h | h | ⟨n, rest, writer, paused, hrest, h⟩ := r.writeSendmsg_cases s a
  · rw [h]
    exact .nothing hs
  · rw [h]
    exact fail_given s
  · obtain ⟨chunks, hadjust, hleft⟩ := leftover_append (s.views.map (View.bytes s.buf)) r.iovMax n
    rw [← List.map_take] at hadjust hleft
    have hviews := (adjustLeftover_bytes hs (min n (s.gathered r.iovMax).length)).trans hadjust
    rw [hrest, Option.map_some, Option.some.injEq] at hviews
    rw [h]
    refine { Given.nothing hs with sane := adjustLeftover_within hs hrest, books := fun _ _ => ?_ }
    show s.sent ++ (s.gathered r.iovMax).take n ++ (rest.map (View.bytes s.buf)).flatten = _
    rw [hviews, List.append_assoc, List.append_nil]
    exact congrArg (s.sent ++ ·) hleft

end Request

/-! ### How far the transfer is -/

/-- What the coroutine has read and not yet counted. -/
def Pc.read : Pc → Nat
  | .resumed n => n
  | .draining n => n
  | _ => 0

/-- What it has passed to `write` and not yet counted. -/
def Pc.passed : Pc → Nat
  | .draining n => n
  | _ => 0

/-- The coroutine is where the file is, with a block that fits the buffer and
what is left of the count. -/
structure Placed (r : Request) (s : Transfer) : Prop where
  room : s.blocksize ≤ s.buf.length
  short : s.pc.read ≤ s.blocksize
  quota : ∀ count, r.limit = some count → s.totalSent + s.blocksize ≤ count
  pos : s.pos = r.origin + s.totalSent + s.pc.read
  most : s.totalSent + s.pc.read ≤ r.content.length - r.origin
  ready : 0 < s.blocksize ∨ s.pc = .returned s.totalSent
  -- The front of the buffer is what was read last, until it is written.
  fresh : ∀ n, s.pc = .resumed n →
    s.buf.take n = (r.content.drop (r.origin + s.totalSent)).take n
  ended : s.pc = .resumed 0 → r.content.length ≤ s.pos
  done : ∀ total, s.pc = .returned total →
    total = s.totalSent ∧ (r.limit = some total ∨ r.content.length ≤ r.origin + total)

/-- As long as the connection is there, what has been sent and what waits is
the file from its offset on, as far as it was passed to `write`. -/
structure Exact (r : Request) (s : Transfer) : Prop where
  placed : Placed r s
  sane : s.Sane
  books : s.lost = false →
    s.sent ++ s.pending = (r.content.drop r.origin).take (s.totalSent + s.pc.passed)

section

variable {r : Request} {s s' : Transfer}

/-- The transport does not move the coroutine. -/
theorem Placed.given (h : Placed r s) {data : List UInt8} (hg : Given s data s')
    (hpc : s'.pc ≠ .raised) : Placed r s' := by
  have hsame : s'.pc = s.pc := hg.pc.resolve_right hpc
  constructor
  · rw [hg.buf, hg.blocksize]
    exact h.room
  · rw [hsame, hg.blocksize]
    exact h.short
  · rw [hg.totalSent, hg.blocksize]
    exact h.quota
  · rw [hsame, hg.totalSent, hg.pos]
    exact h.pos
  · rw [hsame, hg.totalSent]
    exact h.most
  · rw [hsame, hg.totalSent, hg.blocksize]
    exact h.ready
  · rw [hsame, hg.totalSent, hg.buf]
    exact h.fresh
  · rw [hsame, hg.pos]
    exact h.ended
  · rw [hsame, hg.totalSent]
    exact h.done

theorem Exact.given (h : Placed r s) {data : List UInt8} (hg : Given s data s')
    (hbooks : s.lost = false → s.sent ++ s.pending ++ data =
      (r.content.drop r.origin).take (s.totalSent + s.pc.passed)) :
    s'.pc = .raised ∨ Exact r s' := by
  by_cases hpc : s'.pc = .raised
  · exact .inl hpc
  refine .inr ⟨h.given hg hpc, hg.sane, fun hl => ?_⟩
  rw [hg.books hl hpc, hbooks (hg.lost hl), hg.totalSent, hg.pc.resolve_right hpc]

theorem Placed.reading (hpc : s.pc = .reading) (hroom : s.blocksize ≤ s.buf.length)
    (hquota : ∀ count, r.limit = some count → s.totalSent + s.blocksize ≤ count)
    (hpos : s.pos = r.origin + s.totalSent)
    (hmost : s.totalSent ≤ r.content.length - r.origin) (hready : 0 < s.blocksize) :
    Placed r s where
  room := hroom
  short := by simp [hpc, Pc.read]
  quota := hquota
  pos := by rw [hpc]; exact hpos
  most := by rw [hpc]; exact hmost
  ready := .inl hready
  fresh := by simp [hpc]
  ended := by simp [hpc]
  done := by simp [hpc]

/-- Where the coroutine returns, the `finally` clause finds the file where it
would put it. -/
theorem Placed.returned (hroom : s.blocksize ≤ s.buf.length)
    (hquota : ∀ count, r.limit = some count → s.totalSent + s.blocksize ≤ count)
    (hpos : s.pos = r.origin + s.totalSent)
    (hmost : s.totalSent ≤ r.content.length - r.origin)
    (hdone : r.limit = some s.totalSent ∨ r.content.length ≤ r.origin + s.totalSent) :
    Placed r (r.finish s (.returned s.totalSent)) where
  room := hroom
  short := Nat.zero_le _
  quota := hquota
  pos := by
    show (if 0 < s.totalSent ∧ r.hasSeek = true then _ else _) = r.origin + s.totalSent
    split
    · rename_i h
      rw [Request.origin, if_pos h.2]
    · exact hpos
  most := hmost
  ready := .inr rfl
  fresh := by simp [Request.finish]
  ended := by simp [Request.finish]
  done := fun total h => by
    obtain rfl : s.totalSent = total := by simpa [Request.finish] using h
    exact ⟨rfl, hdone⟩

theorem loopHead_placed (hroom : s.blocksize ≤ s.buf.length)
    (hpos : s.pos = r.origin + s.totalSent)
    (hmost : s.totalSent ≤ r.content.length - r.origin)
    (hquota : ∀ count, r.limit = some count → s.totalSent ≤ count) (hready : 0 < s.blocksize) :
    Placed r (r.loopHead s) := by
  unfold Request.loopHead
  split
  · rename_i count hlimit
    have hle := hquota count hlimit
    have hrest : ∀ c, r.limit = some c →
        s.totalSent + min (count - s.totalSent) s.blocksize ≤ c := by
      intro c hc
      obtain rfl : count = c := Option.some.inj (hlimit.symm.trans hc)
      omega
    have hfits : min (count - s.totalSent) s.blocksize ≤ s.buf.length :=
      Nat.le_trans (Nat.min_le_right _ _) hroom
    dsimp only
    split
    · rename_i hzero
      have hall : count = s.totalSent := by omega
      exact .returned (s := { s with blocksize := _ }) hfits hrest hpos hmost
        (.inl (hall ▸ hlimit))
    · rename_i hsome
      exact .reading rfl hfits hrest hpos hmost (Nat.pos_of_ne_zero hsome)
  · rename_i hnone
    refine .reading rfl hroom (fun c hc => ?_) hpos hmost hready
    rw [hnone] at hc
    cases hc

/-- The head of the loop leaves the transport alone. -/
theorem loopHead_exact (hplaced : Placed r (r.loopHead s)) (hsane : s.Sane)
    (hbooks : s.lost = false →
      s.sent ++ s.pending = (r.content.drop r.origin).take s.totalSent) :
    Exact r (r.loopHead s) := by
  refine ⟨hplaced, ?_, ?_⟩
  · unfold Request.loopHead
    split
    · dsimp only
      split
      · exact hsane
      · exact hsane
    · exact hsane
  · unfold Request.loopHead
    split
    · dsimp only
      split
      · exact hbooks
      · exact hbooks
    · exact hbooks

theorem start_exact (r : Request) : Exact r r.start := by
  refine loopHead_exact (loopHead_placed ?_ rfl (Nat.zero_le _) (fun _ _ => Nat.zero_le _) ?_)
    (fun v hv => by cases hv) (fun _ => by simp [Transfer.pending])
  · simp
  · show 0 < (match r.limit with | some count => min count Request.readbufferSize | none => _)
    split
    · rename_i count hlimit
      have hsome : count ≠ 0 := by
        have := (Option.filter_eq_some_iff.mp hlimit).2
        simpa using this
      unfold Request.readbufferSize
      omega
    · unfold Request.readbufferSize
      omega

/-! ### The steps -/

theorem readinto_length {n : Nat} (h : Placed r s) (hn : n ≤ r.available s) :
    (r.readinto s n).buf.length = s.buf.length := by
  have hroom := h.room
  unfold Request.available at hn
  simp only [Request.readinto, List.length_append, List.length_take, List.length_drop]
  omega

theorem read_exact {n : Nat} (h : Exact r s) (hpc : s.pc = .reading) (hn : n ≤ r.available s)
    (hend : n = 0 → r.available s = 0) (hok : r.Undisturbed s (.read n)) :
    Exact r (r.readinto s n) := by
  have hlen := readinto_length h.placed hn
  have hpos : s.pos = r.origin + s.totalSent := by
    have := h.placed.pos
    rwa [hpc] at this
  have hmost : s.totalSent ≤ r.content.length - r.origin := by
    have := h.placed.most
    rwa [hpc] at this
  have hready : 0 < s.blocksize := h.placed.ready.resolve_right (by simp [hpc])
  have havail : r.available s = min s.blocksize (r.content.length - s.pos) := rfl
  refine ⟨⟨?_, ?_, h.placed.quota, ?_, ?_, .inl hready, ?_, ?_, ?_⟩, ?_, ?_⟩
  · rw [hlen]
    exact h.placed.room
  · show n ≤ s.blocksize
    omega
  · show s.pos + n = r.origin + s.totalSent + n
    omega
  · show s.totalSent + n ≤ _
    omega
  · intro m hm
    obtain rfl : n = m := by simpa [Request.readinto] using hm
    show ((r.content.drop s.pos).take n ++ s.buf.drop n).take n = (r.content.drop _).take n
    have hfull : ((r.content.drop s.pos).take n).length = n := by
      rw [List.length_take, List.length_drop]
      omega
    rw [List.take_append_of_le_length (Nat.le_of_eq hfull.symm), List.take_take, Nat.min_self, hpos]
    rfl
  · intro hm
    obtain rfl : n = 0 := by simpa [Request.readinto] using hm
    have := hend rfl
    show r.content.length ≤ s.pos + 0
    omega
  · intro total ht
    cases ht
  · intro v hv
    show v.1 + v.2 ≤ _
    rw [hlen]
    exact h.sane v hv
  · intro hl
    have hpending : (r.readinto s n).pending = s.pending :=
      congrArg List.flatten (List.map_congr_left hok)
    rw [hpending]
    have := h.books hl
    rwa [hpc] at this

theorem resume_exact {n : Nat} (h : Exact r s) (hpc : s.pc = .resumed n) (hn : n ≠ 0) (a : Reply)
    (registers : Bool) :
    (r.pass s n a registers).pc = .raised ∨ Exact r (r.pass s n a registers) := by
  have hshort : n ≤ s.blocksize := by
    have := h.placed.short
    rwa [hpc] at this
  have hplaced : Placed r { s with pc := .draining n } := {
    room := h.placed.room
    short := hshort
    quota := h.placed.quota
    pos := by have := h.placed.pos; rwa [hpc] at this
    most := by have := h.placed.most; rwa [hpc] at this
    ready := .inl (Nat.lt_of_lt_of_le (Nat.pos_of_ne_zero hn) hshort)
    fresh := fun _ hm => by cases hm
    ended := fun hm => by cases hm
    done := fun _ ht => by cases ht }
  have hsane : Transfer.Sane { s with pc := .draining n } := h.sane
  have hwithin : View.Within s.buf (0, n) := by
    have := h.placed.room
    show 0 + n ≤ _
    omega
  have hgiven := Request.write_given (r := r) hsane hwithin a registers
  have hwritten := Exact.given hplaced hgiven fun hl => by
    -- What is read last is what follows in the file.
    have hbooks : s.sent ++ s.pending = (r.content.drop r.origin).take s.totalSent := by
      have := h.books hl
      rwa [hpc] at this
    show _ ++ (s.buf.drop 0).take n = (r.content.drop r.origin).take (s.totalSent + n)
    rw [List.take_add, List.drop_drop, ← h.placed.fresh n hpc, List.drop_zero]
    exact congrArg (· ++ s.buf.take n) hbooks
  unfold Request.pass
  dsimp only
  split
  · exact .inl rfl
  · exact hwritten

theorem drain_exact {n : Nat} (h : Exact r s) (hpc : s.pc = .draining n) :
    Exact r (r.loopHead { s with totalSent := s.totalSent + n }) := by
  have hpos := h.placed.pos
  have hmost := h.placed.most
  have hshort := h.placed.short
  have hready : 0 < s.blocksize := h.placed.ready.resolve_right (by simp [hpc])
  have hbooks := h.books
  rw [hpc] at hpos hmost hshort hbooks
  refine loopHead_exact (loopHead_placed h.placed.room ?_ hmost (fun count hcount => ?_) hready)
    h.sane hbooks
  · show s.pos = r.origin + (s.totalSent + n)
    rw [hpos, Nat.add_assoc]
    rfl
  · have := h.placed.quota count hcount
    show s.totalSent + n ≤ count
    have : n ≤ s.blocksize := hshort
    omega

theorem returned_exact (h : Exact r s) (hpc : s.pc = .resumed 0) :
    Exact r (r.finish s (.returned s.totalSent)) := by
  have hpos := h.placed.pos
  have hmost := h.placed.most
  have hended := h.placed.ended hpc
  have hbooks := h.books
  rw [hpc] at hpos hmost hbooks
  have hdone : r.content.length ≤ r.origin + s.totalSent := hpos ▸ hended
  exact ⟨.returned h.placed.room h.placed.quota hpos hmost (.inr hdone), h.sane, hbooks⟩

theorem fire_exact (h : Exact r s) (a : Reply) :
    (r.writeSendmsg s a).pc = .raised ∨ Exact r (r.writeSendmsg s a) := by
  refine Exact.given h.placed (Request.writeSendmsg_given h.sane a) fun hl => ?_
  rw [List.append_nil]
  exact h.books hl

theorem step_cases {m : Request.Move} (hs : r.step s m = some s') :
    (∃ n, m = .read n ∧ s.pc = .reading ∧ n ≤ r.available s ∧ (n = 0 → r.available s = 0) ∧
      s' = r.readinto s n) ∨
    (s.pc = .resumed 0 ∧ s' = r.finish s (.returned s.totalSent)) ∨
    (∃ n a registers, s.pc = .resumed n ∧ n ≠ 0 ∧ s' = r.pass s n a registers) ∨
    (∃ n, s.pc = .draining n ∧ s' = r.finish s .raised) ∨
    (∃ n, s.pc = .draining n ∧ s' = r.loopHead { s with totalSent := s.totalSent + n }) ∨
    ∃ a, s' = r.writeSendmsg s a := by
  cases m with
  | read n =>
      simp only [Request.step] at hs
      split at hs
      · rename_i hread
        exact .inl ⟨n, rfl, hread.1, hread.2.1, hread.2.2, (Option.some.inj hs).symm⟩
      · cases hs
  | resume a registers =>
      simp only [Request.step] at hs
      split at hs
      · rename_i n hpc
        split at hs
        · rename_i hn
          exact .inr (.inl ⟨hn ▸ hpc, (Option.some.inj hs).symm⟩)
        · rename_i hn
          exact .inr (.inr (.inl ⟨n, a, registers, hpc, hn, (Option.some.inj hs).symm⟩))
      · cases hs
  | drain =>
      simp only [Request.step] at hs
      split at hs
      · rename_i n hpc
        split at hs
        · exact .inr (.inr (.inr (.inl ⟨n, hpc, (Option.some.inj hs).symm⟩)))
        split at hs
        · cases hs
        · exact .inr (.inr (.inr (.inr (.inl ⟨n, hpc, (Option.some.inj hs).symm⟩))))
      · cases hs
  | fire a =>
      simp only [Request.step] at hs
      split at hs
      · exact .inr (.inr (.inr (.inr (.inr ⟨a, (Option.some.inj hs).symm⟩))))
      · cases hs

/-- Only the writer still runs after the coroutine has raised. -/
theorem step_raised {m : Request.Move} (h : s.pc = .raised) (hs : r.step s m = some s') :
    s'.pc = .raised := by
  obtain ⟨n, -, hpc, -⟩ | ⟨hpc, -⟩ | ⟨n, a, registers, hpc, -⟩ | ⟨n, hpc, -⟩ | ⟨n, hpc, -⟩ |
    ⟨a, rfl⟩ := step_cases hs
  · simp [h] at hpc
  · simp [h] at hpc
  · simp [h] at hpc
  · simp [h] at hpc
  · simp [h] at hpc
  · exact (r.writeSendmsg_pc s a).trans h

/-- A transfer that has not raised stays exact, as long as no `readinto`
changes what waits. -/
theorem step_exact {m : Request.Move} (h : Exact r s) (hok : r.Undisturbed s m)
    (hs : r.step s m = some s') : s'.pc = .raised ∨ Exact r s' := by
  obtain ⟨n, rfl, hpc, hn, hend, rfl⟩ | ⟨hpc, rfl⟩ | ⟨n, a, registers, hpc, hn, rfl⟩ |
    ⟨n, hpc, rfl⟩ | ⟨n, hpc, rfl⟩ | ⟨a, rfl⟩ := step_cases hs
  · exact .inr (read_exact h hpc hn hend hok)
  · exact .inr (returned_exact h hpc)
  · exact resume_exact h hpc hn a registers
  · exact .inl rfl
  · exact .inr (drain_exact h hpc)
  · exact fire_exact h a

/-- Along a run the transfer is exact until it raises. -/
theorem exact_of_runs (h : Runs r.step r.Undisturbed (· = r.start) s) :
    s.pc = .raised ∨ Exact r s := by
  refine h.invariant (I := fun s => s.pc = .raised ∨ Exact r s) ?_ ?_
  · rintro s rfl
    exact .inr (start_exact r)
  · rintro s m s' (hraised | hexact) hok hs
    · exact .inl (step_raised hraised hs)
    · exact step_exact hexact hok hs

/-- What has been counted when the coroutine returns is what was asked for. -/
theorem Placed.slice_eq {total : Nat} (h : Placed r s) (hcount : r.count ≠ some 0)
    (horigin : r.origin = r.offset) (hpc : s.pc = .returned total) :
    r.slice = (r.content.drop r.offset).take total ∧ total = r.slice.length := by
  obtain ⟨rfl, hend⟩ := h.done total hpc
  rw [horigin] at hend
  have hmost : s.totalSent ≤ r.content.length - r.offset := by
    have := h.most
    rwa [hpc, horigin] at this
  have hlen : ((r.content.drop r.offset).take s.totalSent).length = s.totalSent := by
    rw [List.length_take, List.length_drop]
    omega
  suffices hslice : r.slice = (r.content.drop r.offset).take s.totalSent by
    exact ⟨hslice, by rw [hslice, hlen]⟩
  -- At the end of the file, what was counted is all there is.
  have hall : r.content.length ≤ r.offset + s.totalSent →
      ∀ n, s.totalSent ≤ n →
        (r.content.drop r.offset).take n = (r.content.drop r.offset).take s.totalSent := by
    intro hend n hn
    rw [List.take_of_length_le, List.take_of_length_le]
    · rw [List.length_drop]
      omega
    · rw [List.length_drop]
      omega
  have hquota := h.quota
  unfold Request.limit at hquota hend
  unfold Request.slice
  cases hc : r.count with
  | none =>
      rw [hc] at hend
      have := hall (hend.resolve_left (by simp)) (r.content.length - r.offset) (by omega)
      show r.content.drop r.offset = _
      rw [← this, List.take_of_length_le]
      exact Nat.le_of_eq List.length_drop
  | some count =>
      have hpos : count ≠ 0 := fun h0 => hcount (h0 ▸ hc)
      have hlimit : r.count.filter (· ≠ 0) = some count := by simp [hc, hpos]
      rw [hlimit] at hend
      show (r.content.drop r.offset).take count = _
      rcases hend with hend | hend
      · rw [Option.some.inj hend]
      · have := hquota count hlimit
        exact hall hend count (by omega)

/-- Where the file seeks, or is where it was to be, and no `readinto` changes
what the transport still has to send, what a transfer has sent when it has
returned and the buffer is drained is the part of the file that was asked for,
and the total is its length. -/
theorem sendfile_exact {total : Nat} (hcount : r.count ≠ some 0)
    (hseek : r.hasSeek = true ∨ r.position = r.offset)
    (h : Runs r.step r.Undisturbed (· = r.start) s) (hpc : s.pc = .returned total)
    (hlost : s.lost = false) (hdrained : s.views = []) :
    s.sent = r.slice ∧ total = r.slice.length := by
  have hexact := (exact_of_runs h).resolve_left (by simp [hpc])
  have horigin := r.origin_eq hseek
  obtain ⟨hslice, htotal⟩ := hexact.placed.slice_eq hcount horigin hpc
  have hbooks := hexact.books hlost
  have hnone : s.pending = [] := by simp [Transfer.pending, hdrained]
  obtain ⟨rfl, -⟩ := hexact.placed.done total hpc
  rw [hnone, List.append_nil, hpc, horigin] at hbooks
  exact ⟨hbooks.trans hslice.symm, htotal⟩

end

/-- Three bytes from the second on, to a transport with the usual limits. -/
def threeBytes : Request :=
  { content := [7, 1, 2, 3, 9], position := 0, hasSeek := true, offset := 1, count := some 3
    iovMax := 1024, highWater := 65536, lowWater := 16384 }

/-- The first block is taken in two parts, the second after the writer has
fired. -/
theorem sendfile_exact_example :
    ∃ s, Runs threeBytes.step threeBytes.Undisturbed (· = threeBytes.start) s ∧
      s.sent = threeBytes.slice ∧ 3 = threeBytes.slice.length := by
  have hstart : Runs threeBytes.step threeBytes.Undisturbed (· = threeBytes.start)
    threeBytes.start := .start rfl
  obtain ⟨s, hruns, hs⟩ := hstart.exists_of_replay
    [.read 2, .resume (.done 1) true, .drain, .fire (.done 1), .read 1, .resume .wouldBlock true,
      .fire .wouldBlock, .drain, .fire (.done 1)]
    (fun s => s.pc = .returned 3 ∧ s.lost = false ∧ s.views = []) (by decide +kernel)
  obtain ⟨hpc, hlost, hdrained⟩ := of_decide_eq_true hs
  exact ⟨s, hruns, sendfile_exact (by decide) (.inl rfl) hruns hpc hlost hdrained⟩

/-- Two bytes, read one at a time. The first waits for the writer when the
second is read over it, and the second is sent twice. -/
theorem sendfile_overwrites :
    ¬ ∀ (r : Request) (s : Transfer) (total : Nat), r.count ≠ some 0 → r.hasSeek = true →
      Runs r.step (fun _ _ => True) (· = r.start) s → s.pc = .returned total →
      s.lost = false → s.views = [] → s.sent = r.slice ∧ total = r.slice.length := by
  intro hall
  let r : Request :=
    { content := [1, 2], position := 0, hasSeek := true, offset := 0, count := some 2
      iovMax := 1024, highWater := 65536, lowWater := 16384 }
  have hstart : Runs r.step (fun _ _ => True) (· = r.start) r.start := .start rfl
  obtain ⟨s, hruns, hs⟩ := hstart.exists_of_replay
    [.read 1, .resume .wouldBlock true, .drain, .read 1, .resume .wouldBlock true, .drain,
      .fire (.done 2)]
    (fun s => s.pc = .returned 2 ∧ s.lost = false ∧ s.views = [] ∧ s.sent = [2, 2])
    (by decide +kernel)
  obtain ⟨hpc, hlost, hdrained, hsent⟩ := of_decide_eq_true hs
  have := (hall r s 2 (by decide) rfl hruns hpc hlost hdrained).1
  rw [hsent] at this
  exact absurd this (by decide)

end Tokioop.Transport.Sendfile
