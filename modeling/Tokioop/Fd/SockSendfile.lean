import Tokioop.Fd.SendAll

/-!
`loop.sock_sendfile`: the checks of its arguments, and `_sock_sendfile_fallback`,
which reads the file block by block into one `bytearray` and passes each block
to `sock_sendall`.

The native path always raises `SendfileNotAvailableError`. A block is sent
before the next is read into the same memory, so that what `sock_sendall` was
given does not change under it.
-/

namespace Tokioop.Fd

open Kit

namespace SockSendfile

/-! ### The call -/

inductive SendfileError
  | typeError (message : String)
  | valueError (message : String)
  | notAvailable
  deriving DecidableEq, Repr

/-- An open file, and its position. -/
structure File where
  content : List UInt8
  pos : Nat
  -- `"b" in getattr(file, "mode", "b")`.
  binary : Bool
  -- `hasattr(file, "seek")`.
  hasSeek : Bool
  deriving DecidableEq, Repr

/-- What `sock_sendfile` looks at of its socket. -/
structure SendSocket where
  -- `get_debug() and sock.gettimeout() != 0`.
  blocking : Bool
  ssl : Bool
  stream : Bool
  deriving DecidableEq, Repr

structure Request where
  sock : SendSocket
  file : File
  offset : Int
  count : Option Int
  fallback : Bool
  deriving DecidableEq, Repr

inductive Pc
  /-- In `await self.run_in_executor(None, file.readinto, view)`. -/
  | reading
  /-- The executor has read this much, and the loop has yet to resume. -/
  | resumed (read : Nat)
  /-- In `await self.sock_sendall(sock, view[:read])`. -/
  | sending (read : Nat) (call : SendAll)
  | returned (total : Nat)
  | raised
  deriving DecidableEq

/-- The coroutine, the file position and the block buffer; `sent` is what the
calls of `sock_sendall` that are over have sent. -/
structure Transfer where
  pc : Pc
  blocksize : Nat
  totalSent : Nat
  pos : Nat
  buf : List UInt8
  sent : List UInt8
  deriving DecidableEq

/-- All the kernel has accepted. -/
def Transfer.accepted (s : Transfer) : List UInt8 :=
  match s.pc with
  | .sending _ call => s.sent ++ call.sent
  | _ => s.sent

namespace Request

/-- `count`, if it is one: `if count:` does not tell 0 from `None`. -/
def limit (r : Request) : Option Nat := (r.count.map Int.toNat).filter (· ≠ 0)

def origin (r : Request) : Nat := if r.file.hasSeek then r.offset.toNat else r.file.pos

/-- The part of the file that is asked for. -/
def slice (r : Request) : List UInt8 :=
  match r.count with
  | some count => (r.file.content.drop r.origin).take count.toNat
  | none => r.file.content.drop r.origin

def checkSendfileParams (r : Request) : Except SendfileError Unit := do
  if !r.file.binary then throw (.valueError "file should be opened in binary mode")
  if !r.sock.stream then throw (.valueError "only SOCK_STREAM type sockets are supported")
  if let some count := r.count then
    if count ≤ 0 then
      throw (.valueError ("count must be a positive integer (got " ++ toString count ++ ")"))
  if r.offset < 0 then
    throw (.valueError ("offset must be a non-negative integer (got " ++ toString r.offset ++ ")"))

/-! ### The coroutine -/

def readbufferSize : Nat := 1024 * 256

def finish (r : Request) (s : Transfer) (pc : Pc) : Transfer :=
  { s with
    pc := pc
    pos := if 0 < s.totalSent ∧ r.file.hasSeek then r.offset.toNat + s.totalSent else s.pos }

/-- The head of the loop, up to the call of `readinto`. -/
def loopHead (r : Request) (s : Transfer) : Transfer :=
  match r.limit with
  | some count =>
      let blocksize := min (count - s.totalSent) s.blocksize
      if blocksize = 0 then r.finish { s with blocksize := blocksize } (.returned s.totalSent)
      else { s with blocksize := blocksize, pc := .reading }
  | none => { s with pc := .reading }

/-- `_sock_sendfile_fallback` up to its first suspension. -/
def startFallback (r : Request) : Transfer :=
  let blocksize := match r.limit with
    | some count => min count readbufferSize
    | none => readbufferSize
  r.loopHead
    { pc := .reading, blocksize := blocksize, totalSent := 0, pos := r.origin
      buf := List.replicate blocksize 0, sent := [] }

/-- `sock_sendfile` up to its first suspension. -/
def start (r : Request) : Except SendfileError Transfer := do
  if r.sock.blocking then throw (.valueError "the socket must be non-blocking")
  if r.sock.ssl then throw (.typeError "Socket cannot be of type SSLSocket")
  r.checkSendfileParams
  if r.fallback then pure r.startFallback else throw .notAvailable

def available (r : Request) (s : Transfer) : Nat := min s.blocksize (r.file.content.length - s.pos)

/-- `file.readinto(view)` reads `n` bytes. -/
def readinto (r : Request) (s : Transfer) (n : Nat) : Transfer :=
  { s with
    buf := (r.file.content.drop s.pos).take n ++ s.buf.drop n
    pos := s.pos + n
    pc := .resumed n }

def block (s : Transfer) (n : Nat) : List UInt8 := (s.buf.take s.blocksize).take n

/-- What follows a call of `sock_sendall`, once it is over. -/
def afterSendall (r : Request) (s : Transfer) (n : Nat) (call : SendAll) : Transfer :=
  match call.status with
  | .returned | .waiting .result =>
      r.loopHead { s with totalSent := s.totalSent + n, sent := s.sent ++ call.sent }
  | .waiting .pending => { s with pc := .sending n call }
  | _ => r.finish { s with sent := s.sent ++ call.sent } .raised

inductive Step
  -- The executor has run `readinto`.
  | read (n : Nat)
  -- The loop resumes the coroutine, which calls `sock_sendall`.
  | resume (first : SockAnswer) (registers : Bool)
  -- Something happens to that call.
  | send (m : SendAll.Move)
  -- The loop resumes the coroutine after the future of that call.
  | wake
  -- `readinto` has raised, or the task is cancelled while it runs.
  | interrupt
  deriving DecidableEq

def step (r : Request) (s : Transfer) : Step → Option Transfer
  | .read n =>
      -- A short read is one byte at least, unless there is nothing to read.
      if s.pc = .reading ∧ n ≤ r.available s ∧ (n = 0 → r.available s = 0) then
        some (r.readinto s n)
      else none
  | .resume first registers =>
      match s.pc with
      | .resumed n =>
          if n = 0 then some (r.finish s (.returned s.totalSent))
          else some (r.afterSendall s n (.start (.ofBytes (block s n)) first registers))
      | _ => none
  | .send m =>
      match s.pc with
      | .sending n call => some { s with pc := .sending n (call.step m) }
      | _ => none
  | .wake =>
      match s.pc with
      | .sending n call => if call.ended then some (r.afterSendall s n call) else none
      | _ => none
  | .interrupt =>
      match s.pc with
      | .reading | .resumed _ => some (r.finish s .raised)
      | .sending _ call =>
          if call.ended then some (r.finish { s with sent := s.sent ++ call.sent } .raised)
          else none
      | .returned _ | .raised => none

/-! ### The part of the file -/

def Valid (r : Request) : Prop := ∀ count, r.count = some count → 0 < count

theorem valid_of_check {r : Request} (h : r.checkSendfileParams = .ok ()) : r.Valid := by
  intro count hcount
  refine Int.not_le.mp fun hle => ?_
  unfold checkSendfileParams at h
  rw [hcount] at h
  cases hb : r.file.binary <;> cases hs : r.sock.stream <;> simp [hb, hs, hle] at h <;> cases h

theorem valid_of_start {r : Request} {s : Transfer} (h : r.start = .ok s) :
    r.Valid ∧ s = r.startFallback := by
  unfold start at h
  cases hcheck : r.checkSendfileParams with
  | error e =>
      rw [hcheck] at h
      cases hb : r.sock.blocking <;> cases hs : r.sock.ssl <;> simp [hb, hs] at h <;> cases h
  | ok u =>
      rw [hcheck] at h
      refine ⟨valid_of_check hcheck, ?_⟩
      cases hb : r.sock.blocking <;> cases hs : r.sock.ssl <;> cases hf : r.fallback <;>
        simp [hb, hs, hf] at h <;> cases h
      rfl

theorem slice_front (r : Request) : r.slice <+: r.file.content.drop r.origin := by
  unfold slice
  split
  · exact List.take_prefix _ _
  · exact List.prefix_rfl

/-- The part ends at the limit, or with the file. -/
theorem length_slice {r : Request} (hr : r.Valid) :
    r.slice.length = match r.limit with
      | some count => min count (r.file.content.length - r.origin)
      | none => r.file.content.length - r.origin := by
  unfold slice limit
  cases hcount : r.count with
  | none => exact List.length_drop
  | some count =>
      have hpos := hr count hcount
      have hlimit : ((some count).map Int.toNat).filter (· ≠ 0) = some count.toNat :=
        Option.filter_eq_some_iff.mpr ⟨rfl, decide_eq_true (by omega)⟩
      rw [hlimit]
      show ((r.file.content.drop r.origin).take count.toNat).length = _
      rw [List.length_take, List.length_drop]

/-! ### The invariant -/

/-- What has been sent is a front of the part, and the `n` bytes that follow
it have been read. -/
structure Loaded (r : Request) (s : Transfer) (n : Nat) : Prop where
  sent : s.sent = r.slice.take s.totalSent
  within : s.totalSent + n ≤ r.slice.length
  pos : s.pos = r.origin + s.totalSent + n
  room : s.blocksize ≤ s.buf.length
  ready : 0 < s.blocksize

/-- The next `n` bytes of the part. -/
def next (r : Request) (s : Transfer) (n : Nat) : List UInt8 := (r.slice.drop s.totalSent).take n

/-- What holds of a transfer at each place of the coroutine. -/
def Exact (r : Request) (s : Transfer) : Prop :=
  match s.pc with
  | .reading =>
      r.Loaded s 0 ∧ ∀ count, r.limit = some count → s.totalSent + s.blocksize ≤ count
  | .resumed n =>
      r.Loaded s n ∧ block s n = r.next s n ∧ (n = 0 → r.slice.length = s.totalSent)
  | .sending n call =>
      r.Loaded s n ∧ call.view = .ofBytes (r.next s n) ∧ call.Accounted ∧ call.Counted
  | .returned total =>
      s.sent = r.slice ∧ total = r.slice.length ∧ (0 < total → s.pos = r.origin + total)
  | .raised => s.sent <+: r.slice

variable {r : Request} {s : Transfer}

theorem Loaded.sent_next {n : Nat} (h : r.Loaded s n) :
    s.sent ++ r.next s n = r.slice.take (s.totalSent + n) := by
  rw [h.sent, next, List.take_add]

theorem next_eq (r : Request) {s : Transfer} {n : Nat} (h : s.totalSent + n ≤ r.slice.length) :
    r.next s n = (r.file.content.drop (r.origin + s.totalSent)).take n := by
  obtain ⟨tail, htail⟩ := r.slice_front
  rw [next, ← List.drop_drop, ← htail, List.drop_append_of_le_length (by omega),
    List.take_append_of_le_length (by rw [List.length_drop]; omega)]

/-- The loop ends with the whole part sent. -/
theorem exact_finish (hsent : s.sent = r.slice.take s.totalSent)
    (hpos : s.pos = r.origin + s.totalSent) (hall : r.slice.length = s.totalSent) :
    r.Exact (r.finish s (.returned s.totalSent)) := by
  refine ⟨?_, hall.symm, fun _ => ?_⟩
  · show s.sent = r.slice
    rw [hsent, ← hall, List.take_length]
  · show (if 0 < s.totalSent ∧ r.file.hasSeek then r.offset.toNat + s.totalSent else s.pos) = _
    split
    · rename_i hseek
      rw [origin, if_pos hseek.2]
    · exact hpos

theorem exact_loopHead (hr : r.Valid) (h : r.Loaded s 0) : r.Exact (r.loopHead s) := by
  have hlen := length_slice hr
  have hwithin := h.within
  have hready := h.ready
  unfold loopHead
  split
  · rename_i count hlimit
    rw [hlimit] at hlen
    dsimp only at hlen ⊢
    split
    · rename_i hzero
      refine exact_finish h.sent h.pos ?_
      show r.slice.length = s.totalSent
      omega
    · rename_i hsome
      refine ⟨⟨h.sent, h.within, h.pos, ?_, Nat.pos_of_ne_zero hsome⟩, fun c hc => ?_⟩
      · exact Nat.le_trans (Nat.min_le_right _ _) h.room
      · cases hlimit.symm.trans hc
        show s.totalSent + min (count - s.totalSent) s.blocksize ≤ count
        omega
  · rename_i hnone
    refine ⟨⟨h.sent, h.within, h.pos, h.room, h.ready⟩, fun c hc => ?_⟩
    cases hnone.symm.trans hc

theorem exact_start (hr : r.Valid) : r.Exact r.startFallback := by
  refine exact_loopHead hr ⟨rfl, Nat.zero_le _, rfl, Nat.le_of_eq List.length_replicate.symm, ?_⟩
  show 0 < (match r.limit with | some count => min count readbufferSize | none => readbufferSize)
  split
  · rename_i count hlimit
    have hsome : count ≠ 0 := of_decide_eq_true (Option.filter_eq_some_iff.mp hlimit).2
    unfold readbufferSize
    omega
  · exact Nat.mul_pos (by decide) (by decide)

/-! ### The steps -/

theorem exact_read (hr : r.Valid) {n : Nat} (h : r.Loaded s 0)
    (hquota : ∀ count, r.limit = some count → s.totalSent + s.blocksize ≤ count)
    (hn : n ≤ r.available s) (hend : n = 0 → r.available s = 0) : r.Exact (r.readinto s n) := by
  have hlen := length_slice hr
  have hwithin := h.within
  have hready := h.ready
  have hpos : s.pos = r.origin + s.totalSent := h.pos
  have hroom := h.room
  have havail : r.available s = min s.blocksize (r.file.content.length - s.pos) := rfl
  have hchunk : ((r.file.content.drop s.pos).take n).length = n := by
    rw [List.length_take, List.length_drop]
    omega
  have hmost : s.totalSent + n ≤ r.slice.length := by
    cases hlimit : r.limit with
    | none =>
        simp only [hlimit] at hlen
        omega
    | some count =>
        have hfits := hquota count hlimit
        simp only [hlimit] at hlen
        omega
  refine ⟨⟨h.sent, hmost, ?_, ?_, hready⟩, ?_, fun h0 => ?_⟩
  · show s.pos + n = r.origin + s.totalSent + n
    rw [hpos]
  · show s.blocksize ≤ ((r.file.content.drop s.pos).take n ++ s.buf.drop n).length
    rw [List.length_append, hchunk, List.length_drop]
    omega
  · show (((r.file.content.drop s.pos).take n ++ s.buf.drop n).take s.blocksize).take n = _
    rw [List.take_take, Nat.min_eq_left (by omega), List.take_left' hchunk, hpos]
    exact (r.next_eq hmost).symm
  · have := hend h0
    have hended : r.slice.length ≤ s.totalSent := by
      have := (slice_front r).length_le
      rw [List.length_drop] at this
      omega
    exact Nat.le_antisymm hended h.within

/-- A call for the next bytes has sent a front of them. -/
theorem Loaded.sent_front {n : Nat} {call : SendAll} (h : r.Loaded s n)
    (hview : call.view = .ofBytes (r.next s n)) (hacc : call.Accounted) :
    s.sent ++ call.sent <+: r.slice := by
  have hwhole := hacc.whole
  rw [hview, MemView.bytes_ofBytes] at hwhole
  refine List.IsPrefix.trans ?_ (List.take_prefix (s.totalSent + n) r.slice)
  rw [← h.sent_next, ← hwhole]
  exact (List.prefix_append_right_inj _).mpr (List.prefix_append _ _)

theorem exact_afterSendall (hr : r.Valid) {n : Nat} {call : SendAll} (h : r.Loaded s n)
    (hview : call.view = .ofBytes (r.next s n)) (hacc : call.Accounted) (hc : call.Counted) :
    r.Exact (r.afterSendall s n call) := by
  have hwhole := hacc.whole
  rw [hview, MemView.bytes_ofBytes] at hwhole
  -- All of the block was sent.
  have hloop : call.rest = [] →
      r.Exact
        (r.loopHead { s with totalSent := s.totalSent + n, sent := s.sent ++ call.sent }) := by
    intro hrest
    rw [hrest, List.append_nil] at hwhole
    refine exact_loopHead hr ⟨?_, h.within, ?_, h.room, h.ready⟩
    · rw [hwhole]
      exact h.sent_next
    · show s.pos = r.origin + (s.totalSent + n) + 0
      rw [h.pos, Nat.add_assoc, Nat.add_zero]
  unfold afterSendall
  split
  · rename_i hstatus
    exact hloop (by rw [SendAll.rest, hstatus])
  · rename_i hstatus
    exact hloop (by rw [SendAll.rest, hstatus])
  · exact ⟨⟨h.sent, h.within, h.pos, h.room, h.ready⟩, hview, hacc, hc⟩
  · exact h.sent_front hview hacc

theorem exact_step (hr : r.Valid) {s' : Transfer} {m : Step} (h : r.Exact s)
    (hs : r.step s m = some s') : r.Exact s' := by
  have hraised : ∀ t : Transfer, t.sent <+: r.slice → r.Exact (r.finish t .raised) := fun _ ht => ht
  unfold Exact at h
  cases m with
  | read n =>
      simp only [step, Option.ite_none_right_eq_some, Option.some.injEq] at hs
      obtain ⟨⟨hpc, hn, hend⟩, rfl⟩ := hs
      rw [hpc] at h
      exact exact_read hr h.1 h.2 hn hend
  | resume first registers =>
      simp only [step] at hs
      split at hs
      · rename_i n hpc
        rw [hpc] at h
        obtain ⟨hloaded, hblock, hend⟩ := h
        split at hs
        · rename_i h0
          cases hs
          rw [h0] at hloaded
          exact exact_finish hloaded.sent hloaded.pos (hend h0)
        · cases hs
          rw [hblock]
          refine exact_afterSendall hr hloaded (SendAll.start_view _ _ _) ?_
            (SendAll.counted_start _ _ _)
          exact (SendAll.accounted_start _ _ _).mpr (.inl (MemView.bytewise_ofBytes _))
      · cases hs
  | send m =>
      simp only [step] at hs
      split at hs
      · rename_i n call hpc
        cases hs
        rw [hpc] at h
        obtain ⟨hloaded, hview, hacc, hc⟩ := h
        refine ⟨⟨hloaded.sent, hloaded.within, hloaded.pos, hloaded.room, hloaded.ready⟩, ?_, ?_,
          hc.step m⟩
        · rw [SendAll.step_view]
          exact hview
        · have hbytewise : call.view.Bytewise := hview ▸ MemView.bytewise_ofBytes _
          exact (SendAll.accounted_step hacc hc m).mpr (SendAll.careful_of_bytewise hbytewise m)
      · cases hs
  | wake =>
      simp only [step] at hs
      split at hs
      · rename_i n call hpc
        rw [hpc] at h
        split at hs
        · cases hs
          exact exact_afterSendall hr h.1 h.2.1 h.2.2.1 h.2.2.2
        · cases hs
      · cases hs
  | interrupt =>
      simp only [step] at hs
      split at hs
      · rename_i hpc
        cases hs
        rw [hpc] at h
        exact hraised s (h.1.sent ▸ List.take_prefix _ _)
      · rename_i n hpc
        cases hs
        rw [hpc] at h
        exact hraised s (h.1.sent ▸ List.take_prefix _ _)
      · rename_i n call hpc
        rw [hpc] at h
        split at hs
        · cases hs
          exact hraised _ (h.1.sent_front h.2.1 h.2.2.1)
        · cases hs
      · cases hs
      · cases hs

/-- In every run of `sock_sendfile` that gets as far as its fallback. -/
theorem exact_of_runs (h : Runs r.step (fun _ _ => True) (fun s => r.start = .ok s) s) :
    r.Exact s := by
  have hr : r.Valid := by
    induction h with
    | start h => exact (valid_of_start h).1
    | step m _ _ _ ih => exact ih
  refine h.invariant (fun t ht => ?_) fun t m t' ht _ hs => exact_step hr ht hs
  rw [(valid_of_start ht).2]
  exact exact_start hr

theorem Exact.accepted_front (h : r.Exact s) : s.accepted <+: r.slice := by
  unfold Exact at h
  unfold Transfer.accepted
  split
  · rename_i n call hpc
    rw [hpc] at h
    exact h.1.sent_front h.2.1 h.2.2.1
  · rename_i hno
    split at h
    · exact h.1.sent ▸ List.take_prefix _ _
    · exact h.1.sent ▸ List.take_prefix _ _
    · rename_i n call hpc
      exact absurd hpc (hno n call)
    · exact h.1 ▸ List.prefix_rfl
    · exact h

end Request

/-- **`sock_sendall` and `sock_sendfile` transmit exactly their data.** What the
kernel has accepted is a front of the data, nothing is sent once the future is
done, and the future has its result exactly when all was accepted. A transfer
has sent a front of the part of the file that was asked for, and when it
returns, all of it. -/
theorem transmitted_exactly :
    (∀ (view : MemView) (first : SockAnswer) (registers : Bool) (ms : List SendAll.Move)
      (s : SendAll), view.itemSize = 1 → s = (SendAll.start view first registers).run ms →
        s.sent <+: view.bytes ∧
        (s.ended = true → ∀ later, (s.run later).sent = s.sent) ∧
        (∀ fut, s.future = some fut → (fut = .result ↔ s.sent = view.bytes)) ∧
        (s.status = .returned → s.sent = view.bytes)) ∧
    ∀ (r : Request) (s : Transfer),
      Runs r.step (fun _ _ => True) (fun s => r.start = .ok s) s →
        s.accepted <+: r.slice ∧
        ∀ total, s.pc = .returned total →
          s.sent = r.slice ∧ total = r.slice.length ∧ (0 < total → s.pos = r.origin + total) := by
  refine ⟨fun view first registers ms s hsize hs => ?_, fun r s hrun => ?_⟩
  · obtain ⟨hfront, hresult, hreturned⟩ :=
      SendAll.run_exact ((MemView.bytewise_iff _).mpr (.inl hsize)) first registers ms hs
    refine ⟨hfront, fun hended later => ?_, hresult, hreturned⟩
    rw [SendAll.run_of_ended hended]
  · have h := Request.exact_of_runs hrun
    refine ⟨h.accepted_front, fun total hpc => ?_⟩
    unfold Request.Exact at h
    rwa [hpc] at h

def middle : Request :=
  ⟨⟨false, false, true⟩, ⟨[1, 2, 3, 4, 5], 0, true, true⟩, 1, some 3, true⟩

/-- Two bytes passed to `sock_sendall` are sent one at a time, and the middle of
a file with a short read and a short send. -/
theorem transmitted_exactly_example :
    (∃ s, s = (SendAll.start (.ofBytes [1, 2]) (.result 1) true).run [.fire (.result 1)] ∧
      s.future = some .result ∧ s.sent = [1, 2]) ∧
    ∃ s, Runs middle.step (fun _ _ => True) (fun s => middle.start = .ok s) s ∧
      s.pc = .returned 3 ∧ s.sent = [2, 3, 4] ∧ s.pos = 4 := by
  obtain ⟨hsendall, htransfer⟩ := transmitted_exactly
  refine ⟨⟨_, rfl, rfl, ?_⟩, ?_⟩
  · exact ((hsendall (.ofBytes [1, 2]) (.result 1) true [.fire (.result 1)] _ rfl rfl).2.2.1
      .result rfl).mp rfl
  · have hstart : Runs middle.step (fun _ _ => True) (fun s => middle.start = .ok s)
        middle.startFallback := .start rfl
    obtain ⟨s, hruns, hs⟩ := hstart.exists_of_replay
      [.read 2, .resume (.result 1) true, .send (.fire (.result 7)), .wake, .read 1,
        .resume (.result 1) true] (fun s => s.pc = .returned 3) (by decide +kernel)
    have hpc : s.pc = .returned 3 := of_decide_eq_true hs
    obtain ⟨hsent, -, hpos⟩ := (htransfer middle s hruns).2 3 hpc
    exact ⟨s, hruns, hpc, hsent, hpos (by decide)⟩

end SockSendfile

end Tokioop.Fd
