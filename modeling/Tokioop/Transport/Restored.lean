import Tokioop.Transport.Restore

/-!
When `loop.sendfile` gives the transport back as it found it.

In a run in which nobody else changes whether the transport reads this is so
exactly when each step is careful: the first step out of the `await` in front of
the `try`, the `resume_reading` that stands before the registration, and the
`seek` that stands before `restore` are where it can go wrong. The invariant
says in whose hands the transport is: those of `_sendfile_native`, which has
taken it out of `_transports`, or of `_sendfile_fallback`, whose protocol it has.
-/

namespace Tokioop.Transport.Restore

open Fd Kit EmptyWaiter
open SockSendfile (Request)

/-! ### The write side -/

/-- The fallback protocol that has been put in, by what it will do about
reading. -/
def Protocol.should : Protocol → Option Bool
  | .original => none
  | .fallback p => some p.shouldResumeReading

@[simp] theorem Protocol.should_pauseWriting (p : Protocol) : p.pauseWriting.should = p.should := by
  cases p with
  | original => rfl
  | fallback p =>
      simp only [pauseWriting]
      split <;> rfl

@[simp] theorem Protocol.should_resumeWriting (p : Protocol) :
    p.resumeWriting.should = p.should := by
  cases p with
  | original => rfl
  | fallback p =>
      simp only [resumeWriting]
      split <;> rfl

theorem Protocol.eq_original {p : Protocol} : p = .original ↔ p.should = none := by
  cases p with
  | original => simp [should]
  | fallback p => simp [should]

theorem Protocol.eq_fallback {p : Protocol} {b : Bool} (h : p.should = some b) :
    ∃ q, p = .fallback q ∧ q.shouldResumeReading = b := by
  cases p with
  | original => cases h
  | fallback q => exact ⟨q, rfl, Option.some.inj h⟩

namespace Line

variable {h : Handler} {s t u : Line}

/-- What no write and no firing changes. -/
structure Keeps (s t : Line) : Prop where
  registered : t.registered = s.registered
  paused : t.paused = s.paused
  waiter : t.emptyWaiter.isSome = s.emptyWaiter.isSome
  should : t.protocol.should = s.protocol.should

theorem Keeps.refl (s : Line) : Keeps s s := ⟨rfl, rfl, rfl, rfl⟩

theorem Keeps.trans (h : Keeps s t) (h' : Keeps t u) : Keeps s u where
  registered := h'.registered.trans h.registered
  paused := h'.paused.trans h.paused
  waiter := h'.waiter.trans h.waiter
  should := h'.should.trans h.should

theorem Keeps.accepts (h : Keeps s t) (hs : s.emptyWaiter = none) : t.emptyWaiter = none := by
  have hwaiter := h.waiter
  rw [hs] at hwaiter
  exact Option.isSome_eq_false_iff.mp hwaiter |> Option.isNone_iff_eq_none.mp

theorem Keeps.maybePauseProtocol (h : Keeps s t) : Keeps s t.maybePauseProtocol := by
  rw [Line.maybePauseProtocol]
  split
  · exact h
  · exact h.trans ⟨rfl, rfl, rfl, t.protocol.should_pauseWriting⟩

theorem Keeps.maybeResumeProtocol (h : Keeps s t) : Keeps s t.maybeResumeProtocol := by
  rw [Line.maybeResumeProtocol]
  split
  · exact h.trans ⟨rfl, rfl, rfl, t.protocol.should_resumeWriting⟩
  · exact h

theorem Keeps.settle (h : Keeps s t) (f : Fut) : Keeps s (t.settle f).1 := by
  rw [Line.settle]
  split
  · exact h
  · rename_i hwaiter
    exact h.trans ⟨rfl, rfl, by rw [hwaiter]; rfl, rfl⟩
  · exact h

theorem settle_quiet (hs : s.emptyWaiter = none) (f : Fut) : (s.settle f).2 = false := by
  rw [settle, hs]

theorem keeps_writeReady (h : Handler) (s : Line) (a : Reply) : Keeps s (s.writeReady h a).1 := by
  unfold writeReady
  split
  · exact .refl s
  have hbuffer (rest : List (List UInt8)) : Keeps s { s with buffer := rest }.maybeResumeProtocol :=
    .maybeResumeProtocol ⟨rfl, rfl, rfl, rfl⟩
  split
  · have hclear : Keeps s { s with buffer := [], closing := true } := ⟨rfl, rfl, rfl, rfl⟩
    exact hclear.settle _
  · exact ⟨rfl, rfl, rfl, rfl⟩
  · split
    · exact (hbuffer _).settle _
    · exact hbuffer _

/-- Without a future there is nothing that a firing could raise for. -/
theorem writeReady_quiet (h : Handler) (hs : s.emptyWaiter = none) (a : Reply) :
    (s.writeReady h a).2 = false := by
  unfold writeReady
  split
  · rfl
  split
  · apply settle_quiet
    exact hs
  · rfl
  · rename_i rest _
    split
    · have hkeeps : Keeps s { s with buffer := rest }.maybeResumeProtocol :=
        .maybeResumeProtocol ⟨rfl, rfl, rfl, rfl⟩
      exact settle_quiet (hkeeps.accepts hs) _
    · rfl

theorem keeps_keep (s : Line) (rest : List UInt8) (registers : Bool) :
    Keeps s (s.keep rest registers).1 := by
  unfold keep
  split
  · exact .maybePauseProtocol ⟨rfl, rfl, rfl, rfl⟩
  · exact .refl s

theorem keeps_write (s : Line) (data : List UInt8) (a : Reply) (registers : Bool) :
    Keeps s (s.write data a registers).1 := by
  unfold write
  split
  · exact .refl s
  split
  · exact .refl s
  split
  · split
    · exact keeps_keep ..
    · exact ⟨rfl, rfl, rfl, rfl⟩
    · split
      · exact .refl s
      · exact keeps_keep ..
  · exact .maybePauseProtocol ⟨rfl, rfl, rfl, rfl⟩

theorem keeps_writelines (h : Handler) (s : Line) (lines : List (List UInt8)) (a : Reply)
    (registers : Bool) : Keeps s (s.writelines h lines a registers).1 := by
  unfold writelines
  split
  · exact .refl s
  split
  · exact .refl s
  have happend : Keeps s { s with buffer := s.buffer ++ lines } := ⟨rfl, rfl, rfl, rfl⟩
  have hfire := happend.trans (keeps_writeReady h _ a)
  simp only
  split
  · exact hfire
  split
  · exact hfire.maybePauseProtocol
  · exact hfire

theorem keeps_use (h : Handler) (s : Line) (u : Use) : Keeps s (s.use h u) := by
  cases u with
  | write data a registers => exact keeps_write ..
  | writelines lines a registers => exact keeps_writelines ..
  | writeEof => exact ⟨rfl, rfl, rfl, rfl⟩
  | fire a => exact keeps_writeReady ..

/-- Once `write` is accepted, no firing raises after whatever has been written. -/
theorem draining_of_accepts (hs : s.emptyWaiter = none) (us : List Use) (a : Reply) :
    ((us.foldl (use h) s).writeReady h a).2 = false := by
  apply writeReady_quiet
  exact foldl_keeps (I := fun t => t.emptyWaiter = none)
    (fun t u ht => (keeps_use h t u).accepts ht) hs us

/-! ### The read side -/

theorem pauseReading_cases (s : Line) :
    s.pauseReading = s ∧ (s.closing = true ∨ s.paused = true) ∨
      s.pauseReading = { s with paused := true, polling := s.polling && s.drainTcp } ∧
        s.closing = false := by
  unfold pauseReading isReading
  split
  · rename_i hread
    simp only [Bool.and_eq_true, Bool.not_eq_true'] at hread
    exact .inr ⟨rfl, hread.1⟩
  · rename_i hread
    refine .inl ⟨rfl, ?_⟩
    cases hc : s.closing with
    | true => exact .inl rfl
    | false => simpa [hc] using hread

/-- What reading has nothing to do with. -/
structure Beside (s t : Line) : Prop where
  registered : t.registered = s.registered
  waiter : t.emptyWaiter = s.emptyWaiter
  buffer : t.buffer = s.buffer
  protocol : t.protocol = s.protocol

theorem beside_pauseReading (s : Line) : Beside s s.pauseReading := by
  rcases s.pauseReading_cases with ⟨heq, -⟩ | ⟨heq, -⟩ <;> rw [heq] <;> exact ⟨rfl, rfl, rfl, rfl⟩

theorem closing_pauseReading (s : Line) : s.pauseReading.closing = s.closing := by
  rcases s.pauseReading_cases with ⟨heq, -⟩ | ⟨heq, -⟩ <;> rw [heq]

theorem paused_pauseReading (hc : s.closing = false) : s.pauseReading.paused = true := by
  rcases s.pauseReading_cases with ⟨heq, h⟩ | ⟨heq, -⟩
  · rw [heq]
    exact h.resolve_left (by rw [hc]; decide)
  · rw [heq]

theorem beside_resumeReading (s : Line) (d : Delivered) (registers : Bool) :
    Beside s (s.resumeReading d registers).1 := by
  unfold resumeReading
  split
  · exact ⟨rfl, rfl, rfl, rfl⟩
  simp only
  split
  · exact ⟨rfl, rfl, rfl, rfl⟩
  split <;> exact ⟨rfl, rfl, rfl, rfl⟩

/-- Reading has been resumed, unless the protocol has paused it again. -/
theorem paused_resumeReading {d : Delivered} (hc : s.closing = false) (hd : d.pauses = false)
    (registers : Bool) : (s.resumeReading d registers).1.paused = false := by
  unfold resumeReading
  split
  · rename_i h
    simpa [hc] using h
  simp only
  split
  · exact hd
  split <;> exact hd

theorem setProtocol_cases (s : Line) (p : Protocol) (registers : Bool) :
    s.setProtocol p registers = ({ s with drainTcp := s.drains p, protocol := p }, false) ∨
      s.setProtocol p registers = ({ s with drainTcp := s.drains p, polling := false }, true) := by
  unfold setProtocol
  simp only
  split
  · exact .inr rfl
  · exact .inl rfl

end Line

/-! ### The invariant -/

/-- The transport in the hands of `_sendfile_native`. -/
structure Line.Taken (t : Line) (was : Bool) : Prop where
  registered : t.registered = false
  should : t.protocol.should = none
  paused : was = false → t.paused = true

/-- The transport in the hands of `_sendfile_fallback`. -/
structure Line.Lent (t : Line) (was : Bool) : Prop where
  registered : t.registered = true
  accepts : t.emptyWaiter = none
  should : t.protocol.should = some was
  paused : was = false → t.paused = true

/-- What other code leaves as it was, where it does not resume reading. -/
structure Line.Leaves (was : Bool) (s t : Line) : Prop where
  registered : t.registered = s.registered
  accepts : s.emptyWaiter = none → t.emptyWaiter = none
  should : t.protocol.should = s.protocol.should
  paused : was = false → s.paused = true → t.paused = true

theorem Line.Keeps.leaves {s t : Line} (hk : Keeps s t) (was : Bool) : Leaves was s t where
  registered := hk.registered
  accepts := hk.accepts
  should := hk.should
  paused _ hs := hk.paused.trans hs

theorem Line.other_leaves {h : Handler} {s : Line} {was : Bool} {m : Move}
    (hm : ∀ d registers, m = .resumeReading d registers → was = true) :
    Leaves was s (s.other h m) := by
  cases m with
  | use u => exact (keeps_use h s u).leaves was
  | pauseReading =>
      have hbeside := beside_pauseReading s
      refine ⟨hbeside.registered, fun hs => hbeside.waiter.trans hs,
        congrArg Protocol.should hbeside.protocol, fun _ hp => ?_⟩
      show s.pauseReading.paused = true
      rcases s.pauseReading_cases with ⟨heq, -⟩ | ⟨heq, -⟩ <;> rw [heq]
      exact hp
  | resumeReading d registers =>
      have hbeside := beside_resumeReading s d registers
      refine ⟨hbeside.registered, fun hs => hbeside.waiter.trans hs,
        congrArg Protocol.should hbeside.protocol, fun hwas _ => ?_⟩
      rw [hm d registers rfl] at hwas
      cases hwas
  | _ => exact ⟨rfl, fun hs => hs, rfl, fun _ hp => hp⟩

theorem Line.Taken.leaves {s t : Line} {was : Bool} (h : s.Taken was) (hl : Leaves was s t) :
    t.Taken was where
  registered := hl.registered.trans h.registered
  should := hl.should.trans h.should
  paused hwas := hl.paused hwas (h.paused hwas)

theorem Line.Lent.leaves {s t : Line} {was : Bool} (h : s.Lent was) (hl : Leaves was s t) :
    t.Lent was where
  registered := hl.registered.trans h.registered
  accepts := hl.accepts h.accepts
  should := hl.should.trans h.should
  paused hwas := hl.paused hwas (h.paused hwas)

/-- The transport given back, reading apart. -/
structure Line.Back (t : Line) : Prop where
  registered : t.registered = true
  accepts : t.emptyWaiter = none
  should : t.protocol.should = none

namespace Call

variable {h : Handler} {r : Request} {c : Call} {m : Move}

def Inv (c : Call) : Prop :=
  c.line.closing = false →
    match c.pc with
    | .idle => c.line.protocol.should = none
    | .emptying | .unwinding => c.line.Taken c.wasReading
    | .opening => c.line.Back ∧ c.line.isReading = c.wasReading
    | .resuming should =>
        c.line.Back ∧ should = c.wasReading ∧ (c.wasReading = false → c.line.paused = true)
    | .ended => True
    | _ => c.line.Lent c.wasReading

theorem isReading_eq {t : Line} {was : Bool} (hc : t.closing = false) (h : t.paused = !was) :
    t.isReading = was := by
  simp [Line.isReading, hc, h]

theorem restored_of_back (hback : c.line.Back) (hread : c.line.isReading = c.wasReading) :
    c.Restored h where
  registered := hback.registered
  reading := hread
  accepts := hback.accepts
  protocol := Protocol.eq_original.mpr hback.should
  draining := Line.draining_of_accepts hback.accepts

theorem safe_of_running (hpc : c.pc ≠ .ended) : c.Safe h := fun hend => absurd hend hpc

theorem not_safe_of_unregistered (hpc : c.pc = .ended) (hc : c.line.closing = false)
    (hreg : c.line.registered = false) : ¬ c.Safe h := by
  intro hsafe
  have hback := (hsafe hpc hc).registered
  rw [hreg] at hback
  cases hback

theorem not_safe_of_lent (hpc : c.pc = .ended) (hc : c.line.closing = false) {b : Bool}
    (hshould : c.line.protocol.should = some b) : ¬ c.Safe h := by
  intro hsafe
  have hback := Protocol.eq_original.mp (hsafe hpc hc).protocol
  rw [hshould] at hback
  cases hback

/-! ### The steps of the coroutine -/

theorem sendfile_spec (hc : c.line.closing = false) (hs : c.line.protocol.should = none) :
    Inv c.sendfile ∧
      (c.sendfile.Safe h ↔ c.line.registered = true ∧ c.line.emptyWaiter = none) := by
  unfold sendfile
  have hbeside := Line.beside_pauseReading { c.line with registered := false }
  have hclosing := Line.closing_pauseReading { c.line with registered := false }
  have hpaused := Line.paused_pauseReading (s := { c.line with registered := false }) hc
  simp only
  split
  · rename_i hreg
    have htaken : Line.Taken (Line.pauseReading { c.line with registered := false })
        c.line.isReading :=
      ⟨hbeside.registered, by rw [hbeside.protocol]; exact hs, fun _ => hpaused⟩
    split
    · rename_i f hwaiter
      rw [hbeside.waiter] at hwaiter
      refine ⟨fun _ => trivial, iff_of_false ?_ ?_⟩
      · exact not_safe_of_unregistered rfl (hclosing.trans hc) hbeside.registered
      · rintro ⟨-, hnone⟩
        cases hwaiter.symm.trans hnone
    · rename_i hwaiter
      rw [hbeside.waiter] at hwaiter
      split
      · exact ⟨fun _ => ⟨htaken.registered, htaken.should, htaken.paused⟩,
          iff_of_true (safe_of_running (by simp)) ⟨hreg, hwaiter⟩⟩
      · exact ⟨fun _ => ⟨htaken.registered, htaken.should, htaken.paused⟩,
          iff_of_true (safe_of_running (by simp)) ⟨hreg, hwaiter⟩⟩
  · rename_i hreg
    refine ⟨fun _ => trivial, iff_of_false ?_ fun h => hreg h.1⟩
    exact not_safe_of_unregistered rfl hc (Bool.eq_false_iff.mpr hreg)

/-- The transport in the `finally` of `_sendfile_native`. -/
theorem resumed_spec (hc : c.line.closing = false) (ht : c.line.Taken c.wasReading)
    {d : Delivered} (hd : c.wasReading = true → d.pauses = false) (registers : Bool) :
    (c.resumed d registers).1.registered = false ∧
      Line.Back { (c.resumed d registers).1 with registered := true } ∧
      ((c.resumed d registers).1.closing = false →
        (c.resumed d registers).1.isReading = c.wasReading) := by
  unfold resumed
  simp only
  split
  · rename_i hwas
    have hbeside := Line.beside_resumeReading { c.line with emptyWaiter := none } d registers
    have hpaused := Line.paused_resumeReading (s := { c.line with emptyWaiter := none }) hc
      (hd hwas) registers
    refine ⟨hbeside.registered.trans ht.registered, ⟨rfl, hbeside.waiter, ?_⟩, fun hopen => ?_⟩
    · show (Line.resumeReading _ d registers).1.protocol.should = none
      rw [hbeside.protocol]
      exact ht.should
    · exact isReading_eq hopen (by rw [hpaused, hwas]; rfl)
  · rename_i hwas
    have hwas' := Bool.eq_false_iff.mpr hwas
    refine ⟨ht.registered, ⟨rfl, rfl, ht.should⟩, fun hopen => ?_⟩
    exact isReading_eq hopen (by rw [hwas']; exact ht.paused hwas')

theorem afterNative_cases (r : Request) : afterNative r = .opening ∨ afterNative r = .ended := by
  unfold afterNative
  split
  · split
    · exact .inl rfl
    · exact .inr rfl
  · exact .inr rfl

theorem unwind_spec (hc : c.line.closing = false) (ht : c.line.Taken c.wasReading)
    {d : Delivered} (hd : c.wasReading = true → d.pauses = false) (registers : Bool) :
    Inv (c.unwind r d registers) ∧
      ((c.unwind r d registers).Safe h ↔
        ((c.resumed d registers).2 = true → (c.resumed d registers).1.closing = true)) := by
  obtain ⟨hreg, hback, hread⟩ := resumed_spec hc ht hd registers
  unfold unwind
  simp only
  split
  · rename_i hraised
    refine ⟨fun _ => trivial, ?_⟩
    cases hopen : (c.resumed d registers).1.closing with
    | true =>
        refine iff_of_true (fun _ hnot => ?_) fun _ => rfl
        exact absurd (hopen.symm.trans hnot) (by decide)
    | false =>
        refine iff_of_false (not_safe_of_unregistered rfl hopen hreg) fun h => ?_
        exact absurd (h hraised) (by decide)
  · rename_i hquiet
    refine ⟨fun hopen => ?_, iff_of_true (fun _ hopen => ?_) fun h => absurd h hquiet⟩
    · rcases afterNative_cases r with hpc | hpc <;> simp only [hpc]
      exact ⟨hback, hread hopen⟩
    · exact restored_of_back hback (hread hopen)

/-- Where the coroutine is while the fallback has the transport. -/
def lends : Pc → Bool
  | .submitting | .reading | .resumed _ | .failed | .passing _ | .draining _ | .finishing
  | .restoring => true
  | _ => false

theorem inv_lent (pc : Pc) (hl : c.line.Lent c.wasReading) (hpc : lends pc = true) :
    Inv { c with pc := pc } ∧ Call.Safe h { c with pc := pc } := by
  refine ⟨fun _ => ?_, safe_of_running ?_⟩
  · cases pc <;> first | exact hl | cases hpc
  · rintro rfl
    cases hpc

theorem loopHead_spec (hl : c.line.closing = false → c.line.Lent c.wasReading) :
    Inv (c.loopHead r) ∧ (c.loopHead r).Safe h := by
  unfold loopHead
  split
  · simp only
    split
    · exact ⟨fun hc => hl hc, safe_of_running (by simp)⟩
    · exact ⟨fun hc => hl hc, safe_of_running (by simp)⟩
  · exact ⟨fun hc => hl hc, safe_of_running (by simp)⟩

theorem takeProtocol_spec {t : Line} (hc : t.closing = false) (hb : t.Back) :
    (takeProtocol t).Lent t.isReading := by
  have hbeside := Line.beside_pauseReading t
  have hpaused := Line.paused_pauseReading hc
  have hread : t.pauseReading.isReading = false := by simp [Line.isReading, hpaused]
  unfold takeProtocol Line.setProtocol
  simp only [hread, Bool.false_eq_true, false_and, and_false, if_false]
  exact ⟨hbeside.registered.trans hb.registered, hbeside.waiter.trans hb.accepts, rfl,
    fun _ => hpaused⟩

theorem start_spec (hc : c.line.closing = false) (hb : c.line.Back)
    (hread : c.line.isReading = c.wasReading) (ok : Bool) :
    Inv (c.start r ok) ∧ (c.start r ok).Safe h := by
  unfold start
  split
  · exact ⟨fun _ => trivial, fun _ _ => restored_of_back hb hread⟩
  · refine loopHead_spec fun _ => ?_
    show (takeProtocol c.line).Lent c.wasReading
    rw [← hread]
    exact takeProtocol_spec hc hb

theorem pass_spec (hl : c.line.Lent c.wasReading) (data : List UInt8) (a : Reply)
    (registers : Bool) :
    Inv (c.pass r data a registers) ∧ (c.pass r data a registers).Safe h := by
  have hwritten := hl.leaves ((Line.keeps_write c.line data a registers).leaves _)
  unfold pass
  simp only
  split
  · exact ⟨fun _ => hwritten, safe_of_running (by simp)⟩
  split
  · rename_i p hp
    split
    · refine ⟨fun _ => ⟨hwritten.registered, hwritten.accepts, ?_, hwritten.paused⟩,
        safe_of_running (by simp)⟩
      rw [← hwritten.should, hp]
      rfl
    · exact loopHead_spec fun _ => hwritten
  · exact loopHead_spec fun _ => hwritten

/-- The task goes on behind the `await` of the future. -/
theorem wake_emptying (hc : c.line.closing = false) (hpc : c.pc = .emptying)
    (ht : c.line.Taken c.wasReading) :
    Inv (c.wake r) ∧
      ((c.wake r).Safe h ↔
        c.line.emptyWaiter ≠ some .cancelled ∧ c.line.emptyWaiter ≠ some .exception ∧
          (c.line.emptyWaiter = some .result → c.mustCancel = false)) := by
  have hstay : Inv c ∧ c.Safe h := by
    refine ⟨fun _ => ?_, safe_of_running (by rw [hpc]; simp)⟩
    rw [hpc]
    exact ht
  have hended : ¬ Call.Safe h { c with pc := .ended } :=
    not_safe_of_unregistered rfl hc ht.registered
  unfold wake
  rw [hpc]
  simp only
  split
  · rename_i hwaiter
    rw [hwaiter]
    exact ⟨hstay.1, iff_of_true hstay.2 (by simp)⟩
  · rename_i hwaiter
    rw [hwaiter]
    exact ⟨hstay.1, iff_of_true hstay.2 (by simp)⟩
  · rename_i hwaiter
    rw [hwaiter]
    split
    · rename_i hmust
      exact ⟨fun _ => trivial, iff_of_false hended (by simp [hmust])⟩
    · rename_i hmust
      exact ⟨fun _ => ht, iff_of_true (safe_of_running (by simp)) (by simpa using hmust)⟩
  · rename_i hwaiter
    rw [hwaiter]
    exact ⟨fun _ => trivial, iff_of_false hended (by simp)⟩
  · rename_i hwaiter
    rw [hwaiter]
    exact ⟨fun _ => trivial, iff_of_false hended (by simp)⟩

theorem wake_draining {read : Nat} (hpc : c.pc = .draining read)
    (hl : c.line.Lent c.wasReading) : Inv (c.wake r) ∧ (c.wake r).Safe h := by
  have hstay : Inv c ∧ c.Safe h := by
    refine ⟨fun _ => ?_, safe_of_running (by rw [hpc]; simp)⟩
    rw [hpc]
    exact hl
  have hfinishing : Inv { c with pc := .finishing } ∧ Call.Safe h { c with pc := .finishing } :=
    ⟨fun _ => hl, safe_of_running (by simp)⟩
  unfold wake
  rw [hpc]
  simp only
  split
  · exact hstay
  · exact hstay
  · split
    · exact hfinishing
    · exact loopHead_spec fun _ => hl
  · exact hfinishing
  · exact hfinishing

theorem wake_resumed {data : List UInt8} (hpc : c.pc = .resumed data)
    (hl : c.line.Lent c.wasReading) : Inv (c.wake r) ∧ (c.wake r).Safe h := by
  unfold wake
  rw [hpc]
  simp only
  split
  · exact inv_lent _ hl rfl
  · exact inv_lent _ hl rfl

theorem finish_spec (hc : c.line.closing = false) (hl : c.line.Lent c.wasReading) (ok : Bool) :
    Inv (c.finish r ok) ∧
      ((c.finish r ok).Safe h ↔ (0 < c.totalSent → r.file.hasSeek = true → ok = true)) := by
  unfold finish
  split
  · rename_i hraises
    obtain ⟨hsent, hseek, hok⟩ := hraises
    refine ⟨fun _ => trivial, iff_of_false (not_safe_of_lent rfl hc hl.should) fun h => ?_⟩
    rw [h hsent hseek] at hok
    cases hok
  · rename_i hreturns
    refine ⟨fun _ => hl, iff_of_true (safe_of_running (by simp)) fun hsent hseek => ?_⟩
    cases ok with
    | true => rfl
    | false => exact absurd ⟨hsent, hseek, rfl⟩ hreturns

theorem restore_spec (hc : c.line.closing = false) (hl : c.line.Lent c.wasReading)
    (registers : Bool) :
    Inv (c.restore registers) ∧
      ((c.restore registers).Safe h ↔ (c.line.setProtocol .original registers).2 = false) := by
  obtain ⟨p, hp, hshould⟩ := Protocol.eq_fallback hl.should
  unfold restore
  simp only [hp]
  rcases c.line.setProtocol_cases .original registers with hset | hset <;> rw [hset]
  · refine ⟨fun _ => ⟨⟨hl.registered, hl.accepts, rfl⟩, hshould, hl.paused⟩, ?_⟩
    exact iff_of_true (safe_of_running (by simp)) rfl
  · refine ⟨fun _ => trivial, iff_of_false ?_ (by simp)⟩
    exact not_safe_of_lent rfl hc hl.should

/-- The last step of `restore` ends well. -/
theorem resuming_spec (hc : c.line.closing = false) {should : Bool} (hb : c.line.Back)
    (hshould : should = c.wasReading) (hpaused : c.wasReading = false → c.line.paused = true)
    {d : Delivered} (hd : c.wasReading = true → d.pauses = false) (registers : Bool) :
    Call.Safe h
      { c with
        line := if should then (c.line.resumeReading d registers).1 else c.line
        pc := .ended } := by
  intro _ hopen
  subst hshould
  cases hwas : c.wasReading with
  | true =>
      have hbeside := Line.beside_resumeReading c.line d registers
      have hread := Line.paused_resumeReading hc (hd hwas) registers
      simp only [hwas, if_true] at hopen ⊢
      refine restored_of_back ⟨?_, ?_, ?_⟩ (isReading_eq hopen (by rw [hread]; rfl))
      · exact hbeside.registered.trans hb.registered
      · exact hbeside.waiter.trans hb.accepts
      · show (Line.resumeReading _ d registers).1.protocol.should = none
        rw [hbeside.protocol]
        exact hb.should
  | false =>
      simp only [hwas, Bool.false_eq_true, if_false] at hopen ⊢
      exact restored_of_back hb (isReading_eq hopen (hpaused hwas))

theorem cancel_spec (hend : c.pc ≠ .ended) (hI : Inv c) : Inv c.cancel ∧ c.cancel.Safe h := by
  have hmust : Inv { c with mustCancel := true } ∧ Call.Safe h { c with mustCancel := true } :=
    ⟨hI, safe_of_running hend⟩
  unfold cancel
  unfold Inv at hI
  split
  · rename_i hpc
    rw [hpc] at hI
    split
    · refine ⟨fun hc => ?_, safe_of_running hend⟩
      simp only [hpc]
      exact ⟨(hI hc).registered, (hI hc).should, (hI hc).paused⟩
    · exact hmust
  · rename_i hpc
    rw [hpc] at hI
    exact ⟨hI, safe_of_running (by simp)⟩
  · exact hmust
  · exact hmust
  · rename_i hpc
    rw [hpc] at hI
    split
    · rename_i p hp
      split
      · refine ⟨fun hc => ?_, safe_of_running hend⟩
        have hshould := (hI hc).should
        rw [hp] at hshould
        simp only [hpc]
        exact ⟨(hI hc).registered, (hI hc).accepts, hshould, (hI hc).paused⟩
      · exact hmust
    · refine ⟨fun hc => ?_, safe_of_running hend⟩
      rw [hpc]
      exact hI hc
  · exact ⟨hI, safe_of_running hend⟩

theorem run_spec (hc : c.line.closing = false) (hend : c.pc ≠ .ended) (hI : Inv c)
    (hm : Undisturbed c m) :
    Inv (c.run r m) ∧ ((c.run r m).Safe h ↔ Careful r c m) := by
  have hstay : Inv c ∧ c.Safe h := ⟨hI, safe_of_running hend⟩
  have hI' := hI hc
  have hcareful {P : Prop} : (c.line.closing = false → P) ↔ P := by simp [hc]
  unfold Careful
  rw [hcareful]
  cases m with
  | sendfile =>
      show Inv (if c.pc = .idle then _ else _) ∧ (Call.Safe h (if c.pc = .idle then _ else _) ↔ _)
      split
      · rename_i hpc
        rw [hpc] at hI'
        simpa [hpc] using sendfile_spec hc hI'
      · rename_i hpc
        simpa [hpc] using hstay
  | wake =>
      show Inv (c.wake r) ∧ ((c.wake r).Safe h ↔ _)
      cases hpc : c.pc with
      | emptying =>
          rw [hpc] at hI'
          simpa using wake_emptying hc hpc hI'
      | draining read =>
          rw [hpc] at hI'
          simpa using wake_draining hpc hI'
      | resumed data =>
          rw [hpc] at hI'
          simpa using wake_resumed hpc hI'
      | failed =>
          rw [hpc] at hI'
          simpa [wake, hpc] using inv_lent .finishing hI' rfl
      | _ => simpa [wake, hpc] using hstay
  | seek ok =>
      cases hpc : c.pc with
      | opening =>
          rw [hpc] at hI'
          simpa [run, hpc] using start_spec hc hI'.1 hI'.2 ok
      | finishing =>
          rw [hpc] at hI'
          simpa [run, hpc] using finish_spec hc hI' ok
      | _ => simpa [run, hpc] using hstay
  | submit ok =>
      cases hpc : c.pc with
      | submitting =>
          rw [hpc] at hI'
          cases ok with
          | true => simpa [run, hpc] using inv_lent .reading hI' rfl
          | false => simpa [run, hpc] using inv_lent .finishing hI' rfl
      | _ => simpa [run, hpc] using hstay
  | pass a registers =>
      cases hpc : c.pc with
      | passing data =>
          rw [hpc] at hI'
          simpa [run, hpc] using pass_spec hI' data a registers
      | _ => simpa [run, hpc] using hstay
  | setProtocol registers =>
      cases hpc : c.pc with
      | restoring =>
          rw [hpc] at hI'
          simpa [run, hpc] using restore_spec hc hI' registers
      | _ => simpa [run, hpc] using hstay
  | resume d registers =>
      cases hpc : c.pc with
      | unwinding =>
          rw [hpc] at hI'
          simpa [run, hpc] using unwind_spec hc hI' hm registers
      | resuming should =>
          rw [hpc] at hI'
          simpa [run, hpc, Inv] using resuming_spec hc hI'.1 hI'.2.1 hI'.2.2 hm registers
      | _ => simpa [run, hpc] using hstay
  | read data =>
      cases hpc : c.pc with
      | reading =>
          rw [hpc] at hI'
          simpa [run, hpc] using inv_lent (.resumed (data.take c.blocksize)) hI' rfl
      | _ => simpa [run, hpc] using hstay
  | readFails =>
      cases hpc : c.pc with
      | reading =>
          rw [hpc] at hI'
          simpa [run, hpc] using inv_lent .failed hI' rfl
      | _ => simpa [run, hpc] using hstay
  | cancel => simpa [run] using cancel_spec hend hI
  | use u => exact ⟨hstay.1, iff_of_true hstay.2 trivial⟩
  | pauseReading => exact ⟨hstay.1, iff_of_true hstay.2 trivial⟩
  | resumeReading d registers => exact ⟨hstay.1, iff_of_true hstay.2 trivial⟩
  | close => exact ⟨hstay.1, iff_of_true hstay.2 trivial⟩

theorem inv_other (hc : c.line.closing = false) (hs : c.pc.suspended = true) (hI : Inv c)
    (hm : Undisturbed c m) : Inv { c with line := c.line.other h m } := by
  have hI' := hI hc
  intro _
  have hleaves (hpc : c.pc ≠ .idle) : Line.Leaves c.wasReading c.line (c.line.other h m) := by
    refine Line.other_leaves fun d registers hmove => ?_
    subst hmove
    exact hm.resolve_left hpc
  dsimp only
  cases hpc : c.pc with
  | idle =>
      rw [hpc] at hI'
      have hleaves : Line.Leaves true c.line (c.line.other h m) :=
        Line.other_leaves fun _ _ _ => rfl
      exact hleaves.should.trans hI'
  | emptying =>
      rw [hpc] at hI'
      exact hI'.leaves (hleaves (by rw [hpc]; simp))
  | reading | resumed _ | failed | draining _ =>
      rw [hpc] at hI'
      exact hI'.leaves (hleaves (by rw [hpc]; simp))
  | _ =>
      rw [hpc] at hs
      cases hs

/-- A step keeps the invariant, and leaves the call safe exactly if it is
careful. -/
theorem step_spec (hI : Inv c) (hsafe : c.Safe h) (hm : Undisturbed c m) :
    Inv (step h r c m) ∧ ((step h r c m).Safe h ↔ Careful r c m) := by
  unfold step
  split
  · rename_i hstop
    refine ⟨hI, iff_of_true hsafe fun hc => ?_⟩
    have hpc : c.pc = .ended := by simpa [hc] using hstop
    cases m <;> simp [hpc]
  rename_i hgo
  simp only [Bool.or_eq_true, decide_eq_true_eq, not_or, Bool.not_eq_true] at hgo
  obtain ⟨hc, hend⟩ := hgo
  have hrun := run_spec (h := h) (r := r) hc hend hI hm
  have hturn {c' : Call}
      (hc' : c' = if c.pc.suspended then { c with line := c.line.other h m } else c) :
      Inv c' ∧ c'.Safe h := by
    rw [hc']
    split
    · rename_i hs
      exact ⟨inv_other hc hs hI hm, safe_of_running hend⟩
    · exact ⟨hI, hsafe⟩
  -- A move is one of the coroutine or of other code, and nothing to the other.
  cases m with
  | use u => exact ⟨(hturn rfl).1, iff_of_true (hturn rfl).2 fun _ => trivial⟩
  | pauseReading => exact ⟨(hturn rfl).1, iff_of_true (hturn rfl).2 fun _ => trivial⟩
  | resumeReading d registers =>
      exact ⟨(hturn rfl).1, iff_of_true (hturn rfl).2 fun _ => trivial⟩
  | close => exact ⟨(hturn rfl).1, iff_of_true (hturn rfl).2 fun _ => trivial⟩
  | _ => simpa [Line.other] using hrun

end Call

/-- **`sendfile` restores the transport**, in every state of a run in which
nobody else changes whether that reads, exactly when each step is careful. -/
theorem restored_iff (h : Handler) (r : Request) (t : Line) (ms : List Move)
    (hquiet : EachMove (step h r) Undisturbed (.idle t) ms) :
    Throughout (step h r) (Call.Safe h) (.idle t) ms ↔
      EachMove (step h r) (Careful r) (.idle t) ms :=
  throughout_iff_eachMove_among (I := Call.Inv)
    (fun _ _ hI hsafe hm => Call.step_spec hI hsafe hm) (fun _ => rfl)
    (Call.safe_of_running (by simp [Call.idle])) ms hquiet

def busy : Line :=
  { registered := true, paused := false, polling := true, drainTcp := true, closing := false
    eof := false, buffer := [[1]], emptyWaiter := none, protocol := .original
    buffered := false, protocolPaused := false, highWater := 65536, lowWater := 16384 }

def oneByte : Request :=
  { sock := { blocking := false, ssl := false, stream := true }
    file := { content := [2], pos := 0, binary := true, hasSeek := true }
    offset := 0, count := none, fallback := true }

def Delivered.nothing : Delivered :=
  { pauses := false, unwatches := false, closes := false, exits := false }

/-- The file has been sent, and the executor looks for more. -/
def sent : List Move :=
  [.sendfile, .use (.fire (.done 1)), .wake, .resume .nothing true, .seek true, .submit true,
    .read [2], .wake, .pass (.done 1) true, .submit true]

/-- A task that is cancelled while the file is read. -/
theorem restored_iff_cancelled :
    Throughout (step (.sendmsg 16) oneByte) (Call.Safe (.sendmsg 16)) (.idle busy)
      (sent ++ [.cancel, .wake, .seek true, .setProtocol true, .resume .nothing true]) :=
  (restored_iff _ _ _ _ (by decide)).mpr (by decide)

/-- Three runs after which the transport is not restored. The task is cancelled
while it waits for the buffer to empty; the `seek` behind the last block raises;
and the reader of a `BufferedProtocol` is refused. -/
theorem unrestored :
    ¬ Throughout (step (.sendmsg 16) oneByte) (Call.Safe (.sendmsg 16)) (.idle busy)
        [.sendfile, .cancel, .wake] ∧
      ¬ Throughout (step (.sendmsg 16) oneByte) (Call.Safe (.sendmsg 16)) (.idle busy)
        (sent ++ [.read [], .wake, .seek false]) ∧
      ¬ Throughout (step (.sendmsg 16) oneByte) (Call.Safe (.sendmsg 16))
        (.idle { busy with buffered := true, drainTcp := false })
        [.sendfile, .use (.fire (.done 1)), .wake, .resume .nothing false] := by
  refine ⟨?_, ?_, ?_⟩
  · rintro ⟨-, -, -, h⟩
    exact absurd (h rfl rfl).registered (by decide)
  · rintro ⟨-, -, -, -, -, -, -, -, -, -, -, -, -, h⟩
    exact absurd (h rfl rfl).protocol (by decide)
  · rintro ⟨-, -, -, -, h⟩
    exact absurd (h rfl rfl).registered (by decide)

/-- The writer that sends the last byte after such a cancellation raises. -/
example :
    (([.sendfile, .cancel, .wake].foldl (step (.sendmsg 16) oneByte) (.idle busy)).line.writeReady
      (.sendmsg 16) (.done 1)).2 = true := by decide

end Tokioop.Transport.Restore
