import Tokioop.Transport.Rules

/-!
What is passed to `write` and `writelines` reaches the kernel, in order.

The books balance whenever control is outside the transport: the bytes the
kernel has accepted, followed by the buffer, are the bytes that were offered.
A lost connection throws the buffer away, and from then on nothing is sent,
so that what was accepted stays a prefix of what was offered. The kernel may
answer a send in any way, and every callback may call every method.
-/

namespace Tokioop.Transport

open Fd Kit Kit.Prog

/-- Everything may be called and answered, except that the registration of
the writer does not fail. -/
def writerRegisters : TransportPolicy where
  call _ _ _ := True
  env _ _ _ := True
  ret _ _ _ := True
  answer q a _ := q = .register false → a.failed = false

instance (top : Bool) (m : Method) (s : World) : Decidable (writerRegisters.call top m s) :=
  inferInstanceAs (Decidable True)

instance (top : Bool) (h : Env) (s : World) : Decidable (writerRegisters.env top h s) :=
  inferInstanceAs (Decidable True)

instance (e : UserCall) (r : Except Exc Nat) (s : World) : Decidable (writerRegisters.ret e r s) :=
  inferInstanceAs (Decidable True)

instance (q : Query) (a : Reply) (s : World) : Decidable (writerRegisters.answer q a s) :=
  inferInstanceAs (Decidable (q = .register false → a.failed = false))

structure Lossless (s : World) : Prop where
  base : Base s
  accepted : s.sent <+: s.offered
  whole : s.connLost = 0 → s.attached = true → s.sent ++ s.buffer.flatten = s.offered
  -- `write` and `writelines` refuse further bytes once `_eof` is set.
  shut : ∀ p ∈ s.shutdowns, p = (s.sent, s.offered) ∧ s.sent = s.offered ∧ s.eof = true

def writingContract : Contract World UserCall Nat Exc Query Reply where
  Inv := Lossless
  Rely s t := s.closing = true → t.closing = true
  Ret _ _ _ := True
  Answer := writerRegisters.answer
  refl := @World.stays_closing_refl
  trans := @World.stays_closing_trans

namespace Lossless

variable {s : World}

theorem aside {s' : World} (h : Lossless s) (ha : Aside s s') : Lossless s' := by
  refine ⟨h.base.aside ha, ?_, ?_, ?_⟩
  · rw [ha.sent, ha.offered]
    exact h.accepted
  · rw [ha.connLost, ha.attached, ha.sent, ha.buffer, ha.offered]
    exact h.whole
  · rw [ha.shutdowns, ha.sent, ha.offered, ha.eof]
    exact h.shut

/-- Once the connection is lost, the buffer does not matter. -/
theorem lost {s' : World} (h : Lossless s) (hb : Base s') (hl : s'.connLost ≠ 0)
    (hsent : s'.sent = s.sent) (hoffered : s'.offered = s.offered)
    (hshut : s'.shutdowns = s.shutdowns) (heof : s'.eof = s.eof) : Lossless s' := by
  refine ⟨hb, ?_, fun h0 => absurd h0 hl, ?_⟩
  · rw [hsent, hoffered]
    exact h.accepted
  · rw [hshut, hsent, hoffered, heof]
    exact h.shut

/-- More bytes are offered on a transport that has not been half-closed. -/
theorem noShutdown (h : Lossless s) (heof : s.eof = false) : s.shutdowns = [] := by
  refine List.eq_nil_iff_forall_not_mem.mpr fun p hp => ?_
  have htrue := (h.shut p hp).2.2
  rw [heof] at htrue
  cases htrue

/-- Bytes are offered, queued and sent. -/
theorem of_open {s' : World} (h : Lossless s) (heof : s.eof = false)
    (hshut : s'.shutdowns = s.shutdowns) (hb : Base s') (haccepted : s'.sent <+: s'.offered)
    (hwhole : s'.connLost = 0 → s'.attached = true → s'.sent ++ s'.buffer.flatten = s'.offered) :
    Lossless s' := by
  refine ⟨hb, haccepted, hwhole, fun p hp => ?_⟩
  rw [hshut, h.noShutdown heof] at hp
  cases hp

theorem accepted_offer (h : Lossless s) (data : List UInt8) : s.sent <+: s.offered ++ data :=
  h.accepted.trans (List.prefix_append _ _)

end Lossless

/-- What a method leaves: the books balance, and a closing transport stays so. -/
abbrev Balanced (s t : World) : Prop := Lossless t ∧ (s.closing = true → t.closing = true)

theorem lossless_forceClose (exc : Option Exc) : Keeps writingContract (forceClose exc) := by
  intro s hs
  have hb := hs.base
  refine wp_forceClose exc hb (fun _ => ⟨hs, id⟩) (fun _ _ => ⟨?_, fun _ => rfl⟩) fun _ ha => ?_
  · exact hs.lost (.of_closing rfl) (Nat.succ_ne_zero _) rfl rfl rfl rfl
  · have hc := hb.closing_of_detached ha
    split
    · exact ⟨hs.lost (.of_closing hc) (Nat.succ_ne_zero _) rfl rfl rfl rfl, id⟩
    · refine ⟨⟨.of_closing hc, hs.accepted, fun _ hatt => ?_, hs.shut⟩, id⟩
      rw [ha] at hatt
      cases hatt

theorem lossless_baseClose : Keeps writingContract baseClose := by
  intro s hs
  refine wp_baseClose hs.base (fun _ => ⟨hs, id⟩) fun _ => ?_
  unfold World.closed
  split
  · exact ⟨hs.lost (.of_closing rfl) (Nat.succ_ne_zero _) rfl rfl rfl rfl, fun _ => rfl⟩
  · exact ⟨⟨.of_closing rfl, hs.accepted, hs.whole, hs.shut⟩, fun _ => rfl⟩

theorem unread_writing : Unread writingContract where
  base := Lossless.base
  aside hs ha := ⟨Lossless.aside hs ha, ha.closing.trans⟩
  forceClose := lossless_forceClose
  baseClose := lossless_baseClose

/-! ### Tearing down -/

theorem Lossless.severed {s : World} (hs : Lossless s) (hc : s.closing = true) :
    Lossless s.severed := by
  unfold World.severed
  split
  · exact ⟨.of_closing hc, hs.accepted, fun _ hatt => (by cases hatt), hs.shut⟩
  · exact hs

theorem lossless_callConnectionLost (exc : Option Exc) {s : World} (hs : Lossless s)
    (hc : s.closing = true) :
    (callConnectionLost exc).wp writingContract (fun _ t => Balanced s t) s := by
  have hclosing : ∀ t : World, t.closing = true → t.severed.closing = true := by
    intro t ht
    unfold World.severed
    split <;> exact ht
  have htearing : Lossless s.tearing :=
    ⟨.of_closing hc, hs.accepted, hs.whole, hs.shut⟩
  refine wp_callConnectionLost exc (fun t ht => ⟨ht.1.aside { Aside.refl t with }, ht.2⟩)
    (fun _ => htearing.aside { Aside.refl _ with }) (fun t r ht htr _ => ?_) ?_
  · have htc := htr hc
    exact ⟨Lossless.severed ht htc, fun _ => hclosing t htc⟩
  · exact ⟨htearing.severed hc, fun _ => hclosing _ hc⟩

/-! ### Writing -/

theorem lossless_bufferRest {s t : World} {data : List UInt8} (hc : t.closing = s.closing)
    (ht : Lossless { t with buffer := t.buffer ++ [data] }) :
    (bufferRest data).wp writingContract (fun _ u => Balanced s u) t :=
  unread_writing.maybePauseProtocol.after ht hc.trans

theorem lossless_write (data : List UInt8) : Keeps writingContract (write data) := by
  intro s hs
  have hb := hs.base
  refine wp_write (fun _ _ => ⟨hs, id⟩) (fun heof hd => ?_) (fun heof hl => ?_)
    (fun heof hl hbuf _ => ?_) (fun heof hl hbuf ha => ?_) (fun heof hl hbuf ha _ e _ => ?_)
    (fun heof hl hbuf ha _ n hn => ?_) fun heof hl hbuf ha n _ => ?_
  · refine ⟨hs.of_open heof rfl (hb.offer data) (hs.accepted_offer _) ?_, id⟩
    intro hl ha
    show s.sent ++ s.buffer.flatten = s.offered ++ data
    rw [hd, List.append_nil, hs.whole hl ha]
  · refine ⟨hs.of_open heof rfl (.of_closing (hb.lost hl)) (hs.accepted_offer _) ?_, id⟩
    intro h0
    exact absurd h0 (Nat.succ_ne_zero _)
  · refine lossless_bufferRest rfl ?_
    refine hs.of_open heof rfl ((hb.offer data).buffered _) (hs.accepted_offer _) fun hl ha => ?_
    show s.sent ++ (s.buffer ++ [data]).flatten = s.offered ++ data
    rw [← hs.whole hl ha]
    simp
  · have hs' : Lossless (s.offer data) :=
      hs.of_open heof rfl (hb.offer data) (hs.accepted_offer _) fun _ hatt =>
        absurd (ha.symm.trans hatt) Bool.false_ne_true
    exact unread_writing.fatalError _ _ _ hs'
  · -- The bytes are lost together with the connection.
    refine wp_fatalError_osError ha (wp_forceClose _ ⟨hb.lost, hb.attached, hb.jobs⟩ ?_ ?_ ?_)
    · exact fun h0 => absurd hl h0
    · intro _ _
      refine ⟨hs.of_open heof rfl (.of_closing rfl) (hs.accepted_offer _) ?_, fun _ => rfl⟩
      exact fun h0 => absurd h0 (Nat.succ_ne_zero _)
    · exact fun _ hno => absurd (hno.symm.trans ha) Bool.false_ne_true
  · have hwhole : s.sent ++ data.take n ++ s.buffer.flatten = s.offered ++ data := by
      rw [← hs.whole hl ha, hbuf]
      simp [List.take_of_length_le (List.drop_eq_nil_iff.mp hn)]
    refine ⟨hs.of_open heof rfl ((hb.offer data).took _) ⟨_, hwhole⟩ ?_, id⟩
    exact fun _ _ => hwhole
  · rw [wp_bind]
    refine wp_addWriter (fun hno => absurd (hno.symm.trans ha) Bool.false_ne_true)
      (fun _ e hans => by cases hans rfl) fun _ a _ _ => ?_
    have hwhole : s.sent ++ data.take n ++ (s.buffer ++ [data.drop n]).flatten =
        s.offered ++ data := by
      rw [← hs.whole hl ha, hbuf]
      simp
    have hsent : Base ((s.offer data).took (data.take n)).writing :=
      ((hb.offer data).took _).writing
    refine lossless_bufferRest rfl ?_
    exact hs.of_open heof rfl (hsent.buffered _) ⟨_, hwhole⟩ fun _ _ => hwhole

theorem Lossless.shutdown {s : World} (hs : Lossless s) (hbuf : s.buffer = [])
    (hc : s.closing = false) (heof : s.eof = true) :
    Lossless { s with shutdowns := s.shutdowns ++ [(s.sent, s.offered)] } := by
  have hall : s.sent = s.offered := by
    have h := hs.whole (hs.base.lost_eq_zero hc) (hs.base.attached hc).1
    rwa [hbuf, List.flatten_nil, List.append_nil] at h
  refine ⟨⟨hs.base.lost, hs.base.attached, hs.base.jobs⟩, hs.accepted, hs.whole, fun p hp => ?_⟩
  rcases List.mem_append.mp hp with hp | hp
  · exact hs.shut p hp
  · exact ⟨List.mem_singleton.mp hp, hall, heof⟩

theorem lossless_afterSend : Keeps writingContract afterSend := by
  intro s hs
  have hdropped : ∀ t w, Lossless t → Lossless { t with writer := none, emptyWaiter := w } :=
    fun t w ht => ⟨⟨ht.base.lost, ht.base.attached, ht.base.jobs⟩, ht.accepted, ht.whole, ht.shut⟩
  refine wp_afterSend (unread_writing.maybeResumeProtocol s hs) (fun e t ht => ht)
    (fun t ht _ => ht) (fun t ht _ _ => ht) (fun t ht _ _ _ => ⟨hdropped t _ ht.1, ht.2⟩)
    (fun t w ht _ _ hc _ => ?_) (fun t w ht hbuf _ hc heof _ => ?_)
    fun t w ht _ _ _ _ => ⟨hdropped t w ht.1, ht.2⟩
  · have hlost := lossless_callConnectionLost none (hdropped t w ht.1) hc
    exact wp_mono _ (fun _ u hu => ⟨hu.1, fun _ => hu.2 hc⟩) hlost
  · have hshut := (hdropped t w ht.1).shutdown hbuf hc heof
    exact ⟨hshut.aside { Aside.refl _ with }, ht.2⟩

theorem lossless_writeSendmsg : Keeps writingContract writeSendmsg := by
  intro s hs
  have hb := hs.base
  refine wp_writeSendmsg (fun _ => ⟨hs, id⟩) (fun _ => ⟨hs, id⟩) (fun _ _ _ => ⟨hs, id⟩)
    (fun _ _ _ => ⟨hs, id⟩) (fun hbuf hl ha e _ => ?_) fun hbuf hl ha n rest _ _ hflat => ?_
  · -- The buffer is lost together with the connection.
    rw [wp_bind]
    refine wp_fatalError_osError ha (wp_forceClose _ ⟨hb.lost, hb.attached, hb.jobs⟩ ?_ ?_ ?_)
    · exact fun h0 => absurd hl h0
    · intro _ _
      refine unread_writing.resolveEmptyWaiter.after ?_ fun _ => rfl
      exact hs.lost (.of_closing rfl) (Nat.succ_ne_zero _) rfl rfl rfl rfl
    · exact fun _ hno => absurd (hno.symm.trans ha) Bool.false_ne_true
  · have hwhole : s.sent ++ s.gathered.take n ++ rest.flatten = s.offered := by
      rw [List.append_assoc, hflat, hs.whole hl ha]
    have ht : Lossless { s.took (s.gathered.take n) with buffer := rest } := by
      refine ⟨⟨hb.lost, hb.attached, hb.jobs⟩, ⟨_, hwhole⟩, fun _ _ => hwhole, fun p hp => ?_⟩
      obtain ⟨rfl, hall, heof⟩ := hs.shut p hp
      -- All offered bytes had been accepted by then, so there was nothing to take.
      have hnone : s.gathered.take n ++ rest.flatten = [] := by
        rw [hflat]
        have h := hs.whole hl ha
        rw [hall] at h
        exact List.append_right_eq_self.mp h
      have htook : s.sent ++ s.gathered.take n = s.sent := by
        rw [(List.append_eq_nil_iff.mp hnone).1, List.append_nil]
      exact ⟨Prod.ext htook.symm rfl, htook.trans hall, heof⟩
    exact lossless_afterSend _ ht

theorem lossless_writelines (lines : List (List UInt8)) :
    Keeps writingContract (writelines lines) := by
  intro s hs
  have hb := hs.base
  refine wp_writelines (fun _ => ⟨hs, id⟩) (fun _ => ⟨hs, id⟩) (fun heof hl => ?_)
    (fun _ ha => ?_) fun heof hl ha _ => ?_
  · refine ⟨hs.of_open heof rfl (.of_closing (hb.lost hl)) (hs.accepted_offer _) ?_, id⟩
    exact fun h0 => absurd h0 (Nat.succ_ne_zero _)
  · refine ⟨⟨⟨hb.lost, hb.attached, hb.jobs⟩, hs.accepted, fun _ hatt => ?_, hs.shut⟩, id⟩
    exact absurd (ha.symm.trans hatt) Bool.false_ne_true
  · have hwhole : s.sent ++ (s.buffer ++ lines).flatten = s.offered ++ lines.flatten := by
      rw [← hs.whole hl ha]
      simp
    have ht : Lossless { s.offer lines.flatten with buffer := s.buffer ++ lines } :=
      hs.of_open heof rfl ⟨hb.lost, hb.attached, hb.jobs⟩ ⟨_, hwhole⟩ fun _ _ => hwhole
    refine wp_mono _ ?_ (lossless_writeSendmsg _ ht)
    intro r t htr
    cases r with
    | error e => exact htr
    | ok a =>
        show if t.buffer = [] then _ else _
        split
        · exact htr
        · rw [wp_bind]
          have hwriting : Lossless t.writing :=
            ⟨⟨htr.1.base.lost, htr.1.base.attached, htr.1.base.jobs⟩, htr.1.accepted, htr.1.whole,
              htr.1.shut⟩
          refine wp_addWriter (fun _ => htr) (fun _ e hans => by cases hans rfl) fun _ a _ _ => ?_
          exact unread_writing.maybePauseProtocol.after hwriting htr.2

theorem lossless_writeEof : Keeps writingContract writeEof := by
  intro s hs
  have hb := hs.base
  unfold writeEof
  rw [wp_bind, wp_get]
  show wp _ (if (s.closing || s.eof) = true then _ else _) _ s
  split
  · exact ⟨hs, id⟩
  · rename_i hgo
    simp only [Bool.or_eq_true, not_or, Bool.not_eq_true] at hgo
    have heof : Lossless { s with eof := true } := by
      refine ⟨⟨hb.lost, hb.attached, hb.jobs⟩, hs.accepted, hs.whole, fun p hp => ?_⟩
      exact ⟨(hs.shut p hp).1, (hs.shut p hp).2.1, rfl⟩
    rw [wp_bind, wp_modify]
    show wp _ (if s.buffer = [] then _ else _) _ _
    split
    · rename_i hbuf
      unfold shutdownWrite
      rw [wp_onLoop]
      refine ⟨fun _ => ⟨?_, id⟩, fun _ => ⟨heof, id⟩⟩
      exact (heof.shutdown hbuf hgo.1 rfl).aside { Aside.refl _ with }
    · exact ⟨heof, id⟩

/-! ### Runs -/

theorem lossless_popReady : Keeps writingContract popReady := by
  intro s hs
  have hb := hs.base
  have hpop : ∀ j rest, s.ready = j :: rest → Lossless { s with ready := rest } := by
    intro j rest hready
    refine ⟨⟨hb.lost, hb.attached, fun exc h => hb.jobs exc ?_⟩, hs.accepted, hs.whole, hs.shut⟩
    rw [hready]
    exact List.mem_cons_of_mem _ h
  refine unread_writing.popReady hs (fun j rest hready _ => ⟨hpop j rest hready, id⟩) ?_
  intro exc rest hready
  have hc : s.closing = true := hb.jobs exc (by rw [hready]; exact List.mem_cons_self)
  exact lossless_callConnectionLost exc (hpop _ rest hready) hc

theorem lossless_popIo : Keeps writingContract popIo := fun _ hs =>
  unread_writing.popIo hs (fun item t ht _ _ => unread_writing.deliverReplay item t ht)
    (fun t ht _ => unread_writing.readReady t ht) fun t ht _ => lossless_writeSendmsg t ht

theorem sound_writing : Sound transport writerRegisters writingContract Lossless := by
  have hbody : ∀ m : Method, Keeps writingContract m.body := fun m s hs =>
    unread_writing.body hs (fun data _ => lossless_write data s hs)
      (fun lines _ => lossless_writelines lines s hs) (fun _ => lossless_writeEof s hs)
      (fun _ => lossless_popReady s hs) fun _ => lossless_popIo s hs
  exact {
    ret := fun _ => trivial
    answer := id
    call_top := fun m s hs _ => wp_mono _ (fun _ _ ht => ht.1) (hbody m s hs)
    call_inner := fun m s hs _ => hbody m s hs
    env_top := fun h s s' hs _ he => hs.aside (aside_env he)
    env_inner := fun h s s' hs _ he => unread_writing.aside hs (aside_env he) }

/-- **Lossless writing.** In every run in which the registration of the writer
does not fail, whenever control is outside the transport: the bytes accepted
by the kernel are a prefix of those that were offered; as long as the
connection is not lost, the buffer is the rest; and when the write end was
shut down, everything offered had been accepted, and nothing has been sent
since. -/
theorem writing_lossless {c : Config World UserCall Nat Exc Query Reply}
    (h : Reach transport writerRegisters (fun s => ∃ kind kernel, s = World.new kind kernel) c)
    (ho : c.Outside) :
    c.state.sent <+: c.state.offered ∧
    (c.state.connLost = 0 → c.state.attached = true →
      c.state.sent ++ c.state.buffer.flatten = c.state.offered) ∧
    ∀ p ∈ c.state.shutdowns, p.1 = p.2 ∧ c.state.sent = p.1 := by
  have hinit : ∀ s, (∃ kind kernel, s = World.new kind kernel) → Lossless s := by
    rintro s ⟨kind, kernel, rfl⟩
    refine ⟨⟨?_, ?_, ?_⟩, ?_, ?_, ?_⟩
    all_goals simp [World.new]
  have hs := sound_writing.inv hinit (fun _ hs => hs) h ho
  refine ⟨hs.accepted, hs.whole, fun p hp => ?_⟩
  obtain ⟨rfl, hall, -⟩ := hs.shut p hp
  exact ⟨hall, rfl⟩

/-- The kernel takes one byte of three; `pause_writing` writes a fourth;
`resume_writing`, called when all are gone, adds two lines that block and the
end of the stream, which is shut down once they are gone too. -/
theorem writing_lossless_example : ∃ c : Config World UserCall Nat Exc Query Reply,
    c.state.sent = [1, 2, 3, 4, 5, 6] ∧ c.state.sent <+: c.state.offered ∧
      (c.state.connLost = 0 → c.state.attached = true →
        c.state.sent ++ c.state.buffer.flatten = c.state.offered) ∧
      ∀ p ∈ c.state.shutdowns, p.1 = p.2 ∧ c.state.sent = p.1 := by
  have hstart : Reach transport writerRegisters (fun s => ∃ kind kernel, s = World.new kind kernel)
      ⟨World.new .plain ⟨[], [], none, false⟩, none, []⟩ := .start ⟨_, ⟨_, _, rfl⟩, rfl⟩
  obtain ⟨c, hrun, hend⟩ := hstart.exists_of_replay [
    Move.andRun (.call (.setWriteBufferLimits (some 0) none)) 3,
    Move.andRun (.call (.write [1, 2, 3])) 3, Move.andRun (.answer (.done 1)) 2,
    Move.andRun (.answer (.done 0)) 7, Move.andRun (.call (.write [4])) 5,
    Move.andRun (.ret (.ok 0)) 1, [.env .fireWriter], Move.andRun (.call .popIo) 6,
    Move.andRun (.answer (.done 3)) 8, Move.andRun (.call (.writelines [[5], [6]])) 5,
    Move.andRun (.answer .wouldBlock) 2, Move.andRun (.answer (.done 0)) 6,
    Move.andRun (.ret (.ok 0)) 1, Move.andRun (.call .writeEof) 3, Move.andRun (.ret (.ok 0)) 2,
    [.env .fireWriter], Move.andRun (.call .popIo) 6, Move.andRun (.answer (.done 2)) 8,
    Move.andRun (.ret (.ok 0)) 8].flatten
    (fun c => c.code.isNone && c.state.sent = [1, 2, 3, 4, 5, 6]) (by decide +kernel)
  simp only [Bool.and_eq_true, Option.isNone_iff_eq_none, decide_eq_true_eq] at hend
  exact ⟨c, hend.2, writing_lossless hrun hend.1⟩

end Tokioop.Transport
