import Tokioop.Kit.Exec
import Tokioop.Transport.Writing

/-!
The writer of a stream transport is registered exactly while something is
buffered.

Between operations the two agree. While `resume_writing` runs they need not:
the writer that has sent the last of the buffer goes only afterwards, and a
`writelines` that has sent a part registers its writer only afterwards. What a
callback keeps there is that something buffered has a writer, if it had one
when the callback started; with that, the operation that is waiting brings the
two in line again.
-/

namespace Tokioop.Transport

open Fd Kit Kit.Prog

namespace World

/-- What is buffered has a writer. -/
def Watched (s : World) : Prop := s.buffer ≠ [] → s.writer.isSome = true

/-- There is a writer exactly while something is buffered. -/
def Exact (s : World) : Prop := s.writer.isSome = true ↔ s.buffer ≠ []

end World

/-- Registering the writer succeeds, batches wait for callbacks to return, and
`resume_writing` does not end the process. -/
def steadyWriter : TransportPolicy where
  call top m _ := top = false → m.ofBatch = false
  env _ _ _ := True
  ret e r _ := e = .resumeWriting → ∀ x, r = .error x → x.exits = false
  answer := writerRegisters.answer

instance (top : Bool) (m : Method) (s : World) : Decidable (steadyWriter.call top m s) :=
  inferInstanceAs (Decidable (_ → _))

instance (top : Bool) (h : Env) (s : World) : Decidable (steadyWriter.env top h s) :=
  inferInstanceAs (Decidable True)

instance (e : UserCall) : (r : Except Exc Nat) → (s : World) → Decidable (steadyWriter.ret e r s)
  | .ok _, _ => .isTrue fun _ _ h => by cases h
  | .error x, _ => decidable_of_iff (e = .resumeWriting → x.exits = false)
      ⟨fun h he _ hx => by cases hx; exact h he, fun h he => h he x rfl⟩

instance (q : Query) (a : Reply) (s : World) : Decidable (steadyWriter.answer q a s) :=
  inferInstanceAs (Decidable (writerRegisters.answer q a s))

structure Steady (s : World) : Prop where
  base : Base s
  ended : s.attached = false → s.teardowns ≠ 0
  dropped : s.teardowns = 0 → s.connLost ≠ 0 → s.buffer = []

def steadyContract : Contract World UserCall Nat Exc Query Reply where
  Inv := Steady
  Rely s t := (s.closing = true → t.closing = true) ∧ (s.teardowns ≠ 0 → t.teardowns ≠ 0) ∧
    (t.teardowns = 0 → (s.Watched → t.Watched) ∧ (s.Exact → t.Exact))
  Ret := steadyWriter.ret
  Answer := steadyWriter.answer
  refl _ := ⟨id, id, fun _ => ⟨id, id⟩⟩
  trans h h' := by
    refine ⟨h'.1 ∘ h.1, h'.2.1 ∘ h.2.1, fun hu => ?_⟩
    have ht := by_contra fun ht => h'.2.1 ht hu
    exact ⟨(h'.2.2 hu).1 ∘ (h.2.2 ht).1, (h'.2.2 hu).2 ∘ (h.2.2 ht).2⟩

abbrev StaysSteady (s t : World) : Prop := Steady t ∧ steadyContract.Rely s t

namespace World

variable {s t : World}

theorem Watched.congr (hb : t.buffer = s.buffer) (hw : t.writer = s.writer) (h : s.Watched) :
    t.Watched := by
  rw [Watched, hb, hw]
  exact h

theorem Exact.congr (hb : t.buffer = s.buffer) (hw : t.writer = s.writer) (h : s.Exact) :
    t.Exact := by
  rw [Exact, hb, hw]
  exact h

theorem Exact.watched (h : s.Exact) : s.Watched := h.mpr

theorem Exact.idle (h : s.Exact) (hb : s.buffer = []) : s.writer = none := by
  rw [Exact, hb] at h
  simpa using h

/-- Neither a writer nor anything to send. -/
theorem exact_of_idle (hb : s.buffer = []) (hw : s.writer = none) : s.Exact := by
  simp [Exact, hb, hw]

theorem exact_of_busy (hb : s.buffer ≠ []) (hw : s.writer.isSome = true) : s.Exact := by
  simp [Exact, hb, hw]

end World

namespace Steady

variable {s t : World}

theorem same (h : Steady s) (hb : Base t) (hbuf : t.buffer = s.buffer)
    (hw : t.writer = s.writer) (ha : t.attached = s.attached) (ht : t.teardowns = s.teardowns)
    (hc : s.closing = true → t.closing = true) (hl : t.connLost = s.connLost ∨ s.buffer = []) :
    StaysSteady s t := by
  refine ⟨⟨hb, ?_, fun h0 hlost => ?_⟩, hc, ?_, fun _ => ?_⟩
  · rw [ha, ht]
    exact h.ended
  · rw [hbuf]
    rcases hl with hl | hl
    · exact h.dropped (ht ▸ h0) (hl ▸ hlost)
    · exact hl
  · rw [ht]
    exact id
  · exact ⟨World.Watched.congr hbuf hw, World.Exact.congr hbuf hw⟩

theorem aligned (h : Steady s) (hb : Base t) (he : t.Exact) (ha : t.attached = s.attached)
    (ht : t.teardowns = s.teardowns) (hc : s.closing = true → t.closing = true)
    (hd : t.connLost ≠ 0 → t.buffer = []) : StaysSteady s t := by
  refine ⟨⟨hb, ?_, fun _ => hd⟩, hc, ?_, fun _ => ⟨fun _ => he.watched, fun _ => he⟩⟩
  · rw [ha, ht]
    exact h.ended
  · rw [ht]
    exact id

theorem aside (h : Steady s) (ha : Aside s t) : StaysSteady s t :=
  h.same (h.base.aside ha) ha.buffer ha.writer ha.attached ha.teardowns ha.closing.trans
    (.inl ha.connLost)

theorem attached (h : Steady s) (ht : s.teardowns = 0) : s.attached = true := by
  by_contra ha
  exact h.ended (Bool.eq_false_iff.mpr ha) ht

end Steady

/-! ### Closing -/

theorem steady_forceClose (exc : Option Exc) : Keeps steadyContract (forceClose exc) := by
  intro s hs
  have hb := hs.base
  refine wp_forceClose exc hb (fun _ => ⟨hs, steadyContract.refl s⟩) (fun _ ha => ?_) fun _ ha => ?_
  · by_cases hbuf : s.buffer = []
    · refine hs.same (.of_closing rfl) hbuf.symm ?_ rfl rfl (fun _ => rfl) (.inr hbuf)
      exact if_pos hbuf
    · exact hs.aligned (.of_closing rfl) (World.exact_of_idle rfl (if_neg hbuf)) rfl rfl
        (fun _ => rfl) fun _ => rfl
  · have hc := hb.closing_of_detached ha
    have ht := hs.ended ha
    split
    · rename_i hbuf
      exact hs.same (.of_closing hc) rfl rfl rfl rfl id (.inr hbuf)
    · exact ⟨⟨.of_closing hc, hs.ended, fun _ _ => rfl⟩, id, id, fun h0 => absurd h0 ht⟩

theorem steady_baseClose : Keeps steadyContract baseClose := by
  intro s hs
  refine wp_baseClose hs.base (fun _ => ⟨hs, steadyContract.refl s⟩) fun hc => ?_
  rw [World.closed]
  split
  · rename_i hbuf
    exact hs.aligned (.of_closing rfl) (World.exact_of_idle hbuf rfl) rfl rfl (fun _ => rfl)
      fun _ => hbuf
  · exact hs.same (.of_closing rfl) rfl rfl rfl rfl (fun _ => rfl) (.inl rfl)

theorem unread_steady : Unread steadyContract where
  base := Steady.base
  aside := Steady.aside
  forceClose := steady_forceClose
  baseClose := steady_baseClose

/-- A teardown is where the statement ends. -/
theorem steady_callConnectionLost (exc : Option Exc) {s : World} (hc : s.closing = true) :
    (callConnectionLost exc).wp steadyContract
      (fun _ t => StaysSteady s t ∧ t.teardowns ≠ 0) s := by
  have htearing : Steady s.tearing :=
    ⟨.of_closing hc, fun _ => Nat.succ_ne_zero _, fun h0 => absurd h0 (Nat.succ_ne_zero _)⟩
  have hend : ∀ t, Steady t → t.closing = true → t.teardowns ≠ 0 →
      StaysSteady s t.severed ∧ t.severed.teardowns ≠ 0 := by
    intro t ht htc htt
    rw [World.severed]
    split
    · exact ⟨⟨⟨.of_closing htc, fun _ => htt, fun h => absurd h htt⟩, fun _ => htc, fun _ => htt,
        fun h => absurd h htt⟩, htt⟩
    · exact ⟨⟨ht, fun _ => htc, fun _ => htt, fun h => absurd h htt⟩, htt⟩
  refine wp_callConnectionLost exc (fun t ht => ?_)
    (fun _ => (htearing.aside (Aside.logged _ _)).1)
    (fun t r ht htr _ => hend t ht (htr.1 hc) (htr.2.1 (Nat.succ_ne_zero _)))
    (hend _ htearing hc (Nat.succ_ne_zero _))
  have hwaiter : Aside t { t with emptyWaiter := some .done } := { Aside.refl t with }
  obtain ⟨hinv, hrely⟩ := ht.1.1.aside hwaiter
  exact ⟨⟨hinv, steadyContract.trans ht.1.2 hrely⟩, ht.2⟩

/-! ### Writing -/

theorem steady_bufferRest {s t : World} {data : List UInt8}
    (ht : StaysSteady s { t with buffer := t.buffer ++ [data] }) :
    (bufferRest data).wp steadyContract (fun _ u => StaysSteady s u) t :=
  unread_steady.maybePauseProtocol.after ht.1 ht.2

theorem steady_write (data : List UInt8) : Keeps steadyContract (write data) := by
  intro s hs
  have hb := hs.base
  have hoffer : StaysSteady s (s.offer data) :=
    hs.same (hb.offer data) rfl rfl rfl rfl id (.inl rfl)
  refine wp_write (fun _ _ => ⟨hs, steadyContract.refl s⟩) (fun _ _ => hoffer) (fun _ hl => ?_)
    (fun _ hl hbuf _ => ?_) (fun _ hl hbuf ha => ?_) (fun _ hl hbuf ha _ e _ => ?_)
    (fun _ hl hbuf ha _ n _ => ?_) fun _ hl hbuf ha n _ => ?_
  · refine ⟨⟨.of_closing (hb.lost hl), hs.ended, fun h0 _ => hs.dropped h0 hl⟩, id, id, fun _ => ?_⟩
    exact ⟨World.Watched.congr rfl rfl, World.Exact.congr rfl rfl⟩
  · have hne : s.buffer ++ [data] ≠ [] := List.append_ne_nil_of_left_ne_nil hbuf _
    refine steady_bufferRest ⟨⟨(hb.offer data).buffered _, hs.ended, fun _ h => absurd hl h⟩,
      id, id, fun _ => ?_⟩
    refine ⟨fun h _ => h hbuf, fun h => ?_⟩
    exact World.exact_of_busy hne (h.mpr hbuf)
  · exact (unread_steady.fatalError _ _).after hoffer.1 hoffer.2
  · exact (unread_steady.fatalError _ _).after hoffer.1 hoffer.2
  · exact hs.same ((hb.offer data).took _) rfl rfl rfl rfl id (.inl rfl)
  · rw [wp_bind]
    refine wp_addWriter (fun hno => absurd (hno.symm.trans ha) Bool.false_ne_true)
      (fun _ e hans => by cases hans rfl) fun _ a _ _ => ?_
    have hsent : Base ((s.offer data).took (data.take n)).writing :=
      ((hb.offer data).took _).writing
    refine steady_bufferRest (hs.aligned (hsent.buffered _) ?_ rfl rfl id fun h => absurd hl h)
    exact World.exact_of_busy (List.append_ne_nil_of_right_ne_nil _ (by simp)) rfl

/-- What a send leaves that did not find the buffer empty: as good a watch as
before, and no writer for an empty buffer. One that raised has dropped both. -/
structure Sent (s : World) (r : Except Exc Unit) (t : World) : Prop where
  steady : Steady t
  closing : s.closing = true → t.closing = true
  torn : s.teardowns ≠ 0 → t.teardowns ≠ 0
  watched : t.teardowns = 0 → s.Watched → t.Watched
  idle : t.teardowns = 0 → t.buffer = [] → t.writer = none
  raised : t.teardowns = 0 → ∀ e, r = .error e → t.Exact

namespace Sent

variable {s t : World} {r : Except Exc Unit}

theorem exact (h : Sent s r t) (ht : t.teardowns = 0) (hw : s.Watched) : t.Exact := by
  by_cases hb : t.buffer = []
  · exact World.exact_of_idle hb (h.idle ht hb)
  · exact World.exact_of_busy hb (h.watched ht hw hb)

theorem stays (h : Sent s r t) : StaysSteady s t :=
  ⟨h.steady, h.closing, h.torn, fun ht => ⟨h.watched ht, fun he => h.exact ht he.watched⟩⟩

theorem of_exact (h : StaysSteady s t) (he : t.teardowns = 0 → t.Exact) : Sent s r t :=
  ⟨h.1, h.2.1, h.2.2.1, fun h0 _ => (he h0).watched, fun h0 => (he h0).idle, fun h0 _ _ => he h0⟩

/-- The writer has been dropped. -/
theorem of_idle {u : World} (h : StaysSteady s t) (hu : Steady u) (hc : u.closing = t.closing)
    (ht : u.teardowns = t.teardowns) (hbuf : u.buffer = []) (hw : u.writer = none) :
    Sent s r u := by
  have he := World.exact_of_idle hbuf hw
  refine of_exact ⟨hu, fun hsc => hc.trans (h.2.1 hsc), ?_, fun _ => ?_⟩ fun _ => he
  · rw [ht]
    exact h.2.2.1
  · exact ⟨fun _ => he.watched, fun _ => he⟩

theorem of_torn {u : World} (h : StaysSteady s u) (hu : u.teardowns ≠ 0) : Sent s r u :=
  of_exact h fun h0 => absurd h0 hu

end Sent

/-- Whatever `resume_writing` did, the writer goes with the last of the
buffer. -/
theorem sent_afterSend {s : World} (hs : Steady s) :
    afterSend.wp steadyContract (Sent s) s := by
  have hflow : FlowControlled steadyContract .resumeWriting "protocol.resume_writing() failed"
      (fun _ => True) (fun t => t.attached = false) := by
    refine ⟨fun _ => trivial, fun _ => trivial, fun hx hret => ?_, id⟩
    exact absurd ((hret rfl _ rfl).symm.trans hx) Bool.false_ne_true
  have hdrop : ∀ t w, Steady t → Steady { t with writer := none, emptyWaiter := w } :=
    fun t w ht => ⟨⟨ht.base.lost, ht.base.attached, ht.base.jobs⟩, ht.ended, ht.dropped⟩
  refine wp_afterSend (wp_maybeResumeProtocol unread_steady.toSidelined hflow hs trivial)
    (fun e t ht => Sent.of_torn ht.1 (ht.1.1.ended ht.2)) (fun t ht hbuf => ?_)
    (fun t ht _ ha => Sent.of_torn ht.1 (ht.1.1.ended ha))
    (fun t ht hbuf _ _ => Sent.of_idle ht.1 (hdrop t _ ht.1.1) rfl rfl hbuf rfl)
    (fun t w ht hbuf _ hc _ => ?_) (fun t w ht hbuf ha hc _ _ => ?_)
    fun t w ht hbuf _ _ _ => Sent.of_idle ht.1 (hdrop t w ht.1.1) rfl rfl hbuf rfl
  · exact ⟨ht.1.1, ht.1.2.1, ht.1.2.2.1, fun h0 hw => (ht.1.2.2.2 h0).1 hw,
      fun _ hnil => absurd hnil hbuf, fun _ e he => by cases he⟩
  · have hidle : Sent s (.ok ()) { t with writer := none, emptyWaiter := w } :=
      Sent.of_idle ht.1 (hdrop t w ht.1.1) rfl rfl hbuf rfl
    refine wp_mono _ (fun _ u hu => ?_) (steady_callConnectionLost none hc)
    exact Sent.of_torn ⟨hu.1.1, steadyContract.trans hidle.stays.2 hu.1.2⟩ hu.2
  · refine Sent.of_idle ht.1 ?_ rfl rfl hbuf rfl
    exact ⟨⟨ht.1.1.base.lost, ht.1.1.base.attached, ht.1.1.base.jobs⟩, ht.1.1.ended,
      fun _ _ => hbuf⟩

theorem sent_writeSendmsg {s : World} (hs : Steady s) (hne : s.buffer ≠ []) :
    writeSendmsg.wp steadyContract (Sent s) s := by
  have hb := hs.base
  have hstay : Sent s (.ok ()) s :=
    ⟨hs, id, id, fun _ => id, fun _ hnil => absurd hnil hne, fun _ e he => by cases he⟩
  refine wp_writeSendmsg (fun hnil => absurd hnil hne) (fun _ => hstay)
    (fun _ _ ha => Sent.of_torn hstay.stays (hs.ended ha)) (fun _ _ _ => hstay)
    (fun _ hl ha e _ => ?_) fun _ hl ha n rest _ _ _ => ?_
  · have hgone : StaysSteady s { s with writer := none, buffer := [] } :=
      hs.aligned ⟨hb.lost, hb.attached, hb.jobs⟩ (World.exact_of_idle rfl rfl) rfl rfl id
        fun _ => rfl
    refine wp_mono _ (fun _ t ht => ?_) (keeps_bind (unread_steady.fatalError _ _)
      (fun _ => unread_steady.resolveEmptyWaiter) _ hgone.1)
    refine Sent.of_exact ⟨ht.1, steadyContract.trans hgone.2 ht.2⟩ fun h0 => ?_
    exact (ht.2.2.2 h0).2 (World.exact_of_idle rfl rfl)
  · have htook : Steady { s.took (s.gathered.take n) with buffer := rest } :=
      ⟨⟨hb.lost, hb.attached, hb.jobs⟩, hs.ended, fun _ h => absurd hl h⟩
    refine wp_mono _ (fun _ t ht => ?_) (sent_afterSend htook)
    exact ⟨ht.steady, ht.closing, ht.torn, fun h0 hw => ht.watched h0 fun _ => hw hne, ht.idle,
      ht.raised⟩

theorem steady_writeSendmsg : Keeps steadyContract writeSendmsg := by
  intro s hs
  by_cases hne : s.buffer = []
  · have hstay : StaysSteady s s := ⟨hs, steadyContract.refl s⟩
    exact wp_writeSendmsg (fun _ => hstay) (fun _ => hstay) (fun h => absurd hne h)
      (fun h => absurd hne h) (fun h => absurd hne h) fun h => absurd hne h
  · exact wp_mono _ (fun _ t ht => ht.stays) (sent_writeSendmsg hs hne)

theorem steady_writelines (lines : List (List UInt8)) :
    Keeps steadyContract (writelines lines) := by
  intro s hs
  have hb := hs.base
  have hstay : StaysSteady s s := ⟨hs, steadyContract.refl s⟩
  refine wp_writelines (fun _ => hstay) (fun _ => hstay) (fun _ hl => ?_) (fun _ ha => ?_)
    fun _ hl ha hlines => ?_
  · refine ⟨⟨.of_closing (hb.lost hl), hs.ended, fun h0 _ => hs.dropped h0 hl⟩, id, id, fun _ => ?_⟩
    exact ⟨World.Watched.congr rfl rfl, World.Exact.congr rfl rfl⟩
  · have ht := hs.ended ha
    exact ⟨⟨⟨hb.lost, hb.attached, hb.jobs⟩, hs.ended, fun h0 => absurd h0 ht⟩, id, id,
      fun h0 => absurd h0 ht⟩
  · have hne : s.buffer ++ lines ≠ [] := List.append_ne_nil_of_right_ne_nil _ hlines
    have hmore : Steady { s.offer lines.flatten with buffer := s.buffer ++ lines } :=
      ⟨⟨hb.lost, hb.attached, hb.jobs⟩, hs.ended, fun _ h => absurd hl h⟩
    refine wp_mono _ ?_ (sent_writeSendmsg hmore hne)
    intro r t ht
    -- Raised, or empty, or about to be registered: the two agree either way.
    have hexact : (t.teardowns = 0 → t.Exact) → StaysSteady s t := fun he =>
      ⟨ht.steady, ht.closing, ht.torn, fun h0 => ⟨fun _ => (he h0).watched, fun _ => he h0⟩⟩
    cases r with
    | error e => exact hexact fun h0 => ht.raised h0 e rfl
    | ok a =>
        show if t.buffer = [] then _ else _
        split
        · rename_i hbuf
          exact hexact fun h0 => World.exact_of_idle hbuf (ht.idle h0 hbuf)
        · rename_i hbuf
          rw [wp_bind]
          refine wp_addWriter (fun hno => hexact fun h0 => ?_) (fun _ e hans => by cases hans rfl)
            fun _ a _ _ => ?_
          · exact absurd h0 (ht.steady.ended hno)
          · have hwriting : StaysSteady s t.writing := by
              have htb := ht.steady.base
              have he : t.writing.Exact := World.exact_of_busy hbuf rfl
              exact ⟨⟨⟨htb.lost, htb.attached, htb.jobs⟩, ht.steady.ended, ht.steady.dropped⟩,
                ht.closing, ht.torn, fun _ => ⟨fun _ => he.watched, fun _ => he⟩⟩
            exact unread_steady.maybePauseProtocol.after hwriting.1 hwriting.2

theorem steady_writeEof : Keeps steadyContract writeEof := by
  have hkeep : ∀ f : World → World, (∀ s, Steady s → StaysSteady s (f s)) →
      Keeps steadyContract (Prog.modify f : Meth Unit) := fun f h => keeps_modify h
  refine keeps_bind keeps_get fun s => keeps_ite (keeps_done _) ?_
  refine keeps_bind (hkeep _ fun t ht => ?_) fun _ => keeps_ite (keeps_bind keeps_get fun _ =>
    keeps_ite (hkeep _ fun t ht => ?_) (keeps_done _)) (keeps_done _)
  all_goals
    have hb := ht.base
    exact ht.same ⟨hb.lost, hb.attached, hb.jobs⟩ rfl rfl rfl rfl id (.inl rfl)

/-! ### Runs -/

theorem steady_popReady : Keeps steadyContract popReady := by
  intro s hs
  have hb := hs.base
  have hpop : ∀ j rest, s.ready = j :: rest → StaysSteady s { s with ready := rest } := by
    intro j rest hready
    refine hs.same ⟨hb.lost, hb.attached, fun exc hmem => hb.jobs exc ?_⟩ rfl rfl rfl rfl id
      (.inl rfl)
    rw [hready]
    exact List.mem_cons_of_mem _ hmem
  refine unread_steady.popReady hs (fun j rest hready _ => hpop j rest hready) ?_
  intro exc rest hready
  have hc : s.closing = true := hb.jobs exc (by rw [hready]; exact List.mem_cons_self)
  refine wp_mono _ (fun _ t ht => ?_) (steady_callConnectionLost exc hc)
  exact ⟨ht.1.1, steadyContract.trans (hpop _ rest hready).2 ht.1.2⟩

theorem steady_popIo : Keeps steadyContract popIo := fun _ hs =>
  unread_steady.popIo hs (fun item t ht _ _ => unread_steady.deliverReplay item t ht)
    (fun t ht _ => unread_steady.readReady t ht) fun t ht _ => steady_writeSendmsg t ht

theorem sound_steady : Sound transport steadyWriter steadyContract
    fun s => Steady s ∧ (s.teardowns = 0 → s.Exact) := by
  have hbody : ∀ m : Method, Keeps steadyContract m.body := fun m s hs =>
    unread_steady.body hs (fun data _ => steady_write data s hs)
      (fun lines _ => steady_writelines lines s hs) (fun _ => steady_writeEof s hs)
      (fun _ => steady_popReady s hs) fun _ => steady_popIo s hs
  have htop : ∀ s t, Steady s ∧ (s.teardowns = 0 → s.Exact) → StaysSteady s t →
      Steady t ∧ (t.teardowns = 0 → t.Exact) := by
    rintro s t ⟨hs, he⟩ ⟨ht, hrely⟩
    refine ⟨ht, fun h0 => (hrely.2.2 h0).2 (he ?_)⟩
    exact by_contra fun hs0 => hrely.2.1 hs0 h0
  exact {
    ret := id
    answer := id
    call_top := fun m s hs _ => wp_mono _ (fun _ t ht => htop s t hs ht) (hbody m s hs.1)
    call_inner := fun m s hs _ => hbody m s hs
    env_top := fun h s s' hs _ he => htop s s' hs (hs.1.aside (aside_env he))
    env_inner := fun h s s' hs _ he => hs.aside (aside_env he) }

theorem steady_of_reach {c : Config World UserCall Nat Exc Query Reply}
    (h : Reach transport steadyWriter (fun s => ∃ kind kernel, s = World.new kind kernel) c)
    (ho : c.Outside) :
    Steady c.state ∧ (c.calls = [] → c.state.teardowns = 0 → c.state.Exact) := by
  have hinit : ∀ s, (∃ kind kernel, s = World.new kind kernel) →
      Steady s ∧ (s.teardowns = 0 → s.Exact) := by
    rintro s ⟨kind, kernel, rfl⟩
    refine ⟨⟨⟨?_, ?_, ?_⟩, ?_, ?_⟩, fun _ => World.exact_of_idle rfl rfl⟩
    all_goals simp [World.new]
  refine ⟨sound_steady.inv hinit (fun _ hs => hs.1) h ho, fun hcalls => ?_⟩
  have hs := sound_steady.outside hinit h ho
  rw [if_pos (by rw [Config.top, hcalls]; rfl)] at hs
  exact hs.2

/-! ### Reaching `_write_sendmsg` -/

/-- The state in which a call of `m` enters `_write_sendmsg`, if it does:
directly from `writelines`, or when the batch takes a completion of the
writer. -/
def World.entersSend (s : World) : Method → Option World
  | .writelines lines =>
      if s.eof ∨ s.emptyWaiter.isSome ∨ lines = [] ∨ s.connLost ≠ 0 ∨ s.attached = false then none
      else some { s with buffer := s.buffer ++ lines, offered := s.offered ++ lines.flatten }
  | .popIo =>
      match s.io with
      | .callback slot :: rest =>
          if s.reader = some (.callback slot) then none
          else if s.writer = some slot then some { s with io := rest }
          else none
      | _ => none
  | _ => none

theorem entersSend_cases {s t : World} {m : Method} (h : s.entersSend m = some t) :
    (∃ lines, m = .writelines lines ∧
      (s.eof = false ∧ s.emptyWaiter.isSome = false ∧ lines ≠ [] ∧ s.connLost = 0 ∧
        s.attached = true) ∧
      t = { s with buffer := s.buffer ++ lines, offered := s.offered ++ lines.flatten }) ∨
    ∃ slot rest, m = .popIo ∧ s.io = .callback slot :: rest ∧
      s.reader ≠ some (.callback slot) ∧ s.writer = some slot ∧ t = { s with io := rest } := by
  cases m with
  | writelines lines =>
      simp only [World.entersSend] at h
      split at h
      · cases h
      · rename_i hgo
        simp only [not_or, Bool.not_eq_true, Bool.not_eq_false, ne_eq, not_not] at hgo
        exact .inl ⟨lines, rfl, hgo, (Option.some.inj h).symm⟩
  | popIo =>
      simp only [World.entersSend] at h
      split at h
      · rename_i slot rest hio
        split at h
        · cases h
        · rename_i hr
          split at h
          · rename_i hw
            exact .inr ⟨slot, rest, rfl, hio, hr, hw, (Option.some.inj h).symm⟩
          · cases h
      · cases h
  | pauseReading | resumeReading | registerReader | setProtocol _ | close | abort | write _
  | writeEof | setWriteBufferLimits _ _ | makeEmptyWaiter | resetEmptyWaiter | popReady => cases h

/-- The call does get there. -/
theorem leads_of_entersSend {s t : World} {m : Method} (h : s.entersSend m = some t) :
    ∃ f, m.body.Leads s (writeSendmsg.andThen f) t := by
  obtain ⟨lines, rfl, ⟨heof, hw, hlines, hl, ha⟩, rfl⟩ | ⟨slot, rest, rfl, hio, hr, hw, rfl⟩ :=
    entersSend_cases h
  · apply Exists.imp fun f => Prog.Leads.read
    show ∃ f, Prog.Leads (if s.eof = true then _ else _) s (writeSendmsg.andThen f) _
    rw [if_neg (by simp [heof]), if_neg (by simp [hw]), if_neg hlines, if_neg (by simp [hl]),
      if_neg (by simp [ha])]
    exact ⟨_, .upd .refl⟩
  · apply Exists.imp fun f => Prog.Leads.read
    simp only [Prog.andThen, hio]
    apply Exists.imp fun f h => Prog.Leads.upd (Prog.Leads.read h)
    show ∃ f, Prog.Leads (Prog.andThen (if s.reader = some (.callback slot) then _ else
      if s.writer = some slot then _ else _) _) _ (writeSendmsg.andThen f) _
    rw [if_neg hr, if_pos hw]
    exact ⟨_, .refl⟩

/-- Until the teardown, a writer is registered between operations exactly when
something is buffered, and `_write_sendmsg` never finds the buffer empty. -/
theorem writer_iff_buffered {c : Config World UserCall Nat Exc Query Reply}
    (h : Reach transport steadyWriter (fun s => ∃ kind kernel, s = World.new kind kernel) c)
    (ho : c.Outside) (ht : c.state.teardowns = 0) :
    (c.calls = [] → (c.state.writer.isSome = true ↔ c.state.buffer ≠ [])) ∧
    ∀ m t, steadyWriter.call c.top m c.state → c.state.entersSend m = some t →
      (∃ f, Reach transport steadyWriter (fun s => ∃ kind kernel, s = World.new kind kernel)
        ⟨t, some (writeSendmsg.andThen f), c.calls⟩) ∧ t.buffer ≠ [] := by
  have hexact : c.calls = [] → c.state.Exact := fun hcalls => (steady_of_reach h ho).2 hcalls ht
  refine ⟨hexact, fun m t hm henter => ⟨?_, ?_⟩⟩
  · obtain ⟨f, hleads⟩ := leads_of_entersSend henter
    obtain ⟨s, code, calls⟩ := c
    obtain rfl : code = none := ho
    have hcode : Reach transport steadyWriter _ ⟨s, some m.body, calls⟩ := h.step (.call m) hm rfl
    exact ⟨f, Reach.leads hcode hleads⟩
  · obtain ⟨lines, rfl, ⟨-, -, hlines, -⟩, rfl⟩ | ⟨slot, rest, rfl, -, -, hw, rfl⟩ :=
      entersSend_cases henter
    · exact List.append_ne_nil_of_right_ne_nil _ hlines
    · -- A batch runs at the top level, where a writer has something to send.
      have hcalls : c.calls = [] := by
        by_contra hne
        exact absurd (hm (by simpa [Config.top] using hne)) (by simp [Method.ofBatch])
      exact (hexact hcalls).mp (by rw [hw]; rfl)

/-- The kernel takes one byte of three, and `pause_writing` writes a fourth:
two chunks are buffered, and the completion of their writer is next. -/
theorem writer_iff_buffered_paused : ∃ c : Config World UserCall Nat Exc Query Reply,
    c.state.buffer = [[2, 3], [4]] ∧
    (c.state.writer.isSome = true ↔ c.state.buffer ≠ []) ∧
    ∃ t, c.state.entersSend .popIo = some t ∧ t.buffer ≠ [] := by
  have hstart : Reach transport steadyWriter (fun s => ∃ kind kernel, s = World.new kind kernel)
      ⟨World.new .plain ⟨[], [], none, false⟩, none, []⟩ := .start ⟨_, ⟨_, _, rfl⟩, rfl⟩
  obtain ⟨c, hrun, hend⟩ := hstart.exists_of_replay [
    Move.andRun (.call (.setWriteBufferLimits (some 0) none)) 3,
    Move.andRun (.call (.write [1, 2, 3])) 3, Move.andRun (.answer (.done 1)) 2,
    Move.andRun (.answer (.done 0)) 7, Move.andRun (.call (.write [4])) 5,
    Move.andRun (.ret (.ok 0)) 1, [.env .fireWriter]].flatten
    (fun c => c.code.isNone && c.calls.isEmpty && c.state.teardowns = 0 &&
      c.state.buffer = [[2, 3], [4]] && (c.state.entersSend .popIo).isSome) (by decide +kernel)
  simp only [Bool.and_eq_true, Option.isNone_iff_eq_none, List.isEmpty_iff,
    decide_eq_true_eq] at hend
  obtain ⟨⟨⟨⟨ho, hcalls⟩, ht⟩, hbuf⟩, henter⟩ := hend
  obtain ⟨t, htenter⟩ := Option.isSome_iff_exists.mp henter
  obtain ⟨hexact, hsend⟩ := writer_iff_buffered hrun ho ht
  refine ⟨c, hbuf, hexact hcalls, t, htenter, (hsend .popIo t (fun hno => ?_) htenter).2⟩
  rw [Config.top, hcalls] at hno
  cases hno

end Tokioop.Transport
