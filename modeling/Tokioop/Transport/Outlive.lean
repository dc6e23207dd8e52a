import Tokioop.Transport.Rules

/-!
No watcher of a stream transport is registered once it is torn down.

The reader goes when the transport starts closing and is not registered again.
The writer is registered while there is something in the buffer, and goes
with the last of it, except that it is still there while the protocol is told
to resume writing. A transport is tidy when it has no writer for an empty
buffer; callbacks leave it so, and a tidy transport whose teardown is
scheduled has no writer.
-/

namespace Tokioop.Transport

open Fd Kit Kit.Prog

/-- There is no writer for an empty buffer. -/
def World.Tidy (s : World) : Prop := s.attached = true → s.buffer = [] → s.writer = none

instance (s : World) : Decidable s.Tidy :=
  inferInstanceAs (Decidable (s.attached = true → s.buffer = [] → s.writer = none))

/-- `resume_writing` raises `SystemExit` and `KeyboardInterrupt` only with
something in the buffer, or with the writer gone. -/
def returnsTidy : UserCall → Except Exc Nat → World → Prop
  | .resumeWriting, .error x, s => x.exits = true → s.Tidy
  | _, _, _ => True

/-- Batches wait for callbacks to return, `resume_writing` exits tidily, and
no writer is registered once the teardown has begun. -/
def cleanExit : TransportPolicy where
  call top m _ := top = false → m.ofBatch = false
  env _ _ _ := True
  ret := returnsTidy
  answer q a s := s.teardowns ≠ 0 → q = .register false → a.failed = true

instance : (e : UserCall) → (r : Except Exc Nat) → (s : World) → Decidable (returnsTidy e r s)
  | .resumeWriting, .error _, _ => inferInstanceAs (Decidable (_ → World.Tidy _))
  | .resumeWriting, .ok _, _ => .isTrue trivial
  | .exceptionHandler _ _, _, _ => .isTrue trivial
  | .connectionMade, _, _ => .isTrue trivial
  | .dataReceived _, _, _ => .isTrue trivial
  | .eofReceived, _, _ => .isTrue trivial
  | .getBuffer, _, _ => .isTrue trivial
  | .bufferUpdated _, _, _ => .isTrue trivial
  | .pauseWriting, _, _ => .isTrue trivial
  | .connectionLost _, _, _ => .isTrue trivial

instance (top : Bool) (m : Method) (s : World) : Decidable (cleanExit.call top m s) :=
  inferInstanceAs (Decidable (_ → _))

instance (top : Bool) (h : Env) (s : World) : Decidable (cleanExit.env top h s) :=
  inferInstanceAs (Decidable True)

instance (e : UserCall) (r : Except Exc Nat) (s : World) : Decidable (cleanExit.ret e r s) :=
  inferInstanceAs (Decidable (returnsTidy e r s))

instance (q : Query) (a : Reply) (s : World) : Decidable (cleanExit.answer q a s) :=
  inferInstanceAs (Decidable (_ → _ → _))

structure Released (s : World) : Prop where
  base : Base s
  stopped : s.closing = true → s.reader = none
  dropped : s.connLost ≠ 0 → s.attached = true → s.buffer = []
  jobs : ∀ exc, Job.callConnectionLost exc ∈ s.ready → s.connLost ≠ 0
  begun : s.teardowns ≠ 0 → s.writer = none
  ended : s.attached = false → s.teardowns ≠ 0

def releaseContract : Contract World UserCall Nat Exc Query Reply where
  Inv := Released
  Rely s t := (s.Tidy → t.Tidy) ∧ (s.closing = true → t.closing = true) ∧
    (s.teardowns ≠ 0 → t.teardowns ≠ 0)
  Ret := returnsTidy
  Answer := cleanExit.answer
  refl _ := ⟨id, id, id⟩
  trans h h' := ⟨h'.1 ∘ h.1, h'.2.1 ∘ h.2.1, h'.2.2 ∘ h.2.2⟩

abbrev StaysReleased (s t : World) : Prop := Released t ∧ releaseContract.Rely s t

namespace Released

variable {s : World}

theorem tidy_of_detached (ha : s.attached = false) : s.Tidy :=
  fun hatt => absurd (ha.symm.trans hatt) Bool.false_ne_true

theorem aside {s' : World} (h : Released s) (ha : Aside s s') : StaysReleased s s' := by
  refine ⟨⟨h.base.aside ha, fun hc => ?_, ?_, ?_, ?_, ?_⟩, fun ht => ?_, ha.closing.trans, ?_⟩
  · rw [ha.closing] at hc
    exact ha.reader hc (h.stopped hc)
  · rw [ha.connLost, ha.attached, ha.buffer]
    exact h.dropped
  · rw [ha.ready, ha.connLost]
    exact h.jobs
  · rw [ha.teardowns, ha.writer]
    exact h.begun
  · rw [ha.attached, ha.teardowns]
    exact h.ended
  · unfold World.Tidy
    rw [ha.attached, ha.buffer, ha.writer]
    exact ht
  · rw [ha.teardowns]
    exact id

/-! ### Closing -/

theorem forceClose (exc : Option Exc) : Keeps releaseContract (forceClose exc) := by
  intro s hs
  have hb := hs.base
  refine wp_forceClose exc hb (fun _ => ⟨hs, releaseContract.refl s⟩) (fun _ ha => ?_)
    fun _ ha => ?_
  · have hwriter : s.writer = none → (s.forceClosed exc).writer = none := by
      intro hw
      show (if s.buffer = [] then s.writer else none) = none
      split
      · exact hw
      · rfl
    refine ⟨⟨.of_closing rfl, fun _ => ?_, fun _ _ => rfl, fun _ _ => Nat.succ_ne_zero _,
      fun ht => hwriter (hs.begun ht), hs.ended⟩, fun htidy _ _ => ?_, fun _ => rfl, id⟩
    · show (if s.closing = true then s.reader else none) = none
      split
      · rename_i hc
        exact hs.stopped hc
      · rfl
    · show (if s.buffer = [] then s.writer else none) = none
      split
      · rename_i hbuf
        exact htidy ha hbuf
      · rfl
  · have hc := hb.closing_of_detached ha
    have htidy : ∀ t : World, t.attached = s.attached → t.Tidy :=
      fun t hta => tidy_of_detached (hta.trans ha)
    split
    · exact ⟨⟨.of_closing hc, hs.stopped,
        fun _ hatt => absurd (ha.symm.trans hatt) Bool.false_ne_true,
        fun _ _ => Nat.succ_ne_zero _, hs.begun, hs.ended⟩, fun _ => htidy _ rfl, id, id⟩
    · exact ⟨⟨.of_closing hc, hs.stopped, fun _ _ => rfl, hs.jobs, hs.begun, hs.ended⟩,
        fun _ => htidy _ rfl, id, id⟩

theorem baseClose : Keeps releaseContract baseClose := by
  intro s hs
  refine wp_baseClose hs.base (fun _ => ⟨hs, releaseContract.refl s⟩) fun hc => ?_
  unfold World.closed
  split
  · rename_i hbuf
    exact ⟨⟨.of_closing rfl, fun _ => rfl, fun _ _ => hbuf, fun _ _ => Nat.succ_ne_zero _,
      fun _ => rfl, hs.ended⟩, fun _ _ _ => rfl, fun _ => rfl, id⟩
  · exact ⟨⟨.of_closing rfl, fun _ => rfl, hs.dropped, hs.jobs, hs.begun, hs.ended⟩,
      id, fun _ => rfl, id⟩

end Released

theorem unread_release : Unread releaseContract where
  base := Released.base
  aside := Released.aside
  forceClose := Released.forceClose
  baseClose := Released.baseClose

/-! ### The teardown -/

/-- A teardown that starts without a writer ends without one. -/
theorem released_callConnectionLost (exc : Option Exc) {s : World} (hs : Released s)
    (hc : s.closing = true) (hw : s.writer = none) :
    (callConnectionLost exc).wp releaseContract (fun _ t => StaysReleased s t ∧ t.Tidy) s := by
  have hbegun : Released s.tearing :=
    ⟨.of_closing hc, hs.stopped, hs.dropped, hs.jobs, fun _ => hw, fun _ => Nat.succ_ne_zero _⟩
  have hend : ∀ t, Released t → t.closing = true → t.teardowns ≠ 0 →
      StaysReleased s t.severed ∧ t.severed.Tidy := by
    intro t ht htc htt
    unfold World.severed
    split
    · have htidy : World.Tidy { t with attached := false, protocol := none } :=
        Released.tidy_of_detached rfl
      refine ⟨⟨⟨.of_closing htc, ht.stopped, fun _ hatt => ?_, ht.jobs, ht.begun, fun _ => htt⟩,
        fun _ => htidy, fun _ => htc, fun _ => htt⟩, htidy⟩
      cases hatt
    · rename_i ha
      have htidy := Released.tidy_of_detached (Bool.eq_false_iff.mpr ha)
      exact ⟨⟨ht, fun _ => htidy, fun _ => htc, fun _ => htt⟩, htidy⟩
  refine wp_callConnectionLost exc (fun t ht => ?_)
    (fun _ => (hbegun.aside (Aside.logged _ _)).1)
    (fun t r ht htr _ => hend t ht (htr.2.1 hc) (htr.2.2 (Nat.succ_ne_zero _)))
    (hend _ hbegun hc (Nat.succ_ne_zero _))
  have hwaiter : Aside t { t with emptyWaiter := some .done } := { Aside.refl t with }
  obtain ⟨hinv, hrely⟩ := ht.1.1.aside hwaiter
  exact ⟨⟨hinv, releaseContract.trans ht.1.2 hrely⟩, hrely.1 ht.2⟩

/-! ### Writing -/

/-- A step of writing that registers no writer. -/
theorem Released.step {s s' : World} (h : Released s) (hb : Base s')
    (hl : s'.connLost = s.connLost) (ha : s'.attached = s.attached) (hr : s'.ready = s.ready)
    (ht : s'.teardowns = s.teardowns) (hc : s'.closing = s.closing)
    (hreader : s'.reader = s.reader) (hw : s'.writer = s.writer ∨ s'.writer = none)
    (hbuf : s.connLost ≠ 0 → s.attached = true → s'.buffer = []) : Released s' := by
  refine ⟨hb, ?_, ?_, ?_, fun htt => ?_, ?_⟩
  · rw [hc, hreader]
    exact h.stopped
  · rw [hl, ha]
    exact hbuf
  · rw [hr, hl]
    exact h.jobs
  · rw [ht] at htt
    rcases hw with hw | hw
    · rw [hw, h.begun htt]
    · exact hw
  · rw [ha, ht]
    exact h.ended

theorem released_bufferRest {s t : World} {data : List UInt8}
    (ht : StaysReleased s { t with buffer := t.buffer ++ [data] }) :
    (bufferRest data).wp releaseContract (fun _ u => StaysReleased s u) t :=
  unread_release.maybePauseProtocol.after ht.1 ht.2

/-- A registration that succeeds is made before the teardown. -/
theorem Released.writing {s : World} {a : Reply} (h : Released s)
    (hans : cleanExit.answer (.register false) a s) (hok : a.failed = false) :
    Released s.writing := by
  have h0 : s.teardowns = 0 := by
    by_contra ht
    exact absurd (hok.symm.trans (hans ht rfl)) Bool.false_ne_true
  have hb := h.base
  exact ⟨⟨hb.lost, hb.attached, hb.jobs⟩, h.stopped, h.dropped, h.jobs, fun ht => absurd h0 ht,
    h.ended⟩

theorem released_write (data : List UInt8) : Keeps releaseContract (write data) := by
  intro s hs
  have hb := hs.base
  have hoffer : Released (s.offer data) :=
    hs.step ⟨hb.lost, hb.attached, hb.jobs⟩ rfl rfl rfl rfl rfl rfl (.inl rfl) hs.dropped
  refine wp_write (fun _ _ => ⟨hs, releaseContract.refl s⟩) (fun _ _ => ?_) (fun _ hl => ?_)
    (fun _ hl hbuf _ => ?_) (fun _ hl hbuf ha => ?_) (fun _ hl hbuf ha _ e _ => ?_)
    (fun _ hl hbuf ha _ n _ => ?_) fun _ hl hbuf ha n _ => ?_
  · exact ⟨hoffer, id, id, id⟩
  · have hc := hb.lost hl
    exact ⟨⟨.of_closing hc, hs.stopped, fun _ => hs.dropped hl, fun _ _ => Nat.succ_ne_zero _,
      hs.begun, hs.ended⟩, id, id, id⟩
  · refine released_bufferRest ⟨?_, fun _ _ hnil => ?_, id, id⟩
    · exact hs.step ⟨hb.lost, hb.attached, hb.jobs⟩ rfl rfl rfl rfl rfl rfl (.inl rfl)
        fun h => absurd hl h
    · exact absurd hnil (List.append_ne_nil_of_left_ne_nil hbuf _)
  · exact unread_release.fatalError _ _ _ hoffer
  · exact unread_release.fatalError _ _ _ hoffer
  · refine ⟨?_, id, id, id⟩
    exact hs.step ⟨hb.lost, hb.attached, hb.jobs⟩ rfl rfl rfl rfl rfl rfl (.inl rfl) hs.dropped
  · have htook : Released ((s.offer data).took (data.take n)) :=
      hs.step ⟨hb.lost, hb.attached, hb.jobs⟩ rfl rfl rfl rfl rfl rfl (.inl rfl) hs.dropped
    rw [wp_bind]
    refine wp_addWriter (fun _ => ⟨htook, id, id, id⟩) (fun _ _ _ => ⟨htook, id, id, id⟩) ?_
    intro _ a hans hok
    have hw := htook.writing hans hok
    have hb' := hw.base
    refine released_bufferRest ⟨?_, fun _ _ hnil => ?_, id, id⟩
    · exact hw.step ⟨hb'.lost, hb'.attached, hb'.jobs⟩ rfl rfl rfl rfl rfl rfl (.inl rfl)
        fun h => absurd hl h
    · exact absurd hnil (List.append_ne_nil_of_right_ne_nil _ (by simp))

/-- Whatever `resume_writing` did, the writer leaves the transport tidy. -/
theorem released_afterSend {s : World} (hs : Released s) :
    afterSend.wp releaseContract (fun _ t => StaysReleased s t ∧ t.Tidy) s := by
  have hflow : FlowControlled releaseContract .resumeWriting "protocol.resume_writing() failed"
      (fun _ => True) World.Tidy :=
    ⟨fun _ => trivial, fun _ => trivial, fun hx h => h hx, Released.tidy_of_detached⟩
  have hdropped : ∀ t u : World, StaysReleased s t → Released u → u.writer = none →
      u.closing = t.closing → u.teardowns = t.teardowns → StaysReleased s u ∧ u.Tidy := by
    intro t u ht hu hw hc htt
    have htidy : u.Tidy := fun _ _ => hw
    refine ⟨⟨hu, releaseContract.trans ht.2 ⟨fun _ => htidy, hc.trans, ?_⟩⟩, htidy⟩
    rw [htt]
    exact id
  have hnone : ∀ t w, StaysReleased s t →
      Released { t with writer := none, emptyWaiter := w } := by
    intro t w ht
    have hb := ht.1.base
    exact ht.1.step ⟨hb.lost, hb.attached, hb.jobs⟩ rfl rfl rfl rfl rfl rfl (.inr rfl) ht.1.dropped
  refine wp_afterSend (wp_maybeResumeProtocol unread_release.toSidelined hflow hs trivial)
    (fun e t ht => ht) (fun t ht hbuf => ⟨ht.1, fun _ hnil => absurd hnil hbuf⟩)
    (fun t ht _ ha => ⟨ht.1, Released.tidy_of_detached ha⟩)
    (fun t ht _ _ _ => hdropped t _ ht.1 (hnone t _ ht.1) rfl rfl rfl)
    (fun t w ht _ _ hc _ => ?_) (fun t w ht hbuf ha hc _ _ => ?_)
    fun t w ht _ _ _ _ => hdropped t _ ht.1 (hnone t w ht.1) rfl rfl rfl
  · refine wp_mono _ (fun _ u hu => ?_) (released_callConnectionLost none (hnone t w ht.1) hc rfl)
    have hgo := (hdropped t _ ht.1 (hnone t w ht.1) rfl rfl rfl).1
    exact ⟨⟨hu.1.1, releaseContract.trans hgo.2 hu.1.2⟩, hu.2⟩
  · refine hdropped t _ ht.1 ?_ rfl rfl rfl
    have hb := ht.1.1.base
    exact ht.1.1.step ⟨hb.lost, hb.attached, hb.jobs⟩ rfl rfl rfl rfl rfl rfl (.inr rfl)
      ht.1.1.dropped

theorem released_writeSendmsg : Keeps releaseContract writeSendmsg := by
  intro s hs
  have hb := hs.base
  have hstay : StaysReleased s s := ⟨hs, releaseContract.refl s⟩
  refine wp_writeSendmsg (fun _ => hstay) (fun _ => hstay) (fun _ _ _ => hstay)
    (fun _ _ _ => hstay) (fun hbuf hl ha e _ => ?_) fun hbuf hl ha n rest _ _ _ => ?_
  · have hgone : Released { s with writer := none, buffer := [] } :=
      hs.step ⟨hb.lost, hb.attached, hb.jobs⟩ rfl rfl rfl rfl rfl rfl (.inr rfl) fun _ _ => rfl
    refine (keeps_bind (unread_release.fatalError _ _) fun _ =>
      unread_release.resolveEmptyWaiter).after hgone ?_
    exact ⟨fun _ _ _ => rfl, id, id⟩
  · have htook : Released { s.took (s.gathered.take n) with buffer := rest } :=
      hs.step ⟨hb.lost, hb.attached, hb.jobs⟩ rfl rfl rfl rfl rfl rfl (.inl rfl)
        fun h => absurd hl h
    refine wp_mono _ (fun _ t ht => ?_) (released_afterSend htook)
    exact ⟨ht.1.1, fun _ => ht.2, ht.1.2.2.1, ht.1.2.2.2⟩

theorem released_writelines (lines : List (List UInt8)) :
    Keeps releaseContract (writelines lines) := by
  intro s hs
  have hb := hs.base
  have hstay : StaysReleased s s := ⟨hs, releaseContract.refl s⟩
  refine wp_writelines (fun _ => hstay) (fun _ => hstay) (fun _ hl => ?_) (fun _ ha => ?_)
    fun _ hl ha hlines => ?_
  · have hc := hb.lost hl
    exact ⟨⟨.of_closing hc, hs.stopped, fun _ => hs.dropped hl, fun _ _ => Nat.succ_ne_zero _,
      hs.begun, hs.ended⟩, id, id, id⟩
  · refine ⟨hs.step ⟨hb.lost, hb.attached, hb.jobs⟩ rfl rfl rfl rfl rfl rfl (.inl rfl) ?_,
      fun _ => Released.tidy_of_detached ha, id, id⟩
    exact fun _ hatt => absurd (ha.symm.trans hatt) Bool.false_ne_true
  · have hmore : Released { s.offer lines.flatten with buffer := s.buffer ++ lines } :=
      hs.step ⟨hb.lost, hb.attached, hb.jobs⟩ rfl rfl rfl rfl rfl rfl (.inl rfl)
        fun h => absurd hl h
    have hrely :
        releaseContract.Rely s { s.offer lines.flatten with buffer := s.buffer ++ lines } :=
      ⟨fun _ _ hnil => absurd hnil (List.append_ne_nil_of_right_ne_nil _ hlines), id, id⟩
    refine wp_mono _ ?_ (released_writeSendmsg _ hmore)
    intro r t htr
    have hst : StaysReleased s t := ⟨htr.1, releaseContract.trans hrely htr.2⟩
    cases r with
    | error e => exact hst
    | ok a =>
        show if t.buffer = [] then _ else _
        split
        · exact hst
        · rename_i hbuf
          rw [wp_bind]
          refine wp_addWriter (fun _ => hst) (fun _ _ _ => hst) fun _ a hans hok => ?_
          refine unread_release.maybePauseProtocol.after (hst.1.writing hans hok) ?_
          exact releaseContract.trans hst.2 ⟨fun _ _ hnil => absurd hnil hbuf, id, id⟩

theorem released_writeEof : Keeps releaseContract writeEof := by
  have hkeep : ∀ f : World → World, (∀ s, Released s → StaysReleased s (f s)) →
      Keeps releaseContract (Prog.modify f : Meth Unit) := fun f h => keeps_modify h
  refine keeps_bind keeps_get fun s => keeps_ite (keeps_done _) ?_
  refine keeps_bind (hkeep _ fun t ht => ?_) fun _ => keeps_ite (keeps_bind keeps_get fun _ =>
    keeps_ite (hkeep _ fun t ht => ?_) (keeps_done _)) (keeps_done _)
  all_goals
    have hb := ht.base
    refine ⟨?_, id, id, id⟩
    exact ht.step ⟨hb.lost, hb.attached, hb.jobs⟩ rfl rfl rfl rfl rfl rfl (.inl rfl) ht.dropped

/-! ### Runs -/

theorem released_popReady {s : World} (hs : Released s) (ht : s.Tidy) :
    popReady.wp releaseContract (fun _ t => StaysReleased s t) s := by
  have hb := hs.base
  have hpop : ∀ j rest, s.ready = j :: rest → StaysReleased s { s with ready := rest } := by
    intro j rest hready
    have hmem : ∀ exc, Job.callConnectionLost exc ∈ rest → .callConnectionLost exc ∈ s.ready := by
      intro exc h
      rw [hready]
      exact List.mem_cons_of_mem _ h
    exact ⟨⟨⟨hb.lost, hb.attached, fun exc h => hb.jobs exc (hmem exc h)⟩, hs.stopped, hs.dropped,
      fun exc h => hs.jobs exc (hmem exc h), hs.begun, hs.ended⟩, id, id, id⟩
  refine unread_release.popReady hs (fun j rest hready _ => hpop j rest hready) ?_
  intro exc rest hready
  have hmem : Job.callConnectionLost exc ∈ s.ready := by
    rw [hready]
    exact List.mem_cons_self
  have hw : s.writer = none := by
    cases ha : s.attached with
    | true => exact ht ha (hs.dropped (hs.jobs exc hmem) ha)
    | false => exact hs.begun (hs.ended ha)
  obtain ⟨hinv, hrely⟩ := hpop _ rest hready
  refine wp_mono _ (fun _ u hu => ?_)
    (released_callConnectionLost exc hinv (hb.jobs exc hmem) hw)
  exact ⟨hu.1.1, releaseContract.trans hrely hu.1.2⟩

theorem sound_release :
    Sound transport cleanExit releaseContract fun s => Released s ∧ s.Tidy := by
  have hbody : ∀ (m : Method) s, Released s → (m.ofBatch = true → s.Tidy) →
      (m.body).wp releaseContract (fun _ t => StaysReleased s t) s := by
    intro m s hs htidy
    refine unread_release.body hs (fun data _ => released_write data s hs)
      (fun lines _ => released_writelines lines s hs) (fun _ => released_writeEof s hs)
      (fun hm => released_popReady hs (htidy (by rw [hm]; rfl))) fun _ => ?_
    exact unread_release.popIo hs (fun item t ht _ _ => unread_release.deliverReplay item t ht)
      (fun t ht _ => unread_release.readReady t ht) fun t ht _ => released_writeSendmsg t ht
  exact {
    ret := id
    answer := id
    call_top := fun m s hs _ =>
      wp_mono _ (fun _ _ ht => ⟨ht.1, ht.2.1 hs.2⟩) (hbody m s hs.1 fun _ => hs.2)
    call_inner := fun m s hs hm =>
      hbody m s hs fun hb => absurd ((hm rfl).symm.trans hb) Bool.false_ne_true
    env_top := fun h s s' hs _ he =>
      ⟨(hs.1.aside (aside_env he)).1, (hs.1.aside (aside_env he)).2.1 hs.2⟩
    env_inner := fun h s s' hs _ he => hs.aside (aside_env he) }

/-- A stream transport that has been torn down has no watcher. -/
theorem stream_released {c : Config World UserCall Nat Exc Query Reply}
    (h : Reach transport cleanExit (fun s => ∃ kind kernel, s = World.new kind kernel) c)
    (ho : c.Outside) (ha : c.state.attached = false) :
    c.state.reader = none ∧ c.state.writer = none := by
  have hinit : ∀ s, (∃ kind kernel, s = World.new kind kernel) → Released s ∧ s.Tidy := by
    rintro s ⟨kind, kernel, rfl⟩
    refine ⟨⟨⟨?_, ?_, ?_⟩, ?_, ?_, ?_, ?_, ?_⟩, ?_⟩
    all_goals simp [World.new, World.Tidy]
  have hs : Released c.state := sound_release.inv hinit (fun _ hs => hs.1) h ho
  exact ⟨hs.stopped (hs.base.closing_of_detached ha), hs.begun (hs.ended ha)⟩

end Tokioop.Transport
