import Tokioop.Datagram.Once
import Tokioop.Transport.Outlive
import Tokioop.Transport.Replay

/-!
No watcher of a datagram transport is registered once it is torn down, as
long as no writer is registered for a transport whose teardown is scheduled
and none is left behind for an empty buffer.

Both can happen. Without a remote address `sendto` does not look at
`_conn_lost`, so that it registers a writer after `close`. And when the last
datagram of the buffer fails, `_sendto_ready` returns without removing the
writer, which `_force_close` removes only if there is something in the buffer.
A send fails for the kernel, and for the socket if it has no address or one that
is not of its family.
-/

namespace Tokioop.Datagram

open Fd Kit Kit.Prog
open Transport (Exc Query Reply Job IoItem)

namespace World

/-- There is no writer for an empty buffer. -/
def Tidy (s : World) : Prop := s.attached = true → s.buffer = [] → s.writer = none

instance (s : World) : Decidable s.Tidy :=
  inferInstanceAs (Decidable (s.attached = true → s.buffer = [] → s.writer = none))

/-- The last datagram of the buffer, if there is one, can be sent. -/
def lastAddressed (s : World) : Bool := s.buffer.getLast?.all s.addressed

end World

/-- `resume_writing` exits, and the `error_received` of the writer ends, with
something in the buffer or with the writer gone. -/
def returnsTidy : UserCall → Except Exc Unit → World → Prop
  | .resumeWriting, .error x, s => x.exits = true → s.Tidy
  | .errorReceived _ .writer, _, s => s.Tidy
  | _, _, _ => True

/-- Batches wait for callbacks to return, and callbacks return tidily. No
writer is registered once a teardown is scheduled or has begun, and none runs
while the last datagram of the buffer has nowhere to go. -/
def cleanExit : TransportPolicy where
  call top m s := (top = false → m.ofBatch = false) ∧
    (m = .popIo → s.writerNext = true → s.lastAddressed = true)
  env _ _ _ := True
  ret := returnsTidy
  answer q a s := s.connLost ≠ 0 ∨ s.teardowns ≠ 0 → q = .register false → a.failed = true

instance : (e : UserCall) → (r : Except Exc Unit) → (s : World) → Decidable (returnsTidy e r s)
  | .resumeWriting, .error _, _ => inferInstanceAs (Decidable (_ → World.Tidy _))
  | .resumeWriting, .ok _, _ => .isTrue trivial
  | .errorReceived _ .writer, .ok _, s => inferInstanceAs (Decidable s.Tidy)
  | .errorReceived _ .writer, .error _, s => inferInstanceAs (Decidable s.Tidy)
  | .errorReceived _ .read, _, _ => .isTrue trivial
  | .errorReceived _ .sendto, _, _ => .isTrue trivial
  | .exceptionHandler _ _, _, _ => .isTrue trivial
  | .connectionMade, _, _ => .isTrue trivial
  | .datagramReceived _ _, _, _ => .isTrue trivial
  | .pauseWriting, _, _ => .isTrue trivial
  | .connectionLost _, _, _ => .isTrue trivial

instance (top : Bool) (m : Method) (s : World) : Decidable (cleanExit.call top m s) :=
  inferInstanceAs (Decidable ((_ → _) ∧ (_ → _ → _)))

instance (top : Bool) (h : Env) (s : World) : Decidable (cleanExit.env top h s) :=
  inferInstanceAs (Decidable True)

instance (e : UserCall) (r : Except Exc Unit) (s : World) : Decidable (cleanExit.ret e r s) :=
  inferInstanceAs (Decidable (returnsTidy e r s))

instance (q : Query) (a : Reply) (s : World) : Decidable (cleanExit.answer q a s) :=
  inferInstanceAs (Decidable (_ ∨ _ → _ → _))

structure Released (s : World) : Prop where
  base : Base s
  stopped : s.closing = true → s.reader = none
  dropped : s.connLost ≠ 0 → s.attached = true → s.buffer = []
  jobs : ∀ exc, Job.callConnectionLost exc ∈ s.ready → s.connLost ≠ 0
  begun : s.teardowns ≠ 0 → s.writer = none
  ended : s.attached = false → s.teardowns ≠ 0

def releaseContract : TransportContract where
  Inv := Released
  Rely s t := (s.Tidy → t.Tidy) ∧ (s.closing = true → t.closing = true) ∧
    (s.teardowns ≠ 0 → t.teardowns ≠ 0)
  Ret := returnsTidy
  Answer := cleanExit.answer
  refl _ := ⟨id, id, id⟩
  trans h h' := ⟨h'.1 ∘ h.1, h'.2.1 ∘ h.2.1, h'.2.2 ∘ h.2.2⟩

abbrev StaysReleased (s t : World) : Prop := Released t ∧ releaseContract.Rely s t

theorem tidy_of_detached {s : World} (ha : s.attached = false) : s.Tidy :=
  fun hatt => absurd (ha.symm.trans hatt) Bool.false_ne_true

theorem Released.still {s s' : World} (h : Released s)
    (heq : s' = { s with
      paused := s'.paused, replay := s'.replay, protocolPaused := s'.protocolPaused
      highWater := s'.highWater, lowWater := s'.lowWater, reader := s'.reader, io := s'.io
      kernel := s'.kernel, log := s'.log, untimely := s'.untimely, sent := s'.sent
      fatal := s'.fatal })
    (hr : s.closing = true → s.reader = none → s'.reader = none) : StaysReleased s s' := by
  have hb := h.base
  rw [heq]
  exact ⟨⟨⟨hb.lost, hb.attached, hb.protocol, hb.jobs⟩, fun hc => hr hc (h.stopped hc), h.dropped,
    h.jobs, h.begun, h.ended⟩, id, id, id⟩

theorem speaks_release : Speaks releaseContract where
  base h := h.base
  tune h ht _ := h.still (by rw [ht]) (by rw [ht]; exact fun _ => id)
  say _ h _ _ := h.still rfl fun _ => id

/-! ### Closing -/

theorem released_forceClose (exc : Option Exc) : Keeps releaseContract (forceClose exc) := by
  intro s h
  have hb := h.base
  refine wp_forceClose exc hb (fun _ => ⟨h, releaseContract.refl s⟩) (fun _ ha => ?_)
    fun _ ha => ?_
  · have hwriter : s.writer = none → (s.forceClosed exc).writer = none := by
      intro hw
      show (if s.buffer = [] then s.writer else none) = none
      split
      · exact hw
      · rfl
    refine ⟨⟨.of_closing rfl hb.protocol, fun _ => ?_, fun _ _ => rfl,
      fun _ _ => Nat.succ_ne_zero _, fun ht => hwriter (h.begun ht), h.ended⟩,
      fun htidy _ _ => ?_, fun _ => rfl, id⟩
    · show (if s.closing = true then s.reader else none) = none
      split
      · rename_i hc
        exact h.stopped hc
      · rfl
    · show (if s.buffer = [] then s.writer else none) = none
      split
      · rename_i hbuf
        exact htidy ha hbuf
      · rfl
  · have hc := hb.closing_of_detached ha
    have htidy : ∀ t : World, t.attached = s.attached → t.Tidy :=
      fun t hta => tidy_of_detached (hta.trans ha)
    split
    · exact ⟨⟨.of_closing hc hb.protocol, h.stopped,
        fun _ hatt => absurd (ha.symm.trans hatt) Bool.false_ne_true,
        fun _ _ => Nat.succ_ne_zero _, h.begun, h.ended⟩, fun _ => htidy _ rfl, id, id⟩
    · exact ⟨⟨.of_closing hc hb.protocol, h.stopped, fun _ _ => rfl, h.jobs, h.begun, h.ended⟩,
        fun _ => htidy _ rfl, id, id⟩

theorem released_close : Keeps releaseContract close := by
  intro s h
  have hb := h.base
  refine wp_close hb (fun _ => ⟨h, releaseContract.refl s⟩) fun hc => ?_
  unfold World.closed
  split
  · rename_i hbuf
    exact ⟨⟨.of_closing rfl hb.protocol, fun _ => rfl, fun _ _ => hbuf,
      fun _ _ => Nat.succ_ne_zero _, fun _ => rfl, h.ended⟩, fun _ _ _ => rfl, fun _ => rfl, id⟩
  · exact ⟨⟨.of_closing rfl hb.protocol, fun _ => rfl, h.dropped, h.jobs, h.begun, h.ended⟩,
      id, fun _ => rfl, id⟩

theorem reads_release : Reads releaseContract fun _ => True where
  toSpeaks := speaks_release
  pause h := Released.still h rfl fun _ => id
  watch _ h hreading := by
    refine Released.still h rfl fun hc => ?_
    exact absurd ((World.isReading_iff _).mp hreading).1 (by rw [hc]; simp)
  fit _ _ := trivial
  hand h _ _ _ := Released.still h rfl fun _ => id
  fatalError exc message h _ :=
    wp_fatalError speaks_release exc message (Released.still h rfl fun _ => id)
      fun t ht _ => released_forceClose (some exc) t ht

/-! ### The teardown -/

/-- A teardown that starts without a writer ends without one. -/
theorem released_callConnectionLost (exc : Option Exc) {s : World} (h : Released s)
    (hc : s.closing = true) (hw : s.writer = none) :
    (callConnectionLost exc).wp releaseContract (fun _ t => StaysReleased s t ∧ t.Tidy) s := by
  have hb := h.base
  have hbegun : Released s.tearing :=
    ⟨.of_closing hc hb.protocol, h.stopped, h.dropped, h.jobs, fun _ => hw,
      fun _ => Nat.succ_ne_zero _⟩
  have hend : ∀ t, Released t → t.closing = true → t.teardowns ≠ 0 →
      StaysReleased s t.severed ∧ t.severed.Tidy := by
    intro t ht htc htt
    unfold World.severed
    split
    · have htidy : World.Tidy { t with attached := false, protocol := false } :=
        tidy_of_detached rfl
      refine ⟨⟨⟨.of_closing htc (fun h => by cases h), ht.stopped, fun _ hatt => ?_, ht.jobs,
        ht.begun, fun _ => htt⟩, fun _ => htidy, fun _ => htc, fun _ => htt⟩, htidy⟩
      cases hatt
    · rename_i ha
      have htidy := tidy_of_detached (Bool.eq_false_iff.mpr ha)
      exact ⟨⟨ht, fun _ => htidy, fun _ => htc, fun _ => htt⟩, htidy⟩
  have hcall : StaysReleased s.tearing (s.tearing.logged (.connectionLost exc)) :=
    hbegun.still rfl fun _ => id
  refine wp_callConnectionLost exc (fun _ => hcall.1) (fun t ht htr => ?_)
    (hend _ hbegun hc (Nat.succ_ne_zero _))
  exact hend t ht (htr.2.1 hc) (htr.2.2 (Nat.succ_ne_zero _))

/-! ### Writing -/

/-- Putting something in the buffer of a transport that is not lost. -/
theorem released_enqueue (d : Outgoing) (len : Nat) {s : World} (h : Released s)
    (hl : s.connLost = 0 ∨ s.attached = false) :
    (enqueue d len).wp releaseContract (fun _ t => StaysReleased s t) s := by
  have hb := h.base
  have hqueued : StaysReleased s (s.queued d len) := by
    refine ⟨⟨⟨hb.lost, hb.attached, hb.protocol, hb.jobs⟩, h.stopped, fun hne hatt => ?_, h.jobs,
      h.begun, h.ended⟩, fun _ _ hnil => ?_, id, id⟩
    · rcases hl with h0 | ha
      · exact absurd h0 hne
      · exact absurd (ha.symm.trans hatt) Bool.false_ne_true
    · exact absurd hnil (List.append_ne_nil_of_right_ne_nil _ (by simp))
  exact (keeps_maybePauseProtocol speaks_release).after hqueued.1 hqueued.2

theorem released_sendto (data : Payload) (addr : Option Target) :
    Keeps releaseContract (sendto data addr) := by
  intro s h
  have hb := h.base
  have hstay : StaysReleased s s := ⟨h, releaseContract.refl s⟩
  refine wp_sendto hstay (fun hl => ?_) (fun hbuf => released_enqueue _ _ h ?_)
    (fun e _ _ => reads_release.fatalError e _ h trivial)
    (fun e _ _ => keeps_callProtocol speaks_release rfl rfl s h)
    (fun _ _ => h.still rfl fun _ => id) fun hbuf ha => ?_
  · have hc := hb.lost hl
    exact ⟨⟨.of_closing hc hb.protocol, h.stopped, fun _ => h.dropped hl,
      fun _ _ => Nat.succ_ne_zero _, h.begun, h.ended⟩, id, id, id⟩
  · by_contra hno
    rw [not_or] at hno
    exact hbuf (h.dropped hno.1 (Bool.not_eq_false _ ▸ hno.2))
  · rw [wp_bind]
    refine wp_addWriter (fun _ => hstay) (fun _ _ _ => hstay) fun _ a hans hok => ?_
    -- A registration that succeeds is made before any teardown is scheduled.
    have hno : ¬(s.connLost ≠ 0 ∨ s.teardowns ≠ 0) := fun hor =>
      absurd (hok.symm.trans (hans hor rfl)) Bool.false_ne_true
    rw [not_or, not_not, not_not] at hno
    -- The writer is tidy again once the datagram is in the buffer.
    have hqueued : StaysReleased s (s.writing.queued (data.bytes, s.address.or addr) data.len) := by
      refine ⟨⟨⟨hb.lost, hb.attached, hb.protocol, hb.jobs⟩, h.stopped,
        fun hne => absurd hno.1 hne, h.jobs, fun ht => absurd hno.2 ht, h.ended⟩,
        fun _ _ hnil => ?_, id, id⟩
      exact absurd hnil (List.append_ne_nil_of_right_ne_nil _ (by simp))
    exact (keeps_maybePauseProtocol speaks_release).after hqueued.1 hqueued.2

/-- The datagram that is taken when the buffer runs empty is its last. -/
theorem lastAddressed_of_suffix {s : World} {d : Outgoing} (h : s.lastAddressed = true)
    (hsuf : [d] <:+ s.buffer) : s.addressed d = true := by
  obtain ⟨before, hbuf⟩ := hsuf
  simpa [World.lastAddressed, ← hbuf] using h

/-- The writer runs with something in the buffer, and leaves the transport
tidy. -/
theorem released_sendtoReady {s : World} (h : Released s) (hl : s.connLost = 0)
    (ha : s.attached = true) (hlast : s.lastAddressed = true) :
    sendtoReady.wp releaseContract (fun _ t => Released t ∧ t.Tidy ∧
      (s.closing = true → t.closing = true) ∧ (s.teardowns ≠ 0 → t.teardowns ≠ 0)) s := by
  have hb := h.base
  have hgo : ∀ u, Sending s u → Released u ∧ u.closing = s.closing ∧ u.teardowns = s.teardowns := by
    intro u hu
    rw [hu.eq]
    exact ⟨⟨⟨hb.lost, hb.attached, hb.protocol, hb.jobs⟩, h.stopped, fun hne => absurd hl hne,
      h.jobs, h.begun, h.ended⟩, rfl, rfl⟩
  have hend : ∀ u t, Sending s u → releaseContract.Rely u t → Released t → t.Tidy →
      Released t ∧ t.Tidy ∧ (s.closing = true → t.closing = true) ∧
        (s.teardowns ≠ 0 → t.teardowns ≠ 0) := by
    intro u t hu hr ht htidy
    obtain ⟨-, hc, htt⟩ := hgo u hu
    exact ⟨ht, htidy, fun h => hr.2.1 (hc.trans h), fun h => hr.2.2 (by rwa [htt])⟩
  refine wp_sendtoReady (fun u hu => ?_) (fun u e hu hatt => ?_) fun u d e hu hsuf hno => ?_
  · have hflow : FlowControlled releaseContract .resumeWriting "protocol.resume_writing() failed"
        (fun _ => True) World.Tidy :=
      ⟨fun _ => trivial, fun _ => trivial, fun hx h => h hx, tidy_of_detached⟩
    have hnone : ∀ t, StaysReleased u t → StaysReleased u { t with writer := none } ∧
        World.Tidy { t with writer := none } := by
      intro t ht
      have hb' := ht.1.base
      have htidy : World.Tidy { t with writer := none } := fun _ _ => rfl
      exact ⟨⟨⟨⟨hb'.lost, hb'.attached, hb'.protocol, hb'.jobs⟩, ht.1.stopped, ht.1.dropped,
        ht.1.jobs, fun _ => rfl, ht.1.ended⟩, fun _ => htidy, ht.2.2.1, ht.2.2.2⟩, htidy⟩
    refine wp_afterSending (wp_maybeResumeProtocol speaks_release hflow (hgo u hu).1 trivial)
      (fun t ht => hend u t hu ht.1.2 ht.1.1 ht.2)
      (fun t ht hbuf => hend u t hu ht.1.2 ht.1.1 fun _ hnil => absurd hnil hbuf)
      (fun t ht _ hatt => hend u t hu ht.1.2 ht.1.1 (tidy_of_detached hatt))
      (fun t ht _ _ hc => ?_) fun t ht _ _ _ => ?_
    · obtain ⟨hv, -⟩ := hnone t ht.1
      refine wp_mono _ (fun _ w hw => ?_) (released_callConnectionLost none hv.1 hc rfl)
      exact hend u w hu (releaseContract.trans hv.2 hw.1.2) hw.1.1 hw.2
    · obtain ⟨hv, htidy⟩ := hnone t ht.1
      exact hend u _ hu hv.2 hv.1 htidy
  · obtain ⟨hi, hr⟩ := speaks_release.say (.errorReceived e .writer) (hgo u hu).1 rfl rfl
    have hp : u.protocol = true := (hgo u hu).1.base.protocol hatt
    refine wp_callProtocol (fun _ => hi) (fun t r ht htr hret => ?_) fun hno => ?_
    · exact hend u t hu (releaseContract.trans hr htr) ht hret
    · exact absurd (hno.symm.trans hp) Bool.false_ne_true
  · -- What has nowhere to go is not the last, so that `_force_close` finds something.
    have hleft : u.buffer ≠ [] := by
      intro hnil
      rw [hnil] at hsuf
      cases hno with
      | detached hno => exact absurd (hno.symm.trans ha) Bool.false_ne_true
      | unaddressed _ hno =>
          exact absurd (hno.symm.trans (lastAddressed_of_suffix hlast hsuf)) Bool.false_ne_true
    have htidy : u.Tidy := fun _ hnil => absurd hnil hleft
    refine wp_mono _ (fun _ t ht => ?_) (reads_release.fatalError e _ (hgo u hu).1 trivial)
    exact hend u t hu ht.2 ht.1 (ht.2.1 htidy)

/-! ### Runs -/

theorem released_popReady {s : World} (h : Released s) (ht : s.Tidy) :
    popReady.wp releaseContract (fun _ t => StaysReleased s t) s := by
  have hb := h.base
  have hpop : ∀ j rest, s.ready = j :: rest → StaysReleased s { s with ready := rest } := by
    intro j rest hready
    have hmem : ∀ exc, Job.callConnectionLost exc ∈ rest → .callConnectionLost exc ∈ s.ready := by
      intro exc hm
      rw [hready]
      exact List.mem_cons_of_mem _ hm
    exact ⟨⟨⟨hb.lost, hb.attached, hb.protocol, fun exc hm => hb.jobs exc (hmem exc hm)⟩, h.stopped,
      h.dropped, fun exc hm => h.jobs exc (hmem exc hm), h.begun, h.ended⟩, id, id, id⟩
  refine wp_popReady reads_release h (fun rest hready => ?_)
    (fun rest hready => hpop _ rest hready) fun exc rest hready => ?_
  · obtain ⟨hi, hr⟩ := hpop _ rest hready
    have hsay := speaks_release.say .connectionMade hi rfl rfl
    exact ⟨hsay.1, releaseContract.trans hr hsay.2⟩
  · have hmem : Job.callConnectionLost exc ∈ s.ready := by
      rw [hready]
      exact List.mem_cons_self
    have hw : s.writer = none := by
      cases ha : s.attached with
      | true => exact ht ha (h.dropped (h.jobs exc hmem) ha)
      | false => exact h.begun (h.ended ha)
    obtain ⟨hi, hr⟩ := hpop _ rest hready
    have hlost := released_callConnectionLost exc hi (hb.jobs exc hmem) hw
    exact wp_since hr (wp_mono _ (fun _ _ hu => hu.1) hlost)

theorem released_popIo {s : World} (h : Released s) (ht : s.Tidy)
    (hlast : s.writerNext = true → s.lastAddressed = true) :
    popIo.wp releaseContract (fun _ t => StaysReleased s t) s := by
  refine wp_popIo reads_release h trivial (fun i rest _ _ => h.still rfl fun _ => id)
    (fun i rest item _ _ _ => h.still rfl fun _ => id)
    (fun i rest item _ _ _ => h.still rfl fun _ => id) fun slot rest hio hw => ?_
  -- A writer is there for a transport that has something to send.
  have ha : s.attached = true := by
    by_contra hno
    rw [h.begun (h.ended (Bool.eq_false_iff.mpr hno))] at hw
    cases hw
  have hl : s.connLost = 0 := by
    by_contra hne
    rw [ht ha (h.dropped hne ha)] at hw
    cases hw
  have hnext : s.writerNext = true := by simp [World.writerNext, hio, hw]
  have htake : StaysReleased s { s with io := rest } := h.still rfl fun _ => id
  refine wp_mono _ (fun _ t hd => ?_) (released_sendtoReady htake.1 hl ha (hlast hnext))
  exact ⟨hd.1, fun _ => hd.2.1, hd.2.2.1, hd.2.2.2⟩

theorem released_body {m : Method} {s : World} (h : Released s)
    (hbatch : m.ofBatch = true → s.Tidy) 
    (hlast : m = .popIo → s.writerNext = true → s.lastAddressed = true) :
    m.body.wp releaseContract (fun _ t => StaysReleased s t) s := by
  have hb := h.base
  match m, hbatch, hlast with
  | .pauseReading, _, _ => exact keeps_pauseReading reads_release s h
  | .resumeReading, _, _ =>
      exact keeps_resumeReading reads_release h (fun _ => trivial) (h.still rfl fun _ => id)
  | .registerReader, _, _ => exact keeps_registerReader reads_release s h
  | .setProtocol, _, _ =>
      exact ⟨⟨⟨hb.lost, hb.attached, fun _ => rfl, hb.jobs⟩, h.stopped, h.dropped, h.jobs, h.begun,
        h.ended⟩, id, id, id⟩
  | .close, _, _ => exact released_close s h
  | .abort, _, _ => exact released_forceClose none s h
  | .sendto data addr, _, _ => exact released_sendto data addr s h
  | .setWriteBufferLimits high low, _, _ =>
      exact keeps_setWriteBufferLimits speaks_release high low s h
  | .popReady, hbatch, _ => exact released_popReady h (hbatch rfl)
  | .popIo, hbatch, hlast => exact released_popIo h (hbatch rfl) (hlast rfl)

theorem released_env {s s' : World} {e : Env} (h : Released s) (he : s.env e = some s') :
    StaysReleased s s' :=
  h.still (by rw [(env_eq he).1]) fun _ => (env_eq he).2

theorem sound_release :
    Sound transport cleanExit releaseContract fun s => Released s ∧ s.Tidy where
  ret := id
  answer := id
  call_top _ _ hs hm :=
    wp_mono _ (fun _ _ ht => ⟨ht.1, ht.2.1 hs.2⟩) (released_body hs.1 (fun _ => hs.2) hm.2)
  call_inner _ _ hs hm :=
    released_body hs (fun hb => absurd ((hm.1 rfl).symm.trans hb) Bool.false_ne_true) hm.2
  env_top _ _ _ hs _ he := ⟨(released_env hs.1 he).1, (released_env hs.1 he).2.1 hs.2⟩
  env_inner _ _ _ hs _ he := released_env hs he

/-- A datagram transport that has been torn down has no watcher. -/
theorem datagram_released {c : Config World UserCall Unit Exc Query Reply}
    (h : Reach transport cleanExit
      (fun s => ∃ address peername kernel, s = World.new address peername kernel) c)
    (ho : c.Outside) (ha : c.state.attached = false) :
    c.state.reader = none ∧ c.state.writer = none := by
  have hinit : ∀ s, (∃ address peername kernel, s = World.new address peername kernel) →
      Released s ∧ s.Tidy := by
    rintro s ⟨address, peername, kernel, rfl⟩
    refine ⟨⟨⟨?_, ?_, ?_, ?_⟩, ?_, ?_, ?_, ?_, ?_⟩, ?_⟩
    all_goals simp [World.new, World.Tidy]
  have hs : Released c.state := sound_release.inv hinit (fun _ hs => hs.1) h ho
  exact ⟨hs.stopped (hs.base.closing_of_detached ha), hs.begun (hs.ended ha)⟩

/-- **No watcher outlives its transport.** In every run of a stream transport
and of a datagram transport in which no writer is registered too late or left
behind, a transport that has been torn down has neither a reader nor a writer
in the registry. -/
theorem no_watcher_outlives (c : Config Transport.World Transport.UserCall Nat Exc Query Reply)
    (d : Config World UserCall Unit Exc Query Reply) :
    (Reach Transport.transport Transport.cleanExit
        (fun s => ∃ kind kernel, s = Transport.World.new kind kernel) c →
      c.Outside → c.state.attached = false → c.state.reader = none ∧ c.state.writer = none) ∧
    (Reach transport cleanExit
        (fun s => ∃ address peername kernel, s = World.new address peername kernel) d →
      d.Outside → d.state.attached = false → d.state.reader = none ∧ d.state.writer = none) :=
  ⟨Transport.stream_released, datagram_released⟩

/-- Each transport is closed with something in its buffer, and torn down by
the writer. -/
theorem no_watcher_outlives_example :
    (∃ c : Config Transport.World Transport.UserCall Nat Exc Query Reply,
      c.state.attached = false ∧ c.state.sent = [1, 2] ∧
        c.state.reader = none ∧ c.state.writer = none) ∧
    ∃ d : Config World UserCall Unit Exc Query Reply,
      d.state.attached = false ∧ d.state.sent = [([7], someone)] ∧
        d.state.reader = none ∧ d.state.writer = none := by
  have hstream : Reach Transport.transport Transport.cleanExit
      (fun s => ∃ kind kernel, s = Transport.World.new kind kernel)
      ⟨.new .plain ⟨[], [], none, false⟩, none, []⟩ := .start ⟨_, ⟨_, _, rfl⟩, rfl⟩
  obtain ⟨c, hc, hcend⟩ := hstream.exists_of_replay [Transport.connect,
    Move.andRun (.call (.write [1, 2])) 3, Move.andRun (.answer (.done 1)) 2,
    Move.andRun (.answer (.done 0)) 4, Move.andRun (.call .close) 8, [.env .fireWriter],
    Move.andRun (.call .popIo) 6, Move.andRun (.answer (.done 1)) 13,
    Move.andRun (.ret (.ok 0)) 4].flatten
    (fun c => c.code.isNone && (!c.state.attached && c.state.sent = [1, 2])) (by decide +kernel)
  have hdatagram : Reach transport cleanExit
      (fun s => ∃ address peername kernel, s = World.new address peername kernel)
      ⟨.new none false ⟨[], [], none, false⟩, none, []⟩ := .start ⟨_, ⟨_, _, _, rfl⟩, rfl⟩
  obtain ⟨d, hd, hdend⟩ := hdatagram.exists_of_replay [connect,
    Move.andRun (.call (.sendto (.ofBytes [7]) someone)) 2, Move.andRun (.answer .wouldBlock) 1,
    Move.andRun (.answer (.done 0)) 4, Move.andRun (.call .close) 7, [.env .fireWriter],
    Move.andRun (.call .popIo) 7, Move.andRun (.answer (.done 1)) 11,
    Move.andRun (.ret (.ok ())) 3].flatten
    (fun d => d.code.isNone && (!d.state.attached && d.state.sent = [([7], someone)]))
    (by decide +kernel)
  simp only [Bool.and_eq_true, Option.isNone_iff_eq_none, decide_eq_true_eq,
    Bool.not_eq_true'] at hcend hdend
  obtain ⟨hnone, hnone'⟩ := no_watcher_outlives c d
  exact ⟨⟨c, hcend.2.1, hcend.2.2, hnone hc hcend.1 hcend.2.1⟩, d, hdend.2.1, hdend.2.2,
    hnone' hd hdend.1 hdend.2.1⟩

/-- An unconnected transport is closed, which schedules the teardown, and then
asked to send; the kernel would block, and a writer is registered. The
teardown leaves it there. -/
theorem writer_outlives : ¬∀ c : Config World UserCall Unit Exc Query Reply,
    Reach transport anyCall
      (fun s => ∃ address peername kernel, s = World.new address peername kernel) c →
    c.Outside → c.state.attached = false → c.state.reader = none ∧ c.state.writer = none := by
  intro hall
  have hstart : Reach transport anyCall
      (fun s => ∃ address peername kernel, s = World.new address peername kernel)
      ⟨.new none false ⟨[], [], none, false⟩, none, []⟩ := .start ⟨_, ⟨_, _, _, rfl⟩, rfl⟩
  obtain ⟨c, hrun, hend⟩ := hstart.exists_of_replay [connect, Move.andRun (.call .close) 12,
    Move.andRun (.call (.sendto (.ofBytes [7]) (some (.addr (.inet4 0x7f000001#32 9#16))))) 2,
    Move.andRun (.answer .wouldBlock) 1, Move.andRun (.answer (.done 0)) 4,
    Move.andRun (.call .popReady) 7, Move.andRun (.ret (.ok ())) 3].flatten
    (fun c => c.code.isNone && (!c.state.attached && c.state.writer.isSome)) (by decide +kernel)
  simp only [Bool.and_eq_true, Option.isNone_iff_eq_none, Bool.not_eq_true'] at hend
  have hnone := (hall c hrun hend.1 hend.2.1).2
  rw [hnone] at hend
  exact absurd hend.2.2 (by simp)

end Tokioop.Datagram
