import Tokioop.Datagram.Reading
import Tokioop.Transport.Grammar

/-!
The order in which a datagram transport calls its protocol. As for streams, a
protocol that is handed something has been told of its connection and not of
the loss of it, and the transport is reading. Nothing that `connection_lost`
can call tears the transport down a second time while the first is going on.
-/

namespace Tokioop.Datagram

open Fd Kit Kit.Prog
open Transport (Exc Query Reply Job IoItem)

namespace World

/-- `connection_lost` has been called and the teardown is not over. -/
def losing (s : World) : Bool := decide (s.log.countP UserCall.isLost ≠ 0) && s.protocol

/-- A fatal error has been met and the transport is not closing yet. -/
def failing (s : World) : Bool := s.fatal && !s.closing

/-- The calls made so far are in order, and none was untimely. -/
def Wellspoken (s : World) : Prop :=
  Orderly UserCall.isMade UserCall.isRead UserCall.isLost s.log ∧ s.untimely = []

end World

/-! ### The invariant -/

structure Spoken (s : World) : Prop where
  base : Base s
  orderly : Orderly UserCall.isMade UserCall.isRead UserCall.isLost s.log
  timely : s.untimely = []
  detached : s.attached = false → s.protocol = false
  closed : s.log.countP UserCall.isLost ≠ 0 → s.closing = true
  made : .connectionMade ∈ s.ready ∨ .connectionMade ∈ s.log
  early : .connectionMade ∈ s.ready → s.replay = []

def spokenContract : TransportContract where
  Inv := Spoken
  Rely s t := (s.closing = true → t.closing = true) ∧ (s.losing = false → t.losing = false) ∧
    (s.failing = false → t.failing = false)
  Ret _ _ _ := True
  Answer _ _ _ := True
  refl _ := ⟨id, id, id⟩
  trans h h' := ⟨h'.1 ∘ h.1, h'.2.1 ∘ h.2.1, h'.2.2 ∘ h.2.2⟩

abbrev StaysSpoken (s t : World) : Prop := Spoken t ∧ spokenContract.Rely s t

theorem failing_of_closing {s : World} (hc : s.closing = true) : s.failing = false := by
  simp [World.failing, hc]

theorem rely_spoken {s s' : World}
    (hlog : s'.log.countP UserCall.isLost = s.log.countP UserCall.isLost)
    (hp : s'.protocol = s.protocol) (hfatal : s'.fatal = s.fatal)
    (hc : s.closing = true → s'.closing = true) : spokenContract.Rely s s' := by
  refine ⟨hc, fun hl => ?_, fun hf => ?_⟩
  · simpa [World.losing, hlog, hp] using hl
  · simp only [World.failing, hfatal, Bool.and_eq_false_iff, Bool.not_eq_false'] at hf ⊢
    exact hf.imp_right hc

/-- A step that calls nobody, hands nothing over and tears nothing down. -/
structure Silent (s s' : World) : Prop where
  base : Base s'
  log : s'.log = s.log
  untimely : s'.untimely = s.untimely
  fatal : s'.fatal = s.fatal
  protocol : s'.protocol = s.protocol
  attached : s'.attached = s.attached
  closing : s.closing = true → s'.closing = true
  replay : s'.replay = s.replay
  ready : .connectionMade ∈ s'.ready ↔ .connectionMade ∈ s.ready

theorem Silent.refl {s : World} (hb : Base s) : Silent s s :=
  ⟨hb, rfl, rfl, rfl, rfl, rfl, id, rfl, Iff.rfl⟩

theorem Spoken.silent {s s' : World} (h : Spoken s) (hq : Silent s s') : StaysSpoken s s' := by
  refine ⟨⟨hq.base, ?_, ?_, ?_, ?_, ?_, ?_⟩, rely_spoken (by rw [hq.log]) hq.protocol hq.fatal
    hq.closing⟩
  · rw [hq.log]
    exact h.orderly
  · rw [hq.untimely, h.timely]
  · rw [hq.attached, hq.protocol]
    exact h.detached
  · rw [hq.log]
    exact fun hn => hq.closing (h.closed hn)
  · rw [hq.ready, hq.log]
    exact h.made
  · rw [hq.ready, hq.replay]
    exact h.early

/-- Steps that leave alone what `Base` speaks of as well. -/
theorem Spoken.still {s s' : World} (h : Spoken s)
    (heq : s' = { s with
      buffer := s'.buffer, bufferSize := s'.bufferSize, paused := s'.paused, reader := s'.reader
      writer := s'.writer, nextSlot := s'.nextSlot, protocolPaused := s'.protocolPaused
      highWater := s'.highWater, lowWater := s'.lowWater, sent := s'.sent }) :
    StaysSpoken s s' := by
  have hb := h.base
  rw [heq]
  exact h.silent { Silent.refl hb with base := ⟨hb.lost, hb.attached, hb.protocol, hb.jobs⟩ }

theorem Spoken.say {s : World} (e : UserCall) (h : Spoken s) (he : e.isRead = false)
    (hl : e.isLost = false) : StaysSpoken s (s.logged e) := by
  have hb := h.base
  have hcount : (s.log ++ [e]).countP UserCall.isLost = s.log.countP UserCall.isLost := by
    simp [List.countP_append, hl]
  refine ⟨⟨⟨hb.lost, hb.attached, hb.protocol, hb.jobs⟩, h.orderly.append ?_ ?_, ?_, h.detached,
    fun hn => h.closed ?_, h.made.imp_right (List.mem_append_left _), h.early⟩,
    rely_spoken hcount rfl rfl id⟩
  · simpa using he
  · rw [hcount]
    exact h.orderly.once
  · simpa [World.logged, he] using h.timely
  · rw [← hcount]
    exact hn

theorem speaks_spoken : Speaks spokenContract where
  base h := h.base
  tune h ht _ := h.still (by rw [ht])
  say e h he hl := h.say e he hl

/-! ### Closing -/

/-- `_force_close` leaves a closing transport, however it ends. -/
theorem spoken_forceClose (exc : Option Exc) {s : World} (h : Spoken s) :
    (forceClose exc).wp spokenContract (fun _ t => StaysSpoken s t ∧ t.closing = true) s := by
  have hb := h.base
  refine wp_forceClose exc hb (fun hl => ?_) (fun _ ha => ?_) fun _ ha => ?_
  · exact ⟨⟨h, spokenContract.refl s⟩, hb.lost hl⟩
  · refine ⟨h.silent { Silent.refl hb with
      base := .of_closing rfl hb.protocol, closing := fun _ => rfl, ready := ?_ }, rfl⟩
    simp [World.forceClosed]
  · have hc := hb.closing_of_detached ha
    split
    · exact ⟨h.silent { Silent.refl hb with base := .of_closing hc hb.protocol }, hc⟩
    · exact ⟨h.silent { Silent.refl hb with base := .of_closing hc hb.protocol }, hc⟩

theorem spoken_fatalError (exc : Exc) (message : String) :
    Keeps spokenContract (fatalError exc message) := by
  intro s h
  have hb := h.base
  have hfail : Spoken { s with fatal := true } :=
    ⟨⟨hb.lost, hb.attached, hb.protocol, hb.jobs⟩, h.orderly, h.timely, h.detached, h.closed,
      h.made, h.early⟩
  have hend : ∀ t, Spoken t → spokenContract.Rely { s with fatal := true } t → t.closing = true →
      StaysSpoken s t := fun t ht hr hc =>
    ⟨ht, fun _ => hc, hr.2.1, fun _ => failing_of_closing hc⟩
  refine wp_fatalError_closing speaks_spoken hfail (fun t ht htr => ?_) fun ha => ?_
  · refine wp_mono _ (fun _ u hu => ?_) (spoken_forceClose (some exc) ht)
    exact hend u hu.1.1 (spokenContract.trans htr hu.1.2) hu.2
  · exact hend _ hfail (spokenContract.refl _) (hb.closing_of_detached ha)

theorem spoken_close : Keeps spokenContract close := by
  intro s h
  have hb := h.base
  refine wp_close hb (fun _ => ⟨h, spokenContract.refl s⟩) fun _ => ?_
  unfold World.closed
  split
  · refine h.silent { Silent.refl hb with
      base := .of_closing rfl hb.protocol, closing := fun _ => rfl, ready := ?_ }
    simp
  · exact h.silent { Silent.refl hb with
      base := .of_closing rfl hb.protocol, closing := fun _ => rfl }

/-! ### The teardown -/

theorem Spoken.severed {s t : World} (ht : Spoken t) (hc : t.closing = true) :
    StaysSpoken s t.severed := by
  unfold World.severed
  split
  · have hno : World.losing { t with attached := false, protocol := false } = false := by
      simp [World.losing]
    exact ⟨⟨.of_closing hc (fun h => by cases h), ht.orderly, ht.timely, fun _ => rfl, ht.closed,
      ht.made, ht.early⟩, fun _ => hc, fun _ => hno, fun _ => failing_of_closing hc⟩
  · rename_i ha
    have hno : t.losing = false := by simp [World.losing, ht.detached (Bool.eq_false_iff.mpr ha)]
    exact ⟨ht, fun _ => hc, fun _ => hno, fun _ => failing_of_closing hc⟩

theorem spoken_callConnectionLost (exc : Option Exc) {s : World} (h : Spoken s)
    (hc : s.closing = true) (hcalm : s.losing = false) :
    (callConnectionLost exc).wp spokenContract (fun _ t => StaysSpoken s t) s := by
  have hb := h.base
  refine wp_callConnectionLost exc (fun hp => ?_) (fun t ht htr => ht.severed (htr.1 hc)) ?_
  · have hnone : s.log.countP UserCall.isLost = 0 := by simpa [World.losing, hp] using hcalm
    refine ⟨.of_closing hc hb.protocol, h.orderly.append ?_ ?_, ?_, h.detached, fun _ => hc,
      h.made.imp_right (List.mem_append_left _), h.early⟩
    · simp [UserCall.isRead]
    · show (s.log ++ [UserCall.connectionLost exc]).countP UserCall.isLost ≤ 1
      simp [List.countP_append, hnone, UserCall.isLost]
    · simpa [World.logged, World.tearing, UserCall.isRead] using h.timely
  · have htear : Spoken s.tearing :=
      ⟨.of_closing hc hb.protocol, h.orderly, h.timely, h.detached, h.closed, h.made, h.early⟩
    exact htear.severed hc

/-! ### Reading -/

/-- A read-side call finds the transport reading, the protocol introduced and
no loss spoken of. -/
theorem Spoken.hand {s u : World} {item : ReplayItem} (h : Spoken s)
    (heq : u = { s with replay := u.replay, io := u.io }) (hreading : s.isReading = true)
    (hfit : s.failing = false) (hmade : .connectionMade ∉ s.ready) :
    StaysSpoken s (u.logged item.call) := by
  obtain ⟨hc, hp⟩ := s.isReading_iff.mp hreading
  have hb := h.base
  have hfatal : s.fatal = false := by simpa [World.failing, hc] using hfit
  have hsaid := h.made.resolve_left hmade
  have hnone : s.log.countP UserCall.isLost = 0 := by
    by_contra hn
    exact absurd (hc.symm.trans (h.closed hn)) Bool.false_ne_true
  have hl : item.call.isLost = false := by cases item <;> rfl
  have hcount : (s.log ++ [item.call]).countP UserCall.isLost = s.log.countP UserCall.isLost := by
    simp [List.countP_append, hl]
  rw [heq]
  refine ⟨⟨⟨hb.lost, hb.attached, hb.protocol, hb.jobs⟩, ?_, ?_, h.detached, fun hn => h.closed ?_,
    .inr (List.mem_append_left _ hsaid), fun hm => absurd hm hmade⟩, rely_spoken hcount rfl rfl id⟩
  · exact h.orderly.hand ⟨_, hsaid, rfl⟩ hnone hl
  · simp [World.logged, hc, hp, hfatal, h.timely]
  · rw [← hcount]
    exact hn

theorem reads_spoken : Reads spokenContract fun s => s.failing = false where
  toSpeaks := speaks_spoken
  pause h := h.still rfl
  watch _ h _ := h.still rfl
  fit h := h.2.2
  hand {s item rest} h hreading hfit hreplay := by
    refine h.hand rfl hreading hfit fun hm => ?_
    rw [h.early hm] at hreplay
    cases hreplay
  fatalError exc message h _ := spoken_fatalError exc message _ h

/-! ### Writing -/

theorem spoken_enqueue (d : Outgoing) (len : Nat) : Keeps spokenContract (enqueue d len) :=
  keeps_bind (keeps_modify fun _ h => Spoken.still h rfl) fun _ =>
    keeps_maybePauseProtocol speaks_spoken

theorem spoken_sendto (data : Payload) (addr : Option Target) :
    Keeps spokenContract (sendto data addr) := by
  intro s h
  have hb := h.base
  have hstay : StaysSpoken s s := ⟨h, spokenContract.refl s⟩
  refine wp_sendto hstay (fun hl => ?_) (fun _ => spoken_enqueue _ _ s h)
    (fun e _ _ => spoken_fatalError e _ s h) (fun e _ _ => ?_) (fun _ _ => h.still rfl)
    fun _ _ => ?_
  · exact h.silent { Silent.refl hb with base := .of_closing (hb.lost hl) hb.protocol }
  · exact keeps_callProtocol speaks_spoken rfl rfl s h
  · rw [wp_bind]
    refine wp_addWriter (fun _ => hstay) (fun _ _ _ => hstay) fun _ _ _ _ => ?_
    have hwriting : StaysSpoken s s.writing := h.still rfl
    exact (spoken_enqueue _ _).after hwriting.1 hwriting.2

theorem spoken_sendtoReady {s : World} (h : Spoken s) (hcalm : s.losing = false) :
    sendtoReady.wp spokenContract (fun _ t => StaysSpoken s t) s := by
  have hgo : ∀ u, Sending s u → StaysSpoken s u := fun u hu => h.still (by rw [hu.eq])
  have hnone : ∀ t, StaysSpoken s t → StaysSpoken s { t with writer := none } := by
    intro t ht
    have hstep : StaysSpoken t { t with writer := none } := ht.1.still rfl
    exact ⟨hstep.1, spokenContract.trans ht.2 hstep.2⟩
  refine wp_sendtoReady (fun u hu => ?_) (fun u e hu _ => ?_) fun u d e hu _ _ => ?_
  · obtain ⟨hinv, hrely⟩ := hgo u hu
    refine wp_afterSending (wp_mono _ (fun r t ht => ?_)
        ((keeps_maybeResumeProtocol speaks_spoken).after hinv hrely))
      (fun t (ht : StaysSpoken s t) => ht) (fun t (ht : StaysSpoken s t) _ => ht)
      (fun t ht _ _ => ht) (fun t ht _ _ hc => ?_) fun t ht _ _ _ => hnone t ht
    · cases r with
      | ok a => exact ht
      | error e => exact ht
    obtain ⟨hv, hvr⟩ := hnone t ht
    exact wp_since hvr (spoken_callConnectionLost none hv hc (hvr.2.1 hcalm))
  · exact (keeps_callProtocol speaks_spoken rfl rfl).after (hgo u hu).1 (hgo u hu).2
  · exact (spoken_fatalError e _).after (hgo u hu).1 (hgo u hu).2

/-! ### Runs -/

theorem spoken_popReady {s : World} (h : Spoken s) (hcalm : s.losing = false) :
    popReady.wp spokenContract (fun _ t => StaysSpoken s t) s := by
  have hb := h.base
  have hbase : ∀ j rest, s.ready = j :: rest → Base { s with ready := rest } := by
    intro j rest hready
    refine ⟨hb.lost, hb.attached, hb.protocol, fun exc hm => hb.jobs exc ?_⟩
    rw [hready]
    exact List.mem_cons_of_mem _ hm
  have hpop : ∀ j rest, s.ready = j :: rest → j ≠ .connectionMade →
      StaysSpoken s { s with ready := rest } := by
    intro j rest hready hj
    refine h.silent { Silent.refl hb with base := hbase j rest hready, ready := ?_ }
    rw [hready]
    simp [hj.symm]
  refine wp_popReady reads_spoken h (fun rest hready => ?_)
    (fun rest hready => hpop _ rest hready (by simp)) fun exc rest hready => ?_
  · -- Taking the job and making the call is one step.
    have hsay := h.say .connectionMade rfl rfl
    have hb' := hbase _ rest hready
    refine ⟨⟨⟨hb'.lost, hb'.attached, hb'.protocol, hb'.jobs⟩, hsay.1.orderly, hsay.1.timely,
      h.detached, hsay.1.closed, .inr (by simp [World.logged]), fun hm => h.early ?_⟩, hsay.2⟩
    rw [hready]
    exact List.mem_cons_of_mem _ hm
  · obtain ⟨ht, htr⟩ := hpop _ rest hready (by simp)
    have hc : s.closing = true := hb.jobs exc (by rw [hready]; exact List.mem_cons_self)
    exact wp_since htr (spoken_callConnectionLost exc ht hc (htr.2.1 hcalm))

/-- The batch has run its ready callbacks before it takes completions. -/
theorem spoken_popIo {s : World} (h : Spoken s) (hcalm : s.losing = false)
    (hfit : s.failing = false) (hio : s.io = [] ∨ .connectionMade ∉ s.ready) :
    popIo.wp spokenContract (fun _ t => StaysSpoken s t) s := by
  have hb := h.base
  have hmade : ∀ i rest, s.io = i :: rest → .connectionMade ∉ s.ready := by
    intro i rest hcons
    refine hio.resolve_left fun hnil => ?_
    rw [hnil] at hcons
    cases hcons
  have htake : ∀ i rest replay, s.io = i :: rest →
      StaysSpoken s { s with io := rest, replay := replay } := fun i rest _ hcons =>
    ⟨⟨⟨hb.lost, hb.attached, hb.protocol, hb.jobs⟩, h.orderly, h.timely, h.detached, h.closed,
      h.made, fun hm => absurd hm (hmade i rest hcons)⟩, rely_spoken rfl rfl rfl id⟩
  refine wp_popIo reads_spoken h hfit (fun i rest hcons _ => htake i rest s.replay hcons)
    (fun i rest item hcons _ _ => htake i rest (s.replay ++ [item]) hcons)
    (fun i rest item hcons _ hreading => ?_) fun slot rest hcons _ => ?_
  · exact h.hand rfl hreading hfit (hmade i rest hcons)
  · obtain ⟨ht, htr⟩ := htake _ rest s.replay hcons
    exact wp_since htr (spoken_sendtoReady ht (htr.2.1 hcalm))

/-- The protocol is fixed, and a batch takes completions once it has run its
ready callbacks. The exception handler of a fatal error does not resume
reading. -/
def spokenPolicy : TransportPolicy where
  call top m s := m ≠ .setProtocol ∧ (top = false → m.ofBatch = false) ∧
    (m = .popIo → s.io = [] ∨ .connectionMade ∉ s.ready) ∧
    (m = .resumeReading → s.failing = false)
  env top h _ := top = false → h.ofKernel = true
  ret _ _ _ := True
  answer _ _ _ := True

instance (top : Bool) (m : Method) (s : World) : Decidable (spokenPolicy.call top m s) :=
  inferInstanceAs (Decidable (_ ∧ (_ → _) ∧ (_ → _) ∧ (_ → _)))

instance (top : Bool) (h : Env) (s : World) : Decidable (spokenPolicy.env top h s) :=
  inferInstanceAs (Decidable (_ → _))

instance (e : UserCall) (r : Except Exc Unit) (s : World) : Decidable (spokenPolicy.ret e r s) :=
  inferInstanceAs (Decidable True)

instance (q : Query) (a : Reply) (s : World) : Decidable (spokenPolicy.answer q a s) :=
  inferInstanceAs (Decidable True)

theorem spoken_body {m : Method} {s : World} (h : Spoken s) (hset : m ≠ .setProtocol)
    (hbatch : m.ofBatch = true → s.losing = false ∧ s.failing = false)
    (hio : m = .popIo → s.io = [] ∨ .connectionMade ∉ s.ready)
    (hresume : m = .resumeReading → s.failing = false) :
    m.body.wp spokenContract (fun _ t => StaysSpoken s t) s := by
  match m, hset, hbatch, hio, hresume with
  | .pauseReading, _, _, _, _ => exact keeps_pauseReading reads_spoken s h
  | .resumeReading, _, _, _, hresume =>
      exact keeps_resumeReading reads_spoken h (fun _ => hresume rfl) (h.still rfl)
  | .registerReader, _, _, _, _ => exact keeps_registerReader reads_spoken s h
  | .close, _, _, _, _ => exact spoken_close s h
  | .abort, _, _, _, _ => exact wp_mono _ (fun _ _ ht => ht.1) (spoken_forceClose none h)
  | .sendto data addr, _, _, _, _ => exact spoken_sendto data addr s h
  | .setWriteBufferLimits high low, _, _, _, _ =>
      exact keeps_setWriteBufferLimits speaks_spoken high low s h
  | .popReady, _, hbatch, _, _ => exact spoken_popReady h (hbatch rfl).1
  | .popIo, _, hbatch, hio, _ => exact spoken_popIo h (hbatch rfl).1 (hbatch rfl).2 (hio rfl)

theorem spoken_env {s s' : World} {e : Env} (h : Spoken s) (he : s.env e = some s') :
    StaysSpoken s s' := by
  have hb := h.base
  rw [(env_eq he).1]
  exact h.silent { Silent.refl hb with base := ⟨hb.lost, hb.attached, hb.protocol, hb.jobs⟩ }

theorem sound_spoken : Sound transport spokenPolicy spokenContract
    fun s => Spoken s ∧ s.losing = false ∧ s.failing = false where
  ret _ := trivial
  answer _ := trivial
  call_top m s hs hm := by
    obtain ⟨h, hcalm, hfit⟩ := hs
    obtain ⟨hset, -, hio, hresume⟩ := hm
    have hbody := spoken_body h hset (fun _ => ⟨hcalm, hfit⟩) hio hresume
    exact wp_mono _ (fun _ t ht => ⟨ht.1, ht.2.2.1 hcalm, ht.2.2.2 hfit⟩) hbody
  call_inner m s hs hm := by
    obtain ⟨hset, hbatch, hio, hresume⟩ := hm
    refine spoken_body hs hset (fun hb => ?_) hio hresume
    exact absurd ((hbatch rfl).symm.trans hb) Bool.false_ne_true
  env_top e s s' hs _ he := by
    obtain ⟨h, hr⟩ := spoken_env hs.1 he
    exact ⟨h, hr.2.1 hs.2.1, hr.2.2 hs.2.2⟩
  env_inner e s s' hs _ he := spoken_env hs he

/-- In every run of a datagram transport with a fixed protocol, the calls of
the protocol are in order and timely. -/
theorem datagram_wellspoken {c : Config World UserCall Unit Exc Query Reply}
    (h : Reach transport spokenPolicy
      (fun s => ∃ address peername kernel, s = World.new address peername kernel) c)
    (ho : c.Outside) : c.state.Wellspoken := by
  have hinit : ∀ s, (∃ address peername kernel, s = World.new address peername kernel) →
      Spoken s ∧ s.losing = false ∧ s.failing = false := by
    rintro s ⟨address, peername, kernel, rfl⟩
    refine ⟨⟨⟨?_, ?_, ?_, ?_⟩, .nil, ?_, ?_, ?_, ?_, ?_⟩, ?_, ?_⟩ <;>
      simp [World.new, World.losing, World.failing]
  have hspoken : Spoken c.state := sound_spoken.inv hinit (fun _ hs => hs.1) h ho
  exact ⟨hspoken.orderly, hspoken.timely⟩

/-- **The order of the calls.** In every run of a drain-mode stream transport
and of a datagram transport with a fixed protocol, whenever control is outside
the transport: `connection_made` was called before every call that handed
something over, no such call was made on a transport that was paused or
closing or had met a fatal error, and `connection_lost` was called at most
once, after all of them. -/
theorem protocol_wellspoken :
    (∀ c : Config Transport.World Transport.UserCall Nat Exc Query Reply,
      Reach Transport.transport Transport.spokenPolicy
        (fun s => ∃ kernel, s = Transport.World.new .plain kernel) c →
      c.Outside → c.state.Wellspoken) ∧
    ∀ c : Config World UserCall Unit Exc Query Reply,
      Reach transport spokenPolicy
        (fun s => ∃ address peername kernel, s = World.new address peername kernel) c →
      c.Outside → c.state.Wellspoken :=
  ⟨fun _ => Transport.stream_wellspoken, fun _ => datagram_wellspoken⟩

/-- Each transport is handed a payload, pauses, is handed another when it
resumes, is closed by the protocol meanwhile, and loses its connection. -/
theorem protocol_wellspoken_example :
    (∃ c : Config Transport.World Transport.UserCall Nat Exc Query Reply,
      c.state.log =
        [.connectionMade, .dataReceived [1], .dataReceived [2], .connectionLost none] ∧
      c.state.Wellspoken) ∧
    ∃ c : Config World UserCall Unit Exc Query Reply,
      c.state.log = [.connectionMade, .datagramReceived [1] .unnamed, .errorReceived 111 .read,
        .connectionLost none] ∧
      c.state.Wellspoken := by
  constructor
  · have hstart : Reach Transport.transport Transport.spokenPolicy
        (fun s => ∃ kernel, s = Transport.World.new .plain kernel)
        ⟨.new .plain ⟨[], [], none, false⟩, none, []⟩ := .start ⟨_, ⟨_, rfl⟩, rfl⟩
    obtain ⟨c, hrun, hend⟩ := hstart.exists_of_replay [Transport.connect,
      [.env (.arriveBytes [1, 2]), .env (.drainRun 0), .env (.drainRun 1), .env (.drainRun 1)],
      Move.andRun (.call .popIo) 6, Move.andRun (.call .pauseReading) 4,
      Move.andRun (.ret (.ok 0)) 1, Move.andRun (.call .popIo) 5,
      Move.andRun (.call .resumeReading) 8, Move.andRun (.call .close) 13,
      Move.andRun (.ret (.ok 0)) 4, Move.andRun (.call .popReady) 6,
      Move.andRun (.ret (.ok 0)) 4].flatten
      (fun c => c.code.isNone && c.state.log =
        [.connectionMade, .dataReceived [1], .dataReceived [2], .connectionLost none])
      (by decide +kernel)
    simp only [Bool.and_eq_true, Option.isNone_iff_eq_none, decide_eq_true_eq] at hend
    exact ⟨c, hend.2, protocol_wellspoken.1 c hrun hend.1⟩
  · have hstart : Reach transport spokenPolicy
        (fun s => ∃ address peername kernel, s = World.new address peername kernel)
        ⟨.new none false ⟨[], [], none, false⟩, none, []⟩ := .start ⟨_, ⟨_, _, _, rfl⟩, rfl⟩
    obtain ⟨c, hrun, hend⟩ := hstart.exists_of_replay [connect,
      [.env (.arriveDatagram ⟨[1], .unnamed⟩), .env .drainRun, .env .drainRun,
        .env (.arriveError 111), .env .drainRun],
      Move.andRun (.call .popIo) 6, Move.andRun (.call .pauseReading) 3,
      Move.andRun (.ret (.ok ())) 1, Move.andRun (.call .popIo) 5,
      Move.andRun (.call .resumeReading) 8, Move.andRun (.call .abort) 10,
      Move.andRun (.ret (.ok ())) 4, Move.andRun (.call .popReady) 7,
      Move.andRun (.ret (.ok ())) 3].flatten
      (fun c => c.code.isNone && c.state.log = [.connectionMade, .datagramReceived [1] .unnamed,
        .errorReceived 111 .read, .connectionLost none])
      (by decide +kernel)
    simp only [Bool.and_eq_true, Option.isNone_iff_eq_none, decide_eq_true_eq] at hend
    exact ⟨c, hend.2, protocol_wellspoken.2 c hrun hend.1⟩

end Tokioop.Datagram
