import Tokioop.Kit.Calls
import Tokioop.Transport.Replay

/-!
The order in which a drain-mode transport calls its protocol.

A protocol that is handed data has been told of its connection, by the job
that stands first in the queue of the loop; it has not been told of the loss
of it, and the transport is reading. The two places at which this could go
wrong are code that runs inside a teardown, between the call of
`connection_lost` and the moment the transport lets go of its protocol, and
the exception handler that a fatal error calls before the transport closes.
-/

namespace Tokioop.Transport

open Fd Kit Kit.Prog

def UserCall.isMade : UserCall → Bool
  | .connectionMade => true
  | _ => false

/-- `data_received` and `eof_received`. -/
def UserCall.isRead (e : UserCall) : Bool := !e.quiet

namespace World

/-- `connection_lost` has been called and the teardown is not over. -/
def losing (s : World) : Bool := decide (s.log.countP UserCall.isLost ≠ 0) && s.protocol.isSome

/-- A fatal error has been met and the transport is not closing yet. -/
def failing (s : World) : Bool := s.fatal && !s.closing

/-- The calls made so far are in order, and none was untimely. -/
def Wellspoken (s : World) : Prop :=
  Orderly UserCall.isMade UserCall.isRead UserCall.isLost s.log ∧ s.untimely = []

end World

/-! ### The invariant -/

structure Spoken (s : World) : Prop where
  base : Base s
  orderly : Orderly UserCall.isMade UserCall.isRead UserCall.isLost s.log
  timely : s.untimely = []
  mode : s.drainTcp = true
  protocol : s.closing = false → s.protocol = some .plain
  detached : s.attached = false → s.protocol = none
  reader : ∀ slot, s.reader ≠ some (.callback slot)
  closed : s.log.countP UserCall.isLost ≠ 0 → s.closing = true
  made : .connectionMade ∈ s.ready ∨ .connectionMade ∈ s.log
  early : .connectionMade ∈ s.ready → s.replay = []

theorem Spoken.unlost {s : World} (h : Spoken s) (hc : s.closing = false) :
    s.log.countP UserCall.isLost = 0 := by
  by_contra hn
  rw [h.closed hn] at hc
  cases hc

def spokenContract : Contract World UserCall Nat Exc Query Reply where
  Inv := Spoken
  Rely s t := (s.closing = true → t.closing = true) ∧ (s.losing = false → t.losing = false) ∧
    (s.failing = false → t.failing = false)
  Ret _ _ _ := True
  Answer _ _ _ := True
  refl _ := ⟨id, id, id⟩
  trans h h' := ⟨h'.1 ∘ h.1, h'.2.1 ∘ h.2.1, h'.2.2 ∘ h.2.2⟩

theorem failing_of_closing {s : World} (hc : s.closing = true) : s.failing = false := by
  simp [World.failing, hc]

/-- Steps that neither call out nor change what the contract speaks of. -/
theorem rely_spoken {s s' : World}
    (hlog : s'.log.countP UserCall.isLost = s.log.countP UserCall.isLost)
    (hp : s'.protocol = s.protocol) (hfatal : s'.fatal = s.fatal)
    (hc : s.closing = true → s'.closing = true) : spokenContract.Rely s s' := by
  refine ⟨hc, fun hl => ?_, fun hf => ?_⟩
  · simpa [World.losing, hlog, hp] using hl
  · simp only [World.failing, hfatal, Bool.and_eq_false_iff, Bool.not_eq_false'] at hf ⊢
    exact hf.imp_right hc

/-! ### Steps of no concern to reading -/

theorem spoken_silent {s s' : World} (h : Spoken s) (hq : Silent s s') : Spoken s' := by
  obtain ⟨new, hlog, hnew⟩ := hq.log
  have hspoken := hq.spoken
  refine ⟨hq.base, ?_, ?_, ?_, fun hc => ?_, fun ha => ?_, fun slot hr => ?_, fun hn => ?_, ?_,
    fun hm => ?_⟩
  · rw [hlog]
    refine h.orderly.append (fun e he => ?_) ?_
    · simp [UserCall.isRead, hnew e he]
    · rw [← hlog, hspoken]
      exact h.orderly.once
  · rw [hq.untimely, h.timely]
  · rw [hq.drainTcp, h.mode]
  · rw [hq.held.1]
    exact h.protocol (hq.wasOpen hc)
  · rw [hq.held.1]
    exact h.detached (hq.held.2.symm.trans ha)
  · rcases hq.reader with hsame | hnone
    · exact h.reader slot (hsame ▸ hr)
    · rw [hnone] at hr
      cases hr
  · rw [hspoken] at hn
    exact hq.closing (h.closed hn)
  · rcases h.made with hready | hsaid
    · exact hq.made hready
    · rw [hlog]
      exact .inr (List.mem_append_left _ hsaid)
  · rw [hq.replay]
    exact h.early (hq.late hm)

theorem spoken_lose {s : World} (exc : Option Exc) (h : Spoken s) (hc : s.closing = true)
    (hcalm : s.losing = false) (hp : s.protocol.isSome = true) :
    Spoken (s.tearing.logged (.connectionLost exc)) := by
  have hnone : s.log.countP UserCall.isLost = 0 := by simpa [World.losing, hp] using hcalm
  refine ⟨.of_closing hc, h.orderly.append ?_ ?_, ?_, h.mode, h.protocol, h.detached, h.reader,
    fun _ => hc, h.made.imp_right (List.mem_append_left _), h.early⟩
  · simp [UserCall.isRead, UserCall.quiet]
  · show (s.log ++ [UserCall.connectionLost exc]).countP UserCall.isLost ≤ 1
    simp [List.countP_append, hnone, UserCall.isLost]
  · simpa [World.logged, World.tearing, UserCall.quiet] using h.timely

theorem spoken_severed {s : World} (h : Spoken s) (hc : s.closing = true) : Spoken s.severed := by
  unfold World.severed
  split
  · refine ⟨.of_closing hc, h.orderly, h.timely, h.mode, fun hno => ?_, fun _ => rfl, h.reader,
      h.closed, h.made, h.early⟩
    rw [show _ = true from hc] at hno
    cases hno
  · exact h

theorem losing_severed {s : World} (h : Spoken s) : s.severed.losing = false := by
  unfold World.severed
  split
  · simp [World.losing]
  · rename_i ha
    simp [World.losing, h.detached (Bool.eq_false_iff.mpr ha)]

theorem closing_severed {s : World} : s.severed.closing = s.closing := by
  unfold World.severed
  split <;> rfl

theorem spoken_tearing {s : World} (h : Spoken s) (hc : s.closing = true) : Spoken s.tearing :=
  ⟨.of_closing hc, h.orderly, h.timely, h.mode, h.protocol, h.detached, h.reader, h.closed, h.made,
    h.early⟩

theorem rely_severed {s t : World} (ht : Spoken t) (hc : t.closing = true) :
    spokenContract.Rely s t.severed :=
  ⟨fun _ => closing_severed.trans hc, fun _ => losing_severed ht,
    fun _ => failing_of_closing (closing_severed.trans hc)⟩

theorem frames_spoken : Frames spokenContract fun s => s.losing = false where
  base h := h.base
  closing h := h.1
  calm h := h.2.1
  silent h hq := ⟨spoken_silent h hq, rely_spoken hq.spoken hq.held.1 hq.fatal hq.closing⟩
  fail h := ⟨⟨h.base.lost, h.base.attached, h.base.jobs⟩, h.orderly, h.timely, h.mode, h.protocol,
    h.detached, h.reader, h.closed, h.made, h.early⟩
  failed _ hr hc := ⟨fun _ => hc, hr.2.1, fun _ => failing_of_closing hc⟩
  lose exc h hc hcalm hp := spoken_lose exc h hc hcalm hp
  lost _ _ hc _ ht hr :=
    ⟨spoken_severed ht (hr.1 hc), rely_severed ht (hr.1 hc)⟩
  skip h hc _ :=
    ⟨spoken_severed (spoken_tearing h hc) hc, rely_severed (spoken_tearing h hc) hc⟩

/-! ### Reading -/

/-- A read-side call finds the transport reading, the protocol introduced and
no loss spoken of. -/
theorem spoken_hand {s u : World} {e : UserCall} (h : Spoken s)
    (heq : u = { s with replay := u.replay, io := u.io }) (hlost : e.isLost = false)
    (hreading : s.isReading = true) (hfit : s.failing = false) (hmade : .connectionMade ∉ s.ready) :
    Spoken (u.logged e) ∧ spokenContract.Rely s (u.logged e) := by
  obtain ⟨hc, hp⟩ := s.isReading_iff.mp hreading
  have hfatal : s.fatal = false := by simpa [World.failing, hc] using hfit
  have hsaid := h.made.resolve_left hmade
  rw [heq]
  refine ⟨⟨⟨h.base.lost, h.base.attached, h.base.jobs⟩, ?_, ?_, h.mode, h.protocol, h.detached,
    h.reader, ?_, .inr (List.mem_append_left _ hsaid), fun hm => absurd hm hmade⟩, ?_⟩
  · exact h.orderly.hand ⟨_, hsaid, rfl⟩ (h.unlost hc) hlost
  · simp [World.logged, hc, hp, hfatal, h.timely]
  · intro hn
    refine absurd ?_ hn
    show (s.log ++ [e]).countP UserCall.isLost = 0
    simp [List.countP_append, h.unlost hc, hlost]
  · refine rely_spoken ?_ rfl rfl id
    show (s.log ++ [e]).countP UserCall.isLost = _
    simp [List.countP_append, hlost]

theorem spoken_take {s u : World} (h : Spoken s)
    (heq : u = { s with replay := u.replay, io := u.io }) (hmade : .connectionMade ∉ s.ready) :
    Spoken u ∧ spokenContract.Rely s u := by
  rw [heq]
  exact ⟨⟨⟨h.base.lost, h.base.attached, h.base.jobs⟩, h.orderly, h.timely, h.mode, h.protocol,
    h.detached, h.reader, h.closed, h.made, fun hm => absurd hm hmade⟩, rely_spoken rfl rfl rfl id⟩

theorem Spoken.accepts {s u : World} {item : ReplayItem} (h : Spoken s)
    (heq : u = { s with replay := u.replay, io := u.io }) (hreading : s.isReading = true)
    (hfit : s.failing = false) (hmade : .connectionMade ∉ s.ready) :
    Accepts spokenContract s u item := by
  have hp : u.protocol = some .plain := by
    rw [heq]
    exact h.protocol (s.isReading_iff.mp hreading).1
  match item with
  | .stream [] => exact ⟨by rw [hp]; rfl, spoken_hand h heq rfl hreading hfit hmade⟩
  | .stream (b :: bs) => exact ⟨hp, spoken_hand h heq rfl hreading hfit hmade⟩
  | .error e => exact spoken_take h heq hmade

/-- Pausing, resuming and registering. -/
theorem spoken_mode {s : World} {paused : Bool} {reader : Option Reader} (h : Spoken s)
    (hr : ∀ slot, reader ≠ some (.callback slot)) :
    Spoken { s with paused := paused, reader := reader } ∧
      spokenContract.Rely s { s with paused := paused, reader := reader } :=
  ⟨⟨⟨h.base.lost, h.base.attached, h.base.jobs⟩, h.orderly, h.timely, h.mode, h.protocol,
    h.detached, hr, h.closed, h.made, h.early⟩, rely_spoken rfl rfl rfl id⟩

theorem reads_spoken :
    Reads spokenContract (fun s => s.losing = false) fun s => s.failing = false where
  toFrames := frames_spoken
  fit h := h.2.2
  fit_unpause h := h
  pause {s} h _ := by
    have hhalt : s.halted = { s with paused := true } := by
      simp [World.halted, h.mode]
    rw [hhalt]
    exact spoken_mode h h.reader
  unpause h _ _ := (spoken_mode h h.reader).1
  flushed _ hr _ := hr
  watch edge h _ _ _ := by
    rw [World.watched_drain h.mode]
    exact spoken_mode h fun slot hr => by simp at hr
  deliver {s item rest} h hreplay hreading hfit := by
    refine h.accepts rfl hreading hfit fun hm => ?_
    rw [h.early hm] at hreplay
    cases hreplay

/-- The batch has run its ready callbacks before it takes completions. -/
theorem Spoken.popIo {s : World} (h : Spoken s) (hcalm : s.losing = false)
    (hfit : s.failing = false) (hio : s.io = [] ∨ .connectionMade ∉ s.ready) :
    popIo.wp spokenContract (fun _ t => Spoken t ∧ spokenContract.Rely s t) s := by
  have hmade : ∀ i rest, s.io = i :: rest → .connectionMade ∉ s.ready := by
    intro i rest hcons
    refine hio.resolve_left fun hnil => ?_
    rw [hnil] at hcons
    cases hcons
  refine wp_popIo reads_spoken h hcalm ?_ ?_ ?_ ?_
  · intro i rest hcons _
    exact spoken_take h rfl (hmade i rest hcons)
  · intro i item rest hcons _ _ _
    exact spoken_take h rfl (hmade i rest hcons)
  · intro i item rest hcons _ hreading
    exact h.accepts rfl hreading hfit (hmade i rest hcons)
  · intro t slot ht hr
    exact absurd hr (ht.reader slot)

theorem spoken_env {s s' : World} {e : Env} (h : Spoken s) (he : s.env e = some s') :
    Spoken s' ∧ spokenContract.Rely s s' := by
  by_cases hrun : ∃ size, e = .drainRun size
  · obtain ⟨size, rfl⟩ := hrun
    obtain ⟨t, o, -, -, rfl⟩ := env_drainRun he
    exact ⟨⟨⟨h.base.lost, h.base.attached, h.base.jobs⟩, h.orderly, h.timely, h.mode, h.protocol,
      h.detached, fun slot hr => by simp [World.afterDrain] at hr, h.closed, h.made, h.early⟩,
      rely_spoken rfl rfl rfl id⟩
  · have hd := drift_of_env he fun size hh => hrun ⟨size, hh⟩
    have hreader : ∀ slot, s'.reader ≠ some (.callback slot) := fun slot hr =>
      h.reader slot (hd.callback slot hr)
    rw [hd.eq]
    exact ⟨⟨⟨h.base.lost, h.base.attached, h.base.jobs⟩, h.orderly, h.timely, h.mode, h.protocol,
      h.detached, hreader, h.closed, h.made, h.early⟩, rely_spoken rfl rfl rfl id⟩

/-! ### Runs -/

/-- The protocol is fixed, and a batch takes completions once it has run its
ready callbacks. The exception handler of a fatal error does not resume
reading; `connection_lost` does not call `writelines`. -/
def spokenPolicy : TransportPolicy where
  call top m s := fixedProtocol.call top m s ∧
    (m = .popIo → s.io = [] ∨ .connectionMade ∉ s.ready) ∧
    (m = .resumeReading → s.failing = false) ∧
    (m.tearsDown = true → s.losing = false)
  env := fixedProtocol.env
  ret _ _ _ := True
  answer _ _ _ := True

instance (top : Bool) (m : Method) (s : World) : Decidable (spokenPolicy.call top m s) :=
  inferInstanceAs (Decidable (_ ∧ (_ → _) ∧ (_ → _) ∧ (_ → _)))

instance (top : Bool) (h : Env) (s : World) : Decidable (spokenPolicy.env top h s) :=
  inferInstanceAs (Decidable (fixedProtocol.env top h s))

instance (e : UserCall) (r : Except Exc Nat) (s : World) : Decidable (spokenPolicy.ret e r s) :=
  inferInstanceAs (Decidable True)

instance (q : Query) (a : Reply) (s : World) : Decidable (spokenPolicy.answer q a s) :=
  inferInstanceAs (Decidable True)

theorem sound_spoken : Sound transport spokenPolicy spokenContract
    fun s => Spoken s ∧ s.losing = false ∧ s.failing = false where
  ret _ := trivial
  answer _ := trivial
  call_top m s hs hm := by
    obtain ⟨h, hcalm, hfit⟩ := hs
    obtain ⟨hfixed, hio, -, -⟩ := hm
    have hkeeps : (transport.body m).wp spokenContract
        (fun _ t => Spoken t ∧ spokenContract.Rely s t) s := by
      by_cases hpop : m = .popIo
      · subst hpop
        exact h.popIo hcalm hfit (hio rfl)
      · exact keeps_body reads_spoken m (fixedProtocol_call hfixed).1 hpop h (fun _ => hcalm)
          fun _ _ => hfit
    exact wp_mono _ (fun _ t ht => ⟨ht.1, ht.2.2.1 hcalm, ht.2.2.2 hfit⟩) hkeeps
  call_inner m s hs hm := by
    obtain ⟨hfixed, -, hresume, hwrite⟩ := hm
    obtain ⟨hset, hbatch⟩ := fixedProtocol_call hfixed
    have hpop : m ≠ .popIo := by
      rintro rfl
      cases hbatch rfl
    exact keeps_body reads_spoken m hset hpop hs hwrite fun hm _ => hresume hm
  env_top e s s' hs _ he := by
    obtain ⟨h, hr⟩ := spoken_env hs.1 he
    exact ⟨h, hr.2.1 hs.2.1, hr.2.2 hs.2.2⟩
  env_inner e s s' hs _ he := spoken_env hs he

theorem spoken_new (kernel : Socket) : Spoken (World.new .plain kernel) ∧
    (World.new .plain kernel).losing = false ∧ (World.new .plain kernel).failing = false := by
  refine ⟨⟨⟨?_, ?_, ?_⟩, .nil, ?_, ?_, ?_, ?_, ?_, ?_, ?_, ?_⟩, ?_, ?_⟩ <;>
    simp [World.new, World.losing, World.failing]

/-- In every run of a drain-mode stream transport with a fixed protocol, the
calls of the protocol are in order and timely. -/
theorem stream_wellspoken {c : Config World UserCall Nat Exc Query Reply}
    (h : Reach transport spokenPolicy (fun s => ∃ kernel, s = World.new .plain kernel) c)
    (ho : c.Outside) : c.state.Wellspoken := by
  have hinit : ∀ s, (∃ kernel, s = World.new .plain kernel) →
      Spoken s ∧ s.losing = false ∧ s.failing = false := by
    rintro s ⟨kernel, rfl⟩
    exact spoken_new kernel
  have hspoken : Spoken c.state := sound_spoken.inv hinit (fun _ hs => hs.1) h ho
  exact ⟨hspoken.orderly, hspoken.timely⟩

end Tokioop.Transport
