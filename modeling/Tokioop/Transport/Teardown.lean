import Tokioop.Transport.Write

/-!
What the parts of a transport that have nothing to do with reading leave
alone.

A `Quiet` step moves neither payloads nor the read mode. Writing, flow
control and tearing down consist of quiet steps and of calls into the
protocol that hand over no payload. All but two of these steps are `Silent`
besides: they leave the protocol in place and do not speak of its loss. A
contract that puts up with silent steps, with fatal errors and with the
teardown (`Frames`) is kept by all of them; one that puts up with every quiet
step is such a contract. A teardown may have to find the transport in a
state (`Calm`) that callbacks leave alone. The facts of `Base` are shared by
all contracts: a transport that has lost its connection is closing.
-/

namespace Tokioop.Transport

open Fd Kit Kit.Prog

structure Base (s : World) : Prop where
  lost : s.connLost ≠ 0 → s.closing = true
  attached : s.closing = false → s.attached = true ∧ s.protocol.isSome = true
  jobs : ∀ exc, Job.callConnectionLost exc ∈ s.ready → s.closing = true

theorem Base.of_closing {s : World} (hc : s.closing = true) : Base s :=
  ⟨fun _ => hc, fun h => by simp [hc] at h, fun _ _ => hc⟩

/-- A step of no concern to reading. -/
structure Quiet (s s' : World) : Prop where
  base : Base s'
  log : ∃ new, s'.log = s.log ++ new ∧ ∀ e ∈ new, e.quiet = true
  replay : s'.replay = s.replay
  io : s'.io = s.io
  kernel : s'.kernel = s.kernel
  read : s'.read = s.read
  misdelivered : s'.misdelivered = s.misdelivered
  paused : s'.paused = s.paused
  drainTcp : s'.drainTcp = s.drainTcp
  closing : s.closing = true → s'.closing = true
  reader : s'.reader = s.reader ∨ s'.reader = none
  protocol : s'.closing = false → s'.protocol = s.protocol
  readReadyCb : s'.readReadyCb = s.readReadyCb ∨ s'.readReadyCb = none
  stopped : s'.closing = true → s.closing = true ∨ s'.reader = none

theorem Quiet.refl {s : World} (h : Base s) : Quiet s s :=
  ⟨h, ⟨[], by simp, by simp⟩, rfl, rfl, rfl, rfl, rfl, rfl, rfl, id, .inl rfl, fun _ => rfl,
    .inl rfl, .inl⟩

theorem Quiet.wasOpen {s s' : World} (h : Quiet s s') (hc : s'.closing = false) :
    s.closing = false := by
  by_contra hs
  rw [h.closing (Bool.not_eq_false _ ▸ hs)] at hc
  cases hc

theorem Quiet.pending {s s' : World} (h : Quiet s s') : s'.pending = s.pending := by
  rw [World.pending, h.replay, h.io]
  rfl

def UserCall.isLost : UserCall → Bool
  | .connectionLost _ => true
  | _ => false

/-- A quiet step that is neither a fatal error nor part of a teardown. -/
structure Silent (s s' : World) : Prop extends Quiet s s' where
  spoken : s'.log.countP UserCall.isLost = s.log.countP UserCall.isLost
  untimely : s'.untimely = s.untimely
  fatal : s'.fatal = s.fatal
  held : s'.protocol = s.protocol ∧ s'.attached = s.attached
  made : .connectionMade ∈ s.ready → .connectionMade ∈ s'.ready ∨ .connectionMade ∈ s'.log
  late : .connectionMade ∈ s'.ready → .connectionMade ∈ s.ready

theorem Silent.refl {s : World} (h : Base s) : Silent s s :=
  ⟨.refl h, rfl, rfl, rfl, ⟨rfl, rfl⟩, .inl, id⟩

theorem silent_logged {s : World} {e : UserCall} (hb : Base s) (he : e.quiet = true)
    (hl : e.isLost = false) : Silent s (s.logged e) := by
  refine { Silent.refl hb with
    base := ⟨hb.lost, hb.attached, hb.jobs⟩, log := ⟨[e], rfl, fun e' he' => ?_⟩
    spoken := ?_, untimely := ?_, made := .inl }
  · rw [List.mem_singleton.mp he']
    exact he
  · simp [World.logged, List.countP_append, hl]
  · simp [World.logged, he]

namespace World

/-- `_call_connection_lost` has been entered. -/
def tearing (s : World) : World := { s with teardowns := s.teardowns + 1 }

/-- The transport lets go of its socket, its protocol and its loop, if it
still has them. -/
def severed (s : World) : World :=
  if s.attached then { s with attached := false, protocol := none } else s

end World

/-- A contract that steps of no concern to reading keep. -/
structure Frames (C : Contract World UserCall Nat Exc Query Reply) (Calm : World → Prop) :
    Prop where
  base : ∀ {s}, C.Inv s → Base s
  closing : ∀ {s s'}, C.Rely s s' → s.closing = true → s'.closing = true
  calm : ∀ {s s'}, C.Rely s s' → Calm s → Calm s'
  silent : ∀ {s s'}, C.Inv s → Silent s s' → C.Inv s' ∧ C.Rely s s'
  fail : ∀ {s}, C.Inv s → C.Inv { s with fatal := true }
  failed : ∀ {s t}, C.Inv s → C.Rely { s with fatal := true } t → t.closing = true → C.Rely s t
  lose : ∀ {s} exc, C.Inv s → s.closing = true → Calm s → s.protocol.isSome = true →
    C.Inv (s.tearing.logged (.connectionLost exc))
  lost : ∀ {s t} exc, C.Inv s → s.closing = true → Calm s → C.Inv t →
    C.Rely (s.tearing.logged (.connectionLost exc)) t → C.Inv t.severed ∧ C.Rely s t.severed
  skip : ∀ {s}, C.Inv s → s.closing = true → Calm s →
    C.Inv s.tearing.severed ∧ C.Rely s s.tearing.severed

theorem quiet_fatal {s : World} (hb : Base s) : Quiet s { s with fatal := true } :=
  { Quiet.refl hb with base := ⟨hb.lost, hb.attached, hb.jobs⟩ }

theorem quiet_severed {s : World} (hc : s.closing = true) : Quiet s s.severed := by
  have hb : Base s := .of_closing hc
  unfold World.severed
  split
  · exact { Quiet.refl hb with
      base := .of_closing hc, protocol := fun h => absurd (h.symm.trans hc) Bool.false_ne_true }
  · exact .refl hb

theorem quiet_tearing {s : World} (hc : s.closing = true) : Quiet s s.tearing :=
  { Quiet.refl (.of_closing hc) with base := .of_closing hc }

theorem quiet_lost {s : World} (hc : s.closing = true) (exc : Option Exc) :
    Quiet s (s.tearing.logged (.connectionLost exc)) := by
  refine { Quiet.refl (.of_closing hc) with base := .of_closing hc, log := ⟨[_], rfl, ?_⟩ }
  intro e he
  rw [List.mem_singleton.mp he]
  rfl

/-- A contract that all quiet steps keep. -/
theorem Frames.of_quiet {C : Contract World UserCall Nat Exc Query Reply}
    (base : ∀ {s}, C.Inv s → Base s)
    (closing : ∀ {s s'}, C.Rely s s' → s.closing = true → s'.closing = true)
    (quiet : ∀ {s s'}, C.Inv s → Quiet s s' → C.Inv s' ∧ C.Rely s s') :
    Frames C fun _ => True where
  base := base
  closing := closing
  calm _ _ := trivial
  silent hs hq := quiet hs hq.toQuiet
  fail hs := (quiet hs (quiet_fatal (base hs))).1
  failed hs hr _ := C.trans (quiet hs (quiet_fatal (base hs))).2 hr
  lose exc hs hc _ _ := (quiet hs (quiet_lost hc exc)).1
  lost exc hs hc _ ht hr := by
    obtain ⟨hu, hur⟩ := quiet ht (quiet_severed (closing hr hc))
    exact ⟨hu, C.trans (C.trans (quiet hs (quiet_lost hc exc)).2 hr) hur⟩
  skip hs hc _ := by
    obtain ⟨ht, htr⟩ := quiet hs (quiet_tearing hc)
    obtain ⟨hu, hur⟩ := quiet ht (quiet_severed hc)
    exact ⟨hu, C.trans htr hur⟩

/-- The transport is closing when the method is through, however it ends. -/
def Closes (C : Contract World UserCall Nat Exc Query Reply) (s : World) {α : Type}
    (_ : Except Exc α) (s' : World) : Prop :=
  C.Inv s' ∧ C.Rely s s' ∧ s'.closing = true

/-- The method keeps the contract, and raises only on a closing transport. -/
def Lands (C : Contract World UserCall Nat Exc Query Reply) (s : World) {α : Type}
    (r : Except Exc α) (s' : World) : Prop :=
  C.Inv s' ∧ C.Rely s s' ∧ ∀ e, r = .error e → s'.closing = true

section

variable {C : Contract World UserCall Nat Exc Query Reply} {Calm : World → Prop}
  (hF : Frames C Calm)

theorem Closes.lands {s s' : World} {α : Type} {r : Except Exc α} (h : Closes C s r s') :
    Lands C s r s' :=
  ⟨h.1, h.2.1, fun _ _ => h.2.2⟩

theorem wp_onLoop (f : World → World) (Q : Except Exc Unit → World → Prop) (s : World) :
    (onLoop f).wp C Q s ↔
      (s.attached = true → Q (.ok ()) (f s)) ∧
        (s.attached = false → Q (.error .attributeError) s) := by
  unfold onLoop
  rw [wp_bind, wp_get]
  cases h : s.attached <;> simp [h]

/-! ### The teardown -/

theorem wp_resolveEmptyWaiter {s : World} {Q : World → Prop} (hs : Q s)
    (hwaiter : Q { s with emptyWaiter := some .done }) :
    resolveEmptyWaiter.wp C (fun _ => Q) s := by
  unfold resolveEmptyWaiter
  rw [wp_bind, wp_get]
  dsimp only
  split
  · exact hs
  · exact hwaiter
  · exact hs

/-- The teardown, with or without a call of `connection_lost`. -/
theorem wp_callConnectionLost {s : World} {Q : World → Prop} (exc : Option Exc)
    (hwaiter : ∀ t, Q t → Q { t with emptyWaiter := some .done })
    (hcall : s.protocol.isSome = true → C.Inv (s.tearing.logged (.connectionLost exc)))
    (hreturn : ∀ t r, C.Inv t → C.Rely (s.tearing.logged (.connectionLost exc)) t →
      C.Ret (.connectionLost exc) r t → Q t.severed)
    (hskip : Q s.tearing.severed) :
    (callConnectionLost exc).wp C (fun _ => Q) s := by
  -- However the call ended, the `finally` clauses follow.
  have hfinally : ∀ t : World, Q t.severed →
      (onLoop fun s => { s with attached := false, protocol := none }).wp C
        (fun _ u => resolveEmptyWaiter.wp C (fun _ => Q) u) t := by
    intro t ht
    unfold World.severed at ht
    rw [wp_onLoop]
    refine ⟨fun ha => ?_, fun ha => ?_⟩
    · rw [if_pos ha] at ht
      exact wp_resolveEmptyWaiter ht (hwaiter _ ht)
    · rw [if_neg (Bool.eq_false_iff.mp ha)] at ht
      exact wp_resolveEmptyWaiter ht (hwaiter _ ht)
  unfold callConnectionLost baseCallConnectionLost
  rw [wp_bind, wp_modify]
  refine wp_finally C (wp_finally C ?_)
  show wp C (get >>= _) _ s.tearing
  rw [wp_bind, wp_get]
  show wp C (if s.protocolConnected = true then
    if s.protocol.isSome = true then _ else _ else _) _ s.tearing
  split
  · split
    · rename_i hp
      rw [wp_discard]
      refine ⟨hcall hp, fun t r ht htr hret => ?_⟩
      have hsevered := hfinally t (hreturn t r ht htr hret)
      cases r with
      | ok a => exact hsevered
      | error e => exact hsevered
    · exact hfinally _ hskip
  · exact hfinally _ hskip

theorem Lands.trans {s t u : World} {α : Type} {r : Except Exc α} (hr : C.Rely s t)
    (h : Lands C t r u) : Lands C s r u :=
  ⟨h.1, C.trans hr h.2.1, h.2.2⟩

theorem Lands.keeps {s t : World} {α : Type} {r : Except Exc α} (h : Lands C s r t) :
    C.Inv t ∧ C.Rely s t :=
  ⟨h.1, h.2.1⟩

theorem Closes.trans {s t u : World} {α : Type} {r : Except Exc α} (hr : C.Rely s t)
    (h : Closes C t r u) : Closes C s r u :=
  ⟨h.1, C.trans hr h.2.1, h.2.2⟩

theorem wp_of_lands {α : Type} {p : Meth α} {s : World} (h : p.wp C (Lands C s) s) :
    p.wp C (fun _ t => C.Inv t ∧ C.Rely s t) s :=
  wp_mono C (fun _ _ ht => ht.keeps) h

theorem wp_of_closes {α : Type} {p : Meth α} {s : World} (h : p.wp C (Closes C s) s) :
    p.wp C (Lands C s) s :=
  wp_mono C (fun _ _ ht => ht.lands) h

theorem keeps_of_lands {α : Type} {p : Meth α} (h : ∀ s, C.Inv s → p.wp C (Lands C s) s) :
    Keeps C p :=
  fun s hs => wp_of_lands (h s hs)

theorem lands_bind {α β : Type} {p : Meth α} {f : α → Meth β} {s : World}
    (hp : p.wp C (Lands C s) s) (hf : ∀ a t, C.Inv t → C.Rely s t → (f a).wp C (Lands C t) t) :
    (p >>= f).wp C (Lands C s) s := by
  rw [wp_bind]
  refine wp_mono C ?_ hp
  intro r t ht
  cases r with
  | ok a => exact wp_mono C (fun _ _ hu => hu.trans ht.2.1) (hf a t ht.1 ht.2.1)
  | error e => exact ⟨ht.1, ht.2.1, fun _ _ => ht.2.2 e rfl⟩

theorem closes_bind {α β : Type} {p : Meth α} {f : α → Meth β} {s : World}
    (hp : p.wp C (Lands C s) s) (hf : ∀ a t, C.Inv t → (f a).wp C (Closes C t) t) :
    (p >>= f).wp C (Closes C s) s := by
  rw [wp_bind]
  refine wp_mono C ?_ hp
  intro r t ht
  cases r with
  | ok a => exact wp_mono C (fun _ _ hu => hu.trans ht.2.1) (hf a t ht.1)
  | error e => exact ⟨ht.1, ht.2.1, ht.2.2 e rfl⟩

include hF

/-! ### Single steps -/

theorem keeps_quiet {f : World → World} (h : ∀ s, Base s → Silent s (f s)) :
    Keeps C (modify f : Meth Unit) :=
  keeps_modify fun _ hs => hF.silent hs (h _ (hF.base hs))

theorem lands_quiet {f : World → World} {s : World} (hs : C.Inv s) (h : Silent s (f s)) :
    (modify f : Meth Unit).wp C (Lands C s) s := by
  obtain ⟨hs', hr⟩ := hF.silent hs h
  exact ⟨hs', hr, fun _ he => by simp at he⟩

theorem detached_closing {s : World} (hs : C.Inv s) (ha : s.attached = false) :
    s.closing = true := by
  by_contra hc
  have hatt := ((hF.base hs).attached (Bool.eq_false_iff.mpr hc)).1
  simp [ha] at hatt

theorem lands_onLoop {f : World → World} {s : World} (hs : C.Inv s)
    (h : s.attached = true → Base s → Silent s (f s)) : (onLoop f).wp C (Lands C s) s := by
  rw [wp_onLoop]
  constructor
  · intro ha
    obtain ⟨hs', hr⟩ := hF.silent hs (h ha (hF.base hs))
    exact ⟨hs', hr, fun _ he => by simp at he⟩
  · intro ha
    exact ⟨hs, C.refl s, fun _ _ => detached_closing hF hs ha⟩

theorem keeps_onLoop {f : World → World} (h : ∀ s, Base s → Silent s (f s)) :
    Keeps C (onLoop f) :=
  keeps_of_lands fun s hs => lands_onLoop hF hs fun _ => h s

theorem keeps_invoke {e : UserCall} (he : e.quiet = true) (hl : e.isLost = false) :
    Keeps C (invoke e) :=
  keeps_bind (keeps_quiet hF fun _ hb => silent_logged hb he hl) fun _ => keeps_callback e

theorem keeps_discard_invoke {e : UserCall} (he : e.quiet = true) (hl : e.isLost = false) :
    Keeps C (discard (invoke e) : Meth Unit) :=
  keeps_bind (keeps_invoke hF he hl) fun _ => keeps_done _

theorem lands_removeReader {s : World} (hs : C.Inv s) : removeReader.wp C (Lands C s) s :=
  lands_onLoop hF hs fun _ hb =>
    { Silent.refl hb with
      base := ⟨hb.lost, hb.attached, hb.jobs⟩, reader := .inr rfl, stopped := .inl }

theorem lands_removeWriter {s : World} (hs : C.Inv s) : removeWriter.wp C (Lands C s) s :=
  lands_onLoop hF hs fun _ hb =>
    { Silent.refl hb with base := ⟨hb.lost, hb.attached, hb.jobs⟩ }

theorem keeps_addWriter : Keeps C addWriter := by
  refine keeps_bind keeps_get fun s => keeps_ite ?_ (keeps_done _)
  refine keeps_bind (keeps_query _) fun r => ?_
  have hadd := keeps_quiet (C := C) hF (f := fun s : World =>
    { s with writer := some s.nextSlot, nextSlot := s.nextSlot + 1 }) fun s hb =>
      { Silent.refl hb with base := ⟨hb.lost, hb.attached, hb.jobs⟩ }
  cases r with
  | fail e => exact keeps_done _
  | done n => exact hadd
  | wouldBlock => exact hadd

/-- Once the transport is closing, what keeps the contract keeps it closing. -/
theorem closes_of_closing {α : Type} {p : Meth α} {s : World} (hc : s.closing = true)
    (hp : p.wp C (fun _ t => C.Inv t ∧ C.Rely s t) s) : p.wp C (Closes C s) s :=
  wp_mono C (fun _ _ ht => ⟨ht.1, ht.2, hF.closing ht.2 hc⟩) hp

/-- A step of a closing transport that moves no payload. -/
theorem closes_modify {f : World → World} {s : World} (hs : C.Inv s) (hq : Silent s (f s))
    (hc : s.closing = true) : (modify f : Meth Unit).wp C (Closes C s) s :=
  closes_of_closing hF hc (hF.silent hs hq)

omit hF in
theorem closes_then {α β : Type} {p : Meth α} {f : α → Meth β} {s : World}
    (hp : p.wp C (Closes C s) s)
    (hf : ∀ a t, C.Inv t → t.closing = true → (f a).wp C (Closes C t) t) :
    (p >>= f).wp C (Closes C s) s := by
  rw [wp_bind]
  refine wp_mono C ?_ hp
  intro r t ht
  cases r with
  | ok a => exact wp_mono C (fun _ _ hu => Closes.trans ht.2.1 hu) (hf a t ht.1 ht.2.2)
  | error e => exact ht

theorem closes_callSoon {s : World} (exc : Option Exc) (hs : C.Inv s) (hc : s.closing = true) :
    (callSoon (.callConnectionLost exc)).wp C (Closes C s) s := by
  refine closes_of_closing hF hc (wp_of_lands (lands_onLoop hF hs fun _ hb => ?_))
  refine { Silent.refl hb with
    base := .of_closing hc, made := fun h => .inl (List.mem_append_left _ h), late := fun h => ?_ }
  simpa using h

theorem closes_removeWriter {s : World} (hs : C.Inv s) (hc : s.closing = true) :
    removeWriter.wp C (Closes C s) s :=
  closes_of_closing hF hc <| wp_of_lands (lands_removeWriter hF hs)

/-! ### Tearing down -/

theorem lands_dropBuffer {s : World} (hs : C.Inv s) : dropBuffer.wp C (Lands C s) s := by
  unfold dropBuffer
  rw [wp_bind, wp_get]
  have hb := hF.base hs
  show wp C (if s.buffer ≠ [] then _ else _) _ s
  split
  · refine lands_bind (lands_quiet hF hs ?_) fun _ t ht _ => lands_removeWriter hF ht
    exact { Silent.refl hb with base := ⟨hb.lost, hb.attached, hb.jobs⟩ }
  · exact ⟨hs, C.refl s, fun _ he => by simp at he⟩

theorem closes_beginClosing {s : World} (hs : C.Inv s) : beginClosing.wp C (Closes C s) s := by
  unfold beginClosing
  rw [wp_bind, wp_get]
  show wp C (if s.closing = true then _ else _) _ s
  split
  · rename_i hc
    exact ⟨hs, C.refl s, hc⟩
  · rename_i hc
    have hb := hF.base hs
    have hatt := (hb.attached (Bool.eq_false_iff.mpr hc)).1
    have hq : Silent s { s with closing := true, reader := none } :=
      { Silent.refl hb with
        base := .of_closing rfl, closing := fun _ => rfl, protocol := fun _ => rfl
        reader := .inr rfl, stopped := fun _ => .inr rfl }
    obtain ⟨hs', hr⟩ := hF.silent hs hq
    unfold removeReader
    rw [wp_bind, wp_modify]
    show wp C (onLoop _) _ { s with closing := true }
    rw [wp_onLoop]
    refine ⟨fun _ => ⟨hs', hr, rfl⟩, fun hno => ?_⟩
    simp [hatt] at hno

/-- `self._conn_lost += 1`. -/
theorem closes_connLost {s : World} (hs : C.Inv s) (hc : s.closing = true) :
    (modify fun s => { s with connLost := s.connLost + 1 } : Meth Unit).wp C (Closes C s) s :=
  closes_modify hF hs { Silent.refl (hF.base hs) with base := .of_closing hc } hc

theorem closes_forceClose {s : World} (exc : Option Exc) (hs : C.Inv s) :
    (forceClose exc).wp C (Closes C s) s := by
  unfold forceClose
  rw [wp_bind, wp_get]
  show wp C (if s.connLost ≠ 0 then _ else _) _ s
  split
  · rename_i hl
    exact ⟨hs, C.refl s, (hF.base hs).lost hl⟩
  · refine closes_bind (lands_dropBuffer hF hs) fun _ t ht => ?_
    refine closes_then (closes_beginClosing hF ht) fun _ u hu huc => ?_
    exact closes_then (closes_connLost hF hu huc) fun _ v hv => closes_callSoon hF _ hv

theorem lands_callExceptionHandler {s : World} (message : String) (exc : Exc) (hs : C.Inv s) :
    (callExceptionHandler message exc).wp C (Lands C s) s := by
  unfold callExceptionHandler
  rw [wp_bind, wp_get]
  show wp C (if s.attached = true then _ else _) _ s
  split
  · rw [wp_tryCatch]
    refine wp_mono C ?_ (keeps_discard_invoke hF (e := .exceptionHandler message exc) rfl rfl s hs)
    intro r t ht
    cases r with
    | ok a => exact ⟨ht.1, ht.2, fun _ he => by simp at he⟩
    | error e => exact ⟨ht.1, ht.2, fun _ he => by simp at he⟩
  · rename_i ha
    exact ⟨hs, C.refl s, fun _ _ => detached_closing hF hs (Bool.eq_false_iff.mpr ha)⟩

theorem lands_getDebug {s : World} (hs : C.Inv s) : getDebug.wp C (Lands C s) s := by
  unfold getDebug
  rw [wp_bind, wp_get]
  show wp C (if s.attached = true then _ else _) _ s
  split
  · exact ⟨hs, C.refl s, fun _ he => by simp at he⟩
  · rename_i ha
    exact ⟨hs, C.refl s, fun _ _ => detached_closing hF hs (Bool.eq_false_iff.mpr ha)⟩

theorem closes_fatalError {s : World} (exc : Exc) (message : String) (hs : C.Inv s) :
    (fatalError exc message).wp C (Closes C s) s := by
  have ht := hF.fail hs
  have hclose : (reportFatal exc message >>= fun _ => forceClose (some exc)).wp C
      (Closes C { s with fatal := true }) { s with fatal := true } := by
    refine closes_bind ?_ fun _ u hu => closes_forceClose hF (some exc) hu
    unfold reportFatal
    split
    · exact lands_getDebug hF ht
    · exact lands_callExceptionHandler hF message exc ht
  refine wp_mono C (fun _ t h => ?_) hclose
  exact ⟨h.1, hF.failed hs h.2.1 h.2.2, h.2.2⟩

theorem keeps_fatalError (exc : Exc) (message : String) : Keeps C (fatalError exc message) :=
  keeps_of_lands fun _ hs => wp_of_closes (closes_fatalError hF exc message hs)

theorem keeps_abort : Keeps C abort :=
  keeps_of_lands fun _ hs => wp_of_closes (closes_forceClose hF none hs)

theorem closes_baseClose {s : World} (hs : C.Inv s) : baseClose.wp C (Closes C s) s := by
  unfold baseClose
  rw [wp_bind, wp_get]
  show wp C (if s.closing = true then _ else _) _ s
  split
  · rename_i hc
    exact ⟨hs, C.refl s, hc⟩
  · refine closes_then (closes_beginClosing hF hs) fun _ t ht htc => ?_
    rw [wp_bind, wp_get]
    show wp C (if t.buffer = [] then _ else _) _ t
    split
    · refine closes_then (closes_connLost hF ht htc) fun _ u hu huc => ?_
      exact closes_then (closes_removeWriter hF hu huc) fun _ v hv => closes_callSoon hF _ hv
    · exact ⟨ht, C.refl t, htc⟩

theorem closes_close {s : World} (hs : C.Inv s) : close.wp C (Closes C s) s := by
  have hb := hF.base hs
  refine closes_bind (lands_quiet hF hs ?_) fun _ t ht => closes_baseClose hF ht
  exact { Silent.refl hb with
    base := ⟨hb.lost, hb.attached, hb.jobs⟩, readReadyCb := .inr rfl }

theorem keeps_close : Keeps C close :=
  keeps_of_lands fun _ hs => wp_of_closes (closes_close hF hs)

theorem keeps_resolveEmptyWaiter : Keeps C resolveEmptyWaiter := by
  refine keeps_bind keeps_get fun s => ?_
  split
  · exact keeps_done _
  · exact keeps_quiet hF fun s hb =>
      { Silent.refl hb with base := ⟨hb.lost, hb.attached, hb.jobs⟩ }
  · exact keeps_done _

theorem closes_callConnectionLost {s : World} (exc : Option Exc) (hs : C.Inv s)
    (hc : s.closing = true) (hcalm : Calm s) : (callConnectionLost exc).wp C (Closes C s) s := by
  have hclosing : ∀ t : World, t.closing = true → t.severed.closing = true := by
    intro t ht
    unfold World.severed
    split <;> exact ht
  refine wp_callConnectionLost exc (fun t ht => ?_) (hF.lose exc hs hc hcalm)
    (fun t r ht htr _ => ?_) ?_
  · have hb := hF.base ht.1
    have hwaiter : Silent t { t with emptyWaiter := some .done } :=
      { Silent.refl hb with base := ⟨hb.lost, hb.attached, hb.jobs⟩ }
    obtain ⟨hu, hur⟩ := hF.silent ht.1 hwaiter
    exact ⟨hu, C.trans ht.2.1 hur, ht.2.2⟩
  · obtain ⟨hu, hur⟩ := hF.lost exc hs hc hcalm ht htr
    exact ⟨hu, hur, hclosing t (hF.closing htr hc)⟩
  · obtain ⟨hu, hur⟩ := hF.skip hs hc hcalm
    exact ⟨hu, hur, hclosing _ hc⟩

/-! ### Writing -/

theorem keeps_callExceptionHandler (message : String) (exc : Exc) :
    Keeps C (callExceptionHandler message exc) :=
  keeps_of_lands fun _ hs => lands_callExceptionHandler hF message exc hs

theorem keeps_flowControl {e : UserCall} (he : e.quiet = true) (hl : e.isLost = false)
    (message : String) : Keeps C (flowControl e message) :=
  keeps_tryCatch
    (keeps_bind keeps_get fun _ => keeps_ite (keeps_discard_invoke hF he hl) (keeps_done _))
    fun exc => keeps_ite (keeps_done _) (keeps_callExceptionHandler hF message exc)

theorem keeps_maybePauseProtocol : Keeps C maybePauseProtocol := by
  refine keeps_bind keeps_get fun s => keeps_ite (keeps_done _) ?_
  refine keeps_bind (keeps_quiet hF fun s hb => ?_) fun _ => keeps_flowControl hF rfl rfl _
  exact { Silent.refl hb with base := ⟨hb.lost, hb.attached, hb.jobs⟩ }

theorem keeps_setWriteBufferLimits (high low : Option Nat) :
    Keeps C (setWriteBufferLimits high low) := by
  refine keeps_ite (keeps_done _) ?_
  refine keeps_bind (keeps_quiet hF fun s hb => ?_) fun _ => keeps_maybePauseProtocol hF
  exact { Silent.refl hb with base := ⟨hb.lost, hb.attached, hb.jobs⟩ }

theorem keeps_maybeResumeProtocol : Keeps C maybeResumeProtocol := by
  refine keeps_bind keeps_get fun s => keeps_ite ?_ (keeps_done _)
  refine keeps_bind (keeps_quiet hF fun s hb => ?_) fun _ => keeps_flowControl hF rfl rfl _
  exact { Silent.refl hb with base := ⟨hb.lost, hb.attached, hb.jobs⟩ }

theorem keeps_sockSend (data : List UInt8) : Keeps C (sockSend data) := by
  refine keeps_bind keeps_get fun s => keeps_ite ?_ (keeps_done _)
  refine keeps_bind (keeps_query _) fun r => ?_
  cases r with
  | wouldBlock => exact keeps_done _
  | fail e => exact keeps_done _
  | done n =>
      refine keeps_bind (keeps_quiet hF fun s hb => ?_) fun _ => keeps_done _
      exact { Silent.refl hb with base := ⟨hb.lost, hb.attached, hb.jobs⟩ }

theorem keeps_bufferRest (data : List UInt8) : Keeps C (bufferRest data) := by
  refine keeps_bind (keeps_quiet hF fun s hb => ?_) fun _ => keeps_maybePauseProtocol hF
  exact { Silent.refl hb with base := ⟨hb.lost, hb.attached, hb.jobs⟩ }

theorem keeps_orFatal {α : Type} {k : α → Meth Unit} (message : String)
    (hk : ∀ a, Keeps C (k a)) (r : Except Exc α) : Keeps C (orFatal message k r) := by
  cases r with
  | ok a => exact hk a
  | error e => exact keeps_ite (keeps_done _) (keeps_fatalError hF e message)

/-- Counting a write on a lost connection. -/
theorem keeps_countLost {s : World} (hs : C.Inv s) (hl : s.connLost ≠ 0) :
    (modify fun s => { s with connLost := s.connLost + 1 } : Meth Unit).wp C
      (fun _ t => C.Inv t ∧ C.Rely s t) s :=
  wp_of_lands (wp_of_closes <| closes_connLost hF hs ((hF.base hs).lost hl))

theorem keeps_write (data : List UInt8) : Keeps C (write data) := by
  intro s hs
  have hb := hF.base hs
  have hoffer : Silent s { s with offered := s.offered ++ data } :=
    { Silent.refl hb with base := ⟨hb.lost, hb.attached, hb.jobs⟩ }
  obtain ⟨ht, htr⟩ := hF.silent hs hoffer
  unfold write
  rw [wp_bind, wp_get]
  show wp C (if s.eof = true then _ else _) _ s
  split
  · exact keeps_done _ s hs
  split
  · exact keeps_done _ s hs
  rw [wp_bind, wp_modify]
  show wp C (if data = [] then _ else _) _ _
  split
  · exact ⟨ht, htr⟩
  split
  · rename_i hl
    exact wp_since htr (keeps_countLost hF ht hl)
  split
  · refine (keeps_andThen (keeps_sockSend hF data) (keeps_orFatal hF _ fun n => ?_)).after ht htr
    cases n with
    | none => exact keeps_bind (keeps_addWriter hF) fun _ => keeps_bufferRest hF data
    | some n =>
        exact keeps_ite (keeps_done _)
          (keeps_bind (keeps_addWriter hF) fun _ => keeps_bufferRest hF _)
  · exact (keeps_bufferRest hF data).after ht htr

theorem keeps_sendBuffer : Keeps C sendBuffer := by
  refine keeps_bind keeps_get fun s => keeps_bind (keeps_sockSend hF _) fun n => ?_
  cases n with
  | none => exact keeps_done _
  | some n =>
      refine keeps_bind keeps_get fun t => ?_
      split
      · exact keeps_done _
      · refine keeps_bind (keeps_quiet hF fun s hb => ?_) fun _ => keeps_done _
        exact { Silent.refl hb with base := ⟨hb.lost, hb.attached, hb.jobs⟩ }

theorem keeps_shutdownWrite : Keeps C shutdownWrite :=
  keeps_onLoop hF fun _ hb => { Silent.refl hb with base := ⟨hb.lost, hb.attached, hb.jobs⟩ }

theorem keeps_afterSend {s : World} (hs : C.Inv s) (hcalm : Calm s) :
    afterSend.wp C (fun _ t => C.Inv t ∧ C.Rely s t) s := by
  refine keeps_then (keeps_maybeResumeProtocol hF s hs) fun _ t ht htr => ?_
  rw [wp_bind, wp_get]
  show wp C (if t.buffer = [] then _ else _) _ t
  split
  · refine keeps_then (wp_of_lands (lands_removeWriter hF ht)) fun _ u hu hur => ?_
    refine keeps_then (keeps_resolveEmptyWaiter hF u hu) fun _ v hv hvr => ?_
    rw [wp_bind, wp_get]
    show wp C (if v.closing = true then _ else _) _ v
    split
    · rename_i hc
      have hvcalm := hF.calm (C.trans htr (C.trans hur hvr)) hcalm
      exact wp_of_lands (wp_of_closes (closes_callConnectionLost hF none hv hc hvcalm))
    · exact keeps_ite (keeps_shutdownWrite hF) (keeps_done _) v hv
  · exact ⟨ht, C.refl t⟩

theorem keeps_writeSendmsg {s : World} (hs : C.Inv s) (hcalm : Calm s) :
    writeSendmsg.wp C (fun _ t => C.Inv t ∧ C.Rely s t) s := by
  unfold writeSendmsg
  rw [wp_bind, wp_get]
  show wp C (if s.buffer = [] then _ else _) _ s
  split
  · exact ⟨hs, C.refl s⟩
  split
  · exact ⟨hs, C.refl s⟩
  rw [wp_andThen]
  refine wp_mono C ?_ (keeps_sendBuffer hF s hs)
  rintro r t ⟨ht, htr⟩
  match r with
  | .ok true =>
      have hafter := keeps_afterSend hF ht (hF.calm htr hcalm)
      exact wp_since htr hafter
  | .ok false => exact ⟨ht, htr⟩
  | .error exc =>
      refine (keeps_ite (keeps_done _) ?_).after ht htr
      refine keeps_bind (keeps_of_lands fun _ hs => lands_removeWriter hF hs) fun _ => ?_
      refine keeps_bind (keeps_quiet hF fun s hb => ?_) fun _ =>
        keeps_bind (keeps_fatalError hF exc _) fun _ => keeps_resolveEmptyWaiter hF
      exact { Silent.refl hb with base := ⟨hb.lost, hb.attached, hb.jobs⟩ }

theorem keeps_writelines (lines : List (List UInt8)) {s : World} (hs : C.Inv s) (hcalm : Calm s) :
    (writelines lines).wp C (fun _ t => C.Inv t ∧ C.Rely s t) s := by
  have hb := hF.base hs
  unfold writelines
  rw [wp_bind, wp_get]
  show wp C (if s.eof = true then _ else _) _ s
  split
  · exact keeps_done _ s hs
  split
  · exact keeps_done _ s hs
  split
  · exact keeps_done _ s hs
  split
  · rename_i hl
    exact hF.silent hs { Silent.refl hb with base := .of_closing (hb.lost hl) }
  split
  · refine keeps_bind (keeps_quiet hF fun s hb => ?_) (fun _ => keeps_done _) s hs
    exact { Silent.refl hb with base := ⟨hb.lost, hb.attached, hb.jobs⟩ }
  · have hmore : Silent s
        { s with buffer := s.buffer ++ lines, offered := s.offered ++ lines.flatten } :=
      { Silent.refl hb with base := ⟨hb.lost, hb.attached, hb.jobs⟩ }
    refine keeps_then (hF.silent hs hmore) fun _ t ht htr => ?_
    refine keeps_then (keeps_writeSendmsg hF ht (hF.calm htr hcalm)) fun _ u hu _ => ?_
    exact keeps_bind keeps_get (fun v => keeps_ite (keeps_done _)
      (keeps_bind (keeps_addWriter hF) fun _ => keeps_maybePauseProtocol hF)) u hu

theorem keeps_writeEof : Keeps C writeEof := by
  refine keeps_bind keeps_get fun s => keeps_ite (keeps_done _) ?_
  refine keeps_bind (keeps_quiet hF fun s hb => ?_) fun _ =>
    keeps_ite (keeps_shutdownWrite hF) (keeps_done _)
  exact { Silent.refl hb with base := ⟨hb.lost, hb.attached, hb.jobs⟩ }

theorem keeps_makeEmptyWaiter : Keeps C makeEmptyWaiter :=
  keeps_bind keeps_get fun _ => keeps_ite (keeps_done _) <| keeps_onLoop hF fun _ hb =>
    { Silent.refl hb with base := ⟨hb.lost, hb.attached, hb.jobs⟩ }

theorem keeps_resetEmptyWaiter : Keeps C resetEmptyWaiter :=
  keeps_quiet hF fun _ hb => { Silent.refl hb with base := ⟨hb.lost, hb.attached, hb.jobs⟩ }

theorem keeps_reportCallbackError (exc : Exc) : Keeps C (reportCallbackError exc) :=
  keeps_tryCatch (keeps_discard_invoke hF rfl rfl) fun _ => keeps_done _

end

end Tokioop.Transport
