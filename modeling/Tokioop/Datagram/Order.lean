import Tokioop.Datagram.Reading
import Tokioop.Kit.Trace

/-!
Payloads reach the protocol in the order in which the watcher read them.

While `_flush_replay` runs, the transport has been resumed and `_replay` may
still hold payloads, so there are two modes: outside a flush `_replay` is
empty when the transport is reading, and inside it need not be. No batch runs
inside a flush, so that completions never overtake what was stashed. A flush
that ends early leaves its mode for good: a failing `datagram_received` closes
the transport, and a failing `error_received` does not.
-/

namespace Tokioop.Datagram

open Fd Kit Kit.Prog
open Transport (Exc Query Reply Job IoItem)

def UserCall.payload : UserCall → Option ReplayItem
  | .datagramReceived data addr => some (.datagram data addr)
  | .errorReceived e .read => some (.error e)
  | _ => none

@[simp] theorem ReplayItem.payload_call (item : ReplayItem) : item.call.payload = some item := by
  cases item <;> rfl

theorem UserCall.payload_of_not_read {e : UserCall} (he : e.isRead = false) : e.payload = none := by
  match e, he with
  | .connectionMade, _ => rfl
  | .errorReceived _ .sendto, _ => rfl
  | .errorReceived _ .writer, _ => rfl
  | .pauseWriting, _ => rfl
  | .resumeWriting, _ => rfl
  | .connectionLost _, _ => rfl
  | .exceptionHandler _ _, _ => rfl

namespace World

/-- What the protocol has been handed. -/
def delivered (s : World) : List ReplayItem := s.log.filterMap UserCall.payload

/-- Completions that the batch has not taken. -/
def unread (s : World) : List ReplayItem := s.io.filterMap payloadOf

/-- What the watcher has read, as far as the transport has it. -/
def arrivals (s : World) : List ReplayItem := s.delivered ++ s.replay ++ s.unread

/-- Nothing is left in `_replay` of a transport that is reading. -/
def Settled (s : World) : Prop :=
  s.paused = false → s.closing = false → s.connLost = 0 → s.replay = []

instance (s : World) : Decidable s.Settled := inferInstanceAs (Decidable (_ → _))

/-- What a step of the environment reads from the socket. -/
def reads (h : Env) (s : World) : List ReplayItem :=
  match h, s.reader with
  | .drainRun, some t =>
      ((drainStep .udp false 0 t s.kernel).elim [] DrainOut.pushes).filterMap fun d =>
        payloadOf (.data d)
  | _, _ => []

theorem delivered_logged (s : World) (e : UserCall) :
    (s.logged e).delivered = s.delivered ++ e.payload.toList := by
  cases he : e.payload <;> simp [delivered, logged, he]

theorem reads_of_kernel {h : Env} (hk : h.ofKernel = true) (s : World) : reads h s = [] := by
  match h, hk with
  | .arriveDatagram _, _ => rfl
  | .arriveError _, _ => rfl

theorem unread_env {s s' : World} {h : Env} (he : s.env h = some s') :
    s'.unread = s.unread ++ reads h s := by
  match h, he with
  | .arriveDatagram d, he =>
      cases he
      exact (List.append_nil _).symm
  | .arriveError e, he =>
      cases he
      exact (List.append_nil _).symm
  | .harvest, he =>
      have hio : s'.io = s.io := by
        simp only [env] at he
        split at he
        · split at he
          · cases he
            rfl
          · cases he
        · cases he
      rw [unread, unread, hio]
      exact (List.append_nil _).symm
  | .drainRun, he =>
      simp only [env] at he
      split at he
      · rename_i t ht
        obtain ⟨o, ho, rfl⟩ := Option.map_eq_some_iff.mp he
        simp only [unread, reads, afterDrain, ht, ho, Option.elim_some, List.filterMap_append,
          List.filterMap_map]
        rfl
      · cases he
  | .fireWriter, he =>
      simp only [env] at he
      split at he
      · cases he
        simp [unread, reads, payloadOf]
      · cases he

end World

/-- Outside a flush a call that hands a payload over may raise anything; in a
flush it raises what `resume_reading` lets through only if nothing is left
behind. -/
def raisesSettled : UserCall → Except Exc Unit → World → Prop
  | .datagramReceived _ _, .error e, s => e.exits = true → s.Settled
  | .errorReceived _ .read, .error _, s => s.Settled
  | _, _, _ => True

def inOrder : TransportPolicy where
  call top m _ := top = false → m.ofBatch = false
  env top h _ := top = false → h.ofKernel = true
  ret := raisesSettled
  answer _ _ _ := True

/-- The transport after the watcher has read `l`; `flushing` tells whether a
`_flush_replay` is under way. -/
structure Ordered (l : List ReplayItem) (flushing : Bool) (s : World) : Prop where
  base : Base s
  settled : flushing = false → s.Settled
  handed : s.delivered <+: l
  arrived : s.closing = false → s.arrivals = l

def orderContract (l : List ReplayItem) (flushing : Bool) : TransportContract where
  Inv := Ordered l flushing
  Rely s t := s.closing = true → t.closing = true
  Ret := raisesSettled
  Answer _ _ _ := True
  refl _ := id
  trans h h' := h' ∘ h

abbrev StaysOrdered (l : List ReplayItem) (flushing : Bool) (s t : World) : Prop :=
  Ordered l flushing t ∧ (s.closing = true → t.closing = true)

section

variable {l : List ReplayItem} {f : Bool} {s s' : World}

/-! ### Steps -/

/-- What the protocol has been handed is all that matters of a transport that
is closing. -/
theorem Ordered.of_closing (hc : s.closing = true) (hp : s.attached = true → s.protocol = true)
    (hd : s.delivered <+: l) : Ordered l f s :=
  ⟨.of_closing hc hp, fun _ _ h => absurd (h.symm.trans hc) Bool.false_ne_true, hd,
    fun h => absurd (h.symm.trans hc) Bool.false_ne_true⟩

theorem Ordered.step (h : Ordered l f s) (hb : Base s') (hc : s'.closing = s.closing)
    (hset : s.Settled → s'.Settled) (hd : s'.delivered = s.delivered)
    (hreplay : s'.replay = s.replay) (hu : s'.unread = s.unread) : StaysOrdered l f s s' := by
  refine ⟨⟨hb, fun hf => hset (h.settled hf), hd ▸ h.handed, fun hopen => ?_⟩, hc.trans⟩
  rw [World.arrivals, hd, hreplay, hu]
  exact h.arrived (hc ▸ hopen)

theorem Ordered.still (h : Ordered l f s)
    (heq : s' = { s with
      buffer := s'.buffer, bufferSize := s'.bufferSize, protocolPaused := s'.protocolPaused
      highWater := s'.highWater, lowWater := s'.lowWater, reader := s'.reader, writer := s'.writer
      nextSlot := s'.nextSlot, kernel := s'.kernel, untimely := s'.untimely, sent := s'.sent
      fatal := s'.fatal }) : StaysOrdered l f s s' := by
  have hb := h.base
  rw [heq]
  exact h.step ⟨hb.lost, hb.attached, hb.protocol, hb.jobs⟩ rfl id rfl rfl rfl

/-- The transport is closed, in one way or another. -/
theorem Ordered.close (h : Ordered l f s) (hc : s'.closing = true)
    (hp : s'.attached = true → s'.protocol = true) (hd : s'.log = s.log) : StaysOrdered l f s s' :=
  ⟨.of_closing hc hp (by rw [World.delivered, hd]; exact h.handed), fun _ => hc⟩

theorem Ordered.say (h : Ordered l f s) {e : UserCall} (he : e.isRead = false) :
    StaysOrdered l f s (s.logged e) := by
  have hb := h.base
  refine h.step ⟨hb.lost, hb.attached, hb.protocol, hb.jobs⟩ rfl id ?_ rfl rfl
  rw [World.delivered_logged, UserCall.payload_of_not_read he]
  exact List.append_nil _

/-- The next of the arrivals is handed to the protocol. -/
theorem Ordered.hand (h : Ordered l f s) {item : ReplayItem} {rest : List ReplayItem}
    (hc : s.closing = false) (hs : s'.replay ++ s'.unread = rest)
    (hnext : s.replay ++ s.unread = item :: rest) (hlog : s'.log = s.log)
    (hb : Base s') (hclosing : s'.closing = s.closing) (hset : f = false → s'.Settled) :
    StaysOrdered l f s (s'.logged item.call) := by
  have hdelivered : (s'.logged item.call).delivered = s.delivered ++ [item] := by
    rw [World.delivered_logged, ReplayItem.payload_call, World.delivered, hlog]
    rfl
  have harrived : s.delivered ++ ([item] ++ rest) = l := by
    rw [← h.arrived hc, World.arrivals, List.append_assoc, hnext]
    rfl
  refine ⟨⟨⟨hb.lost, hb.attached, hb.protocol, hb.jobs⟩, hset, ?_, fun _ => ?_⟩, hclosing.trans⟩
  · rw [hdelivered, ← harrived, ← List.append_assoc]
    exact List.prefix_append _ _
  · rw [World.arrivals, hdelivered, ← harrived, List.append_assoc, List.append_assoc]
    exact congrArg (fun x => s.delivered ++ ([item] ++ x)) hs

/-! ### Closing -/

theorem ordered_forceClose (exc : Option Exc) (h : Ordered l f s) :
    (forceClose exc).wp (orderContract l f)
      (fun _ t => StaysOrdered l f s t ∧ t.closing = true) s := by
  have hb := h.base
  refine wp_forceClose exc hb (fun hl => ⟨⟨h, id⟩, hb.lost hl⟩)
    (fun _ _ => ⟨h.close rfl hb.protocol rfl, rfl⟩) fun _ ha => ?_
  have hc := hb.closing_of_detached ha
  split
  · exact ⟨h.close hc hb.protocol rfl, hc⟩
  · exact ⟨h.close hc hb.protocol rfl, hc⟩

theorem speaks_order : Speaks (orderContract l f) where
  base h := h.base
  tune := by
    intro s s' h ht hp
    rw [Tuned, hp] at ht
    exact h.still (by rw [ht])
  say e h he _ := h.say he

theorem ordered_fatalError (exc : Exc) (message : String) (h : Ordered l f s) :
    (fatalError exc message).wp (orderContract l f)
      (fun _ t => StaysOrdered l f s t ∧ t.closing = true) s := by
  refine wp_fatalError_closing speaks_order (h.still rfl).1 (fun t ht _ => ?_) fun ha => ?_
  · refine wp_mono _ ?_ (ordered_forceClose (some exc) ht)
    rintro _ u ⟨⟨hu, -⟩, hc⟩
    exact ⟨⟨hu, fun _ => hc⟩, hc⟩
  · exact ⟨h.still rfl, h.base.closing_of_detached ha⟩

theorem reads_order : Reads (orderContract l f) fun _ => True where
  toSpeaks := speaks_order
  pause := by
    intro s h
    have hb := h.base
    exact h.step ⟨hb.lost, hb.attached, hb.protocol, hb.jobs⟩ rfl (fun _ hp => by cases hp) rfl rfl
      rfl
  watch _ h _ := h.still rfl
  fit _ _ := trivial
  hand := by
    intro s item rest h hreading _ hreplay
    have hb := h.base
    obtain ⟨hc, hp⟩ := s.isReading_iff.mp hreading
    refine h.hand hc rfl ?_ rfl ⟨hb.lost, hb.attached, hb.protocol, hb.jobs⟩ rfl fun hf => ?_
    · rw [hreplay]
      rfl
    -- Only a flush finds something to replay.
    · have hnone := h.settled hf hp hc (hb.lost_eq_zero hc)
      rw [hreplay] at hnone
      cases hnone
  fatalError exc message h _ := wp_mono _ (fun _ _ ht => ht.1) (ordered_fatalError exc message h)

/-! ### Replaying -/

/-- A delivery that fails with nothing left behind. -/
theorem settled_deliverReplay {item : ReplayItem} (hp : s.protocol = true)
    (h : Ordered l true (s.logged item.call)) :
    (deliverReplay item).wp (orderContract l true) (fun r t => StaysOrdered l true s t ∧
      match r with
      | .ok _ => True
      | .error _ => t.Settled) s := by
  have hno : ∀ {P : Prop}, s.protocol = false → P := fun hno =>
    absurd (hno.symm.trans hp) Bool.false_ne_true
  cases item with
  | error e =>
      refine wp_callProtocol (fun _ => h) (fun t r ht htr hret => ⟨⟨ht, htr⟩, ?_⟩) hno
      cases r with
      | ok _ => trivial
      | error x => exact hret
  | datagram data addr =>
      unfold deliverReplay deliverDatagram
      rw [wp_andThen]
      refine wp_callProtocol (fun _ => h) (fun t r ht htr hret => ?_) hno
      cases r with
      | ok _ => exact ⟨⟨ht, htr⟩, trivial⟩
      | error x =>
          show wp _ (if x.exits = true then _ else _) _ t
          split
          · rename_i hx
            exact ⟨⟨ht, htr⟩, hret hx⟩
          · refine wp_mono _ ?_ (ordered_fatalError x _ ht)
            rintro r u ⟨⟨hu, -⟩, hc⟩
            refine ⟨⟨hu, fun _ => hc⟩, ?_⟩
            cases r with
            | ok _ => trivial
            | error _ => exact fun _ hopen => absurd (hopen.symm.trans hc) Bool.false_ne_true

/-- However a flush ends, nothing is left behind. -/
theorem settled_flushReplay (h : Ordered l true s) :
    flushReplay.wp (orderContract l true) (fun _ t => StaysOrdered l true s t ∧ t.Settled) s := by
  refine wp_repeatWhile _ (StaysOrdered l true s) ⟨h, id⟩ ?_
  rintro t ⟨ht, hst⟩
  unfold flushTurn
  rw [wp_bind, wp_get]
  dsimp only
  cases hreplay : t.replay with
  | nil => exact ⟨⟨ht, hst⟩, fun _ _ _ => hreplay⟩
  | cons item rest =>
      show wp _ (if (!t.paused && !t.closing && decide (t.connLost = 0)) = true then _ else _) _ t
      split
      · rename_i hgo
        simp only [Bool.and_eq_true, Bool.not_eq_true', decide_eq_true_eq] at hgo
        have hreading := t.isReading_iff.mpr ⟨hgo.1.2, hgo.1.1⟩
        have hp := protocol_of_reading reads_order ht hreading
        rw [wp_bind, wp_modify, wp_bind]
        have hdeliver := settled_deliverReplay (s := { t with replay := rest }) hp
          (reads_order.hand ht hreading trivial hreplay).1
        refine wp_mono _ ?_ hdeliver
        rintro r u ⟨⟨hu, htu⟩, hset⟩
        cases r with
        | ok _ => exact ⟨hu, fun hc => htu (hst hc)⟩
        | error _ => exact ⟨⟨hu, fun hc => htu (hst hc)⟩, hset⟩
      · rename_i hstop
        refine ⟨⟨ht, hst⟩, fun hp hc hl => absurd ?_ hstop⟩
        simp [hp, hc, hl]

theorem settled_resumeReading (h : Ordered l f s) :
    resumeReading.wp (orderContract l true) (fun _ t => StaysOrdered l f s t) s := by
  have hleave : ∀ {t : World}, StaysOrdered l true s t ∧ t.Settled → StaysOrdered l f s t :=
    fun ht => ⟨⟨ht.1.1.base, fun _ => ht.2, ht.1.1.handed, ht.1.1.arrived⟩, ht.1.2⟩
  unfold resumeReading
  rw [wp_bind, wp_get]
  show wp _ (if (s.closing || !s.paused) = true then _ else _) _ s
  split
  · exact ⟨h, id⟩
  · have hb := h.base
    have hflushing : Ordered l true { s with paused := false } :=
      ⟨⟨hb.lost, hb.attached, hb.protocol, hb.jobs⟩, fun hf => (by cases hf), h.handed, h.arrived⟩
    rw [wp_bind, wp_modify, wp_bind]
    refine wp_mono _ ?_ (settled_flushReplay hflushing)
    intro r u hu
    cases r with
    | error e => exact hleave hu
    | ok _ =>
        show wp _ (get >>= _) _ u
        rw [wp_bind, wp_get]
        show wp _ (if (u.paused || u.closing) = true then _ else _) _ u
        split
        · exact hleave hu
        show wp _ (if u.isPolling = true then _ else _) _ u
        split
        · exact hleave hu
        · refine wp_registerReader (fun _ => hleave hu) fun _ edge => hleave ⟨?_, hu.2⟩
          have hwatch : StaysOrdered l true u { u with reader := some (DrainTask.fresh edge) } :=
            hu.1.1.still rfl
          exact ⟨hwatch.1, fun hc => hwatch.2 (hu.1.2 hc)⟩

/-! ### Tearing down and writing -/

theorem ordered_close (h : Ordered l f s) :
    close.wp (orderContract l f) (fun _ t => StaysOrdered l f s t) s := by
  refine wp_close h.base (fun _ => ⟨h, id⟩) fun _ => ?_
  unfold World.closed
  split
  · exact h.close rfl h.base.protocol rfl
  · exact h.close rfl h.base.protocol rfl

theorem ordered_callConnectionLost (exc : Option Exc) (h : Ordered l f s)
    (hc : s.closing = true) :
    (callConnectionLost exc).wp (orderContract l f) (fun _ t => StaysOrdered l f s t) s := by
  have hend : ∀ t, Ordered l f t → t.closing = true → StaysOrdered l f s t.severed := by
    intro t ht htc
    unfold World.severed
    split
    · exact ⟨.of_closing htc (fun h => (by cases h)) ht.handed, fun _ => htc⟩
    · exact ⟨ht, fun _ => htc⟩
  have hbegun : StaysOrdered l f s s.tearing := h.close hc h.base.protocol rfl
  refine wp_callConnectionLost exc (fun _ => (hbegun.1.say rfl).1) (fun t ht htr => ?_)
    (hend _ hbegun.1 hc)
  exact hend t ht (htr hc)

theorem ordered_enqueue (d : Outgoing) (len : Nat) :
    Keeps (orderContract l f) (enqueue d len) :=
  keeps_bind (keeps_modify fun _ h => Ordered.still h rfl) fun _ =>
    keeps_maybePauseProtocol speaks_order

theorem ordered_sendto (data : Payload) (addr : Option Target) (h : Ordered l f s) :
    (sendto data addr).wp (orderContract l f) (fun _ t => StaysOrdered l f s t) s := by
  have hb := h.base
  refine wp_sendto ⟨h, id⟩ (fun hl => h.close (hb.lost hl) hb.protocol rfl)
    (fun _ => ordered_enqueue _ _ s h) (fun e _ _ => reads_order.fatalError e _ h trivial)
    (fun e _ _ => keeps_callProtocol speaks_order rfl rfl s h) (fun _ _ => h.still rfl)
    fun _ _ => ?_
  rw [wp_bind]
  refine wp_addWriter (fun _ => ⟨h, id⟩) (fun _ _ _ => ⟨h, id⟩) fun _ _ _ _ => ?_
  have hwriting : StaysOrdered l f s s.writing := h.still rfl
  exact (ordered_enqueue _ _).after hwriting.1 hwriting.2

theorem ordered_sendtoReady (h : Ordered l f s) :
    sendtoReady.wp (orderContract l f) (fun _ t => StaysOrdered l f s t) s := by
  have hgo : ∀ u, Sending s u → StaysOrdered l f s u := fun u hu => h.still (by rw [hu.eq])
  have hnone : ∀ t, StaysOrdered l f s t → StaysOrdered l f s { t with writer := none } :=
    fun t ht => ⟨(ht.1.still rfl).1, ht.2⟩
  refine wp_sendtoReady (fun u hu => ?_) (fun u e hu _ => ?_) fun u d e hu _ _ => ?_
  · have hresume : maybeResumeProtocol.wp (orderContract l f) (fun r t =>
        match r with
        | .ok _ => StaysOrdered l f s t
        | .error _ => StaysOrdered l f s t) u := by
      refine wp_mono _ ?_ ((keeps_maybeResumeProtocol speaks_order).after (hgo u hu).1 (hgo u hu).2)
      intro r t ht
      cases r with
      | ok _ => exact ht
      | error _ => exact ht
    refine wp_afterSending hresume (fun t ht => ht) (fun t ht _ => ht) (fun t ht _ _ => ht)
      (fun t ht _ _ hc => ?_) fun t ht _ _ _ => hnone t ht
    exact wp_since (hnone t ht).2 (ordered_callConnectionLost none (hnone t ht).1 hc)
  · exact (keeps_callProtocol speaks_order rfl rfl).after (hgo u hu).1 (hgo u hu).2
  · exact wp_since (hgo u hu).2 (reads_order.fatalError e _ (hgo u hu).1 trivial)

/-! ### Runs -/

theorem ordered_popReady (h : Ordered l f s) :
    popReady.wp (orderContract l f) (fun _ t => StaysOrdered l f s t) s := by
  have hb := h.base
  have hpop : ∀ j rest, s.ready = j :: rest → StaysOrdered l f s { s with ready := rest } := by
    intro j rest hready
    refine h.step ⟨hb.lost, hb.attached, hb.protocol, fun exc hm => hb.jobs exc ?_⟩ rfl id rfl rfl
      rfl
    rw [hready]
    exact List.mem_cons_of_mem _ hm
  refine wp_popReady reads_order h (fun rest hready => ?_) (fun rest hready => hpop _ rest hready)
    fun exc rest hready => ?_
  · have hsay := (hpop _ rest hready).1.say (e := .connectionMade) rfl
    exact ⟨hsay.1, fun hc => hsay.2 ((hpop _ rest hready).2 hc)⟩
  · have hc : s.closing = true := hb.jobs exc (by rw [hready]; exact List.mem_cons_self)
    exact ordered_callConnectionLost exc (hpop _ rest hready).1 hc

/-- The batch takes completions outside a flush only. -/
theorem ordered_popIo (h : Ordered l false s) :
    popIo.wp (orderContract l false) (fun _ t => StaysOrdered l false s t) s := by
  have hb := h.base
  have hunread : ∀ i rest, s.io = i :: rest →
      s.unread = (payloadOf i).toList ++ World.unread { s with io := rest } := by
    intro i rest hio
    cases hi : payloadOf i <;> simp [World.unread, hio, hi]
  have htake : ∀ i rest, s.io = i :: rest → s.closing = true ∨ payloadOf i = none →
      StaysOrdered l false s { s with io := rest } := by
    rintro i rest hio (hc | hi)
    · exact h.close hc hb.protocol rfl
    · refine h.step ⟨hb.lost, hb.attached, hb.protocol, hb.jobs⟩ rfl id rfl rfl ?_
      rw [hunread i rest hio, hi]
      rfl
  refine wp_popIo reads_order h trivial htake (fun i rest item hio hi hp => ?_)
    (fun i rest item hio hi hreading => ?_) fun slot rest hio _ => ?_
  · refine ⟨⟨⟨hb.lost, hb.attached, hb.protocol, hb.jobs⟩, fun _ hno => ?_, h.handed, fun hc => ?_⟩,
      id⟩
    · exact absurd (hno.symm.trans hp) Bool.false_ne_true
    · rw [← h.arrived hc, World.arrivals, World.arrivals, hunread i rest hio, hi]
      simp [World.delivered, World.unread]
  · obtain ⟨hc, hp⟩ := s.isReading_iff.mp hreading
    have hnone := h.settled rfl hp hc (hb.lost_eq_zero hc)
    refine h.hand hc rfl ?_ rfl ⟨hb.lost, hb.attached, hb.protocol, hb.jobs⟩ rfl
      fun _ _ _ _ => hnone
    rw [hunread i rest hio, hi, hnone]
    simp [World.unread]
  · have hgo := htake _ rest hio (.inr rfl)
    exact ordered_sendtoReady hgo.1

/-- Every method but `resume_reading` runs in the mode of its caller. -/
theorem ordered_body {m : Method} (hm : m ≠ .resumeReading) (hbatch : m.ofBatch = true → f = false)
    (h : Ordered l f s) : m.body.wp (orderContract l f) (fun _ t => StaysOrdered l f s t) s := by
  have hb := h.base
  match m, hm, hbatch with
  | .pauseReading, _, _ => exact keeps_pauseReading reads_order s h
  | .registerReader, _, _ => exact keeps_registerReader reads_order s h
  | .setProtocol, _, _ =>
      exact h.step ⟨hb.lost, hb.attached, fun _ => rfl, hb.jobs⟩ rfl id rfl rfl rfl
  | .close, _, _ => exact ordered_close h
  | .abort, _, _ => exact wp_mono _ (fun _ _ ht => ht.1) (ordered_forceClose none h)
  | .sendto data addr, _, _ => exact ordered_sendto data addr h
  | .setWriteBufferLimits high low, _, _ =>
      exact keeps_setWriteBufferLimits speaks_order high low s h
  | .popReady, _, _ => exact ordered_popReady h
  | .popIo, _, hbatch =>
      obtain rfl := hbatch rfl
      exact ordered_popIo h

theorem ordered_env {h : Env} (hs : Ordered l f s) (he : s.env h = some s') :
    Ordered (l ++ World.reads h s) f s' := by
  have hb := hs.base
  have hunread := World.unread_env he
  rw [(env_eq he).1] at hunread ⊢
  refine ⟨⟨hb.lost, hb.attached, hb.protocol, hb.jobs⟩, hs.settled, ?_, fun hc => ?_⟩
  · exact hs.handed.trans (List.prefix_append _ _)
  · rw [← hs.arrived hc, World.arrivals, World.arrivals, hunread, List.append_assoc,
      List.append_assoc, List.append_assoc]
    rfl

end

/-- `resume_reading` flushes. -/
def entering (m : Method) (flushing : Bool) : Bool := flushing || decide (m = .resumeReading)

theorem modeOf_entering (methods : List Method) :
    modeOf false entering methods = decide (.resumeReading ∈ methods) := by
  induction methods with
  | nil => rfl
  | cons m methods ih =>
      show entering m (modeOf false entering methods) = _
      rw [ih]
      simp [entering, Bool.or_comm, eq_comm]

theorem sound_order : TracedSound orderContract false entering transport inOrder World.reads where
  ret := id
  answer _ := trivial
  call_top l m s hs _ := by
    by_cases hm : m = .resumeReading
    · subst hm
      exact wp_mono _ (fun _ _ ht => ht.1) (settled_resumeReading hs)
    · rw [show entering m false = false by simp [entering, hm]]
      exact wp_mono _ (fun _ _ ht => ht.1) (ordered_body hm (fun _ => rfl) hs)
  call_inner l f m s hs hcall := by
    by_cases hm : m = .resumeReading
    · subst hm
      rw [show entering .resumeReading f = true by simp [entering]]
      exact settled_resumeReading hs
    · rw [show entering m f = f by simp [entering, hm]]
      refine ordered_body hm (fun hb => ?_) hs
      exact absurd ((hcall rfl).symm.trans hb) Bool.false_ne_true
  env_top l h s s' hs _ he := ordered_env hs he
  env_inner l f h s s' hs hk he := by
    have hnone := World.reads_of_kernel (hk rfl) s
    have hnext := ordered_env hs he
    rw [hnone, List.append_nil] at hnext
    refine ⟨hnone, hnext, fun hc => ?_⟩
    rw [(env_eq he).1]
    exact hc

/-- A moment of a run of a datagram transport; `seen` is what the watcher has
read. -/
abbrev Moment := Traced World UserCall Unit Exc Query Reply Method ReplayItem

/-- Outside a flush nothing stays behind in `_replay`. The protocol has been
handed what was read first, and of the rest nothing is lost before the
transport is closed. -/
def Moment.KeepsOrder (x : Moment) : Prop :=
  (.resumeReading ∉ x.methods → x.config.state.Settled) ∧
    x.config.state.delivered <+: x.seen ∧
    (x.config.state.closing = false → x.config.state.arrivals = x.seen)

/-- **Order of replay.** Payloads keep their order in every run in which
`error_received` does not raise in the middle of a flush that has not been
paused again, nor `datagram_received` what the transport passes on. -/
theorem replay_keeps_order (x : Moment)
    (h : TracedReach transport inOrder World.reads
      (fun s => ∃ address peername kernel, s = World.new address peername kernel) x)
    (ho : x.config.Outside) : x.KeepsOrder := by
  have hinit : ∀ s, (∃ address peername kernel, s = World.new address peername kernel) →
      Ordered [] false s := by
    rintro s ⟨address, peername, kernel, rfl⟩
    refine ⟨⟨?_, ?_, ?_, ?_⟩, fun _ _ _ _ => rfl, List.nil_prefix, fun _ => rfl⟩
    all_goals simp [World.new]
  have hs := sound_order.outside hinit h ho
  refine ⟨fun hm => hs.settled ?_, hs.handed, hs.arrived⟩
  rw [modeOf_entering]
  exact decide_eq_false hm

instance (top : Bool) (m : Method) (s : World) : Decidable (inOrder.call top m s) :=
  inferInstanceAs (Decidable (_ → _))

instance (top : Bool) (h : Env) (s : World) : Decidable (inOrder.env top h s) :=
  inferInstanceAs (Decidable (_ → _))

instance : ∀ (e : UserCall) (r : Except Exc Unit) (s : World), Decidable (inOrder.ret e r s)
  | .datagramReceived _ _, .error x, s => inferInstanceAs (Decidable (x.exits = true → s.Settled))
  | .errorReceived _ .read, .error _, s => inferInstanceAs (Decidable s.Settled)
  | .datagramReceived _ _, .ok _, _ => .isTrue trivial
  | .errorReceived _ .read, .ok _, _ => .isTrue trivial
  | .errorReceived _ .sendto, _, _ => .isTrue trivial
  | .errorReceived _ .writer, _, _ => .isTrue trivial
  | .connectionMade, _, _ => .isTrue trivial
  | .pauseWriting, _, _ => .isTrue trivial
  | .resumeWriting, _, _ => .isTrue trivial
  | .connectionLost _, _, _ => .isTrue trivial
  | .exceptionHandler _ _, _, _ => .isTrue trivial

instance (q : Query) (a : Reply) (s : World) : Decidable (inOrder.answer q a s) :=
  inferInstanceAs (Decidable True)

/-- A datagram and an error are read while paused; resuming hands them over,
and `error_received` raises with nothing left to replay. -/
theorem replay_keeps_order_last : ∃ x : Moment,
    x.seen = [.datagram [1] .unnamed, .error 111] ∧ x.config.state.delivered = x.seen ∧
      x.config.state.closing = false ∧ x.KeepsOrder := by
  have hstart : TracedReach transport inOrder World.reads
      (fun s => ∃ address peername kernel, s = World.new address peername kernel)
      ⟨⟨.new none false ⟨[], [], none, false⟩, none, []⟩, [], []⟩ :=
    .start ⟨_, ⟨_, _, _, rfl⟩, rfl⟩
  obtain ⟨x, hx, hend⟩ := hstart.exists_of_replay [connect,
    Move.andRun (.call .pauseReading) 3, [.env (.arriveDatagram ⟨[1], .unnamed⟩), .env .drainRun,
    .env .drainRun, .env (.arriveError 111), .env .drainRun], Move.andRun (.call .popIo) 5,
    Move.andRun (.call .popIo) 5, Move.andRun (.call .resumeReading) 8,
    Move.andRun (.ret (.ok ())) 6, Move.andRun (.ret (.error (.userError 0))) 1].flatten
    (fun x => x.config.code.isNone && (x.seen = [.datagram [1] .unnamed, .error 111] &&
      (x.config.state.delivered = x.seen && !x.config.state.closing))) (by decide +kernel)
  simp only [Bool.and_eq_true, Option.isNone_iff_eq_none, decide_eq_true_eq,
    Bool.not_eq_true'] at hend
  obtain ⟨ho, hseen, hdelivered, hc⟩ := hend
  exact ⟨x, hseen, hdelivered, hc, replay_keeps_order x hx ho⟩

/-- What hands a payload over raises ordinary exceptions only. -/
def raisesOrdinary : UserCall → Except Exc Unit → Prop
  | e, .error x => e.isRead = true → x.exits = false
  | _, .ok _ => True

instance : ∀ (e : UserCall) (r : Except Exc Unit), Decidable (raisesOrdinary e r)
  | e, .error x => inferInstanceAs (Decidable (e.isRead = true → x.exits = false))
  | _, .ok _ => .isTrue trivial

def ordinary : TransportPolicy where
  call top m _ := top = false → m.ofBatch = false
  env top h _ := top = false → h.ofKernel = true
  ret e r _ := raisesOrdinary e r
  answer _ _ _ := True

instance (top : Bool) (m : Method) (s : World) : Decidable (ordinary.call top m s) :=
  inferInstanceAs (Decidable (_ → _))

instance (top : Bool) (h : Env) (s : World) : Decidable (ordinary.env top h s) :=
  inferInstanceAs (Decidable (_ → _))

instance (e : UserCall) (r : Except Exc Unit) (s : World) : Decidable (ordinary.ret e r s) :=
  inferInstanceAs (Decidable (raisesOrdinary e r))

instance (q : Query) (a : Reply) (s : World) : Decidable (ordinary.answer q a s) :=
  inferInstanceAs (Decidable True)

/-- An error and a datagram are read while paused. `error_received` raises out
of `resume_reading`, which leaves the datagram in `_replay` of a transport
that reads again; the next datagram overtakes it. -/
theorem datagram_overtakes : ∃ x : Moment,
    TracedReach transport ordinary World.reads
      (fun s => ∃ address peername kernel, s = World.new address peername kernel) x ∧
    x.config.Outside ∧ x.methods = [] ∧ ¬x.config.state.Settled ∧
    ¬x.config.state.delivered <+: x.seen := by
  have hstart : TracedReach transport ordinary World.reads
      (fun s => ∃ address peername kernel, s = World.new address peername kernel)
      ⟨⟨.new none false ⟨[], [], none, false⟩, none, []⟩, [], []⟩ :=
    .start ⟨_, ⟨_, _, _, rfl⟩, rfl⟩
  obtain ⟨x, hx, hend⟩ := hstart.exists_of_replay [connect,
    Move.andRun (.call .pauseReading) 3, [.env (.arriveError 111), .env .drainRun, .env .drainRun,
    .env (.arriveDatagram ⟨[1], .unnamed⟩), .env .harvest, .env .drainRun, .env .drainRun,
    .env .drainRun], Move.andRun (.call .popIo) 5, Move.andRun (.call .popIo) 5,
    Move.andRun (.call .resumeReading) 8, Move.andRun (.ret (.error (.userError 0))) 1,
    [.env (.arriveDatagram ⟨[2], .unnamed⟩), .env .drainRun], Move.andRun (.call .popIo) 6,
    Move.andRun (.ret (.ok ())) 1].flatten
    (fun x => x.config.code.isNone && (x.methods.isEmpty && (!decide x.config.state.Settled &&
      !decide (x.config.state.delivered <+: x.seen)))) (by decide +kernel)
  simp only [Bool.and_eq_true, Option.isNone_iff_eq_none, List.isEmpty_iff, Bool.not_eq_true',
    decide_eq_false_iff_not] at hend
  exact ⟨x, hx, hend⟩

end Tokioop.Datagram
