import Tokioop.Kit.Compose
import Tokioop.Transport.Write

/-!
Reading and reporting, for any property of code.

A step `Apart` moves nothing that writing, flow control, the teardown or the
other end of the connection look at. Reading, registering, delivering and
reporting are made of such steps and of three others: `recv`, `close` and
`_force_close`. A compositional property that holds of steps apart and of
these three (`Abides`) therefore holds of the whole read side.
-/

namespace Tokioop.Transport

open Fd Kit Kit.Prog

/-! ### What the protocol has been told -/

/-- Whether a protocol takes itself to be paused after a call; there is no
answer once it has been paused twice or resumed without having been paused. -/
def UserCall.heed : Option Bool → UserCall → Option Bool
  | some false, .pauseWriting => some true
  | some true, .resumeWriting => some false
  | _, .pauseWriting | _, .resumeWriting => none
  | told, _ => told

/-- The call is not one of flow control. -/
def UserCall.unflown : UserCall → Bool
  | .pauseWriting | .resumeWriting => false
  | _ => true

theorem UserCall.heed_unflown {e : UserCall} (h : e.unflown = true) (told : Option Bool) :
    e.heed told = told := by
  cases e with
  | pauseWriting | resumeWriting => cases h
  | _ => rcases told with _ | b <;> first | rfl | (cases b <;> rfl)

namespace World

/-- Whether the calls of flow control made so far leave the protocol paused. -/
def told (s : World) : Option Bool := s.log.foldl UserCall.heed (some false)

theorem told_logged (s : World) (e : UserCall) : (s.logged e).told = e.heed s.told := by
  simp [told, logged]

end World

/-! ### Steps apart -/

/-- A step that only reading and reporting are concerned with. -/
structure Apart (s t : World) : Prop where
  buffer : t.buffer = s.buffer
  connLost : t.connLost = s.connLost
  closing : t.closing = s.closing
  attached : t.attached = s.attached
  ready : t.ready = s.ready
  protocol : s.protocol.isSome = true → t.protocol.isSome = true
  told : t.told = s.told
  protocolPaused : t.protocolPaused = s.protocolPaused
  highWater : t.highWater = s.highWater
  lowWater : t.lowWater = s.lowWater
  read : t.read = s.read
  kernel : t.kernel = s.kernel
  sent : t.sent = s.sent
  shutdowns : t.shutdowns = s.shutdowns
  shutdownWr : t.shutdownWr = s.shutdownWr

theorem Apart.refl (s : World) : Apart s s :=
  ⟨rfl, rfl, rfl, rfl, rfl, id, rfl, rfl, rfl, rfl, rfl, rfl, rfl, rfl, rfl⟩

theorem apart_logged (s : World) {e : UserCall} (he : e.unflown = true) : Apart s (s.logged e) :=
  { Apart.refl s with told := (s.told_logged e).trans (UserCall.heed_unflown he _) }

/-- A property of code that the read side has. -/
structure Abides (Φ : (α : Type) → Meth α → Prop) : Prop extends Compositional Φ where
  apart : ∀ {f : World → World}, (∀ s, Apart s (f s)) → Φ Unit (modify f)
  sockRecv : ∀ size, Φ _ (sockRecv size)
  forceClose : ∀ exc, Φ Unit (forceClose exc)
  baseClose : Φ Unit baseClose

namespace Abides

variable {Φ : (α : Type) → Meth α → Prop} (hA : Abides Φ)
include hA

/-! ### Calling out -/

theorem onLoop {f : World → World} (h : ∀ s, Apart s (f s)) : Φ _ (onLoop f) :=
  hA.get_bind fun _ => holds_ite (hA.apart h) (hA.done _)

theorem invoke {e : UserCall} (he : e.unflown = true) : Φ _ (invoke e) :=
  hA.bind (hA.apart fun s => apart_logged s he) fun _ => hA.callback e

theorem callExceptionHandler (message : String) (exc : Exc) :
    Φ _ (callExceptionHandler message exc) :=
  hA.get_bind fun _ => holds_ite
    (hA.tryCatch (hA.discard (hA.invoke rfl)) fun _ => hA.done _) (hA.done _)

theorem reportCallbackError (exc : Exc) : Φ _ (reportCallbackError exc) :=
  hA.tryCatch (hA.discard (hA.invoke rfl)) fun _ => hA.done _

theorem removeReader : Φ _ removeReader := hA.onLoop fun s => { Apart.refl s with }

theorem removeWriter : Φ _ removeWriter := hA.onLoop fun s => { Apart.refl s with }

theorem resolveEmptyWaiter : Φ _ resolveEmptyWaiter := by
  refine hA.get_bind fun s => ?_
  split
  · exact hA.done _
  · exact hA.apart fun s => { Apart.refl s with }
  · exact hA.done _

theorem makeEmptyWaiter : Φ _ makeEmptyWaiter :=
  hA.get_bind fun _ => holds_ite (hA.done _) (hA.onLoop fun s => { Apart.refl s with })

theorem resetEmptyWaiter : Φ _ resetEmptyWaiter := hA.apart fun s => { Apart.refl s with }

theorem addCallback (read : Bool) {f : World → World} (h : ∀ s, Apart s (f s)) :
    Φ _ (addCallback read f) := by
  refine hA.get_bind fun s => holds_ite (hA.bind (hA.query _) fun a => ?_) (hA.done _)
  cases a with
  | fail e => exact hA.done _
  | done n => exact hA.apart h
  | wouldBlock => exact hA.apart h

theorem addWriter : Φ _ addWriter := hA.addCallback false fun s => { Apart.refl s with }

/-! ### Failing and closing -/

theorem getDebug : Φ _ getDebug := hA.get_bind fun _ => holds_ite (hA.done _) (hA.done _)

theorem fatalError (exc : Exc) (message : String) : Φ _ (fatalError exc message) :=
  hA.bind (hA.apart fun s => { Apart.refl s with }) fun _ =>
    hA.bind (holds_ite hA.getDebug (hA.callExceptionHandler message exc)) fun _ => hA.forceClose _

theorem close : Φ _ close :=
  hA.bind (hA.apart fun s => { Apart.refl s with }) fun _ => hA.baseClose

theorem orFatal {α : Type} {k : α → Meth Unit} (message : String) (hk : ∀ a, Φ _ (k a))
    (r : Except Exc α) : Φ _ (orFatal message k r) := by
  cases r with
  | ok a => exact hk a
  | error e => exact holds_ite (hA.done _) (hA.fatalError e message)

/-! ### Registering -/

theorem addTcpReader : Φ _ addTcpReader := by
  refine hA.get_bind fun s => holds_ite (hA.bind (hA.query _) fun a => ?_) (hA.done _)
  cases a with
  | fail e => exact hA.done _
  | done n => exact hA.apart fun s => { Apart.refl s with }
  | wouldBlock => exact hA.apart fun s => { Apart.refl s with }

theorem registerReader : Φ _ registerReader := by
  refine hA.get_bind fun _ => holds_ite (holds_ite hA.addTcpReader ?_) (hA.done _)
  exact hA.addCallback true fun s => { Apart.refl s with }

theorem setProtocol (kind : ProtocolKind) : Φ _ (setProtocol kind) := by
  have hswitch : Φ _ (switchReader (decide (kind = .plain))) :=
    hA.get_bind fun _ => holds_ite
      (hA.bind (hA.apart fun s => { Apart.refl s with }) fun _ => hA.get_bind fun _ =>
        holds_ite (hA.bind hA.removeReader fun _ => hA.registerReader) (hA.done _)) (hA.done _)
  refine hA.bind (hA.apart fun s => { Apart.refl s with }) fun _ => hA.bind hswitch fun _ => ?_
  exact hA.apart fun s => { Apart.refl s with protocol := fun _ => rfl }

theorem pauseReading : Φ _ pauseReading :=
  hA.get_bind fun _ => holds_ite
    (hA.bind (hA.apart fun s => { Apart.refl s with }) fun _ => hA.get_bind fun _ =>
      holds_ite (hA.done _) hA.removeReader) (hA.done _)

/-! ### Delivering -/

theorem dataReceived (data : List UInt8) : Φ _ (dataReceived data) := by
  refine hA.get_bind fun s => ?_
  split
  · exact hA.discard (hA.invoke rfl)
  · exact hA.bind (hA.apart fun s => { Apart.refl s with }) fun _ => hA.done _
  · exact hA.done _

theorem getBuffer : Φ _ getBuffer := by
  refine hA.get_bind fun s => ?_
  split
  · exact hA.bind (hA.invoke rfl) fun _ => holds_ite (hA.done _) (hA.done _)
  · exact hA.done _

theorem bufferUpdated (nbytes : Nat) : Φ _ (bufferUpdated nbytes) := by
  refine hA.get_bind fun s => ?_
  split
  · exact hA.discard (hA.invoke rfl)
  · exact hA.done _

theorem readReadyOnEof : Φ _ readReadyOnEof :=
  hA.andThen (hA.get_bind fun _ => holds_ite (hA.invoke rfl) (hA.done _)) <|
    hA.orFatal _ fun _ => holds_ite hA.removeReader hA.close

theorem deliverStream (data : List UInt8) : Φ _ (deliverStream data) :=
  holds_ite hA.readReadyOnEof <|
    hA.andThen (hA.dataReceived data) (hA.orFatal _ fun _ => hA.done _)

theorem deliverReplay (item : ReplayItem) : Φ _ (deliverReplay item) := by
  cases item with
  | stream data => exact hA.deliverStream data
  | error e => exact hA.fatalError _ _

theorem flushReplay : Φ _ flushReplay := by
  refine hA.repeatWhile (hA.get_bind fun s => ?_)
  split
  · exact hA.done _
  · exact holds_ite (hA.bind (hA.apart fun s => { Apart.refl s with }) fun _ =>
      hA.bind (hA.deliverReplay _) fun _ => hA.done _) (hA.done _)

theorem resumeReading : Φ _ resumeReading :=
  hA.get_bind fun _ => holds_ite
    (hA.done _) (hA.bind (hA.apart fun s => { Apart.refl s with }) fun _ =>
      hA.bind hA.flushReplay fun _ => hA.get_bind fun _ =>
        holds_ite (hA.done _) (holds_ite (hA.done _) hA.registerReader))

/-! ### Reading -/

theorem afterRecv {k : List UInt8 → Meth Unit} (hk : ∀ data, Φ _ (k data))
    (r : Recv (List UInt8)) : Φ _ (afterRecv k r) := by
  rcases r with data | _ | e
  · cases data with
    | nil => exact hA.readReadyOnEof
    | cons b bs => exact hk (b :: bs)
  · exact hA.done _
  · exact hA.fatalError _ _

theorem readBurst (n : Nat) : Φ _ (readBurst n) := by
  induction n with
  | zero => exact hA.done _
  | succ n ih =>
      refine hA.get_bind fun s => hA.andThen (hA.sockRecv _) (hA.orFatal _ ?_)
      refine hA.afterRecv fun data => hA.andThen (hA.dataReceived data) (hA.orFatal _ fun _ => ?_)
      exact hA.get_bind fun _ => holds_ite (hA.done _) ih

theorem readReady : Φ _ readReady := by
  refine hA.get_bind fun s => ?_
  split
  · refine hA.get_bind fun _ => holds_ite (hA.done _) ?_
    refine hA.andThen hA.getBuffer (hA.orFatal _ fun size => ?_)
    refine hA.andThen (hA.sockRecv size) (hA.orFatal _ (hA.afterRecv fun data => ?_))
    exact hA.andThen (hA.bufferUpdated _) (hA.orFatal _ fun _ => hA.done _)
  · exact hA.get_bind fun _ => holds_ite (hA.done _) (hA.readBurst _)
  · exact hA.done _

/-! ### What the loop calls -/

/-- `_drain_stream` and `_drain_error`. -/
theorem drain (item : ReplayItem) (s : World) :
    Φ _ (if s.connLost ≠ 0 ∨ s.closing then pure ()
      else if s.paused then modify fun s => { s with replay := s.replay ++ [item] }
      else Transport.deliverReplay item) :=
  holds_ite (hA.done _) (holds_ite (hA.apart fun s => { Apart.refl s with })
    (hA.deliverReplay item))

theorem popIo (hwrite : Φ _ writeSendmsg) : Φ _ popIo := by
  have hitem : ∀ item, Φ _ (runItem item) := by
    intro item
    cases item with
    | data d =>
        cases d with
        | tcpChunk payload => exact hA.get_bind fun s => hA.drain (.stream payload) s
        | tcpEof => exact hA.get_bind fun s => hA.drain (.stream []) s
        | readError e => exact hA.get_bind fun s => hA.drain (.error e) s
        | udpDatagram payload addr => exact hA.done _
    | callback slot =>
        exact hA.get_bind fun s =>
          holds_ite hA.readReady (holds_ite hwrite (hA.done _))
  refine hA.get_bind fun s => ?_
  split
  · exact hA.done _
  · exact hA.bind (hA.apart fun s => { Apart.refl s with }) fun _ =>
      hA.tryCatch (hitem _) hA.reportCallbackError

end Abides

end Tokioop.Transport
