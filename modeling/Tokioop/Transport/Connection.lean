import Tokioop.Kit.Coupled
import Tokioop.Transport.Heard
import Tokioop.Transport.Onward
import Tokioop.Transport.Writing

/-!
Two stream transports at the ends of one connection.

The network carries what one end has sent to the other, in order and in
pieces of any size, and at any moment, also while the code of either end is
under way. It carries the end of the stream last, once the sender has shut
its socket down or closed it, and may report an error whenever it likes. What
one protocol is handed is then how the bytes began that the other end was
offered; nothing is missing between the two that is not still on its way.
-/

namespace Tokioop.Transport

open Fd Kit Kit.Prog

abbrev End := Config World UserCall Nat Exc Query Reply
abbrev EndMove := Move Nat Exc Reply Method Env

/-- The protocol is never changed, and the registration of the writer does not
fail. -/
def endPolicy : TransportPolicy where
  call := fixedProtocol.call
  env := fixedProtocol.env
  ret := fixedProtocol.ret
  answer := writerRegisters.answer

instance (top : Bool) (m : Method) (s : World) : Decidable (endPolicy.call top m s) :=
  inferInstanceAs (Decidable (fixedProtocol.call top m s))

instance (top : Bool) (h : Env) (s : World) : Decidable (endPolicy.env top h s) :=
  inferInstanceAs (Decidable (fixedProtocol.env top h s))

instance (e : UserCall) (r : Except Exc Nat) (s : World) : Decidable (endPolicy.ret e r s) :=
  inferInstanceAs (Decidable (fixedProtocol.ret e r s))

instance (q : Query) (a : Reply) (s : World) : Decidable (endPolicy.answer q a s) :=
  inferInstanceAs (Decidable (writerRegisters.answer q a s))

/-- What the network can bring to one end while the other is in state `peer`. -/
def Carries (own peer : World) : EndMove → Prop
  | .env (.arriveBytes bs) => own.received ++ bs <+: peer.sent
  | .env .arriveFin => own.received = peer.sent ∧ peer.HungUp
  | _ => True

instance (own peer : World) : (m : EndMove) → Decidable (Carries own peer m)
  | .env (.arriveBytes bs) => inferInstanceAs (Decidable (own.received ++ bs <+: peer.sent))
  | .env .arriveFin => inferInstanceAs (Decidable (own.received = peer.sent ∧ peer.HungUp))
  | .env (.arriveError _) | .env .harvest | .env (.drainRun _) | .env .fireReader
  | .env .fireWriter | .tau | .answer _ | .call _ | .ret _ => .isTrue trivial

def endOk (own peer : End) (m : EndMove) : Prop :=
  endPolicy.Allows own m ∧ Carries own.state peer.state m

instance (own peer : End) (m : EndMove) : Decidable (endOk own peer m) :=
  inferInstanceAs (Decidable (_ ∧ _))

def connectedSocket : Socket := { stream := [], dgrams := [], err := none, fin := false }

def connectedEnd (c : End) : Prop := c = ⟨World.new .plain connectedSocket, none, []⟩

abbrev Connection : End × End → Prop :=
  Coupled transport.step transport.step endOk endOk connectedEnd connectedEnd

/-! ### One end -/

theorem fixedProtocol_of_endPolicy {c : End} {m : EndMove} (h : endPolicy.Allows c m) :
    fixedProtocol.Allows c m :=
  Policy.Allows.weaken (P := endPolicy) (Q := fixedProtocol) id id id (fun _ => trivial) h

theorem writerRegisters_of_endPolicy {c : End} {m : EndMove} (h : endPolicy.Allows c m) :
    writerRegisters.Allows c m :=
  Policy.Allows.weaken (P := endPolicy) (Q := writerRegisters) (fun _ => trivial)
    (fun _ => trivial) (fun _ => trivial) id h

theorem end_fixed {x : End × End} (h : Connection x) :
    Reach transport fixedProtocol (fun s => ∃ kernel, s = World.new .plain kernel) x.1 := by
  have hown : Runs transport.step fixedProtocol.Allows connectedEnd x.1 :=
    h.fst fun hok => fixedProtocol_of_endPolicy hok.1
  refine hown.simulates (f := id) ?_ fun s m s' hok hs => ⟨m, hok, hs⟩
  rintro c rfl
  exact ⟨_, ⟨_, rfl⟩, rfl⟩

theorem end_writing {x : End × End} (h : Connection x) :
    Reach transport writerRegisters (fun s => ∃ kind kernel, s = World.new kind kernel) x.1 := by
  have hown : Runs transport.step writerRegisters.Allows connectedEnd x.1 :=
    h.fst fun hok => writerRegisters_of_endPolicy hok.1
  refine hown.simulates (f := id) ?_ fun s m s' hok hs => ⟨m, hok, hs⟩
  rintro c rfl
  exact ⟨_, ⟨_, _, rfl⟩, rfl⟩

theorem end_heard {x : End × End} (h : Connection x) (ho : x.1.Outside) : Heard x.1.state :=
  heard_outside (end_fixed h) ho

theorem end_lossless {x : End × End} (h : Connection x) (ho : x.1.Outside) :
    Lossless x.1.state := by
  refine sound_writing.inv ?_ (fun _ hs => hs) (end_writing h) ho
  rintro s ⟨kind, kernel, rfl⟩
  refine ⟨⟨?_, ?_, ?_⟩, ?_, ?_, ?_⟩
  all_goals simp [World.new]

/-- What a step of one end changes of what the other end sees: nothing goes
out that was not onward, and what comes in comes from the network. -/
theorem end_step {c c' : End} {m : EndMove} (hg : c.Guarded Onward)
    (hs : transport.step c m = some c') :
    Onward c.state c'.state ∨
      ∃ h, m = .env h ∧ c.state.env h = some c'.state := by
  obtain ⟨-, hsame | honward | ⟨h, rfl, he⟩⟩ := hg.step advances_body hs
  · rw [hsame]
    exact .inl (Still.refl _).onward
  · exact .inl honward
  · exact .inr ⟨h, rfl, he⟩

structure Brought (s t : World) (h : Env) : Prop where
  sent : t.sent = s.sent
  attached : t.attached = s.attached
  shutdowns : t.shutdowns = s.shutdowns
  shutdownWr : t.shutdownWr = s.shutdownWr
  received : ∃ bs, t.received = s.received ++ bs ∧ (bs ≠ [] → h = .arriveBytes bs)
  fin : t.kernel.fin = true → s.kernel.fin = true ∨ h = .arriveFin
  closed : s.kernel.fin = true → t.received = s.received

theorem brought_of_env {s t : World} {h : Env} (he : s.env h = some t) : Brought s t h := by
  cases h with
  | arriveBytes bs =>
      simp only [World.env] at he
      split at he
      · cases he
      · rename_i hno
        rw [not_or] at hno
        cases he
        refine ⟨rfl, rfl, rfl, rfl, ⟨bs, ?_, fun _ => rfl⟩, .inl, fun hfin => absurd hfin hno.2⟩
        exact (List.append_assoc _ _ _).symm
  | arriveFin =>
      cases he
      exact ⟨rfl, rfl, rfl, rfl, ⟨[], (List.append_nil _).symm, fun h => absurd rfl h⟩,
        fun _ => .inr rfl, fun _ => rfl⟩
  | arriveError e =>
      cases he
      exact ⟨rfl, rfl, rfl, rfl, ⟨[], (List.append_nil _).symm, fun h => absurd rfl h⟩, .inl,
        fun _ => rfl⟩
  | harvest =>
      simp only [World.env] at he
      split at he
      · split at he
        · cases he
          exact ⟨rfl, rfl, rfl, rfl, ⟨[], (List.append_nil _).symm, fun h => absurd rfl h⟩, .inl,
            fun _ => rfl⟩
        · cases he
      · cases he
  | drainRun size =>
      obtain ⟨t', o, -, ho, rfl⟩ := env_drainRun he
      obtain ⟨hstream, hfin⟩ := drainStep_stream ho
      have hreceived : (s.afterDrain o).received = s.received := by
        show (s.read ++ o.pushes.flatMap streamBytes) ++ o.sock.stream = s.read ++ s.kernel.stream
        rw [List.append_assoc, hstream]
      refine ⟨rfl, rfl, rfl, rfl, ⟨[], ?_, fun h => absurd rfl h⟩, fun h => .inl ?_,
        fun _ => hreceived⟩
      · rw [hreceived, List.append_nil]
      · exact hfin.symm.trans h
  | fireReader =>
      simp only [World.env] at he
      split at he
      · cases he
        exact ⟨rfl, rfl, rfl, rfl, ⟨[], (List.append_nil _).symm, fun h => absurd rfl h⟩, .inl,
          fun _ => rfl⟩
      · cases he
  | fireWriter =>
      simp only [World.env] at he
      split at he
      · cases he
        exact ⟨rfl, rfl, rfl, rfl, ⟨[], (List.append_nil _).symm, fun h => absurd rfl h⟩, .inl,
          fun _ => rfl⟩
      · cases he

/-! ### From one end to the other -/

/-- What has come in at one end is how that began which the other end has sent;
and if the end of the stream has come in, it is all of it. -/
structure Fed (own peer : World) : Prop where
  begun : own.received <+: peer.sent
  -- The records of `shutdown` are how it is known that nothing follows.
  shut : ∀ p ∈ peer.shutdowns, p.1 <+: peer.sent
  hung : peer.shutdownWr = true → peer.shutdowns ≠ []
  ended : own.kernel.fin = true →
    (peer.attached = false ∧ own.received = peer.sent) ∨ ∃ p ∈ peer.shutdowns, p.1 <+: own.received

theorem Fed.own_onward {s t peer : World} (h : Fed s peer) (ho : Onward s t) : Fed t peer := by
  refine ⟨?_, h.shut, h.hung, fun hfin => ?_⟩
  · rw [ho.received]
    exact h.begun
  · rw [ho.received]
    exact h.ended (ho.fin ▸ hfin)

theorem Fed.own_brought {s t peer : World} {e : Env} (h : Fed s peer) (hb : Brought s t e)
    (hc : Carries s peer (.env e)) : Fed t peer := by
  obtain ⟨bs, hreceived, hbs⟩ := hb.received
  refine ⟨?_, h.shut, h.hung, fun hfin => ?_⟩
  · rw [hreceived]
    by_cases hnil : bs = []
    · rw [hnil, List.append_nil]
      exact h.begun
    · obtain rfl := hbs hnil
      exact hc
  · rcases hb.fin hfin with hold | rfl
    · rw [hb.closed hold]
      exact h.ended hold
    · have hnone : bs = [] := by
        by_contra hne
        cases hbs hne
      rw [hreceived, hnone, List.append_nil]
      obtain ⟨hall, hdown | hdetached⟩ := hc
      · obtain ⟨p, hp⟩ := List.exists_mem_of_ne_nil _ (h.hung hdown)
        rw [hall]
        exact .inr ⟨p, hp, h.shut p hp⟩
      · exact .inl ⟨hdetached, hall⟩

theorem Fed.peer_onward {own s t : World} (h : Fed own s) (ho : Onward s t) : Fed own t := by
  obtain ⟨new, hnew, hsent⟩ := ho.shutdowns
  refine ⟨h.begun.trans ho.sent, fun p hp => ?_, fun hdown => ?_, fun hfin => ?_⟩
  · rw [hnew, List.mem_append] at hp
    rcases hp with hold | hp
    · exact (h.shut p hold).trans ho.sent
    · exact hsent p hp ▸ List.prefix_refl _
  · rcases ho.shutdownWr hdown with hold | hsome
    · rw [hnew]
      exact List.append_ne_nil_of_left_ne_nil (h.hung hold) _
    · exact hsome
  · rcases h.ended hfin with ⟨hdetached, hall⟩ | ⟨p, hp, hbegun⟩
    · obtain ⟨hdetached', hsame⟩ := ho.detached hdetached
      exact .inl ⟨hdetached', hall.trans hsame.symm⟩
    · refine .inr ⟨p, ?_, hbegun⟩
      rw [hnew]
      exact List.mem_append_left _ hp

theorem Fed.peer_brought {own s t : World} {e : Env} (h : Fed own s) (hb : Brought s t e) :
    Fed own t := by
  refine ⟨?_, ?_, ?_, ?_⟩
  · rw [hb.sent]
    exact h.begun
  · rw [hb.shutdowns, hb.sent]
    exact h.shut
  · rw [hb.shutdownWr, hb.shutdowns]
    exact h.hung
  · rw [hb.attached, hb.sent, hb.shutdowns]
    exact h.ended

theorem guarded_end {x : End × End} (h : Connection x) : x.1.Guarded Onward :=
  Reach.guarded advances_body (end_fixed h)

theorem connection_fed {x : End × End} (h : Connection x) :
    Fed x.1.state x.2.state := by
  induction h with
  | start h =>
      obtain ⟨h, h'⟩ := h
      rw [h, h']
      refine ⟨List.prefix_refl _, fun p hp => ?_, fun hdown => ?_, fun hfin => ?_⟩
      · cases hp
      · cases hdown
      · cases hfin
  | step m h hok hs ih =>
      cases m with
      | inl m =>
          obtain ⟨c, hmove, rfl⟩ := Option.map_eq_some_iff.mp hs
          rcases end_step (guarded_end h) hmove with honward | ⟨e, rfl, he⟩
          · exact ih.own_onward honward
          · exact ih.own_brought (brought_of_env he) hok.2
      | inr m =>
          obtain ⟨c, hmove, rfl⟩ := Option.map_eq_some_iff.mp hs
          rcases end_step (guarded_end (Coupled.swap h)) hmove with honward | ⟨e, rfl, he⟩
          · exact ih.peer_onward honward
          · exact ih.peer_brought (brought_of_env he)

/-! ### End to end -/

/-- What `peer` was offered and what the protocol at the other end, in state
`own`, was handed. -/
structure Conveys (peer own : World) : Prop where
  begun : own.delivered <+: peer.offered
  whole : peer.connLost = 0 → peer.attached = true → own.closing = false →
    own.delivered ++ own.replayBytes ++ own.ioBytes ++ own.kernel.stream ++
      peer.sent.drop own.received.length ++ peer.buffer.flatten = peer.offered

theorem conveys_of_fed {own peer : World} (h : Fed own peer) (hown : Heard own)
    (hpeer : Lossless peer) : Conveys peer own := by
  have hread : own.read <+: own.received := List.prefix_append _ _
  refine ⟨(hown.begun.trans (hread.trans h.begun)).trans hpeer.accepted, fun hl ha hc => ?_⟩
  have hstream := hown.carried.stream hc
  rw [World.pending_bytes] at hstream
  calc own.delivered ++ own.replayBytes ++ own.ioBytes ++ own.kernel.stream ++
        peer.sent.drop own.received.length ++ peer.buffer.flatten
      = own.received ++ peer.sent.drop own.received.length ++ peer.buffer.flatten := by
        rw [World.received, ← hstream]
        simp only [List.append_assoc]
    _ = peer.sent ++ peer.buffer.flatten := by
        rw [← List.prefix_iff_eq_append.mp h.begun]
        simp
    _ = peer.offered := hpeer.whole hl ha

/-- **End to end.** At either end of a connection, what the protocol has been
handed is how the bytes begin that the other end was offered; and while the
sender has not lost its connection and the receiver is open, every byte that
is missing is in one of the buffers between the two, in order. -/
theorem end_to_end {near far : End} (h : Connection (near, far)) (hn : near.Outside)
    (hf : far.Outside) : Conveys near.state far.state ∧ Conveys far.state near.state :=
  ⟨conveys_of_fed (connection_fed (Coupled.swap h)) (end_heard (Coupled.swap h) hf)
      (end_lossless h hn),
    conveys_of_fed (connection_fed h) (end_heard h hn) (end_lossless (Coupled.swap h) hf)⟩

def nearMoves (ms : List (List EndMove)) : List (EndMove ⊕ EndMove) := ms.flatten.map Sum.inl

def farMoves (ms : List (List EndMove)) : List (EndMove ⊕ EndMove) := ms.flatten.map Sum.inr

/-- Both ends are registered; the first writes three bytes, of which its kernel
takes two. -/
def halfSent : List (EndMove ⊕ EndMove) :=
  nearMoves [connect, Move.andRun (.call (.write [1, 2, 3])) 3, Move.andRun (.answer (.done 2)) 2,
    Move.andRun (.answer (.done 0)) 4] ++ farMoves [connect]

theorem connection_start : Connection
    (⟨World.new .plain connectedSocket, none, []⟩, ⟨World.new .plain connectedSocket, none, []⟩) :=
  .start ⟨rfl, rfl⟩

/-- One byte has been delivered, one waits in the socket of the receiver and one
in the buffer of the sender. -/
theorem end_to_end_example : ∃ near far : End,
    far.state.delivered = [1] ∧ far.state.kernel.stream = [2] ∧ near.state.buffer = [[3]] ∧
      Conveys near.state far.state ∧ Conveys far.state near.state := by
  have hrun := connection_start.of_replay (halfSent ++ farMoves [
    [.env (.arriveBytes [1]), .env (.drainRun 0), .env (.drainRun 1), .env (.arriveBytes [2])],
    Move.andRun (.call .popIo) 6, Move.andRun (.ret (.ok 0)) 1]) rfl
  exact ⟨_, _, rfl, rfl, rfl, end_to_end hrun rfl rfl⟩

/-- **The end of the stream, end to end.** A protocol hears of the end of the
stream only when the other end has shut down or closed its socket and all that
was sent has been handed over; if the other end was shut down, that is all it
was offered. -/
theorem end_of_stream {near far : End} (h : Connection (near, far)) (hn : near.Outside)
    (hf : far.Outside) (he : .eofReceived ∈ far.state.log) :
    (near.state.attached = false ∨ near.state.shutdowns ≠ []) ∧
      far.state.delivered = near.state.sent ∧
      (near.state.shutdowns ≠ [] → far.state.delivered = near.state.offered) := by
  have hfed : Fed far.state near.state := connection_fed (Coupled.swap h)
  have hheard : Heard far.state := end_heard (Coupled.swap h) hf
  have hlossless : Lossless near.state := end_lossless h hn
  have hread : far.state.EofRead := Nat.add_pos_left (List.count_pos_iff.mpr he) _
  obtain ⟨hempty, hfin⟩ := hheard.exhausted hread
  have hdelivered : far.state.delivered = far.state.received := by
    rw [World.received, hempty, List.append_nil]
    exact hheard.whole he
  have hsent : far.state.received = near.state.sent := by
    rcases hfed.ended hfin with ⟨-, hall⟩ | ⟨p, hp, hbegun⟩
    · exact hall
    · -- Nothing has been sent since that shutdown.
      rw [(hlossless.shut p hp).1] at hbegun
      exact hfed.begun.eq_of_length (Nat.le_antisymm hfed.begun.length_le hbegun.length_le)
  refine ⟨?_, hdelivered.trans hsent, fun hshut => ?_⟩
  · rcases hfed.ended hfin with ⟨hdetached, -⟩ | ⟨p, hp, -⟩
    · exact .inl hdetached
    · exact .inr (List.ne_nil_of_mem hp)
  · obtain ⟨p, hp⟩ := List.exists_mem_of_ne_nil _ hshut
    exact (hdelivered.trans hsent).trans (hlossless.shut p hp).2.1

/-- The sender half-closes with a byte in its buffer. -/
theorem end_of_stream_example : ∃ near far : End,
    .eofReceived ∈ far.state.log ∧ near.state.offered = [1, 2, 3] ∧
      (near.state.attached = false ∨ near.state.shutdowns ≠ []) ∧
      far.state.delivered = near.state.sent ∧
      (near.state.shutdowns ≠ [] → far.state.delivered = near.state.offered) := by
  have hrun := connection_start.of_replay (halfSent ++ nearMoves [
    Move.andRun (.call .writeEof) 3, [.env .fireWriter], Move.andRun (.call .popIo) 6,
    Move.andRun (.answer (.done 1)) 12] ++ farMoves [
    [.env (.arriveBytes [1, 2]), .env (.arriveBytes [3]), .env .arriveFin, .env (.drainRun 0),
      .env (.drainRun 9), .env (.drainRun 9), .env (.drainRun 0)],
    Move.andRun (.call .popIo) 6, Move.andRun (.ret (.ok 0)) 1,
    Move.andRun (.call .popIo) 6]) rfl
  have hheard : UserCall.eofReceived ∈ [UserCall.connectionMade, .dataReceived [1, 2, 3],
      .eofReceived] := by decide
  exact ⟨_, _, hheard, rfl, end_of_stream hrun rfl rfl hheard⟩

end Tokioop.Transport
