import Tokioop.Datagram.Frame

/-!
Where the datagrams are that `sendto` was called with.

The record lists the arguments of every call of `sendto`, also of those made
from callbacks. While the connection is open, the datagrams of the calls that
were not rejected are, in this order, those that are settled, each accepted by
the kernel or reported by `error_received`, and those in the buffer.
-/

namespace Tokioop.Datagram

open Fd Kit Kit.Prog
open Transport (Exc Query Reply Job IoItem)

/-! ### The record -/

/-- A call of `sendto` is noted with its arguments. -/
def noteSendto : Method → List Outgoing → List Outgoing
  | .sendto data addr, g => g ++ [(data.bytes, addr)]
  | _, g => g

/-- What became of a datagram that is not in the buffer. -/
inductive Outcome
  | accepted
  | lost
  deriving DecidableEq

section

variable (taken : List Outgoing)

theorem map_fst_of_accepted : (taken.map fun d => (d, Outcome.accepted)).map Prod.fst = taken := by
  induction taken with
  | nil => rfl
  | cons d ds ih => rw [List.map_cons, List.map_cons, ih]

theorem filter_of_accepted : (taken.map fun d => (d, Outcome.accepted)).filter
    (fun p => p.2 = .accepted) = taken.map fun d => (d, Outcome.accepted) :=
  List.filter_eq_self.mpr fun p hp => by
    obtain ⟨d, -, rfl⟩ := List.mem_map.mp hp
    rfl

theorem countP_of_accepted : (taken.map fun d => (d, Outcome.accepted)).countP
    (fun p => p.2 = .lost) = 0 :=
  List.countP_eq_zero.mpr fun p hp => by
    obtain ⟨d, -, rfl⟩ := List.mem_map.mp hp
    exact Bool.false_ne_true

end

namespace World

/-- The datagrams of the calls that are not rejected. -/
def offered (s : World) (g : List Outgoing) : List Outgoing :=
  (g.filter fun o => !s.rejects o).map s.outgoing

/-- The datagrams of `past` are settled: the kernel has accepted those it is
said to have accepted, in this order, and one error was reported for each of
the others. -/
structure Tallied (s : World) (past : List (Outgoing × Outcome)) : Prop where
  sent : s.sent = (past.filter fun p => p.2 = .accepted).map Prod.fst
  errors : s.sendErrors = past.countP fun p => p.2 = .lost

/-- Every datagram that was offered is settled or in the buffer. -/
def Balanced (s : World) (offers : List Outgoing) : Prop :=
  ∃ past, offers = past.map Prod.fst ++ s.buffer ∧ s.Tallied past

theorem offered_reject {s : World} {g : List Outgoing} {o : Outgoing} (h : s.rejects o = true) :
    s.offered (g ++ [o]) = s.offered g := by
  simp [offered, List.filter_append, h]

theorem offered_accept {s : World} {g : List Outgoing} {o : Outgoing} (h : s.rejects o = false) :
    s.offered (g ++ [o]) = s.offered g ++ [s.outgoing o] := by
  simp [offered, List.filter_append, h]

theorem offered_congr {s t : World} (h : t.address = s.address) (g : List Outgoing) :
    t.offered g = s.offered g := by
  unfold offered rejects outgoing
  rw [h]

namespace Balanced

variable {s : World} {offers : List Outgoing}

theorem of_aside {t : World} (h : s.Balanced offers) (ha : Aside s t) : t.Balanced offers := by
  obtain ⟨past, hoffers, htallied⟩ := h
  refine ⟨past, ?_, ?_, ?_⟩
  · rw [ha.buffer]
    exact hoffers
  · rw [ha.sent]
    exact htallied.sent
  · rw [ha.errors]
    exact htallied.errors

theorem queued (h : s.Balanced offers) (d : Outgoing) (len : Nat) :
    (s.queued d len).Balanced (offers ++ [d]) := by
  obtain ⟨past, hoffers, htallied⟩ := h
  refine ⟨past, ?_, htallied.sent, htallied.errors⟩
  rw [hoffers, List.append_assoc]
  rfl

/-- Datagrams at the front of the buffer are accepted. -/
theorem accepted {u : World} (taken : List Outgoing) (h : s.Balanced offers)
    (hbuffer : s.buffer = taken ++ u.buffer) (hsent : u.sent = s.sent ++ taken)
    (hlog : u.log = s.log) : u.Balanced offers := by
  obtain ⟨past, hoffers, htallied⟩ := h
  refine ⟨past ++ taken.map fun d => (d, .accepted), ?_, ?_, ?_⟩
  · rw [hoffers, hbuffer, List.map_append, List.append_assoc, map_fst_of_accepted]
  · rw [hsent, htallied.sent, List.filter_append, List.map_append, filter_of_accepted,
      map_fst_of_accepted]
  · rw [sendErrors, hlog, List.countP_append, countP_of_accepted, Nat.add_zero]
    exact htallied.errors

/-- An error is reported for the datagram at the front of the buffer. -/
theorem lost {u : World} {d : Outgoing} {e : UserCall} (h : s.Balanced offers)
    (hbuffer : s.buffer = d :: u.buffer) (hsent : u.sent = s.sent) (hlog : u.log = s.log)
    (he : e.isSendError = true) : (u.logged e).Balanced offers := by
  obtain ⟨past, hoffers, htallied⟩ := h
  refine ⟨past ++ [(d, .lost)], ?_, ?_, ?_⟩
  · rw [hoffers, hbuffer, List.map_append, List.append_assoc]
    rfl
  · show u.sent = _
    rw [hsent, htallied.sent, List.filter_append]
    simp
  · show (u.log ++ [e]).countP _ = _
    rw [hlog, List.countP_append, List.countP_append, ← htallied.errors]
    simp [sendErrors, he]

end Balanced

end World

/-! ### The contract -/

/-- Any method at any time; registering the writer succeeds. -/
def writerRegisters : TransportPolicy where
  call := anyCall.call
  env := anyCall.env
  ret := anyCall.ret
  answer q a _ := q = .register false → a.failed = false

instance (top : Bool) (m : Method) (s : World) : Decidable (writerRegisters.call top m s) :=
  inferInstanceAs (Decidable (anyCall.call top m s))

instance (top : Bool) (h : Env) (s : World) : Decidable (writerRegisters.env top h s) :=
  inferInstanceAs (Decidable (anyCall.env top h s))

instance (e : UserCall) (r : Except Exc Unit) (s : World) : Decidable (writerRegisters.ret e r s) :=
  inferInstanceAs (Decidable True)

instance (q : Query) (a : Reply) (s : World) : Decidable (writerRegisters.answer q a s) :=
  inferInstanceAs (Decidable (_ → _))

/-- While the connection is open the offered datagrams are balanced. -/
structure Booked (s : World) (g : List Outgoing) : Prop where
  manned : s.manned
  balanced : s.live = true → s.Balanced (s.offered g)

def ledgerContract : NotedContract (List Outgoing) where
  Inv s := Booked s.1 s.2
  Rely _ _ := True
  Ret _ _ _ := True
  Answer q a _ := q = .register false → a.failed = false
  refl _ := trivial
  trans _ _ := trivial

abbrev Keeping (s : World × List Outgoing) : Prop := Booked s.1 s.2 ∧ True

theorem booked_of_dead {s : World} {g : List Outgoing} (hmanned : s.manned)
    (hdead : s.live = false) :
    Booked s g :=
  ⟨hmanned, fun h => by rw [hdead] at h; cases h⟩

theorem booked_of_aside {s t : World} {g : List Outgoing} (h : Booked s g) (ha : World.Aside s t) :
    Booked t g := by
  refine ⟨ha.manned h.manned, fun hl => ?_⟩
  rw [World.offered_congr ha.address]
  exact (h.balanced (ha.live hl)).of_aside ha

theorem booked_forceClose (exc : Option Exc) {s : World} {g : List Outgoing} (hs : Booked s g) :
    ((forceClose exc).beside _).wp ledgerContract (fun _ => Keeping) (s, g) :=
  wp_beside_forceClose exc (fun _ => ⟨hs, trivial⟩) fun _ _ hdead _ _ hmanned =>
    ⟨booked_of_dead (hmanned hs.manned) hdead, trivial⟩

/-- A fatal error ends what there is to keep. -/
theorem booked_fatal {s : World} {g : List Outgoing} (hs : s.manned) :
    Booked { s with fatal := true } g :=
  booked_of_dead hs (World.live_of_fatal rfl)

theorem frames_ledger : Frames ledgerContract where
  aside hs hst := ⟨booked_of_aside hs hst, trivial⟩
  failed hs _ _ _ := booked_forceClose (some _) (booked_fatal hs.manned)
  handled hu _ _ := booked_forceClose (some _) hu

theorem booked_fatalError {s : World} {g : List Outgoing} (e : Exc) (hs : s.manned) :
    ((fatalError e "Fatal write error on datagram transport").beside _).wp ledgerContract
      (fun _ => Keeping) (s, g) :=
  wp_beside_fatalError frames_ledger (by simp [fatalMessages]) (booked_fatal hs) fun _ =>
    booked_forceClose (some e) (booked_fatal hs)

/-! ### Sending -/

/-- An error is reported to the protocol, which is there while the connection
is open. -/
theorem booked_errorReceived {s : World} {g : List Outgoing} (e : Errno) {source : ErrorSource}
    (hmanned : s.manned)
    (hlost : s.live = true → (s.logged (.errorReceived e source)).Balanced (s.offered g)) :
    ((callProtocol (.errorReceived e source)).beside _).wp ledgerContract (fun _ => Keeping)
      (s, g) := by
  unfold callProtocol
  rw [wp_beside_bind, wp_beside_get]
  show ((if s.protocol = true then _ else _ : Meth Unit).beside _).wp _ _ (s, g)
  split
  · exact ⟨⟨hmanned, hlost⟩, fun t r ht _ _ => ⟨ht, trivial⟩⟩
  · rename_i hp
    refine ⟨booked_of_dead hmanned (World.live_of_detached ?_), trivial⟩
    by_contra ha
    exact hp (hmanned (Bool.of_not_eq_false ha))

theorem booked_enqueue {s : World} {g : List Outgoing} {d : Outgoing} {len : Nat}
    (hmanned : s.manned)
    (hqueued : s.live = true → (s.queued d len).Balanced (s.offered g)) :
    ((enqueue d len).beside _).wp ledgerContract (fun _ => Keeping) (s, g) := by
  unfold enqueue
  rw [wp_beside_bind, wp_beside_modify]
  exact kept_maybePauseProtocol frames_ledger (s.queued d len, g) ⟨hmanned, hqueued⟩

/-- `sendto` notes its datagram and finds a place for it. -/
theorem booked_sendto (data : Payload) (addr : Option Target) {s : World} {g : List Outgoing}
    (hs : Booked s g) :
    ((sendto data addr).beside _).wp ledgerContract (fun _ => Keeping)
      (s, g ++ [(data.bytes, addr)]) := by
  have hmanned := hs.manned
  have hbalanced := hs.balanced
  refine wp_beside_sendto (fun hno => ?_) fun hyes => ?_
  · refine ⟨⟨hmanned, fun hl => ?_⟩, trivial⟩
    rw [World.offered_reject hno]
    exact hbalanced hl
  · have hqueued : ∀ t : World, s.Aside t → t.live = true →
        (t.queued (s.outgoing (data.bytes, addr)) data.len).Balanced
          (t.offered (g ++ [(data.bytes, addr)])) := by
      intro t ht hl
      rw [World.offered_congr ht.address, World.offered_accept hyes]
      exact ((hbalanced (ht.live hl)).of_aside ht).queued _ _
    refine ⟨fun hl => ⟨booked_of_dead hmanned (World.live_of_lost (Nat.succ_ne_zero _)), trivial⟩,
      fun _ => ?_, fun hbuf => ⟨fun e _ => ?_, fun e => ?_, ⟨⟨hmanned, fun hl => ?_⟩, trivial⟩, ?_⟩⟩
    · exact booked_enqueue hmanned (hqueued s (.of_eq rfl))
    · exact booked_fatalError e hmanned
    · -- The datagram passes through an empty buffer.
      refine booked_errorReceived e hmanned fun hl => ?_
      refine World.Balanced.lost (d := s.outgoing (data.bytes, addr)) (u := s)
        (hqueued s (.of_eq rfl) hl) ?_ rfl rfl rfl
      show s.buffer ++ _ = _
      rw [hbuf, List.nil_append]
    · refine World.Balanced.accepted [s.outgoing (data.bytes, addr)]
        (hqueued s (.of_eq rfl) hl) ?_ rfl rfl
      show s.buffer ++ _ = _ ++ s.buffer
      rw [hbuf, List.append_nil, List.nil_append]
    · rw [wp_beside_bind]
      unfold addWriter
      rw [wp_beside_bind, wp_beside_get]
      show ((if s.attached = true then _ else _ : Meth Unit).beside _).wp _ _ _
      split
      · rw [wp_beside_bind, wp_beside_query]
        intro a hans
        have hwriting : s.Aside s.writing := .of_eq rfl
        cases a with
        | fail e => exact absurd (hans rfl) (by simp [Transport.Reply.failed])
        | done n => exact booked_enqueue hmanned (hqueued s.writing hwriting)
        | wouldBlock => exact booked_enqueue hmanned (hqueued s.writing hwriting)
      · rename_i ha
        have hdead := World.live_of_detached (Bool.eq_false_iff.mpr ha)
        exact ⟨booked_of_dead hmanned hdead, trivial⟩

theorem booked_sendtoReady : Kept ledgerContract sendtoReady := by
  rintro ⟨s, g⟩ hs
  have hmanned : ∀ {u taken dropped}, Shipped s u taken dropped → u.manned := by
    intro u taken dropped hu
    rw [hu.eq]
    exact hs.manned
  have hbalanced : ∀ {u taken dropped}, Shipped s u taken dropped → u.live = true →
      World.Balanced { u with buffer := dropped ++ u.buffer } (u.offered g) := by
    intro u taken dropped hu hl
    rw [hu.eq] at hl
    have haddress : u.offered g = s.offered g := World.offered_congr (by rw [hu.eq]) g
    rw [haddress]
    refine World.Balanced.accepted taken (hs.balanced hl) ?_ ?_ ?_
    · rw [hu.buffer, List.append_assoc]
    · show u.sent = _
      rw [hu.eq]
    · show u.log = _
      rw [hu.eq]
  refine wp_beside_sendtoReady (fun u taken hu => ?_) (fun u taken d e hu => ?_)
    fun u taken d e hu _ => booked_fatalError e (hmanned hu)
  · exact kept_afterSending frames_ledger (u, g) ⟨hmanned hu, hbalanced hu⟩
  · exact booked_errorReceived e (hmanned hu) fun hl =>
      World.Balanced.lost (d := d) (u := u) (hbalanced hu hl) rfl rfl rfl rfl

/-! ### Runs -/

theorem booked_body {m : Method} {s : World × List Outgoing} (hs : Booked s.1 s.2) :
    (m.body.beside _).wp ledgerContract (fun _ => Keeping) (s.1, noteSendto m s.2) := by
  by_cases hsend : ∃ data addr, m = .sendto data addr
  · obtain ⟨data, addr, rfl⟩ := hsend
    exact booked_sendto data addr hs
  · have hnote : noteSendto m s.2 = s.2 := by
      cases m with
      | sendto data addr => exact absurd ⟨data, addr, rfl⟩ hsend
      | _ => rfl
    rw [hnote]
    by_cases habort : m = .abort
    · rw [habort]
      exact booked_forceClose none hs
    · exact kept_body frames_ledger (fun data addr heq => hsend ⟨data, addr, heq⟩) habort
        booked_sendtoReady s hs

theorem sound_ledger : Sound (transport.beside noteSendto) (writerRegisters.beside _)
    ledgerContract fun s => Booked s.1 s.2 where
  ret := id
  answer := id
  call_top _ _ hs _ := wp_mono _ (fun _ _ ht => ht.1) (booked_body hs)
  call_inner _ _ hs _ := booked_body hs
  env_top h s s' hs _ he := by
    obtain ⟨t, ht, rfl⟩ := Option.map_eq_some_iff.mp he
    exact (frames_env frames_ledger (g := s.2) hs ht).1
  env_inner h s s' hs _ he := by
    obtain ⟨t, ht, rfl⟩ := Option.map_eq_some_iff.mp he
    exact frames_env frames_ledger (g := s.2) hs ht

/-- **Datagrams do not vanish.** While the connection of a datagram transport
is open, the datagrams `sendto` was called with and did not reject are, in
this order, the settled ones and those in the buffer. The kernel has accepted
some of the settled ones, in order and each once, and exactly one
`error_received` was called for each of the others. -/
theorem datagrams_kept {c : Config World UserCall Unit Exc Query Reply} {g : List Outgoing}
    (h : NotedReach transport writerRegisters noteSendto
      (fun s => ∃ address peername kernel, s = World.new address peername kernel) [] (c, g))
    (ho : c.Outside) (hl : c.state.live = true) :
    ∃ past : List (Outgoing × Outcome),
      c.state.offered g = past.map Prod.fst ++ c.state.buffer ∧
      c.state.sent = (past.filter fun p => p.2 = .accepted).map Prod.fst ∧
      c.state.sendErrors = past.countP fun p => p.2 = .lost := by
  have hinit : ∀ s, (∃ address peername kernel, s = World.new address peername kernel) →
      Booked s [] := by
    rintro s ⟨address, peername, kernel, rfl⟩
    exact ⟨fun _ => rfl, fun _ => ⟨[], rfl, rfl, rfl⟩⟩
  have hs : Booked c.state g := sound_ledger.noted hinit (fun _ hs => hs) h ho
  obtain ⟨past, hoffers, htallied⟩ := hs.balanced hl
  exact ⟨past, hoffers, htallied.sent, htallied.errors⟩

/-- Three datagrams wait; the first is accepted, the second lost, and
`error_received` offers a fourth. -/
theorem datagrams_kept_four :
    ∃ (c : Config World UserCall Unit Exc Query Reply) (g : List Outgoing),
      g = [([7], someone), ([8, 9], someone), ([], someone),
        ([1, 2, 3], someone)] ∧
      c.state.buffer = [([], someone), ([1, 2, 3], someone)] ∧
      c.state.sendErrors = 1 ∧ ∃ past : List (Outgoing × Outcome),
        c.state.offered g = past.map Prod.fst ++ c.state.buffer ∧
        c.state.sent = (past.filter fun p => p.2 = .accepted).map Prod.fst ∧
        c.state.sendErrors = past.countP fun p => p.2 = .lost := by
  have hstart : NotedReach transport writerRegisters noteSendto
      (fun s => ∃ address peername kernel, s = World.new address peername kernel) []
      (⟨.new none false ⟨[], [], none, false⟩, none, []⟩, []) := .start ⟨_, ⟨_, _, _, rfl⟩, rfl⟩
  obtain ⟨⟨c, g⟩, hc, hend⟩ := hstart.exists_of_replay [connect,
    Move.andRun (.call (.sendto (.ofBytes [7]) someone)) 2, Move.andRun (.answer .wouldBlock) 1,
    Move.andRun (.answer (.done 0)) 4, Move.andRun (.call (.sendto (.ofBytes [8, 9]) someone)) 4,
    Move.andRun (.call (.sendto (.ofBytes []) someone)) 4, [.env .fireWriter],
    Move.andRun (.call .popIo) 7, Move.andRun (.answer (.done 1)) 4,
    Move.andRun (.answer (.fail 111)) 3,
    Move.andRun (.call (.sendto (.ofBytes [1, 2, 3]) someone)) 4,
    Move.andRun (.ret (.ok ())) 1].flatten
    (fun x => x.1.code.isNone && (x.1.state.live && (x.2 = [([7], someone),
      ([8, 9], someone), ([], someone), ([1, 2, 3], someone)] &&
      (x.1.state.buffer = [([], someone), ([1, 2, 3], someone)] &&
      x.1.state.sendErrors = 1)))) (by decide +kernel)
  simp only [Bool.and_eq_true, Option.isNone_iff_eq_none, decide_eq_true_eq] at hend
  obtain ⟨ho, hl, hg, hbuf, herrors⟩ := hend
  exact ⟨c, g, hg, hbuf, herrors, datagrams_kept hc ho hl⟩

/-- Two datagrams that are nowhere: `sendto` raised for them. The first has
an address other than that of the connected socket, and for the second the
writer could not be registered. -/
theorem offered_nowhere :
    (∃ (c : Config World UserCall Unit Exc Query Reply) (g : List Outgoing),
      NotedReach transport writerRegisters noteSendto
        (fun s => ∃ address peername kernel, s = World.new address peername kernel) [] (c, g) ∧
      c.Outside ∧ c.state.live = true ∧ g = [([7], some (.addr (.inet4 0x7f000001#32 9#16)))] ∧
      c.state.sent = [] ∧ c.state.buffer = [] ∧ c.state.sendErrors = 0) ∧
    ∃ (c : Config World UserCall Unit Exc Query Reply) (g : List Outgoing),
      NotedReach transport anyCall noteSendto
        (fun s => ∃ address peername kernel, s = World.new address peername kernel) [] (c, g) ∧
      c.Outside ∧ c.state.live = true ∧ g = [([7], someone)] ∧
      c.state.sent = [] ∧ c.state.buffer = [] ∧ c.state.sendErrors = 0 := by
  constructor
  · have hstart : NotedReach transport writerRegisters noteSendto
        (fun s => ∃ address peername kernel, s = World.new address peername kernel) []
        (⟨.new someone true ⟨[], [], none, false⟩, none, []⟩, []) :=
      .start ⟨_, ⟨_, _, _, rfl⟩, rfl⟩
    obtain ⟨⟨c, g⟩, hc, hend⟩ := hstart.exists_of_replay [connect,
      Move.andRun (.call (.sendto (.ofBytes [7])
        (some (.addr (.inet4 0x7f000001#32 9#16))))) 2].flatten
      (fun x => x.1.code.isNone && (x.1.state.live &&
        (x.2 = [([7], some (.addr (.inet4 0x7f000001#32 9#16)))] && (x.1.state.sent = [] &&
        (x.1.state.buffer = [] && x.1.state.sendErrors = 0))))) (by decide +kernel)
    simp only [Bool.and_eq_true, Option.isNone_iff_eq_none, decide_eq_true_eq] at hend
    exact ⟨c, g, hc, hend⟩
  · have hstart : NotedReach transport anyCall noteSendto
        (fun s => ∃ address peername kernel, s = World.new address peername kernel) []
        (⟨.new none false ⟨[], [], none, false⟩, none, []⟩, []) := .start ⟨_, ⟨_, _, _, rfl⟩, rfl⟩
    obtain ⟨⟨c, g⟩, hc, hend⟩ := hstart.exists_of_replay [connect,
      Move.andRun (.call (.sendto (.ofBytes [7]) someone)) 2, Move.andRun (.answer .wouldBlock) 1,
      Move.andRun (.answer (.fail 12)) 1].flatten
      (fun x => x.1.code.isNone && (x.1.state.live && (x.2 = [([7], someone)] &&
        (x.1.state.sent = [] && (x.1.state.buffer = [] && x.1.state.sendErrors = 0)))))
      (by decide +kernel)
    simp only [Bool.and_eq_true, Option.isNone_iff_eq_none, decide_eq_true_eq] at hend
    exact ⟨c, g, hc, hend⟩

end Tokioop.Datagram
