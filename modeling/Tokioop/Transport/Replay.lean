import Tokioop.Transport.Reading

/-!
Drain-mode reading with a protocol that is never changed.

The payloads between the kernel and the protocol form one queue, `pending`:
the replay buffer followed by the completions of the loop. The drain task
appends at its end, a batch that finds the transport paused moves the
boundary between the two parts, and payloads leave at the front, either in
`_flush_replay` or straight from a completion; the latter only when the
replay buffer is empty, which is what `Settled` is about.
-/

namespace Tokioop.Transport

open Fd Kit Kit.Prog

/-! ### The queue of payloads -/

/-- Nothing is left to replay while the transport is reading. -/
def World.Settled (s : World) : Prop := s.isReading = true → s.replay = []

theorem bytes_of_payload (i : IoItem) :
    (i.payload.elim [] ReplayItem.bytes : List UInt8) = i.bytes := by
  cases i with
  | callback slot => rfl
  | data d => cases d <;> rfl

theorem payloads_bytes (io : List IoItem) :
    (io.filterMap IoItem.payload).flatMap ReplayItem.bytes = io.flatMap IoItem.bytes := by
  induction io with
  | nil => rfl
  | cons i io ih =>
      rw [List.flatMap_cons, ← ih, ← bytes_of_payload]
      cases hi : i.payload with
      | none => rw [List.filterMap_cons_none hi]; rfl
      | some item => rw [List.filterMap_cons_some hi]; rfl

theorem World.pending_bytes (s : World) :
    s.pending.flatMap ReplayItem.bytes = s.replayBytes ++ s.ioBytes := by
  rw [World.pending, List.flatMap_append, payloads_bytes]
  rfl

/-- The payload at the front leaves the queue. -/
structure Taken (s u : World) (item : ReplayItem) : Prop where
  eq : u = { s with replay := u.replay, io := u.io }
  pending : s.pending = item :: u.pending
  replay : s.replay = [] → u.replay = []

theorem taken_replay {s : World} {item : ReplayItem} {rest : List ReplayItem}
    (h : s.replay = item :: rest) : Taken s { s with replay := rest } item :=
  ⟨rfl, by simp [World.pending, h], fun h' => by simp [h] at h'⟩

theorem taken_io {s : World} {i : IoItem} {item : ReplayItem} {rest : List IoItem}
    (hr : s.replay = []) (h : s.io = i :: rest) (hi : i.payload = some item) :
    Taken s { s with io := rest } item :=
  ⟨rfl, by simp [World.pending, hr, h, List.filterMap_cons_some hi], fun _ => hr⟩

/-- The calls that hand a payload to the protocol. -/
def ReplayItem.calls : ReplayItem → List UserCall
  | .stream [] => [.eofReceived]
  | .stream data => [.dataReceived data]
  | .error _ => []

def World.handed (u : World) (item : ReplayItem) : World :=
  { u with
    log := u.log ++ item.calls
    untimely := (item.calls.foldl World.logged u).untimely }

theorem calls_bytes (item : ReplayItem) : item.calls.flatMap UserCall.bytes = item.bytes := by
  match item with
  | .stream [] => rfl
  | .stream (b :: bs) => simp [ReplayItem.calls, UserCall.bytes, ReplayItem.bytes]
  | .error e => rfl

/-! ### Contracts for drain mode -/

/-- What holds of every drain-mode transport: nothing is lost, duplicated or
reordered. -/
structure Carried (s : World) : Prop where
  base : Base s
  stream : s.closing = false → s.delivered ++ s.pending.flatMap ReplayItem.bytes = s.read
  mode : s.drainTcp = true
  protocol : s.closing = false → s.protocol = some .plain
  reader : ∀ slot, s.reader ≠ some (.callback slot)

/-- `data_received` and `eof_received` may raise ordinary exceptions, the
other calls whatever they like. -/
def ordinary (e : UserCall) : Except Exc Nat → Bool
  | .ok _ => true
  | .error x => e.quiet || !x.exits

/-- The contract of a drain-mode transport that keeps `Inv` while callbacks
are open. -/
def drainContract (Inv : World → Prop) (Answer : Query → Reply → World → Prop) :
    Contract World UserCall Nat Exc Query Reply where
  Inv := Inv
  Rely s t := (s.closing = true → t.closing = true) ∧ (s.Settled → t.Settled)
  Ret e r _ := ordinary e r = true
  Answer := Answer
  refl _ := ⟨id, id⟩
  trans h h' := ⟨h'.1 ∘ h.1, h'.2 ∘ h.2⟩

/-- An invariant of drain-mode transports: what it has to survive. -/
structure Drains (Inv : World → Prop) (Answer : Query → Reply → World → Prop) : Prop where
  carried : ∀ {s}, Inv s → Carried s
  quiet : ∀ {s s'}, Inv s → Quiet s s' → Inv s'
  pausing : ∀ {s} (b : Bool), Inv s → Inv { s with paused := b }
  watch : ∀ {s a} (edge : Bool), Inv s → Answer (.register true) a s → a.failed = false →
    Inv { s with reader := some (.drain (DrainTask.fresh edge)) }
  take : ∀ {s u item}, Inv s → s.closing = false → Taken s u item → Inv (u.handed item)
  stash : ∀ {s : World} {replay : List ReplayItem} {io : List IoItem}, Inv s →
    World.pending { s with replay := replay, io := io } = s.pending →
    Inv { s with replay := replay, io := io }
  drop : ∀ {s i rest}, Inv s → s.closing = true → s.io = i :: rest → Inv { s with io := rest }

section

variable {Inv : World → Prop} {Answer : Query → Reply → World → Prop}

theorem ordinary_drainContract : Ordinary (drainContract Inv Answer) := by
  intro e x _ he hret
  have h : (e.quiet || !x.exits) = true := hret
  simpa [he] using h

theorem rely_of_quiet {s s' : World} (hq : Quiet s s') :
    (drainContract Inv Answer).Rely s s' := by
  refine ⟨hq.closing, fun hset hreading => ?_⟩
  rw [s'.isReading_iff, hq.paused] at hreading
  rw [hq.replay]
  exact hset (s.isReading_iff.mpr ⟨hq.wasOpen hreading.1, hreading.2⟩)

/-- The steps that leave the payloads where they are. -/
theorem rely_of_eq {s s' : World} (hc : s'.closing = s.closing) (hp : s'.paused = s.paused)
    (hr : s.replay = [] → s'.replay = []) : (drainContract Inv Answer).Rely s s' := by
  refine ⟨fun h => hc.trans h, fun hset hreading => hr (hset ?_)⟩
  rwa [World.isReading, hc, hp] at hreading

variable (hD : Drains Inv Answer)
include hD

theorem Drains.frames : Frames (drainContract Inv Answer) fun _ => True :=
  .of_quiet (fun hs => (hD.carried hs).base) (fun h => h.1)
    fun hs hq => ⟨hD.quiet hs hq, rely_of_quiet hq⟩

/-- A payload at the front of the queue can be handed over. -/
theorem Drains.accepts {s u : World} {item : ReplayItem} (hs : Inv s) (hc : s.closing = false)
    (ht : Taken s u item) : Accepts (drainContract Inv Answer) s u item := by
  have hgiven := hD.take hs hc ht
  have hp : u.protocol = some .plain := by
    rw [ht.eq]
    exact (hD.carried hs).protocol hc
  have hcu : u.closing = s.closing := by rw [ht.eq]
  have hpu : u.paused = s.paused := by rw [ht.eq]
  match item, hgiven with
  | .stream [], h => exact ⟨by rw [hp]; rfl, h, rely_of_eq hcu hpu ht.replay⟩
  | .stream (b :: bs), h => exact ⟨hp, h, rely_of_eq hcu hpu ht.replay⟩
  | .error e, h =>
      have hu : Inv u := by simpa [World.handed, ReplayItem.calls] using h
      exact ⟨hu, rely_of_eq hcu hpu ht.replay⟩

theorem Drains.reads : Reads (drainContract Inv Answer) (fun _ => True) fun _ => True where
  toFrames := hD.frames
  fit _ _ := trivial
  fit_unpause _ := trivial
  pause {s} hs _ := by
    have hhalt : s.halted = { s with paused := true } := by
      simp [World.halted, (hD.carried hs).mode]
    rw [hhalt]
    refine ⟨hD.pausing true hs, id, fun _ hreading => ?_⟩
    simp [World.isReading] at hreading
  unpause hs _ _ := hD.pausing false hs
  flushed {s t} _ hr hflushed := by
    refine ⟨hr.1, fun _ hreading => ?_⟩
    rw [t.isReading_iff] at hreading
    rcases hflushed ordinary_drainContract with hnil | hp | hc
    · exact hnil
    · simp [hp] at hreading
    · simp [hc] at hreading
  watch {s a} edge hs _ ha hok := by
    rw [World.watched_drain (hD.carried hs).mode]
    exact ⟨hD.watch edge hs ha hok, rely_of_eq rfl rfl id⟩
  deliver {s item rest} hs hreplay hreading _ :=
    hD.accepts hs (s.isReading_iff.mp hreading).1 (taken_replay hreplay)

theorem Drains.popIo {s : World} (hs : Inv s) (hset : s.Settled) :
    popIo.wp (drainContract Inv Answer)
      (fun _ t => Inv t ∧ (drainContract Inv Answer).Rely s t) s := by
  refine wp_popIo hD.reads hs trivial ?_ ?_ ?_ ?_
  · rintro i rest hio (hc | hi)
    · exact ⟨hD.drop hs hc hio, rely_of_eq rfl rfl id⟩
    · refine ⟨hD.stash hs ?_, rely_of_eq rfl rfl id⟩
      simp [World.pending, hio, List.filterMap_cons_none hi]
  · intro i item rest hio hi hc hp
    refine ⟨hD.stash hs ?_, id, fun _ hreading => ?_⟩
    · simp [World.pending, hio, List.filterMap_cons_some hi]
    · simp [World.isReading, hp] at hreading
  · intro i item rest hio hi hreading
    exact hD.accepts hs (s.isReading_iff.mp hreading).1 (taken_io (hset hreading) hio hi)
  · intro t slot ht hr
    exact absurd hr ((hD.carried ht).reader slot)

/-- Every run of the transport keeps the invariant, and between callbacks of
the loop nothing is left to replay while it is reading. -/
theorem Drains.sound {P : TransportPolicy}
    (hcall : ∀ {top m s}, P.call top m s →
      (∀ kind, m ≠ .setProtocol kind) ∧ (top = false → m.ofBatch = false))
    (henv : ∀ {top h s s'}, Inv s → P.env top h s → s.env h = some s' →
      Inv s' ∧ (drainContract Inv Answer).Rely s s')
    (hret : ∀ {e r s}, P.ret e r s → ordinary e r = true)
    (hanswer : ∀ {q a s}, P.answer q a s → Answer q a s) :
    Sound transport P (drainContract Inv Answer) fun s => Inv s ∧ s.Settled where
  ret := hret
  answer := hanswer
  call_top m s hs hm := by
    have hkeeps : (transport.body m).wp (drainContract Inv Answer)
        (fun _ t => Inv t ∧ (drainContract Inv Answer).Rely s t) s := by
      by_cases hio : m = .popIo
      · subst hio
        exact hD.popIo hs.1 hs.2
      · exact keeps_body hD.reads m (hcall hm).1 hio hs.1 (fun _ => trivial) fun _ _ => trivial
    exact wp_mono _ (fun _ t ht => ⟨ht.1, ht.2.2 hs.2⟩) hkeeps
  call_inner m s hs hm := by
    obtain ⟨hset, hbatch⟩ := hcall hm
    refine keeps_body hD.reads m hset ?_ hs (fun _ => trivial) fun _ _ => trivial
    rintro rfl
    simp [Method.ofBatch] at hbatch
  env_top h s s' hs hh he := by
    obtain ⟨hi, hr⟩ := henv hs.1 hh he
    exact ⟨hi, hr.2 hs.2⟩
  env_inner h s s' hs hh he := henv hs hh he

end

/-! ### No loss, no duplication, no reordering -/

/-- A step of the drain task records what it reads in the order in which it
pushes it. -/
theorem carried_afterDrain {s : World} (h : Carried s) (o : DrainOut) :
    Carried (s.afterDrain o) where
  base := ⟨h.base.lost, h.base.attached, h.base.jobs⟩
  stream hc := by
    have hbytes : (s.afterDrain o).pending.flatMap ReplayItem.bytes =
        s.pending.flatMap ReplayItem.bytes ++ o.pushes.flatMap streamBytes := by
      rw [World.pending_bytes, World.pending_bytes]
      simp [World.afterDrain, World.replayBytes, World.ioBytes, List.flatMap_map, IoItem.bytes]
    rw [hbytes, ← List.append_assoc]
    exact congrArg (· ++ o.pushes.flatMap streamBytes) (h.stream hc)
  mode := h.mode
  protocol := h.protocol
  reader := fun slot hr => by simp [World.afterDrain] at hr

theorem carried_drift {s s' : World} (h : Carried s) (hd : Drift s s') : Carried s' := by
  have heq := hd.eq
  have hbase : Base s' := by
    rw [heq]
    exact ⟨h.base.lost, h.base.attached, h.base.jobs⟩
  refine ⟨hbase, fun hc => ?_, ?_, fun hc => ?_, fun slot hr => h.reader slot (hd.callback slot hr)⟩
  · rw [hd.pending]
    rw [heq] at hc ⊢
    exact h.stream hc
  · rw [heq]
    exact h.mode
  · rw [heq] at hc ⊢
    exact h.protocol hc

theorem carried_env {s s' : World} {h : Env} (hs : Carried s) (he : s.env h = some s') :
    Carried s' := by
  by_cases hrun : ∃ size, h = .drainRun size
  · obtain ⟨size, rfl⟩ := hrun
    obtain ⟨t, o, -, -, rfl⟩ := env_drainRun he
    exact carried_afterDrain hs o
  · exact carried_drift hs (drift_of_env he fun size hh => hrun ⟨size, hh⟩)

/-- The environment does not pause, close or touch the replay buffer. -/
theorem rely_of_env {Inv : World → Prop} {Answer : Query → Reply → World → Prop}
    {s s' : World} {h : Env} (he : s.env h = some s') :
    (drainContract Inv Answer).Rely s s' := by
  by_cases hrun : ∃ size, h = .drainRun size
  · obtain ⟨size, rfl⟩ := hrun
    obtain ⟨t, o, -, -, rfl⟩ := env_drainRun he
    exact rely_of_eq rfl rfl id
  · have heq := (drift_of_env he fun size hh => hrun ⟨size, hh⟩).eq
    rw [heq]
    exact rely_of_eq rfl rfl id

theorem delivered_quiet {s s' : World} (hq : Quiet s s') : s'.delivered = s.delivered := by
  obtain ⟨new, hlog, hnew⟩ := hq.log
  have hnone : new.flatMap UserCall.bytes = [] := by
    refine List.flatMap_eq_nil_iff.mpr fun e he => ?_
    have hquiet := hnew e he
    cases e with
    | dataReceived data => cases hquiet
    | _ => rfl
  simp [World.delivered, hlog, hnone]

theorem carried_quiet {s s' : World} (h : Carried s) (hq : Quiet s s') : Carried s' where
  base := hq.base
  stream hc := by
    rw [delivered_quiet hq, hq.pending, hq.read]
    exact h.stream (hq.wasOpen hc)
  mode := by rw [hq.drainTcp, h.mode]
  protocol hc := by
    rw [hq.protocol hc, h.protocol (hq.wasOpen hc)]
  reader slot hr := by
    rcases hq.reader with hsame | hnone
    · exact h.reader slot (hsame ▸ hr)
    · rw [hnone] at hr
      cases hr

/-- Handing over the payload at the front of the queue. -/
theorem carried_take {s u : World} {item : ReplayItem} (h : Carried s) (hc : s.closing = false)
    (ht : Taken s u item) : Carried (u.handed item) := by
  have hstream := h.stream hc
  have heq := ht.eq
  rw [ht.pending, List.flatMap_cons, ← List.append_assoc] at hstream
  refine ⟨?_, fun _ => ?_, ?_, fun _ => ?_, ?_⟩
  · rw [heq]
    exact ⟨h.base.lost, h.base.attached, h.base.jobs⟩
  · have hdel : (u.handed item).delivered = s.delivered ++ item.bytes := by
      rw [← calls_bytes, heq]
      simp [World.handed, World.delivered]
    have hread : (u.handed item).read = s.read := by rw [heq]; rfl
    rw [hdel, hread]
    exact hstream
  · rw [heq]
    exact h.mode
  · rw [heq]
    exact h.protocol hc
  · rw [heq]
    exact h.reader

/-- Moves of payloads within the queue. -/
theorem carried_stash {s : World} {replay : List ReplayItem} {io : List IoItem} (h : Carried s)
    (hp : World.pending { s with replay := replay, io := io } = s.pending) :
    Carried { s with replay := replay, io := io } where
  base := ⟨h.base.lost, h.base.attached, h.base.jobs⟩
  stream hc := by
    rw [hp]
    exact h.stream hc
  mode := h.mode
  protocol := h.protocol
  reader := h.reader

/-- A closing transport owes nothing. -/
theorem carried_drop {s : World} {rest : List IoItem} (h : Carried s) (hc : s.closing = true) :
    Carried { s with io := rest } where
  base := .of_closing hc
  stream h' := by simp [hc] at h'
  mode := h.mode
  protocol h' := by simp [hc] at h'
  reader := h.reader

theorem drains_carried : Drains Carried fun _ _ _ => True where
  carried := id
  quiet := carried_quiet
  pausing _ h :=
    ⟨⟨h.base.lost, h.base.attached, h.base.jobs⟩, h.stream, h.mode, h.protocol, h.reader⟩
  watch _ h _ _ :=
    ⟨⟨h.base.lost, h.base.attached, h.base.jobs⟩, h.stream, h.mode, h.protocol,
      fun slot hr => by simp at hr⟩
  take h hc ht := carried_take h hc ht
  stash h hp := carried_stash h hp
  drop h hc _ := carried_drop h hc

def Method.setsProtocol : Method → Bool
  | .setProtocol _ => true
  | _ => false

/-- The protocol is never changed; batches and tasks wait for callbacks to
return; the kernel does what it likes. -/
def fixedProtocol : TransportPolicy where
  call top m _ := m.setsProtocol = false ∧ (top = false → m.ofBatch = false)
  env top h _ := top = false → h.ofKernel = true
  ret e r _ := ordinary e r = true
  answer _ _ _ := True

instance (top : Bool) (m : Method) (s : World) : Decidable (fixedProtocol.call top m s) :=
  inferInstanceAs (Decidable (_ ∧ _))

instance (top : Bool) (h : Env) (s : World) : Decidable (fixedProtocol.env top h s) :=
  inferInstanceAs (Decidable (top = false → h.ofKernel = true))

instance (e : UserCall) (r : Except Exc Nat) (s : World) : Decidable (fixedProtocol.ret e r s) :=
  inferInstanceAs (Decidable (ordinary e r = true))

instance (q : Query) (a : Reply) (s : World) : Decidable (fixedProtocol.answer q a s) :=
  inferInstanceAs (Decidable True)

theorem fixedProtocol_call {top : Bool} {m : Method} {s : World} (h : fixedProtocol.call top m s) :
    (∀ kind, m ≠ .setProtocol kind) ∧ (top = false → m.ofBatch = false) := by
  refine ⟨?_, h.2⟩
  rintro kind rfl
  cases h.1

theorem carried_new (kernel : Socket) :
    Carried (World.new .plain kernel) ∧ (World.new .plain kernel).Settled := by
  refine ⟨⟨⟨?_, ?_, ?_⟩, ?_, ?_, ?_, ?_⟩, ?_⟩ <;>
    simp [World.new, World.delivered, World.pending, World.Settled]

/-- **Nothing lost, duplicated or reordered.** In every run of a drain-mode
transport with a fixed protocol, whenever no method of it is executing and it
is not closing, the bytes handed to `data_received`, those in the replay
buffer and those in the loop's queue are the bytes read so far. -/
theorem bytes_conserved {c : Config World UserCall Nat Exc Query Reply}
    (h : Reach transport fixedProtocol (fun s => ∃ kernel, s = World.new .plain kernel) c)
    (ho : c.Outside) (hc : c.state.closing = false) :
    c.state.delivered ++ c.state.replayBytes ++ c.state.ioBytes = c.state.read := by
  have hsound : Sound transport fixedProtocol _ _ := drains_carried.sound fixedProtocol_call
    (fun hs _ he => ⟨carried_env hs he, rely_of_env he⟩) id (fun _ => trivial)
  have hinit : ∀ s, (∃ kernel, s = World.new .plain kernel) → Carried s ∧ s.Settled := by
    rintro s ⟨kernel, rfl⟩
    exact carried_new kernel
  have hcarried : Carried c.state := hsound.inv hinit (fun _ hs => hs.1) h ho
  rw [List.append_assoc, ← World.pending_bytes]
  exact hcarried.stream hc

/-- `connection_made` runs and the reader is registered. -/
def connect : List (Move Nat Exc Reply Method Env) :=
  [Move.andRun (.call .popReady) 4, Move.andRun (.ret (.ok 0)) 1, Move.andRun (.call .popReady) 4,
    Move.andRun (.answer (.done 0)) 2].flatten

/-- Three chunks are in the loop's queue when `data_received` is given the
first of them and pauses; the batch then stashes the second. -/
theorem bytes_conserved_example : ∃ c : Config World UserCall Nat Exc Query Reply,
    c.state.paused = true ∧ c.state.delivered = [1] ∧ c.state.replayBytes = [2] ∧
      c.state.ioBytes = [3] ∧
      c.state.delivered ++ c.state.replayBytes ++ c.state.ioBytes = c.state.read := by
  have hstart : Reach transport fixedProtocol (fun s => ∃ kernel, s = World.new .plain kernel)
      ⟨World.new .plain ⟨[], [], none, false⟩, none, []⟩ := .start ⟨_, ⟨_, rfl⟩, rfl⟩
  have hrun := hstart.of_replay [connect,
    [.env (.arriveBytes [1, 2, 3]), .env (.drainRun 0), .env (.drainRun 1), .env (.drainRun 1),
      .env (.drainRun 1), .env (.drainRun 0), .env (.drainRun 0)],
    Move.andRun (.call .popIo) 6, Move.andRun (.call .pauseReading) 4, Move.andRun (.ret (.ok 0)) 1,
    Move.andRun (.call .popIo) 5].flatten rfl
  exact ⟨_, rfl, rfl, rfl, rfl, bytes_conserved hrun rfl rfl⟩

end Tokioop.Transport
