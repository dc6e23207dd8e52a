import Tokioop.Transport.Replay

/-!
The end of the stream in drain mode.

The end of the stream is a level, since `recv` keeps answering 0, and the
drain task turns it into events: it pushes one `TcpEof` each time it reads
it. After the first it yields, counting on the batch to remove the watcher;
should the watcher still be registered when the task resumes, it reads the
end again. A watcher that is registered later starts by reading, and reads
the end again as well. The two conditions of `eofHandled` exclude just these
two steps.
-/

namespace Tokioop.Transport

open Fd Kit Kit.Prog

def ReplayItem.isEof : ReplayItem → Bool
  | .stream [] => true
  | _ => false

def IoItem.isEof : IoItem → Bool
  | .data .tcpEof => true
  | _ => false

/-- The task has read the end of the stream and not resumed from the yield
that follows. -/
def atEof (t : DrainTask) : Bool :=
  match t.pc with
  | .wrapUp _ _ _ eof => eof
  | .yielded _ eof => eof
  | _ => false

namespace World

def eofCalls (s : World) : Nat := s.log.count .eofReceived

def eofItems (s : World) : Nat := s.replay.countP ReplayItem.isEof + s.io.countP IoItem.isEof

/-- The end of the stream has been read: it is on its way, or was delivered. -/
def EofRead (s : World) : Prop := 0 < s.eofCalls + s.pending.countP ReplayItem.isEof

instance (s : World) : Decidable s.EofRead := inferInstanceAs (Decidable (_ < _))

/-- The drain task is still registered when it resumes after the end of the
stream. -/
def resumesEof (s : World) : Env → Bool
  | .drainRun _ =>
      match s.reader with
      | some (.drain t) => match t.pc with
        | .yielded _ eof => eof
        | _ => false
      | _ => false
  | _ => false

end World

/-- Once the end of the stream has been read, its task does not resume with
its watcher still registered, and no reader is registered again. -/
def eofHandled : TransportPolicy where
  call := fixedProtocol.call
  env top h s := fixedProtocol.env top h s ∧ s.resumesEof h = false
  ret := fixedProtocol.ret
  answer q a s := q = .register true → a.failed = false → ¬s.EofRead

instance (top : Bool) (m : Method) (s : World) : Decidable (eofHandled.call top m s) :=
  inferInstanceAs (Decidable (fixedProtocol.call top m s))

instance (top : Bool) (h : Env) (s : World) : Decidable (eofHandled.env top h s) :=
  inferInstanceAs (Decidable (_ ∧ _))

instance (e : UserCall) (r : Except Exc Nat) (s : World) : Decidable (eofHandled.ret e r s) :=
  inferInstanceAs (Decidable (ordinary e r = true))

instance (q : Query) (a : Reply) (s : World) : Decidable (eofHandled.answer q a s) :=
  inferInstanceAs (Decidable (q = .register true → a.failed = false → ¬s.EofRead))

/-! ### The drain task at the end of the stream -/

theorem tcpRecv_nil {sock sock' : Socket} {chunk size : Nat}
    (h : sock.tcpRecv chunk size = (.ok [], sock')) :
    sock'.stream = [] ∧ sock'.fin = true := by
  unfold Socket.tcpRecv at h
  split at h
  · simp at h
  · split at h
    · rename_i hnil
      split at h
      · rename_i hfin
        simp only [Prod.mk.injEq, true_and] at h
        rw [← h]
        exact ⟨hnil, hfin⟩
      · simp at h
    · rename_i hne
      simp only [Prod.mk.injEq, Recv.ok.injEq, List.take_eq_nil_iff] at h
      rcases h.1 with h0 | hnil
      · omega
      · exact absurd hnil hne

/-- A step of a task that has read the end pushes nothing. -/
theorem drainStep_atEof {kind : DrainKind} {size : Nat} {t : DrainTask} {sock : Socket}
    {o : DrainOut} (h : drainStep kind false size t sock = some o) (ht : atEof t = true)
    (hy : ∀ guard, t.pc ≠ .yielded guard true) :
    o.pushes = [] ∧ o.sock = sock ∧ atEof o.task = true := by
  unfold atEof at ht
  unfold drainStep at h
  split at ht
  · rename_i guard pushed drained eof hpc
    simp only [hpc, ht, if_true, Option.some.injEq] at h
    rw [← h]
    exact ⟨rfl, rfl, rfl⟩
  · rename_i guard eof hpc
    rw [ht] at hpc
    exact absurd hpc (hy guard)
  · cases ht

/-- A step of any other task pushes the end of the stream only when it has
just read it. -/
theorem drainStep_pushes {chunk size : Nat} {t : DrainTask} {sock : Socket}
    {o : DrainOut} (h : drainStep (.tcp chunk) false size t sock = some o) :
    (∀ d ∈ o.pushes, d ≠ .tcpEof ∧ d ≠ .tcpChunk []) ∨
      (o.pushes = [.tcpEof] ∧ atEof o.task = true ∧ o.sock.stream = [] ∧ o.sock.fin = true) := by
  unfold drainStep at h
  split at h
  · cases h
    exact .inl (by simp [DrainTask.goto])
  · simp only [Option.some.injEq] at h
    subst h
    unfold tcpTurn
    split
    · split
      · rename_i hrecv
        exact .inr ⟨rfl, rfl, tcpRecv_nil hrecv⟩
      · exact .inl (by simp)
      · exact .inl (by simp [DrainTask.goto])
      · exact .inl (by simp)
    · exact .inl (by simp [DrainTask.goto])
  · split at h
    · cases h
      exact .inl (by simp [DrainTask.goto])
    · split at h
      · cases h
        exact .inl (by simp)
      · cases h
        exact .inl (by simp [DrainTask.goto])
  · cases h
    exact .inl (by simp [DrainTask.goto])
  · split at h
    · cases h
      exact .inl (by simp [DrainTask.goto])
    · cases h
  · cases h

/-! ### The invariant -/

structure OneEof (s : World) : Prop where
  carried : Carried s
  once : s.eofCalls + s.pending.countP ReplayItem.isEof ≤ 1
  -- The socket has nothing more to give.
  exhausted : s.EofRead → s.kernel.stream = [] ∧ s.kernel.fin = true
  -- A drain task that is left waits in its yield.
  resting : s.EofRead → ∀ t, s.reader = some (.drain t) → atEof t = true
  last : s.pending.Pairwise fun x y => x.isEof = true → y.bytes = []
  order : s.log.Pairwise fun x y => x = .eofReceived → y.bytes = []
  heard : .eofReceived ∈ s.log → s.delivered = s.read

theorem eofCalls_quiet {s s' : World} (hq : Quiet s s') :
    s'.eofCalls = s.eofCalls ∧ (.eofReceived ∈ s'.log → .eofReceived ∈ s.log) ∧
      (s.log.Pairwise (fun x y => x = .eofReceived → y.bytes = []) →
        s'.log.Pairwise fun x y => x = .eofReceived → y.bytes = []) := by
  obtain ⟨new, hlog, hnew⟩ := hq.log
  have hno : .eofReceived ∉ new := fun hmem => by
    have h := hnew _ hmem
    cases h
  have hbytes : ∀ e ∈ new, e.bytes = [] := by
    intro e he
    have h := hnew e he
    cases e with
    | dataReceived data => cases h
    | _ => rfl
  refine ⟨?_, ?_, fun hpair => ?_⟩
  · rw [World.eofCalls, hlog, List.count_append, List.count_eq_zero.mpr hno]
    rfl
  · rw [hlog, List.mem_append]
    exact fun h => h.resolve_right hno
  · rw [hlog, List.pairwise_append]
    refine ⟨hpair, ?_, fun x _ y hy _ => hbytes y hy⟩
    exact List.pairwise_of_forall_mem_list fun x _ y hy _ => hbytes y hy

theorem oneEof_quiet {s s' : World} (h : OneEof s) (hq : Quiet s s') : OneEof s' := by
  obtain ⟨hcalls, hmem, horder⟩ := eofCalls_quiet hq
  have hread : s'.EofRead ↔ s.EofRead := by
    rw [World.EofRead, hcalls, hq.pending]
    rfl
  refine ⟨carried_quiet h.carried hq, ?_, fun he => ?_, fun he t ht => ?_, ?_, horder h.order,
    fun he => ?_⟩
  · rw [hcalls, hq.pending]
    exact h.once
  · rw [hq.kernel]
    exact h.exhausted (hread.mp he)
  · rcases hq.reader with hsame | hnone
    · exact h.resting (hread.mp he) t (hsame ▸ ht)
    · rw [hnone] at ht
      cases ht
  · rw [hq.pending]
    exact h.last
  · rw [delivered_quiet hq, hq.read]
    exact h.heard (hmem he)

/-- Once the end has been delivered, no byte is left. -/
theorem OneEof.no_bytes {s : World} (h : OneEof s) (hc : s.closing = false)
    (he : .eofReceived ∈ s.log) : s.pending.flatMap ReplayItem.bytes = [] := by
  have hstream := h.carried.stream hc
  rw [h.heard he] at hstream
  exact List.append_right_eq_self.mp hstream

theorem calls_eof (item : ReplayItem) :
    item.calls.count .eofReceived = (if item.isEof = true then 1 else 0) ∧
      (.eofReceived ∈ item.calls → item.isEof = true) ∧ item.calls.length ≤ 1 := by
  cases item with
  | stream bs =>
      cases bs with
      | nil => exact ⟨rfl, fun _ => rfl, Nat.le_refl 1⟩
      | cons b bs =>
          refine ⟨by simp [ReplayItem.calls, ReplayItem.isEof], ?_, by simp [ReplayItem.calls]⟩
          simp [ReplayItem.calls]
  | error e => exact ⟨rfl, fun h => (List.not_mem_nil h).elim, Nat.zero_le 1⟩

/-- Handing over the payload at the front of the queue. -/
theorem oneEof_take {s u : World} {item : ReplayItem} (h : OneEof s) (hc : s.closing = false)
    (ht : Taken s u item) : OneEof (u.handed item) := by
  obtain ⟨hcount, hisEof, hone⟩ := calls_eof item
  have heq := ht.eq
  have hlog : (u.handed item).log = s.log ++ item.calls := by rw [heq]; rfl
  have hread : (u.handed item).read = s.read := by rw [heq]; rfl
  have hpending : s.pending = item :: (u.handed item).pending := ht.pending
  have hcarried := carried_take h.carried hc ht
  have hsum : (u.handed item).eofCalls + (u.handed item).pending.countP ReplayItem.isEof =
      s.eofCalls + s.pending.countP ReplayItem.isEof := by
    rw [World.eofCalls, hlog, List.count_append, hcount, hpending, List.countP_cons,
      World.eofCalls]
    omega
  have heof : (u.handed item).EofRead ↔ s.EofRead := by
    rw [World.EofRead, hsum]
    rfl
  -- An earlier end of stream leaves no bytes, neither here nor behind.
  have hnone : .eofReceived ∈ s.log → item.bytes = [] ∧
      (u.handed item).pending.flatMap ReplayItem.bytes = [] := by
    intro hmem
    have hno := h.no_bytes hc hmem
    rw [hpending, List.flatMap_cons] at hno
    exact List.append_eq_nil_iff.mp hno
  have hlast := h.last
  rw [hpending, List.pairwise_cons] at hlast
  refine ⟨hcarried, ?_, fun he => ?_, fun he t hr => ?_, hlast.2, ?_, fun hmem => ?_⟩
  · rw [hsum]
    exact h.once
  · rw [heq]
    exact h.exhausted (heof.mp he)
  · rw [heq] at hr
    exact h.resting (heof.mp he) t hr
  · rw [hlog, List.pairwise_append]
    refine ⟨h.order, ?_, fun x hx y hy hxe => ?_⟩
    · match item.calls, hone with
      | [], _ => exact .nil
      | [e], _ => exact List.pairwise_singleton _ _
    · subst hxe
      have hbytes := calls_bytes item
      rw [(hnone hx).1] at hbytes
      exact List.flatMap_eq_nil_iff.mp hbytes y hy
  · have hstream := hcarried.stream (by rw [heq]; exact hc)
    have hrest : (u.handed item).pending.flatMap ReplayItem.bytes = [] := by
      rw [hlog, List.mem_append] at hmem
      rcases hmem with hold | hnew
      · exact (hnone hold).2
      · exact List.flatMap_eq_nil_iff.mpr fun y hy => hlast.1 y hy (hisEof hnew)
    rw [hrest, List.append_nil] at hstream
    exact hstream

theorem oneEof_stash {s : World} {replay : List ReplayItem} {io : List IoItem} (h : OneEof s)
    (hp : World.pending { s with replay := replay, io := io } = s.pending) :
    OneEof { s with replay := replay, io := io } where
  carried := carried_stash h.carried hp
  once := by
    rw [hp]
    exact h.once
  exhausted he := by
    rw [World.EofRead, hp] at he
    exact h.exhausted he
  resting he := by
    rw [World.EofRead, hp] at he
    exact h.resting he
  last := by
    rw [hp]
    exact h.last
  order := h.order
  heard := h.heard

theorem oneEof_drop {s : World} {i : IoItem} {rest : List IoItem} (h : OneEof s)
    (hc : s.closing = true) (hio : s.io = i :: rest) : OneEof { s with io := rest } := by
  have hsub : List.Sublist (World.pending { s with io := rest }) s.pending := by
    rw [World.pending, World.pending, hio]
    exact List.Sublist.append (.refl _) ((List.sublist_cons_self i rest).filterMap _)
  have hle := hsub.countP_le (p := ReplayItem.isEof)
  have hread : World.EofRead { s with io := rest } → s.EofRead := by
    intro he
    unfold World.EofRead at he ⊢
    exact Nat.lt_of_lt_of_le he (Nat.add_le_add_left hle _)
  exact ⟨carried_drop h.carried hc, Nat.le_trans (Nat.add_le_add_left hle _) h.once,
    fun he => h.exhausted (hread he), fun he => h.resting (hread he), h.last.sublist hsub,
    h.order, h.heard⟩

theorem oneEof_drift {s s' : World} (h : OneEof s) (hd : Drift s s') : OneEof s' := by
  have heq := hd.eq
  have hlog : s'.log = s.log := by rw [heq]
  have hread : s'.EofRead ↔ s.EofRead := by
    rw [World.EofRead, World.eofCalls, hd.pending, hlog]
    rfl
  refine ⟨carried_drift h.carried hd, ?_, fun he => ?_, fun he t' ht' => ?_, ?_, ?_, fun he => ?_⟩
  · rw [World.eofCalls, hd.pending, hlog]
    exact h.once
  · obtain ⟨hstream, hfin⟩ := h.exhausted (hread.mp he)
    obtain ⟨hfin', hstream'⟩ := hd.fin hfin
    exact ⟨hstream'.trans hstream, hfin'⟩
  · obtain ⟨t, ht, hpc⟩ := hd.drain t' ht'
    rw [atEof, hpc]
    exact h.resting (hread.mp he) t ht
  · rw [hd.pending]
    exact h.last
  · rw [hlog]
    exact h.order
  · rw [heq]
    exact h.heard (hlog ▸ he)

theorem pending_afterDrain (s : World) (o : DrainOut) :
    (s.afterDrain o).pending =
      s.pending ++ (o.pushes.map IoItem.data).filterMap IoItem.payload := by
  simp [World.pending, World.afterDrain]

/-- Before the end of the stream has been read. -/
theorem not_eofRead_iff (s : World) :
    ¬s.EofRead ↔ .eofReceived ∉ s.log ∧ ∀ item ∈ s.pending, ¬item.isEof = true := by
  rw [World.EofRead, Nat.not_lt, Nat.le_zero, Nat.add_eq_zero_iff, World.eofCalls,
    List.count_eq_zero, List.countP_eq_zero]

theorem payload_not_eof {ds : List IoData} (h : ∀ d ∈ ds, d ≠ .tcpEof ∧ d ≠ .tcpChunk []) :
    ∀ item ∈ (ds.map IoItem.data).filterMap IoItem.payload, ¬item.isEof = true := by
  intro item hitem
  obtain ⟨i, hi, hpay⟩ := List.mem_filterMap.mp hitem
  obtain ⟨d, hd, rfl⟩ := List.mem_map.mp hi
  obtain ⟨hne, hchunk⟩ := h d hd
  match d, hpay with
  | .tcpChunk [], _ => exact absurd rfl hchunk
  | .tcpChunk (b :: bs), rfl => simp [ReplayItem.isEof]
  | .tcpEof, _ => exact absurd rfl hne
  | .readError e, rfl => simp [ReplayItem.isEof]

/-- No end of stream is among the payloads, and none was delivered. -/
theorem oneEof_of_unread {s : World} (hs : Carried s) (hread : ¬s.EofRead) : OneEof s := by
  obtain ⟨hlog, hpending⟩ := (not_eofRead_iff s).mp hread
  refine ⟨hs, ?_, fun he => absurd he hread, fun he => absurd he hread, ?_, ?_,
    fun he => absurd he hlog⟩
  · exact Nat.le_succ_of_le (Nat.le_of_not_lt hread)
  · exact List.pairwise_of_forall_mem_list fun x hx _ _ he => absurd he (hpending x hx)
  · exact List.pairwise_of_forall_mem_list fun x hx _ _ he => absurd (he ▸ hx) hlog

theorem oneEof_drain {s : World} {t : DrainTask} {o : DrainOut} {size : Nat} (h : OneEof s)
    (hr : s.reader = some (.drain t))
    (ho : drainStep (.tcp s.chunk) false size t s.kernel = some o)
    (hres : s.resumesEof (.drainRun size) = false) : OneEof (s.afterDrain o) := by
  have hcarried := carried_afterDrain h.carried o
  by_cases hread : s.EofRead
  · -- The task goes to its yield.
    have hy : ∀ guard, t.pc ≠ .yielded guard true := by
      intro guard hpc
      simp [World.resumesEof, hr, hpc] at hres
    obtain ⟨hpush, hsock, heof⟩ := drainStep_atEof ho (h.resting hread t hr) hy
    have hpending : (s.afterDrain o).pending = s.pending := by
      rw [pending_afterDrain, hpush]
      exact List.append_nil _
    refine ⟨hcarried, ?_, fun _ => ?_, fun _ t' ht' => ?_, ?_, h.order, fun he => ?_⟩
    · rw [hpending]
      exact h.once
    · show o.sock.stream = [] ∧ o.sock.fin = true
      rw [hsock]
      exact h.exhausted hread
    · cases ht'
      exact heof
    · rw [hpending]
      exact h.last
    · show s.delivered = s.read ++ o.pushes.flatMap streamBytes
      rw [hpush, h.heard he]
      exact (List.append_nil _).symm
  · obtain ⟨hlog, hpending⟩ := (not_eofRead_iff s).mp hread
    rcases drainStep_pushes ho with hpush | ⟨hpush, heof, hempty, hfin⟩
    · refine oneEof_of_unread hcarried ((not_eofRead_iff _).mpr ⟨hlog, fun item hitem => ?_⟩)
      rw [pending_afterDrain, List.mem_append] at hitem
      rcases hitem with hold | hnew
      · exact hpending item hold
      · exact payload_not_eof hpush item hnew
    · -- The first time that the end is read.
      have hpend : (s.afterDrain o).pending = s.pending ++ [.stream []] := by
        rw [pending_afterDrain, hpush]
        rfl
      refine ⟨hcarried, ?_, fun _ => ⟨hempty, hfin⟩, fun _ t' ht' => ?_, ?_, h.order,
        fun he => absurd he hlog⟩
      · have hzero : s.eofCalls + s.pending.countP ReplayItem.isEof = 0 :=
          Nat.le_zero.mp (Nat.le_of_not_lt hread)
        rw [hpend, List.countP_append, ← Nat.add_assoc]
        show s.eofCalls + s.pending.countP ReplayItem.isEof + 1 ≤ 1
        omega
      · cases ht'
        exact heof
      · rw [hpend, List.pairwise_append]
        refine ⟨h.last, List.pairwise_singleton _ _, fun x _ y hy _ => ?_⟩
        rw [List.mem_singleton.mp hy]
        rfl

theorem oneEof_env {s s' : World} {top : Bool} {h : Env} (hs : OneEof s)
    (hh : eofHandled.env top h s) (he : s.env h = some s') : OneEof s' := by
  by_cases hrun : ∃ size, h = .drainRun size
  · obtain ⟨size, rfl⟩ := hrun
    obtain ⟨t, o, hr, ho, rfl⟩ := env_drainRun he
    exact oneEof_drain hs hr ho hh.2
  · exact oneEof_drift hs (drift_of_env he fun size heq => hrun ⟨size, heq⟩)

theorem drains_oneEof : Drains OneEof eofHandled.answer where
  carried h := h.carried
  quiet := oneEof_quiet
  pausing b h :=
    ⟨drains_carried.pausing b h.carried, h.once, h.exhausted, h.resting, h.last, h.order, h.heard⟩
  watch edge h ha hok :=
    oneEof_of_unread (drains_carried.watch edge h.carried trivial hok) (ha rfl hok)
  take := oneEof_take
  stash := oneEof_stash
  drop := oneEof_drop

/-! ### At most once, and last -/

theorem eofItems_le (s : World) : s.eofItems ≤ s.pending.countP ReplayItem.isEof := by
  rw [World.eofItems, World.pending, List.countP_append, List.countP_filterMap]
  refine Nat.add_le_add_left (List.countP_mono_left fun i _ hi => ?_) _
  obtain rfl : i = .data .tcpEof := by
    rcases i with d | slot
    · cases d <;> first | rfl | cases hi
    · cases hi
  rfl

/-- The end of the stream comes after all bytes there will ever be. -/
theorem OneEof.split {s : World} (h : OneEof s) (he : .eofReceived ∈ s.log) :
    ∃ before after, s.log = before ++ .eofReceived :: after ∧
      before.flatMap UserCall.bytes = s.read ∧ after.flatMap UserCall.bytes = [] := by
  obtain ⟨before, after, hlog⟩ := List.append_of_mem he
  have horder := h.order
  rw [hlog, List.pairwise_append, List.pairwise_cons] at horder
  have hafter : after.flatMap UserCall.bytes = [] :=
    List.flatMap_eq_nil_iff.mpr fun y hy => horder.2.1.1 y hy rfl
  refine ⟨before, after, hlog, ?_, hafter⟩
  have hheard := h.heard he
  rw [World.delivered, hlog, List.flatMap_append, List.flatMap_cons, hafter] at hheard
  simpa [UserCall.bytes] using hheard

/-- **The end of the stream.** In every run of a drain-mode transport with a
fixed protocol in which an end of stream that has been read is not read
again by a task that finds itself still registered, or by a new watcher,
`eof_received` is called at most once, when all bytes have been delivered,
and at most one end of stream is on its way. -/
theorem eof_delivered_once {c : Config World UserCall Nat Exc Query Reply}
    (h : Reach transport eofHandled (fun s => ∃ kernel, s = World.new .plain kernel) c)
    (ho : c.Outside) :
    c.state.eofCalls ≤ 1 ∧ c.state.eofItems ≤ 1 ∧
      (.eofReceived ∈ c.state.log →
        c.state.kernel.stream = [] ∧ c.state.kernel.fin = true ∧
        ∃ before after, c.state.log = before ++ .eofReceived :: after ∧
          before.flatMap UserCall.bytes = c.state.read ∧
          after.flatMap UserCall.bytes = []) := by
  have hsound : Sound transport eofHandled _ _ := drains_oneEof.sound
    (fun {_ _ s} hm => fixedProtocol_call (s := s) hm)
    (fun hs hh he => ⟨oneEof_env hs hh he, rely_of_env he⟩) id id
  have hinit : ∀ s, (∃ kernel, s = World.new .plain kernel) → OneEof s ∧ s.Settled := by
    rintro s ⟨kernel, rfl⟩
    obtain ⟨hcarried, hset⟩ := carried_new kernel
    exact ⟨oneEof_of_unread hcarried (Nat.lt_irrefl 0), hset⟩
  have hone : OneEof c.state := hsound.inv hinit (fun _ hs => hs.1) h ho
  refine ⟨Nat.le_trans (Nat.le_add_right _ _) hone.once, ?_, fun he => ?_⟩
  · exact Nat.le_trans (eofItems_le _) (Nat.le_trans (Nat.le_add_left _ _) hone.once)
  · have hread : c.state.EofRead :=
      Nat.add_pos_left (List.count_pos_iff.mpr he) _
    exact ⟨(hone.exhausted hread).1, (hone.exhausted hread).2, hone.split he⟩

/-- A byte and the end of the stream in one quantum, and a protocol that
keeps the connection open. -/
theorem eof_delivered_once_example : ∃ c : Config World UserCall Nat Exc Query Reply,
    c.state.closing = false ∧ c.state.read = [7] ∧ c.state.eofCalls = 1 ∧
      c.state.eofCalls ≤ 1 ∧ c.state.eofItems ≤ 1 := by
  have hstart : Reach transport eofHandled (fun s => ∃ kernel, s = World.new .plain kernel)
      ⟨World.new .plain ⟨[], [], none, false⟩, none, []⟩ := .start ⟨_, ⟨_, rfl⟩, rfl⟩
  have hrun := hstart.of_replay [connect,
    [.env (.arriveBytes [7]), .env .arriveFin, .env (.drainRun 0), .env (.drainRun 1),
      .env (.drainRun 0), .env (.drainRun 0)],
    Move.andRun (.call .popIo) 6, Move.andRun (.ret (.ok 0)) 1, Move.andRun (.call .popIo) 6,
    Move.andRun (.ret (.ok 1)) 3].flatten rfl
  have honce := eof_delivered_once hrun rfl
  exact ⟨_, rfl, rfl, rfl, honce.1, honce.2.1⟩

/-- A paused transport collects an end of stream per turn of its drain task;
and a protocol that keeps the connection open, pauses and resumes hears of
the end twice. -/
theorem eof_read_again :
    (∃ c : Config World UserCall Nat Exc Query Reply,
      Reach transport fixedProtocol (fun s => ∃ kernel, s = World.new .plain kernel) c ∧
        c.Outside ∧ c.state.eofItems = 2) ∧
    (∃ c : Config World UserCall Nat Exc Query Reply,
      Reach transport fixedProtocol (fun s => ∃ kernel, s = World.new .plain kernel) c ∧
        c.Outside ∧ c.state.eofCalls = 2) := by
  have hstart : Reach transport fixedProtocol (fun s => ∃ kernel, s = World.new .plain kernel)
      ⟨World.new .plain ⟨[], [], none, false⟩, none, []⟩ := .start ⟨_, ⟨_, rfl⟩, rfl⟩
  have hpaused := hstart.of_replay [connect, Move.andRun (.call .pauseReading) 4,
    [.env .arriveFin, .env (.drainRun 0), .env (.drainRun 0), .env (.drainRun 0)],
    Move.andRun (.call .popIo) 5,
    [.env (.drainRun 0), .env (.drainRun 0), .env (.drainRun 0)]].flatten rfl
  have hresumed := hstart.of_replay [connect,
    [.env .arriveFin, .env (.drainRun 0), .env (.drainRun 0), .env (.drainRun 0)],
    Move.andRun (.call .popIo) 6, Move.andRun (.ret (.ok 1)) 3,
    Move.andRun (.call .pauseReading) 4, Move.andRun (.call .resumeReading) 7,
    Move.andRun (.answer (.done 0)) 2,
    [.env (.drainRun 0), .env (.drainRun 0), .env (.drainRun 0)],
    Move.andRun (.call .popIo) 6].flatten rfl
  exact ⟨⟨_, hpaused, rfl, rfl⟩, ⟨_, hresumed, rfl, rfl⟩⟩

end Tokioop.Transport
