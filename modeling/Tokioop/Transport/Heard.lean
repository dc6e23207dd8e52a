import Tokioop.Transport.Eof

/-!
What has been delivered, of a transport in whatever state.

While a transport is open the books of `Replay` balance; once it is closing,
payloads are dropped, and what was delivered is only known to be how the
bytes began that were read. Once `eof_received` has been called it is all of
them: the socket has nothing more to give, however often the end of the
stream is read again.
-/

namespace Tokioop.Transport

open Fd Kit Kit.Prog

structure Heard (s : World) : Prop where
  carried : Carried s
  begun : s.delivered <+: s.read
  exhausted : s.EofRead → s.kernel.stream = [] ∧ s.kernel.fin = true
  last : s.pending.Pairwise fun x y => x.isEof = true → y.bytes = []
  whole : .eofReceived ∈ s.log → s.delivered = s.read

namespace Heard

variable {s : World}

/-- While it is open, what was delivered is what has left the queue. -/
theorem begun_of_open (hs : Carried s) (hc : s.closing = false) : s.delivered <+: s.read :=
  ⟨_, hs.stream hc⟩

theorem no_bytes (h : Heard s) (hc : s.closing = false) (he : .eofReceived ∈ s.log) :
    s.pending.flatMap ReplayItem.bytes = [] := by
  have hstream := h.carried.stream hc
  rw [h.whole he] at hstream
  exact List.append_right_eq_self.mp hstream

theorem quiet {s' : World} (h : Heard s) (hq : Quiet s s') : Heard s' := by
  obtain ⟨hcalls, hmem, -⟩ := eofCalls_quiet hq
  have hread : s'.EofRead ↔ s.EofRead := by
    rw [World.EofRead, hcalls, hq.pending]
    rfl
  refine ⟨carried_quiet h.carried hq, ?_, fun he => ?_, ?_, fun he => ?_⟩
  · rw [delivered_quiet hq, hq.read]
    exact h.begun
  · rw [hq.kernel]
    exact h.exhausted (hread.mp he)
  · rw [hq.pending]
    exact h.last
  · rw [delivered_quiet hq, hq.read]
    exact h.whole (hmem he)

/-- Handing over the payload at the front of the queue. -/
theorem take {u : World} {item : ReplayItem} (h : Heard s) (hc : s.closing = false)
    (ht : Taken s u item) : Heard (u.handed item) := by
  obtain ⟨hcount, hisEof, -⟩ := calls_eof item
  have heq := ht.eq
  have hlog : (u.handed item).log = s.log ++ item.calls := by rw [heq]; rfl
  have hkernel : (u.handed item).kernel = s.kernel := by rw [heq]; rfl
  have hpending : s.pending = item :: (u.handed item).pending := ht.pending
  have hcarried := carried_take h.carried hc ht
  have hopen : (u.handed item).closing = false := by rw [heq]; exact hc
  have heof : (u.handed item).EofRead ↔ s.EofRead := by
    rw [World.EofRead, World.EofRead, World.eofCalls, hlog, List.count_append, hcount, hpending,
      List.countP_cons, World.eofCalls]
    omega
  have hlast := h.last
  rw [hpending, List.pairwise_cons] at hlast
  refine ⟨hcarried, begun_of_open hcarried hopen, fun he => ?_, hlast.2, fun hmem => ?_⟩
  · rw [hkernel]
    exact h.exhausted (heof.mp he)
  · -- An earlier end of stream leaves no bytes, and this one none behind it.
    have hrest : (u.handed item).pending.flatMap ReplayItem.bytes = [] := by
      rw [hlog, List.mem_append] at hmem
      rcases hmem with hold | hnew
      · have hno := h.no_bytes hc hold
        rw [hpending, List.flatMap_cons] at hno
        exact (List.append_eq_nil_iff.mp hno).2
      · exact List.flatMap_eq_nil_iff.mpr fun y hy => hlast.1 y hy (hisEof hnew)
    have hstream := hcarried.stream hopen
    rwa [hrest, List.append_nil] at hstream

theorem stash {replay : List ReplayItem} {io : List IoItem} (h : Heard s)
    (hp : World.pending { s with replay := replay, io := io } = s.pending) :
    Heard { s with replay := replay, io := io } where
  carried := carried_stash h.carried hp
  begun := h.begun
  exhausted he := by
    rw [World.EofRead, hp] at he
    exact h.exhausted he
  last := by
    rw [hp]
    exact h.last
  whole := h.whole

theorem drop {i : IoItem} {rest : List IoItem} (h : Heard s) (hc : s.closing = true)
    (hio : s.io = i :: rest) : Heard { s with io := rest } := by
  have hsub : List.Sublist (World.pending { s with io := rest }) s.pending := by
    rw [World.pending, World.pending, hio]
    exact List.Sublist.append (.refl _) ((List.sublist_cons_self i rest).filterMap _)
  refine ⟨carried_drop h.carried hc, h.begun, fun he => h.exhausted ?_, h.last.sublist hsub,
    h.whole⟩
  exact Nat.lt_of_lt_of_le he (Nat.add_le_add_left (hsub.countP_le (p := ReplayItem.isEof)) _)

theorem drift {s' : World} (h : Heard s) (hd : Drift s s') : Heard s' := by
  have heq := hd.eq
  have hlog : s'.log = s.log := by rw [heq]
  have hread : s'.EofRead ↔ s.EofRead := by
    rw [World.EofRead, World.eofCalls, hd.pending, hlog]
    rfl
  have hbooks : s'.delivered = s.delivered ∧ s'.read = s.read := by
    rw [heq]
    exact ⟨rfl, rfl⟩
  refine ⟨carried_drift h.carried hd, ?_, fun he => ?_, ?_, fun he => ?_⟩
  · rw [hbooks.1, hbooks.2]
    exact h.begun
  · obtain ⟨hstream, hfin⟩ := h.exhausted (hread.mp he)
    obtain ⟨hfin', hstream'⟩ := hd.fin hfin
    exact ⟨hstream'.trans hstream, hfin'⟩
  · rw [hd.pending]
    exact h.last
  · rw [hbooks.1, hbooks.2]
    exact h.whole (hlog ▸ he)

end Heard

/-! ### The drain task -/

theorem tcpRecv_ok {sock sock' : Socket} {chunk size : Nat} {data : List UInt8}
    (h : sock.tcpRecv chunk size = (.ok data, sock')) :
    data ++ sock'.stream = sock.stream ∧ sock'.fin = sock.fin := by
  unfold Socket.tcpRecv at h
  split at h
  · cases h
  split at h
  · split at h
    · cases h
      exact ⟨rfl, rfl⟩
    · cases h
  · cases h
    exact ⟨List.take_append_drop _ _, rfl⟩

theorem tcpRecv_other {sock sock' : Socket} {chunk size : Nat} {r : Recv (List UInt8)}
    (h : sock.tcpRecv chunk size = (r, sock')) (hr : ∀ data, r ≠ .ok data) :
    sock'.stream = sock.stream ∧ sock'.fin = sock.fin := by
  unfold Socket.tcpRecv at h
  split at h
  · cases h
    exact ⟨rfl, rfl⟩
  split at h
  · split at h
    · cases h
      exact absurd rfl (hr _)
    · cases h
      exact ⟨rfl, rfl⟩
  · cases h
    exact absurd rfl (hr _)

/-- What the task pushes is what it has taken from the socket. -/
theorem drainStep_stream {chunk size : Nat} {dead : Bool} {t : DrainTask} {sock : Socket}
    {o : DrainOut} (h : drainStep (.tcp chunk) dead size t sock = some o) :
    o.pushes.flatMap streamBytes ++ o.sock.stream = sock.stream ∧ o.sock.fin = sock.fin := by
  unfold drainStep at h
  split at h
  · cases h
    exact ⟨rfl, rfl⟩
  · simp only [Option.some.injEq] at h
    subst h
    unfold tcpTurn
    split
    · split
      · rename_i hrecv
        exact tcpRecv_ok hrecv
      · rename_i hrecv
        obtain ⟨hdata, hfin⟩ := tcpRecv_ok hrecv
        refine ⟨?_, hfin⟩
        simpa [streamBytes] using hdata
      · rename_i hrecv
        exact tcpRecv_other hrecv fun _ hr => by cases hr
      · rename_i hrecv
        exact tcpRecv_other hrecv fun _ hr => by cases hr
    · exact ⟨rfl, rfl⟩
  · split at h
    · cases h
      exact ⟨rfl, rfl⟩
    · split at h
      · cases h
        exact ⟨rfl, rfl⟩
      · cases h
        exact ⟨rfl, rfl⟩
  · cases h
    exact ⟨rfl, rfl⟩
  · split at h
    · cases h
      exact ⟨rfl, rfl⟩
    · cases h
  · cases h

theorem heard_drain {s : World} {t : DrainTask} {o : DrainOut} {size : Nat} (h : Heard s)
    (ho : drainStep (.tcp s.chunk) false size t s.kernel = some o) : Heard (s.afterDrain o) := by
  obtain ⟨hstream, hfin⟩ := drainStep_stream ho
  have hcarried := carried_afterDrain h.carried o
  have hread : (s.afterDrain o).read = s.read ++ o.pushes.flatMap streamBytes := rfl
  have hbegun : (s.afterDrain o).delivered <+: (s.afterDrain o).read :=
    h.begun.trans (List.prefix_append _ _)
  by_cases heof : s.EofRead
  · -- There is nothing left to take.
    obtain ⟨hempty, hend⟩ := h.exhausted heof
    rw [hempty, List.append_eq_nil_iff] at hstream
    refine ⟨hcarried, hbegun, fun _ => ⟨hstream.2, hfin.trans hend⟩, ?_, fun he => ?_⟩
    · rw [pending_afterDrain, List.pairwise_append]
      have hnew : ∀ y ∈ (o.pushes.map IoItem.data).filterMap IoItem.payload, y.bytes = [] := by
        refine List.flatMap_eq_nil_iff.mp ?_
        rw [payloads_bytes, List.flatMap_map]
        exact hstream.1
      exact ⟨h.last, List.pairwise_of_forall_mem_list fun _ _ y hy _ => hnew y hy,
        fun _ _ y hy _ => hnew y hy⟩
    · rw [hread, hstream.1, List.append_nil]
      exact h.whole he
  · obtain ⟨hlog, hpending⟩ := (not_eofRead_iff s).mp heof
    rcases drainStep_pushes ho with hpush | ⟨hpush, -, hempty, hend⟩
    · have hnone : ∀ item ∈ (s.afterDrain o).pending, ¬item.isEof = true := by
        intro item hitem
        rw [pending_afterDrain, List.mem_append] at hitem
        rcases hitem with hold | hnew
        · exact hpending item hold
        · exact payload_not_eof hpush item hnew
      have hunread : ¬(s.afterDrain o).EofRead := (not_eofRead_iff _).mpr ⟨hlog, hnone⟩
      refine ⟨hcarried, hbegun, fun he => absurd he hunread, ?_, fun he => absurd he hlog⟩
      exact List.pairwise_of_forall_mem_list fun x hx _ _ he => absurd he (hnone x hx)
    · have hpend : (s.afterDrain o).pending = s.pending ++ [.stream []] := by
        rw [pending_afterDrain, hpush]
        rfl
      refine ⟨hcarried, hbegun, fun _ => ⟨hempty, hend⟩, ?_, fun he => absurd he hlog⟩
      rw [hpend, List.pairwise_append]
      refine ⟨h.last, List.pairwise_singleton _ _, fun x _ y hy _ => ?_⟩
      rw [List.mem_singleton.mp hy]
      rfl

theorem heard_env {s s' : World} {h : Env} (hs : Heard s) (he : s.env h = some s') :
    Heard s' := by
  by_cases hrun : ∃ size, h = .drainRun size
  · obtain ⟨size, rfl⟩ := hrun
    obtain ⟨t, o, -, ho, rfl⟩ := env_drainRun he
    exact heard_drain hs ho
  · exact hs.drift (drift_of_env he fun size heq => hrun ⟨size, heq⟩)

/-! ### Runs -/

theorem drains_heard : Drains Heard fun _ _ _ => True where
  carried h := h.carried
  quiet := Heard.quiet
  pausing b h := ⟨drains_carried.pausing b h.carried, h.begun, h.exhausted, h.last, h.whole⟩
  watch edge h ha hok :=
    ⟨drains_carried.watch edge h.carried ha hok, h.begun, h.exhausted, h.last, h.whole⟩
  take := Heard.take
  stash := Heard.stash
  drop := Heard.drop

theorem heard_new (kernel : Socket) :
    Heard (World.new .plain kernel) ∧ (World.new .plain kernel).Settled := by
  obtain ⟨hcarried, hset⟩ := carried_new kernel
  refine ⟨⟨hcarried, List.prefix_refl _, fun he => ?_, .nil, fun he => ?_⟩, hset⟩
  · exact absurd he (Nat.lt_irrefl 0)
  · cases he

theorem heard_outside {c : Config World UserCall Nat Exc Query Reply}
    (h : Reach transport fixedProtocol (fun s => ∃ kernel, s = World.new .plain kernel) c)
    (ho : c.Outside) : Heard c.state := by
  have hsound : Sound transport fixedProtocol _ _ := drains_heard.sound fixedProtocol_call
    (fun hs _ he => ⟨heard_env hs he, rely_of_env he⟩) id (fun _ => trivial)
  refine hsound.inv ?_ (fun _ hs => hs.1) h ho
  rintro s ⟨kernel, rfl⟩
  exact heard_new kernel

end Tokioop.Transport
