import Tokioop.Fd.DrainTask

/-!
Whether a drain watcher can stall: wait in `readable()` with its flag clear
and no edge on the way while something is left in the receive queue.

The argument is an edge-to-level conversion. Clearing the flag is harmless if
the read loop ended because the queue was empty: whatever arrives after that
raises an edge, and an edge harvested before the clear is protected by its
newer tick. The read loop also ends, and also clears the flag, when a receive
call reports a pending error, and there nothing says that the queue is empty.
-/

namespace Tokioop.Fd

open Kit

/-- The live task waits, and nothing the driver knows of will wake it. -/
def DrainSys.Asleep (s : DrainSys) : Prop :=
  s.task.pc = .readable ∧ s.dead = false ∧ s.task.afd.flag = false ∧ s.task.afd.edge = false

/-- Asleep with something left to read. -/
def DrainSys.Stalled (kind : DrainKind) (s : DrainSys) : Prop :=
  s.Asleep ∧ s.sock.waiting kind = true

instance (s : DrainSys) : Decidable s.Asleep := inferInstanceAs (Decidable (_ ∧ _))

instance (kind : DrainKind) (s : DrainSys) : Decidable (s.Stalled kind) :=
  inferInstanceAs (Decidable (_ ∧ _))

/-- A wakeup the guard cannot clear away is on its way: an unharvested edge,
or a flag set under another tick than the guard's. -/
def AsyncFd.Newer (a : AsyncFd) (guard : Option Nat) : Prop :=
  a.edge = true ∨ (a.flag = true ∧ guard ≠ some a.tick)

instance (a : AsyncFd) (guard : Option Nat) : Decidable (a.Newer guard) :=
  inferInstanceAs (Decidable (_ ∨ _))

/-- The quantum has room for another receive call. -/
def DrainKind.QuantumOpen : DrainKind → Nat → Nat → Prop
  | .udp, n, _ => n < udpQuantum
  | .tcp _, n, bytes => n < tcpQuantumItems ∧ bytes < tcpQuantumBytes

instance (kind : DrainKind) (n bytes : Nat) : Decidable (kind.QuantumOpen n bytes) :=
  match kind with
  | .udp => inferInstanceAs (Decidable (_ < _))
  | .tcp _ => inferInstanceAs (Decidable (_ ∧ _))

/-- The step is not a receive call that reports an error over a non-empty
receive queue, unless a newer wakeup is on its way. -/
def ErrorsAtEnd (kind : DrainKind) (s : DrainSys) : DrainMove → Prop
  | .run _ =>
      match s.task.pc with
      | .recv guard n bytes _ =>
          kind.QuantumOpen n bytes → s.sock.err ≠ none → s.sock.waiting kind = true →
            s.task.afd.Newer guard
      | _ => True
  | _ => True

instance (kind : DrainKind) (s : DrainSys) (m : DrainMove) : Decidable (ErrorsAtEnd kind s m) := by
  unfold ErrorsAtEnd
  split
  · split <;> infer_instance
  · infer_instance

/-! ### The invariant -/

/-- A guard is never from the future. -/
def AsyncFd.Admits (a : AsyncFd) (guard : Option Nat) : Prop := ∀ g, guard = some g → g ≤ a.tick

/-- What holds of a live watcher at each place of its code. -/
def DrainSys.Awake (kind : DrainKind) (s : DrainSys) : Prop :=
  match s.task.pc with
  | .start => True
  | .recv guard _ _ _ => s.task.afd.Admits guard
  | .wrapUp guard _ drained eof =>
      s.task.afd.Admits guard ∧
        (drained = true → eof = false → s.sock.waiting kind = true → s.task.afd.Newer guard)
  | .yielded guard _ => s.task.afd.Admits guard
  | .readable => s.sock.waiting kind = true → s.task.afd.Newer none
  | .finished => True

theorem AsyncFd.newer_raiseEdge (a : AsyncFd) (guard : Option Nat) : a.raiseEdge.Newer guard :=
  .inl rfl

theorem AsyncFd.newer_harvest {a : AsyncFd} {guard : Option Nat} (h : a.Admits guard) :
    a.harvest.Newer guard := by
  refine .inr ⟨rfl, ?_⟩
  intro hg
  have hle := h _ hg
  rw [AsyncFd.harvest_tick] at hle
  omega

theorem AsyncFd.admits_harvest {a : AsyncFd} {guard : Option Nat} (h : a.Admits guard) :
    a.harvest.Admits guard := fun g hg => Nat.le_succ_of_le (h g hg)

theorem AsyncFd.admits_none (a : AsyncFd) : a.Admits none := fun _ h => by cases h

/-- Whatever arrives raises an edge. -/
theorem DrainSys.awake_arrive {kind : DrainKind} {s : DrainSys} (sock : Socket)
    (h : s.Awake kind) : (s.arrive sock).Awake kind := by
  obtain ⟨sock₀, ⟨pc, afd⟩, dead, io⟩ := s
  cases pc with
  | start => trivial
  | recv guard n bytes pushed => exact h
  | wrapUp guard pushed drained eof => exact ⟨h.1, fun _ _ _ => afd.newer_raiseEdge guard⟩
  | yielded guard eof => exact h
  | readable => exact fun _ => afd.newer_raiseEdge none
  | finished => trivial

theorem DrainSys.awake_harvest {kind : DrainKind} {s : DrainSys} (h : s.Awake kind) :
    DrainSys.Awake kind { s with task := { s.task with afd := s.task.afd.harvest } } := by
  obtain ⟨sock, ⟨pc, afd⟩, dead, io⟩ := s
  cases pc with
  | start => trivial
  | recv guard n bytes pushed => exact AsyncFd.admits_harvest h
  | wrapUp guard pushed drained eof =>
      exact ⟨AsyncFd.admits_harvest h.1, fun _ _ _ => AsyncFd.newer_harvest h.1⟩
  | yielded guard eof => exact AsyncFd.admits_harvest h
  | readable => exact fun _ => AsyncFd.newer_harvest afd.admits_none
  | finished => trivial

/-- The datagram read loop ends with an empty queue, with the quantum used
up, or with an error. -/
theorem awake_udpTurn {s : DrainSys} {guard : Option Nat} {n bytes : Nat} {pushed : Bool}
    (hg : s.task.afd.Admits guard)
    (herr : n < udpQuantum → s.sock.err ≠ none → s.sock.waiting .udp = true →
      s.task.afd.Newer guard) :
    (s.after (udpTurn s.task s.sock guard n bytes pushed)).Awake .udp := by
  unfold udpTurn
  split
  · rename_i hn
    simp only [Socket.udpRecvfrom]
    cases herror : s.sock.err with
    | some e => exact ⟨hg, fun _ _ hw => herr hn (by simp [herror]) hw⟩
    | none =>
        cases hd : s.sock.dgrams with
        | nil =>
            refine ⟨hg, fun _ _ hw => ?_⟩
            simp [DrainSys.after, DrainTask.goto, Socket.waiting, hd] at hw
        | cons d ds => exact hg
  · exact ⟨hg, fun h => by cases h⟩

/-- The stream read loop likewise; after an end of stream the task does not
go back to wait. -/
theorem awake_tcpTurn {s : DrainSys} {chunk size : Nat} {guard : Option Nat} {n bytes : Nat}
    {pushed : Bool} (hg : s.task.afd.Admits guard)
    (herr : n < tcpQuantumItems ∧ bytes < tcpQuantumBytes → s.sock.err ≠ none →
      s.sock.waiting (.tcp chunk) = true → s.task.afd.Newer guard) :
    (s.after (tcpTurn s.task s.sock chunk size guard n bytes pushed)).Awake (.tcp chunk) := by
  unfold tcpTurn
  split
  · rename_i hn
    simp only [Socket.tcpRecv]
    cases herror : s.sock.err with
    | some e => exact ⟨hg, fun _ _ hw => herr hn (by simp [herror]) hw⟩
    | none =>
        by_cases hs : s.sock.stream = []
        · simp only [hs, if_true]
          cases hfin : s.sock.fin with
          | true => exact ⟨hg, fun _ h => by cases h⟩
          | false =>
              refine ⟨hg, fun _ _ hw => ?_⟩
              simp [DrainSys.after, DrainTask.goto, Socket.waiting, hs] at hw
        · simp only [hs, if_false]
          split
          · rename_i heq
            simp only [Prod.mk.injEq, Recv.ok.injEq] at heq
            exact ⟨hg, fun _ h => by cases h⟩
          · exact hg
          · rename_i heq
            simp at heq
          · rename_i heq
            simp at heq
  · exact ⟨hg, fun h => by cases h⟩

/-- Clearing through the guard keeps every newer wakeup. -/
theorem AsyncFd.newer_cleared {a : AsyncFd} {guard : Option Nat} (h : a.Newer guard) :
    (a.clearGuard guard).Newer none := by
  rcases h with hedge | ⟨hflag, hne⟩
  · cases guard with
    | none => exact .inl hedge
    | some g => exact .inl (by simpa [AsyncFd.clearGuard] using hedge)
  · cases guard with
    | none => exact .inr ⟨hflag, by simp⟩
    | some g =>
        have hg : g ≠ a.tick := fun h => hne (congrArg some h)
        rw [AsyncFd.clearGuard, AsyncFd.clearReady_of_ne hg]
        exact .inr ⟨hflag, by simp⟩

theorem DrainSys.awake_run {kind : DrainKind} {s : DrainSys} {size : Nat} {o : DrainOut}
    (h : s.Awake kind) (hdead : s.dead = false) (hok : ErrorsAtEnd kind s (.run size))
    (hs : drainStep kind s.dead size s.task s.sock = some o) : (s.after o).Awake kind := by
  obtain ⟨sock, ⟨pc, afd⟩, dead, io⟩ := s
  simp only at hdead
  subst hdead
  cases pc with
  | start =>
      simp only [drainStep, Option.some.injEq] at hs
      subst hs
      exact afd.admits_none
  | recv guard n bytes pushed =>
      cases kind with
      | udp =>
          simp only [drainStep, Option.some.injEq] at hs
          subst hs
          exact awake_udpTurn (s := ⟨sock, ⟨_, afd⟩, false, io⟩) h hok
      | tcp chunk =>
          simp only [drainStep, Option.some.injEq] at hs
          subst hs
          exact awake_tcpTurn (s := ⟨sock, ⟨_, afd⟩, false, io⟩) h hok
  | wrapUp guard pushed drained eof =>
      obtain ⟨hg, hw⟩ := h
      cases eof with
      | true =>
          simp only [drainStep, if_true, Option.some.injEq] at hs
          subst hs
          exact hg
      | false =>
          cases drained with
          | true =>
              simp only [drainStep, Bool.false_eq_true, if_false, if_true,
                Option.some.injEq] at hs
              subst hs
              exact fun hwait => AsyncFd.newer_cleared (hw rfl rfl hwait)
          | false =>
              simp only [drainStep, Bool.false_eq_true, if_false, Option.some.injEq] at hs
              subst hs
              exact hg
  | yielded guard eof =>
      simp only [drainStep, Option.some.injEq] at hs
      subst hs
      exact h
  | readable =>
      simp only [drainStep] at hs
      split at hs
      · simp only [Option.some.injEq] at hs
        subst hs
        intro g hg
        simp only [Option.some.injEq] at hg
        exact hg ▸ Nat.le_refl _
      · cases hs
  | finished => simp [drainStep] at hs

/-- A detached watcher stays detached; a live one is never caught asleep
over a non-empty queue. -/
theorem DrainSys.awake_step {kind : DrainKind} {s s' : DrainSys} {m : DrainMove}
    (h : s.dead = false → s.Awake kind) (hok : ErrorsAtEnd kind s m)
    (hs : s.step kind m = some s') : s'.dead = false → s'.Awake kind := by
  intro hdead
  cases m with
  | arriveBytes bs =>
      simp only [DrainSys.step] at hs
      split at hs
      · cases hs
      · cases hs
        exact awake_arrive _ (h hdead)
  | arriveDatagram d =>
      cases hs
      exact awake_arrive _ (h hdead)
  | arriveError e =>
      cases hs
      exact awake_arrive _ (h hdead)
  | arriveFin =>
      cases hs
      exact awake_arrive _ (h hdead)
  | harvest =>
      simp only [DrainSys.step] at hs
      split at hs
      · cases hs
        exact awake_harvest (h hdead)
      · cases hs
  | run size =>
      simp only [DrainSys.step, Option.map_eq_some_iff] at hs
      obtain ⟨o, ho, rfl⟩ := hs
      exact awake_run (h hdead) hdead hok ho
  | deliver =>
      simp only [DrainSys.step] at hs
      split at hs
      · cases hs
      · cases hs
        exact h hdead
  | detach =>
      cases hs
      cases hdead

/-- **Drain watchers do not stall**, for datagrams and for streams, in every
run in which no receive call reports an error while items are still queued
(or, if it does, a wakeup newer than the task's guard is already on its
way). -/
theorem drain_never_stalls {kind : DrainKind} {s : DrainSys}
    (h : Runs (DrainSys.step kind) (ErrorsAtEnd kind) DrainSys.Init s)
    (hsleep : s.Asleep) : s.sock.waiting kind = false := by
  have hinv : s.dead = false → s.Awake kind := by
    refine h.invariant (I := fun s => s.dead = false → s.Awake kind) ?_ ?_
    · rintro s ⟨⟨edge, htask⟩, _, _⟩ _
      simp only [DrainSys.Awake, htask, DrainTask.fresh]
    · exact fun s m s' hi hok hs => DrainSys.awake_step hi hok hs
  obtain ⟨hpc, hdead, hflag, hedge⟩ := hsleep
  by_contra hwait
  have hawake := hinv hdead
  simp only [DrainSys.Awake, hpc] at hawake
  rcases hawake (by simpa using hwait) with he | ⟨hf, _⟩
  · simp [hedge] at he
  · simp [hflag] at hf

/-- A stream watcher that has been woken once, has read what there was and
waits again. -/
theorem drain_never_stalls_example : ∃ s : DrainSys,
    s.Asleep ∧ s.io = [.tcpChunk [1, 2], .tcpChunk [3]] ∧ s.sock.waiting (.tcp 4096) = false := by
  have hstart : Runs (DrainSys.step (.tcp 4096)) (ErrorsAtEnd (.tcp 4096)) DrainSys.Init
      ⟨⟨[], [], none, false⟩, DrainTask.fresh false, false, []⟩ :=
    .start ⟨⟨false, rfl⟩, rfl, rfl⟩
  have hrun := hstart.of_replay [.run 0, .run 0, .run 0, .arriveBytes [1, 2, 3], .harvest,
    .run 0, .run 2, .run 2, .run 0, .run 0] rfl
  exact ⟨_, by decide, rfl, drain_never_stalls hrun (by decide)⟩

/-- The failing case: a datagram and an error are pending, `recvfrom` reports
the error first, the task takes this for a drained socket, clears its flag and
waits; the datagram stays in the queue. -/
theorem drain_stalls_after_error : ∃ s : DrainSys,
    Runs (DrainSys.step .udp) (fun _ _ => True) DrainSys.Init s ∧ s.Stalled .udp := by
  have hstart : Runs (DrainSys.step .udp) (fun _ _ => True) DrainSys.Init
      ⟨⟨[], [], none, false⟩, DrainTask.fresh false, false, []⟩ :=
    .start ⟨⟨false, rfl⟩, rfl, rfl⟩
  have hrun := hstart.of_replay [.run 0, .run 0, .run 0, .arriveDatagram ⟨[7], .unnamed⟩,
    .arriveError 111, .harvest, .run 0, .run 0, .run 0] rfl
  exact ⟨_, hrun, by decide⟩

/-- The condition is exact: a receive call of a live watcher that breaks it
puts the watcher to sleep over a non-empty queue two steps later. -/
theorem stalls_of_error_over_items {kind : DrainKind} {s : DrainSys} {size : Nat}
    (hdead : s.dead = false) (h : ¬ErrorsAtEnd kind s (.run size)) :
    ∃ t u, s.step kind (.run size) = some t ∧ t.step kind (.run size) = some u ∧
      u.Stalled kind := by
  obtain ⟨sock, ⟨pc, afd⟩, dead, io⟩ := s
  simp only at hdead
  subst hdead
  cases pc with
  | recv guard n bytes pushed =>
      simp only [ErrorsAtEnd, AsyncFd.Newer, not_forall, not_or, not_and_or] at h
      obtain ⟨hopen, herr, hwait, hedge, hflag⟩ := h
      obtain ⟨e, he⟩ := Option.ne_none_iff_exists'.mp herr
      have hcleared : (afd.clearGuard guard).flag = false := by
        cases guard with
        | none => simpa [AsyncFd.clearGuard] using hflag
        | some g =>
            by_cases hg : g = afd.tick
            · simp [AsyncFd.clearGuard, AsyncFd.clearReady, hg]
            · simpa [AsyncFd.clearGuard, AsyncFd.clearReady, hg] using hflag
      have hedge' : (afd.clearGuard guard).edge = false := by
        cases guard <;> simpa [AsyncFd.clearGuard] using hedge
      refine ⟨⟨{ sock with err := none }, ⟨.wrapUp guard true true false, afd⟩, false,
          io ++ [.readError e]⟩, ⟨{ sock with err := none }, ⟨.readable, afd.clearGuard guard⟩,
          false, io ++ [.readError e]⟩, ?_, ?_, ⟨rfl, rfl, hcleared, hedge'⟩, ?_⟩
      · cases kind with
        | udp =>
            have hn : n < udpQuantum := hopen
            simp [DrainSys.step, drainStep, udpTurn, Socket.udpRecvfrom, he, hn, DrainSys.after]
        | tcp chunk =>
            have hn : n < tcpQuantumItems ∧ bytes < tcpQuantumBytes := hopen
            simp [DrainSys.step, drainStep, tcpTurn, Socket.tcpRecv, he, hn, DrainSys.after]
      · simp [DrainSys.step, drainStep, DrainSys.after]
      · cases kind <;> exact hwait
  | start => exact absurd trivial h
  | wrapUp guard pushed drained eof => exact absurd trivial h
  | yielded guard eof => exact absurd trivial h
  | readable => exact absurd trivial h
  | finished => exact absurd trivial h

end Tokioop.Fd
