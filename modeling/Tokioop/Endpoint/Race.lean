import Tokioop.Endpoint.Attempt

/-!
Happy eyeballs.

The attempts run as tasks next to each other, and whoever connects first has
the others cancelled. Each of them keeps to what belongs to its own address,
so that how they are interleaved, where they are cancelled and which of them
are started at all make no difference to what any of them leaves behind.
-/

namespace Tokioop.Endpoint

open Kit Kit.Prog

variable {lib : Lib} {infos : List AddrInfo} {localAddrInfos : Option (List AddrInfo)}

/-- What an await may end with. `staggered_race` starts its tasks one after the
other and comes back when those it has started have ended, with the one that
returned as the winner. It always does so where it returns. Where it is
cancelled or raises, only newer versions of it do; older ones cancel the tasks
and leave them to end by themselves, which is not described here. -/
inductive Awaited (lib : Lib) : Await → Net → Except Exc Value → Net → Prop
  | other {a : Await} {s : Net} {r : Except Exc Value}
      (h : ∀ infos localAddrInfos, a ≠ .race infos localAddrInfos) : Awaited lib a s r s
  | race {infos : List AddrInfo} {localAddrInfos : Option (List AddrInfo)} {s : Net}
      {r : Except Exc Value} {started : Nat} {w : Option Nat}
      {p : Pool Net Await Value Exc Call (Option Exc) Unit}
      (hs : s.attempts = infos.map fun _ => .idle)
      (hrun : Pool.Run (fun _ _ _ => True) (fun _ _ _ => True)
        ⟨s, (raceTasks lib infos localAddrInfos).take started⟩ p)
      (hended : ∀ k q, p.tasks[k]? = some q → ∃ r, q = .done r ∧ (r = .ok () ↔ w = some k))
      (hwinner : ∀ k, w = some k → ∃ q, p.tasks[k]? = some q)
      (hr : ∀ v, r = .ok v → v = .winner w) :
      Awaited lib (.race infos localAddrInfos) s r p.state

/-- A racing attempt relies on being left alone with its socket. -/
def attemptContract (k : Nat) : Contract Net Await Value Exc Call (Option Exc) where
  Inv _ := True
  Rely s t := t.attempts[k]? = s.attempts[k]?
  Ret _ _ _ := True
  Answer _ _ _ := True
  refl _ := rfl
  trans h h' := h'.trans h

/-- How the task of the `k`-th address has ended. -/
structure Raced (infos : List AddrInfo) (localAddrInfos : Option (List AddrInfo)) (k : Nat)
    (r : Except Exc Unit) (s : Net) : Prop where
  ready : r = .ok () → ∃ x info, At k x s ∧ infos[k]? = some info ∧ x.tried = true ∧
    Ready info localAddrInfos x
  spent : ∀ e, r = .error e → ∃ x, At k x s ∧ Spent x

theorem At.congr {k : Nat} {x : Attempt} {s t : Net} (h : At k x s)
    (ht : t.attempts[k]? = s.attempts[k]?) : At k x t := ht.trans h

theorem separate_attempts : Separate attemptContract Within (Raced infos localAddrInfos) where
  rely hij _ h := ⟨trivial, h.others _ hij.symm⟩
  stable hij hq h := by
    have hsame := h.others _ hij.symm
    refine ⟨fun hr => ?_, fun e hr => ?_⟩
    · obtain ⟨x, info, hx, hrest⟩ := hq.ready hr
      exact ⟨x, info, hx.congr hsame, hrest⟩
    · obtain ⟨x, hx, hspent⟩ := hq.spent e hr
      exact ⟨x, hx.congr hsame, hspent⟩

/-- A task of the race, from before its first step. -/
theorem wp_raceTask {k : Nat} {info : AddrInfo} {s : Net} (hinfo : infos[k]? = some info)
    (hs : At k .idle s) : (discard (await .start) >>= fun _ =>
      connectSock lib k info localAddrInfos).wp (attemptContract k)
      (Raced infos localAddrInfos k) s := by
  rw [wp_bind, wp_discard]
  refine wp_await trivial fun t r _ ht _ => ?_
  have hidle : At k .idle t := hs.congr ht
  cases r with
  | error e =>
      -- It is cancelled before it has done anything.
      refine Raced.mk (fun h => ?_) fun _ _ => ⟨.idle, hidle, fun sk h => ?_⟩
      · cases h
      · cases h
  | ok v =>
      refine wp_mono _ ?_ (wp_connectSock (C := attemptContract k) (fun _ => trivial)
        (fun _ h => h) (s := (t.noted _).settled .start (.ok v)) hidle rfl)
      rintro r u ⟨x, hx, htried, hout⟩
      refine ⟨fun hr => ?_, fun e hr => ?_⟩
      · subst hr
        exact ⟨x, info, hx, hinfo, htried, hout⟩
      · subst hr
        exact ⟨x, hx, hout.spent⟩

/-- One socket is ready, and nothing else is left open. -/
structure Over (infos : List AddrInfo) (localAddrInfos : Option (List AddrInfo)) (w : Option Nat)
    (s : Net) : Prop where
  length : s.attempts.length = infos.length
  winner : ∀ k, w = some k → ∃ x info, At k x s ∧ infos[k]? = some info ∧ x.tried = true ∧
    Ready info localAddrInfos x
  losers : ∀ k x, w ≠ some k → At k x s → Spent x

theorem raceTasks_getElem? {k : Nat} {q : Coro Unit} {started : Nat}
    (h : ((raceTasks lib infos localAddrInfos).take started)[k]? = some q) :
    ∃ info, infos[k]? = some info ∧
      q = discard (await .start) >>= fun _ => connectSock lib k info localAddrInfos := by
  rw [List.getElem?_take] at h
  split at h
  · rw [raceTasks, List.getElem?_mapIdx, Option.map_eq_some_iff] at h
    obtain ⟨info, hinfo, rfl⟩ := h
    exact ⟨info, hinfo, rfl⟩
  · cases h

theorem at_idle {s : Net} (hs : s.attempts = infos.map fun _ => .idle) {k : Nat} {x : Attempt}
    (h : At k x s) : x = .idle := by
  rw [At, hs, List.getElem?_map, Option.map_eq_some_iff] at h
  obtain ⟨_, -, rfl⟩ := h
  rfl

/-- What is known at any time of a race: how the tasks go on, and what none of
them touches. -/
theorem race_verified {s : Net} {started : Nat}
    {p : Pool Net Await Value Exc Call (Option Exc) Unit}
    (hs : s.attempts = infos.map fun _ => .idle)
    (hrun : Pool.Run (fun _ _ _ => True) (fun _ _ _ => True)
      ⟨s, (raceTasks lib infos localAddrInfos).take started⟩ p) :
    p.Verified attemptContract Within (Raced infos localAddrInfos) ∧
      (∀ k, p.tasks.length ≤ k → p.state.attempts[k]? = s.attempts[k]?) ∧
      p.state.attempts.length = s.attempts.length ∧ p.state.given = s.given ∧
      p.state.transport = s.transport := by
  have hguards : ∀ k (q : Coro Unit),
      ((raceTasks lib infos localAddrInfos).take started)[k]? = some q →
      ∀ u, q.guards (Within k) u := by
    intro k q hq
    obtain ⟨info, -, rfl⟩ := raceTasks_getElem? hq
    refine guarantees_bind (guarantees_discard ?_) fun _ => guarantees_connectSock k info _
    refine guarantees_andThen (guarantees_callback _) fun r => ?_
    refine guarantees_bind (guarantees_modify fun u => Within.noted k u _) fun _ => ?_
    cases r with
    | ok v => exact guarantees_done _
    | error e => exact guarantees_done _
  refine ⟨hrun.sound separate_attempts (fun _ _ _ _ _ => trivial) (fun _ _ _ _ _ => trivial)
    fun k q hq => ?_, ?_⟩
  · obtain ⟨info, hinfo, rfl⟩ := raceTasks_getElem? hq
    refine ⟨trivial, wp_raceTask hinfo ?_, hguards k _ hq s⟩
    rw [At, hs, List.getElem?_map, hinfo]
    rfl
  · -- What no task was started for is not touched.
    obtain ⟨hlen, hrest, hattempts, hgiven, htransport⟩ := hrun.changes (G := Within)
      (D := fun u v => (∀ j, ((raceTasks lib infos localAddrInfos).take started).length ≤ j →
        v.attempts[j]? = u.attempts[j]?) ∧ v.attempts.length = u.attempts.length ∧
        v.given = u.given ∧ v.transport = u.transport)
      (fun _ => ⟨fun _ _ => rfl, rfl, rfl, rfl⟩)
      (fun h h' => ⟨fun j hj => (h'.1 j hj).trans (h.1 j hj), h'.2.1.trans h.2.1,
        h'.2.2.1.trans h.2.2.1, h'.2.2.2.trans h.2.2.2⟩)
      (fun hi h => ⟨fun j hj => h.others j (Nat.ne_of_gt (Nat.lt_of_lt_of_le hi hj)), h.length,
        h.given, h.transport⟩)
      hguards
    exact ⟨fun k hk => hrest k (hlen ▸ hk), hattempts, hgiven, htransport⟩

/-- When the race is over, the winner's socket is connected, and every other
socket has been closed once. -/
theorem race_over {s t : Net} {r : Except Exc Value}
    (h : Awaited lib (.race infos localAddrInfos) s r t) :
    ∃ w, (∀ v, r = .ok v → v = .winner w) ∧ Over infos localAddrInfos w t ∧
      s.attempts = (infos.map fun _ => .idle) ∧ t.given = s.given ∧
      t.transport = s.transport := by
  cases h with
  | other h => exact absurd rfl (h _ _)
  | race hs hrun hended hwinner hr =>
      rename_i started w p
      obtain ⟨hverified, hrest, hattempts, hgiven, htransport⟩ := race_verified hs hrun
      refine ⟨w, hr, ⟨hattempts.trans ?_, fun k hk => ?_, fun k x hk hx => ?_⟩, hs, hgiven,
        htransport⟩
      · rw [hs, List.length_map]
      · obtain ⟨q, hq⟩ := hwinner k hk
        obtain ⟨r', rfl, hiff⟩ := hended k q hq
        exact (hverified k _ hq).2.1.ready (hiff.mpr hk)
      · cases hq : p.tasks[k]? with
        | some q =>
            obtain ⟨r', rfl, hiff⟩ := hended k q hq
            cases r' with
            | ok a => exact absurd (hiff.mp rfl) hk
            | error e =>
                obtain ⟨y, hy, hspent⟩ := (hverified k _ hq).2.1.spent e rfl
                cases hx.symm.trans hy
                exact hspent
        | none =>
            rw [at_idle hs ((hrest k (List.getElem?_eq_none_iff.mp hq)).symm.trans hx)]
            exact fun sk h => by cases h

/-- **The race.** However the attempts are interleaved and cancelled, at any time each one
that has ended has its socket connected or closed, and addresses that nobody
has been sent to yet have none. -/
theorem happy_eyeballs {s : Net} {started : Nat}
    {p : Pool Net Await Value Exc Call (Option Exc) Unit}
    (hs : s.attempts = infos.map fun _ => .idle)
    (hrun : Pool.Run (fun _ _ _ => True) (fun _ _ _ => True)
      ⟨s, (raceTasks lib infos localAddrInfos).take started⟩ p) :
    (∀ k r, p.tasks[k]? = some (.done r) → Raced infos localAddrInfos k r p.state) ∧
      (∀ k x, p.tasks.length ≤ k → At k x p.state → x = .idle) ∧
      p.state.given = s.given ∧ p.state.transport = s.transport := by
  obtain ⟨hverified, hrest, -, hgiven, htransport⟩ := race_verified hs hrun
  exact ⟨fun k r hk => (hverified k _ hk).2.1,
    fun k x hk hx => at_idle hs ((hrest k hk).symm.trans hx), hgiven, htransport⟩

def threeInfos : List AddrInfo :=
  [⟨afInet6, sockStream, 6, "", "('::1', 80, 0, 0)"⟩,
    ⟨afInet, sockStream, 6, "", "('127.0.0.1', 80)"⟩,
    ⟨afInet, sockStream, 6, "", "('127.0.0.2', 80)"⟩]

/-- Two attempts are under way, the second one connects, and the first one is cancelled. -/
theorem happy_eyeballs_example : ∃ p : Pool Net Await Value Exc Call (Option Exc) Unit,
    (p.state.attempts.map fun x => x.sock.map fun sk => (sk.closes, sk.peer)) =
      [some (1, none), some (0, some "('127.0.0.1', 80)"), none] ∧
    (∀ k r, p.tasks[k]? = some (.done r) → Raced threeInfos none k r p.state) ∧
    (∀ k x, p.tasks.length ≤ k → At k x p.state → x = .idle) := by
  have hplay : (Pool.play (⟨fun _ _ => .ok .unit, fun _ _ => none⟩ : Oracle _ _ _ _ _ _)
      [(0, .ok .unit), (1, .ok .unit), (1, .ok .unit), (0, .error .cancelled)]
      ⟨{ Net.start none with attempts := threeInfos.map fun _ => .idle },
        (raceTasks plainLib threeInfos none).take 2⟩).any (fun p =>
      (p.state.attempts.map fun x => x.sock.map fun sk => (sk.closes, sk.peer)) =
        [some (1, none), some (0, some "('127.0.0.1', 80)"), none]) = true := by decide +kernel
  obtain ⟨p, hp, hgood⟩ := (Option.any_eq_true _ _).mp hplay
  have hend := happy_eyeballs rfl
    (.of_play (fun _ _ => trivial) (fun _ _ _ => trivial) _ (.start _) hp)
  exact ⟨p, of_decide_eq_true hgood, hend.1, hend.2.1⟩

end Tokioop.Endpoint
