import Tokioop.Locks.State
import Tokioop.Kit.Exec

/-!
A thread never waits for itself, as long as the destructors that run inside a
critical section keep away from its mutex.

What a callback may rely on is that it leaves the mutexes as it found them.
The lock of a slot is held with that of `fds` only, and `timers` is held
across releases only by `close`, which the flag `closed` has made the last:
so one mutex for each method says what it must not find locked.
-/

namespace Tokioop.Locks

open Fd Kit Kit.Prog
open Loop (LoopState LoopError ReadyEntry TimerEntry IoCompletion F64)

variable {κ : Type}

/-- `add_watcher` gets past `dup` and the registration with the reactor. -/
def accepted (fd : Int) (setup : Setup) : Bool :=
  decide (0 ≤ fd) && setup.dup.isNone && setup.asyncFd.isNone

theorem register_of_accepted {fd : Int} {setup : Setup} (h : accepted fd setup = true)
    (reg : Registry κ κ) (isRead : Bool) (slot : Nat → FdSlotState κ κ) :
    ∃ handle, (reg.register fd isRead setup slot).1 = .ok handle := by
  simp only [accepted, Bool.and_eq_true, decide_eq_true_eq, Option.isNone_iff_eq_none] at h
  obtain ⟨⟨hfd, hdup⟩, hasync⟩ := h
  unfold Registry.register
  rw [if_neg (not_lt.mpr hfd), hdup, hasync]
  exact ⟨_, rfl⟩

theorem accepted_of_register {reg : Registry κ κ} {fd : Int} {isRead : Bool} {setup : Setup}
    {slot : Nat → FdSlotState κ κ} {handle : FdHandle}
    (h : (reg.register fd isRead setup slot).1 = .ok handle) : accepted fd setup = true := by
  unfold Registry.register at h
  split at h
  · cases h
  · split at h
    · cases h
    · cases h
    · rename_i hfd _ _ hdup hasync
      simp [accepted, hdup, hasync, not_lt.mp hfd]

/-- The mutex that a call locks first, if it gets as far. -/
def Method.mutex (s : World κ) : Method κ → Option Mutex
  | .addWatcher fd _ _ setup | .addDrainWatcher fd _ _ setup =>
      if !s.loop.closed && accepted fd setup then some .fds else none
  | .removeWatcher _ _ => if s.loop.closed then none else some .fds
  | .cancel h => if s.reg.flags[h.flag]? = some false then some .fds else none
  | .isPolling _ _ => some .fds
  | .close => if s.loop.running || s.loop.closed then none else some .fds
  | .callAt _ _ => if s.loop.closed then none else some .timers
  | .stats | .runTimer _ => some .timers
  | .setExceptionHandler _ | .getExceptionHandler | .callExceptionHandler => some .excHandler
  | .callSoon _ | .runReady | .runIo => none

/-- No call goes for a mutex that the thread holds. -/
def keepsAway (κ : Type) : LockPolicy κ where
  call top m s := (top = false → m.ofBatch = false) ∧ ∀ x ∈ m.mutex s, x ∉ s.held
  env _ _ _ := True
  ret e _ _ := returns e = true
  answer _ _ _ := True

structure Sane (s : World κ) : Prop where
  free : s.waiting = none
  slots : ∀ n, .slot n ∈ s.held → .fds ∈ s.held
  timers : .timers ∈ s.held → s.loop.closed = true

def lockContract (κ : Type) : Contract (World κ) (UserCall κ) Unit Exc Nat Bool where
  Inv := Sane
  Rely s t := t.held = s.held ∧ (s.loop.closed = true → t.loop.closed = true)
  Ret e _ _ := returns e = true
  Answer _ _ _ := True
  refl _ := ⟨rfl, id⟩
  trans h h' := ⟨h'.1.trans h.1, h'.2 ∘ h.2⟩

abbrev StaysSane (s t : World κ) : Prop := Sane t ∧ (lockContract κ).Rely s t

section

variable {s t u : World κ} {x : Mutex}

theorem Sane.still (h : Sane s) (hw : t.waiting = s.waiting) (hh : t.held = s.held)
    (hc : s.loop.closed = true → t.loop.closed = true) : StaysSane s t := by
  refine ⟨⟨hw.trans h.free, fun n hn => ?_, fun ht => ?_⟩, hh, hc⟩
  · rw [hh] at hn ⊢
    exact h.slots n hn
  · rw [hh] at ht
    exact hc (h.timers ht)

theorem Sane.updateReg (h : Sane s) (reg : Registry κ κ) : StaysSane s { s with reg := reg } :=
  h.still rfl rfl id

theorem Sane.env (hs : Sane s) (h : Env κ) : StaysSane s (s.env h) := by
  cases h <;> exact hs.still rfl rfl id

/-! ### Critical sections -/

/-- In state `t` the thread holds `x`, which it has locked in state `s`. -/
structure Within (x : Mutex) (s t : World κ) : Prop where
  sane : Sane t
  held : t.held = x :: s.held
  closed : s.loop.closed = true → t.loop.closed = true

/-- The thread may lock `x` and run Python code while it holds it. -/
structure Lockable (x : Mutex) (s : World κ) : Prop where
  free : x ∉ s.held
  slots : ∀ n, x = .slot n → .fds ∈ s.held
  timers : x = .timers → s.loop.closed = true

theorem Within.enter (h : Sane s) (hx : Lockable x s) :
    Within x s { s with held := x :: s.held } := by
  refine ⟨⟨h.free, fun n hn => ?_, fun ht => ?_⟩, rfl, id⟩
  · rcases List.mem_cons.mp hn with hn | hn
    · exact List.mem_cons_of_mem _ (hx.slots n hn.symm)
    · exact List.mem_cons_of_mem _ (h.slots n hn)
  · rcases List.mem_cons.mp ht with ht | ht
    · exact hx.timers ht.symm
    · exact h.timers ht

theorem Within.leave (hs : Sane s) (h : Within x s t) :
    StaysSane s { t with held := t.held.erase x } := by
  have hheld : t.held.erase x = s.held := by rw [h.held, List.erase_cons_head]
  refine ⟨⟨h.sane.free, fun n hn => ?_, fun ht => ?_⟩, hheld, h.closed⟩
  · change .slot n ∈ t.held.erase x at hn
    change .fds ∈ t.held.erase x
    rw [hheld] at hn ⊢
    exact hs.slots n hn
  · change .timers ∈ t.held.erase x at ht
    rw [hheld] at ht
    exact h.closed (hs.timers ht)

theorem Within.stay (h : Within x s t) (hu : StaysSane t u) : Within x s u :=
  ⟨hu.1, hu.2.1.trans h.held, fun hc => hu.2.2 (h.closed hc)⟩

theorem Lockable.rely (h : Lockable x s) (ht : (lockContract κ).Rely s t) : Lockable x t := by
  refine ⟨?_, fun n hn => ?_, fun hx => ht.2 (h.timers hx)⟩
  · rw [ht.1]
    exact h.free
  · rw [ht.1]
    exact h.slots n hn

theorem wp_lock {Q : Except Exc Unit → World κ → Prop} (hx : x ∉ s.held)
    (h : Q (.ok ()) { s with held := x :: s.held }) : (lock x).wp (lockContract κ) Q s := by
  unfold lock
  rw [wp_bind, wp_get]
  show wp _ (if x ∈ s.held then _ else _) _ s
  rw [if_neg hx]
  exact h

/-! ### Code that raises nothing -/

/-- From state `s` the body returns, in a sane state with the mutexes as
before. -/
abbrev QuietAt {α : Type} (s : World κ) (p : Meth κ α) : Prop :=
  p.wp (lockContract κ) (fun r t => (∃ a, r = .ok a) ∧ StaysSane s t) s

def Quiet {α : Type} (p : Meth κ α) : Prop := ∀ s, Sane s → QuietAt s p

theorem quiet_pure {α : Type} (a : α) : Quiet (pure a : Meth κ α) :=
  fun _ hs => ⟨⟨a, rfl⟩, hs, rfl, id⟩

/-- Go on after code that raises nothing. -/
theorem QuietAt.then {α β : Type} {p : Meth κ α} {f : α → Meth κ β}
    {Q : Except Exc β → World κ → Prop} (hp : QuietAt t p)
    (hf : ∀ a u, StaysSane t u → (f a).wp (lockContract κ) Q u) :
    (p >>= f).wp (lockContract κ) Q t := by
  rw [wp_bind]
  refine wp_mono _ ?_ hp
  rintro _ u ⟨⟨a, rfl⟩, hu⟩
  exact hf a u hu

/-- Go on from a state that an earlier part of the body has led to. -/
theorem QuietAt.since {α : Type} {p : Meth κ α} (ht : StaysSane s t) (h : QuietAt t p) :
    p.wp (lockContract κ) (fun r u => (∃ a, r = .ok a) ∧ StaysSane s u) t := by
  refine wp_mono _ ?_ h
  rintro r u ⟨hr, hu⟩
  exact ⟨hr, hu.1, (lockContract κ).trans ht.2 hu.2⟩

theorem QuietAt.bind {α β : Type} {p : Meth κ α} {f : α → Meth κ β} (hp : QuietAt s p)
    (hf : ∀ a t, StaysSane s t → QuietAt t (f a)) : QuietAt s (p >>= f) :=
  hp.then fun a t ht => (hf a t ht).since ht

theorem QuietAt.keeps {α : Type} {p : Meth κ α} (h : QuietAt s p) :
    p.wp (lockContract κ) (fun _ t => StaysSane s t) s :=
  wp_mono _ (fun _ _ h => h.2) h

theorem QuietAt.discard {α : Type} {p : Meth κ α} (h : QuietAt s p) :
    (discard p : Meth κ Unit).wp (lockContract κ) (fun _ t => StaysSane s t) s := by
  rw [wp_discard]
  refine wp_mono _ ?_ h.keeps
  intro r t ht
  cases r <;> exact ht

theorem quiet_bind {α β : Type} {p : Meth κ α} {f : α → Meth κ β} (hp : Quiet p)
    (hf : ∀ a, Quiet (f a)) : Quiet (p >>= f) :=
  fun s hs => (hp s hs).bind fun a t ht => hf a t ht.1

theorem quietAt_modify {f : World κ → World κ} (h : StaysSane s (f s)) :
    QuietAt s (modify f) := ⟨⟨(), rfl⟩, h⟩

/-- Python code whose exceptions are not passed on. -/
theorem quiet_callback (e : UserCall κ) :
    Quiet (tryCatch (callback e) fun _ => pure () : Meth κ Unit) := by
  intro s hs
  unfold QuietAt
  rw [wp_tryCatch]
  refine ⟨hs, fun t r ht htr _ => ?_⟩
  cases r with
  | ok a => exact ⟨⟨a, rfl⟩, ht, htr⟩
  | error e => exact ⟨⟨(), rfl⟩, ht, htr⟩

theorem quiet_release (k : κ) : Quiet (release k) := quiet_callback (.release k)

theorem quiet_repeatWhile {body : Meth κ Bool} (h : Quiet body) : Quiet (repeatWhile body) := by
  intro s hs
  refine wp_repeatWhile _ (StaysSane s) ⟨hs, rfl, id⟩ fun t ht => ?_
  refine wp_mono _ ?_ (h t ht.1)
  rintro _ u ⟨⟨more, rfl⟩, hu⟩
  have hsu : StaysSane s u := ⟨hu.1, (lockContract κ).trans ht.2 hu.2⟩
  cases more with
  | false => exact ⟨⟨(), rfl⟩, hsu⟩
  | true => exact hsu

theorem quiet_releaseAll (ks : List κ) : Quiet (releaseAll ks) := by
  induction ks with
  | nil => exact quiet_pure ()
  | cons k ks ih => exact quiet_bind (quiet_release k) fun _ => ih

/-- A critical section that changes the state and releases what was there. -/
theorem quiet_releasing (hs : Sane s) (hx : Lockable x s) (old : World κ → List κ)
    {f : World κ → World κ} (hf : ∀ t, Sane t → StaysSane t (f t)) :
    QuietAt s (do
      lock x
      let ks := old (← get)
      modify f
      releaseAll ks
      unlock x) := by
  have hin := Within.enter hs hx
  unfold QuietAt
  rw [wp_bind]
  refine wp_lock hx.free ?_
  show wp _ (get >>= _) _ _
  rw [wp_bind, wp_get]
  show wp _ (modify _ >>= _) _ _
  rw [wp_bind, wp_modify]
  have hchanged := hf _ hin.sane
  refine (quiet_releaseAll _ _ hchanged.1).then fun _ t ht => ?_
  exact ⟨⟨(), rfl⟩, ((hin.stay hchanged).stay ht).leave hs⟩

theorem quiet_dropSlot (n : Nat) : Quiet (dropSlot n : Meth κ Unit) := by
  intro s hs
  unfold dropSlot QuietAt
  rw [wp_bind, wp_query]
  intro last _
  show wp _ (if last = true then _ else _) _ s
  split
  · rw [wp_bind, wp_get]
    dsimp only
    cases s.reg.slots[n]? with
    | none => exact quiet_pure () s hs
    | some slot => exact quiet_releaseAll _ s hs
  · exact quiet_pure () s hs

theorem quiet_dropSlots (ds : List FdDirection) : Quiet (dropSlots ds : Meth κ Unit) := by
  induction ds with
  | nil => exact quiet_pure ()
  | cons d ds ih => exact quiet_bind (quiet_dropSlot d.slot) fun _ => ih

/-! ### Watchers -/

theorem lockable_fds (hfds : .fds ∉ s.held) : Lockable .fds s :=
  ⟨hfds, nofun, nofun⟩

/-- Under `fds` alone a slot can be locked. -/
theorem Within.lockable_slot (hs : Sane s) (hfds : .fds ∉ s.held) (h : Within .fds s t) (n : Nat) :
    Lockable (.slot n) t := by
  refine ⟨fun hn => ?_, fun _ _ => ?_, nofun⟩
  · rw [h.held] at hn
    rcases List.mem_cons.mp hn with hn | hn
    · cases hn
    · exact hfds (hs.slots n hn)
  · rw [h.held]
    exact List.mem_cons_self

/-- The callback is released under the lock of the slot. -/
theorem quiet_retire (d : FdDirection) (hs : Sane s) (hx : Lockable (.slot d.slot) s) :
    QuietAt s (retire d) :=
  quiet_releasing hs hx (fun t => (t.reg.slots[d.slot]?.bind FdSlotState.cb).toList)
    fun _ ht => ht.updateReg _

theorem quiet_retireAll (ds : List FdDirection) (hs : Sane s)
    (hx : ∀ n, Lockable (.slot n) s) : QuietAt s (retireAll ds) := by
  induction ds generalizing s with
  | nil => exact quiet_pure () s hs
  | cons d ds ih =>
      refine (quiet_retire d hs (hx d.slot)).bind fun _ t ht => ih ht.1 fun n => ?_
      exact (hx n).rely ht.2

/-- The watcher that gives way is retired and dropped under `fds`. -/
theorem wp_register (fd : Int) (isRead : Bool) (setup : Setup) (slot : Nat → FdSlotState κ κ)
    (hs : Sane s) (hfds : s.loop.closed = false → accepted fd setup = true → .fds ∉ s.held) :
    (register fd isRead setup slot).wp (lockContract κ) (fun _ t => StaysSane s t) s := by
  unfold register
  rw [wp_bind, wp_get]
  show wp _ (if s.loop.closed = true then _ else _) _ s
  cases hclosed : s.loop.closed with
  | true => exact ⟨hs, rfl, id⟩
  | false =>
      dsimp only
      cases hreg : (s.reg.register fd isRead setup slot).1 with
      | error e => exact ⟨hs, rfl, id⟩
      | ok handle =>
          have hfree := hfds hclosed (accepted_of_register hreg)
          have hin := Within.enter hs (lockable_fds hfree)
          show wp _ (lock .fds >>= _) _ s
          rw [wp_bind]
          refine wp_lock hfree ?_
          have hput : ∀ t, Within .fds s t → StaysSane s { t with
              reg := (t.reg.register fd isRead setup slot).2, held := t.held.erase .fds } :=
            fun t ht =>
              (ht.stay (ht.sane.updateReg (t.reg.register fd isRead setup slot).2)).leave hs
          show wp _ (get >>= _) _ _
          rw [wp_bind, wp_get]
          dsimp only
          cases s.reg.direction fd isRead with
          | none => exact hput _ hin
          | some old =>
              have hslot := hin.lockable_slot hs hfree old.slot
              refine (quiet_retire old hin.sane hslot).then fun _ t ht => ?_
              refine (quiet_dropSlot old.slot t ht.1).then fun _ u hu => ?_
              exact hput u ((hin.stay ht).stay hu)

/-- `detach_watcher`, as far as a guard of `fds` can be had. -/
theorem quiet_detachWatcher (fd : Int) (isRead : Bool) (hs : Sane s) (hfds : .fds ∉ s.held) :
    QuietAt s (detachWatcher fd isRead) := by
  have hin := Within.enter hs (lockable_fds hfds)
  unfold detachWatcher QuietAt
  rw [wp_bind]
  refine wp_lock hfds ?_
  show wp _ (get >>= _) _ _
  rw [wp_bind, wp_get]
  dsimp only
  cases s.reg.direction fd isRead with
  | none => exact ⟨⟨false, rfl⟩, hin.leave hs⟩
  | some old =>
      refine (quiet_retire old hin.sane (hin.lockable_slot hs hfds _)).then fun _ t ht => ?_
      rw [wp_bind, wp_modify]
      have htaken := ht.1.updateReg (t.reg.detachWatcher fd isRead).2
      refine (quiet_dropSlot old.slot _ htaken.1).then fun _ u hu => ?_
      exact ⟨⟨true, rfl⟩, (((hin.stay ht).stay htaken).stay hu).leave hs⟩

theorem quiet_removeWatcher (fd : Int) (isRead : Bool) (hs : Sane s)
    (hfds : s.loop.closed = false → .fds ∉ s.held) : QuietAt s (removeWatcher fd isRead) := by
  unfold removeWatcher QuietAt
  rw [wp_bind, wp_get]
  show wp _ (if s.loop.closed = true then _ else _) _ s
  cases hclosed : s.loop.closed with
  | true => exact quiet_pure false s hs
  | false => exact quiet_detachWatcher fd isRead hs (hfds hclosed)

theorem quiet_cancel (h : FdHandle) (hs : Sane s)
    (hfds : s.reg.flags[h.flag]? = some false → .fds ∉ s.held) : QuietAt s (cancel h) := by
  unfold cancel QuietAt
  rw [wp_bind, wp_get]
  show wp _ (if s.reg.flags[h.flag]? = some false then _ else _) _ s
  split
  next hflag =>
    rw [wp_bind, wp_modify]
    have hset := hs.updateReg { s.reg with flags := s.reg.flags.set h.flag true }
    have hdetach := quiet_detachWatcher h.fd h.isRead hset.1 (hfds hflag)
    refine hdetach.then fun _ t ht => ⟨⟨true, rfl⟩, ?_⟩
    exact ⟨ht.1, (lockContract κ).trans hset.2 ht.2⟩
  next => exact quiet_pure false s hs

/-- Nothing is released while `_is_polling` looks at the slot. -/
theorem quiet_isPolling (fd : Int) (isRead : Bool) (hs : Sane s) (hfds : .fds ∉ s.held) :
    QuietAt s (isPolling fd isRead) := by
  have hin := Within.enter hs (lockable_fds hfds)
  unfold isPolling QuietAt
  rw [wp_bind]
  refine wp_lock hfds ?_
  show wp _ (get >>= _) _ _
  rw [wp_bind, wp_get]
  dsimp only
  cases s.reg.direction fd isRead with
  | none => exact ⟨⟨false, rfl⟩, hin.leave hs⟩
  | some d =>
      have hslot := hin.lockable_slot hs hfds d.slot
      rw [wp_bind]
      refine wp_lock hslot.free ?_
      have hback := (Within.enter hin.sane hslot).leave hin.sane
      exact ⟨⟨_, rfl⟩, (hin.stay hback).leave hs⟩

/-- `abort_all` retires every watcher under `fds` and drops the records. -/
theorem quiet_abortAll (hs : Sane s) (hfds : .fds ∉ s.held) : QuietAt s (abortAll) := by
  have hin := Within.enter hs (lockable_fds hfds)
  unfold abortAll QuietAt
  rw [wp_bind]
  refine wp_lock hfds ?_
  show wp _ (get >>= _) _ _
  rw [wp_bind, wp_get]
  refine (quiet_retireAll _ hin.sane (hin.lockable_slot hs hfds)).then fun _ t ht => ?_
  rw [wp_bind, wp_modify]
  have hcleared := ht.1.updateReg { t.reg with fds := ∅, nWatchers := 0 }
  refine (quiet_dropSlots _ _ hcleared.1).then fun _ u hu => ?_
  exact ⟨⟨(), rfl⟩, (((hin.stay ht).stay hcleared).stay hu).leave hs⟩

/-! ### Timers and handlers -/

/-- A guard under which nothing is released. -/
theorem Sane.brief (hs : Sane s) (loop : LoopState κ)
    (hc : s.loop.closed = true → loop.closed = true) :
    StaysSane s { s with loop := loop, held := (x :: s.held).erase x } :=
  hs.still rfl (List.erase_cons_head ..) hc

theorem wp_callSoon (cb : κ) (hs : Sane s) :
    (callSoon cb).wp (lockContract κ) (fun _ t => StaysSane s t) s := by
  unfold callSoon
  rw [wp_bind, wp_get]
  show wp _ (if s.loop.closed = true then _ else _) _ s
  split
  · exact ⟨hs, rfl, id⟩
  · exact hs.still rfl rfl id

theorem wp_callAt (when : F64) (cb : κ) (hs : Sane s)
    (ht : s.loop.closed = false → .timers ∉ s.held) :
    (callAt when cb).wp (lockContract κ) (fun _ t => StaysSane s t) s := by
  unfold callAt
  rw [wp_bind, wp_get]
  show wp _ (if s.loop.closed = true then _ else _) _ s
  cases hclosed : s.loop.closed with
  | true => exact ⟨hs, rfl, id⟩
  | false =>
      show wp _ (lock .timers >>= _) _ s
      rw [wp_bind]
      refine wp_lock (ht hclosed) ?_
      exact hs.brief (s.loop.pushTimer when cb) id

theorem quiet_stats (hs : Sane s) (ht : .timers ∉ s.held) : QuietAt s stats := by
  unfold stats QuietAt
  rw [wp_bind]
  refine wp_lock ht ?_
  exact ⟨⟨_, rfl⟩, hs.brief s.loop id⟩

/-- The old handler is released under the lock. -/
theorem quiet_setExceptionHandler (handler : Option κ) (hs : Sane s)
    (hx : .excHandler ∉ s.held) : QuietAt s (setExceptionHandler handler) :=
  quiet_releasing hs ⟨hx, nofun, nofun⟩ (fun t => t.excHandler.toList)
    fun _ ht => ht.still rfl rfl id

theorem quiet_getExceptionHandler (hs : Sane s) (hx : .excHandler ∉ s.held) :
    QuietAt s getExceptionHandler := by
  unfold getExceptionHandler QuietAt
  rw [wp_bind]
  refine wp_lock hx ?_
  exact ⟨⟨_, rfl⟩, hs.brief s.loop id⟩

/-- The guard is gone when the handler runs. -/
theorem wp_callExceptionHandler (hs : Sane s) (hx : .excHandler ∉ s.held) :
    (callExceptionHandler : Meth κ Unit).wp (lockContract κ) (fun _ t => StaysSane s t) s := by
  unfold callExceptionHandler
  refine (quiet_getExceptionHandler hs hx).then fun handler t ht => ?_
  cases handler with
  | none => exact ⟨ht.1, fun u r hu hur _ => ⟨hu, (lockContract κ).trans ht.2 hur⟩⟩
  | some k =>
      refine wp_since ht.2 ((quiet_callback (.run k) t ht.1).bind fun _ u hu => ?_).keeps
      exact quiet_release k u hu.1

/-! ### Closing -/

theorem quiet_dropReady : Quiet (dropReady : Meth κ Bool) := by
  intro s hs
  unfold dropReady QuietAt
  rw [wp_bind, wp_get]
  dsimp only
  cases s.loop.ready with
  | nil => exact quiet_pure false s hs
  | cons e rest =>
      have htaken : StaysSane s { s with loop := { s.loop with ready := rest } } :=
        hs.still rfl rfl id
      refine (quietAt_modify htaken).bind fun _ t ht => ?_
      exact (quiet_release e.callback t ht.1).bind fun _ u hu => quiet_pure true u hu.1

theorem quiet_dropIo : Quiet (dropIo : Meth κ Bool) := by
  intro s hs
  unfold dropIo QuietAt
  rw [wp_bind, wp_get]
  dsimp only
  cases s.loop.io with
  | nil => exact quiet_pure false s hs
  | cons c rest =>
      have htaken : StaysSane s { s with loop := { s.loop with io := rest } } :=
        hs.still rfl rfl id
      refine (quietAt_modify htaken).bind fun _ t ht => ?_
      exact (quiet_dropSlot (slotOf c) t ht.1).bind fun _ u hu => quiet_pure true u hu.1

/-- The callbacks of the timers are released under the lock, by a loop that
is closed. -/
theorem quiet_clearTimers (hs : Sane s) (hc : s.loop.closed = true) (ht : .timers ∉ s.held) :
    QuietAt s clearTimers :=
  quiet_releasing hs ⟨ht, nofun, fun _ => hc⟩
    (fun t => t.loop.timers.map fun e : TimerEntry κ => e.entry.callback)
    (f := fun t => { t with loop := { t.loop with timers := [] } })
    fun _ ht => ht.still rfl rfl id

/-- An open loop holds no lock of the timers when Python code runs. -/
theorem Sane.timers_free (hs : Sane s) (hc : s.loop.closed = false) : .timers ∉ s.held := by
  intro ht
  rw [hs.timers ht] at hc
  cases hc

theorem wp_close (hs : Sane s)
    (hfds : s.loop.running = false → s.loop.closed = false → .fds ∉ s.held) :
    (close : Meth κ Unit).wp (lockContract κ) (fun _ t => StaysSane s t) s := by
  unfold close
  rw [wp_bind, wp_get]
  show wp _ (if s.loop.running = true then _ else if s.loop.closed = true then _ else _) _ s
  cases hrun : s.loop.running with
  | true => exact ⟨hs, rfl, id⟩
  | false =>
      cases hclosed : s.loop.closed with
      | true => exact ⟨hs, rfl, id⟩
      | false =>
          have hmark : StaysSane s { s with loop := { s.loop with closed := true } } :=
            hs.still rfl rfl fun _ => rfl
          show wp _ (modify _ >>= _) _ s
          rw [wp_bind, wp_modify]
          refine wp_since hmark.2 (QuietAt.keeps ?_)
          refine (quiet_abortAll hmark.1 (hfds hrun hclosed)).bind fun _ t ht => ?_
          refine (quiet_repeatWhile quiet_dropReady t ht.1).bind fun _ u hu => ?_
          have hfree : .timers ∉ u.held := by
            rw [hu.2.1, ht.2.1]
            exact hs.timers_free hclosed
          refine (quiet_clearTimers hu.1 (hu.2.2 (ht.2.2 rfl)) hfree).bind fun _ v hv => ?_
          exact quiet_repeatWhile quiet_dropIo v hv.1

/-! ### The batch -/

theorem quiet_runCallback (k : κ) (hs : Sane s) (hx : .excHandler ∉ s.held) :
    QuietAt s (runCallback k) := by
  unfold runCallback
  refine QuietAt.bind ?_ fun _ t ht => quiet_release k t ht.1
  unfold QuietAt
  rw [wp_tryCatch]
  refine ⟨hs, fun t r ht htr _ => ?_⟩
  cases r with
  | ok a => exact ⟨⟨a, rfl⟩, ht, htr⟩
  | error e =>
      have hfree : .excHandler ∉ t.held := by
        rw [htr.1]
        exact hx
      show wp _ (tryCatch callExceptionHandler _) _ t
      rw [wp_tryCatch]
      refine wp_mono _ ?_ (wp_since htr (wp_callExceptionHandler ht hfree))
      intro r u hu
      cases r with
      | ok a => exact ⟨⟨a, rfl⟩, hu⟩
      | error e => exact ⟨⟨(), rfl⟩, hu⟩

theorem quiet_runEntry (e : ReadyEntry κ) (hs : Sane s) (hx : .excHandler ∉ s.held) :
    QuietAt s (runEntry e) := by
  unfold runEntry QuietAt
  rw [wp_bind, wp_get]
  show wp _ (if s.loop.isCancelled e = true then _ else _) _ s
  split
  · exact quiet_release e.callback s hs
  · exact quiet_runCallback e.callback hs hx

theorem quiet_runReady (hs : Sane s) (hx : .excHandler ∉ s.held) : QuietAt s runReady := by
  unfold runReady QuietAt
  rw [wp_bind, wp_get]
  dsimp only
  cases s.loop.ready with
  | nil => exact quiet_pure () s hs
  | cons e rest =>
      have htaken : StaysSane s { s with loop := { s.loop with ready := rest } } :=
        hs.still rfl rfl id
      refine (quietAt_modify htaken).bind fun _ t ht => quiet_runEntry e ht.1 ?_
      rw [ht.2.1]
      exact hx

/-- The guard of the timers is gone when the entry runs. -/
theorem quiet_runTimer (now : ℚ) (hs : Sane s) (hx : .excHandler ∉ s.held)
    (ht : .timers ∉ s.held) : QuietAt s (runTimer now) := by
  unfold runTimer QuietAt
  rw [wp_bind]
  refine wp_lock ht ?_
  show wp _ (get >>= _) _ _
  rw [wp_bind, wp_get]
  dsimp only
  cases s.loop.peek with
  | none => exact ⟨⟨(), rfl⟩, hs.brief s.loop id⟩
  | some top =>
      show wp _ (if top.due now = true then _ else _) _ _
      split
      · have hpopped := hs.brief (x := .timers) (s.loop.popTimer top) id
        have hfree : .excHandler ∉ (Mutex.timers :: s.held).erase .timers := by
          rw [List.erase_cons_head]
          exact hx
        have hrun := (quiet_runEntry top.entry hpopped.1 hfree).since hpopped
        exact hrun
      · exact ⟨⟨(), rfl⟩, hs.brief s.loop id⟩

/-- The guard of the slot is gone when the consumer runs. -/
theorem quiet_runIo (hs : Sane s) (hfree : s.held = []) : QuietAt s runIo := by
  unfold runIo QuietAt
  rw [wp_bind, wp_get]
  dsimp only
  cases s.loop.io with
  | nil => exact quiet_pure () s hs
  | cons c rest =>
      have htaken : StaysSane s { s with loop := { s.loop with io := rest } } :=
        hs.still rfl rfl id
      refine (quietAt_modify htaken).bind fun _ t ht => ?_
      have htop : t.held = [] := ht.2.1.trans hfree
      have hback := ht.1.brief (x := .slot (slotOf c)) t.loop id
      unfold QuietAt
      rw [wp_bind]
      refine wp_lock (by rw [htop]; exact List.not_mem_nil) ?_
      rw [wp_bind, wp_get]
      dsimp only
      rw [wp_bind, unlock, wp_modify]
      dsimp only
      cases (t.reg.slots[slotOf c]?).bind fun slot => consumer slot c with
      | none => exact (quiet_dropSlot (slotOf c) _ hback.1).since hback
      | some k =>
          refine ((quiet_runCallback k hback.1 ?_).bind fun _ u hu => ?_).since hback
          · rw [hback.2.1, htop]
            exact List.not_mem_nil
          · exact quiet_dropSlot (slotOf c) u hu.1

/-! ### Every run -/

theorem wp_body (m : Method κ) (hs : Sane s) (haway : ∀ x ∈ m.mutex s, x ∉ s.held)
    (hbatch : m.ofBatch = true → s.held = []) :
    m.body.wp (lockContract κ) (fun _ t => StaysSane s t) s := by
  have hfree : m.ofBatch = true → ∀ x, x ∉ s.held := by
    intro hm x
    rw [hbatch hm]
    exact List.not_mem_nil
  cases m with
  | addWatcher fd isRead cb setup =>
      refine wp_register fd isRead setup _ hs fun hc ha => haway .fds ?_
      simp [Method.mutex, hc, ha]
  | addDrainWatcher fd drain drainErr setup =>
      refine wp_register fd true setup _ hs fun hc ha => haway .fds ?_
      simp [Method.mutex, hc, ha]
  | removeWatcher fd isRead =>
      refine QuietAt.discard (quiet_removeWatcher fd isRead hs fun hc => haway .fds ?_)
      simp [Method.mutex, hc]
  | cancel h =>
      refine QuietAt.discard (quiet_cancel h hs fun hflag => haway .fds ?_)
      simp [Method.mutex, hflag]
  | isPolling fd isRead => exact (quiet_isPolling fd isRead hs (haway .fds rfl)).discard
  | close =>
      exact wp_close hs fun hr hc => haway .fds (by simp [Method.mutex, hr, hc])
  | callSoon cb => exact wp_callSoon cb hs
  | callAt when cb =>
      exact wp_callAt when cb hs fun hc => haway .timers (by simp [Method.mutex, hc])
  | stats => exact (quiet_stats hs (haway .timers rfl)).discard
  | setExceptionHandler handler =>
      exact (quiet_setExceptionHandler handler hs (haway .excHandler rfl)).keeps
  | getExceptionHandler => exact (quiet_getExceptionHandler hs (haway .excHandler rfl)).discard
  | callExceptionHandler => exact wp_callExceptionHandler hs (haway .excHandler rfl)
  | runReady => exact (quiet_runReady hs (hfree rfl .excHandler)).keeps
  | runTimer now => exact (quiet_runTimer now hs (hfree rfl .excHandler) (hfree rfl .timers)).keeps
  | runIo => exact (quiet_runIo hs (hbatch rfl)).keeps

end

/-- The methods and what the watchers push keep the mutexes in order. -/
theorem lockContract_sound (κ : Type) :
    Sound (lockedLoop κ) (keepsAway κ) (lockContract κ) fun s => Sane s ∧ s.held = [] where
  ret h := h
  answer h := h
  call_top m s hs hm :=
    wp_mono _ (fun _ _ ht => ⟨ht.1, ht.2.1.trans hs.2⟩) (wp_body m hs.1 hm.2 fun _ => hs.2)
  call_inner m s hs hm := by
    refine wp_body m hs hm.2 fun hbatch => ?_
    rw [hm.1 rfl] at hbatch
    cases hbatch
  env_top h s s' hs _ hstep := by
    obtain rfl := Option.some.inj hstep
    have ht := hs.1.env h
    exact ⟨ht.1, ht.2.1.trans hs.2⟩
  env_inner h s s' hs _ hstep := by
    obtain rfl := Option.some.inj hstep
    exact hs.env h

/-! ### Calls that go for a mutex that is held -/

section

variable {s : World κ} {x : Mutex} {α β : Type}

/-- From state `s` the code gets to wait for `x`, which its own thread holds. -/
def Stuck (x : Mutex) (s : World κ) (p : Meth κ α) : Prop :=
  ∃ k t, p.Leads s (.user (.wait x) k) t ∧ t.waiting = some x

theorem Stuck.bind {p : Meth κ α} (h : Stuck x s p) (f : α → Meth κ β) : Stuck x s (p >>= f) := by
  obtain ⟨k, t, hleads, hwaiting⟩ := h
  exact ⟨_, t, hleads.andThen _, hwaiting⟩

theorem Stuck.get {f : World κ → Meth κ α} (h : Stuck x s (f s)) :
    Stuck x s (Prog.get >>= f) := by
  obtain ⟨k, t, hleads, hwaiting⟩ := h
  exact ⟨k, t, .read hleads, hwaiting⟩

theorem Stuck.modify {g : World κ → World κ} {f : Unit → Meth κ α} (h : Stuck x (g s) (f ())) :
    Stuck x s (Prog.modify g >>= f) := by
  obtain ⟨k, t, hleads, hwaiting⟩ := h
  exact ⟨k, t, .upd hleads, hwaiting⟩

theorem stuck_lock (h : x ∈ s.held) : Stuck x s (lock x) := by
  unfold lock
  refine Stuck.get ?_
  rw [if_pos h]
  exact ⟨_, _, .upd .refl, rfl⟩

theorem stuck_register {fd : Int} {setup : Setup} (isRead : Bool) (slot : Nat → FdSlotState κ κ)
    (hc : s.loop.closed = false) (ha : accepted fd setup = true) (h : .fds ∈ s.held) :
    Stuck .fds s (register fd isRead setup slot) := by
  obtain ⟨handle, hreg⟩ := register_of_accepted ha s.reg isRead slot
  unfold register
  refine Stuck.get ?_
  rw [hc, hreg]
  exact (stuck_lock h).bind _

theorem stuck_body {m : Method κ} (hm : m.mutex s = some x) (h : x ∈ s.held) :
    Stuck x s m.body := by
  cases m with
  | addWatcher fd isRead cb setup =>
      obtain ⟨⟨hc, ha⟩, rfl⟩ : (s.loop.closed = false ∧ accepted fd setup = true) ∧ .fds = x := by
        simpa [Method.mutex] using hm
      exact stuck_register isRead _ hc ha h
  | addDrainWatcher fd drain drainErr setup =>
      obtain ⟨⟨hc, ha⟩, rfl⟩ : (s.loop.closed = false ∧ accepted fd setup = true) ∧ .fds = x := by
        simpa [Method.mutex] using hm
      exact stuck_register true _ hc ha h
  | removeWatcher fd isRead =>
      obtain ⟨hc, rfl⟩ : s.loop.closed = false ∧ .fds = x := by simpa [Method.mutex] using hm
      refine Stuck.bind (Stuck.get ?_) _
      rw [hc]
      exact (stuck_lock h).bind _
  | cancel handle =>
      obtain ⟨hflag, rfl⟩ : s.reg.flags[handle.flag]? = some false ∧ .fds = x := by
        simpa [Method.mutex] using hm
      refine Stuck.bind (Stuck.get ?_) _
      rw [if_pos hflag]
      refine Stuck.modify (Stuck.bind (Stuck.bind (stuck_lock ?_) _) _)
      exact h
  | isPolling fd isRead =>
      obtain rfl : .fds = x := Option.some.inj hm
      exact ((stuck_lock h).bind _).bind _
  | close =>
      obtain ⟨⟨hr, hc⟩, rfl⟩ : (s.loop.running = false ∧ s.loop.closed = false) ∧ .fds = x := by
        simpa [Method.mutex] using hm
      refine Stuck.get ?_
      rw [hr, hc]
      refine Stuck.modify (Stuck.bind (Stuck.bind (stuck_lock ?_) _) _)
      exact h
  | callAt when cb =>
      obtain ⟨hc, rfl⟩ : s.loop.closed = false ∧ .timers = x := by simpa [Method.mutex] using hm
      refine Stuck.get ?_
      rw [hc]
      exact (stuck_lock h).bind _
  | stats =>
      obtain rfl : .timers = x := Option.some.inj hm
      exact ((stuck_lock h).bind _).bind _
  | setExceptionHandler handler =>
      obtain rfl : .excHandler = x := Option.some.inj hm
      exact (stuck_lock h).bind _
  | getExceptionHandler =>
      obtain rfl : .excHandler = x := Option.some.inj hm
      exact ((stuck_lock h).bind _).bind _
  | callExceptionHandler =>
      obtain rfl : .excHandler = x := Option.some.inj hm
      exact ((stuck_lock h).bind _).bind _
  | runTimer now =>
      obtain rfl : .timers = x := Option.some.inj hm
      exact (stuck_lock h).bind _
  | callSoon cb => cases hm
  | runReady => cases hm
  | runIo => cases hm

/-- Such a call, from wherever it is made, has the thread wait for itself. -/
theorem stuck_call {init : World κ → Prop} {c : Config (World κ) (UserCall κ) Unit Exc Nat Bool}
    {m : Method κ} (hrun : Reach (lockedLoop κ) (anyCall κ) init c) (ho : c.Outside)
    (hcall : (anyCall κ).call c.top m c.state) (hm : m.mutex c.state = some x)
    (h : x ∈ c.state.held) :
    ∃ d, Reach (lockedLoop κ) (anyCall κ) init d ∧ d.Outside ∧ d.state.waiting = some x := by
  obtain ⟨s, code, calls⟩ := c
  obtain rfl : code = none := ho
  obtain ⟨k, t, hleads, hwaiting⟩ := stuck_body hm h
  have hbody : Reach (lockedLoop κ) (anyCall κ) init ⟨s, some m.body, calls⟩ :=
    hrun.step (.call m) hcall rfl
  exact ⟨_, (hbody.leads hleads).step .tau trivial rfl, rfl, hwaiting⟩

end

/-- A thread never waits for a mutex that it holds, along every run in which
no call goes for a mutex of a critical section it is made in; and a call that
does has the thread wait. -/
theorem never_waits_for_itself (κ : Type) :
    (∀ c, Reach (lockedLoop κ) (keepsAway κ) (fun s => ∃ clock, s = World.new κ clock) c →
      c.Outside → c.state.waiting = none) ∧
    (∀ c m x, Reach (lockedLoop κ) (anyCall κ) (fun s => ∃ clock, s = World.new κ clock) c →
      c.Outside → (anyCall κ).call c.top m c.state → m.mutex c.state = some x →
      x ∈ c.state.held →
      ∃ d, Reach (lockedLoop κ) (anyCall κ) (fun s => ∃ clock, s = World.new κ clock) d ∧
        d.Outside ∧ d.state.waiting = some x) := by
  have hnew : ∀ s, (∃ clock, s = World.new κ clock) → Sane s ∧ s.held = [] := by
    rintro s ⟨clock, rfl⟩
    exact ⟨⟨rfl, fun _ => nofun, nofun⟩, rfl⟩
  refine ⟨fun c hrun ho => ?_, fun c m x hrun ho => stuck_call hrun ho⟩
  exact ((lockContract_sound κ).inv hnew (fun _ hs => hs.1) hrun ho).free

instance (e : UserCall κ) (r : Except Exc Unit) (s : World κ) :
    Decidable ((keepsAway κ).ret e r s) := inferInstanceAs (Decidable (returns e = true))

instance (b : Bool) (m : Method κ) (s : World κ) : Decidable ((keepsAway κ).call b m s) :=
  inferInstanceAs (Decidable ((b = false → m.ofBatch = false) ∧ ∀ x ∈ m.mutex s, x ∉ s.held))

instance (b : Bool) (h : Env κ) (s : World κ) : Decidable ((keepsAway κ).env b h s) :=
  inferInstanceAs (Decidable True)

instance (n : Nat) (a : Bool) (s : World κ) : Decidable ((keepsAway κ).answer n a s) :=
  inferInstanceAs (Decidable True)

instance (e : UserCall κ) (r : Except Exc Unit) (s : World κ) :
    Decidable ((anyCall κ).ret e r s) := inferInstanceAs (Decidable (returns e = true))

instance (b : Bool) (m : Method κ) (s : World κ) : Decidable ((anyCall κ).call b m s) :=
  inferInstanceAs (Decidable (b = false → m.ofBatch = false))

instance (b : Bool) (h : Env κ) (s : World κ) : Decidable ((anyCall κ).env b h s) :=
  inferInstanceAs (Decidable True)

instance (n : Nat) (a : Bool) (s : World κ) : Decidable ((anyCall κ).answer n a s) :=
  inferInstanceAs (Decidable True)

/-- The destructor of a callback, run by `remove_reader` under `fds` and the
lock of the slot, looks at `stats`, which it may; `_is_polling` in its place
locks `fds` once more. -/
theorem never_waits_for_itself_destructor :
    (∃ c, Reach (lockedLoop Nat) (keepsAway Nat) (fun s => ∃ clock, s = World.new Nat clock) c ∧
      c.state.held = [.slot 0, .fds] ∧ c.state.waiting = none) ∧
    (∃ d, Reach (lockedLoop Nat) (anyCall Nat) (fun s => ∃ clock, s = World.new Nat clock) d ∧
      d.Outside ∧ d.state.waiting = some .fds) := by
  constructor
  · have hstart : Reach (lockedLoop Nat) (keepsAway Nat) (fun s => ∃ clock, s = World.new Nat clock)
        ⟨.new Nat 0, none, []⟩ := .start ⟨_, ⟨_, rfl⟩, rfl⟩
    obtain ⟨c, hc, hend⟩ := hstart.exists_of_replay
      [Move.andRun (.call (.addWatcher 3 true 7 ⟨none, none⟩)) 7,
        Move.andRun (.call (.removeWatcher 3 true)) 9, Move.andRun (.call .stats) 5].flatten
      (fun c => c.code.isNone && decide (c.state.held = [.slot 0, .fds])) (by decide +kernel)
    simp only [Bool.and_eq_true, Option.isNone_iff_eq_none, decide_eq_true_eq] at hend
    exact ⟨c, hc, hend.2, (never_waits_for_itself Nat).1 c hc hend.1⟩
  · have hstart : Reach (lockedLoop Nat) (anyCall Nat) (fun s => ∃ clock, s = World.new Nat clock)
        ⟨.new Nat 0, none, []⟩ := .start ⟨_, ⟨_, rfl⟩, rfl⟩
    obtain ⟨c, hc, hend⟩ := hstart.exists_of_replay
      [Move.andRun (.call (.addWatcher 3 true 7 ⟨none, none⟩)) 7,
        Move.andRun (.call (.removeWatcher 3 true)) 9].flatten
      (fun c => c.code.isNone && decide (.fds ∈ c.state.held)) (by decide +kernel)
    simp only [Bool.and_eq_true, Option.isNone_iff_eq_none, decide_eq_true_eq] at hend
    exact (never_waits_for_itself Nat).2 c (.isPolling 3 true) .fds hc hend.1 (fun _ => rfl) rfl
      hend.2

/-- `remove_reader` lets go of the last reference to a callback, whose
destructor asks `_is_polling`: the thread waits for the guard of `fds` that
`remove_reader` holds. -/
theorem destructor_waits_for_fds :
    ∃ c, Reach (lockedLoop Nat) (anyCall Nat) (fun s => ∃ clock, s = World.new Nat clock) c ∧
      c.calls.map Prod.fst = [.wait .fds, .release 7] ∧ .fds ∈ c.state.held ∧
      c.state.waiting = some .fds := by
  have hstart : Reach (lockedLoop Nat) (anyCall Nat) (fun s => ∃ clock, s = World.new Nat clock)
      ⟨.new Nat 0, none, []⟩ := .start ⟨_, ⟨_, rfl⟩, rfl⟩
  obtain ⟨c, hc, hend⟩ := hstart.exists_of_replay
    [Move.andRun (.call (.addWatcher 3 true 7 ⟨none, none⟩)) 7,
      Move.andRun (.call (.removeWatcher 3 true)) 9,
      Move.andRun (.call (.isPolling 3 true)) 3].flatten
    (fun c => decide (c.calls.map Prod.fst = [.wait .fds, .release 7]) &&
      (decide (.fds ∈ c.state.held) && decide (c.state.waiting = some .fds))) (by decide +kernel)
  simp only [Bool.and_eq_true, decide_eq_true_eq] at hend
  exact ⟨c, hc, hend⟩

end Tokioop.Locks
