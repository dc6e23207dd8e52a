import Tokioop.Fd.FdTask
import Tokioop.Kit.Notify

/-!
The rendezvous of a callback-mode watcher: `fd_task` pushes a completion and
waits on `hs`, and the batch that takes the completion notifies `hs` when it has
executed it.

The `Notify` is one for all firings, so that there must be no more than one
completion or notification at a time: a second completion would run the callback
twice, and a notification that is left behind would let the task go on before
its callback has run. What the probes and the driver answer is left open here,
and task, batches and the callers that remove the watcher take their steps in any
order. A batch that has taken a completion notifies, whether the slot still has
a callback or not and whatever that raises.
-/

namespace Tokioop.Fd

open Kit

/-- Where `fd_task` is. -/
inductive TaskPc
  /-- Spawned, before the priming poll. -/
  | start
  /-- In `afd.readable().await` or `afd.writable().await`. -/
  | waitReady
  /-- About to check the slot. -/
  | check
  /-- About to push the completion. -/
  | push
  /-- In `hs.notified().await`. -/
  | waitHs
  /-- Back from it. -/
  | released
  | returned
  /-- Aborted, and dropped by the runtime. -/
  | dropped
  deriving DecidableEq, Repr

/-- An entry of `state.io`: the `Callback` of this watcher, or any other. -/
inductive Completion
  | callback
  | other
  deriving DecidableEq, Repr

/-- Where the loop is. -/
inductive LoopPc
  /-- Not in `run_forever`. -/
  | stopped
  /-- In a batch, in front of the next completion. -/
  | batch
  | executing (c : Completion)
  /-- In `run_main`, behind a batch. -/
  | between
  deriving DecidableEq, Repr

/-- A watcher and the loop it belongs to. `pushed` and `executed` count the
completions of the watcher, those pushed and those with which a batch is done. -/
structure Watch where
  cb : Bool
  hs : Notify Unit
  pc : TaskPc
  aborted : Bool
  io : List Completion
  loop : LoopPc
  closed : Bool
  pushed : Nat
  executed : Nat

namespace Watch

/-- One step of the task; `answer` is what the probe finds, and whether the wait
for readiness ends well. -/
def taskStep (s : Watch) (answer : Bool) : Option Watch :=
  match s.pc with
  | .start => some { s with pc := if answer then .check else .waitReady }
  | .waitReady => some { s with pc := if answer then .check else .returned }
  | .check => some { s with pc := if s.cb then .push else .returned }
  | .push =>
      some { s with pc := .waitHs, io := s.io ++ [.callback], pushed := s.pushed + 1 }
  | .waitHs =>
      let r := s.hs.poll ()
      some { s with hs := r.2, pc := if r.1 then .released else .waitHs }
  | .released =>
      some
        { s with
          pc := if s.cb then if answer then .check else .waitReady else .returned }
  | .returned | .dropped => none

inductive Move
  | task (answer : Bool)
  /-- The runtime drops the future of the aborted task. -/
  | drop
  /-- The watcher is removed, cancelled or replaced: its task is aborted, and
  then its slot is emptied. -/
  | abort
  | empty
  /-- Another watcher pushes. -/
  | other
  /-- `run_forever` begins with a batch. -/
  | run
  | pop
  /-- The batch is done with the completion. -/
  | done
  | again
  /-- `run_main` ends behind a batch. -/
  | leave
  | close
  deriving DecidableEq, Repr

def step (s : Watch) : Move → Option Watch
  | .task answer => if s.loop = .stopped then none else s.taskStep answer
  | .drop =>
      if s.aborted then
        match s.pc with
        | .returned | .dropped => none
        | .waitHs => some { s with pc := .dropped, hs := s.hs.leave () }
        | _ => some { s with pc := .dropped }
      else none
  | .abort => some { s with aborted := true }
  | .empty => if s.aborted then some { s with cb := false } else none
  | .other => some { s with io := s.io ++ [.other] }
  | .run => if s.loop = .stopped ∧ s.closed = false then some { s with loop := .batch } else none
  | .pop =>
      if s.loop = .batch then
        match s.io with
        | [] => some { s with loop := .between }
        | c :: rest => some { s with io := rest, loop := .executing c }
      else none
  | .done =>
      match s.loop with
      | .executing .callback =>
          some { s with hs := s.hs.notifyOne, loop := .batch, executed := s.executed + 1 }
      | .executing .other => some { s with loop := .batch }
      | _ => none
  | .again => if s.loop = .between then some { s with loop := .batch } else none
  | .leave => if s.loop = .between then some { s with loop := .stopped } else none
  | .close =>
      if s.loop = .stopped ∧ s.closed = false then
        some { s with closed := true, aborted := true, cb := false, io := [] }
      else none

/-- `add_watcher`, on a loop in any state. -/
def Init (s : Watch) : Prop :=
  s.cb = true ∧ s.hs = .new ∧ s.pc = .start ∧ s.aborted = false ∧ .callback ∉ s.io ∧
    s.loop ≠ .executing .callback ∧ s.pushed = 0 ∧ s.executed = 0

/-! ### One at a time -/

/-- The completions of the watcher, in the queue and being executed. -/
def completions (s : Watch) : Nat :=
  s.io.count .callback + if s.loop = .executing .callback then 1 else 0

/-- The completions in hand and the notifications that nobody has consumed. -/
def total (s : Watch) : Nat := s.completions + s.hs.held

end Watch

/-- How much may be in hand: one while the task is between its push and its
return from `hs.notified()`, and one may be left behind when it is dropped. -/
def TaskPc.room : TaskPc → Nat
  | .waitHs | .dropped => 1
  | _ => 0

theorem TaskPc.room_le (pc : TaskPc) : pc.room ≤ 1 := by
  cases pc <;> decide

namespace Watch

/-- Until the task is aborted, what is in hand is what the task waits for. -/
structure Inv (s : Watch) : Prop where
  most : s.total ≤ s.pc.room
  exact : s.aborted = false → s.total = s.pc.room
  kept : s.aborted = false → s.pc ≠ .dropped
  balance : s.aborted = false → s.pushed = s.executed + s.completions

namespace Inv

variable {s s' : Watch}

theorem init (h : s.Init) : s.Inv := by
  obtain ⟨-, hhs, hpc, -, hio, hloop, hpushed, hexecuted⟩ := h
  have hcompletions : s.completions = 0 := by
    rw [completions, List.count_eq_zero.mpr hio, if_neg hloop]
  have htotal : s.total = 0 := by rw [total, hcompletions, hhs]; rfl
  have hroom : s.pc.room = 0 := by rw [hpc]; rfl
  refine ⟨by omega, fun _ => by omega, fun _ => ?_, fun _ => by omega⟩
  rw [hpc]
  decide

/-- A step that keeps the accounts of a task that is not aborted. -/
theorem next (h : s.Inv) (haborted : s'.aborted = s.aborted)
    (htotal : s'.total + s.pc.room = s.total + s'.pc.room)
    (hpc : s'.pc = .dropped → s.pc = .dropped)
    (hbalance : s'.pushed + (s.executed + s.completions) =
      s.pushed + (s'.executed + s'.completions)) : s'.Inv := by
  have hmost := h.most
  refine ⟨by omega, fun ha => ?_, fun ha => ?_, fun ha => ?_⟩
  · have hexact := h.exact (haborted ▸ ha)
    omega
  · exact mt hpc (h.kept (haborted ▸ ha))
  · have := h.balance (haborted ▸ ha)
    omega

/-- A step of the aborted task, or of the loop with what it has left. -/
theorem rest (haborted : s'.aborted = true) (hmost : s'.total ≤ s'.pc.room) : s'.Inv := by
  have hno : ¬ s'.aborted = false := by simp [haborted]
  exact ⟨hmost, fun ha => absurd ha hno, fun ha => absurd ha hno, fun ha => absurd ha hno⟩

theorem goOn (h : s.Inv) (pc : TaskPc) (hs : s.pc.room = 0) (hpc : pc.room = 0) :
    Inv { s with pc := pc } := by
  refine h.next rfl ?_ ?_ rfl
  · show s.total + s.pc.room = s.total + pc.room
    omega
  · rintro rfl
    cases hpc

theorem taskStep (h : s.Inv) {answer : Bool} (hs : s.taskStep answer = some s') : s'.Inv := by
  unfold Watch.taskStep at hs
  cases hpc : s.pc with
  | start | waitReady =>
      rw [hpc] at hs
      cases hs
      apply h.goOn _ (by rw [hpc]; rfl)
      cases answer <;> rfl
  | check =>
      rw [hpc] at hs
      cases hs
      apply h.goOn _ (by rw [hpc]; rfl)
      cases s.cb <;> rfl
  | push =>
      rw [hpc] at hs
      cases hs
      have hcompletions : completions
          { s with pc := .waitHs, io := s.io ++ [.callback], pushed := s.pushed + 1 } =
            s.completions + 1 := by
        simp only [completions, List.count_append, List.count_singleton_self]
        omega
      refine h.next rfl ?_ (fun hdropped => by cases hdropped) ?_
      · simp only [total, hcompletions, hpc, TaskPc.room]
        omega
      · rw [hcompletions]
        show s.pushed + 1 + _ = s.pushed + (s.executed + _)
        omega
  | waitHs =>
      rw [hpc] at hs
      cases hs
      have hheld := s.hs.held_poll ()
      refine h.next rfl ?_ ?_ rfl
      · show s.completions + (s.hs.poll ()).2.held + s.pc.room =
          s.completions + s.hs.held + TaskPc.room _
        rw [hpc]
        cases hready : (s.hs.poll ()).1 <;> rw [hready] at hheld <;>
          simp only [Bool.toNat_true, Bool.toNat_false] at hheld <;> simp [TaskPc.room] <;> omega
      · show (if _ then TaskPc.released else .waitHs) = .dropped → _
        split <;> intro hdropped <;> cases hdropped
  | released =>
      rw [hpc] at hs
      cases hs
      apply h.goOn _ (by rw [hpc]; rfl)
      cases s.cb <;> cases answer <;> rfl
  | returned | dropped =>
      rw [hpc] at hs
      cases hs

/-- What the loop still has in hand may outlive the task. -/
theorem drop (h : s.Inv) (hs : s.step .drop = some s') : s'.Inv := by
  unfold step at hs
  simp only at hs
  split at hs
  · rename_i haborted
    have hmost := h.most
    have hroom := TaskPc.room_le s.pc
    split at hs
    · cases hs
    · cases hs
    · cases hs
      have hheld := s.hs.held_leave_le ()
      refine rest haborted ?_
      simp only [total, completions, TaskPc.room] at hmost hroom ⊢
      omega
    · cases hs
      exact rest haborted (Nat.le_trans hmost hroom)
  · cases hs

/-- The batch notifies for the completion that it is done with. -/
theorem notify (h : s.Inv) (hloop : s.loop = .executing .callback) :
    Inv { s with hs := s.hs.notifyOne, loop := .batch, executed := s.executed + 1 } := by
  have hcompletions : s.completions = s.io.count .callback + 1 := by
    rw [completions, if_pos hloop]
  have hmost := h.most
  have hroom := TaskPc.room_le s.pc
  -- The completion is all there is, so that no permit is stored.
  have hheld : s.hs.held = 0 := by
    simp only [total] at hmost
    omega
  have hnotified := Notify.held_notifyOne (Notify.permit_of_held hheld)
  refine h.next rfl ?_ id ?_
  · simp only [total, completions, reduceCtorEq, if_false] at hcompletions ⊢
    omega
  · simp only [completions, reduceCtorEq, if_false] at hcompletions ⊢
    omega

/-- A step in which the loop neither pushes nor notifies. -/
theorem turn (h : s.Inv) (io : List Completion) (loop : LoopPc)
    (hsame : completions { s with io := io, loop := loop } = s.completions) :
    Inv { s with io := io, loop := loop } := by
  refine h.next rfl ?_ id ?_
  · simp only [total, hsame]
  · rw [hsame]

theorem pop (h : s.Inv) (hs : s.step .pop = some s') : s'.Inv := by
  unfold Watch.step at hs
  simp only at hs
  split at hs
  · rename_i hloop
    split at hs
    · rename_i hio
      cases hs
      exact h.turn s.io .between (by simp [completions, hloop])
    · rename_i c rest hio
      cases hs
      apply h.turn rest (.executing c)
      cases c <;> simp [completions, hloop, hio]
  · cases hs

theorem close (h : s.Inv) (hs : s.step .close = some s') : s'.Inv := by
  unfold Watch.step at hs
  simp only at hs
  split at hs
  · rename_i hstopped
    cases hs
    have hmost := h.most
    refine rest rfl ?_
    simp only [total, completions, hstopped.1, List.count_nil, reduceCtorEq, if_false] at hmost ⊢
    omega
  · cases hs

theorem step (h : s.Inv) {m : Move} (hs : s.step m = some s') : s'.Inv := by
  cases m with
  | task answer =>
      simp only [Watch.step] at hs
      split at hs
      · cases hs
      · exact h.taskStep hs
  | drop => exact h.drop hs
  | abort =>
      cases hs
      exact rest rfl h.most
  | empty =>
      simp only [Watch.step] at hs
      split at hs
      · rename_i haborted
        cases hs
        exact rest haborted h.most
      · cases hs
  | other =>
      cases hs
      exact h.turn _ s.loop (by simp [completions])
  | run =>
      simp only [Watch.step] at hs
      split at hs
      · rename_i hstopped
        cases hs
        exact h.turn s.io .batch (by simp [completions, hstopped.1])
      · cases hs
  | pop => exact h.pop hs
  | done =>
      simp only [Watch.step] at hs
      split at hs
      · rename_i hloop
        cases hs
        exact h.notify hloop
      · rename_i hloop
        cases hs
        exact h.turn s.io .batch (by simp [completions, hloop])
      · cases hs
  | again =>
      simp only [Watch.step] at hs
      split at hs
      · rename_i hloop
        cases hs
        exact h.turn s.io .batch (by simp [completions, hloop])
      · cases hs
  | leave =>
      simp only [Watch.step] at hs
      split at hs
      · rename_i hloop
        cases hs
        exact h.turn s.io .stopped (by simp [completions, hloop])
      · cases hs
  | close => exact h.close hs

theorem of_runs {ok : Watch → Move → Prop} (h : Runs Watch.step ok Init s) : s.Inv :=
  h.invariant (fun _ => init) fun _ _ _ hi _ hs => hi.step hs

end Inv

end Watch

/-- **One to one.** In every run, the completions of the watcher that are queued
or being executed and the notifications that its task has not consumed are at
most one. Until the task is aborted there is one exactly while the task is
between its push and its return from the wait, and when it is elsewhere batches
have been done with every completion that it pushed. -/
theorem rendezvous_one_to_one {s : Watch}
    (h : Runs Watch.step (fun _ _ => True) Watch.Init s) :
    s.completions + s.hs.held ≤ 1 ∧
      (s.aborted = false → (s.completions + s.hs.held = 1 ↔ s.pc = .waitHs)) ∧
      (s.aborted = false → s.pc ≠ .waitHs → s.executed = s.pushed) := by
  have hinv := Watch.Inv.of_runs h
  have hroom := s.pc.room_le
  have hroom_iff (ha : s.aborted = false) : s.pc.room = 1 ↔ s.pc = .waitHs := by
    have hkept := hinv.kept ha
    cases hpc : s.pc <;> simp_all [TaskPc.room]
  refine ⟨Nat.le_trans hinv.most hroom, fun ha => ?_, fun ha hpc => ?_⟩
  · rw [← hroom_iff ha, ← hinv.exact ha, Watch.total]
  · have hexact := hinv.exact ha
    have hbalance := hinv.balance ha
    have hne := mt (hroom_iff ha).mp hpc
    simp only [Watch.total] at hexact
    omega

/-- A batch that is done before the task waits, and a second completion. -/
theorem rendezvous_one_to_one_second :
    ∃ s : Watch, s.pc = .waitHs ∧ s.executed = 1 ∧ s.completions + s.hs.held = 1 := by
  have hstart : Runs Watch.step (fun _ _ => True) Watch.Init
      ⟨true, .new, .start, false, [.other], .between, false, 0, 0⟩ :=
    .start ⟨rfl, rfl, rfl, rfl, by decide, by decide, rfl, rfl⟩
  have hrun := hstart.of_replay [.task true, .task true, .task true, .again, .pop, .done, .pop,
    .done, .task true, .task true, .task true, .task true, .task true] rfl
  exact ⟨_, rfl, rfl, ((rendezvous_one_to_one hrun).2.1 rfl).mpr rfl⟩

/-! ### The watcher with its descriptor -/

/-- The rendezvous of a watcher whose descriptor is looked at. The task waits,
or has been handed its notification. -/
def FdPc.Meets (w : Watch) (permit : Bool) : FdPc → Prop
  | .start => w.pc = .start ∧ w.hs = .new
  | .waitReady | .clear _ => w.pc = .waitReady ∧ w.hs = .new
  | .fire _ => w.pc = .check ∧ w.hs = .new
  | .waitHs _ =>
      w.pc = .waitHs ∧
        w.hs = if permit then (Notify.new.poll ()).2.notifyOne else (Notify.new.poll ()).2
  | .probe _ => w.pc = .released ∧ w.hs = .new
  | .finished => w.pc = .returned ∨ w.pc = .dropped

structure FdSys.Shows (s : FdSys) (w : Watch) : Prop where
  cb : w.cb = s.cb
  io : w.io = List.replicate s.io .callback
  loop : w.loop = if s.executing then .executing .callback else .batch
  aborted : s.pc ≠ .finished → w.aborted = false
  meets : s.pc.Meets w s.permit
  held : w.hs.held = s.permit.toNat

namespace FdSys

variable {isRead : Bool} {s s' : FdSys} {w : Watch}

abbrev Reached (w : Watch) : Prop := Runs Watch.step (fun _ _ => True) Watch.Init w

theorem Shows.completions (h : s.Shows w) :
    w.completions + w.hs.held = s.io + s.executing.toNat + s.permit.toNat := by
  rw [Watch.completions, h.io, h.loop, h.held, List.count_replicate_self]
  cases s.executing <;> simp

theorem Shows.running (h : s.Shows w) : w.loop ≠ .stopped := by
  rw [h.loop]
  cases s.executing <;> simp

theorem Shows.task (h : s.Shows w) (answer : Bool) :
    w.step (.task answer) = w.taskStep answer := by
  rw [Watch.step, if_neg h.running]

theorem Shows.goOn (hw : Reached w) (h : s.Shows w) (hne : s.pc ≠ .finished) (answer : Bool)
    {pc : TaskPc} (hstep : w.taskStep answer = some { w with pc := pc }) (fdPc : FdPc)
    (afd : AsyncFd) (hmeets : fdPc.Meets { w with pc := pc } s.permit) :
    ∃ w', Reached w' ∧ Shows { s with pc := fdPc, afd := afd } w' :=
  ⟨_, hw.step (.task answer) trivial ((h.task answer).trans hstep), h.cb, h.io, h.loop,
    fun _ => h.aborted hne, hmeets, h.held⟩

theorem shown_fire {guard : Option Nat} (hw : Reached w) (h : s.Shows w)
    (hpc : s.pc = .fire guard) (hcb : s.cb = true) :
    ∃ w', Reached w' ∧ Shows { s with pc := .waitHs guard, io := s.io + 1 } w' := by
  have hmeets := h.meets
  rw [hpc] at hmeets
  obtain ⟨hwpc, hnew⟩ := hmeets
  have hpermit : s.permit = false := by
    have hheld := h.held
    rw [hnew] at hheld
    simpa using hheld.symm
  have hloop := h.running
  -- The slot is checked, the completion pushed, and the task waits.
  have hcheck : w.step (.task true) = some { w with pc := .push } := by
    rw [Watch.step, if_neg hloop, Watch.taskStep, hwpc]
    simp [h.cb, hcb]
  have hpush : Watch.step { w with pc := .push } (.task true) =
      some { w with pc := .waitHs, io := w.io ++ [.callback], pushed := w.pushed + 1 } := by
    rw [Watch.step, if_neg hloop]
    rfl
  have hwait : Watch.step
      { w with pc := .waitHs, io := w.io ++ [.callback], pushed := w.pushed + 1 } (.task true) =
        some
          { w with
            pc := .waitHs, io := w.io ++ [.callback], pushed := w.pushed + 1
            hs := (Notify.new.poll ()).2 } := by
    rw [Watch.step, if_neg hloop]
    simp only [Watch.taskStep, hnew]
    rfl
  refine ⟨_, ((hw.step _ trivial hcheck).step _ trivial hpush).step _ trivial hwait, h.cb, ?_,
    h.loop, fun _ => h.aborted (by rw [hpc]; simp), ⟨rfl, ?_⟩, ?_⟩
  · show w.io ++ [.callback] = _
    rw [h.io, List.replicate_succ']
  · show _ = if s.permit then _ else _
    rw [hpermit]
    rfl
  · show _ = s.permit.toNat
    rw [hpermit]
    rfl

theorem Shows.returns (h : s.Shows w) (hcb : ¬s.cb = true)
    (hpc : w.pc = .check ∨ w.pc = .released) :
    w.taskStep true = some { w with pc := .returned } := by
  unfold Watch.taskStep
  rcases hpc with hpc | hpc
  · rw [hpc]
    simp [h.cb, hcb]
  · rw [hpc]
    simp [h.cb, hcb]

theorem shown_run {pollFails : Bool} (hw : Reached w) (h : s.Shows w)
    (hs : fdStep isRead pollFails s = some s') : ∃ w', Reached w' ∧ s'.Shows w' := by
  have hmeets := h.meets
  unfold fdStep at hs
  have hne : s.pc ≠ .finished := by
    intro hpc
    rw [hpc] at hs
    cases hs
  cases hpc : s.pc with
  | start =>
      rw [hpc] at hs hmeets
      simp only at hs
      split at hs
      · cases hs
        exact h.goOn hw hne true (by rw [Watch.taskStep, hmeets.1]; rfl) _ _ ⟨rfl, hmeets.2⟩
      · cases hs
        exact h.goOn hw hne false (by rw [Watch.taskStep, hmeets.1]; rfl) _ _ ⟨rfl, hmeets.2⟩
  | waitReady =>
      rw [hpc] at hs hmeets
      simp only at hs
      split at hs
      · cases hs
        exact h.goOn hw hne true (by rw [Watch.taskStep, hmeets.1]; rfl) _ _ ⟨rfl, hmeets.2⟩
      · cases hs
  | fire guard =>
      rw [hpc] at hs hmeets
      simp only at hs
      split at hs
      · rename_i hcb
        cases hs
        exact shown_fire hw h hpc hcb
      · rename_i hcb
        cases hs
        exact h.goOn hw hne true (h.returns hcb (.inl hmeets.1)) _ _ (.inl rfl)
  | waitHs guard =>
      rw [hpc] at hs hmeets
      simp only at hs
      split at hs
      · rename_i hpermit
        cases hs
        obtain ⟨hwpc, hhs⟩ := hmeets
        rw [hpermit] at hhs
        have hpoll : w.taskStep true = some { w with hs := .new, pc := .released } := by
          rw [Watch.taskStep, hwpc]
          simp only [hhs]
          rfl
        exact ⟨_, hw.step (.task true) trivial ((h.task true).trans hpoll), h.cb, h.io, h.loop,
          fun _ => h.aborted hne, ⟨rfl, rfl⟩, rfl⟩
      · cases hs
  | probe guard =>
      rw [hpc] at hs hmeets
      simp only at hs
      split at hs
      · rename_i hcb
        split at hs
        · cases hs
          refine h.goOn hw hne true ?_ _ _ ⟨rfl, hmeets.2⟩
          rw [Watch.taskStep, hmeets.1]
          simp [h.cb, hcb]
        · cases hs
          refine h.goOn hw hne false ?_ _ _ ⟨rfl, hmeets.2⟩
          rw [Watch.taskStep, hmeets.1]
          simp [h.cb, hcb]
      · rename_i hcb
        cases hs
        exact h.goOn hw hne true (h.returns hcb (.inr hmeets.1)) _ _ (.inl rfl)
  | clear guard =>
      rw [hpc] at hs hmeets
      cases guard with
      | none | some _ =>
          cases hs
          exact ⟨w, hw, h.cb, h.io, h.loop, fun _ => h.aborted hne, hmeets, h.held⟩
  | finished => exact absurd hpc hne

theorem shown_pop (hw : Reached w) (h : s.Shows w) (hs : s.step isRead .pop = some s') :
    ∃ w', Reached w' ∧ s'.Shows w' := by
  simp only [FdSys.step] at hs
  split at hs
  · rename_i hgo
    obtain ⟨hio, hexecuting, -⟩ := hgo
    cases hs
    obtain ⟨n, hn⟩ := Nat.exists_eq_succ_of_ne_zero hio
    have hloop : w.loop = .batch := by rw [h.loop, hexecuting]; rfl
    have hpop : w.step .pop =
        some { w with io := List.replicate n .callback, loop := .executing .callback } := by
      rw [Watch.step, if_pos hloop, h.io, hn]
      rfl
    refine ⟨_, hw.step .pop trivial hpop, h.cb, ?_, rfl, h.aborted, h.meets, h.held⟩
    rw [hn]
    rfl
  · cases hs

theorem shown_release (hw : Reached w) (h : s.Shows w)
    (hs : s.step isRead .release = some s') : ∃ w', Reached w' ∧ s'.Shows w' := by
  simp only [FdSys.step] at hs
  split at hs
  · rename_i hexecuting
    cases hs
    have hinv := Watch.Inv.of_runs hw
    have hmost := hinv.most
    have hroom := w.pc.room_le
    have hloop : w.loop = .executing .callback := by rw [h.loop, if_pos hexecuting]
    have hone : 1 ≤ w.completions := by
      rw [Watch.completions, if_pos hloop]
      omega
    have hheld : w.hs.held = 0 := by
      simp only [Watch.total] at hmost
      omega
    have hpermit : s.permit = false := by
      rw [h.held] at hheld
      simpa using hheld
    have hdone : w.step .done =
        some { w with hs := w.hs.notifyOne, loop := .batch, executed := w.executed + 1 } := by
      rw [Watch.step, hloop]
    have hnotified := Notify.held_notifyOne (Notify.permit_of_held hheld)
    refine ⟨_, hw.step .done trivial hdone, h.cb, h.io, rfl, h.aborted, ?_, ?_⟩
    · -- The completion is one that the task waits for, or has left behind.
      have hmeets := h.meets
      have haway : s.pc ≠ .finished → w.pc = .waitHs := by
        intro hne
        have hexact := hinv.exact (h.aborted hne)
        have hkept := hinv.kept (h.aborted hne)
        simp only [Watch.total] at hexact
        cases hwpc : w.pc <;> simp_all [TaskPc.room]
      cases hpc : s.pc with
      | waitHs guard =>
          rw [hpc, hpermit] at hmeets
          exact ⟨hmeets.1, congrArg Notify.notifyOne hmeets.2⟩
      | finished =>
          rw [hpc] at hmeets
          exact hmeets
      | _ =>
          have hwpc := haway (by rw [hpc]; simp)
          rw [hpc] at hmeets
          cases hwpc.symm.trans hmeets.1
    · show w.hs.notifyOne.held = _
      rw [hnotified, hheld]
      rfl
  · cases hs

theorem shown_detach (hw : Reached w) (h : s.Shows w)
    (hs : s.step isRead .detach = some s') : ∃ w', Reached w' ∧ s'.Shows w' := by
  simp only [FdSys.step] at hs
  split at hs
  · rename_i hsuspended
    cases hs
    have hmeets := h.meets
    have haborted : Reached { w with aborted := true } := hw.step .abort trivial rfl
    have hemptied : Reached { w with aborted := true, cb := false } :=
      haborted.step .empty trivial rfl
    have hdropped (hs' : Notify Unit) (hdrop : Watch.step { w with aborted := true, cb := false }
        .drop = some { w with aborted := true, cb := false, pc := .dropped, hs := hs' })
        (hheld : hs'.held = s.permit.toNat) :
        ∃ w', Reached w' ∧ Shows { s with cb := false, pc := .finished } w' :=
      ⟨_, hemptied.step .drop trivial hdrop, rfl, h.io, h.loop, fun hne => absurd rfl hne,
        .inr rfl, hheld⟩
    cases hpc : s.pc with
    | start | waitReady =>
        rw [hpc] at hmeets
        apply hdropped w.hs _ h.held
        simp [Watch.step, hmeets.1]
    | waitHs guard =>
        rw [hpc] at hmeets
        obtain ⟨hwpc, hhs⟩ := hmeets
        apply hdropped (w.hs.leave ())
        · simp [Watch.step, hwpc]
        · rw [hhs]
          cases s.permit <;> rfl
    | finished =>
        rw [hpc] at hmeets
        exact ⟨_, hemptied, rfl, h.io, h.loop, fun hne => absurd rfl hne, hmeets, h.held⟩
    | fire guard | probe guard | clear guard =>
        rw [hpc] at hsuspended
        cases hsuspended
  · cases hs

theorem shown_init (h : FdSys.Init isRead s) : ∃ w, Reached w ∧ s.Shows w := by
  obtain ⟨-, hpc, hcb, hio, hexecuting, hpermit⟩ := h
  refine ⟨⟨true, .new, .start, false, [], .batch, false, 0, 0⟩, .start ?_, ?_⟩
  · exact ⟨rfl, rfl, rfl, rfl, List.not_mem_nil, by decide, rfl, rfl⟩
  · refine ⟨hcb.symm, by rw [hio]; rfl, by rw [hexecuting]; rfl, fun _ => rfl, ?_, ?_⟩
    · rw [hpc]
      exact ⟨rfl, rfl⟩
    · rw [hpermit]
      rfl

/-- A step of the descriptor or of its driver is none of the rendezvous. -/
theorem Shows.same (h : s.Shows w) (hcb : s'.cb = s.cb) (hio : s'.io = s.io)
    (hexecuting : s'.executing = s.executing) (hpc : s'.pc = s.pc)
    (hpermit : s'.permit = s.permit) : s'.Shows w := by
  refine ⟨h.cb.trans hcb.symm, ?_, ?_, ?_, ?_, ?_⟩
  · rw [hio]
    exact h.io
  · rw [hexecuting]
    exact h.loop
  · rw [hpc]
    exact h.aborted
  · rw [hpc, hpermit]
    exact h.meets
  · rw [hpermit]
    exact h.held

theorem shown_step (hw : Reached w) (h : s.Shows w) {m : FdMove}
    (hs : s.step isRead m = some s') : ∃ w', Reached w' ∧ s'.Shows w' := by
  cases m with
  | change re =>
      simp only [FdSys.step] at hs
      split at hs <;> cases hs <;> exact ⟨w, hw, h.same rfl rfl rfl rfl rfl⟩
  | again =>
      cases hs
      exact ⟨w, hw, h.same rfl rfl rfl rfl rfl⟩
  | harvest | harvestStale =>
      simp only [FdSys.step] at hs
      split at hs
      · cases hs
        exact ⟨w, hw, h.same rfl rfl rfl rfl rfl⟩
      · cases hs
  | run pollFails => exact shown_run hw h hs
  | pop => exact shown_pop hw h hs
  | release => exact shown_release hw h hs
  | detach => exact shown_detach hw h hs

/-- Every run of a watcher with its descriptor is one of the rendezvous. -/
theorem shown_of_runs {ok : FdSys → FdMove → Prop}
    (h : Runs (FdSys.step isRead) ok (FdSys.Init isRead) s) : ∃ w, Reached w ∧ s.Shows w := by
  refine h.invariant (fun _ => shown_init) fun s m s' hshown _ hs => ?_
  obtain ⟨w, hw, hshows⟩ := hshown
  exact shown_step hw hshows hs

/-- So a watcher never has two completions in hand, and the permit is never one
of an earlier firing. -/
theorem one_to_one_of_runs {ok : FdSys → FdMove → Prop}
    (h : Runs (FdSys.step isRead) ok (FdSys.Init isRead) s) :
    s.io + s.executing.toNat + s.permit.toNat ≤ 1 := by
  obtain ⟨w, hw, hshows⟩ := shown_of_runs h
  have hinv := Watch.Inv.of_runs hw
  rw [← hshows.completions]
  exact Nat.le_trans hinv.most w.pc.room_le

end FdSys

end Tokioop.Fd
