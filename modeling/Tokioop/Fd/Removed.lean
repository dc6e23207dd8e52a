import Tokioop.Fd.DrainTask
import Tokioop.Fd.FdTask
import Tokioop.Fd.Represents

/-!
All watchers of a loop together: the registry, one task per registration, the
completion queue and the I/O phase of `run_batch`.

A completion refers to the slot of the watcher that fired, never to the
registry, and it may stay queued while the descriptor is deregistered and
registered again. The batch reads the callback out of the slot when it pops
the completion, and every way to retire a watcher clears it there first.

User code may operate on the registry at any moment, inside and outside of
callbacks. The descriptors, the driver and the drain tasks are not restricted:
`poll(2)` may report anything and an `AsyncFd` may change at any time.
-/

namespace Tokioop.Fd

universe u v

/-- The state of an `fd_task` and of the rendezvous it shares with the batch. -/
structure FdTaskState where
  isRead : Bool
  afd : AsyncFd
  pc : FdPc
  permit : Bool
  deriving DecidableEq, Repr

/-- `IoCompletion`. The rendezvous is the one of the slot's task. -/
inductive IoCompletion
  | callback (slot : Nat)
  | data (slot : Nat) (data : IoData)
  deriving DecidableEq, Repr

inductive BatchAt
  | outside
  /-- In the ready or the timer phase. -/
  | callbacks
  /-- In the I/O phase, about to pop. -/
  | io
  /-- Executing a completion of this slot. -/
  | running (slot : Nat)
  /-- Delivering a payload of this slot. -/
  | delivering (slot : Nat)
  deriving DecidableEq, Repr

/-- `tasks` has one entry per registration, `none` for a drain task. `log`
lists the callbacks started so far with the slot of their completion, and
`origin` the callback each slot was registered with. -/
structure Watchers (α : Type u) (δ : Type v) where
  reg : Registry α δ
  tasks : List (Option FdTaskState)
  io : List IoCompletion
  batch : BatchAt
  log : List (Nat × α)
  origin : List (Option α)

inductive WatchMove (α : Type u) (δ : Type v)
  /-- Python operates on the registry. -/
  | op (op : Registry.Op α δ)
  /-- The task of a slot takes a step; `poll(2)` fails or finds `re`. -/
  | task (slot : Nat) (pollFails : Bool) (re : Revents)
  /-- The driver updates the `AsyncFd` of a task. -/
  | driver (slot : Nat) (afd : AsyncFd)
  /-- A drain task pushes a payload. -/
  | drained (slot : Nat) (data : IoData)
  | beginBatch
  | beginIo
  /-- The batch pops a completion. -/
  | pop
  /-- The callback of the completion has returned or raised. -/
  | returned
  | endBatch
  /-- `close()`, refused while the loop runs. -/
  | close

variable {α : Type u} {δ : Type v}

namespace Watchers

def cb (s : Watchers α δ) (slot : Nat) : Option α := s.reg.slots[slot]?.bind (·.cb)

/-- `hs.notify_one()`. -/
def notify (s : Watchers α δ) (slot : Nat) : Watchers α δ :=
  match s.tasks[slot]? with
  | some (some t) => { s with tasks := s.tasks.set slot (some { t with permit := true }) }
  | _ => s

/-- The task of a registered watcher before its first step. -/
def spawn (isRead : Bool) : FdTaskState := ⟨isRead, ⟨false, false, 0⟩, .start, false⟩

def op (s : Watchers α δ) : Registry.Op α δ → Option (Watchers α δ)
  | .addWatcher fd isRead cb setup =>
      match s.reg.addWatcher fd isRead cb setup with
      | (.ok _, reg) => some { s with
          reg := reg, tasks := s.tasks ++ [some (spawn isRead)], origin := s.origin ++ [some cb] }
      | (.error _, reg) => some { s with reg := reg }
  | .addDrainWatcher fd drain drainErr setup =>
      match s.reg.addDrainWatcher fd drain drainErr setup with
      | (.ok _, reg) => some { s with
          reg := reg, tasks := s.tasks ++ [none], origin := s.origin ++ [none] }
      | (.error _, reg) => some { s with reg := reg }
  | o => (s.reg.step o).map fun reg => { s with reg := reg }

/-- What the task of a slot sees, in the terms of `fdStep`. -/
def view (s : Watchers α δ) (slot : Nat) (t : FdTaskState) (re : Revents) : FdSys :=
  ⟨re, t.afd, t.pc, (s.cb slot).isSome, 0, false, t.permit⟩

/-- A step of `fd_task`. An aborted task is not polled again, but a poll that
is under way goes on to the next suspension point. -/
def taskStep (s : Watchers α δ) (slot : Nat) (pollFails : Bool) (re : Revents) :
    Option (Watchers α δ) :=
  match s.tasks[slot]? with
  | some (some t) =>
      if s.reg.aborted[slot]? = some true ∧ t.pc.Suspended then none
      else (fdStep t.isRead pollFails (s.view slot t re)).map fun v =>
        { s with
          tasks := s.tasks.set slot (some ⟨t.isRead, v.afd, v.pc, v.permit⟩)
          io := s.io ++ List.replicate v.io (.callback slot) }
  | _ => none

def popIo (s : Watchers α δ) : Option (Watchers α δ) :=
  match s.io with
  | [] => none
  | .callback slot :: io =>
      match s.cb slot with
      | some cb => some { s with io := io, batch := .running slot, log := s.log ++ [(slot, cb)] }
      | none => some ({ s with io := io }.notify slot)
  | .data slot _ :: io => some { s with io := io, batch := .delivering slot }

def step (s : Watchers α δ) : WatchMove α δ → Option (Watchers α δ)
  | .op o => s.op o
  | .task slot pollFails re => s.taskStep slot pollFails re
  | .driver slot afd =>
      match s.tasks[slot]? with
      | some (some t) => some { s with tasks := s.tasks.set slot (some { t with afd := afd }) }
      | _ => none
  | .drained slot data =>
      if s.tasks[slot]? = some none then some { s with io := s.io ++ [.data slot data] } else none
  | .beginBatch => if s.batch = .outside then some { s with batch := .callbacks } else none
  | .beginIo => if s.batch = .callbacks then some { s with batch := .io } else none
  | .pop => if s.batch = .io then s.popIo else none
  | .returned =>
      match s.batch with
      | .running slot => some ({ s with batch := .io }.notify slot)
      | .delivering _ => some { s with batch := .io }
      | _ => none
  | .endBatch => if s.batch = .io ∧ s.io = [] then some { s with batch := .outside } else none
  | .close =>
      if s.batch = .outside then some { s with reg := s.reg.abortAll, io := [] } else none

def empty : Watchers α δ := ⟨.empty, [], [], .outside, [], []⟩

def RunsFrom (s : Watchers α δ) : Watchers α δ → Prop := Kit.Runs step (fun _ _ => True) (· = s)

theorem RunsFrom.refl (s : Watchers α δ) : RunsFrom s s := .start rfl

def Reach : Watchers α δ → Prop := RunsFrom empty

/-- The callbacks that completions of a slot have started. -/
def starts (s : Watchers α δ) (slot : Nat) : List (Nat × α) := s.log.filter (·.1 == slot)

/-! ### What an operation does to the slots -/

section Slots

variable {r r' : Registry α δ} {i : Nat}

theorem cb_install (r : Registry α δ) (fd : Int) (b : Bool) (d : FdDirection)
    {s s' : FdSlotState α δ} (hs : r.slots[i]? = some s)
    (hs' : (r.install fd b d).slots[i]? = some s') : s'.cb = s.cb ∨ s'.cb = none := by
  unfold Registry.install at hs'
  split at hs'
  · exact Registry.cb_of_retire hs hs'
  · rw [show _ = r.slots[i]? from rfl, hs] at hs'
    injection hs' with hs'
    exact Or.inl (hs' ▸ rfl)

/-- The slots after a registration: those that were there have kept their
callback or lost it, and a success adds one. -/
theorem slots_register (r : Registry α δ) (fd : Int) (b : Bool) (setup : Setup)
    (slot : Nat → FdSlotState α δ) {s' : FdSlotState α δ}
    (hs' : (r.register fd b setup slot).2.slots[i]? = some s') :
    (∃ s, r.slots[i]? = some s ∧ (s'.cb = s.cb ∨ s'.cb = none)) ∨
      i = r.slots.length ∧ (s'.cb = (slot r.flags.length).cb ∨ s'.cb = none) := by
  unfold Registry.register at hs'
  split at hs'
  · exact Or.inl ⟨s', hs', Or.inl rfl⟩
  · split at hs'
    · exact Or.inl ⟨s', hs', Or.inl rfl⟩
    · exact Or.inl ⟨s', hs', Or.inl rfl⟩
    · replace hs' : ((r.alloc slot).install fd b ⟨r.slots.length, r.aborted.length⟩).slots[i]? =
        some s' := hs'
      have hlt : i < (r.alloc slot).slots.length := by
        rw [← Registry.install_slots_length (r.alloc slot) fd b ⟨r.slots.length, r.aborted.length⟩]
        exact (List.getElem?_eq_some_iff.mp hs').1
      have hmid := List.getElem?_eq_getElem hlt
      have hcb := cb_install (r.alloc slot) fd b _ hmid hs'
      have happ : (r.slots ++ [slot r.flags.length])[i]? = some (r.alloc slot).slots[i] := hmid
      rw [List.getElem?_append] at happ
      split at happ
      · exact Or.inl ⟨_, happ, hcb⟩
      · rename_i hge
        have hlen : (r.alloc slot).slots.length = r.slots.length + 1 := by simp [Registry.alloc]
        have hi : i = r.slots.length := by omega
        subst hi
        simp only [Nat.sub_self, List.getElem?_cons_zero, Option.some.injEq] at happ
        rw [← happ] at hcb
        exact Or.inr ⟨rfl, hcb⟩

theorem slots_detachWatcher (r : Registry α δ) (fd : Int) (b : Bool) {s' : FdSlotState α δ}
    (hs' : (r.detachWatcher fd b).2.slots[i]? = some s') :
    ∃ s, r.slots[i]? = some s ∧ (s'.cb = s.cb ∨ s'.cb = none) := by
  unfold Registry.detachWatcher at hs'
  split at hs'
  · exact ⟨s', hs', Or.inl rfl⟩
  · split at hs'
    · exact ⟨s', hs', Or.inl rfl⟩
    · rename_i old _
      replace hs' : (r.retire old).slots[i]? = some s' := hs'
      have hlt : i < r.slots.length := by
        rw [← Registry.retire_slots_length r old]
        exact (List.getElem?_eq_some_iff.mp hs').1
      have hmid := List.getElem?_eq_getElem hlt
      exact ⟨_, hmid, Registry.cb_of_retire hmid hs'⟩

theorem slots_cancel (r : Registry α δ) (k : FdHandle) {s' : FdSlotState α δ}
    (hs' : (r.cancel k).2.slots[i]? = some s') :
    ∃ s, r.slots[i]? = some s ∧ (s'.cb = s.cb ∨ s'.cb = none) := by
  unfold Registry.cancel at hs'
  split at hs'
  · exact slots_detachWatcher { r with flags := r.flags.set k.flag true } k.fd k.isRead hs'
  · exact ⟨s', hs', Or.inl rfl⟩

theorem slots_abortAll (r : Registry α δ) {s' : FdSlotState α δ}
    (hs' : r.abortAll.slots[i]? = some s') :
    ∃ s, r.slots[i]? = some s ∧ (s'.cb = s.cb ∨ s'.cb = none) := by
  have hlt : i < r.slots.length := by
    rw [← (Registry.foldl_retire_frame r.directions r).1]
    exact (List.getElem?_eq_some_iff.mp hs').1
  have hmid := List.getElem?_eq_getElem hlt
  exact ⟨_, hmid, Registry.cb_of_foldl_retire hmid hs'⟩

end Slots

/-! ### One step -/

/-- What an operation does: the slots that were there keep or lose their
callback, and the origin of a new slot is recorded. -/
structure Operates (s s' : Watchers α δ) : Prop where
  log : s'.log = s.log
  ok : s.reg.Ok → s'.reg.Ok
  origin : ∃ new, s'.origin = s.origin ++ new ∧
    s'.reg.slots.length = s.reg.slots.length + new.length ∧
    ∀ (i : Nat) (sl' : FdSlotState α δ), s'.reg.slots[i]? = some sl' →
      (∃ sl, s.reg.slots[i]? = some sl ∧ (sl'.cb = sl.cb ∨ sl'.cb = none)) ∨
      i = s.reg.slots.length ∧ ∀ c, sl'.cb = some c → new = [some c]

/-- Nothing the argument is about has changed. -/
structure Idle (s s' : Watchers α δ) : Prop where
  reg : s'.reg = s.reg
  log : s'.log = s.log
  origin : s'.origin = s.origin

theorem idle_notify (s : Watchers α δ) (slot : Nat) : Idle s (s.notify slot) := by
  unfold notify
  split <;> exact ⟨rfl, rfl, rfl⟩

theorem register_length (r : Registry α δ) (fd : Int) (b : Bool) (setup : Setup)
    (slot : Nat → FdSlotState α δ) {k : FdHandle} {r' : Registry α δ}
    (h : r.register fd b setup slot = (.ok k, r')) : r'.slots.length = r.slots.length + 1 := by
  unfold Registry.register at h
  split at h
  · cases h
  · split at h
    · cases h
    · cases h
    · injection h with _ h
      subst h
      have hlen : (r.alloc slot).slots.length = r.slots.length + 1 := by simp [Registry.alloc]
      rw [← hlen]
      exact Registry.install_slots_length (r.alloc slot) fd b ⟨r.slots.length, r.aborted.length⟩

/-- Both ways to register, with the task they spawn. -/
theorem operates_register {s : Watchers α δ} {fd : Int} {b : Bool} {setup : Setup}
    {slot : Nat → FdSlotState α δ} {c : Option α} {t : Option FdTaskState}
    {s' : Watchers α δ} (harmed : ∀ f, Registry.Armed (slot f) f) (hc : ∀ f, (slot f).cb = c)
    (hs : (match s.reg.register fd b setup slot with
      | (.ok _, reg) => some { s with
          reg := reg, tasks := s.tasks ++ [t], origin := s.origin ++ [c] }
      | (.error _, reg) => some { s with reg := reg }) = some s') : Operates s s' := by
  have hok := fun (h : s.reg.Ok) => Registry.register_ok h fd b setup slot harmed
  have hslots := fun (i : Nat) (sl' : FdSlotState α δ)
      (hsl : (s.reg.register fd b setup slot).2.slots[i]? = some sl') =>
    slots_register s.reg fd b setup slot hsl
  cases hr : s.reg.register fd b setup slot with
  | mk res reg =>
      rw [hr] at hs hok hslots
      cases res with
      | ok k =>
          simp only [Option.some.injEq] at hs
          subst hs
          refine ⟨rfl, hok, [c], rfl, register_length _ _ _ _ _ hr, fun i sl' hsl => ?_⟩
          rcases hslots i sl' hsl with hold | ⟨hi, hcb⟩
          · exact Or.inl hold
          · refine Or.inr ⟨hi, fun c' hc' => ?_⟩
            rcases hcb with hcb | hcb
            · rw [hc, hc'] at hcb
              rw [hcb]
            · rw [hcb] at hc'
              cases hc'
      | error e =>
          simp only [Option.some.injEq] at hs
          subst hs
          have hreg : reg = s.reg := by
            have := Registry.register_fails s.reg fd b setup slot
            rw [hr] at this
            split at this
            · obtain ⟨_, h⟩ := this
              exact congrArg Prod.snd h
            · obtain ⟨_, h⟩ := this
              cases h
          subst hreg
          exact ⟨rfl, fun h => h, [], (List.append_nil _).symm, rfl,
            fun i sl' hsl => Or.inl ⟨sl', hsl, Or.inl rfl⟩⟩

/-- The operations that register nothing. -/
theorem operates_of_slots {s : Watchers α δ} {reg : Registry α δ} (hok : s.reg.Ok → reg.Ok)
    (hlen : reg.slots.length = s.reg.slots.length)
    (h : ∀ (i : Nat) (sl' : FdSlotState α δ), reg.slots[i]? = some sl' →
      ∃ sl, s.reg.slots[i]? = some sl ∧ (sl'.cb = sl.cb ∨ sl'.cb = none))
    (io : List IoCompletion) : Operates s { s with reg := reg, io := io } :=
  ⟨rfl, hok, [], (List.append_nil _).symm, hlen, fun i sl' hsl => Or.inl (h i sl' hsl)⟩

theorem detachWatcher_length (r : Registry α δ) (fd : Int) (b : Bool) :
    (r.detachWatcher fd b).2.slots.length = r.slots.length := by
  unfold Registry.detachWatcher
  split
  · rfl
  · split
    · rfl
    · exact Registry.retire_slots_length r _

theorem cancel_length (r : Registry α δ) (k : FdHandle) :
    (r.cancel k).2.slots.length = r.slots.length := by
  unfold Registry.cancel
  split
  · exact detachWatcher_length _ _ _
  · rfl

theorem operates_op {s s' : Watchers α δ} {o : Registry.Op α δ} (hs : s.op o = some s') :
    Operates s s' := by
  cases o with
  | addWatcher fd isRead cb setup =>
      have harmed : ∀ f,
          Registry.Armed (⟨some cb, none, none, false, some f⟩ : FdSlotState α δ) f :=
        fun f => ⟨rfl, rfl, rfl⟩
      exact operates_register harmed (fun _ => rfl) hs
  | addDrainWatcher fd drain drainErr setup =>
      have harmed : ∀ f, Registry.Armed
          (⟨none, some drain, some drainErr, false, some f⟩ : FdSlotState α δ) f :=
        fun f => ⟨rfl, rfl, rfl⟩
      exact operates_register harmed (fun _ => rfl) hs
  | detachWatcher fd isRead =>
      simp only [op, Registry.step, Option.map_some, Option.some.injEq] at hs
      subst hs
      exact operates_of_slots (fun h => Registry.detachWatcher_ok h fd isRead)
        (detachWatcher_length _ _ _) (fun i sl' => slots_detachWatcher s.reg fd isRead) s.io
  | cancel n =>
      simp only [op, Registry.step, Option.map_map, Option.map_eq_some_iff] at hs
      obtain ⟨⟨k, j⟩, hk, rfl⟩ := hs
      exact operates_of_slots (fun h => Registry.cancel_ok h (List.mem_of_getElem? hk))
        (cancel_length _ _) (fun i sl' => slots_cancel s.reg k) s.io
  | abortAll =>
      simp only [op, Registry.step, Option.map_some, Option.some.injEq] at hs
      subst hs
      exact operates_of_slots Registry.abortAll_ok
        (Registry.foldl_retire_frame s.reg.directions s.reg).1 (fun i sl' => slots_abortAll s.reg)
        s.io

/-- A step operates on the registry, starts the callback of a popped
completion, or does neither. -/
theorem step_cases {s s' : Watchers α δ} {m : WatchMove α δ} (hs : s.step m = some s') :
    Operates s s' ∨ Idle s s' ∨
      ∃ slot c, s.cb slot = some c ∧ s'.reg = s.reg ∧ s'.origin = s.origin ∧
        s'.log = s.log ++ [(slot, c)] := by
  cases m with
  | op o => exact Or.inl (operates_op hs)
  | task slot pollFails re =>
      refine Or.inr (Or.inl ?_)
      simp only [step, taskStep] at hs
      split at hs
      · split at hs
        · cases hs
        · obtain ⟨v, _, rfl⟩ := Option.map_eq_some_iff.mp hs
          exact ⟨rfl, rfl, rfl⟩
      · cases hs
  | driver slot afd =>
      refine Or.inr (Or.inl ?_)
      simp only [step] at hs
      split at hs
      · cases hs
        exact ⟨rfl, rfl, rfl⟩
      · cases hs
  | pop =>
      refine Or.inr ?_
      simp only [step] at hs
      split at hs
      · unfold popIo at hs
        split at hs
        · cases hs
        · rename_i slot io hio
          split at hs
          · rename_i c hc
            cases hs
            exact Or.inr ⟨slot, c, hc, rfl, rfl, rfl⟩
          · cases hs
            have hn := idle_notify { s with io := io } slot
            exact Or.inl ⟨hn.reg, hn.log, hn.origin⟩
        · cases hs
          exact Or.inl ⟨rfl, rfl, rfl⟩
      · cases hs
  | returned =>
      refine Or.inr (Or.inl ?_)
      simp only [step] at hs
      split at hs
      · rename_i slot _
        cases hs
        have hn := idle_notify { s with batch := .io } slot
        exact ⟨hn.reg, hn.log, hn.origin⟩
      · cases hs
        exact ⟨rfl, rfl, rfl⟩
      · cases hs
  | close =>
      refine Or.inl ?_
      simp only [step] at hs
      split at hs
      · cases hs
        exact operates_of_slots Registry.abortAll_ok
          (Registry.foldl_retire_frame s.reg.directions s.reg).1
          (fun i sl' => slots_abortAll s.reg) []
      · cases hs
  | drained | beginBatch | beginIo | endBatch =>
      refine Or.inr (Or.inl ?_)
      simp only [step] at hs
      split at hs
      · cases hs
        exact ⟨rfl, rfl, rfl⟩
      · cases hs

/-! ### Runs -/

/-- Every callback in a slot and in the log is the one the slot was registered
with. -/
structure Tracked (s : Watchers α δ) : Prop where
  ok : s.reg.Ok
  origin_length : s.origin.length = s.reg.slots.length
  slot : ∀ (i : Nat) (sl : FdSlotState α δ) (c : α), s.reg.slots[i]? = some sl → sl.cb = some c →
    s.origin[i]? = some (some c)
  log : ∀ e ∈ s.log, s.origin[e.1]? = some (some e.2)

theorem Tracked.cb {s : Watchers α δ} (h : Tracked s) {i : Nat} {c : α} (hc : s.cb i = some c) :
    s.origin[i]? = some (some c) := by
  obtain ⟨sl, hsl, hcb⟩ := Option.bind_eq_some_iff.mp hc
  exact h.slot i sl c hsl hcb

theorem tracked_operates {s s' : Watchers α δ} (h : Tracked s) (ho : Operates s s') :
    Tracked s' := by
  obtain ⟨new, horigin, hlen, hslots⟩ := ho.origin
  have hkeep : ∀ (i : Nat) (x : Option α), s.origin[i]? = some x → s'.origin[i]? = some x := by
    intro i x hx
    rw [horigin, List.getElem?_append_left (List.getElem?_eq_some_iff.mp hx).1, hx]
  refine ⟨ho.ok h.ok, ?_, fun i sl' c hsl hc => ?_, fun e he => ?_⟩
  · rw [horigin, List.length_append, h.origin_length, hlen]
  · rcases hslots i sl' hsl with ⟨sl, hold, hcb⟩ | ⟨rfl, hnew⟩
    · rcases hcb with hcb | hcb
      · exact hkeep i _ (h.slot i sl c hold (hcb ▸ hc))
      · rw [hcb] at hc
        cases hc
    · rw [horigin, hnew c hc, ← h.origin_length, List.getElem?_concat_length]
  · rw [ho.log] at he
    exact hkeep _ _ (h.log e he)

theorem tracked_step {s s' : Watchers α δ} {m : WatchMove α δ} (h : Tracked s)
    (hs : s.step m = some s') : Tracked s' := by
  rcases step_cases hs with ho | hidle | ⟨slot, c, hc, hreg, horigin, hlog⟩
  · exact tracked_operates h ho
  · refine ⟨hidle.reg ▸ h.ok, ?_, ?_, ?_⟩
    · rw [hidle.origin, hidle.reg, h.origin_length]
    · rw [hidle.origin, hidle.reg]
      exact h.slot
    · rw [hidle.origin, hidle.log]
      exact h.log
  · refine ⟨hreg ▸ h.ok, ?_, ?_, fun e he => ?_⟩
    · rw [horigin, hreg, h.origin_length]
    · rw [horigin, hreg]
      exact h.slot
    · rw [horigin]
      rw [hlog] at he
      rcases List.mem_append.mp he with he | he
      · exact h.log e he
      · rw [List.mem_singleton.mp he]
        exact h.cb hc

theorem tracked_runsFrom {s s' : Watchers α δ} (h : Tracked s) (hr : RunsFrom s s') :
    Tracked s' :=
  Kit.Runs.invariant (fun _ hs => hs ▸ h) (fun _ _ _ h _ hs => tracked_step h hs) hr

theorem tracked_of_reach {s : Watchers α δ} (h : Reach s) : Tracked s := by
  refine tracked_runsFrom ⟨Registry.empty_ok, rfl, fun i sl c hsl => ?_, fun e he => ?_⟩ h
  · simp [empty, Registry.empty] at hsl
  · simp [empty] at he

/-- A slot that exists and holds no callback. -/
def Bare (s : Watchers α δ) (slot : Nat) : Prop :=
  slot < s.reg.slots.length ∧ s.cb slot = none

theorem bare_operates {s s' : Watchers α δ} {slot : Nat} (hb : Bare s slot)
    (ho : Operates s s') : Bare s' slot := by
  obtain ⟨new, -, hlen, hslots⟩ := ho.origin
  have hlt : slot < s'.reg.slots.length := by
    have := hb.1
    omega
  refine ⟨hlt, ?_⟩
  have hsl := List.getElem?_eq_getElem hlt
  show s'.reg.slots[slot]?.bind (·.cb) = none
  rw [hsl, Option.bind_some]
  rcases hslots slot _ hsl with ⟨sl, hold, hcb⟩ | ⟨hi, -⟩
  · have hnone : sl.cb = none := by
      have := hb.2
      unfold Watchers.cb at this
      rwa [hold, Option.bind_some] at this
    rcases hcb with hcb | hcb
    · rw [hcb, hnone]
    · exact hcb
  · exact absurd hb.1 (by omega)

theorem bare_step {s s' : Watchers α δ} {m : WatchMove α δ} {slot : Nat} (hb : Bare s slot)
    (hs : s.step m = some s') : Bare s' slot ∧ s'.starts slot = s.starts slot := by
  rcases step_cases hs with ho | hidle | ⟨i, c, hc, hreg, -, hlog⟩
  · exact ⟨bare_operates hb ho, by rw [starts, ho.log, starts]⟩
  · refine ⟨?_, by rw [starts, hidle.log, starts]⟩
    unfold Bare Watchers.cb at *
    rwa [hidle.reg]
  · constructor
    · unfold Bare Watchers.cb at *
      rwa [hreg]
    · have hne : i ≠ slot := by
        rintro rfl
        rw [hb.2] at hc
        cases hc
      rw [starts, hlog, List.filter_append, starts]
      simp [hne]

theorem bare_runsFrom {s s' : Watchers α δ} {slot : Nat} (hb : Bare s slot)
    (hr : RunsFrom s s') : Bare s' slot ∧ s'.starts slot = s.starts slot := by
  refine Kit.Runs.invariant (I := fun t => Bare t slot ∧ t.starts slot = s.starts slot)
    (fun t ht => by subst ht; exact ⟨hb, rfl⟩) (fun t m t' ht _ hs => ?_) hr
  obtain ⟨hb', hst⟩ := bare_step ht.1 hs
  exact ⟨hb', hst.trans ht.2⟩

/-- A registration whose handle is no longer in place has no callback left. -/
theorem bare_of_gone {s : Watchers α δ} (h : Tracked s) {k : FdHandle} {slot : Nat}
    (hk : (k, slot) ∈ s.reg.issued)
    (hgone : ∀ d, s.reg.direction k.fd k.isRead = some d → d.slot ≠ slot) : Bare s slot := by
  obtain ⟨i, hi⟩ := List.mem_iff_getElem?.mp hk
  obtain ⟨hflag, rfl⟩ := h.ok.own i k slot hi
  have hlt : slot < s.reg.slots.length := by
    rw [h.ok.slots_length, ← h.ok.issued_length]
    exact (List.getElem?_eq_some_iff.mp hi).1
  have hset : s.reg.flags[slot]? ≠ some false := by
    rw [← hflag, Ne, Registry.flag_clear_iff h.ok hk]
    rintro ⟨d, hd, hslot⟩
    exact hgone d hd hslot
  refine ⟨hlt, ?_⟩
  have hsl := List.getElem?_eq_getElem hlt
  show s.reg.slots[slot]?.bind (·.cb) = none
  rw [hsl, Option.bind_some]
  exact h.ok.cleared slot _ hsl hset

/-- Once the registration with handle `k` is no longer at its place, because
it was removed, cancelled or replaced or because the loop was closed, its
completions start nothing, and at all times a completion starts only the
callback its own registration was made with. -/
theorem removed_never_starts {s s' : Watchers α δ} {k : FdHandle} {slot : Nat} (h : Reach s)
    (hk : (k, slot) ∈ s.reg.issued)
    (hgone : ∀ d, s.reg.direction k.fd k.isRead = some d → d.slot ≠ slot)
    (hr : RunsFrom s s') :
    s'.starts slot = s.starts slot ∧ ∀ e ∈ s'.log, s'.origin[e.1]? = some (some e.2) := by
  have ht := tracked_of_reach h
  exact ⟨(bare_runsFrom (bare_of_gone ht hk hgone) hr).2, (tracked_runsFrom ht hr).log⟩

/-- A reader whose completion is queued is replaced by a callback of the same
batch: the batch pops the completion and starts nothing. -/
theorem removed_never_starts_replaced : ∃ s s' : Watchers Nat Nat, Reach s ∧ RunsFrom s s' ∧
    s.io = [.callback 0] ∧ s'.io = [] ∧ s'.log = [] ∧ s'.starts 0 = s.starts 0 := by
  have hstart : Reach (empty : Watchers Nat Nat) := .start rfl
  have hs : ∃ s : Watchers Nat Nat, Reach s ∧ s.io = [.callback 0] ∧
      (⟨5, true, 0⟩, 0) ∈ s.reg.issued ∧ s.reg.direction 5 true = some ⟨1, 1⟩ ∧
      ∃ s', RunsFrom s s' ∧ s'.io = [] ∧ s'.log = [] :=
    ⟨_, hstart.of_replay [.op (.addWatcher 5 true 1 ⟨none, none⟩), .task 0 true default,
      .task 0 true default, .beginBatch, .op (.addWatcher 5 true 2 ⟨none, none⟩)] rfl, rfl,
      by decide, rfl, _, (RunsFrom.refl _).of_replay [.beginIo, .pop] rfl, rfl, rfl⟩
  obtain ⟨s, hreach, hio, hk, hd, s', hr, hio', hlog⟩ := hs
  refine ⟨s, s', hreach, hr, hio, hio', hlog, (removed_never_starts hreach hk ?_ hr).1⟩
  intro d hd'
  rw [hd] at hd'
  injection hd' with hd'
  subst hd'
  decide

end Watchers

end Tokioop.Fd
