import Tokioop.Fd.Reactor
import Tokioop.Kit.Runs
import Tokioop.Kit.Total

/-!
The fd registry: `add_watcher` and `add_drain_watcher` of `fd_unix.rs`,
`detach_watcher`, `abort_all` and `is_polling` of `fd.rs`, and
`FdHandle::cancel` of `handles.rs`.

Slots, cancellation flags and watcher tasks are shared between the registry,
the tasks and the handles Python holds, so they live in lists here and are
referred to by position; a call that registers a watcher allocates one of
each. The counter is an integer, so that a decrement below zero would show.
-/

namespace Tokioop.Fd

open Kit (total)

universe u v

/-! ### The data -/

/-- `FdSlotState`. A callback comes with its arguments, as one `α`; `δ` is
the type of the drain callbacks. `flag` refers to a cancellation flag. -/
structure FdSlotState (α : Type u) (δ : Type v) where
  cb : Option α
  drain : Option δ
  drainErr : Option δ
  dead : Bool
  flag : Option Nat
  deriving DecidableEq, Repr

/-- `FdDirection`: the slot and the task of a registered watcher. -/
structure FdDirection where
  slot : Nat
  abort : Nat
  deriving DecidableEq, Repr

structure FdRecord where
  reader : Option FdDirection
  writer : Option FdDirection
  deriving DecidableEq, Repr

structure FdHandle where
  fd : Int
  isRead : Bool
  flag : Nat
  deriving DecidableEq, Repr

namespace FdRecord

def dir (record : FdRecord) (isRead : Bool) : Option FdDirection :=
  if isRead then record.reader else record.writer

def setDir (record : FdRecord) (isRead : Bool) (d : Option FdDirection) : FdRecord :=
  if isRead then { record with reader := d } else { record with writer := d }

def count (record : FdRecord) : Nat := record.reader.toList.length + record.writer.toList.length

@[simp] theorem dir_setDir (record : FdRecord) (isRead : Bool) (d : Option FdDirection) :
    (record.setDir isRead d).dir isRead = d := by
  cases isRead <;> rfl

theorem dir_setDir_ne (record : FdRecord) {b b' : Bool} (h : b' ≠ b) (d : Option FdDirection) :
    (record.setDir b d).dir b' = record.dir b' := by
  cases b <;> cases b' <;> first | rfl | exact absurd rfl h

theorem count_setDir (record : FdRecord) (isRead : Bool) (d : Option FdDirection) :
    (record.setDir isRead d).count + (record.dir isRead).toList.length =
      record.count + d.toList.length := by
  cases isRead <;> simp only [setDir, dir, count, if_true, if_false, Bool.false_eq_true] <;> omega

end FdRecord

/-- The registry with everything its entries refer to. `aborted` says of each
task whether `abort()` was called on it, and `issued` lists every handle ever
returned with the slot of its registration. -/
structure Registry (α : Type u) (δ : Type v) where
  slots : List (FdSlotState α δ)
  flags : List Bool
  aborted : List Bool
  fds : AList fun _ : Int => FdRecord
  nWatchers : Int
  issued : List (FdHandle × Nat)

inductive FdError
  | valueError (message : String)
  | osError (errno : Errno)
  deriving DecidableEq, Repr

/-- What the kernel answers to a registration: `dup` and `AsyncFd::new`. -/
structure Setup where
  dup : Option Errno
  asyncFd : Option Errno
  deriving DecidableEq, Repr

variable {α : Type u} {δ : Type v}

namespace Registry

def empty : Registry α δ := ⟨[], [], [], ∅, 0, []⟩

/-- The watcher registered at a descriptor and a direction. -/
def direction (r : Registry α δ) (fd : Int) (isRead : Bool) : Option FdDirection :=
  (r.fds.lookup fd).bind fun record => record.dir isRead

def registered (r : Registry α δ) : Nat := total FdRecord.count r.fds

/-! ### The operations -/

/-- The block that retires a registered watcher, written out in each of
`add_watcher`, `add_drain_watcher`, `detach_watcher` and `abort_all`: the task
is aborted, the flag is taken and set, the callback is cleared and the slot
marked dead. The drain callbacks are kept. -/
def retire (r : Registry α δ) (old : FdDirection) : Registry α δ :=
  match r.slots[old.slot]? with
  | none => { r with aborted := r.aborted.set old.abort true }
  | some s =>
      { r with
        aborted := r.aborted.set old.abort true
        flags := match s.flag with
          | some f => r.flags.set f true
          | none => r.flags
        slots := r.slots.set old.slot { s with flag := none, cb := none, dead := true } }

/-- `fds.entry(fd).or_insert_with(..)`. -/
def entry (r : Registry α δ) (fd : Int) : FdRecord := (r.fds.lookup fd).getD ⟨none, none⟩

/-- Put a watcher into the record of its descriptor, in the place of the one
that is there. Replacing leaves the counter alone: one out, one in. -/
def install (r : Registry α δ) (fd : Int) (isRead : Bool) (d : FdDirection) : Registry α δ :=
  let r' := match r.direction fd isRead with
    | some old => r.retire old
    | none => { r with nWatchers := r.nWatchers + 1 }
  { r' with fds := r.fds.insert fd ((r.entry fd).setDir isRead (some d)) }

/-- The flag, the slot and the task of a new watcher. -/
def alloc (r : Registry α δ) (slot : Nat → FdSlotState α δ) : Registry α δ :=
  { r with
    flags := r.flags ++ [false]
    slots := r.slots ++ [slot r.flags.length]
    aborted := r.aborted ++ [false] }

/-- What both ways to register share: the checks, the allocation of flag, slot
and task, and the update of the record. -/
def register (r : Registry α δ) (fd : Int) (isRead : Bool) (setup : Setup)
    (slot : Nat → FdSlotState α δ) : Except FdError FdHandle × Registry α δ :=
  if fd < 0 then (.error (.valueError "file descriptor cannot be negative"), r)
  else match setup.dup, setup.asyncFd with
    | some e, _ => (.error (.osError e), r)
    | none, some e => (.error (.osError e), r)
    | none, none =>
        let handle : FdHandle := ⟨fd, isRead, r.flags.length⟩
        let r' := (r.alloc slot).install fd isRead ⟨r.slots.length, r.aborted.length⟩
        (.ok handle, { r' with issued := r.issued ++ [(handle, r.slots.length)] })

def addWatcher (r : Registry α δ) (fd : Int) (isRead : Bool) (cb : α) (setup : Setup) :
    Except FdError FdHandle × Registry α δ :=
  r.register fd isRead setup fun flag => ⟨some cb, none, none, false, some flag⟩

def addDrainWatcher (r : Registry α δ) (fd : Int) (drain drainErr : δ) (setup : Setup) :
    Except FdError FdHandle × Registry α δ :=
  r.register fd true setup fun flag => ⟨none, some drain, some drainErr, false, some flag⟩

def detachWatcher (r : Registry α δ) (fd : Int) (isRead : Bool) : Bool × Registry α δ :=
  match r.fds.lookup fd with
  | none => (false, r)
  | some record =>
      match record.dir isRead with
      | none => (false, r)
      | some old =>
          let record' := record.setDir isRead none
          (true, { r.retire old with
            nWatchers := r.nWatchers - 1
            fds := if record'.reader = none ∧ record'.writer = none then r.fds.erase fd
              else r.fds.insert fd record' })

/-- `FdHandle::cancel`. -/
def cancel (r : Registry α δ) (h : FdHandle) : Bool × Registry α δ :=
  if r.flags[h.flag]? = some false then
    (true, ({ r with flags := r.flags.set h.flag true }.detachWatcher h.fd h.isRead).2)
  else (false, r)

/-- The watchers of all records, in the order `abort_all` visits them. -/
def directions (r : Registry α δ) : List FdDirection :=
  r.fds.entries.flatMap fun e => e.2.reader.toList ++ e.2.writer.toList

def abortAll (r : Registry α δ) : Registry α δ :=
  { r.directions.foldl retire r with fds := ∅, nWatchers := 0 }

def isPolling (r : Registry α δ) (fd : Int) (isRead : Bool) : Bool :=
  match r.direction fd isRead with
  | none => false
  | some d =>
      match r.slots[d.slot]? with
      | none => false
      | some s => !s.dead && (s.cb.isSome || s.drain.isSome)

/-- One operation on the registry; `cancel i` cancels the `i`-th handle ever
returned. -/
inductive Op (α : Type u) (δ : Type v)
  | addWatcher (fd : Int) (isRead : Bool) (cb : α) (setup : Setup)
  | addDrainWatcher (fd : Int) (drain drainErr : δ) (setup : Setup)
  | detachWatcher (fd : Int) (isRead : Bool)
  | cancel (i : Nat)
  | abortAll

def step (r : Registry α δ) : Op α δ → Option (Registry α δ)
  | .addWatcher fd isRead cb setup => some (r.addWatcher fd isRead cb setup).2
  | .addDrainWatcher fd drain drainErr setup => some (r.addDrainWatcher fd drain drainErr setup).2
  | .detachWatcher fd isRead => some (r.detachWatcher fd isRead).2
  | .cancel i => r.issued[i]?.map fun h => (r.cancel h.1).2
  | .abortAll => some r.abortAll

/-- The registries reached by any sequence of operations. -/
def Reach : Registry α δ → Prop := Kit.Runs step (fun _ _ => True) (· = empty)

/-! ### What retiring a watcher changes -/

theorem retire_issued (r : Registry α δ) (old : FdDirection) :
    (r.retire old).issued = r.issued := by
  unfold retire
  split <;> rfl

theorem retire_nWatchers (r : Registry α δ) (old : FdDirection) :
    (r.retire old).nWatchers = r.nWatchers := by
  unfold retire
  split <;> rfl

theorem retire_slots_length (r : Registry α δ) (old : FdDirection) :
    (r.retire old).slots.length = r.slots.length := by
  unfold retire
  split
  · rfl
  · exact List.length_set

theorem retire_slot_ne (r : Registry α δ) (old : FdDirection) {i : Nat} (h : i ≠ old.slot) :
    (r.retire old).slots[i]? = r.slots[i]? := by
  unfold retire
  split
  · rfl
  · exact List.getElem?_set_ne (Ne.symm h)

theorem retire_slot_self {r : Registry α δ} {old : FdDirection} {s : FdSlotState α δ}
    (h : (r.retire old).slots[old.slot]? = some s) : s.cb = none := by
  unfold retire at h
  split at h
  · rename_i hs
    rw [hs] at h
    cases h
  · rw [List.getElem?_set_self'] at h
    obtain ⟨_, _, rfl⟩ := Option.map_eq_some_iff.mp h
    rfl

theorem retire_flags_length (r : Registry α δ) (old : FdDirection) :
    (r.retire old).flags.length = r.flags.length := by
  unfold retire
  split
  · rfl
  · dsimp only
    split
    · exact List.length_set
    · rfl

theorem flag_of_retire {r : Registry α δ} {old : FdDirection} {i : Nat}
    (h : (r.retire old).flags[i]? = some false) : r.flags[i]? = some false := by
  unfold retire at h
  split at h
  · exact h
  · dsimp only at h
    split at h
    · rename_i f _
      by_cases hf : f = i
      · subst hf
        rw [List.getElem?_set_self'] at h
        cases hl : r.flags[f]? <;> simp [hl] at h
      · rwa [List.getElem?_set_ne hf] at h
    · exact h

theorem retire_flag_self {r : Registry α δ} {old : FdDirection} {s : FdSlotState α δ} {f : Nat}
    (hs : r.slots[old.slot]? = some s) (hf : s.flag = some f) :
    (r.retire old).flags = r.flags.set f true := by
  unfold retire
  rw [hs]
  dsimp only
  rw [hf]

end Registry

end Tokioop.Fd
