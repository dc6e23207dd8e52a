import Tokioop.Fd.FdTask

/-!
Level triggering in callback mode: a registered watcher whose descriptor is
ready is never stuck.

There are two waits. In the rendezvous the task waits for the batch, and its
completion, the batch executing it, or the permit is what will release it.
In `readable()` it waits for the driver: the flag was cleared right after a
probe that found the descriptor not ready, and becoming ready after that
raises an edge. No turn of the driver falls between probe and clear, which
is what makes the unguarded clear of the primed path safe.
-/

namespace Tokioop.Fd

open Kit

/-- The task could run now. -/
def FdPc.Runnable : FdPc → Prop
  | .start | .fire _ | .probe _ | .clear _ => True
  | .waitReady | .waitHs _ | .finished => False

/-- One of the things that get the callback of a ready descriptor called. -/
def FdSys.Served (s : FdSys) : Prop :=
  s.io ≠ 0 ∨ s.executing = true ∨ s.permit = true ∨ s.pc.Runnable ∨ s.afd.flag = true ∨
    s.afd.edge = true

/-- What holds of a watcher in every run: its two waits have an end in
sight, and a clear that is about to happen cannot lose an edge. -/
structure FdSys.Live (isRead : Bool) (s : FdSys) : Prop where
  waiting : s.pc = .waitReady → s.level isRead = true → s.afd.flag = true ∨ s.afd.edge = true
  rendezvous : ∀ guard, s.pc = .waitHs guard → s.io ≠ 0 ∨ s.executing = true ∨ s.permit = true
  clearing : ∀ guard, s.pc = .clear guard → s.level isRead = true → s.afd.edge = true
  gone : s.pc = .finished → s.cb = false

end Tokioop.Fd
