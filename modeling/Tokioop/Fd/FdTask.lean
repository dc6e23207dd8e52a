import Tokioop.Fd.Reactor
import Tokioop.Kit.Runs

/-!
The callback-mode watcher task: `poll_ready` and `fd_task` of `fd_unix.rs`,
for the read and for the write direction, with the batch that executes its
completions.

Tokio readiness is edge-triggered and `asyncio` is level-triggered; the task
bridges the two with one `poll(2)` probe after every callback. It hands a
completion to the loop and then waits on its own `Notify`, the rendezvous,
until the batch has executed it.

Task, driver and batches share one thread, so neither the driver nor a batch
gets a turn while the task is between two suspension points. The descriptor
itself may change at any time.
-/

namespace Tokioop.Fd

/-- The `revents` bits `poll_ready` looks at. -/
structure Revents where
  pollin : Bool
  pollout : Bool
  pollhup : Bool
  pollerr : Bool
  pollnval : Bool
  deriving DecidableEq, Repr, Inhabited

/-- The outcome of `poll(2)` with timeout 0, `EINTR` retried. -/
inductive PollResult
  | failed
  | revents (re : Revents)
  deriving DecidableEq, Repr

/-- `poll_ready`: a failing `poll` counts as ready, so that the callback
observes the real error. -/
def pollReady (isRead : Bool) : PollResult → Bool
  | .failed => true
  | .revents re =>
      if isRead then re.pollin || re.pollhup || re.pollerr || re.pollnval
      else re.pollout || re.pollerr || re.pollhup || re.pollnval

/-- Where the task is; `guard` is the tick of the readiness guard it holds. -/
inductive FdPc
  /-- Spawned, before the priming poll. -/
  | start
  /-- In `afd.readable().await` or `afd.writable().await`. -/
  | waitReady
  /-- About to check the slot and push a completion. -/
  | fire (guard : Option Nat)
  /-- In `hs.notified().await`. -/
  | waitHs (guard : Option Nat)
  /-- Released by the batch, before the probe. -/
  | probe (guard : Option Nat)
  /-- The probe found nothing: about to clear the flag. -/
  | clear (guard : Option Nat)
  | finished
  deriving DecidableEq, Repr

/-- The task is suspended: the driver and the loop may have the thread. -/
def FdPc.Suspended : FdPc → Bool
  | .start | .waitReady | .waitHs _ | .finished => true
  | .fire _ | .probe _ | .clear _ => false

/-- A callback-mode watcher. `cb` says that its slot still holds a callback,
`io` counts its completions in the io queue, `executing` says that a batch is
executing one, and `permit` is the permit of the rendezvous. -/
structure FdSys where
  re : Revents
  afd : AsyncFd
  pc : FdPc
  cb : Bool
  io : Nat
  executing : Bool
  permit : Bool
  deriving DecidableEq, Repr

/-- The descriptor is ready in the direction of the watcher. -/
def FdSys.level (isRead : Bool) (s : FdSys) : Bool := pollReady isRead (.revents s.re)

/-- What a probe finds now; `pollFails` is the kernel's choice. -/
def FdSys.polled (isRead pollFails : Bool) (s : FdSys) : Bool :=
  pollReady isRead (if pollFails then .failed else .revents s.re)

/-- One step of the task, `none` while it cannot run. -/
def fdStep (isRead pollFails : Bool) (s : FdSys) : Option FdSys :=
  match s.pc with
  | .start =>
      if s.polled isRead pollFails then some { s with pc := .fire none }
      else some { s with pc := .waitReady }
  | .waitReady => if s.afd.flag then some { s with pc := .fire (some s.afd.tick) } else none
  | .fire guard =>
      if s.cb then some { s with pc := .waitHs guard, io := s.io + 1 }
      else some { s with pc := .finished }
  | .waitHs guard => if s.permit then some { s with pc := .probe guard, permit := false } else none
  | .probe guard =>
      if s.cb then
        if s.polled isRead pollFails then some { s with pc := .fire guard }
        else some { s with pc := .clear guard }
      else some { s with pc := .finished }
  | .clear (some guard) => some { s with pc := .waitReady, afd := s.afd.clearReady guard }
  | .clear none => some { s with pc := .waitReady, afd := s.afd.tryIoWouldBlock }
  | .finished => none

inductive FdMove
  /-- The readiness of the descriptor changes, by arrivals, by the peer or by
  a callback consuming some of it. -/
  | change (re : Revents)
  /-- A further arrival on a ready descriptor. -/
  | again
  /-- The driver harvests the edge. -/
  | harvest
  /-- The driver finds the descriptor no longer ready and drops the edge. -/
  | harvestStale
  | run (pollFails : Bool)
  /-- A batch takes a completion of the watcher off the queue. -/
  | pop
  /-- The batch is done with the completion and notifies the task. -/
  | release
  /-- The watcher is removed, cancelled or replaced, and its task aborted. -/
  | detach
  deriving DecidableEq, Repr

def FdSys.step (isRead : Bool) (s : FdSys) : FdMove → Option FdSys
  | .change re =>
      -- Becoming ready raises an edge.
      if pollReady isRead (.revents re) && !s.level isRead then
        some { s with re := re, afd := s.afd.raiseEdge }
      else some { s with re := re }
  | .again => some { s with afd := s.afd.raiseEdge }
  | .harvest =>
      if s.afd.edge && s.pc.Suspended then some { s with afd := s.afd.harvest } else none
  | .harvestStale =>
      if s.afd.edge && s.pc.Suspended && !s.level isRead then
        some { s with afd := { s.afd with edge := false } }
      else none
  | .run pollFails => fdStep isRead pollFails s
  | .pop =>
      if s.io ≠ 0 ∧ s.executing = false ∧ s.pc.Suspended = true then
        some { s with io := s.io - 1, executing := true }
      else none
  | .release => if s.executing then some { s with executing := false, permit := true } else none
  | .detach =>
      if s.pc.Suspended then some { s with cb := false, pc := .finished } else none

def FdSys.Init (isRead : Bool) (s : FdSys) : Prop :=
  s.afd = ⟨s.level isRead, false, 0⟩ ∧ s.pc = .start ∧ s.cb = true ∧ s.io = 0 ∧
    s.executing = false ∧ s.permit = false

end Tokioop.Fd
