import Tokioop.Fd.Represents

/-!
The `sock_*` operations of `loop.py`: `sock_recv` and its three siblings,
`sock_sendall`, `sock_sendto`, `sock_connect` and `sock_accept`, with the
callbacks they register, the futures they wait for and the done callbacks of
those futures.

A done callback runs one iteration or more after its future was completed, and
by then the descriptor may have been closed, reused and registered again. It
removes by descriptor; what it was given to tell its own watcher from another
is the handle.
-/

namespace Tokioop.Fd

universe u v

/-! ### The data -/

inductive SockOp
  | recv
  | recvInto
  | recvfrom
  | recvfromInto
  | sendall
  | sendto
  | connect
  | accept
  deriving DecidableEq, Repr

/-- `_add_reader` or `_add_writer`. -/
def SockOp.isRead : SockOp → Bool
  | .recv | .recvInto | .recvfrom | .recvfromInto | .accept => true
  | .sendall | .sendto | .connect => false

/-- What the system call of an operation answers: a result, with the number of
bytes for a send, `BlockingIOError` or `InterruptedError`, another exception,
or `SystemExit` or `KeyboardInterrupt`. -/
inductive SockAnswer
  | result (n : Nat)
  | wouldBlock
  | error
  | exit
  deriving DecidableEq, Repr

/-- `functools.partial(self._sock_read_done, fd, handle=handle)`, or with
`_sock_write_done`, and the future it is called with. -/
structure SockDone where
  fut : Nat
  fd : Int
  isRead : Bool
  handle : FdHandle
  deriving DecidableEq, Repr

/-- The future of an operation. `size` and `pos` are `len(view)` and `pos[0]`
of `_sock_sendall`. -/
structure SockFuture where
  op : SockOp
  done : Bool
  callbacks : List SockDone
  size : Nat
  pos : Nat
  deriving DecidableEq, Repr

/-- A registered callback: the one of an operation, with its future, or one
of somebody else. -/
inductive WatchCb (α : Type u)
  | sock (fut : Nat)
  | user (cb : α)
  deriving DecidableEq, Repr

/-- `transports` maps the descriptors in `_transports` to `is_closing()`, and
`ready` holds the done callbacks that are scheduled. `owners` tells of each
registration which operation made it. -/
structure Socks (α : Type u) (δ : Type v) where
  reg : Registry (WatchCb α) δ
  futures : List SockFuture
  ready : List SockDone
  transports : AList fun _ : Int => Bool
  closed : Bool
  owners : List (Option Nat)

inductive SockMove (α : Type u) (δ : Type v)
  /-- An operation is called on a socket whose `fileno()` is `fd`. -/
  | start (op : SockOp) (fd : Int) (size : Nat) (answer : SockAnswer) (setup : Setup)
  /-- The batch calls the callback of a slot. -/
  | fire (slot : Nat) (fd : Int) (answer : SockAnswer) (setup : Setup)
  /-- A future is cancelled. -/
  | cancel (fut : Nat)
  /-- The oldest done callback runs. -/
  | runDone
  /-- Somebody else operates on the registry: a reader, a writer, a transport. -/
  | other (op : Registry.Op α δ)
  /-- A transport is attached to a descriptor, starts closing or goes. -/
  | transport (fd : Int) (isClosing : Option Bool)
  | close

variable {α : Type u} {δ : Type v}

namespace Socks

def empty : Socks α δ := ⟨.empty, [], [], ∅, false, []⟩

/-! ### Futures -/

def future (s : Socks α δ) (fut : Nat) : Option SockFuture := s.futures[fut]?

def setFuture (s : Socks α δ) (fut : Nat) (f : SockFuture) : Socks α δ :=
  { s with futures := s.futures.set fut f }

/-- `loop.call_soon` of done callbacks; a closed loop refuses the first. -/
def callSoon (s : Socks α δ) (ds : List SockDone) : Socks α δ :=
  if s.closed then s else { s with ready := s.ready ++ ds }

/-- `set_result`, `set_exception` and `cancel`: the future is done and its
callbacks are scheduled. -/
def finish (s : Socks α δ) (fut : Nat) : Socks α δ :=
  match s.future fut with
  | none => s
  | some f =>
      if f.done then s
      else (s.setFuture fut { f with done := true, callbacks := [] }).callSoon f.callbacks

def addDoneCallback (s : Socks α δ) (fut : Nat) (d : SockDone) : Socks α δ :=
  match s.future fut with
  | none => s
  | some f =>
      if f.done then s.callSoon [d]
      else s.setFuture fut { f with callbacks := f.callbacks ++ [d] }

/-- `create_future`, which a closed loop refuses. -/
def createFuture (s : Socks α δ) (op : SockOp) (size pos : Nat) : Option (Nat × Socks α δ) :=
  if s.closed then none
  else some (s.futures.length, { s with futures := s.futures ++ [⟨op, false, [], size, pos⟩] })

/-! ### The registry -/

/-- The registry after a call made by `owner`. -/
def withReg (s : Socks α δ) (r : Registry (WatchCb α) δ) (owner : Option Nat) : Socks α δ :=
  { s with
    reg := r
    owners := s.owners ++ List.replicate (r.issued.length - s.reg.issued.length) owner }

/-- `_ensure_fd_no_transport` raises. -/
def fdHasTransport (s : Socks α δ) (fd : Int) : Bool := s.transports.lookup fd == some false

/-- The end of every operation that has to wait: `_ensure_fd_no_transport`,
`_add_reader` or `_add_writer`, and `add_done_callback`. Any of them may raise,
and then the operation fails with what has been done so far. -/
def wait (s : Socks α δ) (fut : Nat) (isRead : Bool) (fd : Int) (setup : Setup) : Socks α δ :=
  if s.fdHasTransport fd || s.closed then s
  else match s.reg.addWatcher fd isRead (.sock fut) setup with
    | (.error _, r) => s.withReg r (some fut)
    | (.ok handle, r) => (s.withReg r (some fut)).addDoneCallback fut ⟨fut, fd, isRead, handle⟩

/-- The public `remove_reader` and `remove_writer`. -/
def remove (s : Socks α δ) (fd : Int) (isRead : Bool) : Socks α δ :=
  if s.fdHasTransport fd || s.closed then s
  else s.withReg (s.reg.detachWatcher fd isRead).2 none

/-- `handle.cancelled()`. -/
def cancelled (s : Socks α δ) (h : FdHandle) : Bool := s.reg.flags[h.flag]? != some false

/-- `_sock_read_done` and `_sock_write_done`. -/
def sockDone (s : Socks α δ) (d : SockDone) : Socks α δ :=
  if s.cancelled d.handle then s else s.remove d.fd d.isRead

/-! ### The operations -/

/-- `_sock_accept` once its future is known to be pending, and `_sock_connect`. -/
def attempt (s : Socks α δ) (fut : Nat) (isRead : Bool) (fd : Int) (answer : SockAnswer)
    (setup : Setup) : Socks α δ :=
  match answer with
  | .result _ => s.finish fut
  | .wouldBlock => s.wait fut isRead fd setup
  | .error => s.finish fut
  | .exit => s

/-- `create_future` and the wait for the descriptor. -/
def pending (s : Socks α δ) (op : SockOp) (fd : Int) (size pos : Nat) (setup : Setup) :
    Socks α δ :=
  match s.createFuture op size pos with
  | none => s
  | some (fut, s') => s'.wait fut op.isRead fd setup

/-- An operation up to its `await`. `sock_connect` and `sock_accept` create
their future first; `sock_sendall` waits when a part of the data is left, and
the others when the call would block. -/
def start (s : Socks α δ) (op : SockOp) (fd : Int) (size : Nat) (answer : SockAnswer)
    (setup : Setup) : Socks α δ :=
  match op with
  | .connect | .accept =>
      match s.createFuture op size 0 with
      | none => s
      | some (fut, s') => s'.attempt fut op.isRead fd answer setup
  | .sendall =>
      match answer with
      | .error | .exit => s
      | .wouldBlock => s.pending op fd size 0 setup
      | .result n => if n = size then s else s.pending op fd size n setup
  | .recv | .recvInto | .recvfrom | .recvfromInto | .sendto =>
      match answer with
      | .wouldBlock => s.pending op fd size 0 setup
      | .result _ | .error | .exit => s

/-- The callbacks `_sock_recv`, `_sock_recv_into`, `_sock_recvfrom`,
`_sock_recvfrom_into`, `_sock_sendall`, `_sock_sendto`, `_sock_connect_cb` and
`_sock_accept`. All return at once when the future is done. -/
def callback (s : Socks α δ) (fut : Nat) (fd : Int) (answer : SockAnswer) (setup : Setup) :
    Socks α δ :=
  match s.future fut with
  | none => s
  | some f =>
      if f.done then s
      else match f.op with
        | .accept => s.attempt fut f.op.isRead fd answer setup
        | .sendall =>
            match answer with
            | .wouldBlock | .exit => s
            | .error => s.finish fut
            | .result n =>
                if f.pos + n = f.size then s.finish fut
                else s.setFuture fut { f with pos := f.pos + n }
        | .recv | .recvInto | .recvfrom | .recvfromInto | .sendto | .connect =>
            match answer with
            | .wouldBlock | .exit => s
            | .error | .result _ => s.finish fut

/-- Registrations and removals by others; a closed loop refuses them. -/
def other (s : Socks α δ) : Registry.Op α δ → Option (Socks α δ)
  | .addWatcher fd isRead cb setup =>
      some (if s.closed then s else s.withReg (s.reg.addWatcher fd isRead (.user cb) setup).2 none)
  | .addDrainWatcher fd drain drainErr setup =>
      some (if s.closed then s
        else s.withReg (s.reg.addDrainWatcher fd drain drainErr setup).2 none)
  | .detachWatcher fd isRead =>
      some (if s.closed then s else s.withReg (s.reg.detachWatcher fd isRead).2 none)
  | .cancel i => s.reg.issued[i]?.map fun h => s.withReg (s.reg.cancel h.1).2 none
  | .abortAll => none

def step (s : Socks α δ) : SockMove α δ → Option (Socks α δ)
  | .start op fd size answer setup => some (s.start op fd size answer setup)
  | .fire slot fd answer setup =>
      match s.reg.slots[slot]?.bind (·.cb) with
      | some (.sock fut) => some (s.callback fut fd answer setup)
      | _ => none
  | .cancel fut => some (s.finish fut)
  | .runDone =>
      match s.ready with
      | [] => none
      | d :: rest => some (({ s with ready := rest } : Socks α δ).sockDone d)
  | .other op => s.other op
  | .transport fd isClosing =>
      some { s with transports := match isClosing with
        | none => s.transports.erase fd
        | some c => s.transports.insert fd c }
  | .close =>
      some (if s.closed then s
        else { s.withReg s.reg.abortAll none with closed := true, ready := [] })

def Reach : Socks α δ → Prop := Kit.Runs step (fun _ _ => True) (· = empty)

/-! ### Every done callback holds the handle of its own registration -/

/-- The handle of `d` was returned to the operation of `d`, for the descriptor
and the direction that `d` removes. -/
def Given (s : Socks α δ) (d : SockDone) : Prop :=
  d.handle.fd = d.fd ∧ d.handle.isRead = d.isRead ∧
    ∃ j : Nat, s.reg.issued[j]? = some (d.handle, j) ∧ s.owners[j]? = some (some d.fut)

structure Tracks (s : Socks α δ) : Prop where
  ok : s.reg.Ok
  owners : s.owners.length = s.reg.issued.length
  ready : ∀ d ∈ s.ready, s.Given d
  futures : ∀ f ∈ s.futures, ∀ d ∈ f.callbacks, s.Given d

theorem Tracks.future {s : Socks α δ} (h : Tracks s) {fut : Nat} {f : SockFuture}
    (hf : s.future fut = some f) : ∀ d ∈ f.callbacks, s.Given d :=
  h.futures f (List.mem_of_getElem? hf)

theorem tracks_callSoon {s : Socks α δ} (h : Tracks s) {ds : List SockDone}
    (hds : ∀ d ∈ ds, s.Given d) : Tracks (s.callSoon ds) := by
  unfold callSoon
  split
  · exact h
  · refine ⟨h.ok, h.owners, fun d hd => ?_, h.futures⟩
    rcases List.mem_append.mp hd with hd | hd
    · exact h.ready d hd
    · exact hds d hd

theorem tracks_setFuture {s : Socks α δ} (h : Tracks s) (fut : Nat) {f : SockFuture}
    (hf : ∀ d ∈ f.callbacks, s.Given d) : Tracks (s.setFuture fut f) := by
  refine ⟨h.ok, h.owners, h.ready, fun g hg => ?_⟩
  rcases List.mem_or_eq_of_mem_set hg with hg | rfl
  · exact h.futures g hg
  · exact hf

theorem tracks_finish {s : Socks α δ} (h : Tracks s) (fut : Nat) : Tracks (s.finish fut) := by
  unfold finish
  split
  · exact h
  · rename_i f hf
    split
    · exact h
    · have hset : Tracks (s.setFuture fut { f with done := true, callbacks := [] }) :=
        tracks_setFuture h fut (fun d hd => by cases hd)
      exact tracks_callSoon hset (h.future hf)

theorem tracks_addDoneCallback {s : Socks α δ} (h : Tracks s) (fut : Nat) {d : SockDone}
    (hd : s.Given d) : Tracks (s.addDoneCallback fut d) := by
  unfold addDoneCallback
  split
  · exact h
  · rename_i f hf
    split
    · exact tracks_callSoon h (by simpa using hd)
    · apply tracks_setFuture h
      intro d' hd'
      rcases List.mem_append.mp hd' with hd' | hd'
      · exact h.future hf d' hd'
      · exact List.mem_singleton.mp hd' ▸ hd

theorem tracks_createFuture {s s' : Socks α δ} (h : Tracks s) {op : SockOp} {size pos fut : Nat}
    (hs : s.createFuture op size pos = some (fut, s')) : Tracks s' := by
  unfold createFuture at hs
  split at hs
  · cases hs
  · cases hs
    refine ⟨h.ok, h.owners, h.ready, fun f hf => ?_⟩
    rcases List.mem_append.mp hf with hf | hf
    · exact h.futures f hf
    · rw [List.mem_singleton.mp hf]
      intro d hd
      cases hd

theorem Given.withReg {s : Socks α δ} {d : SockDone} (hd : s.Given d)
    {r : Registry (WatchCb α) δ} {new : List (FdHandle × Nat)} {owner : Option Nat}
    (hr : r.issued = s.reg.issued ++ new) : (s.withReg r owner).Given d := by
  obtain ⟨hfd, hdir, j, hj, ho⟩ := hd
  refine ⟨hfd, hdir, j, ?_, ?_⟩
  · show r.issued[j]? = _
    rw [hr]
    exact List.getElem?_append_left (List.getElem?_eq_some_iff.mp hj).1 ▸ hj
  · show (s.owners ++ _)[j]? = _
    exact List.getElem?_append_left (List.getElem?_eq_some_iff.mp ho).1 ▸ ho

theorem tracks_withReg {s : Socks α δ} (h : Tracks s) {r : Registry (WatchCb α) δ}
    {new : List (FdHandle × Nat)} (hok : r.Ok) (hr : r.issued = s.reg.issued ++ new)
    (owner : Option Nat) : Tracks (s.withReg r owner) := by
  refine ⟨hok, ?_, fun d hd => (h.ready d hd).withReg hr,
    fun f hf d hd => (h.futures f hf d hd).withReg hr⟩
  show (s.owners ++ _).length = r.issued.length
  rw [List.length_append, List.length_replicate, h.owners, hr, List.length_append]
  omega

/-- A call that registers nothing. -/
theorem tracks_withReg_same {s : Socks α δ} (h : Tracks s) {r : Registry (WatchCb α) δ}
    (hok : r.Ok) (hr : r.issued = s.reg.issued) (owner : Option Nat) :
    Tracks (s.withReg r owner) :=
  tracks_withReg h hok (hr.trans (List.append_nil _).symm) owner

end Socks

/-! ### The handles a call of the registry returns -/

namespace Registry

variable {β : Type u}

theorem register_issued (r : Registry β δ) (fd : Int) (isRead : Bool) (setup : Setup)
    (slot : Nat → FdSlotState β δ) :
    ∃ new, (r.register fd isRead setup slot).2.issued = r.issued ++ new ∧
      ∀ k, (r.register fd isRead setup slot).1 = .ok k →
        k.fd = fd ∧ k.isRead = isRead ∧ new = [(k, r.slots.length)] := by
  unfold register
  split
  · exact ⟨[], (List.append_nil _).symm, fun k hk => by cases hk⟩
  · split
    · exact ⟨[], (List.append_nil _).symm, fun k hk => by cases hk⟩
    · exact ⟨[], (List.append_nil _).symm, fun k hk => by cases hk⟩
    · refine ⟨_, rfl, fun k hk => ?_⟩
      cases hk
      exact ⟨rfl, rfl, rfl⟩

theorem detachWatcher_issued (r : Registry β δ) (fd : Int) (isRead : Bool) :
    (r.detachWatcher fd isRead).2.issued = r.issued := by
  unfold detachWatcher
  split
  · rfl
  · split
    · rfl
    · exact retire_issued r _

theorem cancel_issued (r : Registry β δ) (k : FdHandle) : (r.cancel k).2.issued = r.issued := by
  unfold cancel
  split
  · exact detachWatcher_issued _ _ _
  · rfl

end Registry

namespace Socks

theorem tracks_wait {s : Socks α δ} (h : Tracks s) (fut : Nat) (isRead : Bool) (fd : Int)
    (setup : Setup) : Tracks (s.wait fut isRead fd setup) := by
  unfold wait
  split
  · exact h
  · have hok : (s.reg.addWatcher fd isRead (.sock fut) setup).2.Ok :=
      Registry.register_ok h.ok _ _ _ _ fun f => ⟨rfl, rfl, rfl⟩
    obtain ⟨new, hissued, hnew⟩ := Registry.register_issued s.reg fd isRead setup
      fun flag => ⟨some (.sock fut), none, none, false, some flag⟩
    split
    · rename_i r heq
      rw [heq] at hok
      exact tracks_withReg h hok (by rw [← hissued]; exact (congrArg (·.2.issued) heq).symm) _
    · rename_i handle r heq
      rw [heq] at hok
      have hr : r.issued = s.reg.issued ++ new := by
        rw [← hissued]
        exact (congrArg (·.2.issued) heq).symm
      obtain ⟨hfd, hdir, rfl⟩ := hnew handle (congrArg Prod.fst heq)
      apply tracks_addDoneCallback (tracks_withReg h hok hr _)
      -- The new registration is the last one, and it is recorded as ours.
      refine ⟨hfd, hdir, s.reg.issued.length, ?_, ?_⟩
      · show r.issued[s.reg.issued.length]? = _
        rw [hr, h.ok.slots_length, ← h.ok.issued_length]
        exact List.getElem?_concat_length
      · show (s.owners ++ List.replicate (r.issued.length - s.reg.issued.length) _)[_]? = _
        have hlen : r.issued.length - s.reg.issued.length = 1 := by
          rw [hr, List.length_append, List.length_singleton]
          omega
        rw [hlen, ← h.owners]
        exact List.getElem?_concat_length

theorem tracks_remove {s : Socks α δ} (h : Tracks s) (fd : Int) (isRead : Bool) :
    Tracks (s.remove fd isRead) := by
  unfold remove
  split
  · exact h
  · exact tracks_withReg_same h (Registry.detachWatcher_ok h.ok fd isRead)
      (Registry.detachWatcher_issued s.reg fd isRead) none

theorem tracks_attempt {s : Socks α δ} (h : Tracks s) (fut : Nat) (isRead : Bool) (fd : Int)
    (answer : SockAnswer) (setup : Setup) : Tracks (s.attempt fut isRead fd answer setup) := by
  cases answer with
  | result n => exact tracks_finish h fut
  | wouldBlock => exact tracks_wait h fut isRead fd setup
  | error => exact tracks_finish h fut
  | exit => exact h

theorem tracks_pending {s : Socks α δ} (h : Tracks s) (op : SockOp) (fd : Int) (size pos : Nat)
    (setup : Setup) : Tracks (s.pending op fd size pos setup) := by
  unfold pending
  split
  · exact h
  · rename_i hs
    exact tracks_wait (tracks_createFuture h hs) _ _ _ _

theorem tracks_start {s : Socks α δ} (h : Tracks s) (op : SockOp) (fd : Int) (size : Nat)
    (answer : SockAnswer) (setup : Setup) : Tracks (s.start op fd size answer setup) := by
  unfold start
  split
  all_goals split
  all_goals first
    | exact h
    | exact tracks_pending h _ _ _ _ _
    | exact tracks_attempt (tracks_createFuture h ‹_›) _ _ _ _ _
    | skip
  split
  · exact h
  · exact tracks_pending h _ _ _ _ _

theorem tracks_callback {s : Socks α δ} (h : Tracks s) (fut : Nat) (fd : Int)
    (answer : SockAnswer) (setup : Setup) : Tracks (s.callback fut fd answer setup) := by
  unfold callback
  split
  · exact h
  · rename_i f hf
    have hcb := h.future hf
    split
    · exact h
    · split
      · exact tracks_attempt h _ _ _ _ _
      · split
        · exact h
        · exact h
        · exact tracks_finish h fut
        · split
          · exact tracks_finish h fut
          · exact tracks_setFuture h fut hcb
      all_goals
        split
        · exact h
        · exact h
        · exact tracks_finish h fut
        · exact tracks_finish h fut

theorem tracks_sockDone {s : Socks α δ} (h : Tracks s) (d : SockDone) :
    Tracks (s.sockDone d) := by
  unfold sockDone
  split
  · exact h
  · exact tracks_remove h d.fd d.isRead

theorem tracks_other {s s' : Socks α δ} (h : Tracks s) {op : Registry.Op α δ}
    (hs : s.other op = some s') : Tracks s' := by
  cases op with
  | addWatcher fd isRead cb setup =>
      obtain ⟨_, hissued, -⟩ := Registry.register_issued s.reg fd isRead setup
        fun flag => ⟨some (.user cb), none, none, false, some flag⟩
      injection hs with hs
      subst hs
      split
      · exact h
      · exact tracks_withReg h (Registry.register_ok h.ok _ _ _ _ fun f => ⟨rfl, rfl, rfl⟩)
          hissued none
  | addDrainWatcher fd drain drainErr setup =>
      obtain ⟨_, hissued, -⟩ := Registry.register_issued s.reg fd true setup
        fun flag => ⟨none, some drain, some drainErr, false, some flag⟩
      injection hs with hs
      subst hs
      split
      · exact h
      · exact tracks_withReg h (Registry.register_ok h.ok _ _ _ _ fun f => ⟨rfl, rfl, rfl⟩)
          hissued none
  | detachWatcher fd isRead =>
      injection hs with hs
      subst hs
      split
      · exact h
      · exact tracks_withReg_same h (Registry.detachWatcher_ok h.ok fd isRead)
          (Registry.detachWatcher_issued s.reg fd isRead) none
  | cancel i =>
      obtain ⟨⟨k, j⟩, hk, rfl⟩ := Option.map_eq_some_iff.mp hs
      exact tracks_withReg_same h (Registry.cancel_ok h.ok (List.mem_of_getElem? hk))
        (Registry.cancel_issued s.reg k) none
  | abortAll => cases hs

theorem tracks_close {s : Socks α δ} (h : Tracks s) :
    Tracks { s.withReg s.reg.abortAll none with closed := true, ready := [] } := by
  have hreg := tracks_withReg_same h (Registry.abortAll_ok h.ok)
    (Registry.foldl_retire_frame s.reg.directions s.reg).2.2 none
  exact ⟨hreg.ok, hreg.owners, (fun d hd => by cases hd), hreg.futures⟩

theorem tracks_step {s s' : Socks α δ} {m : SockMove α δ} (h : Tracks s)
    (hs : s.step m = some s') : Tracks s' := by
  cases m with
  | start op fd size answer setup =>
      cases hs
      exact tracks_start h op fd size answer setup
  | fire slot fd answer setup =>
      simp only [step] at hs
      split at hs
      · cases hs
        exact tracks_callback h _ fd answer setup
      · cases hs
  | cancel fut =>
      cases hs
      exact tracks_finish h fut
  | runDone =>
      simp only [step] at hs
      split at hs
      · cases hs
      · rename_i d rest hready
        cases hs
        have hrest : Tracks { s with ready := rest } := by
          refine ⟨h.ok, h.owners, fun d' hd' => h.ready d' ?_, h.futures⟩
          rw [hready]
          exact List.mem_cons_of_mem d hd'
        exact tracks_sockDone hrest d
  | other op => exact tracks_other h hs
  | transport fd isClosing =>
      cases hs
      exact ⟨h.ok, h.owners, h.ready, h.futures⟩
  | close =>
      cases hs
      split
      · exact h
      · exact tracks_close h

theorem tracks_empty : Tracks (empty : Socks α δ) :=
  ⟨Registry.empty_ok, rfl, (fun _ hd => by cases hd), (fun _ hf => by cases hf)⟩

theorem tracks_of_reach {s : Socks α δ} (h : Reach s) : Tracks s :=
  Kit.Runs.invariant (fun _ hs => hs ▸ tracks_empty) (fun _ _ _ h _ hs => tracks_step h hs) h

/-! ### What a done callback removes -/

/-- From `s` to `s'` the done callback `d` has removed nothing, or the watcher
whose handle it was given, which its own operation had registered; the handles
of all other registrations report what they did before. -/
structure RemovesOwn (s s' : Socks α δ) (d : SockDone) : Prop where
  removed : ∀ fd isRead, s'.reg.direction fd isRead ≠ s.reg.direction fd isRead →
    fd = d.fd ∧ isRead = d.isRead ∧ s'.reg.direction fd isRead = none ∧
      ∃ w, s.reg.direction fd isRead = some w ∧ (d.handle, w.slot) ∈ s.reg.issued ∧
        s.owners[w.slot]? = some (some d.fut)
  others : ∀ k j, (k, j) ∈ s.reg.issued → k ≠ d.handle → s'.cancelled k = s.cancelled k

theorem removesOwn_of_reg_eq {s s' : Socks α δ} (d : SockDone) (h : s'.reg = s.reg) :
    RemovesOwn s s' d := by
  refine ⟨fun fd isRead hne => absurd (by rw [h]) hne, fun k j _ _ => ?_⟩
  rw [cancelled, cancelled, h]

theorem removesOwn_detach {s : Socks α δ} {d : SockDone} (h : Tracks s) (hd : s.Given d)
    (hlive : s.cancelled d.handle = false) (rest : List SockDone) :
    RemovesOwn s (({ s with ready := rest } : Socks α δ).withReg
      (s.reg.detachWatcher d.fd d.isRead).2 none) d := by
  obtain ⟨hfd, hdir, j, hj, howner⟩ := hd
  have hflag := (h.ok.own j d.handle j hj).1
  -- The flag of the handle is clear, so its own watcher is in place.
  have hclear : s.reg.flags[d.handle.flag]? = some false := by simpa [cancelled] using hlive
  obtain ⟨w, hw, rfl⟩ := (Registry.flag_clear_iff h.ok (List.mem_of_getElem? hj)).mp hclear
  rw [hfd, hdir] at hw
  have hu := Registry.updates_detachWatcher h.ok hw
  refine ⟨fun fd isRead hne => ?_, fun k j hk hne => ?_⟩
  · by_cases hplace : fd = d.fd ∧ isRead = d.isRead
    · obtain ⟨rfl, rfl⟩ := hplace
      refine ⟨rfl, rfl, ?_, w, hw, List.mem_of_getElem? hj, howner⟩
      exact (hu.placed.direction _ _).trans (if_pos ⟨rfl, rfl⟩)
    · exact absurd ((hu.placed.direction _ _).trans (if_neg hplace)) hne
  · obtain ⟨i, hi⟩ := List.mem_iff_getElem?.mp hk
    obtain ⟨hki, -⟩ := h.ok.own i k j hi
    have hslot : i ≠ w.slot := by
      rintro rfl
      rw [hj] at hi
      injection hi with hi
      exact hne (congrArg Prod.fst hi).symm
    have hother := (hu.other i (List.getElem?_eq_some_iff.mp hi).1 fun old ho => by
      rw [hw] at ho
      injection ho with ho
      exact ho ▸ hslot).1
    show (_ != some false) = (_ != some false)
    rw [hki]
    exact congrArg (· != some false) hother

/-- A done callback of a `sock_*` operation removes its own watcher or none. -/
theorem sock_done_removes_own {s s' : Socks α δ} {d : SockDone} {rest : List SockDone}
    (h : Reach s) (hready : s.ready = d :: rest) (hs : s.step .runDone = some s') :
    RemovesOwn s s' d := by
  have ht := tracks_of_reach h
  simp only [step, hready] at hs
  cases hs
  unfold sockDone
  split
  · exact removesOwn_of_reg_eq d rfl
  · rename_i hlive
    unfold remove
    split
    · exact removesOwn_of_reg_eq d rfl
    · refine removesOwn_detach ht (ht.ready d ?_) (by simpa [cancelled] using hlive) rest
      rw [hready]
      exact List.mem_cons_self

/-- An accept that was retried once and then got its connection: the first of
its two done callbacks has run, and the second removes the second watcher. -/
theorem sock_done_removes_own_retried : ∃ s s' : Socks Nat Nat, ∃ d rest, Reach s ∧
    s.ready = d :: rest ∧ s.step .runDone = some s' ∧ s.reg.direction 5 true = some ⟨1, 1⟩ ∧
    s'.reg.direction 5 true = none ∧ RemovesOwn s s' d := by
  have hstart : Reach (empty : Socks Nat Nat) := .start rfl
  obtain ⟨s, hs, hp⟩ := hstart.exists_of_replay
    [.start .accept 5 0 .wouldBlock ⟨none, none⟩, .fire 0 5 .wouldBlock ⟨none, none⟩,
      .fire 1 5 (.result 0) ⟨none, none⟩, .runDone]
    (fun s => !s.ready.isEmpty && s.reg.direction 5 true == some ⟨1, 1⟩ &&
      (s.step .runDone).any fun s' => s'.reg.direction 5 true == none) (by decide +kernel)
  simp only [Bool.and_eq_true, beq_iff_eq, Bool.not_eq_true', List.isEmpty_eq_false_iff] at hp
  obtain ⟨⟨hne, hdir⟩, hdone⟩ := hp
  obtain ⟨d, rest, hready⟩ := List.exists_cons_of_ne_nil hne
  cases hstep : s.step .runDone with
  | none => simp [hstep] at hdone
  | some s' =>
      have hnone : s'.reg.direction 5 true = none := by simpa [hstep] using hdone
      exact ⟨s, s', d, rest, hs, hready, hstep, hdir, hnone,
        sock_done_removes_own hs hready hstep⟩

end Socks

end Tokioop.Fd
