import Tokioop.Loop.BatchRun
import Mathlib.Data.List.Induction

/-!
Callbacks that raise: `invoke_entry`, `report_callback_error`,
`dispatch_exception_handler` and `default_exception_handler_impl` of
`event_loop.rs`, inside `run_batch`.

A batch with its error paths is a machine over `batchStep` that stops at every
call of Python code. A `Conduct` fixes what the callbacks and the exception
handlers do and raise; `calm` turns it into one where nothing is raised and the
same calls are made. `ε` stands for the exceptions.
-/

namespace Tokioop.Loop

variable {κ ε : Type}

/-- What Python code does to the loop. -/
inductive Deed (κ : Type)
  | effect (e : Effect κ)
  | setExceptionHandler (h : Option κ)

structure ErrorContext (ε : Type) where
  message : Option String
  exception : Option ε
  deriving DecidableEq

/-- What is written to stderr. -/
inductive Line (ε : Type)
  -- `tokioop: {message}`
  | message (text : String)
  | traceback (exc : ε)
  -- `tokioop: context: {context:?}`
  | context (context : ErrorContext ε)
  -- `tokioop: exception in custom exception handler: {e}`
  | inCustomHandler (e : ε)
  -- `tokioop: error in exception handler: {e}`
  | inHandler (e : ε)
  deriving DecidableEq

/-- What the invocation of a number does and raises, and what the handler does
and raises when it is told about that invocation. -/
structure Conduct (κ ε : Type) where
  callback : Nat → Invocation κ → List (Deed κ) × Option ε
  handler : Nat → List (Deed κ) × Option ε

/-- A handler that was called, `none` for the default one, and its argument. -/
abbrev ErrorReport (κ ε : Type) := Option κ × ErrorContext ε

inductive ErrPc (κ ε : Type)
  | batch (b : BatchPc)
  -- The callback is executing and the batch goes on at `b`.
  | calling (inv : Invocation κ) (b : BatchPc)
  -- Invocation `k` has raised.
  | failed (k : Nat) (err : ε) (b : BatchPc)
  -- The handler is executing.
  | handling (k : Nat) (h : Option κ) (context : ErrorContext ε) (b : BatchPc)

structure ErrRun (κ ε : Type) where
  st : LoopState κ
  excHandler : Option κ
  pc : ErrPc κ ε
  calls : List (Invocation κ)
  reports : List (ErrorReport κ ε)
  stderr : List (Line ε)

/-! ### The error paths -/

def callbackError (err : ε) : ErrorContext ε := ⟨some "Exception in callback", some err⟩

/-- `default_exception_handler_impl`: the lines it writes and the error it
returns when `print_exception` raises. -/
def defaultExceptionHandlerImpl (context : ErrorContext ε) (raised : Option ε) :
    List (Line ε) × Option ε :=
  let head := Line.message (context.message.getD "Unhandled exception in event loop")
  match context.exception with
  | some exc =>
    match raised with
    | none => ([head, .traceback exc], none)
    | some e => ([head], some e)
  | none => ([head, .context context], none)

/-- `dispatch_exception_handler`, of a handler that raises `raised`. -/
def dispatchExceptionHandler (h : Option κ) (context : ErrorContext ε) (raised : Option ε) :
    List (Line ε) × Option ε :=
  match h with
  | some _ => ((raised.map Line.inCustomHandler).toList, none)
  | none => defaultExceptionHandlerImpl context raised

/-- What `report_callback_error` writes. -/
def reportCallbackError (h : Option κ) (context : ErrorContext ε) (raised : Option ε) :
    List (Line ε) :=
  let (lines, err) := dispatchExceptionHandler h context raised
  lines ++ (err.map Line.inHandler).toList

namespace Deed

def installed (h : Option κ) : Deed κ → Option κ
  | effect _ => h
  | setExceptionHandler h' => h'

def apply (s : LoopState κ) : Deed κ → LoopState κ
  | effect e => e.apply s
  | setExceptionHandler _ => s

end Deed

namespace ErrRun

def start (s : LoopState κ) (h : Option κ) : ErrRun κ ε := ⟨s, h, .batch .begin, [], [], []⟩

def perform (r : ErrRun κ ε) (deeds : List (Deed κ)) : ErrRun κ ε :=
  { r with
    st := deeds.foldl Deed.apply r.st
    excHandler := deeds.foldl Deed.installed r.excHandler }

/-- One step of `run_batch`, up to the next call of Python code or through one. -/
def step (c : Conduct κ ε) (r : ErrRun κ ε) : ErrRun κ ε :=
  match r.pc with
  | .batch b =>
    let out := batchStep r.st b
    match out.invoke with
    | none => { r with st := out.state, pc := .batch out.pc }
    | some inv => { r with st := out.state, pc := .calling inv out.pc }
  | .calling inv b =>
    let k := r.calls.length
    let (deeds, raised) := c.callback k inv
    { r.perform deeds with
      calls := r.calls ++ [inv]
      pc := match raised with
        | none => .batch b
        | some err => .failed k err b }
  | .failed k err b =>
    let context := callbackError err
    { r with pc := .handling k r.excHandler context b
             reports := r.reports ++ [(r.excHandler, context)] }
  | .handling k h context b =>
    let (deeds, raised) := c.handler k
    { r.perform deeds with
      stderr := r.stderr ++ reportCallbackError h context raised
      pc := .batch b }

def steps (c : Conduct κ ε) : Nat → ErrRun κ ε → ErrRun κ ε
  | 0, r => r
  | n + 1, r => step c (steps c n r)

def settled (r : ErrRun κ ε) : Bool :=
  match r.pc with
  | .batch _ | .calling _ _ => true
  | .failed _ _ _ | .handling _ _ _ _ => false

/-- Two batches have come equally far and left the loop alike. -/
structure Alike (r r' : ErrRun κ ε) : Prop where
  st : r.st = r'.st
  excHandler : r.excHandler = r'.excHandler
  pc : r.pc = r'.pc
  calls : r.calls = r'.calls

end ErrRun

namespace Conduct

/-- The conduct in which every failing callback makes the same calls, those of
the handler it is reported to with them, but returns normally. -/
def calm (c : Conduct κ ε) : Conduct κ ε where
  callback k inv :=
    match (c.callback k inv).2 with
    | none => c.callback k inv
    | some _ => ((c.callback k inv).1 ++ (c.handler k).1, none)
  handler := c.handler

/-- What an invocation does to the installed handler and to the reports. -/
def account (c : Conduct κ ε) (a : Option κ × List (ErrorReport κ ε)) (call : Invocation κ × Nat) :
    Option κ × List (ErrorReport κ ε) :=
  let (deeds, raised) := c.callback call.2 call.1
  let h := deeds.foldl Deed.installed a.1
  match raised with
  | none => (h, a.2)
  | some err => ((c.handler call.2).1.foldl Deed.installed h, a.2 ++ [(h, callbackError err)])

/-- The handler installed after some invocations and the reports made: one for
each invocation that raises, to the handler installed when it does. -/
def accounts (c : Conduct κ ε) (h : Option κ) (calls : List (Invocation κ)) :
    Option κ × List (ErrorReport κ ε) :=
  calls.zipIdx.foldl c.account (h, [])

def raised (c : Conduct κ ε) (calls : List (Invocation κ)) : List ε :=
  calls.zipIdx.filterMap fun call => (c.callback call.2 call.1).2

end Conduct

namespace ErrRun

variable {c : Conduct κ ε} {r r' : ErrRun κ ε}

/-! ### When the report is over -/

/-- The run once the report under way is done with. -/
def settle (c : Conduct κ ε) (r : ErrRun κ ε) : ErrRun κ ε :=
  match r.pc with
  | .failed k err b =>
    { r.perform (c.handler k).1 with
      pc := .batch b, reports := r.reports ++ [(r.excHandler, callbackError err)] }
  | .handling k _ _ b => { r.perform (c.handler k).1 with pc := .batch b }
  | .batch _ | .calling _ _ => r

theorem settle_of_settled (h : r.settled = true) : settle c r = r := by
  unfold settled at h
  unfold settle
  split <;> rename_i hpc
  · rw [hpc] at h
    cases h
  · rw [hpc] at h
    cases h
  · rfl
  · rfl

def SameButStderr (r r' : ErrRun κ ε) : Prop := Alike r r' ∧ r.reports = r'.reports

/-- Reporting goes on to where it was settled to. -/
theorem settle_step_of_unsettled (h : r.settled = false) :
    SameButStderr (settle c (step c r)) (settle c r) := by
  unfold settled at h
  split at h
  · cases h
  · cases h
  · rename_i k err b hpc
    simp only [settle, step, hpc]
    exact ⟨⟨rfl, rfl, rfl, rfl⟩, rfl⟩
  · rename_i k hand context b hpc
    simp only [settle, step, hpc]
    exact ⟨⟨rfl, rfl, rfl, rfl⟩, rfl⟩

theorem perform_append (r : ErrRun κ ε) (deeds more : List (Deed κ)) :
    r.perform (deeds ++ more) = (r.perform deeds).perform more := by
  simp only [perform, List.foldl_append]

theorem Alike.perform (h : Alike r r') (deeds : List (Deed κ)) :
    (r.perform deeds).st = (r'.perform deeds).st ∧
      (r.perform deeds).excHandler = (r'.perform deeds).excHandler := by
  simp only [ErrRun.perform, h.st, h.excHandler, and_self]

/-- A step of the batch outside reports is the step of the calm batch, once the
report it may begin is done with. -/
theorem Alike.step (h : Alike r r') (hr : r.settled = true) :
    Alike (settle c (ErrRun.step c r)) (ErrRun.step c.calm r') := by
  unfold settled at hr
  split at hr
  · rename_i b hpc
    have hpc' : r'.pc = .batch b := h.pc ▸ hpc
    simp only [ErrRun.step, hpc, hpc', ← h.st]
    split
    · exact ⟨rfl, h.excHandler, rfl, h.calls⟩
    · exact ⟨rfl, h.excHandler, rfl, h.calls⟩
  · rename_i inv b hpc
    have hpc' : r'.pc = .calling inv b := h.pc ▸ hpc
    simp only [ErrRun.step, hpc, hpc', ← h.calls, Conduct.calm]
    cases hraised : (c.callback r.calls.length inv).2 with
    | none =>
      obtain ⟨hst, hexc⟩ := h.perform (c.callback r.calls.length inv).1
      exact ⟨hst, hexc, by simp [settle, hraised], rfl⟩
    | some err =>
      -- the handler's calls are those of the calm callback
      obtain ⟨hst, hexc⟩ := h.perform
        ((c.callback r.calls.length inv).1 ++ (c.handler r.calls.length).1)
      rw [perform_append] at hst hexc
      exact ⟨hst, hexc, rfl, rfl⟩
  · cases hr
  · cases hr

theorem Alike.trans {r'' : ErrRun κ ε} (h : Alike r r') (h' : Alike r' r'') : Alike r r'' :=
  ⟨h.st.trans h'.st, h.excHandler.trans h'.excHandler, h.pc.trans h'.pc, h.calls.trans h'.calls⟩

theorem Alike.refl (r : ErrRun κ ε) : Alike r r := ⟨rfl, rfl, rfl, rfl⟩

theorem exists_settled (c : Conduct κ ε) (r : ErrRun κ ε) :
    ∃ n, (steps c n r).settled = true ∧ Alike (steps c n r) (settle c r) := by
  cases hr : r.settled with
  | true =>
    refine ⟨0, hr, ?_⟩
    rw [settle_of_settled hr]
    exact Alike.refl r
  | false =>
    unfold settled at hr
    split at hr
    · cases hr
    · cases hr
    · rename_i k err b hpc
      refine ⟨2, ?_, ?_⟩
      · simp only [steps, step, hpc, settled]
      · simp only [steps, step, hpc, settle]
        exact ⟨rfl, rfl, rfl, rfl⟩
    · rename_i k h context b hpc
      refine ⟨1, ?_, ?_⟩
      · simp only [steps, step, hpc, settled]
      · simp only [steps, step, hpc, settle]
        exact ⟨rfl, rfl, rfl, rfl⟩

theorem steps_add (c : Conduct κ ε) (m n : Nat) (r : ErrRun κ ε) :
    steps c m (steps c n r) = steps c (m + n) r := by
  induction m with
  | zero => rw [Nat.zero_add, steps]
  | succ m ih => rw [Nat.add_right_comm, steps, steps, ih]

/-! ### Whole batches -/

theorem calm_follows (c : Conduct κ ε) (h : Alike r r') (hr : r.settled = true) (n : Nat) :
    ∃ m, Alike (settle c (steps c n r)) (steps c.calm m r') := by
  induction n with
  | zero =>
    refine ⟨0, ?_⟩
    rw [steps, steps, settle_of_settled hr]
    exact h
  | succ n ih =>
    obtain ⟨m, hm⟩ := ih
    cases hset : (steps c n r).settled with
    | true =>
      rw [settle_of_settled hset] at hm
      exact ⟨m + 1, hm.step hset⟩
    | false => exact ⟨m, (settle_step_of_unsettled hset).1.trans hm⟩

/-- The other batch comes to every point of the calm one. -/
theorem follows_calm (c : Conduct κ ε) (h : Alike r r') (hr : r.settled = true) (m : Nat) :
    ∃ n, (steps c n r).settled = true ∧ Alike (steps c n r) (steps c.calm m r') := by
  induction m with
  | zero => exact ⟨0, hr, h⟩
  | succ m ih =>
    obtain ⟨n, hset, hn⟩ := ih
    obtain ⟨j, hj, hend⟩ := exists_settled c (step c (steps c n r))
    have hsteps : steps c j (step c (steps c n r)) = steps c (j + (n + 1)) r :=
      steps_add c j (n + 1) r
    rw [hsteps] at hj hend
    exact ⟨j + (n + 1), hj, hend.trans (hn.step hset)⟩

/-! ### The batch and its error paths -/

end ErrRun

def Deed.effect? : Deed κ → Option (Effect κ)
  | effect e => some e
  | setExceptionHandler _ => none

/-- What the invocations do to the loop, the calls of the handlers that are
told about them included. -/
def Conduct.behaviour (c : Conduct κ ε) : Behaviour κ := fun k inv =>
  let (deeds, raised) := c.callback k inv
  let told := if raised.isSome then (c.handler k).1 else []
  (deeds ++ told).filterMap Deed.effect?

theorem Deed.foldl_apply (deeds : List (Deed κ)) (s : LoopState κ) :
    deeds.foldl apply s = (deeds.filterMap effect?).foldl Effect.apply s := by
  induction deeds generalizing s with
  | nil => rfl
  | cons d deeds ih =>
    cases d with
    | effect e => exact ih _
    | setExceptionHandler h => exact ih s

namespace ErrRun

/-- The run is between two steps of the batch, and `b` has come equally far. -/
structure At (r : ErrRun κ ε) (b : BatchRun κ) : Prop where
  pc : r.pc = .batch b.pc
  st : r.st = b.st
  calls : r.calls = b.calls

/-- One step of the batch takes one to four steps with the error paths. -/
theorem At.next {b : BatchRun κ} (h : r.At b) :
    ∃ n, (steps c (n + 1) r).At (b.next c.behaviour) := by
  obtain ⟨st, exc, pc, calls, reports, stderr⟩ := r
  obtain ⟨hpc, hst, hcalls⟩ := h
  simp only at hpc hst hcalls
  subst hpc hst hcalls
  cases hinv : (batchStep b.st b.pc).invoke with
  | none =>
    refine ⟨0, ?_⟩
    simp only [steps, step, BatchRun.next, hinv]
    exact ⟨rfl, rfl, rfl⟩
  | some inv =>
    cases hraised : (c.callback b.calls.length inv).2 with
    | none =>
      refine ⟨1, ?_⟩
      simp only [steps, step, BatchRun.next, hinv, hraised]
      refine ⟨rfl, ?_, rfl⟩
      simp [perform, BatchRun.invoke, BatchRun.quiet, Conduct.behaviour, hraised,
        Deed.foldl_apply]
    | some err =>
      refine ⟨3, ?_⟩
      simp only [steps, step, BatchRun.next, hinv, hraised]
      refine ⟨rfl, ?_, rfl⟩
      simp [perform, BatchRun.invoke, BatchRun.quiet, Conduct.behaviour, hraised,
        Deed.foldl_apply]

theorem exists_at (c : Conduct κ ε) (s : LoopState κ) (h : Option κ) (j : Nat) :
    ∃ n, j ≤ n ∧ ((start s h).steps c n).At ((BatchRun.next c.behaviour)^[j] (.start s)) := by
  induction j with
  | zero => exact ⟨0, le_rfl, rfl, rfl, rfl⟩
  | succ j ih =>
    obtain ⟨n, hle, hat⟩ := ih
    obtain ⟨m, hm⟩ := hat.next (c := c)
    rw [steps_add] at hm
    rw [Function.iterate_succ_apply']
    exact ⟨m + 1 + n, by omega, hm⟩

theorem steps_of_finished (h : r.pc = .batch .finished) (n : Nat) : steps c n r = r := by
  induction n with
  | zero => rfl
  | succ n ih =>
    obtain ⟨st, exc, pc, calls, reports, stderr⟩ := r
    subst h
    rw [steps, ih]
    rfl

/-- With the error paths a batch comes to the end of the batch in which the
same is done to the loop, or to none if that one has no end. -/
theorem at_of_finished {c : Conduct κ ε} {s : LoopState κ} {h : Option κ} {n : Nat}
    (hend : ((start s h).steps c n).pc = .batch .finished) :
    ∃ j, ((start s h).steps c n).At ((BatchRun.next c.behaviour)^[j] (.start s)) := by
  obtain ⟨m, hle, hat⟩ := exists_at c s h n
  have hsplit : (start s h).steps c m = (start s h).steps c n := by
    rw [← Nat.sub_add_cancel hle, ← steps_add, steps_of_finished hend]
  exact ⟨n, hsplit ▸ hat⟩

/-- A batch ends with its error paths exactly if it ends without them. -/
theorem ends_iff (c : Conduct κ ε) (s : LoopState κ) (h : Option κ) :
    (∃ n, ((start s h).steps c n).pc = .batch .finished) ↔
      ∃ j, ((BatchRun.next c.behaviour)^[j] (.start s)).pc = .finished := by
  constructor
  · rintro ⟨n, hend⟩
    obtain ⟨j, hat⟩ := at_of_finished hend
    exact ⟨j, ErrPc.batch.inj (hat.pc.symm.trans hend)⟩
  · rintro ⟨j, hend⟩
    obtain ⟨n, _, hat⟩ := exists_at c s h j
    exact ⟨n, hat.pc.trans (congrArg ErrPc.batch hend)⟩

/-! ### The reports -/

/-- The reports made, the one under way among them, are those the invocations
call for. -/
def Accounted (c : Conduct κ ε) (h : Option κ) (r : ErrRun κ ε) : Prop :=
  ((settle c r).excHandler, (settle c r).reports) = c.accounts h r.calls

end ErrRun

theorem Conduct.accounts_concat (c : Conduct κ ε) (h : Option κ) (calls : List (Invocation κ))
    (inv : Invocation κ) :
    c.accounts h (calls ++ [inv]) = c.account (c.accounts h calls) (inv, calls.length) := by
  rw [accounts, List.zipIdx_append, List.foldl_append]
  simp [accounts]

theorem Conduct.raised_concat (c : Conduct κ ε) (calls : List (Invocation κ)) (inv : Invocation κ) :
    c.raised (calls ++ [inv]) = c.raised calls ++ (c.callback calls.length inv).2.toList := by
  rw [raised, List.zipIdx_append, List.filterMap_append]
  simp only [raised, List.zipIdx_singleton, Nat.zero_add]
  cases h : (c.callback calls.length inv).2 with
  | none => simp [h]
  | some err => simp [h]

/-- The reports are of the exceptions raised, one each. -/
theorem Conduct.exceptions_accounts (c : Conduct κ ε) (h : Option κ)
    (calls : List (Invocation κ)) :
    (c.accounts h calls).2.map Prod.snd = (c.raised calls).map callbackError := by
  induction calls using List.reverseRecOn with
  | nil => rfl
  | append_singleton calls inv ih =>
    rw [accounts_concat, raised_concat, List.map_append, ← ih]
    unfold account
    cases hraised : (c.callback calls.length inv).2 with
    | none => simp [hraised]
    | some err => simp [hraised]

theorem ErrRun.Accounted.step {c : Conduct κ ε} {h : Option κ} {r : ErrRun κ ε}
    (hr : r.Accounted c h) : (r.step c).Accounted c h := by
  cases hset : r.settled with
  | false =>
    obtain ⟨halike, hreports⟩ := settle_step_of_unsettled (c := c) hset
    have hcalls : (r.step c).calls = r.calls := by
      unfold ErrRun.settled at hset
      split at hset
      · cases hset
      · cases hset
      · rename_i hpc
        simp only [ErrRun.step, hpc]
      · rename_i hpc
        simp only [ErrRun.step, hpc, ErrRun.perform]
    rw [Accounted, halike.excHandler, hreports, hcalls]
    exact hr
  | true =>
    rw [Accounted, settle_of_settled hset] at hr
    unfold ErrRun.settled at hset
    split at hset
    · rename_i b hpc
      simp only [Accounted, ErrRun.step, hpc]
      split
      · exact hr
      · exact hr
    · rename_i inv b hpc
      simp only [Accounted, ErrRun.step, hpc]
      rw [Conduct.accounts_concat, ← hr, Conduct.account]
      cases hraised : (c.callback r.calls.length inv).2 with
      | none => simp [settle, perform, hraised]
      | some err => simp [settle, perform, hraised]
    · cases hset
    · cases hset

theorem ErrRun.accounted_steps (c : Conduct κ ε) (s : LoopState κ) (h : Option κ) (n : Nat) :
    ((start s h).steps c n).Accounted c h := by
  induction n with
  | zero => rfl
  | succ n ih => exact ih.step

/-- **Failing callbacks are isolated.** Whatever the callbacks and the handlers
of a batch raise, between reports the batch has executed the same callbacks and
left the same queues, notifications and handler as the batch in which nothing is
raised, and each comes to every point of the other. One report has been made for
each invocation that raised, in their order, with its exception, to the handler
installed when it was raised, the default one if there was none. -/
theorem failing_isolated (c : Conduct κ ε) (s : LoopState κ) (h : Option κ) :
    (∀ n, ((ErrRun.start s h).steps c n).settled = true →
      (∃ m, ErrRun.Alike ((ErrRun.start s h).steps c n) ((ErrRun.start s h).steps c.calm m)) ∧
      ((ErrRun.start s h).steps c n).reports =
        (c.accounts h ((ErrRun.start s h).steps c n).calls).2 ∧
      ((ErrRun.start s h).steps c n).reports.map Prod.snd =
        (c.raised ((ErrRun.start s h).steps c n).calls).map callbackError) ∧
    ∀ m, ∃ n, ((ErrRun.start s h).steps c n).settled = true ∧
      ErrRun.Alike ((ErrRun.start s h).steps c n) ((ErrRun.start s h).steps c.calm m) := by
  refine ⟨fun n hset => ?_, ErrRun.follows_calm c (ErrRun.Alike.refl _) rfl⟩
  obtain ⟨m, hm⟩ := ErrRun.calm_follows c (ErrRun.Alike.refl (ErrRun.start s h)) rfl n
  have haccounted := ErrRun.accounted_steps c s h n
  rw [ErrRun.Accounted, ErrRun.settle_of_settled hset] at haccounted
  rw [ErrRun.settle_of_settled hset] at hm
  have hreports := congrArg Prod.snd haccounted
  refine ⟨⟨m, hm⟩, hreports, ?_⟩
  rw [← c.exceptions_accounts h, ← hreports]

/-- The first callback raises, and so does the handler that stops the loop when
it is told. -/
def failsFirst : Conduct Nat Nat where
  callback k _ := ([.effect (.op (.callSoon 8))], if k = 0 then some 5 else none)
  handler _ := ([.effect .stop], some 6)

def twoReady : LoopState Nat :=
  { LoopState.new Nat 0 with
    ready := [⟨7, 0, false⟩, ⟨7, 1, false⟩], nextHandle := 2, running := true }

/-- The batch with the failing callback runs to its end, executes both
callbacks, and has told the handler once. -/
theorem failing_isolated_example : ∃ n m,
    ((ErrRun.start twoReady (some 9)).steps failsFirst n).pc = .batch .finished ∧
    ((ErrRun.start twoReady (some 9)).steps failsFirst n).calls =
      [.ready ⟨7, 0, false⟩, .ready ⟨7, 1, false⟩] ∧
    ((ErrRun.start twoReady (some 9)).steps failsFirst n).reports = [(some 9, callbackError 5)] ∧
    ErrRun.Alike ((ErrRun.start twoReady (some 9)).steps failsFirst n)
      ((ErrRun.start twoReady (some 9)).steps failsFirst.calm m) := by
  obtain ⟨⟨m, halike⟩, -, -⟩ := (failing_isolated failsFirst twoReady (some 9)).1 11 rfl
  exact ⟨11, m, rfl, rfl, rfl, halike⟩

end Tokioop.Loop
