import Tokioop.Loop.Machine
import Mathlib.Logic.Function.Basic

/-!
Context variables of callbacks.

`call_soon`, `call_at`, `add_reader` and the others store the `context`
argument as it was given, and `invoke_entry` calls an entry without one in
whatever context the loop thread is in at that moment; nothing ever takes a
copy of the current context. The view keeps the contexts of the loop thread
beside the loop, and next to each what it would hold in the same run under the
rules of `asyncio`, where an entry scheduled without a context gets a copy of
the current one and keeps it: `own` lists the contexts of the entries.

Code on the loop thread may enter a `Context` with `Context.run`, around
`run_forever` or inside of a callback, and schedule from there. Another thread
may assign in one that the loop thread is not in.

Every value carries the entry whose callback assigned it, or nothing when it
was assigned outside of callbacks.
-/

namespace Tokioop.Loop

open Kit

/-- A context: the values of the variables that are set, and who set them. -/
abbrev Ctx (V A : Type) := V → Option (A × Option Nat)

/-- The callback of an entry: which scheduling call it came from, and the
`Context` object that was passed, if any. -/
structure Scheduled where
  id : Nat
  context : Option Nat
  deriving DecidableEq, Repr

def Invocation.job : Invocation Scheduled → Scheduled
  | .ready e => e.callback
  | .timer t => t.entry.callback
  | .io _ cb => cb
  | .data _ drain _ => drain

def Ctx.set {V A : Type} [DecidableEq V] (c : Ctx V A) (x : V) (a : A) (by' : Option Nat) :
    Ctx V A :=
  Function.update c x (some (a, by'))

/-- A `Context` object: what it holds, and what it would hold under the rules
of `asyncio`. -/
structure ContextObject (V A : Type) where
  actual : Ctx V A
  expected : Ctx V A

def ContextObject.set {V A : Type} [DecidableEq V] (t : ContextObject V A) (x : V) (a : A)
    (by' : Option Nat) : ContextObject V A :=
  ⟨t.actual.set x a by', t.expected.set x a by'⟩

/-- Where no callback has assigned, `asyncio` has the same value. -/
def ContextObject.Follows {V A : Type} (t : ContextObject V A) : Prop :=
  ∀ x, (∀ a k, t.actual x ≠ some (a, some k)) → t.expected x = t.actual x

section

variable {V A : Type}

theorem Ctx.set_self [DecidableEq V] (c : Ctx V A) (x : V) (a : A) (tag : Option Nat) :
    c.set x a tag x = some (a, tag) := Function.update_self ..

theorem Ctx.set_of_ne [DecidableEq V] (c : Ctx V A) {x y : V} (h : y ≠ x) (a : A)
    (tag : Option Nat) : c.set x a tag y = c y := Function.update_of_ne h ..

theorem ContextObject.set_same [DecidableEq V] {t : ContextObject V A}
    (h : t.actual = t.expected) (x : V) (a : A) (tag : Option Nat) :
    (t.set x a tag).actual = (t.set x a tag).expected :=
  congrArg (fun c => Ctx.set c x a tag) h

theorem ContextObject.Follows.set [DecidableEq V] {t : ContextObject V A} (h : t.Follows) (x : V)
    (a : A) (tag : Option Nat) : (t.set x a tag).Follows := by
  intro y hy
  by_cases hyx : y = x
  · subst hyx
    exact (Ctx.set_self ..).trans (Ctx.set_self ..).symm
  · simp only [ContextObject.set, Ctx.set_of_ne _ hyx] at hy ⊢
    exact h y hy

/-- What a callback assigns, `asyncio` need not have. -/
theorem ContextObject.Follows.set_actual [DecidableEq V] {t : ContextObject V A} (h : t.Follows)
    (x : V) (a : A) (j : Nat) :
    ContextObject.Follows { t with actual := t.actual.set x a (some j) } := by
  intro y hy
  by_cases hyx : y = x
  · subst hyx
    exact absurd (Ctx.set_self ..) (hy a j)
  · simp only [Ctx.set_of_ne _ hyx] at hy ⊢
    exact h y hy

end

/-- `parents` says which callback made the scheduling call of each job, and
`watchers` lists the jobs of the readers and writers ever added, by slot. -/
structure ContextView (V A : Type) where
  main : Main Scheduled
  contexts : List (ContextObject V A)
  -- What the code outside of callbacks is in, and what it has entered that from.
  home : Nat
  around : List Nat
  -- What the code that runs inside of `run_forever` has entered.
  entered : List Nat
  watchers : List Scheduled
  own : List (Ctx V A)
  parents : List (Option Nat)

/-- The moves of the loop and of the code that runs on it. -/
inductive ContextMove (V A : Type)
  /-- A move that schedules nothing. -/
  | loop (mv : Move Scheduled)
  | callSoon (context : Option Nat)
  | callAt (when : F64) (context : Option Nat)
  | callLater (delay : F64) (context : Option Nat)
  /-- From the loop thread, or from a thread whose context is given. -/
  | callSoonThreadsafe (i : Nat) (foreign : Option (V → Option A)) (context : Option Nat)
  /-- `add_reader` or `add_writer`. -/
  | addWatcher
  /-- The task of a watcher pushes a completion. -/
  | fire (i : Nat) (slot : Nat)
  /-- The code on the loop thread assigns a variable. -/
  | assign (x : V) (a : A)
  /-- Another thread does, inside of a `Context.run` of its own. -/
  | assignAway (c : Nat) (x : V) (a : A)
  /-- The code on the loop thread calls `copy_context()`. -/
  | copyContext
  /-- `contextvars.Context()`. -/
  | newContext
  /-- `run` of a `Context` is called on the loop thread. -/
  | enter (c : Nat)
  /-- It comes back. -/
  | leave

/-- The moves of the machine that bring no new callback into the loop. -/
def Move.plain : Move Scheduled → Bool
  | .op (.callSoon _) | .op (.callAt _ _) | .op (.callLater _ _) | .callSoonThreadsafe _ _
  | .pushIo _ _ => false
  | _ => true

/-- The moves that the loop thread makes itself, and not while code that it has
called is in the way. -/
def Move.driven : Move Scheduled → Bool
  | .run | .runForever | .returns _ | .handled | .timeout => true
  | _ => false

namespace ContextView

variable {V A : Type}

def executing (w : ContextView V A) : Option Scheduled :=
  match w.main.pc with
  | .calling inv _ => some inv.job
  | _ => none

def outside (w : ContextView V A) : Bool :=
  match w.main.pc with
  | .idle => true
  | _ => false

def object (w : ContextView V A) (c : Nat) : ContextObject V A :=
  w.contexts.getD c ⟨fun _ => none, fun _ => none⟩

/-- The context the loop thread calls the callbacks in. -/
def ambient (w : ContextView V A) : Ctx V A := (w.object w.home).actual

def outer (w : ContextView V A) : Ctx V A := (w.object w.home).expected

/-- The context that the code on the loop thread was called in: `invoke_entry`
goes through `Context.run` when the entry has a context and calls directly when
not. -/
def called (w : ContextView V A) : Ctx V A :=
  match w.executing with
  | some ⟨_, some c⟩ => (w.object c).actual
  | _ => w.ambient

def calledReference (w : ContextView V A) : Ctx V A :=
  match w.executing with
  | some ⟨_, some c⟩ => (w.object c).expected
  | some ⟨j, none⟩ => w.own.getD j fun _ => none
  | none => w.outer

/-- The context that code is in: the one it has entered last. -/
def current (w : ContextView V A) : Ctx V A :=
  match w.entered with
  | c :: _ => (w.object c).actual
  | [] => w.called

def reference (w : ContextView V A) : Ctx V A :=
  match w.entered with
  | c :: _ => (w.object c).expected
  | [] => w.calledReference

/-- The values another thread has set, none of them by a callback. -/
def untagged (v : V → Option A) : Ctx V A := fun x => (v x).map fun a => (a, none)

/-- A scheduling call made in the context `values`. -/
def schedule (w : ContextView V A) (values : Ctx V A) (parent : Option Nat) (context : Option Nat)
    (mv : Scheduled → Move Scheduled) : Option (ContextView V A) :=
  (w.main.step (mv ⟨w.own.length, context⟩)).map fun m =>
    { w with main := m, own := w.own ++ [values], parents := w.parents ++ [parent] }

def scheduleHere (w : ContextView V A) (context : Option Nat) (mv : Scheduled → Move Scheduled) :
    Option (ContextView V A) :=
  w.schedule w.reference (w.executing.map Scheduled.id) context mv

variable [DecidableEq V]

/-- An assignment in a `Context` object, in both worlds. -/
def assignIn (w : ContextView V A) (c : Nat) (x : V) (a : A) (by' : Option Nat) :
    ContextView V A :=
  { w with contexts := w.contexts.modify c fun t => t.set x a by' }

/-- `ContextVar.set` on the loop thread, in both worlds. -/
def assign (w : ContextView V A) (x : V) (a : A) : ContextView V A :=
  match w.entered, w.executing with
  | c :: _, job => w.assignIn c x a (job.map Scheduled.id)
  | [], some ⟨j, some c⟩ => w.assignIn c x a (some j)
  | [], some ⟨j, none⟩ =>
      { w with
        contexts := w.contexts.modify w.home fun t => { t with actual := t.actual.set x a (some j) }
        own := w.own.modify j fun v => Ctx.set v x a (some j) }
  | [], none => w.assignIn w.home x a none

/-- The code on the loop thread is inside of a `Context.run` with this one. -/
def Inside (w : ContextView V A) (c : Nat) : Prop :=
  c = w.home ∨ c ∈ w.around ∨ c ∈ w.entered ∨ w.executing.bind Scheduled.context = some c

instance (w : ContextView V A) (c : Nat) : Decidable (w.Inside c) :=
  inferInstanceAs (Decidable (_ ∨ _ ∨ _ ∨ _))

def step (w : ContextView V A) : ContextMove V A → Option (ContextView V A)
  | .loop mv =>
      if mv.plain && (w.entered.isEmpty || !mv.driven) then
        (w.main.step mv).map fun m => { w with main := m }
      else none
  | .callSoon context => w.scheduleHere context fun job => .op (.callSoon job)
  | .callAt when context => w.scheduleHere context fun job => .op (.callAt when job)
  | .callLater delay context => w.scheduleHere context fun job => .op (.callLater delay job)
  | .callSoonThreadsafe i none context =>
      w.scheduleHere context fun job => .callSoonThreadsafe i job
  | .callSoonThreadsafe i (some v) context =>
      w.schedule (untagged v) none context fun job => .callSoonThreadsafe i job
  | .addWatcher =>
      some { w with
        watchers := w.watchers ++ [⟨w.own.length, none⟩]
        own := w.own ++ [w.reference], parents := w.parents ++ [w.executing.map Scheduled.id] }
  | .fire i slot =>
      match w.watchers[slot]? with
      | some job => (w.main.step (.pushIo i (.callback slot job))).map fun m => { w with main := m }
      | none => none
  | .assign x a => some (w.assign x a)
  | .assignAway c x a => if w.Inside c then none else some (w.assignIn c x a none)
  | .copyContext => some { w with contexts := w.contexts ++ [⟨w.current, w.reference⟩] }
  | .newContext =>
      some { w with contexts := w.contexts ++ [⟨fun _ => none, fun _ => none⟩] }
  | .enter c =>
      -- A context that has been entered already raises `RuntimeError`.
      if c < w.contexts.length ∧ ¬w.Inside c then
        some (if w.outside then { w with home := c, around := w.home :: w.around }
          else { w with entered := c :: w.entered })
      else none
  | .leave =>
      if w.outside then
        match w.around with
        | c :: rest => some { w with home := c, around := rest }
        | [] => none
      else
        match w.entered with
        | _ :: rest => some { w with entered := rest }
        | [] => none

def Init (w : ContextView V A) : Prop :=
  ∃ (m : Main Scheduled) (v : V → Option A), m.Fresh ∧
    w = ⟨m, [⟨untagged v, untagged v⟩], 0, [], [], [], [], []⟩

/-- The job has been scheduled and its callback may still be started. -/
inductive Live (w : ContextView V A) (job : Scheduled) : Prop
  | ready {e : ReadyEntry Scheduled} (h : e ∈ w.main.st.ready)
      (hc : w.main.st.isCancelled e = false) (hj : e.callback = job)
  | timer {t : TimerEntry Scheduled} (h : t ∈ w.main.st.timers)
      (hc : w.main.st.isCancelled t.entry = false) (hj : t.entry.callback = job)
  | io {slot : Nat} (h : .callback slot job ∈ w.main.st.io)
      (hd : w.main.st.detached.contains slot = false)
  | watcher {slot : Nat} (h : w.watchers[slot]? = some job)
      (hd : w.main.st.detached.contains slot = false)

/-- `k` is `j` or made the scheduling call of `j` or of one that led to it. -/
inductive Descends (parents : List (Option Nat)) : Nat → Nat → Prop
  | refl (j : Nat) : Descends parents j j
  | step {j p k : Nat} (h : parents[j]? = some (some p)) (hp : Descends parents p k) :
      Descends parents j k

/-- A callback that is executing was called in the context it was scheduled
with, which has its own assignments and none of a callback that did not lead to
it; and in a `Context` that it has entered it sees what it would see there. -/
def Isolated (w : ContextView V A) : Prop :=
  ∀ job, w.executing = some job → job.context = none →
    w.called = w.calledReference ∧ w.current = w.reference ∧
      ∀ x a k, w.called x = some (a, some k) → Descends w.parents job.id k

/-- No context is passed explicitly. -/
def Contextless (_ : ContextView V A) : ContextMove V A → Prop
  | .callSoon context | .callAt _ context | .callLater _ context
  | .callSoonThreadsafe _ _ context => context = none
  | _ => True

/-- The context of the loop thread holds nothing that a callback assigned. -/
def Clean (w : ContextView V A) : Prop := ∀ x a k, w.ambient x ≠ some (a, some k)

/-- If anything is left to run, the code outside of callbacks finds the same
values in this context as in the one it is in. -/
def Settled (w : ContextView V A) (c : Nat) : Prop :=
  ∀ job, w.Live job → (w.object c).actual = w.ambient

/-- The context that callbacks are called in is assigned to only while no other
callback is left to run, and changed for another only while none is or the
values are the same. Scheduling calls are made outside of `Context.run`, from
the code outside of callbacks only while that context is clean, and from other
threads only when their values are those in it. Outside of callbacks it is left
or copied only while it is clean. -/
def Confined (w : ContextView V A) : ContextMove V A → Prop
  | .assign _ _ => w.entered = [] → ∀ job, w.Live job → w.executing = some job
  | .callSoon _ | .callAt _ _ | .callLater _ _ | .callSoonThreadsafe _ none _ | .addWatcher =>
      w.entered = [] ∧ (w.executing = none → w.Clean)
  | .callSoonThreadsafe _ (some v) _ => untagged v = w.ambient
  | .enter c => w.outside = true → w.Settled c
  | .leave => w.outside = true → w.Clean ∧ ∀ c rest, w.around = c :: rest → w.Settled c
  | .copyContext => w.entered = [] → w.executing = none → w.Clean
  | _ => True

abbrev Reach : ContextView V A → Prop := Runs step Contextless Init

abbrev ConfinedReach : ContextView V A → Prop :=
  Runs step (fun w mv => w.Contextless mv ∧ w.Confined mv) Init

/-! ### What the loop can still start -/

section Fewer

/-- Nothing has been added to the queues, and nothing is cancelled or detached
any less. -/
structure Fewer (s s' : LoopState Scheduled) : Prop where
  ready : ∀ e ∈ s'.ready, e ∈ s.ready
  timers : ∀ t ∈ s'.timers, t ∈ s.timers
  io : ∀ c ∈ s'.io, c ∈ s.io
  cancelled : ∀ h, s'.cancelled.contains h = false → s.cancelled.contains h = false
  detached : ∀ i, s'.detached.contains i = false → s.detached.contains i = false

theorem Fewer.of_eq {s s' : LoopState Scheduled} (hready : s'.ready = s.ready)
    (htimers : s'.timers = s.timers) (hio : s'.io = s.io) (hcancelled : s'.cancelled = s.cancelled)
    (hdetached : s'.detached = s.detached) : Fewer s s' :=
  ⟨fun _ h => hready ▸ h, fun _ h => htimers ▸ h, fun _ h => hio ▸ h, fun _ h => hcancelled ▸ h,
    fun _ h => hdetached ▸ h⟩

theorem Fewer.refl (s : LoopState Scheduled) : Fewer s s := .of_eq rfl rfl rfl rfl rfl

theorem contains_of_cons {l : List Nat} {a b : Nat} (h : (a :: l).contains b = false) :
    l.contains b = false := by
  rw [List.contains_cons, Bool.or_eq_false_iff] at h
  exact h.2

theorem batchStep_detached (s : LoopState Scheduled) (b : BatchPc) :
    (batchStep s b).state.detached = s.detached := by
  unfold batchStep
  split
  · rfl
  · rfl
  · split <;> rfl
  · rfl
  · split
    · split <;> rfl
    · rfl
  · split <;> rfl
  · rfl
  · rfl

theorem fewer_batchStep (s : LoopState Scheduled) (b : BatchPc) :
    Fewer s (batchStep s b).state := by
  have ht := batchStep_taken s b
  refine ⟨fun e he => ht.ready.subset he, fun t hm => ht.timers.subset hm,
    fun c hc => ht.io.subset hc, fun h hh => ?_, fun i hi => ?_⟩
  · rwa [ht.handles.2.1] at hh
  · rwa [batchStep_detached] at hi

theorem fewer_op {s : LoopState Scheduled} {o : Op Scheduled} (hp : Move.plain (.op o) = true) :
    Fewer s (o.apply s) := by
  cases o with
  | callSoon cb | callAt when cb | callLater delay cb => cases hp
  | cancel h =>
      exact ⟨fun _ h => h, fun _ h => h, fun _ h => h, fun _ h => contains_of_cons h,
        fun _ h => h⟩
  | detach slot =>
      exact ⟨fun _ h => h, fun _ h => h, fun _ h => h, fun _ h => h,
        fun _ h => contains_of_cons h⟩
  | watchers n => exact .of_eq rfl rfl rfl rfl rfl
  | close =>
      rw [Op.apply_close]
      split
      · exact .refl s
      · exact ⟨fun _ h => absurd h (by simp), fun _ h => absurd h (by simp),
          fun _ h => absurd h (by simp), fun _ h => h, fun _ h => h⟩

theorem fewer_plain {m m' : Main Scheduled} {mv : Move Scheduled} (hp : mv.plain = true)
    (hs : m.step mv = some m') : Fewer m.st m'.st := by
  cases mv with
  | run =>
      cases Main.runStep_of_run hs with
      | quiet hpc => exact fewer_batchStep _ _
      | invoke hpc hinv => exact fewer_batchStep _ _
      | _ => exact .of_eq rfl rfl rfl rfl rfl
  | runForever =>
      obtain ⟨_, _, _, rfl⟩ := Main.step_runForever hs
      exact .refl _
  | returns exc =>
      obtain ⟨_, _, _, ⟨_, rfl⟩ | ⟨_, _, rfl⟩⟩ := Main.step_returns hs
      · exact .refl _
      · exact .refl _
  | handled =>
      obtain ⟨_, _, _, rfl⟩ := Main.step_handled hs
      exact .refl _
  | op o =>
      obtain rfl := Option.some.inj hs
      exact fewer_op hp
  | callSoonThreadsafe i cb => cases hp
  | pushIo i c => cases hp
  | stop i =>
      obtain rfl := Option.some.inj hs
      exact .of_eq rfl rfl rfl rfl rfl
  | notifyOne i =>
      rw [Main.step_notifyOne hs]
      show Fewer m.st m.notifyOne.st
      rw [Main.st_notifyOne]
      exact .refl _
  | tick d =>
      obtain ⟨_, rfl⟩ := Main.step_tick hs
      exact .of_eq rfl rfl rfl rfl rfl
  | timeout =>
      obtain ⟨_, _, _, rfl⟩ := Main.step_timeout hs
      exact .refl _

end Fewer

omit [DecidableEq V] in
/-- What may be started depends on the loop and the watchers only. -/
theorem Live.congr {w w' : ContextView V A} {job : Scheduled} (h : w'.Live job)
    (hmain : w'.main = w.main) (hwatchers : w'.watchers = w.watchers) : w.Live job := by
  cases h with
  | ready h hc hj =>
      rw [hmain] at h hc
      exact .ready h hc hj
  | timer h hc hj =>
      rw [hmain] at h hc
      exact .timer h hc hj
  | io h hd =>
      rw [hmain] at h hd
      exact .io h hd
  | watcher h hd =>
      rw [hwatchers] at h
      rw [hmain] at hd
      exact .watcher h hd

omit [DecidableEq V] in
theorem executing_congr {w w' : ContextView V A} (hmain : w'.main = w.main) :
    w'.executing = w.executing := by
  unfold executing
  rw [hmain]

omit [DecidableEq V] in
theorem Live.of_fewer {w : ContextView V A} {m : Main Scheduled} {job : Scheduled}
    (hf : Fewer w.main.st m.st) (h : Live { w with main := m } job) : w.Live job := by
  cases h with
  | ready h hc hj => exact .ready (hf.ready _ h) (hf.cancelled _ hc) hj
  | timer h hc hj => exact .timer (hf.timers _ h) (hf.cancelled _ hc) hj
  | io h hd => exact .io (hf.io _ h) (hf.detached _ hd)
  | watcher h hd => exact .watcher h (hf.detached _ hd)

/-- A batch starts only jobs that are live. -/
theorem invoke_live {s : LoopState Scheduled} {b : BatchPc} {inv : Invocation Scheduled}
    (h : (batchStep s b).invoke = some inv) :
    (∃ e ∈ s.ready, s.isCancelled e = false ∧ e.callback = inv.job) ∨
      (∃ t ∈ s.timers, s.isCancelled t.entry = false ∧ t.entry.callback = inv.job) ∨
      (∃ slot, .callback slot inv.job ∈ s.io ∧ s.detached.contains slot = false) ∨
      ∃ slot d, .data slot inv.job d ∈ s.io := by
  cases b with
  | ready n =>
      cases n with
      | zero => cases h
      | succ n =>
          simp only [batchStep] at h
          split at h
          · cases h
          · rename_i e rest hready
            split at h
            · cases h
            · rename_i hc
              cases h
              exact Or.inl ⟨e, hready ▸ List.mem_cons_self, Bool.eq_false_iff.mpr hc, rfl⟩
  | timers now =>
      simp only [batchStep] at h
      split at h
      · rename_i top hpeek
        split at h
        · split at h
          · cases h
          · rename_i hc
            cases h
            exact Or.inr (Or.inl ⟨top, LoopState.peek_mem hpeek, Bool.eq_false_iff.mpr hc, rfl⟩)
        · cases h
      · cases h
  | io =>
      simp only [batchStep] at h
      split at h
      · cases h
      · rename_i slot cb rest hio
        split at h
        · cases h
        · rename_i hd
          cases h
          exact Or.inr (Or.inr (Or.inl ⟨slot, hio ▸ List.mem_cons_self,
            Bool.eq_false_iff.mpr hd⟩))
      · rename_i slot drain d rest hio
        cases h
        exact Or.inr (Or.inr (Or.inr ⟨slot, d, hio ▸ List.mem_cons_self⟩))
  | begin | sample | release slot | finished => cases h

omit [DecidableEq V] in
/-- Whoever executes after a plain move was executing before or was live. -/
theorem executing_of_plain {w : ContextView V A} {m : Main Scheduled} {mv : Move Scheduled}
    {job : Scheduled} (hp : mv.plain = true) (hs : w.main.step mv = some m)
    (hdata : ∀ slot d, .data slot job d ∉ w.main.st.io)
    (h : executing { w with main := m } = some job) : w.executing = some job ∨ w.Live job := by
  have hcall : ∃ inv b, m.pc = .calling inv b ∧ inv.job = job := by
    unfold executing at h
    split at h
    · rename_i inv b hpc
      exact ⟨inv, b, hpc, Option.some.inj h⟩
    · cases h
  obtain ⟨inv, b, hpc', rfl⟩ := hcall
  have hkeep : m.pc = w.main.pc → w.executing = some inv.job := by
    intro heq
    unfold executing
    rw [← heq, hpc']
  cases mv with
  | run =>
      cases Main.runStep_of_run hs with
      | @invoke b' inv' hpc hinv =>
          cases hpc'
          refine Or.inr ?_
          rcases invoke_live hinv with ⟨e, he, hc, hj⟩ | ⟨t, ht, hc, hj⟩ | ⟨slot, hio, hd⟩ |
            ⟨slot, d, hio⟩
          · exact .ready he hc hj
          · exact .timer ht hc hj
          · exact .io hio hd
          · exact absurd hio (hdata slot d)
      | again hpc hnext => rcases hnext with rfl | rfl <;> cases hpc'
      | _ => cases hpc'
  | runForever =>
      obtain ⟨_, _, _, rfl⟩ := Main.step_runForever hs
      cases hpc'
  | returns exc =>
      obtain ⟨_, _, _, ⟨_, rfl⟩ | ⟨_, _, rfl⟩⟩ := Main.step_returns hs
      · cases hpc'
      · cases hpc'
  | handled =>
      obtain ⟨_, _, _, rfl⟩ := Main.step_handled hs
      cases hpc'
  | op o =>
      obtain rfl := Option.some.inj hs
      exact Or.inl (hkeep rfl)
  | callSoonThreadsafe i cb => cases hp
  | pushIo i c => cases hp
  | stop i =>
      obtain rfl := Option.some.inj hs
      exact Or.inl (hkeep rfl)
  | notifyOne i =>
      rw [Main.step_notifyOne hs] at hpc' hkeep
      refine Or.inl (hkeep ?_)
      show w.main.notifyOne.pc = w.main.pc
      replace hpc' : w.main.notifyOne.pc = _ := hpc'
      unfold Main.notifyOne at hpc' ⊢
      split at hpc'
      · cases hpc'
      · rfl
  | tick d =>
      obtain ⟨_, rfl⟩ := Main.step_tick hs
      exact Or.inl (hkeep rfl)
  | timeout =>
      obtain ⟨_, _, _, rfl⟩ := Main.step_timeout hs
      cases hpc'

/-! ### The two worlds agree -/

/-- The invariant of a confined run: everything that is executing or may still
be started has the values of the loop thread as its own context. -/
structure Agrees (w : ContextView V A) : Prop where
  parents_length : w.parents.length = w.own.length
  callbacks : ∀ slot drain d, .data slot drain d ∉ w.main.st.io
  live : ∀ job, w.Live job → job.context = none ∧ w.own[job.id]? = some w.ambient
  exec : ∀ job, w.executing = some job → job.context = none ∧ w.own[job.id]? = some w.ambient
  objects : ∀ t ∈ w.contexts, t.Follows
  known : ∀ c, c = w.home ∨ c ∈ w.around → c < w.contexts.length
  -- What is entered inside of `run_forever` is not what that is called in.
  apart : ∀ c ∈ w.entered, c ≠ w.home ∧ c ∉ w.around
  -- Nothing leaks into the others.
  same : ∀ c, c ≠ w.home → c ∉ w.around → (w.object c).actual = (w.object c).expected
  tags : ∀ (j : Nat) (c : Ctx V A), w.own[j]? = some c →
    ∀ x a k, c x = some (a, some k) → Descends w.parents j k

theorem Descends.append {parents : List (Option Nat)} {j k : Nat} (h : Descends parents j k)
    (l : List (Option Nat)) : Descends (parents ++ l) j k := by
  induction h with
  | refl j => exact .refl j
  | step h _ ih =>
      refine .step ?_ ih
      rw [List.getElem?_append_left (List.getElem?_eq_some_iff.mp h).1, h]

section Agrees

variable {w : ContextView V A}

omit [DecidableEq V] in
theorem Agrees.called_of_executing (h : w.Agrees) {job : Scheduled}
    (he : w.executing = some job) : w.called = w.ambient := by
  obtain ⟨hc, -⟩ := h.exec job he
  obtain ⟨id, context⟩ := job
  cases hc
  unfold called
  rw [he]

omit [DecidableEq V] in
theorem Agrees.calledReference_of_executing (h : w.Agrees) {job : Scheduled}
    (he : w.executing = some job) : w.calledReference = w.ambient := by
  obtain ⟨hc, hown⟩ := h.exec job he
  obtain ⟨id, context⟩ := job
  cases hc
  unfold calledReference
  rw [he]
  show w.own.getD id _ = _
  rw [List.getD_eq_getElem?_getD, hown]
  rfl

omit [DecidableEq V] in
theorem Agrees.object_follows (h : w.Agrees) (c : Nat) : (w.object c).Follows := by
  unfold object
  rw [List.getD_eq_getElem?_getD]
  cases hc : w.contexts[c]? with
  | none => exact fun _ _ => rfl
  | some t => exact h.objects t (List.mem_of_getElem? hc)

omit [DecidableEq V] in
theorem Agrees.home_same (h : w.Agrees) (hclean : w.Clean) :
    (w.object w.home).actual = (w.object w.home).expected :=
  funext fun x => (h.object_follows w.home x (hclean x)).symm

omit [DecidableEq V] in
/-- What code on the loop thread sees is what it would see. -/
theorem Agrees.current_eq (h : w.Agrees)
    (hok : w.entered = [] → w.executing = none → w.Clean) : w.current = w.reference := by
  unfold current reference
  cases hentered : w.entered with
  | cons c rest =>
      obtain ⟨hhome, haround⟩ := h.apart c (hentered ▸ List.mem_cons_self)
      exact h.same c hhome haround
  | nil =>
      cases he : w.executing with
      | some job =>
          show w.called = w.calledReference
          rw [h.called_of_executing he, h.calledReference_of_executing he]
      | none =>
          show w.called = w.calledReference
          unfold called calledReference
          rw [he]
          exact h.home_same (hok hentered he)

omit [DecidableEq V] in
/-- A scheduling call outside of `Context.run` passes on the values that
callbacks are called with. -/
theorem Agrees.reference_eq (h : w.Agrees) (hok : w.entered = [] ∧ (w.executing = none → w.Clean)) :
    w.reference = w.ambient := by
  rw [← h.current_eq fun _ => hok.2]
  unfold current
  rw [hok.1]
  cases he : w.executing with
  | some job => exact h.called_of_executing he
  | none =>
      show w.called = w.ambient
      unfold called
      rw [he]

omit [DecidableEq V] in
/-- What the loop thread passes on comes from those that led to the caller. -/
theorem Agrees.reference_tags (h : w.Agrees)
    (hok : w.entered = [] ∧ (w.executing = none → w.Clean)) {x : V} {a : A} {k : Nat}
    (hx : w.reference x = some (a, some k)) :
    ∃ p, w.executing.map Scheduled.id = some p ∧ Descends w.parents p k := by
  rw [h.reference_eq hok] at hx
  cases he : w.executing with
  | none => exact absurd hx (hok.2 he x a k)
  | some job => exact ⟨job.id, rfl, h.tags _ _ (h.exec job he).2 x a k hx⟩

omit [DecidableEq V] in
/-- A move of the loop that brings in no callback. -/
theorem Agrees.plain (h : w.Agrees) {m : Main Scheduled} {mv : Move Scheduled}
    (hp : mv.plain = true) (hs : w.main.step mv = some m) : Agrees { w with main := m } := by
  have hf := fewer_plain hp hs
  refine ⟨h.parents_length, fun slot drain d hd => h.callbacks slot drain d (hf.io _ hd),
    fun job hl => h.live job (hl.of_fewer hf), fun job he => ?_, h.objects, h.known, h.apart,
    h.same, h.tags⟩
  rcases executing_of_plain hp hs (fun slot d => h.callbacks slot job d) he with he | hl
  · exact h.exec job he
  · exact h.live job hl

omit [DecidableEq V] in
/-- A scheduling call: the new job starts out with the values of the loop
thread. -/
theorem Agrees.scheduled (h : w.Agrees) {m : Main Scheduled} (ws : List Scheduled)
    {values : Ctx V A} {parent : Option Nat} (hv : values = w.ambient)
    (htags : ∀ x a k, values x = some (a, some k) →
      ∃ p, parent = some p ∧ Descends w.parents p k)
    (hpc : m.pc = w.main.pc) (hio : ∀ slot drain d, .data slot drain d ∉ m.st.io)
    (hlive : ∀ job, Live { w with main := m, watchers := ws } job →
      w.Live job ∨ job = ⟨w.own.length, none⟩) :
    Agrees { w with main := m, watchers := ws, own := w.own ++ [values],
                    parents := w.parents ++ [parent] } := by
  have hkeep : ∀ (j : Nat) (c : Ctx V A), w.own[j]? = some c →
      (w.own ++ [values])[j]? = some c := by
    intro j c hc
    rw [List.getElem?_append_left (List.getElem?_eq_some_iff.mp hc).1, hc]
  refine ⟨?_, hio, fun job hl => ?_, fun job he => ?_, h.objects, h.known, h.apart, h.same,
    fun j c hc x a k hx => ?_⟩
  · simp [h.parents_length]
  · have hl' : Live { w with main := m, watchers := ws } job := hl.congr rfl rfl
    rcases hlive job hl' with hold | rfl
    · obtain ⟨hc, hown⟩ := h.live job hold
      exact ⟨hc, hkeep _ _ hown⟩
    · refine ⟨rfl, ?_⟩
      show (w.own ++ [values])[w.own.length]? = _
      rw [List.getElem?_concat_length, hv]
      rfl
  · have he' : w.executing = some job := by
      unfold executing at he ⊢
      rwa [← hpc]
    obtain ⟨hc, hown⟩ := h.exec job he'
    exact ⟨hc, hkeep _ _ hown⟩
  · rcases Nat.lt_trichotomy j w.own.length with hlt | rfl | hgt
    · rw [List.getElem?_append_left hlt] at hc
      exact (h.tags j c hc x a k hx).append _
    · rw [List.getElem?_concat_length] at hc
      injection hc with hc
      subst hc
      obtain ⟨p, rfl, hp⟩ := htags x a k hx
      refine .step ?_ (hp.append _)
      rw [← h.parents_length, List.getElem?_concat_length]
    · rw [List.getElem?_eq_none (by simp; omega)] at hc
      cases hc

end Agrees

section Steps

variable {w : ContextView V A}

omit [DecidableEq V] in
theorem live_pushReady {m : Main Scheduled} {job job' : Scheduled} {ts : Bool}
    (hst : m.st = w.main.st.pushReady job ts) (h : Live { w with main := m } job') :
    w.Live job' ∨ job' = job := by
  cases h with
  | ready h hc hj =>
      replace h : _ ∈ m.st.ready := h
      replace hc : m.st.cancelled.contains _ = false := hc
      rw [hst] at h hc
      rcases List.mem_append.mp h with hold | hnew
      · exact Or.inl (.ready hold hc hj)
      · rw [List.mem_singleton.mp hnew] at hj
        exact Or.inr hj.symm
  | timer h hc hj =>
      replace h : _ ∈ m.st.timers := h
      replace hc : m.st.cancelled.contains _ = false := hc
      rw [hst] at h hc
      exact Or.inl (.timer h hc hj)
  | io h hd =>
      replace h : _ ∈ m.st.io := h
      replace hd : m.st.detached.contains _ = false := hd
      rw [hst] at h hd
      exact Or.inl (.io h hd)
  | watcher h hd =>
      replace hd : m.st.detached.contains _ = false := hd
      rw [hst] at hd
      exact Or.inl (.watcher h hd)

omit [DecidableEq V] in
theorem live_pushTimer {m : Main Scheduled} {job job' : Scheduled} {when : F64}
    (hst : m.st = w.main.st.pushTimer when job) (h : Live { w with main := m } job') :
    w.Live job' ∨ job' = job := by
  cases h with
  | ready h hc hj =>
      replace h : _ ∈ m.st.ready := h
      replace hc : m.st.cancelled.contains _ = false := hc
      rw [hst] at h hc
      exact Or.inl (.ready h hc hj)
  | timer h hc hj =>
      replace h : _ ∈ m.st.timers := h
      replace hc : m.st.cancelled.contains _ = false := hc
      rw [hst] at h hc
      rcases List.mem_cons.mp h with rfl | hold
      · exact Or.inr hj.symm
      · exact Or.inl (.timer hold hc hj)
  | io h hd =>
      replace h : _ ∈ m.st.io := h
      replace hd : m.st.detached.contains _ = false := hd
      rw [hst] at h hd
      exact Or.inl (.io h hd)
  | watcher h hd =>
      replace hd : m.st.detached.contains _ = false := hd
      rw [hst] at hd
      exact Or.inl (.watcher h hd)

/-- The machine after one of the calls that schedule a job. -/
def Schedules (m m' : Main Scheduled) (job : Scheduled) : Prop :=
  m'.pc = m.pc ∧ (m'.st = m.st ∨ (∃ ts, m'.st = m.st.pushReady job ts) ∨
    ∃ when, m'.st = m.st.pushTimer when job)

omit [DecidableEq V] in
theorem Agrees.schedule {w' : ContextView V A} (h : w.Agrees) {values : Ctx V A}
    {parent : Option Nat} {mv : Scheduled → Move Scheduled} (hv : values = w.ambient)
    (htags : ∀ x a k, values x = some (a, some k) →
      ∃ p, parent = some p ∧ Descends w.parents p k)
    (hmv : ∀ job m, w.main.step (mv job) = some m → Schedules w.main m job)
    (hs : w.schedule values parent none mv = some w') : w'.Agrees := by
  obtain ⟨m, hm, rfl⟩ := Option.map_eq_some_iff.mp hs
  obtain ⟨hpc, hst⟩ := hmv _ m hm
  refine h.scheduled w.watchers hv htags hpc (fun slot drain d hd => ?_) fun job hl => ?_
  · rcases hst with hst | ⟨ts, hst⟩ | ⟨when, hst⟩
    all_goals rw [hst] at hd; exact h.callbacks slot drain d hd
  · rcases hst with hst | ⟨ts, hst⟩ | ⟨when, hst⟩
    · refine Or.inl (hl.of_fewer ?_)
      rw [hst]
      exact .refl _
    · exact live_pushReady hst hl
    · exact live_pushTimer hst hl

omit [DecidableEq V] in
theorem Agrees.scheduleHere {w' : ContextView V A} (h : w.Agrees) {mv : Scheduled → Move Scheduled}
    (hok : w.entered = [] ∧ (w.executing = none → w.Clean))
    (hmv : ∀ job m, w.main.step (mv job) = some m → Schedules w.main m job)
    (hs : w.scheduleHere none mv = some w') : w'.Agrees :=
  h.schedule (h.reference_eq hok) (fun _ _ _ hx => h.reference_tags hok hx) hmv hs

theorem schedules_callSoon {m m' : Main Scheduled} {job : Scheduled}
    (h : m.step (.op (.callSoon job)) = some m') : Schedules m m' job := by
  obtain rfl := Option.some.inj h
  refine ⟨rfl, ?_⟩
  show (Op.callSoon job).apply m.st = _ ∨ _
  rw [Op.apply_callSoon]
  split
  · exact Or.inl rfl
  · exact Or.inr (Or.inl ⟨false, rfl⟩)

theorem schedules_callAt {m m' : Main Scheduled} {job : Scheduled} {when : F64}
    (h : m.step (.op (.callAt when job)) = some m') : Schedules m m' job := by
  obtain rfl := Option.some.inj h
  refine ⟨rfl, ?_⟩
  show (Op.callAt when job).apply m.st = _ ∨ _
  rw [Op.apply_callAt]
  split
  · exact Or.inl rfl
  · exact Or.inr (Or.inr ⟨when, rfl⟩)

theorem schedules_threadsafe {m m' : Main Scheduled} {job : Scheduled} {i : Nat}
    (h : m.step (.callSoonThreadsafe i job) = some m') : Schedules m m' job := by
  rw [Main.step_callSoonThreadsafe h]
  exact ⟨rfl, Or.inr (Or.inl ⟨true, rfl⟩)⟩

omit [DecidableEq V] in
theorem Agrees.objects_modify (h : w.Agrees) {c : Nat} {f : ContextObject V A → ContextObject V A}
    (hf : ∀ t, t.Follows → (f t).Follows) : ∀ t ∈ w.contexts.modify c f, t.Follows := by
  intro t ht
  obtain ⟨i, hi⟩ := List.mem_iff_getElem?.mp ht
  by_cases hic : i = c
  · subst hic
    rw [List.getElem?_modify_eq] at hi
    obtain ⟨t', ht', rfl⟩ := Option.map_eq_some_iff.mp hi
    exact hf t' (h.objects t' (List.mem_of_getElem? ht'))
  · rw [List.getElem?_modify_ne _ _ (Ne.symm hic)] at hi
    exact h.objects t (List.mem_of_getElem? hi)

omit [DecidableEq V] in
theorem Agrees.known_modify (h : w.Agrees) (c : Nat)
    (f : ContextObject V A → ContextObject V A) (i : Nat) (hi : i = w.home ∨ i ∈ w.around) :
    i < (w.contexts.modify c f).length := by
  rw [List.length_modify]
  exact h.known i hi

omit [DecidableEq V] in
theorem Agrees.same_modify (h : w.Agrees) {c : Nat} {f : ContextObject V A → ContextObject V A}
    (hf : c ≠ w.home → ∀ t, t.actual = t.expected → (f t).actual = (f t).expected) (i : Nat)
    (hi : i ≠ w.home) (haround : i ∉ w.around) :
    (object { w with contexts := w.contexts.modify c f } i).actual =
      (object { w with contexts := w.contexts.modify c f } i).expected := by
  have hsame := h.same i hi haround
  unfold object at hsame ⊢
  simp only [List.getD_eq_getElem?_getD] at hsame ⊢
  by_cases hic : i = c
  · subst hic
    rw [List.getElem?_modify_eq]
    cases ht : w.contexts[i]? with
    | none => rfl
    | some t =>
        rw [ht] at hsame
        exact hf hi t hsame
  · rw [List.getElem?_modify_ne _ _ (Ne.symm hic)]
    exact hsame

/-- An assignment in a context that callbacks are not called in. -/
theorem Agrees.assignIn (h : w.Agrees) {c : Nat} (hc : c ≠ w.home) (x : V) (a : A)
    (by' : Option Nat) : (w.assignIn c x a by').Agrees := by
  have hambient : (w.assignIn c x a by').ambient = w.ambient := by
    unfold ambient object ContextView.assignIn
    simp only [List.getD_eq_getElem?_getD]
    rw [List.getElem?_modify_ne _ _ hc]
  refine ⟨h.parents_length, h.callbacks, fun job hl => ?_, fun job he => ?_,
    h.objects_modify fun t ht => ht.set x a _, h.known_modify c _, h.apart,
    h.same_modify fun _ t ht => ContextObject.set_same ht x a _, h.tags⟩
  · rw [hambient]
    exact h.live job (hl.congr rfl rfl)
  · rw [hambient]
    exact h.exec job he

/-- Outside of callbacks, with nothing left to start. -/
theorem Agrees.assign_outside (h : w.Agrees) (he : w.executing = none)
    (hnone : ∀ job, ¬w.Live job) (x : V) (a : A) : (w.assignIn w.home x a none).Agrees := by
  refine ⟨h.parents_length, h.callbacks, fun job hl => (hnone job (hl.congr rfl rfl)).elim,
    fun job hj => ?_, h.objects_modify fun t ht => ht.set x a _, h.known_modify w.home _, h.apart,
    h.same_modify fun _ t ht => ContextObject.set_same ht x a _, h.tags⟩
  cases he.symm.trans hj

/-- A callback's assignment carries its tag, in its own context only. -/
theorem Agrees.tags_modify (h : w.Agrees) {x : V} {a : A} {id j : Nat} {c : Ctx V A}
    (hc : (w.own.modify id fun v => Ctx.set v x a (some id))[j]? = some c) {y : V} {b : A} {k : Nat}
    (hy : c y = some (b, some k)) : Descends w.parents j k := by
  by_cases hj : j = id
  · subst hj
    rw [List.getElem?_modify_eq] at hc
    obtain ⟨v, hv, rfl⟩ := Option.map_eq_some_iff.mp hc
    by_cases hyx : y = x
    · subst hyx
      simp only [Ctx.set_self, Option.some.injEq, Prod.mk.injEq] at hy
      rw [← hy.2]
      exact .refl j
    · rw [Ctx.set_of_ne _ hyx] at hy
      exact h.tags j v hv y b k hy
  · rw [List.getElem?_modify_ne _ _ (Ne.symm hj)] at hc
    exact h.tags j c hc y b k hy

/-- A callback that is the only one left assigns to the context it was called
in, which is its own. -/
theorem Agrees.assign_inside (h : w.Agrees) {x : V} {a : A} {job : Scheduled}
    (hentered : w.entered = []) (he : w.executing = some job)
    (honly : ∀ job', w.Live job' → job' = job) : (w.assign x a).Agrees := by
  obtain ⟨hc, hown⟩ := h.exec job he
  obtain ⟨id, context⟩ := job
  cases hc
  have heq : w.assign x a = { w with
      contexts := w.contexts.modify w.home fun t => { t with actual := t.actual.set x a (some id) }
      own := w.own.modify id fun v => Ctx.set v x a (some id) } := by
    unfold ContextView.assign
    rw [hentered, he]
  have hnew : (w.own.modify id fun v => Ctx.set v x a (some id))[id]? =
      some (w.ambient.set x a (some id)) := by
    rw [List.getElem?_modify_eq, hown]
    rfl
  have hambient : (w.assign x a).ambient = w.ambient.set x a (some id) := by
    rw [heq]
    unfold ambient object
    simp only [List.getD_eq_getElem?_getD, List.getElem?_modify_eq]
    rw [List.getElem?_eq_getElem (h.known _ (.inl rfl))]
    rfl
  refine ⟨?_, ?_, fun job hl => ?_, fun job hj => ?_, ?_, ?_, ?_, ?_, ?_⟩
  · rw [heq]
    simp [h.parents_length]
  · rw [heq]
    exact h.callbacks
  · obtain rfl := honly job (hl.congr (by rw [heq]) (by rw [heq]))
    rw [hambient, heq]
    exact ⟨rfl, hnew⟩
  · rw [executing_congr (w := w) (by rw [heq]), he] at hj
    cases hj
    rw [hambient, heq]
    exact ⟨rfl, hnew⟩
  · rw [heq]
    exact h.objects_modify fun t ht => ht.set_actual x a id
  · rw [heq]
    exact h.known_modify w.home _
  · rw [heq]
    exact h.apart
  · rw [heq]
    exact h.same_modify fun hne => absurd rfl hne
  · rw [heq]
    exact fun j c hc y b k hy => h.tags_modify hc hy

theorem Agrees.assign (h : w.Agrees) {x : V} {a : A}
    (hok : w.entered = [] → ∀ job, w.Live job → w.executing = some job) :
    (w.assign x a).Agrees := by
  cases hentered : w.entered with
  | cons c rest =>
      have heq : w.assign x a = w.assignIn c x a (w.executing.map Scheduled.id) := by
        unfold ContextView.assign
        rw [hentered]
      rw [heq]
      exact h.assignIn (h.apart c (hentered ▸ List.mem_cons_self)).1 x a _
  | nil =>
      cases he : w.executing with
      | none =>
          have heq : w.assign x a = w.assignIn w.home x a none := by
            unfold ContextView.assign
            rw [hentered, he]
          rw [heq]
          exact h.assign_outside he (fun job hl => by simpa [he] using hok hentered job hl) x a
      | some job =>
          refine h.assign_inside hentered he fun job' hl => ?_
          have hjob := hok hentered job' hl
          rw [he] at hjob
          exact (Option.some.inj hjob).symm

omit [DecidableEq V] in
theorem Agrees.newObject (h : w.Agrees) {t : ContextObject V A} (ht : t.actual = t.expected) :
    Agrees { w with contexts := w.contexts ++ [t] } := by
  have hambient : ambient { w with contexts := w.contexts ++ [t] } = w.ambient := by
    unfold ambient object
    simp only [List.getD_eq_getElem?_getD]
    rw [List.getElem?_append_left (h.known _ (.inl rfl))]
  refine ⟨h.parents_length, h.callbacks, fun job hl => ?_, fun job he => ?_, fun t' ht' => ?_,
    fun i hi => ?_, h.apart, fun i hi haround => ?_, h.tags⟩
  · rw [hambient]
    exact h.live job (hl.congr rfl rfl)
  · rw [hambient]
    exact h.exec job he
  · rcases List.mem_append.mp ht' with hold | hnew
    · exact h.objects t' hold
    · exact List.mem_singleton.mp hnew ▸ fun x _ => congrFun ht.symm x
  · rw [List.length_append]
    exact Nat.lt_add_right _ (h.known i hi)
  · have hsame := h.same i hi haround
    unfold object at hsame ⊢
    simp only [List.getD_eq_getElem?_getD] at hsame ⊢
    rcases Nat.lt_trichotomy i w.contexts.length with hlt | rfl | hgt
    · rwa [List.getElem?_append_left hlt]
    · rw [List.getElem?_concat_length]
      exact ht
    · rw [List.getElem?_eq_none (by simp; omega)]
      rfl

omit [DecidableEq V] in
/-- The code outside of callbacks changes the context that they are called
in. -/
theorem Agrees.moved (h : w.Agrees) {c : Nat} {around : List Nat} (he : w.executing = none)
    (hok : w.Settled c) (hknown : ∀ i, i = c ∨ i ∈ around → i < w.contexts.length)
    (hapart : ∀ i ∈ w.entered, i ≠ c ∧ i ∉ around)
    (hsame : ∀ i, i ≠ c → i ∉ around → (w.object i).actual = (w.object i).expected) :
    Agrees { w with home := c, around := around } := by
  refine ⟨h.parents_length, h.callbacks, fun job hl => ?_, fun job hj => ?_, h.objects, hknown,
    hapart, hsame, h.tags⟩
  · have hl' : w.Live job := hl.congr rfl rfl
    show _ ∧ w.own[job.id]? = some (w.object c).actual
    rw [hok job hl']
    exact h.live job hl'
  · cases he.symm.trans hj

omit [DecidableEq V] in
theorem executing_of_outside (h : w.outside = true) : w.executing = none := by
  unfold outside at h
  unfold executing
  split at h
  · rename_i hpc
    rw [hpc]
  · cases h

omit [DecidableEq V] in
theorem Agrees.enter {w' : ContextView V A} {c : Nat} (h : w.Agrees)
    (hok : w.outside = true → w.Settled c) (hlt : c < w.contexts.length) (hno : ¬w.Inside c)
    (hs : (if w.outside then { w with home := c, around := w.home :: w.around }
      else { w with entered := c :: w.entered }) = w') : w'.Agrees := by
  unfold Inside at hno
  split at hs
  · rename_i hout
    subst hs
    refine h.moved (executing_of_outside hout) (hok hout) (fun i hi => ?_) (fun i hi => ?_)
      fun i _ haround => ?_
    · rcases hi with rfl | hi
      · exact hlt
      · exact h.known i (List.mem_cons.mp hi)
    · obtain ⟨hhome, haround⟩ := h.apart i hi
      refine ⟨fun hic => hno (.inr (.inr (.inl (hic ▸ hi)))), fun hmem => ?_⟩
      rcases List.mem_cons.mp hmem with hmem | hmem
      · exact hhome hmem
      · exact haround hmem
    · rw [List.mem_cons, not_or] at haround
      exact h.same i haround.1 haround.2
  · subst hs
    refine { h with live := fun job hl => h.live job (hl.congr rfl rfl), apart := fun i hi => ?_ }
    rcases List.mem_cons.mp hi with rfl | hi
    · exact ⟨fun hi => hno (.inl hi), fun hi => hno (.inr (.inl hi))⟩
    · exact h.apart i hi

omit [DecidableEq V] in
theorem Agrees.leave_outside {c : Nat} {rest : List Nat} (h : w.Agrees) (hout : w.outside = true)
    (hclean : w.Clean) (hok : w.Settled c) (haround : w.around = c :: rest) :
    Agrees { w with home := c, around := rest } := by
  have hmem : ∀ i, i = c ∨ i ∈ rest → i ∈ w.around := by
    intro i hi
    rw [haround]
    exact List.mem_cons.mpr hi
  refine h.moved (executing_of_outside hout) hok (fun i hi => h.known i (.inr (hmem i hi)))
    (fun i hi => ?_) fun i hic hrest => ?_
  · have hapart := (h.apart i hi).2
    exact ⟨fun hic => hapart (hmem i (.inl hic)), fun hrest => hapart (hmem i (.inr hrest))⟩
  · by_cases hhome : i = w.home
    · exact hhome ▸ h.home_same hclean
    · refine h.same i hhome fun hi => ?_
      rw [haround] at hi
      exact (List.mem_cons.mp hi).elim hic hrest

omit [DecidableEq V] in
theorem Agrees.leave_inside {c : Nat} {rest : List Nat} (h : w.Agrees)
    (hentered : w.entered = c :: rest) : Agrees { w with entered := rest } :=
  { h with
    live := fun job hl => h.live job (hl.congr rfl rfl)
    apart := fun i hi => h.apart i (hentered ▸ List.mem_cons_of_mem c hi) }

omit [DecidableEq V] in
/-- Registering a watcher: its job is live from now on. -/
theorem Agrees.addWatcher (h : w.Agrees)
    (hok : w.entered = [] ∧ (w.executing = none → w.Clean)) :
    Agrees { w with
      watchers := w.watchers ++ [⟨w.own.length, none⟩]
      own := w.own ++ [w.reference], parents := w.parents ++ [w.executing.map Scheduled.id] } := by
  refine h.scheduled (m := w.main) _ (h.reference_eq hok)
    (fun x a k hx => h.reference_tags hok hx) rfl h.callbacks fun job hl => ?_
  cases hl with
  | ready h hc hj => exact Or.inl (.ready h hc hj)
  | timer h hc hj => exact Or.inl (.timer h hc hj)
  | io h hd => exact Or.inl (.io h hd)
  | watcher hws hd =>
      replace hws : (w.watchers ++ [_])[_]? = some job := hws
      rw [List.getElem?_append] at hws
      split at hws
      · exact Or.inl (.watcher hws hd)
      · exact Or.inr (List.mem_singleton.mp (List.mem_of_getElem? hws))

omit [DecidableEq V] in
/-- A completion of a watcher makes no job live that was not. -/
theorem Agrees.fire (h : w.Agrees) {i slot : Nat} {job : Scheduled} {m : Main Scheduled}
    (hw : w.watchers[slot]? = some job)
    (hs : w.main.step (.pushIo i (.callback slot job)) = some m) : Agrees { w with main := m } := by
  obtain rfl := Option.some.inj hs
  refine ⟨h.parents_length, fun s drain d hd => ?_, fun job' hl => h.live job' ?_, h.exec,
    h.objects, h.known, h.apart, h.same, h.tags⟩
  · rcases List.mem_append.mp hd with hold | hnew
    · exact h.callbacks s drain d hold
    · simp at hnew
  · cases hl with
    | ready h hc hj => exact .ready h hc hj
    | timer h hc hj => exact .timer h hc hj
    | watcher h hd => exact .watcher h hd
    | io hio hd =>
        rcases List.mem_append.mp hio with hold | hnew
        · exact .io hold hd
        · have heq := List.mem_singleton.mp hnew
          injection heq with hslot hjob
          subst hslot hjob
          exact .watcher hw hd

theorem agrees_step {w' : ContextView V A} {mv : ContextMove V A} (h : w.Agrees)
    (hnone : w.Contextless mv) (hok : w.Confined mv) (hs : w.step mv = some w') : w'.Agrees := by
  cases mv with
  | loop mv =>
      simp only [step] at hs
      split at hs
      · rename_i hp
        obtain ⟨m, hm, rfl⟩ := Option.map_eq_some_iff.mp hs
        exact h.plain (Bool.and_eq_true_iff.mp hp).1 hm
      · cases hs
  | callSoon context =>
      cases hnone
      exact h.scheduleHere hok (fun _ _ => schedules_callSoon) hs
  | callAt when context =>
      cases hnone
      exact h.scheduleHere hok (fun _ _ => schedules_callAt) hs
  | callLater delay context =>
      cases hnone
      exact h.scheduleHere hok (fun _ _ => schedules_callAt) hs
  | callSoonThreadsafe i foreign context =>
      cases hnone
      cases foreign with
      | none => exact h.scheduleHere hok (fun _ _ => schedules_threadsafe) hs
      | some v =>
          refine h.schedule hok (fun x a k hx => ?_) (fun _ _ => schedules_threadsafe) hs
          cases hv : v x <;> simp [untagged, hv] at hx
  | addWatcher =>
      cases hs
      exact h.addWatcher hok
  | fire i slot =>
      simp only [step] at hs
      split at hs
      · rename_i job hw
        obtain ⟨m, hm, rfl⟩ := Option.map_eq_some_iff.mp hs
        exact h.fire hw hm
      · cases hs
  | assign x a =>
      cases hs
      exact h.assign hok
  | assignAway c x a =>
      simp only [step] at hs
      split at hs
      · cases hs
      · rename_i hc
        cases hs
        exact h.assignIn (fun hhome => hc (.inl hhome)) x a none
  | copyContext =>
      cases hs
      exact h.newObject (h.current_eq hok)
  | newContext =>
      cases hs
      exact h.newObject rfl
  | enter c =>
      simp only [step] at hs
      split at hs
      · rename_i hc
        exact h.enter hok hc.1 hc.2 (Option.some.inj hs)
      · cases hs
  | leave =>
      simp only [step] at hs
      split at hs
      · rename_i hout
        split at hs
        · rename_i c rest haround
          cases hs
          exact h.leave_outside hout (hok hout).1 ((hok hout).2 c rest haround) haround
        · cases hs
      · split at hs
        · rename_i c rest hentered
          cases hs
          exact h.leave_inside hentered
        · cases hs

omit [DecidableEq V] in
theorem agrees_init (h : w.Init) : w.Agrees := by
  obtain ⟨m, v, ⟨clock, rfl⟩, rfl⟩ := h
  refine ⟨rfl, fun slot drain d => ?_, fun job hl => ?_, fun job he => ?_, fun t ht => ?_,
    fun c hc => ?_, fun c hc => ?_, fun c hc _ => ?_, fun j c hc => ?_⟩
  · simp [LoopState.new]
  · cases hl with
    | ready h hc hj => simp [LoopState.new] at h
    | timer h hc hj => simp [LoopState.new] at h
    | io h hd => simp [LoopState.new] at h
    | watcher h hd => simp at h
  · cases he
  · rw [List.mem_singleton.mp ht]
    exact fun _ _ => rfl
  · rcases hc with rfl | hc
    · exact Nat.one_pos
    · cases hc
  · cases hc
  · cases c with
    | zero => exact absurd rfl hc
    | succ c => rfl
  · simp at hc

end Steps

theorem agrees_of_reach {w : ContextView V A} (h : ConfinedReach w) : w.Agrees :=
  h.invariant (fun _ hw => agrees_init hw) fun _ _ _ hi hok hs => agrees_step hi hok.1 hok.2 hs

/-- In a confined run every callback is called in the context `asyncio` would
have given it, finds no assignment there of a callback that did not lead to it,
and sees what `asyncio` would have it see wherever it goes. -/
theorem isolated_of_confined {w : ContextView V A} (h : ConfinedReach w) : w.Isolated := by
  have ha := agrees_of_reach h
  intro job he hc
  rw [ha.called_of_executing he]
  exact ⟨(ha.calledReference_of_executing he).symm,
    ha.current_eq fun _ hnone => (by cases he.symm.trans hnone),
    fun x a k hx => ha.tags job.id _ (ha.exec job he).2 x a k hx⟩

/-- A fresh loop on a thread with an empty context and one variable. -/
def fresh : ContextView Unit Nat :=
  ⟨⟨LoopState.new Scheduled 0, .idle, false, []⟩,
    [⟨untagged fun _ => none, untagged fun _ => none⟩], 0, [], [], [], [], []⟩

theorem init_fresh : fresh.Init := ⟨_, fun _ => none, ⟨0, rfl⟩, rfl⟩

instance (w : ContextView V A) : (mv : ContextMove V A) → Decidable (w.Contextless mv)
  | .callSoon context | .callAt _ context | .callLater _ context
  | .callSoonThreadsafe _ _ context => inferInstanceAs (Decidable (context = none))
  | .loop _ | .addWatcher | .fire _ _ | .assign _ _ | .assignAway _ _ _ | .copyContext
  | .newContext | .enter _ | .leave => .isTrue trivial

theorem loops_confined {w w' : ContextView V A} (h : ConfinedReach w) (mvs : List (Move Scheduled))
    (hr : replay step Contextless (mvs.map .loop) w = some w') : ConfinedReach w' := by
  induction mvs generalizing w with
  | nil =>
      cases hr
      exact h
  | cons mv mvs ih =>
      simp only [List.map_cons, replay] at hr
      split at hr
      · obtain ⟨w₁, hs, hr⟩ := Option.bind_eq_some_iff.mp hr
        exact ih (h.step (.loop mv) ⟨trivial, trivial⟩ hs) hr
      · cases hr

theorem confined_step {w w' : ContextView V A} (h : ConfinedReach w) (mv : ContextMove V A)
    (hnone : w.Contextless mv) (hok : w.Confined mv) (hs : w.step mv = some w') :
    ConfinedReach w' := h.step mv ⟨hnone, hok⟩ hs

/-- One callback assigns and then schedules another, which sees the value, and
not what was assigned in a copy of the context. -/
theorem isolated_of_handover : ∃ w : ContextView Unit Nat, ConfinedReach w ∧
    w.executing = some ⟨1, none⟩ ∧ w.current () = some (7, some 0) ∧ w.Isolated := by
  have hclean : fresh.executing = none → fresh.Clean := by
    intro _ x a k hx
    cases hx
  have h := confined_step (.start init_fresh) (.callSoon none) rfl ⟨rfl, hclean⟩ rfl
  have h := loops_confined h [.runForever, .run, .run, .run, .run] rfl
  have h := confined_step h .copyContext trivial (fun _ he => by cases he) rfl
  have h := confined_step h (.enter 1) trivial (fun hout => by cases hout) rfl
  have h := confined_step h (.assign () 9) trivial (fun hentered => by cases hentered) rfl
  have h := confined_step h .leave trivial (fun hout => by cases hout) rfl
  have h := confined_step h (.assign () 7) trivial (fun _ job hl => by
    cases hl with
    | ready h _ _ => cases h
    | timer h _ _ => cases h
    | io h _ => cases h
    | watcher h _ => cases h) rfl
  have h := confined_step h (.callSoon none) rfl ⟨rfl, fun he => by cases he⟩ rfl
  have h := loops_confined h (.returns none :: List.replicate 10 .run) rfl
  exact ⟨_, h, rfl, rfl, isolated_of_confined h⟩

/-- Two callbacks scheduled from outside with nothing set: the second sees
what the first assigned. -/
theorem assignment_leaks : ∃ w : ContextView Unit Nat, Reach w ∧
    w.executing = some ⟨1, none⟩ ∧ w.current () = some (7, some 0) ∧ w.reference () = none ∧
    w.parents = [none, none] ∧ ¬w.Isolated := by
  have hstart : Reach fresh := .start init_fresh
  have hrun := hstart.of_replay [.callSoon none, .callSoon none, .loop .runForever, .loop .run,
    .loop .run, .loop .run, .loop .run, .assign () 7, .loop (.returns none), .loop .run] rfl
  refine ⟨_, hrun, rfl, rfl, rfl, rfl, fun hiso => ?_⟩
  have hsame := congrFun (hiso ⟨1, none⟩ rfl rfl).1 ()
  cases hsame

end ContextView

end Tokioop.Loop
