import Tokioop.Loop.Machine

/-!
The history of the ready queue.

The view keeps, beside the loop, every entry ever pushed, every `cancel`
call, every turn an entry has had and the callbacks started; `turns` notes
for each entry whether its handle had been cancelled by then. For the batch
in progress it keeps the queue as it was when the ready phase began and what
the batch has popped since. Nothing of this is read by the loop.
-/

namespace Tokioop.Loop

open Kit

variable {κ : Type}

/-- The turns left in the ready phase of a batch. -/
def BatchPc.readyLeft : BatchPc → Option Nat
  | .ready n => some n
  | _ => none

def Pc.readyLeft : Pc κ → Option Nat
  | .batch b | .calling _ b | .reporting _ b => b.readyLeft
  | _ => none

structure ReadyView (κ : Type) where
  main : Main κ
  pushed : List (ReadyEntry κ)
  cancels : List Handle
  turns : List (ReadyEntry κ × Bool)
  executed : List (ReadyEntry κ)
  snapshot : List (ReadyEntry κ)
  consumed : List (ReadyEntry κ)

namespace ReadyView

/-- A call that schedules an entry, in a loop that is open. -/
def push (w : ReadyView κ) (cb : κ) (threadsafe : Bool) : ReadyView κ :=
  if w.main.st.closed then w
  else { w with pushed := w.pushed ++ [⟨cb, w.main.st.nextHandle, threadsafe⟩] }

/-- A step of the loop thread: a batch begins, or an entry has its turn. -/
def turn (w : ReadyView κ) : ReadyView κ :=
  match w.main.pc with
  | .batch .begin => { w with snapshot := w.main.st.ready, consumed := [] }
  | .batch (.ready (_ + 1)) =>
      match w.main.st.ready with
      | e :: _ => { w with turns := w.turns ++ [(e, w.cancels.contains e.handle)],
                           consumed := w.consumed ++ [e] }
      | [] => w
  | _ => w

def started (m : Main κ) : List (ReadyEntry κ) :=
  match m.pc with
  | .calling (.ready e) _ => [e]
  | _ => []

/-- Bookkeeping for a move that took the loop to `m`. -/
def record (w : ReadyView κ) (m : Main κ) : Move κ → ReadyView κ
  | .run => { w.turn with main := m, executed := w.executed ++ started m }
  | .op (.callSoon cb) => { w.push cb false with main := m }
  | .callSoonThreadsafe _ cb => { w.push cb true with main := m }
  | .op (.cancel h) => { w with main := m, cancels := h :: w.cancels }
  | _ => { w with main := m }

theorem record_main (w : ReadyView κ) (m : Main κ) (mv : Move κ) : (w.record m mv).main = m := by
  cases mv with
  | op o => cases o <;> rfl
  | _ => rfl

def step (w : ReadyView κ) (mv : Move κ) : Option (ReadyView κ) :=
  (w.main.step mv).map fun m => w.record m mv

def Init (w : ReadyView κ) : Prop :=
  ∃ m : Main κ, m.Fresh ∧ w = ⟨m, [], [], [], [], [], []⟩

/-- What the history says of an open loop. -/
structure Fifo (w : ReadyView κ) : Prop where
  queue : w.pushed = w.turns.map (·.1) ++ w.main.st.ready
  executed : w.executed = (w.turns.filter fun t => !t.2).map (·.1)
  cancels : w.cancels = w.main.st.cancelled
  left : ∀ n, w.main.pc.readyLeft = some n → w.snapshot = w.consumed ++ w.main.st.ready.take n ∧
    n ≤ w.main.st.ready.length
  batch : w.main.pc.readyLeft = none → w.consumed = w.snapshot
  fresh : ∀ e ∈ w.pushed, e.handle < w.main.st.nextHandle
  nodup : (w.pushed.map (·.handle)).Nodup

/-! ### Pushes -/

theorem Fifo.push {w : ReadyView κ} (h : w.Fifo) (cb : κ) (threadsafe : Bool) {m : Main κ}
    (hpc : m.pc = w.main.pc) (hst : m.st = w.main.st.pushReady cb threadsafe)
    (hopen : w.main.st.closed = false) : Fifo { w.push cb threadsafe with main := m } := by
  have hpush : w.push cb threadsafe =
      { w with pushed := w.pushed ++ [⟨cb, w.main.st.nextHandle, threadsafe⟩] } := by
    rw [ReadyView.push, if_neg (by simp [hopen])]
  have hready : m.st.ready = w.main.st.ready ++ [⟨cb, w.main.st.nextHandle, threadsafe⟩] := by
    rw [hst]
    rfl
  rw [hpush]
  refine ⟨?_, h.executed, ?_, fun n hn => ?_, fun hn => ?_, fun e he => ?_, ?_⟩
  · show w.pushed ++ _ = _ ++ m.st.ready
    rw [hready, h.queue, List.append_assoc]
  · show w.cancels = m.st.cancelled
    rw [hst]
    exact h.cancels
  · replace hn : m.pc.readyLeft = some n := hn
    rw [hpc] at hn
    obtain ⟨hsnap, hle⟩ := h.left n hn
    show w.snapshot = w.consumed ++ m.st.ready.take n ∧ n ≤ m.st.ready.length
    rw [hready, List.take_append_of_le_length hle, List.length_append]
    exact ⟨hsnap, by omega⟩
  · replace hn : m.pc.readyLeft = none := hn
    exact h.batch (hpc ▸ hn)
  · show e.handle < m.st.nextHandle
    rw [hst]
    show e.handle < w.main.st.nextHandle + 1
    rcases List.mem_append.mp he with hold | hnew
    · exact Nat.lt_succ_of_lt (h.fresh e hold)
    · rw [List.mem_singleton.mp hnew]
      exact Nat.lt_succ_self _
  · rw [List.map_append, List.nodup_append]
    refine ⟨h.nodup, by simp, fun a ha b hb => ?_⟩
    obtain ⟨e, he, rfl⟩ := List.mem_map.mp ha
    have hlt := h.fresh e he
    have hb' : b = w.main.st.nextHandle := by simpa using hb
    rw [hb']
    exact hlt.ne

/-! ### Steps that leave the queue alone -/

/-- A step that changes nothing the history is about. -/
theorem Fifo.of_same {w : ReadyView κ} (h : w.Fifo) {m : Main κ}
    (hready : m.st.ready = w.main.st.ready) (hcancelled : m.st.cancelled = w.main.st.cancelled)
    (hnext : w.main.st.nextHandle ≤ m.st.nextHandle)
    (hpc : m.pc.readyLeft = w.main.pc.readyLeft) : Fifo { w with main := m } := by
  refine ⟨?_, h.executed, ?_, fun n hn => ?_, fun hn => ?_, fun e he => ?_, h.nodup⟩
  · show w.pushed = _ ++ m.st.ready
    rw [hready]
    exact h.queue
  · show w.cancels = m.st.cancelled
    rw [hcancelled]
    exact h.cancels
  · replace hn : m.pc.readyLeft = some n := hn
    show w.snapshot = w.consumed ++ m.st.ready.take n ∧ n ≤ m.st.ready.length
    rw [hready]
    exact h.left n (hpc ▸ hn)
  · replace hn : m.pc.readyLeft = none := hn
    exact h.batch (hpc ▸ hn)
  · exact (h.fresh e he).trans_le hnext

/-- The other phases of a batch do not touch the ready queue. -/
theorem batchStep_ready_same (s : LoopState κ) {b : BatchPc} (hne : b ≠ .begin)
    (hb : b.readyLeft = none) :
    (batchStep s b).state.ready = s.ready ∧ (batchStep s b).pc.readyLeft = none := by
  cases b with
  | begin => exact absurd rfl hne
  | ready n => cases hb
  | timers now =>
      simp only [batchStep]
      split
      · split
        · exact ⟨rfl, rfl⟩
        · exact ⟨rfl, rfl⟩
      · exact ⟨rfl, rfl⟩
  | io =>
      simp only [batchStep]
      split <;> exact ⟨rfl, rfl⟩
  | sample | release slot | finished => exact ⟨rfl, rfl⟩

/-! ### The loop thread -/

/-- A step of the batch, whether or not it goes on to invoke a callback. -/
def Lands (m : Main κ) (b : BatchPc) (m' : Main κ) : Prop :=
  m'.st = (batchStep m.st b).state ∧
    ((m'.pc = .batch (batchStep m.st b).pc ∧ (batchStep m.st b).invoke = none) ∨
      ∃ inv, (batchStep m.st b).invoke = some inv ∧ m'.pc = .calling inv (batchStep m.st b).pc)

theorem Lands.readyLeft {m m' : Main κ} {b : BatchPc} (h : Lands m b m') :
    m'.pc.readyLeft = (batchStep m.st b).pc.readyLeft := by
  obtain ⟨-, ⟨hpc, -⟩ | ⟨inv, -, hpc⟩⟩ := h
  · rw [hpc]
    rfl
  · rw [hpc]
    rfl

/-- Outside of the ready phase no ready callback is started. -/
theorem Lands.started {m m' : Main κ} {b : BatchPc} (h : Lands m b m')
    (hb : ∀ n, b ≠ .ready (n + 1)) : started m' = [] := by
  obtain ⟨-, ⟨hpc, -⟩ | ⟨inv, hinv, hpc⟩⟩ := h
  · simp [ReadyView.started, hpc]
  · cases inv with
    | ready e =>
        obtain ⟨n, _, hn, _⟩ := batchStep_invoke_ready hinv
        exact absurd hn (hb n)
    | timer t | io slot cb | data slot drain d => simp [ReadyView.started, hpc]

theorem fifo_begin {w : ReadyView κ} (h : w.Fifo) {m : Main κ} (hpc : w.main.pc = .batch .begin)
    (hl : Lands w.main .begin m) :
    Fifo { w.turn with main := m, executed := w.executed ++ started m } := by
  have hst : m.st = w.main.st := hl.1
  have hleft : m.pc.readyLeft = some w.main.st.ready.length := hl.readyLeft
  have hturn : w.turn = { w with snapshot := w.main.st.ready, consumed := [] } := by
    rw [turn, hpc]
  rw [hturn, hl.started (by simp), List.append_nil]
  refine ⟨?_, h.executed, ?_, fun n hn => ?_, fun hn => ?_, ?_, h.nodup⟩
  · rw [h.queue, hst]
  · rw [h.cancels, hst]
  · replace hn : m.pc.readyLeft = some n := hn
    rw [hleft] at hn
    injection hn with hn
    subst hn
    show w.main.st.ready = [] ++ m.st.ready.take _ ∧ _ ≤ m.st.ready.length
    rw [hst, List.take_length, List.nil_append]
    exact ⟨rfl, le_rfl⟩
  · replace hn : m.pc.readyLeft = none := hn
    rw [hleft] at hn
    cases hn
  · show ∀ e ∈ w.pushed, e.handle < m.st.nextHandle
    rw [hst]
    exact h.fresh

/-- The turn of an entry: it leaves the queue, and is invoked unless its
handle has been cancelled. -/
theorem fifo_turn {w : ReadyView κ} (h : w.Fifo) {m : Main κ} {n : Nat} {e : ReadyEntry κ}
    {rest : List (ReadyEntry κ)} (hpc : w.main.pc = .batch (.ready (n + 1)))
    (hready : w.main.st.ready = e :: rest) (hl : Lands w.main (.ready (n + 1)) m) :
    Fifo { w.turn with main := m, executed := w.executed ++ started m } := by
  have hstep : batchStep w.main.st (.ready (n + 1)) = ⟨{ w.main.st with ready := rest }, .ready n,
      if w.main.st.isCancelled e then none else some (.ready e)⟩ := by
    simp only [batchStep, hready]
  have hst : m.st = { w.main.st with ready := rest } := by rw [hl.1, hstep]
  have hleft : m.pc.readyLeft = some n := by rw [hl.readyLeft, hstep]; rfl
  have hcancel : w.cancels.contains e.handle = w.main.st.isCancelled e := by rw [h.cancels]; rfl
  have hstarted : started m = if w.main.st.isCancelled e then [] else [e] := by
    obtain ⟨-, ⟨hpc', hinv⟩ | ⟨inv, hinv, hpc'⟩⟩ := hl
    · rw [hstep] at hinv
      by_cases hc : w.main.st.isCancelled e = true
      · simp [started, hpc', hc]
      · simp [hc] at hinv
    · rw [hstep] at hinv
      by_cases hc : w.main.st.isCancelled e = true
      · simp [hc] at hinv
      · simp only [hc, Bool.false_eq_true, if_false, Option.some.injEq] at hinv
        subst hinv
        simp [started, hpc', hc]
  have hturn : w.turn = { w with turns := w.turns ++ [(e, w.main.st.isCancelled e)],
                                 consumed := w.consumed ++ [e] } := by
    rw [← hcancel, turn, hpc]
    simp only [hready]
  obtain ⟨hsnap, hle⟩ := h.left (n + 1) (by rw [hpc]; rfl)
  rw [hready] at hsnap hle
  rw [hturn]
  refine ⟨?_, ?_, ?_, fun k hk => ?_, fun hk => ?_, ?_, h.nodup⟩
  · show w.pushed = (w.turns ++ [(e, w.main.st.isCancelled e)]).map (·.1) ++ m.st.ready
    rw [h.queue, hst, hready, List.map_append, List.append_assoc]
    rfl
  · show w.executed ++ started m = ((w.turns ++ [(e, w.main.st.isCancelled e)]).filter _).map _
    rw [hstarted, h.executed, List.filter_append, List.map_append]
    by_cases hc : w.main.st.isCancelled e = true
    · simp [hc]
    · simp [hc]
  · show w.cancels = m.st.cancelled
    rw [hst]
    exact h.cancels
  · replace hk : m.pc.readyLeft = some k := hk
    rw [hleft] at hk
    injection hk with hk
    subst hk
    show w.snapshot = w.consumed ++ [e] ++ m.st.ready.take n ∧ n ≤ m.st.ready.length
    have hrest : m.st.ready = rest := by rw [hst]
    rw [hrest]
    simp only [List.length_cons] at hle
    exact ⟨by rw [hsnap, List.take_succ_cons, List.append_assoc, List.singleton_append], by omega⟩
  · replace hk : m.pc.readyLeft = none := hk
    rw [hleft] at hk
    cases hk
  · show ∀ e ∈ w.pushed, e.handle < m.st.nextHandle
    rw [hst]
    exact h.fresh

theorem fifo_exhausted {w : ReadyView κ} (h : w.Fifo) {m : Main κ} {n : Nat}
    (hpc : w.main.pc = .batch (.ready n)) (hn : n = 0 ∨ w.main.st.ready = [])
    (hl : Lands w.main (.ready n) m) :
    Fifo { w.turn with main := m, executed := w.executed ++ started m } := by
  have hstep : batchStep w.main.st (.ready n) = ⟨w.main.st, .sample, none⟩ := by
    cases n with
    | zero => rfl
    | succ n =>
        rcases hn with hn | hn
        · cases hn
        · simp only [batchStep, hn]
  have hst : m.st = w.main.st := by rw [hl.1, hstep]
  have hleft : m.pc.readyLeft = none := by rw [hl.readyLeft, hstep]; rfl
  have hstarted : started m = [] := by
    obtain ⟨-, ⟨hpc', -⟩ | ⟨inv, hinv, -⟩⟩ := hl
    · simp [started, hpc']
    · rw [hstep] at hinv
      cases hinv
  have hturn : w.turn = w := by
    rw [turn, hpc]
    cases n with
    | zero => rfl
    | succ n =>
        rcases hn with hn | hn
        · cases hn
        · simp only [hn]
  obtain ⟨hsnap, -⟩ := h.left n (by rw [hpc]; rfl)
  have htake : w.main.st.ready.take n = [] := by
    rcases hn with rfl | hn
    · exact List.take_zero
    · rw [hn, List.take_nil]
  rw [hturn, hstarted, List.append_nil]
  refine ⟨?_, h.executed, ?_, fun k hk => ?_, fun _ => ?_, ?_, h.nodup⟩
  · rw [h.queue, hst]
  · rw [h.cancels, hst]
  · replace hk : m.pc.readyLeft = some k := hk
    rw [hleft] at hk
    cases hk
  · rw [hsnap, htake, List.append_nil]
  · show ∀ e ∈ w.pushed, e.handle < m.st.nextHandle
    rw [hst]
    exact h.fresh

theorem fifo_batch {w : ReadyView κ} (h : w.Fifo) {m : Main κ} {b : BatchPc}
    (hpc : w.main.pc = .batch b) (hl : Lands w.main b m) :
    Fifo { w.turn with main := m, executed := w.executed ++ started m } := by
  by_cases hbegin : b = .begin
  · subst hbegin
    exact fifo_begin h hpc hl
  · cases hb : b.readyLeft with
    | some n =>
        cases b with
        | ready k =>
            cases k with
            | zero => exact fifo_exhausted h hpc (Or.inl rfl) hl
            | succ k =>
                cases hready : w.main.st.ready with
                | nil => exact fifo_exhausted h hpc (Or.inr hready) hl
                | cons e rest => exact fifo_turn h hpc hready hl
        | begin | sample | timers now | io | release slot | finished => cases hb
    | none =>
        obtain ⟨hsame, hleft⟩ := batchStep_ready_same w.main.st hbegin hb
        have hne : ∀ n, b ≠ .ready (n + 1) := by
          rintro n rfl
          cases hb
        have hturn : w.turn = w := by
          rw [turn, hpc]
          cases b with
          | begin => exact absurd rfl hbegin
          | ready k => cases hb
          | sample | timers now | io | release slot | finished => rfl
        have htaken := batchStep_taken w.main.st b
        rw [hturn, hl.started hne, List.append_nil]
        refine h.of_same ?_ ?_ ?_ ?_
        · rw [hl.1, hsame]
        · rw [hl.1]
          exact htaken.handles.2.1
        · rw [hl.1]
          exact htaken.handles.1.ge
        · rw [hl.readyLeft, hleft, hpc]
          exact hb.symm

theorem fifo_run {w : ReadyView κ} (h : w.Fifo) {m : Main κ} (hs : w.main.run = some m) :
    Fifo { w.turn with main := m, executed := w.executed ++ started m } := by
  by_cases hb : ∃ b, w.main.pc = .batch b ∧ b ≠ .finished
  · obtain ⟨b, hpc, hb⟩ := hb
    refine fifo_batch h hpc ?_
    cases b with
    | finished => exact absurd rfl hb
    | _ =>
        simp only [Main.run, hpc] at hs
        split at hs
        · rename_i inv hinv
          cases hs
          exact ⟨rfl, Or.inr ⟨inv, hinv, rfl⟩⟩
        · rename_i hinv
          cases hs
          exact ⟨rfl, Or.inl ⟨rfl, hinv⟩⟩
  · -- The loop thread is outside of a batch, or leaves one.
    have hturn : w.turn = w := by
      unfold turn
      split
      · rename_i hpc
        exact absurd ⟨_, hpc, by simp⟩ hb
      · rename_i hpc
        exact absurd ⟨_, hpc, by simp⟩ hb
      · rfl
    have hsame : m.st.ready = w.main.st.ready ∧ m.st.cancelled = w.main.st.cancelled ∧
        m.st.nextHandle = w.main.st.nextHandle ∧ m.pc.readyLeft = w.main.pc.readyLeft ∧
        started m = [] := by
      cases Main.runStep_of_run hs with
      | @quiet b hpc =>
          by_cases hf : b = .finished
          · subst hf
            exact ⟨rfl, rfl, rfl, by rw [hpc]; rfl, rfl⟩
          · exact absurd ⟨b, hpc, hf⟩ hb
      | @invoke b inv hpc hinv =>
          by_cases hf : b = .finished
          · subst hf
            cases hinv
          · exact absurd ⟨b, hpc, hf⟩ hb
      | again hpc hnext =>
          simp only [List.mem_cons, List.not_mem_nil, or_false] at hpc
          have hold : w.main.pc.readyLeft = none := by
            rcases hpc with hpc | hpc | hpc | hpc | hpc
            all_goals rw [hpc]; rfl
          rcases hnext with rfl | rfl
          all_goals exact ⟨rfl, rfl, rfl, hold.symm, rfl⟩
      | reset hpc | enter hpc | batchDone hpc | stopped hpc | notStopped hpc | closed hpc
      | notClosed hpc | noReady hpc | noIo hpc | noTimers hpc | panic hpc | await hpc
      | permit hpc | sleep hpc | wake hpc | leave hpc | left hpc =>
          exact ⟨rfl, rfl, rfl, by rw [hpc]; rfl, rfl⟩
    obtain ⟨hready, hcancelled, hnext, hleft, hstarted⟩ := hsame
    rw [hturn, hstarted, List.append_nil]
    exact h.of_same hready hcancelled hnext.ge hleft

/-! ### The other moves -/

theorem fifo_op {w : ReadyView κ} (h : w.Fifo) (o : Op κ)
    (hopen : (o.apply w.main.st).closed = false) :
    Fifo (w.record { w.main with st := o.apply w.main.st } (.op o)) := by
  have hold : w.main.st.closed = false := by
    cases hc : w.main.st.closed with
    | false => rfl
    | true =>
        rw [(Op.called w.main.st o).closed hc] at hopen
        cases hopen
  cases o with
  | callSoon cb =>
      refine h.push cb false rfl ?_ hold
      rw [Op.apply_callSoon, if_neg (by simp [hold])]
  | callAt when cb =>
      refine h.of_same ?_ ?_ ?_ rfl
      all_goals rw [Op.apply_callAt, if_neg (by simp [hold])]
      · rfl
      · rfl
      · exact Nat.le_succ _
  | callLater delay cb =>
      refine h.of_same ?_ ?_ ?_ rfl
      all_goals rw [Op.apply_callLater, Op.apply_callAt, if_neg (by simp [hold])]
      · rfl
      · rfl
      · exact Nat.le_succ _
  | cancel k =>
      refine ⟨h.queue, h.executed, ?_, h.left, h.batch, h.fresh, h.nodup⟩
      show k :: w.cancels = k :: w.main.st.cancelled
      rw [h.cancels]
  | detach slot => exact h.of_same rfl rfl le_rfl rfl
  | watchers n => exact h.of_same rfl rfl le_rfl rfl
  | close =>
      rw [Op.apply_close] at hopen
      have hsame : Op.close.apply w.main.st = w.main.st := by
        rw [Op.apply_close]
        split at hopen
        · rename_i hc
          rw [if_pos hc]
        · cases hopen
      show Fifo { w with main := { w.main with st := Op.close.apply w.main.st } }
      rw [hsame]
      exact h.of_same rfl rfl le_rfl rfl

theorem readyLeft_notifyOne (m : Main κ) : m.notifyOne.pc.readyLeft = m.pc.readyLeft := by
  unfold Main.notifyOne
  split
  · rename_i hpc
    rw [hpc]
    rfl
  · rfl

theorem open_of_step {w w' : ReadyView κ} {mv : Move κ} (hs : w.step mv = some w')
    (hopen : w'.main.st.closed = false) : w.main.st.closed = false := by
  obtain ⟨m, hm, rfl⟩ := Option.map_eq_some_iff.mp hs
  rw [record_main] at hopen
  cases hc : w.main.st.closed with
  | false => rfl
  | true =>
      rw [Main.closed_of_step hm hc] at hopen
      cases hopen

theorem fifo_step {w w' : ReadyView κ} {mv : Move κ} (h : w.Fifo) (hs : w.step mv = some w')
    (hopen : w'.main.st.closed = false) : w'.Fifo := by
  have hold := open_of_step hs hopen
  obtain ⟨m, hm, rfl⟩ := Option.map_eq_some_iff.mp hs
  rw [record_main] at hopen
  cases mv with
  | run => exact fifo_run h hm
  | runForever =>
      obtain ⟨hpc, _, _, rfl⟩ := Main.step_runForever hm
      exact h.of_same rfl rfl le_rfl (by rw [hpc]; rfl)
  | returns exc =>
      obtain ⟨_, _, hpc, ⟨_, rfl⟩ | ⟨_, _, rfl⟩⟩ := Main.step_returns hm
      · exact h.of_same rfl rfl le_rfl (by rw [hpc]; rfl)
      · exact h.of_same rfl rfl le_rfl (by rw [hpc]; rfl)
  | handled =>
      obtain ⟨_, _, hpc, rfl⟩ := Main.step_handled hm
      exact h.of_same rfl rfl le_rfl (by rw [hpc]; rfl)
  | op o =>
      obtain rfl := Option.some.inj hm
      exact fifo_op h o hopen
  | callSoonThreadsafe i cb =>
      rw [Main.step_callSoonThreadsafe hm]
      exact h.push cb true rfl rfl hold
  | stop _ | pushIo _ _ =>
      obtain rfl := Option.some.inj hm
      exact h.of_same rfl rfl le_rfl rfl
  | notifyOne i =>
      rw [Main.step_notifyOne hm]
      have hst : w.main.notifyOne.st = w.main.st := Main.st_notifyOne _
      refine h.of_same ?_ ?_ ?_ (readyLeft_notifyOne w.main)
      · show w.main.notifyOne.st.ready = _
        rw [hst]
      · show w.main.notifyOne.st.cancelled = _
        rw [hst]
      · show _ ≤ w.main.notifyOne.st.nextHandle
        rw [hst]
  | tick d =>
      obtain ⟨_, rfl⟩ := Main.step_tick hm
      exact h.of_same rfl rfl le_rfl rfl
  | timeout =>
      obtain ⟨_, _, hpc, rfl⟩ := Main.step_timeout hm
      exact h.of_same rfl rfl le_rfl (by rw [hpc]; rfl)

end ReadyView

/-- Every run of a fresh loop with its history. -/
abbrev ReadyReach : ReadyView κ → Prop :=
  Runs ReadyView.step (fun _ _ => True) ReadyView.Init

theorem ReadyView.fifo_of_reach {w : ReadyView κ} (h : ReadyReach w)
    (hopen : w.main.st.closed = false) : w.Fifo := by
  induction h with
  | start h =>
      obtain ⟨m, ⟨clock, rfl⟩, rfl⟩ := h
      refine ⟨rfl, rfl, rfl, fun n hn => ?_, fun _ => rfl, fun e he => ?_, List.nodup_nil⟩
      · cases hn
      · cases he
  | step mv _ _ hs ih => exact fifo_step (ih (open_of_step hs hopen)) hs hopen

/-- On a loop that is open, the entries that have had their turn are the
pushed ones in order without those still queued, each pushed once; the
callbacks started are these entries without the ones whose handle had been
cancelled before their turn; and once the ready phase of a batch is over the
batch has popped exactly the queue it found. -/
theorem ready_fifo {w : ReadyView κ} (h : ReadyReach w) (hopen : w.main.st.closed = false) :
    w.pushed = w.turns.map (·.1) ++ w.main.st.ready ∧
      w.executed = (w.turns.filter fun t => !t.2).map (·.1) ∧
      (w.pushed.map (·.handle)).Nodup ∧
      (w.main.pc.readyLeft = none → w.consumed = w.snapshot) := by
  have hf := ReadyView.fifo_of_reach h hopen
  exact ⟨hf.queue, hf.executed, hf.nodup, hf.batch⟩

/-- Three entries, the second cancelled, the first pushing a fourth and
raising: the batch pops three and leaves the fourth. -/
theorem ready_fifo_three : ∃ w : ReadyView Nat, ReadyReach w ∧ w.main.pc.readyLeft = none ∧
    w.executed.map (·.callback) = [1, 3] ∧ w.main.st.ready.map (·.callback) = [4] ∧
    w.pushed = w.turns.map (·.1) ++ w.main.st.ready ∧ w.consumed = w.snapshot := by
  have hstart : ReadyReach (⟨⟨LoopState.new Nat 0, .idle, false, []⟩, [], [], [], [], [], []⟩ :
      ReadyView Nat) := .start ⟨_, ⟨0, rfl⟩, rfl⟩
  have hrun := hstart.of_replay [.op (.callSoon 1), .callSoonThreadsafe 0 2, .op (.callSoon 3),
    .op (.cancel 1), .runForever, .run, .run, .run, .run, .op (.callSoon 4),
    .returns (some .ordinary), .handled, .run, .run, .returns none, .run] rfl
  have hfifo := ready_fifo hrun rfl
  exact ⟨_, hrun, rfl, rfl, rfl, hfifo.1, hfifo.2.2.2 rfl⟩

end Tokioop.Loop
