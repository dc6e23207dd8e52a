import Tokioop.Loop.State

/-!
One loop iteration: `run_batch` of `event_loop.rs`.

The batch is a small machine that hands out at most one callback invocation
per step, because the callback may change everything the batch looks at
next: its queues, its timers and its cancellation flags. `BatchPc` holds the
locals that survive an invocation, the rest of the ready snapshot and the
time sampled at the start of the timer phase.
-/

namespace Tokioop.Loop

open Fd

inductive BatchPc
  | begin
  -- `n` turns of the snapshot are left.
  | ready (n : Nat)
  | sample
  | timers (now : ℚ)
  | io
  -- The callback of this slot has run and its task is to be released.
  | release (slot : Nat)
  | finished
  deriving DecidableEq

inductive Invocation (κ : Type)
  | ready (e : ReadyEntry κ)
  | timer (t : TimerEntry κ)
  | io (slot : Nat) (cb : κ)
  | data (slot : Nat) (drain : κ) (data : IoData)
  deriving DecidableEq

structure BatchOut (κ : Type) where
  state : LoopState κ
  pc : BatchPc
  invoke : Option (Invocation κ)
  deriving DecidableEq

variable {κ : Type}

def LoopState.isCancelled (s : LoopState κ) (e : ReadyEntry κ) : Bool :=
  s.cancelled.contains e.handle

/-- One step of the batch, up to and including the choice of the next
callback to invoke. -/
def batchStep (s : LoopState κ) : BatchPc → BatchOut κ
  | .begin => ⟨s, .ready s.ready.length, none⟩
  | .ready 0 => ⟨s, .sample, none⟩
  | .ready (n + 1) =>
      match s.ready with
      | [] => ⟨s, .sample, none⟩
      | e :: rest =>
          ⟨{ s with ready := rest }, .ready n, if s.isCancelled e then none else some (.ready e)⟩
  | .sample => ⟨s, .timers s.clock, none⟩
  | .timers now =>
      match s.peek with
      | some top =>
          if top.due now then
            ⟨s.popTimer top, .timers now,
              if s.isCancelled top.entry then none else some (.timer top)⟩
          else ⟨s, .io, none⟩
      | none => ⟨s, .io, none⟩
  | .io =>
      match s.io with
      | [] => ⟨s, .finished, none⟩
      | .callback slot cb :: rest =>
          ⟨{ s with io := rest }, .release slot,
            if s.detached.contains slot then none else some (.io slot cb)⟩
      | .data slot drain d :: rest => ⟨{ s with io := rest }, .io, some (.data slot drain d)⟩
  | .release slot => ⟨{ s with released := s.released ++ [slot] }, .io, none⟩
  | .finished => ⟨s, .finished, none⟩

/-! ### What a step can do -/

/-- The batch takes work off the queues and leaves the rest of the state
alone, the record of released rendezvous apart. -/
structure LoopState.Taken (s s' : LoopState κ) : Prop where
  ready : s'.ready <:+ s.ready
  timers : s'.timers.Sublist s.timers
  io : s'.io <:+ s.io
  flags : s'.running = s.running ∧ s'.stopRequested = s.stopRequested ∧ s'.closed = s.closed
  clock : s'.clock = s.clock
  handles : s'.nextHandle = s.nextHandle ∧ s'.cancelled = s.cancelled ∧ s'.seq = s.seq

theorem LoopState.Taken.refl (s : LoopState κ) : s.Taken s :=
  ⟨List.suffix_refl _, List.Sublist.refl _, List.suffix_refl _, ⟨rfl, rfl, rfl⟩, rfl, rfl, rfl, rfl⟩

theorem batchStep_taken (s : LoopState κ) (b : BatchPc) : s.Taken (batchStep s b).state := by
  have hrefl := LoopState.Taken.refl s
  unfold batchStep
  split
  · exact hrefl
  · exact hrefl
  · split
    · exact hrefl
    · rename_i e rest heq
      have hsuf : rest <:+ s.ready := heq ▸ List.suffix_cons e rest
      exact { hrefl with ready := hsuf }
  · exact hrefl
  · split
    · split
      · exact { hrefl with timers := List.eraseP_sublist }
      · exact hrefl
    · exact hrefl
  · split
    · exact hrefl
    · rename_i slot cb rest heq
      have hsuf : rest <:+ s.io := heq ▸ List.suffix_cons _ rest
      exact { hrefl with io := hsuf }
    · rename_i slot drain d rest heq
      have hsuf : rest <:+ s.io := heq ▸ List.suffix_cons _ rest
      exact { hrefl with io := hsuf }
  · exact { hrefl with }
  · exact hrefl

theorem batchStep_pc_ne_begin (s : LoopState κ) (b : BatchPc) :
    (batchStep s b).pc ≠ .begin := by
  cases b with
  | ready n =>
      cases n with
      | zero => simp [batchStep]
      | succ n =>
          simp only [batchStep]
          split <;> simp
  | timers now =>
      simp only [batchStep]
      split
      · split <;> simp
      · simp
  | io =>
      simp only [batchStep]
      split <;> simp
  | begin | sample | release slot | finished => simp [batchStep]

/-- A ready callback is invoked from the head of the queue, inside the
snapshot. -/
theorem batchStep_invoke_ready {s : LoopState κ} {b : BatchPc} {e : ReadyEntry κ}
    (h : (batchStep s b).invoke = some (.ready e)) :
    ∃ n rest, b = .ready (n + 1) ∧ s.ready = e :: rest := by
  cases b with
  | ready n =>
      cases n with
      | zero => simp [batchStep] at h
      | succ n =>
          simp only [batchStep] at h
          split at h
          · simp at h
          · rename_i e' rest hready
            split at h
            · simp at h
            · simp only [Option.some.injEq, Invocation.ready.injEq] at h
              exact ⟨n, rest, rfl, h ▸ hready⟩
  | timers now =>
      simp only [batchStep] at h
      split at h
      · split at h
        · split at h <;> simp at h
        · simp at h
      · simp at h
  | io =>
      simp only [batchStep] at h
      split at h
      · simp at h
      · split at h <;> simp at h
      · simp at h
  | begin | sample | release slot | finished => simp [batchStep] at h

/-- A timer is invoked when it is the top of the heap, due and not
cancelled. -/
theorem batchStep_invoke_timer {s : LoopState κ} {b : BatchPc} {t : TimerEntry κ}
    (h : (batchStep s b).invoke = some (.timer t)) :
    ∃ now, b = .timers now ∧ s.peek = some t ∧ t.due now = true ∧
      s.isCancelled t.entry = false := by
  cases b with
  | ready n =>
      cases n with
      | zero => simp [batchStep] at h
      | succ n =>
          simp only [batchStep] at h
          split at h
          · simp at h
          · split at h <;> simp at h
  | timers now =>
      simp only [batchStep] at h
      split at h
      · rename_i top hpeek
        split at h
        · rename_i hdue
          split at h
          · simp at h
          · rename_i hlive
            simp only [Option.some.injEq, Invocation.timer.injEq] at h
            subst h
            exact ⟨now, rfl, hpeek, hdue, Bool.eq_false_iff.mpr hlive⟩
        · simp at h
      · simp at h
  | io =>
      simp only [batchStep] at h
      split at h
      · simp at h
      · split at h <;> simp at h
      · simp at h
  | begin | sample | release slot | finished => simp [batchStep] at h

/-- Anything else is invoked from the queue of completions. -/
theorem batchStep_invoke_other {s : LoopState κ} {b : BatchPc} {inv : Invocation κ}
    (h : (batchStep s b).invoke = some inv) (hready : ∀ e, inv ≠ .ready e)
    (htimer : ∀ t, inv ≠ .timer t) : b = .io := by
  cases b with
  | io => rfl
  | ready n =>
      cases n with
      | zero => simp [batchStep] at h
      | succ n =>
          simp only [batchStep] at h
          split at h
          · simp at h
          · split at h
            · simp at h
            · exact absurd (Option.some.inj h).symm (hready _)
  | timers now =>
      simp only [batchStep] at h
      split at h
      · split at h
        · split at h
          · simp at h
          · exact absurd (Option.some.inj h).symm (htimer _)
        · simp at h
      · simp at h
  | begin | sample | release slot | finished => simp [batchStep] at h

end Tokioop.Loop
