import Mathlib.Logic.Basic
import Mathlib.Tactic.Common

/-!
Runs of a system given by an executable step function.

`step s m` is the state after the move `m`, or `none` when the move is not
possible in `s`; `ok s m` restricts the moves a run may make. `Runs` is the
set of states such runs reach. Because the step function computes, a concrete
run is a list of moves and `replay` evaluates it.
-/

namespace Tokioop.Kit

universe u v

/-- The states reached from `init` by moves that are possible and `ok`. -/
inductive Runs {S : Type u} {M : Type v} (step : S → M → Option S) (ok : S → M → Prop)
    (init : S → Prop) : S → Prop
  | start {s : S} (h : init s) : Runs step ok init s
  | step {s s' : S} (m : M) (h : Runs step ok init s) (hok : ok s m)
      (hs : step s m = some s') : Runs step ok init s'

variable {S : Type u} {M : Type v} {step : S → M → Option S} {ok ok' : S → M → Prop}
  {init : S → Prop}

/-- What holds at the start and survives every step holds along every run. -/
theorem Runs.invariant {I : S → Prop} (h₀ : ∀ s, init s → I s)
    (hstep : ∀ s m s', I s → ok s m → step s m = some s' → I s') {s : S}
    (h : Runs step ok init s) : I s := by
  induction h with
  | start h => exact h₀ _ h
  | step m _ hok hs ih => exact hstep _ m _ ih hok hs

/-- Where every step is followed by a step of another system, so is every
run. -/
theorem Runs.simulates {S' : Type*} {M' : Type*} {step' : S' → M' → Option S'}
    {ok' : S' → M' → Prop} {init' : S' → Prop} {f : S → S'} (h₀ : ∀ s, init s → init' (f s))
    (hstep : ∀ s m s', ok s m → step s m = some s' →
      ∃ m', ok' (f s) m' ∧ step' (f s) m' = some (f s')) {s : S} (h : Runs step ok init s) :
    Runs step' ok' init' (f s) := by
  induction h with
  | start h => exact .start (h₀ _ h)
  | step m _ hok hs ih =>
      obtain ⟨m', hok', hs'⟩ := hstep _ m _ hok hs
      exact .step m' ih hok' hs'

/-- Perform the moves one after the other, stopping at the first that is not
possible or not allowed. -/
def replay (step : S → M → Option S) (ok : S → M → Prop) [∀ s m, Decidable (ok s m)] :
    List M → S → Option S
  | [], s => some s
  | m :: ms, s => if ok s m then (step s m).bind (replay step ok ms) else none

theorem Runs.of_replay [∀ s m, Decidable (ok s m)] {s s' : S}
    (h : Runs step ok init s) (ms : List M) (hr : replay step ok ms s = some s') :
    Runs step ok init s' := by
  induction ms generalizing s with
  | nil =>
      simp only [replay, Option.some.injEq] at hr
      exact hr ▸ h
  | cons m ms ih =>
      simp only [replay] at hr
      split at hr
      · rename_i hok
        obtain ⟨t, ht, hrest⟩ := Option.bind_eq_some_iff.mp hr
        exact ih (h.step m hok ht) hrest
      · cases hr

/-- A replay that ends in a state with a decidable property. -/
theorem Runs.exists_of_replay [∀ s m, Decidable (ok s m)] {s : S} (h : Runs step ok init s)
    (ms : List M) (P : S → Bool) (hr : (replay step ok ms s).any P = true) :
    ∃ s', Runs step ok init s' ∧ P s' = true := by
  cases hs' : replay step ok ms s with
  | none => simp [hs'] at hr
  | some s' => exact ⟨s', h.of_replay ms hs', by simpa [hs'] using hr⟩

/-! ### Systems in which every move is possible -/

section

variable {f : S → M → S} {I P : S → Prop} {ok : S → M → Prop}

/-- `P` holds of every state that the moves lead through, the first included. -/
def Throughout (f : S → M → S) (P : S → Prop) : S → List M → Prop
  | s, [] => P s
  | s, m :: ms => P s ∧ Throughout f P (f s m) ms

/-- Each of the moves is `ok` in the state in which it is made. -/
def EachMove (f : S → M → S) (ok : S → M → Prop) : S → List M → Prop
  | _, [] => True
  | s, m :: ms => ok s m ∧ EachMove f ok (f s m) ms

instance [∀ s m, Decidable (ok s m)] : (s : S) → (ms : List M) → Decidable (EachMove f ok s ms)
  | _, [] => .isTrue trivial
  | s, m :: ms =>
      have : Decidable (EachMove f ok (f s m) ms) := instDecidableEachMove (f s m) ms
      inferInstanceAs (Decidable (ok s m ∧ EachMove f ok (f s m) ms))

theorem Throughout.head {s : S} {ms : List M} (h : Throughout f P s ms) : P s := by
  cases ms with
  | nil => exact h
  | cons _ _ => exact h.1

/-- What every move keeps holds after the moves. -/
theorem foldl_keeps (hmove : ∀ s m, I s → I (f s m)) {s : S} (hs : I s) (ms : List M) :
    I (ms.foldl f s) := by
  induction ms generalizing s with
  | nil => exact hs
  | cons m ms ih => exact ih (hmove s m hs)

/-- Where moves that are `ok` keep `I`, it holds of every state they lead through. -/
theorem throughout_of_eachMove (hmove : ∀ s m, I s → ok s m → I (f s m)) (hP : ∀ s, I s → P s)
    {s : S} (hI : I s) {ms : List M} (hok : EachMove f ok s ms) : Throughout f P s ms := by
  induction ms generalizing s with
  | nil => exact hP s hI
  | cons m ms ih => exact ⟨hP s hI, ih (hmove s m hI hok.1) hok.2⟩

/-- Where a move that is `ok₀` keeps `P` exactly when it is `ok`, so do such moves
in a row. -/
theorem throughout_iff_eachMove_among {ok₀ : S → M → Prop}
    (hstep : ∀ s m, I s → P s → ok₀ s m → I (f s m) ∧ (P (f s m) ↔ ok s m)) {s : S} (hI : I s)
    (hP : P s) (ms : List M) (hok₀ : EachMove f ok₀ s ms) :
    Throughout f P s ms ↔ EachMove f ok s ms := by
  induction ms generalizing s with
  | nil => exact iff_of_true hP trivial
  | cons m ms ih =>
      obtain ⟨hnext, hiff⟩ := hstep s m hI hP hok₀.1
      constructor
      · rintro ⟨-, hrest⟩
        exact ⟨hiff.mp hrest.head, (ih hnext hrest.head hok₀.2).mp hrest⟩
      · rintro ⟨hok, hrest⟩
        have hP' := hiff.mpr hok
        exact ⟨hP, (ih hnext hP' hok₀.2).mpr hrest⟩

theorem eachMove_of_forall (h : ∀ s m, ok s m) (s : S) (ms : List M) : EachMove f ok s ms := by
  induction ms generalizing s with
  | nil => trivial
  | cons m ms ih => exact ⟨h s m, ih _⟩

/-- Where every move keeps `P` exactly when it is `ok`, so do moves in a row. -/
theorem throughout_iff_eachMove (hmove : ∀ s m, I s → I (f s m))
    (hstep : ∀ s m, I s → P s → (P (f s m) ↔ ok s m)) {s : S} (hI : I s) (hP : P s)
    (ms : List M) : Throughout f P s ms ↔ EachMove f ok s ms :=
  throughout_iff_eachMove_among
    (fun s m hI hP (_ : True) => ⟨hmove s m hI, hstep s m hI hP⟩) hI hP ms
    (eachMove_of_forall (fun _ _ => trivial) s ms)

end

end Tokioop.Kit
