import Tokioop.Kit.Runs

/-!
The work that a run does, against what it is charged.

A potential pays for the work of each move, as far as the move is not charged
for it. Along a run it sums up: the work done and the potential that is left
are no more than the potential at the start and all that was charged.
-/

namespace Tokioop.Kit

universe u v

/-- A state with the sums of what the moves to it have counted for. -/
structure Metered (S : Type u) where
  state : S
  work : Nat
  charge : Nat

variable {S : Type u} {M : Type v} {step : S → M → Option S} {ok : S → M → Prop}
  {work charge : S → M → Nat} {I : S → Prop} {s₀ : S}

def metered (step : S → M → Option S) (work charge : S → M → Nat) (x : Metered S) (m : M) :
    Option (Metered S) :=
  (step x.state m).map fun s => ⟨s, x.work + work x.state m, x.charge + charge x.state m⟩

/-- The runs from `s₀`, with what they have counted for since. -/
abbrev MeteredFrom (step : S → M → Option S) (ok : S → M → Prop) (work charge : S → M → Nat)
    (s₀ : S) : Metered S → Prop :=
  Runs (metered step work charge) (fun x m => ok x.state m) (· = ⟨s₀, 0, 0⟩)

theorem metered_eq_some {x x' : Metered S} {m : M} (h : metered step work charge x m = some x') :
    ∃ s, step x.state m = some s ∧
      x' = ⟨s, x.work + work x.state m, x.charge + charge x.state m⟩ := by
  obtain ⟨s, hs, hx⟩ := Option.map_eq_some_iff.mp h
  exact ⟨s, hs, hx.symm⟩

/-- **The potential pays.** -/
theorem MeteredFrom.bound (potential : S → Nat) (h₀ : I s₀)
    (hstep : ∀ s m s', I s → ok s m → step s m = some s' →
      I s' ∧ potential s' + work s m ≤ potential s + charge s m)
    {x : Metered S} (h : MeteredFrom step ok work charge s₀ x) :
    I x.state ∧ potential x.state + x.work ≤ potential s₀ + x.charge := by
  refine h.invariant
    (I := fun x => I x.state ∧ potential x.state + x.work ≤ potential s₀ + x.charge) ?_ ?_
  · rintro _ rfl
    exact ⟨h₀, Nat.le_refl _⟩
  · rintro x m x' ⟨hI, hbound⟩ hok hx
    obtain ⟨s, hs, rfl⟩ := metered_eq_some hx
    obtain ⟨hI', hpaid⟩ := hstep _ _ _ hI hok hs
    refine ⟨hI', ?_⟩
    show potential s + (x.work + work x.state m) ≤ potential s₀ + (x.charge + charge x.state m)
    omega

end Tokioop.Kit
