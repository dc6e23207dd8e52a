import Tokioop.Kit.Prog

/-!
Two systems side by side.

A move of the pair is a move of one of the two, and what a system may do can
depend on the state of the other. Seen from either side, a run of the pair is
a run of that system under whatever its own moves are known to keep to.
-/

namespace Tokioop.Kit

universe u v w x

section

variable {S : Type u} {T : Type v} {M : Type w} {N : Type x} {f : S → M → Option S}
  {g : T → N → Option T} {left : S → T → M → Prop} {right : T → S → N → Prop}
  {init : S → Prop} {init' : T → Prop}

/-- One of the two makes a move. -/
def coupledStep (f : S → M → Option S) (g : T → N → Option T) (x : S × T) :
    M ⊕ N → Option (S × T)
  | .inl m => (f x.1 m).map fun s => (s, x.2)
  | .inr n => (g x.2 n).map fun t => (x.1, t)

def coupledOk (left : S → T → M → Prop) (right : T → S → N → Prop) (x : S × T) : M ⊕ N → Prop
  | .inl m => left x.1 x.2 m
  | .inr n => right x.2 x.1 n

instance [∀ s t m, Decidable (left s t m)] [∀ t s n, Decidable (right t s n)] (x : S × T) :
    (m : M ⊕ N) → Decidable (coupledOk left right x m)
  | .inl m => inferInstanceAs (Decidable (left x.1 x.2 m))
  | .inr n => inferInstanceAs (Decidable (right x.2 x.1 n))

/-- The states of the pair that runs reach. -/
abbrev Coupled (f : S → M → Option S) (g : T → N → Option T) (left : S → T → M → Prop)
    (right : T → S → N → Prop) (init : S → Prop) (init' : T → Prop) : S × T → Prop :=
  Runs (coupledStep f g) (coupledOk left right) fun x => init x.1 ∧ init' x.2

/-- The first system on its own. -/
theorem Coupled.fst {ok : S → M → Prop} (hok : ∀ {s t m}, left s t m → ok s m) {x : S × T}
    (h : Coupled f g left right init init' x) : Runs f ok init x.1 := by
  induction h with
  | start h => exact .start h.1
  | step m _ hm hs ih =>
      cases m with
      | inl m =>
          obtain ⟨s, hmove, rfl⟩ := Option.map_eq_some_iff.mp hs
          exact ih.step m (hok hm) hmove
      | inr n =>
          obtain ⟨t, -, rfl⟩ := Option.map_eq_some_iff.mp hs
          exact ih

/-- The pair seen from the other side. -/
theorem Coupled.swap {x : S × T} (h : Coupled f g left right init init' x) :
    Coupled g f right left init' init x.swap := by
  induction h with
  | start h => exact .start h.symm
  | step m _ hm hs ih =>
      cases m with
      | inl m =>
          obtain ⟨s, hmove, rfl⟩ := Option.map_eq_some_iff.mp hs
          exact ih.step (.inr m) hm (by simp [coupledStep, hmove])
      | inr n =>
          obtain ⟨t, hmove, rfl⟩ := Option.map_eq_some_iff.mp hs
          exact ih.step (.inl n) hm (by simp [coupledStep, hmove])

end

/-! ### Laxer policies -/

variable {σ ε ν ξ κ ω π η : Type}

/-- What one policy allows, so does another that is laxer in each clause. -/
theorem Policy.Allows.weaken {P Q : Policy σ ε ν ξ κ ω π η}
    (hcall : ∀ {b p s}, P.call b p s → Q.call b p s) (henv : ∀ {b h s}, P.env b h s → Q.env b h s)
    (hret : ∀ {e r s}, P.ret e r s → Q.ret e r s)
    (hanswer : ∀ {q a s}, P.answer q a s → Q.answer q a s) {c : Config σ ε ν ξ κ ω}
    {m : Move ν ξ ω π η} (h : P.Allows c m) : Q.Allows c m := by
  obtain ⟨s, code, calls⟩ := c
  cases m with
  | tau => trivial
  | answer a =>
      rcases code with _ | p
      · exact h
      · cases p with
        | ask q k => exact hanswer h
        | done _ | read _ | upd _ _ | user _ _ | loop _ _ => exact h
  | call p => exact hcall h
  | ret r =>
      cases calls with
      | nil => exact h
      | cons x cs => exact hret h
  | env e => exact henv h

/-- So its runs are among those of the other. -/
theorem Reach.weaken {H : Host σ ε ν ξ κ ω π η} {P Q : Policy σ ε ν ξ κ ω π η} {init : σ → Prop}
    (hcall : ∀ {b p s}, P.call b p s → Q.call b p s) (henv : ∀ {b h s}, P.env b h s → Q.env b h s)
    (hret : ∀ {e r s}, P.ret e r s → Q.ret e r s)
    (hanswer : ∀ {q a s}, P.answer q a s → Q.answer q a s) {c : Config σ ε ν ξ κ ω}
    (h : Reach H P init c) : Reach H Q init c := by
  induction h with
  | start h => exact .start h
  | step m _ hm hs ih => exact ih.step m (hm.weaken hcall henv hret hanswer) hs

end Tokioop.Kit
