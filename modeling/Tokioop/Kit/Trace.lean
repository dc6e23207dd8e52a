import Tokioop.Kit.Contract

/-!
Runs with a record of the methods that are open and of what the environment
has brought.

A contract says the same of every callback. Where a method that is under way
makes a difference, there is a contract for each mode, and calling a method
may change the mode until it has returned: `TracedSound` has the obligations
of such a family, and `TracedSound.outside` is what they give for every run.
The contracts may also speak of what the environment has brought so far.
-/

namespace Tokioop.Kit

variable {σ ε ν ξ κ ω π η α μ : Type}

/-- A moment of a run, with the methods that have been called and have not
returned, the innermost first, and what the environment has brought. -/
structure Traced (σ ε ν ξ κ ω π α : Type) where
  config : Config σ ε ν ξ κ ω
  methods : List π
  seen : List α

/-- The methods that are open after a move. -/
def Config.openAfter (c : Config σ ε ν ξ κ ω) (methods : List π) : Move ν ξ ω π η → List π
  | .call p => p :: methods
  | .tau =>
      match c.code with
      | some (.done _) => methods.tail
      | _ => methods
  | _ => methods

/-- What a move brings; `brings h s` is what the environment does with a step
`h` in state `s`. -/
def Config.broughtBy (c : Config σ ε ν ξ κ ω) (brings : η → σ → List α) :
    Move ν ξ ω π η → List α
  | .env h => brings h c.state
  | .tau | .answer _ | .call _ | .ret _ => []

def Host.tracedStep (H : Host σ ε ν ξ κ ω π η) (brings : η → σ → List α)
    (x : Traced σ ε ν ξ κ ω π α) (m : Move ν ξ ω π η) : Option (Traced σ ε ν ξ κ ω π α) :=
  (H.step x.config m).map fun c =>
    ⟨c, x.config.openAfter x.methods m, x.seen ++ x.config.broughtBy brings m⟩

/-- The moments of runs that keep to the policy. -/
abbrev TracedReach (H : Host σ ε ν ξ κ ω π η) (P : Policy σ ε ν ξ κ ω π η)
    (brings : η → σ → List α) (init : σ → Prop) : Traced σ ε ν ξ κ ω π α → Prop :=
  Runs (H.tracedStep brings) (fun x m => P.Allows x.config m)
    fun x => ∃ s, init s ∧ x = ⟨⟨s, none, []⟩, [], []⟩

/-! ### Contracts by mode -/

section

variable (C : List α → μ → Contract σ ε ν ξ κ ω) (base : μ) (enter : π → μ → μ)

/-- The mode in which methods leave their callers. -/
def modeOf (methods : List π) : μ := methods.foldr enter base

/-- The open callbacks may go on in state `s`. -/
def HoldsIn (seen : List α) :
    List π → List (ε × (Except ξ ν → Prog σ ε ν ξ κ ω Unit)) → σ → Prop
  | [], [], s => (C seen base).Inv s
  | p :: ps, (e, k) :: cs, s =>
      (C seen (modeOf base enter (p :: ps))).Inv s ∧
        ∀ s' r, (C seen (modeOf base enter (p :: ps))).Inv s' →
          (C seen (modeOf base enter (p :: ps))).Rely s s' →
          (C seen (modeOf base enter (p :: ps))).Ret e r s' →
          (k r).wp (C seen (modeOf base enter (p :: ps))) (fun _ t => HoldsIn seen ps cs t) s'
  | _, _, _ => False

/-- The proof obligations of a family of contracts: a method runs in the mode
that its call leads to, and leaves the mode of its caller in order. -/
structure TracedSound (H : Host σ ε ν ξ κ ω π η) (P : Policy σ ε ν ξ κ ω π η)
    (brings : η → σ → List α) : Prop where
  ret : ∀ {l f e r s}, P.ret e r s → (C l f).Ret e r s
  answer : ∀ {l f q a s}, P.answer q a s → (C l f).Answer q a s
  call_top : ∀ l p s, (C l base).Inv s → P.call true p s →
    (H.body p).wp (C l (enter p base)) (fun _ t => (C l base).Inv t) s
  call_inner : ∀ l f p s, (C l f).Inv s → P.call false p s →
    (H.body p).wp (C l (enter p f)) (fun _ t => (C l f).Inv t ∧ (C l f).Rely s t) s
  env_top : ∀ l h s s', (C l base).Inv s → P.env true h s → H.env h s = some s' →
    (C (l ++ brings h s) base).Inv s'
  env_inner : ∀ l f h s s', (C l f).Inv s → P.env false h s → H.env h s = some s' →
    brings h s = [] ∧ (C l f).Inv s' ∧ (C l f).Rely s s'

/-- The invariant of whole moments. -/
def Traced.Good (x : Traced σ ε ν ξ κ ω π α) : Prop :=
  match x.config.code with
  | none => HoldsIn C base enter x.seen x.methods x.config.calls x.config.state
  | some p => ∃ m ms, x.methods = m :: ms ∧
      p.wp (C x.seen (modeOf base enter (m :: ms)))
        (fun _ t => HoldsIn C base enter x.seen ms x.config.calls t) x.config.state

end

section

variable {C : List α → μ → Contract σ ε ν ξ κ ω} {base : μ} {enter : π → μ → μ}
  {H : Host σ ε ν ξ κ ω π η} {P : Policy σ ε ν ξ κ ω π η} {brings : η → σ → List α}

theorem HoldsIn.rely {seen : List α} {p : π} {ps : List π}
    {c : ε × (Except ξ ν → Prog σ ε ν ξ κ ω Unit)}
    {cs : List (ε × (Except ξ ν → Prog σ ε ν ξ κ ω Unit))} {s s' : σ}
    (h : HoldsIn C base enter seen (p :: ps) (c :: cs) s)
    (hi : (C seen (modeOf base enter (p :: ps))).Inv s')
    (hr : (C seen (modeOf base enter (p :: ps))).Rely s s') :
    HoldsIn C base enter seen (p :: ps) (c :: cs) s' :=
  ⟨hi, fun t r hti htr => h.2 t r hti ((C seen _).trans hr htr)⟩

/-- A step of code that is under way in the mode of `p :: ps`. -/
theorem Traced.good_tau {s : σ} {code : Prog σ ε ν ξ κ ω Unit}
    {cs : List (ε × (Except ξ ν → Prog σ ε ν ξ κ ω Unit))} {p : π} {ps : List π} {seen : List α}
    {c : Config σ ε ν ξ κ ω}
    (hg : code.wp (C seen (modeOf base enter (p :: ps)))
      (fun _ t => HoldsIn C base enter seen ps cs t) s)
    (hs : H.step ⟨s, some code, cs⟩ .tau = some c) :
    Traced.Good C base enter
      ⟨c, Config.openAfter ⟨s, some code, cs⟩ (p :: ps) (.tau : Move ν ξ ω π η), seen⟩ := by
  cases code with
  | done r =>
      simp only [Host.step, Option.some.injEq] at hs
      subst hs
      exact hg
  | read k =>
      simp only [Host.step, Option.some.injEq] at hs
      subst hs
      exact ⟨p, ps, rfl, hg⟩
  | upd f k =>
      simp only [Host.step, Option.some.injEq] at hs
      subst hs
      exact ⟨p, ps, rfl, hg⟩
  | user e k =>
      simp only [Host.step, Option.some.injEq] at hs
      subst hs
      exact hg
  | ask q k => simp [Host.step] at hs
  | loop b k =>
      simp only [Host.step, Option.some.injEq] at hs
      subst hs
      obtain ⟨J, hJ, hstep⟩ := hg
      refine ⟨p, ps, rfl, ?_⟩
      change (b.andThen (Prog.afterTurn b k)).wp _ _ s
      rw [Prog.wp_andThen]
      refine Prog.wp_mono _ ?_ (hstep s hJ)
      intro r t hr
      rcases r with e | more
      · exact hr
      cases more with
      | false => exact hr
      | true => exact ⟨J, hr, hstep⟩

theorem TracedSound.good_call (hS : TracedSound C base enter H P brings) {s : σ} (p : π)
    {cs : List (ε × (Except ξ ν → Prog σ ε ν ξ κ ω Unit))} {ps : List π} {seen : List α}
    (hg : HoldsIn C base enter seen ps cs s) (ha : P.call cs.isEmpty p s) :
    Traced.Good C base enter ⟨⟨s, some (H.body p), cs⟩, p :: ps, seen⟩ := by
  refine ⟨p, ps, rfl, ?_⟩
  match ps, cs, hg, ha with
  | [], [], hg, ha => exact hS.call_top seen p s hg ha
  | q :: qs, c :: cs, hg, ha =>
      refine Prog.wp_mono _ ?_ (hS.call_inner seen _ p s hg.1 ha)
      exact fun _ t ht => HoldsIn.rely hg ht.1 ht.2

theorem TracedSound.good_env (hS : TracedSound C base enter H P brings) {s s' : σ} (h : η)
    {cs : List (ε × (Except ξ ν → Prog σ ε ν ξ κ ω Unit))} {ps : List π} {seen : List α}
    (hg : HoldsIn C base enter seen ps cs s) (ha : P.env cs.isEmpty h s)
    (henv : H.env h s = some s') :
    HoldsIn C base enter (seen ++ brings h s) ps cs s' := by
  match ps, cs, hg, ha with
  | [], [], hg, ha => exact hS.env_top seen h s s' hg ha henv
  | q :: qs, c :: cs, hg, ha =>
      obtain ⟨hnone, hi, hr⟩ := hS.env_inner seen _ h s s' hg.1 ha henv
      rw [hnone, List.append_nil]
      exact HoldsIn.rely hg hi hr

theorem TracedSound.good_ret (hS : TracedSound C base enter H P brings) {s : σ}
    {e : ε} {k : Except ξ ν → Prog σ ε ν ξ κ ω Unit} {r : Except ξ ν}
    {cs : List (ε × (Except ξ ν → Prog σ ε ν ξ κ ω Unit))} {ps : List π} {seen : List α}
    (hg : HoldsIn C base enter seen ps ((e, k) :: cs) s) (ha : P.ret e r s) :
    Traced.Good C base enter ⟨⟨s, some (k r), cs⟩, ps, seen⟩ := by
  match ps, hg with
  | p :: ps, hg => exact ⟨p, ps, rfl, hg.2 s r hg.1 ((C seen _).refl s) (hS.ret ha)⟩

theorem TracedSound.good_step (hS : TracedSound C base enter H P brings)
    {x x' : Traced σ ε ν ξ κ ω π α} {m : Move ν ξ ω π η} (hg : x.Good C base enter)
    (ha : P.Allows x.config m) (hs : H.tracedStep brings x m = some x') :
    x'.Good C base enter := by
  obtain ⟨⟨s, code, cs⟩, ps, seen⟩ := x
  obtain ⟨c, hc, rfl⟩ := Option.map_eq_some_iff.mp hs
  cases m with
  | tau =>
      cases code with
      | none => simp [Host.step] at hc
      | some code =>
          obtain ⟨p, ps, rfl, hg⟩ := hg
          rw [Config.broughtBy, List.append_nil]
          exact Traced.good_tau hg hc
  | answer a =>
      cases code with
      | none => simp [Host.step] at hc
      | some code =>
          cases code with
          | ask q k =>
              obtain ⟨p, ps, rfl, hg⟩ := hg
              simp only [Host.step, Option.some.injEq] at hc
              subst hc
              rw [Config.broughtBy, List.append_nil]
              exact ⟨p, ps, rfl, hg a (hS.answer ha)⟩
          | done _ | read _ | upd _ _ | user _ _ | loop _ _ => simp [Host.step] at hc
  | call p =>
      cases code with
      | some p => simp [Host.step] at hc
      | none =>
          simp only [Host.step, Option.isNone_none, if_true, Option.some.injEq] at hc
          subst hc
          rw [Config.broughtBy, List.append_nil]
          exact hS.good_call p hg ha
  | ret r =>
      cases code with
      | some code => simp [Host.step] at hc
      | none =>
          cases cs with
          | nil => simp [Host.step] at hc
          | cons c₀ cs =>
              obtain ⟨e, k⟩ := c₀
              simp only [Host.step, Option.some.injEq] at hc
              subst hc
              rw [Config.broughtBy, List.append_nil]
              exact hS.good_ret hg ha
  | env h =>
      cases code with
      | some p => simp [Host.step] at hc
      | none =>
          simp only [Host.step, Option.isNone_none, if_true, Option.map_eq_some_iff] at hc
          obtain ⟨s', henv, rfl⟩ := hc
          exact hS.good_env h hg ha henv

/-- **Soundness.** Whenever control is outside the object, the contract of the
mode holds that the open methods have led to. -/
theorem TracedSound.outside {init : σ → Prop} (hS : TracedSound C base enter H P brings)
    (h₀ : ∀ s, init s → (C [] base).Inv s) {x : Traced σ ε ν ξ κ ω π α}
    (h : TracedReach H P brings init x) (ho : x.config.Outside) :
    (C x.seen (modeOf base enter x.methods)).Inv x.config.state := by
  have hg : x.Good C base enter := by
    refine h.invariant ?_ fun _ _ _ hg ha hs => hS.good_step hg ha hs
    rintro _ ⟨s, hs, rfl⟩
    exact h₀ s hs
  obtain ⟨⟨s, code, cs⟩, ps, seen⟩ := x
  obtain rfl : code = none := ho
  match ps, cs, hg with
  | [], [], hg => exact hg
  | p :: ps, (e, k) :: cs, hg => exact hg.1

end

end Tokioop.Kit
