import Tokioop.Kit.Contract

/-!
What a single step of code does to the state.

A contract speaks of the moments at which control is outside the object. Who
shares something with the object, such as the other end of a connection, may
look at it at any moment. `Guarantees G p` says that every update that `p`
makes is a `G` step; it is checked along the code, where the state is known
from one callback to the next and arbitrary after a callback. What the bodies
of a host guarantee, every step of its runs other than those of the
environment keeps to.
-/

namespace Tokioop.Kit

variable {σ ε ν ξ κ ω π η α β : Type}

namespace Prog

/-- From state `s`, the updates that the code makes are `G` steps. -/
def guards (G : σ → σ → Prop) {α : Type} : Prog σ ε ν ξ κ ω α → σ → Prop
  | .done _, _ => True
  | .read k, s => (k s).guards G s
  | .upd f k, s => G s (f s) ∧ k.guards G (f s)
  | .user _ k, _ => ∀ r t, (k r).guards G t
  | .ask _ k, s => ∀ a, (k a).guards G s
  | .loop b k, _ => ∀ t, b.guards G t ∧ ∀ r, (k r).guards G t

/-- The updates that the code makes from anywhere are `G` steps. -/
def Guarantees (G : σ → σ → Prop) (p : Prog σ ε ν ξ κ ω α) : Prop := ∀ s, p.guards G s

variable {G : σ → σ → Prop}

theorem guards_andThen {α : Type} {p : Prog σ ε ν ξ κ ω α}
    {f : Except ξ α → Prog σ ε ν ξ κ ω β} {s : σ} (hp : p.guards G s)
    (hf : ∀ r, Guarantees G (f r)) : (p.andThen f).guards G s := by
  induction p generalizing s with
  | done r => exact hf r s
  | read k ih => exact ih s hp hf
  | upd g k ih => exact ⟨hp.1, ih hp.2 hf⟩
  | user e k ih => exact fun r t => ih r (hp r t) hf
  | ask q k ih => exact fun a => ih a (hp a) hf
  | loop b k ihb ihk => exact fun t => ⟨(hp t).1, fun r => ihk r ((hp t).2 r) hf⟩

/-! ### Code made of parts -/

theorem guarantees_done (r : Except ξ α) : Guarantees G (.done r : Prog σ ε ν ξ κ ω α) :=
  fun _ => trivial

theorem guarantees_get : Guarantees G (get : Prog σ ε ν ξ κ ω σ) := fun _ => trivial

theorem guarantees_modify {f : σ → σ} (h : ∀ s, G s (f s)) :
    Guarantees G (modify f : Prog σ ε ν ξ κ ω Unit) := fun s => ⟨h s, trivial⟩

theorem guarantees_callback (e : ε) : Guarantees G (callback e : Prog σ ε ν ξ κ ω ν) :=
  fun _ _ _ => trivial

theorem guarantees_query (q : κ) : Guarantees G (query q : Prog σ ε ν ξ κ ω ω) :=
  fun _ _ => trivial

theorem guarantees_andThen {p : Prog σ ε ν ξ κ ω α} {f : Except ξ α → Prog σ ε ν ξ κ ω β}
    (hp : Guarantees G p) (hf : ∀ r, Guarantees G (f r)) : Guarantees G (p.andThen f) :=
  fun s => guards_andThen (hp s) hf

theorem guarantees_bind {p : Prog σ ε ν ξ κ ω α} {f : α → Prog σ ε ν ξ κ ω β}
    (hp : Guarantees G p) (hf : ∀ a, Guarantees G (f a)) : Guarantees G (p >>= f) := by
  refine guarantees_andThen hp fun r => ?_
  cases r with
  | ok a => exact hf a
  | error e => exact guarantees_done _

theorem guarantees_discard {p : Prog σ ε ν ξ κ ω α} (hp : Guarantees G p) :
    Guarantees G (discard p : Prog σ ε ν ξ κ ω PUnit) :=
  guarantees_bind hp fun _ => guarantees_done _

theorem guarantees_tryCatch {p : Prog σ ε ν ξ κ ω α} {h : ξ → Prog σ ε ν ξ κ ω α}
    (hp : Guarantees G p) (hh : ∀ e, Guarantees G (h e)) : Guarantees G (p.tryCatch h) := by
  refine guarantees_andThen hp fun r => ?_
  cases r with
  | ok a => exact guarantees_done _
  | error e => exact hh e

theorem guarantees_tryFinally {p : Prog σ ε ν ξ κ ω α} {q : Prog σ ε ν ξ κ ω Unit}
    (hp : Guarantees G p) (hq : Guarantees G q) : Guarantees G (p.tryFinally q) := by
  refine guarantees_andThen hp fun _ => guarantees_andThen hq fun r => ?_
  cases r with
  | ok a => exact guarantees_done _
  | error e => exact guarantees_done _

theorem guarantees_ite {c : Prop} [Decidable c] {p q : Prog σ ε ν ξ κ ω α}
    (hp : Guarantees G p) (hq : Guarantees G q) : Guarantees G (if c then p else q) := by
  by_cases h : c
  · simpa [h] using hp
  · simpa [h] using hq

theorem guarantees_repeatWhile {body : Prog σ ε ν ξ κ ω Bool} (hb : Guarantees G body) :
    Guarantees G (repeatWhile body) := fun _ t => ⟨hb t, fun _ => trivial⟩

end Prog

/-! ### Runs -/

/-- The code that is being executed and the code behind the open callbacks make
`G` steps only. -/
def Config.Guarded (G : σ → σ → Prop) (c : Config σ ε ν ξ κ ω) : Prop :=
  (∀ p, c.code = some p → p.guards G c.state) ∧
    ∀ x ∈ c.calls, ∀ r, Prog.Guarantees G (x.2 r)

section

variable {G : σ → σ → Prop} {H : Host σ ε ν ξ κ ω π η} {P : Policy σ ε ν ξ κ ω π η}

theorem Config.guarded_outside {s : σ}
    {cs : List (ε × (Except ξ ν → Prog σ ε ν ξ κ ω Unit))}
    (hcs : ∀ x ∈ cs, ∀ r, Prog.Guarantees G (x.2 r)) : Config.Guarded G ⟨s, none, cs⟩ := by
  refine ⟨fun p hp => ?_, hcs⟩
  cases hp

theorem Config.guarded_inside {s : σ} {p : Prog σ ε ν ξ κ ω Unit}
    {cs : List (ε × (Except ξ ν → Prog σ ε ν ξ κ ω Unit))} (hp : p.guards G s)
    (hcs : ∀ x ∈ cs, ∀ r, Prog.Guarantees G (x.2 r)) : Config.Guarded G ⟨s, some p, cs⟩ := by
  refine ⟨fun q hq => ?_, hcs⟩
  cases hq
  exact hp

/-- A step of the code: it is guarded, and so is what is left of it. -/
theorem Config.Guarded.tau {s : σ} {p : Prog σ ε ν ξ κ ω Unit}
    {cs : List (ε × (Except ξ ν → Prog σ ε ν ξ κ ω Unit))} {c : Config σ ε ν ξ κ ω}
    (hg : Config.Guarded G ⟨s, some p, cs⟩) (hs : H.step ⟨s, some p, cs⟩ .tau = some c) :
    c.Guarded G ∧ (c.state = s ∨ G s c.state) := by
  obtain ⟨hcode, hcalls⟩ := hg
  have hp := hcode p rfl
  cases p with
  | done r =>
      cases hs
      exact ⟨guarded_outside hcalls, .inl rfl⟩
  | read k =>
      cases hs
      exact ⟨guarded_inside hp hcalls, .inl rfl⟩
  | upd f k =>
      cases hs
      exact ⟨guarded_inside hp.2 hcalls, .inr hp.1⟩
  | user e k =>
      cases hs
      refine ⟨guarded_outside fun x hx => ?_, .inl rfl⟩
      rcases List.mem_cons.mp hx with rfl | hx
      · exact fun r t => hp r t
      · exact hcalls x hx
  | ask q k => simp [Host.step] at hs
  | loop b k =>
      cases hs
      refine ⟨guarded_inside ?_ hcalls, .inl rfl⟩
      refine Prog.guards_andThen (hp s).1 fun r => ?_
      rcases r with e | more
      · exact fun t => (hp t).2 _
      · cases more with
        | false => exact fun t => (hp t).2 _
        | true => exact fun _ => hp

/-- One step of a run: the environment moves, or what the bodies guarantee
holds of it. -/
theorem Config.Guarded.step (hH : ∀ p, Prog.Guarantees G (H.body p)) {c c' : Config σ ε ν ξ κ ω}
    {m : Move ν ξ ω π η} (hg : c.Guarded G) (hs : H.step c m = some c') :
    c'.Guarded G ∧ (c'.state = c.state ∨ G c.state c'.state ∨
      ∃ h, m = .env h ∧ H.env h c.state = some c'.state) := by
  obtain ⟨s, code, cs⟩ := c
  cases m with
  | tau =>
      cases code with
      | none => simp [Host.step] at hs
      | some p =>
          obtain ⟨hg', hst⟩ := hg.tau hs
          exact ⟨hg', hst.imp_right .inl⟩
  | answer a =>
      cases code with
      | none => simp [Host.step] at hs
      | some p =>
          cases p with
          | ask q k =>
              cases hs
              exact ⟨guarded_inside (hg.1 _ rfl a) hg.2, .inl rfl⟩
          | done _ | read _ | upd _ _ | user _ _ | loop _ _ => simp [Host.step] at hs
  | call p =>
      cases code with
      | some p => simp [Host.step] at hs
      | none =>
          cases hs
          exact ⟨guarded_inside (hH p s) hg.2, .inl rfl⟩
  | ret r =>
      cases code with
      | some p => simp [Host.step] at hs
      | none =>
          cases cs with
          | nil => simp [Host.step] at hs
          | cons x cs =>
              cases hs
              refine ⟨guarded_inside (hg.2 x List.mem_cons_self r s) fun y hy => ?_, .inl rfl⟩
              exact hg.2 y (List.mem_cons_of_mem _ hy)
  | env h =>
      cases code with
      | some p => simp [Host.step] at hs
      | none =>
          simp only [Host.step, Option.isNone_none, if_true, Option.map_eq_some_iff] at hs
          obtain ⟨t, ht, rfl⟩ := hs
          exact ⟨guarded_outside hg.2, .inr (.inr ⟨h, rfl, ht⟩)⟩

theorem Reach.guarded (hH : ∀ p, Prog.Guarantees G (H.body p)) {init : σ → Prop}
    {c : Config σ ε ν ξ κ ω} (h : Reach H P init c) : c.Guarded G := by
  refine h.invariant ?_ fun c m c' hg _ hs => (hg.step hH hs).1
  rintro c ⟨s, -, rfl⟩
  exact Config.guarded_outside fun x hx => by cases hx

end

end Tokioop.Kit
