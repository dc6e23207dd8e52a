import Tokioop.Kit.Prog

/-!
The reasoning kit for objects that call back: a weakest precondition for
method bodies and the theorem that turns per-method proofs into a fact about
every run.

A `Contract` fixes what holds whenever control is handed to a callback
(`Inv`) and how the state may have moved by the time the callback returns
(`Rely`). A body is verified against the contract alone: at each `user` node
it has to establish `Inv`, and it may then assume any later state that
satisfies `Inv` and is related by `Rely`. Nothing is said about which methods
the callback called, how deeply, or in which order; that every method keeps
the contract is what makes the assumption sound, and `Sound.outside` is that
argument, made once by induction on the run.
-/

namespace Tokioop.Kit

variable {σ ε ν ξ κ ω π η α β : Type}

/-- What code and callbacks promise each other. -/
structure Contract (σ ε ν ξ κ ω : Type) where
  Inv : σ → Prop
  Rely : σ → σ → Prop
  Ret : ε → Except ξ ν → σ → Prop
  Answer : κ → ω → σ → Prop
  refl : ∀ s, Rely s s
  trans : ∀ {s t u}, Rely s t → Rely t u → Rely s u

/-- The contract of code that runs where `P` holds as well. -/
def Contract.within (C : Contract σ ε ν ξ κ ω) (P : σ → Prop) : Contract σ ε ν ξ κ ω :=
  { C with Inv := fun s => C.Inv s ∧ P s }

namespace Prog

/-- The states from which `p` respects the contract and ends, if it ends, in
an outcome and a state satisfying `Q`. A loop is verified by an invariant of
its own. -/
def wp (C : Contract σ ε ν ξ κ ω) {α : Type} :
    Prog σ ε ν ξ κ ω α → (Except ξ α → σ → Prop) → σ → Prop
  | .done r, Q, s => Q r s
  | .read k, Q, s => (k s).wp C Q s
  | .upd f k, Q, s => k.wp C Q (f s)
  | .user e k, Q, s =>
      C.Inv s ∧ ∀ s' r, C.Inv s' → C.Rely s s' → C.Ret e r s' → (k r).wp C Q s'
  | .ask q k, Q, s => ∀ a, C.Answer q a s → (k a).wp C Q s
  | .loop b k, Q, s => ∃ J : σ → Prop, J s ∧ ∀ t, J t → b.wp C (fun r t' =>
      match r with
      | .ok true => J t'
      | .ok false => (k (.ok ())).wp C Q t'
      | .error e => (k (.error e)).wp C Q t') t

variable (C : Contract σ ε ν ξ κ ω)

theorem wp_mono {α : Type} {p : Prog σ ε ν ξ κ ω α} {Q Q' : Except ξ α → σ → Prop}
    (hQ : ∀ r s, Q r s → Q' r s) {s : σ} (h : p.wp C Q s) : p.wp C Q' s := by
  induction p generalizing s with
  | done r => exact hQ r s h
  | read k ih => exact ih s hQ h
  | upd f k ih => exact ih hQ h
  | user e k ih => exact ⟨h.1, fun s' r hi hr ha => ih r hQ (h.2 s' r hi hr ha)⟩
  | ask q k ih => exact fun a ha => ih a hQ (h a ha)
  | loop b k ihb ihk =>
      obtain ⟨J, hJ, hstep⟩ := h
      refine ⟨J, hJ, fun t ht => ihb ?_ (hstep t ht)⟩
      intro r t' hr
      match r, hr with
      | .ok true, hr => exact hr
      | .ok false, hr => exact ihk _ hQ hr
      | .error e, hr => exact ihk _ hQ hr

theorem wp_andThen {α : Type} (p : Prog σ ε ν ξ κ ω α) (f : Except ξ α → Prog σ ε ν ξ κ ω β)
    (Q : Except ξ β → σ → Prop) (s : σ) :
    (p.andThen f).wp C Q s ↔ p.wp C (fun r t => (f r).wp C Q t) s := by
  induction p generalizing s with
  | done r => exact Iff.rfl
  | read k ih => exact ih s f s
  | upd g k ih => exact ih f (g s)
  | user e k ih =>
      simp only [andThen, wp]
      exact and_congr Iff.rfl (forall_congr' fun s' => forall_congr' fun r =>
        imp_congr Iff.rfl (imp_congr Iff.rfl (imp_congr Iff.rfl (ih r f s'))))
  | ask q k ih =>
      simp only [andThen, wp]
      exact forall_congr' fun a => imp_congr Iff.rfl (ih a f s)
  | loop b k ihb ihk =>
      simp only [andThen, wp]
      simp only [ihk]

/-- Where callbacks keep `P`, code that respects the contract within `P`
respects the contract. -/
theorem wp_of_within {P : σ → Prop} (hP : ∀ {s t}, P s → C.Rely s t → P t) {α : Type}
    {p : Prog σ ε ν ξ κ ω α} {Q : Except ξ α → σ → Prop} {s : σ} (h : p.wp (C.within P) Q s) :
    p.wp C Q s := by
  induction p generalizing s with
  | done r => exact h
  | read k ih => exact ih s h
  | upd f k ih => exact ih h
  | user e k ih => exact ⟨h.1.1, fun s' r hi hr ha => ih r (h.2 s' r ⟨hi, hP h.1.2 hr⟩ hr ha)⟩
  | ask q k ih => exact fun a ha => ih a (h a ha)
  | loop b k ihb ihk =>
      obtain ⟨J, hJ, hstep⟩ := h
      refine ⟨J, hJ, fun t ht => wp_mono C ?_ (ihb (hstep t ht))⟩
      intro r t' hr
      match r, hr with
      | .ok true, hr => exact hr
      | .ok false, hr => exact ihk _ hr
      | .error e, hr => exact ihk _ hr

/-- What can be established one at a time can be established together. -/
theorem wp_forall {ι : Type} [Nonempty ι] {p : Prog σ ε ν ξ κ ω α} {Q : ι → Except ξ α → σ → Prop}
    {s : σ} (h : ∀ i, p.wp C (Q i) s) : p.wp C (fun r t => ∀ i, Q i r t) s := by
  induction p generalizing s with
  | done r => exact h
  | read k ih => exact ih s h
  | upd f k ih => exact ih h
  | user e k ih =>
      obtain ⟨i⟩ := ‹Nonempty ι›
      exact ⟨(h i).1, fun s' r hi hr ha => ih r fun i => (h i).2 s' r hi hr ha⟩
  | ask q k ih => exact fun a ha => ih a fun i => h i a ha
  | loop b k ihb ihk =>
      -- One loop invariant for each.
      choose J hJ hstep using h
      refine ⟨fun t => ∀ i, J i t, hJ, fun t ht => wp_mono C ?_ (ihb fun i => hstep i t (ht i))⟩
      intro r t' hr
      cases r with
      | error e => exact ihk _ hr
      | ok more =>
          cases more with
          | false => exact ihk _ hr
          | true => exact hr

theorem wp_and {p : Prog σ ε ν ξ κ ω α} {Q Q' : Except ξ α → σ → Prop} {s : σ}
    (h : p.wp C Q s) (h' : p.wp C Q' s) : p.wp C (fun r t => Q r t ∧ Q' r t) s := by
  have hboth : ∀ b : Bool, p.wp C (fun r t => if b then Q r t else Q' r t) s := by
    intro b
    cases b with
    | true => exact wp_mono C (fun _ _ hq => hq) h
    | false => exact wp_mono C (fun _ _ hq => by simpa using hq) h'
  refine wp_mono C (fun r t hq => ⟨?_, ?_⟩) (wp_forall C hboth)
  · simpa using hq true
  · simpa using hq false

/-! ### The rules a method proof is written in -/

@[simp] theorem wp_pure (a : α) (Q : Except ξ α → σ → Prop) (s : σ) :
    wp C (pure a : Prog σ ε ν ξ κ ω α) Q s ↔ Q (.ok a) s := Iff.rfl

@[simp] theorem wp_raise (e : ξ) (Q : Except ξ α → σ → Prop) (s : σ) :
    wp C (raise e : Prog σ ε ν ξ κ ω α) Q s ↔ Q (.error e) s := Iff.rfl

@[simp] theorem wp_get (Q : Except ξ σ → σ → Prop) (s : σ) :
    wp C (get : Prog σ ε ν ξ κ ω σ) Q s ↔ Q (.ok s) s := Iff.rfl

@[simp] theorem wp_modify (f : σ → σ) (Q : Except ξ Unit → σ → Prop) (s : σ) :
    wp C (modify f : Prog σ ε ν ξ κ ω Unit) Q s ↔ Q (.ok ()) (f s) := Iff.rfl

@[simp] theorem wp_query (q : κ) (Q : Except ξ ω → σ → Prop) (s : σ) :
    wp C (query q : Prog σ ε ν ξ κ ω ω) Q s ↔ ∀ a, C.Answer q a s → Q (.ok a) s := Iff.rfl

@[simp] theorem wp_bind (p : Prog σ ε ν ξ κ ω α) (f : α → Prog σ ε ν ξ κ ω β)
    (Q : Except ξ β → σ → Prop) (s : σ) :
    wp C (p >>= f) Q s ↔ p.wp C (fun r t =>
      match r with
      | .ok a => (f a).wp C Q t
      | .error e => Q (.error e) t) s := by
  change (p.andThen _).wp C Q s ↔ _
  rw [wp_andThen]
  refine iff_of_eq (congrArg (fun R => p.wp C R s) ?_)
  funext r t
  cases r <;> rfl

@[simp] theorem wp_discard (p : Prog σ ε ν ξ κ ω α) (Q : Except ξ PUnit → σ → Prop) (s : σ) :
    wp C (discard p : Prog σ ε ν ξ κ ω PUnit) Q s ↔ p.wp C (fun r t =>
      match r with
      | .ok _ => Q (.ok ⟨⟩) t
      | .error e => Q (.error e) t) s := by
  change wp C (p >>= fun _ => pure PUnit.unit) Q s ↔ _
  rw [wp_bind]
  rfl

@[simp] theorem wp_tryCatch (p : Prog σ ε ν ξ κ ω α) (h : ξ → Prog σ ε ν ξ κ ω α)
    (Q : Except ξ α → σ → Prop) (s : σ) :
    wp C (p.tryCatch h) Q s ↔ p.wp C (fun r t =>
      match r with
      | .ok a => Q (.ok a) t
      | .error e => (h e).wp C Q t) s := by
  rw [tryCatch, wp_andThen]
  refine iff_of_eq (congrArg (fun R => p.wp C R s) ?_)
  funext r t
  cases r <;> rfl

@[simp] theorem wp_tryFinally (p : Prog σ ε ν ξ κ ω α) (q : Prog σ ε ν ξ κ ω Unit)
    (Q : Except ξ α → σ → Prop) (s : σ) :
    wp C (p.tryFinally q) Q s ↔ p.wp C (fun r t => q.wp C (fun r' u =>
      match r' with
      | .ok _ => Q r u
      | .error e => Q (.error e) u) t) s := by
  rw [tryFinally, wp_andThen]
  refine iff_of_eq (congrArg (fun R => p.wp C R s) ?_)
  funext r t
  rw [wp_andThen]
  refine congrArg (fun R => q.wp C R t) ?_
  funext r' u
  cases r' <;> rfl

/-- What is known after the body is enough for the `finally` clause, which has the last
word if it raises. -/
theorem wp_tryFinally_of {p : Prog σ ε ν ξ κ ω α} {q : Prog σ ε ν ξ κ ω Unit}
    {R Q : Except ξ α → σ → Prop} {s : σ} (hp : p.wp C R s)
    (hq : ∀ r t, R r t → q.wp C (fun r' u =>
      (r' = .ok () → Q r u) ∧ ∀ e, r' = .error e → Q (.error e) u) t) :
    (p.tryFinally q).wp C Q s := by
  rw [wp_tryFinally]
  refine wp_mono C (fun r t ht => wp_mono C ?_ (hq r t ht)) hp
  intro r' u hu
  cases r' with
  | ok a => exact hu.1 rfl
  | error e => exact hu.2 e rfl

/-- Where only the state matters, `finally` is sequencing. -/
theorem wp_finally {p : Prog σ ε ν ξ κ ω α} {q : Prog σ ε ν ξ κ ω Unit} {Q : σ → Prop} {s : σ}
    (h : p.wp C (fun _ t => q.wp C (fun _ => Q) t) s) : (p.tryFinally q).wp C (fun _ => Q) s := by
  rw [wp_tryFinally]
  refine wp_mono C (fun r t ht => wp_mono C ?_ ht) h
  intro r' u hu
  cases r' <;> exact hu

/-- The loop rule: `J` holds on entry and after every turn that goes on. -/
theorem wp_repeatWhile {body : Prog σ ε ν ξ κ ω Bool} {Q : Except ξ Unit → σ → Prop} {s : σ}
    (J : σ → Prop) (hs : J s)
    (hbody : ∀ t, J t → body.wp C (fun r t' =>
      match r with
      | .ok true => J t'
      | .ok false => Q (.ok ()) t'
      | .error e => Q (.error e) t') t) :
    (repeatWhile body).wp C Q s :=
  ⟨J, hs, hbody⟩

/-! ### Bodies that keep the contract

Most methods do not have to be looked into: a body made of parts that keep
the contract keeps the contract. -/

/-- From any state satisfying the invariant the body keeps it, and its effect
is one that callers rely on. -/
def Keeps {α : Type} (p : Prog σ ε ν ξ κ ω α) : Prop :=
  ∀ s, C.Inv s → p.wp C (fun _ s' => C.Inv s' ∧ C.Rely s s') s

variable {C}

theorem keeps_done (r : Except ξ α) : Keeps C (.done r : Prog σ ε ν ξ κ ω α) :=
  fun s hs => ⟨hs, C.refl s⟩

theorem keeps_get : Keeps C (get : Prog σ ε ν ξ κ ω σ) := fun s hs => ⟨hs, C.refl s⟩

theorem keeps_modify {f : σ → σ} (h : ∀ s, C.Inv s → C.Inv (f s) ∧ C.Rely s (f s)) :
    Keeps C (modify f : Prog σ ε ν ξ κ ω Unit) := h

theorem keeps_callback (e : ε) : Keeps C (callback e : Prog σ ε ν ξ κ ω ν) :=
  fun _ hs => ⟨hs, fun _ _ hs' hr _ => ⟨hs', hr⟩⟩

theorem keeps_query (q : κ) : Keeps C (query q : Prog σ ε ν ξ κ ω ω) :=
  fun s hs _ _ => ⟨hs, C.refl s⟩

/-- Go on from a state that an earlier part of the body has led to. -/
theorem wp_since {p : Prog σ ε ν ξ κ ω α} {s t : σ} (hr : C.Rely s t)
    (h : p.wp C (fun _ u => C.Inv u ∧ C.Rely t u) t) :
    p.wp C (fun _ u => C.Inv u ∧ C.Rely s u) t :=
  wp_mono C (fun _ _ hu => ⟨hu.1, C.trans hr hu.2⟩) h

theorem Keeps.after {p : Prog σ ε ν ξ κ ω α} (h : Keeps C p) {s t : σ} (ht : C.Inv t)
    (hr : C.Rely s t) : p.wp C (fun _ s' => C.Inv s' ∧ C.Rely s s') t :=
  wp_since hr (h t ht)

theorem keeps_andThen {p : Prog σ ε ν ξ κ ω α} {f : Except ξ α → Prog σ ε ν ξ κ ω β}
    (hp : Keeps C p) (hf : ∀ r, Keeps C (f r)) : Keeps C (p.andThen f) := by
  intro s hs
  rw [wp_andThen]
  exact wp_mono C (fun r t ht => (hf r).after ht.1 ht.2) (hp s hs)

theorem keeps_bind {p : Prog σ ε ν ξ κ ω α} {f : α → Prog σ ε ν ξ κ ω β} (hp : Keeps C p)
    (hf : ∀ a, Keeps C (f a)) : Keeps C (p >>= f) :=
  keeps_andThen hp fun r =>
    match r with
    | .ok a => hf a
    | .error _ => keeps_done _

/-- Sequencing from a state about which more is known. -/
theorem keeps_then {p : Prog σ ε ν ξ κ ω α} {f : α → Prog σ ε ν ξ κ ω β} {s : σ}
    (hp : p.wp C (fun _ t => C.Inv t ∧ C.Rely s t) s)
    (hf : ∀ a t, C.Inv t → C.Rely s t → (f a).wp C (fun _ u => C.Inv u ∧ C.Rely t u) t) :
    (p >>= f).wp C (fun _ u => C.Inv u ∧ C.Rely s u) s := by
  rw [wp_bind]
  refine wp_mono C ?_ hp
  rintro r t ⟨ht, htr⟩
  cases r with
  | error e => exact ⟨ht, htr⟩
  | ok a => exact wp_since htr (hf a t ht htr)

theorem keeps_tryCatch {p : Prog σ ε ν ξ κ ω α} {h : ξ → Prog σ ε ν ξ κ ω α} (hp : Keeps C p)
    (hh : ∀ e, Keeps C (h e)) : Keeps C (p.tryCatch h) :=
  keeps_andThen hp fun r =>
    match r with
    | .ok _ => keeps_done _
    | .error e => hh e

theorem keeps_ite {c : Prop} [Decidable c] {p q : Prog σ ε ν ξ κ ω α} (hp : Keeps C p)
    (hq : Keeps C q) : Keeps C (if c then p else q) := by
  by_cases h : c
  · simpa [h] using hp
  · simpa [h] using hq

end Prog

/-! ### From methods to runs -/

/-- The proof obligations of a contract for a host under a policy: what every
method and every step of the environment has to keep, at the top level
(`Top`) and inside callbacks (`C.Inv`). -/
structure Sound (H : Host σ ε ν ξ κ ω π η) (P : Policy σ ε ν ξ κ ω π η)
    (C : Contract σ ε ν ξ κ ω) (Top : σ → Prop) : Prop where
  ret : ∀ {e r s}, P.ret e r s → C.Ret e r s
  answer : ∀ {q a s}, P.answer q a s → C.Answer q a s
  call_top : ∀ p s, Top s → P.call true p s → (H.body p).wp C (fun _ s' => Top s') s
  call_inner : ∀ p s, C.Inv s → P.call false p s →
    (H.body p).wp C (fun _ s' => C.Inv s' ∧ C.Rely s s') s
  env_top : ∀ h s s', Top s → P.env true h s → H.env h s = some s' → Top s'
  env_inner : ∀ h s s', C.Inv s → P.env false h s → H.env h s = some s' →
    C.Inv s' ∧ C.Rely s s'

/-- The open callbacks may go on in state `s`. -/
def Contract.Holds (C : Contract σ ε ν ξ κ ω) (Top : σ → Prop) :
    List (ε × (Except ξ ν → Prog σ ε ν ξ κ ω Unit)) → σ → Prop
  | [], s => Top s
  | (e, k) :: cs, s => C.Inv s ∧ ∀ s' r, C.Inv s' → C.Rely s s' → C.Ret e r s' →
      (k r).wp C (fun _ t => C.Holds Top cs t) s'

theorem Contract.Holds.rely {C : Contract σ ε ν ξ κ ω} {Top : σ → Prop}
    {c : ε × (Except ξ ν → Prog σ ε ν ξ κ ω Unit)}
    {cs : List (ε × (Except ξ ν → Prog σ ε ν ξ κ ω Unit))} {s s' : σ}
    (h : C.Holds Top (c :: cs) s) (hi : C.Inv s') (hr : C.Rely s s') :
    C.Holds Top (c :: cs) s' :=
  ⟨hi, fun t r hti htr => h.2 t r hti (C.trans hr htr)⟩

/-- The invariant of whole configurations. -/
def Config.Good (C : Contract σ ε ν ξ κ ω) (Top : σ → Prop) (c : Config σ ε ν ξ κ ω) : Prop :=
  match c.code with
  | none => C.Holds Top c.calls c.state
  | some p => p.wp C (fun _ t => C.Holds Top c.calls t) c.state

section Soundness

variable {H : Host σ ε ν ξ κ ω π η} {P : Policy σ ε ν ξ κ ω π η}
  {C : Contract σ ε ν ξ κ ω} {Top : σ → Prop}

theorem Sound.good_tau (p : Prog σ ε ν ξ κ ω Unit) {s : σ}
    {cs : List (ε × (Except ξ ν → Prog σ ε ν ξ κ ω Unit))} {c' : Config σ ε ν ξ κ ω}
    (hg : p.wp C (fun _ t => C.Holds Top cs t) s)
    (hs : H.step ⟨s, some p, cs⟩ .tau = some c') : c'.Good C Top := by
  cases p with
  | done r =>
      simp only [Host.step, Option.some.injEq] at hs
      subst hs
      exact hg
  | read k =>
      simp only [Host.step, Option.some.injEq] at hs
      subst hs
      exact hg
  | upd f k =>
      simp only [Host.step, Option.some.injEq] at hs
      subst hs
      exact hg
  | user e k =>
      simp only [Host.step, Option.some.injEq] at hs
      subst hs
      exact hg
  | ask q k => simp [Host.step] at hs
  | loop b k =>
      simp only [Host.step, Option.some.injEq] at hs
      subst hs
      obtain ⟨J, hJ, hstep⟩ := hg
      change (b.andThen (Prog.afterTurn b k)).wp C _ s
      rw [Prog.wp_andThen]
      refine Prog.wp_mono C ?_ (hstep s hJ)
      intro r t hr
      rcases r with e | more
      · exact hr
      cases more with
      | false => exact hr
      | true => exact ⟨J, hr, hstep⟩

theorem Sound.good_step (hS : Sound H P C Top) {c c' : Config σ ε ν ξ κ ω}
    {m : Move ν ξ ω π η} (hg : c.Good C Top) (ha : P.Allows c m)
    (hs : H.step c m = some c') : c'.Good C Top := by
  obtain ⟨s, code, cs⟩ := c
  cases m with
  | tau =>
      cases code with
      | none => simp [Host.step] at hs
      | some p => exact Sound.good_tau p hg hs
  | answer a =>
      cases code with
      | none => simp [Host.step] at hs
      | some p =>
          cases p with
          | ask q k =>
              simp only [Host.step, Option.some.injEq] at hs
              subst hs
              exact hg a (hS.answer ha)
          | done _ | read _ | upd _ _ | user _ _ | loop _ _ => simp [Host.step] at hs
  | call p =>
      cases code with
      | some p => simp [Host.step] at hs
      | none =>
          simp only [Host.step, Option.isNone_none, if_true, Option.some.injEq] at hs
          subst hs
          cases cs with
          | nil => exact hS.call_top p s hg ha
          | cons c₀ cs =>
              refine Prog.wp_mono C ?_ (hS.call_inner p s hg.1 ha)
              exact fun _ t ht => Contract.Holds.rely hg ht.1 ht.2
  | ret r =>
      cases code with
      | some p => simp [Host.step] at hs
      | none =>
          cases cs with
          | nil => simp [Host.step] at hs
          | cons c₀ cs =>
              obtain ⟨e, k⟩ := c₀
              simp only [Host.step, Option.some.injEq] at hs
              subst hs
              exact hg.2 s r hg.1 (C.refl s) (hS.ret ha)
  | env h =>
      cases code with
      | some p => simp [Host.step] at hs
      | none =>
          simp only [Host.step, Option.isNone_none, if_true, Option.map_eq_some_iff] at hs
          obtain ⟨s', henv, rfl⟩ := hs
          cases cs with
          | nil => exact hS.env_top h s s' hg ha henv
          | cons c₀ cs =>
              obtain ⟨hi, hr⟩ := hS.env_inner h s s' hg.1 ha henv
              exact Contract.Holds.rely hg hi hr

theorem Sound.good {init : σ → Prop} (hS : Sound H P C Top) (h₀ : ∀ s, init s → Top s)
    {c : Config σ ε ν ξ κ ω} (h : Reach H P init c) : c.Good C Top := by
  refine h.invariant ?_ fun c m c' hg ha hs => hS.good_step hg ha hs
  rintro c ⟨s, hs, rfl⟩
  exact h₀ s hs

/-- **Soundness.** Whenever control is outside the object, the state
satisfies `Top` if no callback is open and `C.Inv` otherwise. -/
theorem Sound.outside {init : σ → Prop} (hS : Sound H P C Top) (h₀ : ∀ s, init s → Top s)
    {c : Config σ ε ν ξ κ ω} (h : Reach H P init c) (ho : c.Outside) :
    if c.top then Top c.state else C.Inv c.state := by
  have hg := hS.good h₀ h
  obtain ⟨s, code, cs⟩ := c
  cases ho
  cases cs with
  | nil => exact hg
  | cons c₀ cs => exact hg.1

/-- The invariant holds whenever control is outside, if it is part of what
holds at the top level. -/
theorem Sound.inv {init : σ → Prop} (hS : Sound H P C Top) (h₀ : ∀ s, init s → Top s)
    (hTop : ∀ s, Top s → C.Inv s) {c : Config σ ε ν ξ κ ω} (h : Reach H P init c)
    (ho : c.Outside) : C.Inv c.state := by
  have hout := hS.outside h₀ h ho
  split at hout
  · exact hTop _ hout
  · exact hout

end Soundness

end Tokioop.Kit
