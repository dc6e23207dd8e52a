import Tokioop.Kit.Contract

/-!
Runs with a record of the method calls.

`note p g` is what becomes of the record `g` when the method `p` is called.
The bodies know nothing of the record. `Prog.beside` is a body over states
that carry a record along, and `Host.beside` the host of these bodies, in
which calling a method makes the note. A contract of that host may relate the
state to the calls that have led to it, and `Sound.noted` is what it gives
for the runs of the host itself.
-/

namespace Tokioop.Kit

variable {σ ε ν ξ κ ω π η α β τ : Type}

/-! ### Runs -/

/-- The record after a move. -/
def Move.noteOf (note : π → τ → τ) (g : τ) : Move ν ξ ω π η → τ
  | .call p => note p g
  | .tau | .answer _ | .ret _ | .env _ => g

def Host.notedStep (H : Host σ ε ν ξ κ ω π η) (note : π → τ → τ)
    (x : Config σ ε ν ξ κ ω × τ) (m : Move ν ξ ω π η) : Option (Config σ ε ν ξ κ ω × τ) :=
  (H.step x.1 m).map fun c => (c, m.noteOf note x.2)

/-- The moments of runs that keep to the policy, each with its record. -/
abbrev NotedReach (H : Host σ ε ν ξ κ ω π η) (P : Policy σ ε ν ξ κ ω π η) (note : π → τ → τ)
    (init : σ → Prop) (g₀ : τ) : Config σ ε ν ξ κ ω × τ → Prop :=
  Runs (H.notedStep note) (fun x m => P.Allows x.1 m)
    fun x => ∃ s, init s ∧ x = (⟨s, none, []⟩, g₀)

/-- Every run can be recorded. -/
theorem Reach.noted {H : Host σ ε ν ξ κ ω π η} {P : Policy σ ε ν ξ κ ω π η} {init : σ → Prop}
    (note : π → τ → τ) (g₀ : τ) {c : Config σ ε ν ξ κ ω} (h : Reach H P init c) :
    ∃ g, NotedReach H P note init g₀ (c, g) := by
  induction h with
  | start h =>
      obtain ⟨s, hs, rfl⟩ := h
      exact ⟨g₀, .start ⟨s, hs, rfl⟩⟩
  | step m _ hok hs ih =>
      obtain ⟨g, hg⟩ := ih
      refine ⟨m.noteOf note g, hg.step m hok ?_⟩
      simp only [Host.notedStep, hs, Option.map_some]

/-! ### Bodies beside a record -/

/-- The contract next to the record `g` of code that invokes no callback. -/
def Contract.alone (C : Contract (σ × τ) ε ν ξ κ ω) (g : τ) : Contract σ ε ν ξ κ ω where
  Inv _ := False
  Rely _ _ := True
  Ret _ _ _ := False
  Answer q a s := C.Answer q a (s, g)
  refl _ := trivial
  trans _ _ := trivial

namespace Prog

/-- The same body over states that carry a record. -/
def beside (τ : Type) {α : Type} : Prog σ ε ν ξ κ ω α → Prog (σ × τ) ε ν ξ κ ω α
  | .done r => .done r
  | .read k => .read fun s => (k s.1).beside τ
  | .upd f k => .upd (fun s => (f s.1, s.2)) (k.beside τ)
  | .user e k => .user e fun r => (k r).beside τ
  | .ask q k => .ask q fun a => (k a).beside τ
  | .loop b k => .loop (b.beside τ) fun r => (k r).beside τ

theorem beside_andThen {α : Type} (p : Prog σ ε ν ξ κ ω α) (f : Except ξ α → Prog σ ε ν ξ κ ω β) :
    (p.andThen f).beside τ = (p.beside τ).andThen fun r => (f r).beside τ := by
  induction p with
  | done r => rfl
  | read k ih => exact congrArg Prog.read (funext fun s => ih s.1 f)
  | upd g k ih => exact congrArg (Prog.upd _) (ih f)
  | user e k ih => exact congrArg (Prog.user e) (funext fun r => ih r f)
  | ask q k ih => exact congrArg (Prog.ask q) (funext fun a => ih a f)
  | loop b k _ ih => exact congrArg (Prog.loop _) (funext fun r => ih r f)

theorem beside_bind (p : Prog σ ε ν ξ κ ω α) (f : α → Prog σ ε ν ξ κ ω β) :
    (p >>= f).beside τ = p.beside τ >>= fun a => (f a).beside τ := by
  refine (beside_andThen p _).trans (congrArg (andThen _) ?_)
  funext r
  cases r <;> rfl

theorem beside_ite {c : Prop} [Decidable c] (p q : Prog σ ε ν ξ κ ω α) :
    (if c then p else q).beside τ = if c then p.beside τ else q.beside τ :=
  apply_ite _ _ _ _

section

variable (C : Contract (σ × τ) ε ν ξ κ ω)

theorem wp_beside_get (Q : Except ξ σ → σ × τ → Prop) (s : σ × τ) :
    ((get : Prog σ ε ν ξ κ ω σ).beside τ).wp C Q s ↔ Q (.ok s.1) s := Iff.rfl

theorem wp_beside_modify (f : σ → σ) (Q : Except ξ Unit → σ × τ → Prop) (s : σ × τ) :
    ((modify f : Prog σ ε ν ξ κ ω Unit).beside τ).wp C Q s ↔ Q (.ok ()) (f s.1, s.2) := Iff.rfl

theorem wp_beside_query (q : κ) (Q : Except ξ ω → σ × τ → Prop) (s : σ × τ) :
    ((query q : Prog σ ε ν ξ κ ω ω).beside τ).wp C Q s ↔ ∀ a, C.Answer q a s → Q (.ok a) s :=
  Iff.rfl

theorem wp_beside_bind (p : Prog σ ε ν ξ κ ω α) (f : α → Prog σ ε ν ξ κ ω β)
    (Q : Except ξ β → σ × τ → Prop) (s : σ × τ) :
    ((p >>= f).beside τ).wp C Q s ↔ (p.beside τ).wp C (fun r t =>
      match r with
      | .ok a => ((f a).beside τ).wp C Q t
      | .error e => Q (.error e) t) s := by
  rw [beside_bind]
  exact wp_bind C _ _ Q s

theorem wp_beside_andThen (p : Prog σ ε ν ξ κ ω α) (f : Except ξ α → Prog σ ε ν ξ κ ω β)
    (Q : Except ξ β → σ × τ → Prop) (s : σ × τ) :
    ((p.andThen f).beside τ).wp C Q s ↔
      (p.beside τ).wp C (fun r t => ((f r).beside τ).wp C Q t) s := by
  rw [beside_andThen, wp_andThen]

theorem wp_beside_tryCatch (p : Prog σ ε ν ξ κ ω α) (h : ξ → Prog σ ε ν ξ κ ω α)
    (Q : Except ξ α → σ × τ → Prop) (s : σ × τ) :
    ((p.tryCatch h).beside τ).wp C Q s ↔ (p.beside τ).wp C (fun r t =>
      match r with
      | .ok a => Q (.ok a) t
      | .error e => ((h e).beside τ).wp C Q t) s := by
  rw [tryCatch, wp_beside_andThen]
  refine iff_of_eq (congrArg (fun R => (p.beside τ).wp C R s) ?_)
  funext r t
  cases r <;> rfl

/-- Code that invokes no callback leaves the record alone. -/
theorem wp_beside {α : Type} {p : Prog σ ε ν ξ κ ω α} {Q : Except ξ α → σ × τ → Prop} {s : σ}
    {g : τ}
    (h : p.wp (C.alone g) (fun r t => Q r (t, g)) s) : (p.beside τ).wp C Q (s, g) := by
  induction p generalizing s with
  | done r => exact h
  | read k ih => exact ih s h
  | upd f k ih => exact ih h
  | user e k ih => exact h.1.elim
  | ask q k ih => exact fun a ha => ih a (h a ha)
  | loop b k ihb ihk =>
      obtain ⟨J, hJ, hstep⟩ := h
      refine ⟨fun t => J t.1 ∧ t.2 = g, ⟨hJ, rfl⟩, ?_⟩
      rintro ⟨t, g'⟩ ⟨ht, rfl⟩
      refine ihb (wp_mono _ ?_ (hstep t ht))
      intro r t' hr
      match r, hr with
      | .ok true, hr => exact ⟨hr, rfl⟩
      | .ok false, hr => exact ihk _ hr
      | .error e, hr => exact ihk _ hr

end

/-! ### Bodies that keep a contract beside a record -/

variable {C : Contract (σ × τ) ε ν ξ κ ω}

def Kept (C : Contract (σ × τ) ε ν ξ κ ω) (p : Prog σ ε ν ξ κ ω α) : Prop := Keeps C (p.beside τ)

theorem kept_done (r : Except ξ α) : Kept C (.done r : Prog σ ε ν ξ κ ω α) := keeps_done r

theorem kept_get : Kept C (get : Prog σ ε ν ξ κ ω σ) := fun s hs => ⟨hs, C.refl s⟩

theorem kept_modify {f : σ → σ}
    (h : ∀ s g, C.Inv (s, g) → C.Inv (f s, g) ∧ C.Rely (s, g) (f s, g)) :
    Kept C (modify f : Prog σ ε ν ξ κ ω Unit) := fun s => h s.1 s.2

theorem kept_callback (e : ε) : Kept C (callback e : Prog σ ε ν ξ κ ω ν) := keeps_callback e

theorem kept_query (q : κ) : Kept C (query q : Prog σ ε ν ξ κ ω ω) := keeps_query q

theorem kept_andThen {p : Prog σ ε ν ξ κ ω α} {f : Except ξ α → Prog σ ε ν ξ κ ω β}
    (hp : Kept C p) (hf : ∀ r, Kept C (f r)) : Kept C (p.andThen f) := by
  unfold Kept
  rw [beside_andThen]
  exact keeps_andThen hp hf

theorem kept_bind {p : Prog σ ε ν ξ κ ω α} {f : α → Prog σ ε ν ξ κ ω β} (hp : Kept C p)
    (hf : ∀ a, Kept C (f a)) : Kept C (p >>= f) := by
  unfold Kept
  rw [beside_bind]
  exact keeps_bind hp hf

theorem kept_tryCatch {p : Prog σ ε ν ξ κ ω α} {h : ξ → Prog σ ε ν ξ κ ω α} (hp : Kept C p)
    (hh : ∀ e, Kept C (h e)) : Kept C (p.tryCatch h) :=
  kept_andThen hp fun r =>
    match r with
    | .ok _ => kept_done _
    | .error e => hh e

theorem kept_tryFinally {p : Prog σ ε ν ξ κ ω α} {q : Prog σ ε ν ξ κ ω Unit} (hp : Kept C p)
    (hq : Kept C q) : Kept C (p.tryFinally q) :=
  kept_andThen hp fun _ => kept_andThen hq fun r =>
    match r with
    | .ok _ => kept_done _
    | .error _ => kept_done _

theorem kept_ite {c : Prop} [Decidable c] {p q : Prog σ ε ν ξ κ ω α} (hp : Kept C p)
    (hq : Kept C q) : Kept C (if c then p else q) := by
  by_cases h : c
  · simpa [h] using hp
  · simpa [h] using hq

theorem kept_repeatWhile {body : Prog σ ε ν ξ κ ω Bool} (hb : Kept C body) :
    Kept C (repeatWhile body) := by
  intro s hs
  refine wp_repeatWhile C (fun t => C.Inv t ∧ C.Rely s t) ⟨hs, C.refl s⟩ ?_
  rintro t ⟨ht, hst⟩
  refine wp_mono C ?_ (hb t ht)
  rintro r u ⟨hu, htu⟩
  match r with
  | .ok true => exact ⟨hu, C.trans hst htu⟩
  | .ok false => exact ⟨hu, C.trans hst htu⟩
  | .error e => exact ⟨hu, C.trans hst htu⟩

end Prog

/-! ### Hosts beside a record -/

/-- The host whose states carry a record and whose calls are noted. -/
def Host.beside (H : Host σ ε ν ξ κ ω π η) (note : π → τ → τ) :
    Host (σ × τ) ε ν ξ κ ω π η where
  body p := .upd (fun s => (s.1, note p s.2)) ((H.body p).beside τ)
  env h s := (H.env h s.1).map fun t => (t, s.2)

def Policy.beside (P : Policy σ ε ν ξ κ ω π η) (τ : Type) : Policy (σ × τ) ε ν ξ κ ω π η where
  call top p s := P.call top p s.1
  env top h s := P.env top h s.1
  ret e r s := P.ret e r s.1
  answer q a s := P.answer q a s.1

def Config.beside (c : Config σ ε ν ξ κ ω) (g : τ) : Config (σ × τ) ε ν ξ κ ω :=
  ⟨(c.state, g), c.code.map (Prog.beside τ), c.calls.map fun f => (f.1, fun r => (f.2 r).beside τ)⟩

section

variable {H : Host σ ε ν ξ κ ω π η} {P : Policy σ ε ν ξ κ ω π η} {note : π → τ → τ}

theorem Policy.Allows.beside {c : Config σ ε ν ξ κ ω} {m : Move ν ξ ω π η} (h : P.Allows c m)
    (g : τ) : (P.beside τ).Allows (c.beside g) m := by
  obtain ⟨s, code, calls⟩ := c
  have htop : (Config.beside ⟨s, code, calls⟩ g).top = Config.top ⟨s, code, calls⟩ :=
    List.isEmpty_map
  cases m with
  | tau => trivial
  | answer a =>
      match code, h with
      | some (.ask q k), h => exact h
  | call p =>
      show P.call _ p s
      rw [htop]
      exact h
  | ret r =>
      match calls, h with
      | (e, k) :: cs, h => exact h
  | env e =>
      show P.env _ e s
      rw [htop]
      exact h

/-- A step that is not a call is a step beside the record. -/
theorem Host.beside_step {c c' : Config σ ε ν ξ κ ω} {m : Move ν ξ ω π η} (g : τ)
    (hm : ∀ p, m ≠ .call p) (h : H.step c m = some c') :
    (H.beside note).step (c.beside g) m = some (c'.beside g) := by
  obtain ⟨s, code, calls⟩ := c
  cases m with
  | call p => exact absurd rfl (hm p)
  | tau =>
      cases code with
      | none => simp [Host.step] at h
      | some p =>
          cases p with
          | done r | read k | upd f k | user e k => cases h; rfl
          | ask q k => simp [Host.step] at h
          | loop b k =>
              cases h
              simp only [Host.step, Config.beside, Option.map_some, Prog.beside,
                Prog.beside_andThen]
              congr 4
              funext r
              rcases r with e | more
              · rfl
              · cases more <;> rfl
  | answer a =>
      cases code with
      | none => simp [Host.step] at h
      | some p =>
          cases p with
          | ask q k => cases h; rfl
          | done _ | read _ | upd _ _ | user _ _ | loop _ _ => simp [Host.step] at h
  | ret r =>
      cases code with
      | some p => simp [Host.step] at h
      | none =>
          cases calls with
          | nil => simp [Host.step] at h
          | cons c₀ cs => cases h; rfl
  | env e =>
      cases code with
      | some p => simp [Host.step] at h
      | none =>
          simp only [Host.step, Option.isNone_none, if_true, Option.map_eq_some_iff] at h
          obtain ⟨t, ht, rfl⟩ := h
          simp [Host.step, Config.beside, Host.beside, ht]

/-- A recorded run is a run beside the record. -/
theorem NotedReach.beside {init : σ → Prop} {g₀ : τ} {x : Config σ ε ν ξ κ ω × τ}
    (h : NotedReach H P note init g₀ x) :
    Reach (H.beside note) (P.beside τ) (fun s => init s.1 ∧ s.2 = g₀) (x.1.beside x.2) := by
  induction h with
  | start h =>
      obtain ⟨s, hs, rfl⟩ := h
      exact .start ⟨(s, g₀), ⟨hs, rfl⟩, rfl⟩
  | @step x x' m _ hok hs ih =>
      obtain ⟨c, hc, rfl⟩ := Option.map_eq_some_iff.mp hs
      by_cases hm : ∃ p, m = .call p
      · obtain ⟨p, rfl⟩ := hm
        obtain ⟨⟨s, code, calls⟩, g⟩ := x
        match code, hc with
        | none, hc =>
            cases hc
            have hcall := ih.step (.call p) (Policy.Allows.beside hok g) rfl
            exact hcall.step .tau trivial rfl
      · have hcall : ∀ p, m ≠ .call p := fun p hp => hm ⟨p, hp⟩
        have hnote : m.noteOf note x.2 = x.2 := by
          cases m with
          | call p => exact absurd rfl (hcall p)
          | tau | answer _ | ret _ | env _ => rfl
        rw [hnote]
        exact ih.step m (hok.beside x.2) (Host.beside_step x.2 hcall hc)

/-- What a contract of the host beside a record gives for recorded runs. -/
theorem Sound.noted {C : Contract (σ × τ) ε ν ξ κ ω} {Top : σ × τ → Prop} {init : σ → Prop} {g₀ : τ}
    (hS : Sound (H.beside note) (P.beside τ) C Top) (h₀ : ∀ s, init s → Top (s, g₀))
    (hTop : ∀ s, Top s → C.Inv s) {x : Config σ ε ν ξ κ ω × τ}
    (h : NotedReach H P note init g₀ x) (ho : x.1.Outside) : C.Inv (x.1.state, x.2) := by
  have hinit : ∀ s : σ × τ, init s.1 ∧ s.2 = g₀ → Top s := by
    rintro ⟨s, g⟩ ⟨hs, rfl⟩
    exact h₀ s hs
  have hout : (x.1.beside x.2).Outside := by
    show x.1.code.map _ = none
    rw [show x.1.code = none from ho, Option.map_none]
  exact hS.inv hinit hTop h.beside hout

end

end Tokioop.Kit
