import Tokioop.Kit.Contract

/-!
Executing a body when the outside is known.

An `Oracle` settles what callbacks return, without calling any method on the
way, and what the outside world answers. Against an oracle a body without
loops is a function from states to outcomes, and `Prog.exec` computes it.
`Reach.exec` says that such an execution is one of the runs.
-/

namespace Tokioop.Kit

variable {σ ε ν ξ κ ω π η α β : Type}

/-- What callbacks return and the outside world answers in each state. -/
structure Oracle (σ ε ν ξ κ ω : Type) where
  ret : ε → σ → Except ξ ν
  answer : κ → σ → ω

namespace Prog

/-- The outcome of a body and the state it leaves; `none` at a loop. -/
def exec (O : Oracle σ ε ν ξ κ ω) {α : Type} :
    Prog σ ε ν ξ κ ω α → σ → Option (Except ξ α × σ)
  | .done r, s => some (r, s)
  | .read k, s => (k s).exec O s
  | .upd f k, s => k.exec O (f s)
  | .user e k, s => (k (O.ret e s)).exec O s
  | .ask q k, s => (k (O.answer q s)).exec O s
  | .loop _ _, _ => none

variable (O : Oracle σ ε ν ξ κ ω)

theorem exec_andThen {α : Type} (p : Prog σ ε ν ξ κ ω α) (f : Except ξ α → Prog σ ε ν ξ κ ω β)
    (s : σ) : (p.andThen f).exec O s = (p.exec O s).bind fun o => (f o.1).exec O o.2 := by
  induction p generalizing s with
  | done r => rfl
  | read k ih => exact ih s f s
  | upd g k ih => exact ih f (g s)
  | user e k ih => exact ih _ f s
  | ask q k ih => exact ih _ f s
  | loop b k => rfl

@[simp] theorem exec_pure (a : α) (s : σ) :
    exec O (pure a : Prog σ ε ν ξ κ ω α) s = some (.ok a, s) := rfl

@[simp] theorem exec_raise (e : ξ) (s : σ) :
    exec O (raise e : Prog σ ε ν ξ κ ω α) s = some (.error e, s) := rfl

@[simp] theorem exec_get (s : σ) :
    exec O (get : Prog σ ε ν ξ κ ω σ) s = some (.ok s, s) := rfl

@[simp] theorem exec_modify (f : σ → σ) (s : σ) :
    exec O (modify f : Prog σ ε ν ξ κ ω Unit) s = some (.ok (), f s) := rfl

@[simp] theorem exec_callback (e : ε) (s : σ) :
    exec O (callback e : Prog σ ε ν ξ κ ω ν) s = some (O.ret e s, s) := rfl

@[simp] theorem exec_query (q : κ) (s : σ) :
    exec O (query q : Prog σ ε ν ξ κ ω ω) s = some (.ok (O.answer q s), s) := rfl

@[simp] theorem exec_bind (p : Prog σ ε ν ξ κ ω α) (f : α → Prog σ ε ν ξ κ ω β) (s : σ) :
    exec O (p >>= f) s = (p.exec O s).bind fun o =>
      match o.1 with
      | .ok a => (f a).exec O o.2
      | .error e => some (.error e, o.2) := by
  refine (exec_andThen O p _ s).trans ?_
  congr 1
  funext o
  cases o.1 <;> rfl

@[simp] theorem exec_discard (p : Prog σ ε ν ξ κ ω α) (s : σ) :
    exec O (discard p : Prog σ ε ν ξ κ ω PUnit) s = (p.exec O s).map fun o =>
      (match o.1 with
        | .ok _ => .ok ⟨⟩
        | .error e => .error e, o.2) := by
  refine (exec_bind O p _ s).trans ?_
  cases p.exec O s with
  | none => rfl
  | some o => obtain ⟨r, t⟩ := o; cases r <;> rfl

@[simp] theorem exec_tryCatch (p : Prog σ ε ν ξ κ ω α) (h : ξ → Prog σ ε ν ξ κ ω α) (s : σ) :
    exec O (p.tryCatch h) s = (p.exec O s).bind fun o =>
      match o.1 with
      | .ok a => some (.ok a, o.2)
      | .error e => (h e).exec O o.2 := by
  refine (exec_andThen O p _ s).trans ?_
  congr 1
  funext o
  cases o.1 <;> rfl

@[simp] theorem exec_tryFinally (p : Prog σ ε ν ξ κ ω α) (q : Prog σ ε ν ξ κ ω Unit) (s : σ) :
    exec O (p.tryFinally q) s = (p.exec O s).bind fun o => (q.exec O o.2).map fun o' =>
      (match o'.1 with
        | .ok _ => o.1
        | .error e => .error e, o'.2) := by
  refine (exec_andThen O p _ s).trans ?_
  congr 1
  funext o
  refine (exec_andThen O q _ o.2).trans ?_
  cases q.exec O o.2 with
  | none => rfl
  | some o' => obtain ⟨r, t⟩ := o'; cases r <;> rfl

/-- What a body guarantees against every outside holds of its executions. -/
theorem exec_of_wp {C : Contract σ ε ν ξ κ ω} (hret : ∀ e s, C.Ret e (O.ret e s) s)
    (hanswer : ∀ q s, C.Answer q (O.answer q s) s) {α : Type} {p : Prog σ ε ν ξ κ ω α}
    {Q : Except ξ α → σ → Prop} {s t : σ} {r : Except ξ α} (h : p.wp C Q s)
    (he : p.exec O s = some (r, t)) : Q r t := by
  induction p generalizing s with
  | done r₀ =>
      cases he
      exact h
  | read k ih => exact ih s h he
  | upd f k ih => exact ih h he
  | user e k ih => exact ih _ (h.2 s _ h.1 (C.refl s) (hret e s)) he
  | ask q k ih => exact ih _ (h _ (hanswer q s)) he
  | loop b k => cases he

end Prog

/-- An execution against an oracle that keeps to the policy is a run. -/
theorem Reach.exec_andThen {H : Host σ ε ν ξ κ ω π η} {P : Policy σ ε ν ξ κ ω π η} {init : σ → Prop}
    {O : Oracle σ ε ν ξ κ ω} (hret : ∀ e s, P.ret e (O.ret e s) s)
    (hanswer : ∀ q s, P.answer q (O.answer q s) s) {p : Prog σ ε ν ξ κ ω α}
    {f : Except ξ α → Prog σ ε ν ξ κ ω Unit} {s s' : σ} {r : Except ξ α}
    {calls : List (ε × (Except ξ ν → Prog σ ε ν ξ κ ω Unit))}
    (h : Reach H P init ⟨s, some (p.andThen f), calls⟩) (he : p.exec O s = some (r, s')) :
    Reach H P init ⟨s', some (f r), calls⟩ := by
  induction p generalizing s with
  | done r₀ =>
      cases he
      exact h
  | read k ih => exact ih s (h.step .tau trivial rfl) he
  | upd g k ih => exact ih (h.step .tau trivial rfl) he
  | user e k ih =>
      have hopen : Reach H P init ⟨s, none, (e, fun r => (k r).andThen f) :: calls⟩ :=
        h.step .tau trivial rfl
      exact ih _ (hopen.step (.ret (O.ret e s)) (hret e s) rfl) he
  | ask q k ih => exact ih _ (h.step (.answer (O.answer q s)) (hanswer q s) rfl) he
  | loop b k => cases he

theorem Prog.andThen_done (p : Prog σ ε ν ξ κ ω α) : p.andThen .done = p := by
  induction p with
  | done r => rfl
  | read k ih => exact congrArg Prog.read (funext ih)
  | upd g k ih => exact congrArg (Prog.upd g) ih
  | user e k ih => exact congrArg (Prog.user e) (funext ih)
  | ask q k ih => exact congrArg (Prog.ask q) (funext ih)
  | loop b k _ ih => exact congrArg (Prog.loop b) (funext ih)

/-- A method that is called from outside runs to its end. -/
theorem Reach.exec {H : Host σ ε ν ξ κ ω π η} {P : Policy σ ε ν ξ κ ω π η} {init : σ → Prop}
    {O : Oracle σ ε ν ξ κ ω} (hret : ∀ e s, P.ret e (O.ret e s) s)
    (hanswer : ∀ q s, P.answer q (O.answer q s) s) {c : Config σ ε ν ξ κ ω} {m : π} {s' : σ}
    {r : Except ξ Unit} (h : Reach H P init c) (ho : c.Outside) (hcall : P.call c.top m c.state)
    (he : (H.body m).exec O c.state = some (r, s')) :
    Reach H P init ⟨s', none, c.calls⟩ := by
  obtain ⟨s, code, calls⟩ := c
  obtain rfl : code = none := ho
  have hcode : Reach H P init ⟨s, some (H.body m), calls⟩ := h.step (.call m) hcall rfl
  rw [← (H.body m).andThen_done] at hcode
  exact (Reach.exec_andThen hret hanswer hcode he).step .tau trivial rfl

/-- A body gets to `q` in state `t` by reading and updating only. -/
inductive Prog.Leads : Prog σ ε ν ξ κ ω α → σ → Prog σ ε ν ξ κ ω α → σ → Prop
  | refl {p : Prog σ ε ν ξ κ ω α} {s : σ} : Prog.Leads p s p s
  | read {k : σ → Prog σ ε ν ξ κ ω α} {q : Prog σ ε ν ξ κ ω α} {s t : σ}
      (h : Prog.Leads (k s) s q t) : Prog.Leads (.read k) s q t
  | upd {f : σ → σ} {k q : Prog σ ε ν ξ κ ω α} {s t : σ} (h : Prog.Leads k (f s) q t) :
      Prog.Leads (.upd f k) s q t

/-- What follows a body waits until the body is through. -/
theorem Prog.Leads.andThen {p q : Prog σ ε ν ξ κ ω α} {s t : σ} (h : p.Leads s q t)
    (f : Except ξ α → Prog σ ε ν ξ κ ω β) : (p.andThen f).Leads s (q.andThen f) t := by
  induction h with
  | refl => exact .refl
  | read _ ih => exact .read ih
  | upd _ ih => exact .upd ih

theorem Reach.leads {H : Host σ ε ν ξ κ ω π η} {P : Policy σ ε ν ξ κ ω π η} {init : σ → Prop}
    {p q : Prog σ ε ν ξ κ ω Unit} {s t : σ}
    {calls : List (ε × (Except ξ ν → Prog σ ε ν ξ κ ω Unit))}
    (h : Reach H P init ⟨s, some p, calls⟩) (hl : p.Leads s q t) :
    Reach H P init ⟨t, some q, calls⟩ := by
  induction hl with
  | refl => exact h
  | read _ ih => exact ih (h.step .tau trivial rfl)
  | upd _ ih => exact ih (h.step .tau trivial rfl)

end Tokioop.Kit
