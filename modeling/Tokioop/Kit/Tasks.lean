import Mathlib.Logic.Relation
import Tokioop.Kit.Exec
import Tokioop.Kit.Guarantee

/-!
Tasks of a cooperative scheduler.

A coroutine is code whose callbacks are the places where it awaits: it runs
without interruption up to the next of them (`RunsTo`), and other code runs
there before it is resumed with a result or an exception, a cancellation for
one. `Ends` is the outcome of a coroutine in surroundings of which it is known
what each await may do. In a `Pool` these surroundings are other coroutines of
the same kind. What each of them relies on while it waits is what the others
guarantee with every update they make; each is verified by itself, and
`Pool.Run.sound` puts the proofs together.
-/

namespace Tokioop.Kit

variable {σ ε ν ξ κ ω α : Type}

namespace Prog

/-- The code does not run on by itself: it awaits, or it has ended. -/
def Suspended {α : Type} : Prog σ ε ν ξ κ ω α → Prop
  | .done _ | .user _ _ => True
  | .read _ | .upd _ _ | .ask _ _ | .loop _ _ => False

/-- From `p` in `s` the code gets to `q` in `t` without awaiting, where the
outside world answers in the ways `ans` allows. -/
inductive RunsTo (ans : κ → ω → σ → Prop) {α : Type} :
    Prog σ ε ν ξ κ ω α → σ → Prog σ ε ν ξ κ ω α → σ → Prop
  | stop {p : Prog σ ε ν ξ κ ω α} {s : σ} (h : p.Suspended) : RunsTo ans p s p s
  | read {k : σ → Prog σ ε ν ξ κ ω α} {s t : σ} {q : Prog σ ε ν ξ κ ω α}
      (h : RunsTo ans (k s) s q t) : RunsTo ans (.read k) s q t
  | upd {f : σ → σ} {k q : Prog σ ε ν ξ κ ω α} {s t : σ} (h : RunsTo ans k (f s) q t) :
      RunsTo ans (.upd f k) s q t
  | ask {c : κ} {k : ω → Prog σ ε ν ξ κ ω α} {s t : σ} {q : Prog σ ε ν ξ κ ω α} (a : ω)
      (ha : ans c a s) (h : RunsTo ans (k a) s q t) : RunsTo ans (.ask c k) s q t
  | loop {b : Prog σ ε ν ξ κ ω Bool} {k : Except ξ Unit → Prog σ ε ν ξ κ ω α} {s t : σ}
      {q : Prog σ ε ν ξ κ ω α} (h : RunsTo ans (b.andThen (afterTurn b k)) s q t) :
      RunsTo ans (.loop b k) s q t

/-- The coroutine `p`, called in `s`, ends with the outcome `r` in `t`; `aw e s r s'`
says that what is awaited by `e` may end so. -/
inductive Ends (ans : κ → ω → σ → Prop) (aw : ε → σ → Except ξ ν → σ → Prop) {α : Type} :
    Prog σ ε ν ξ κ ω α → σ → Except ξ α → σ → Prop
  | returns {p : Prog σ ε ν ξ κ ω α} {s t : σ} {r : Except ξ α}
      (h : RunsTo ans p s (.done r) t) : Ends ans aw p s r t
  | awaits {p : Prog σ ε ν ξ κ ω α} {s u v t : σ} {e : ε}
      {k : Except ξ ν → Prog σ ε ν ξ κ ω α} {x : Except ξ ν} {r : Except ξ α}
      (h : RunsTo ans p s (.user e k) u) (ha : aw e u x v) (hk : Ends ans aw (k x) v r t) :
      Ends ans aw p s r t

variable {ans : κ → ω → σ → Prop} {aw : ε → σ → Except ξ ν → σ → Prop}
  {C : Contract σ ε ν ξ κ ω} {G : σ → σ → Prop}

/-! ### What is proved of the code -/

theorem RunsTo.suspended {p q : Prog σ ε ν ξ κ ω α} {s t : σ} (h : p.RunsTo ans s q t) :
    q.Suspended := by
  induction h with
  | stop h => exact h
  | read _ ih | upd _ ih | ask _ _ _ ih | loop _ ih => exact ih

/-- Code that is suspended has looked at nothing yet. -/
theorem Suspended.guards_any {q : Prog σ ε ν ξ κ ω α} (hq : q.Suspended) {s : σ}
    (h : q.guards G s) (t : σ) : q.guards G t := by
  cases q with
  | done r => trivial
  | user e k => exact h
  | read _ | upd _ _ | ask _ _ | loop _ _ => cases hq

/-- Up to where the code stops, and from there on. -/
theorem RunsTo.wp (hans : ∀ c a s, ans c a s → C.Answer c a s) {p q : Prog σ ε ν ξ κ ω α}
    {s t : σ} {Q : Except ξ α → σ → Prop} (h : p.RunsTo ans s q t) (hp : p.wp C Q s) :
    q.wp C Q t := by
  induction h with
  | stop _ => exact hp
  | read _ ih => exact ih hp
  | upd _ ih => exact ih hp
  | ask a ha _ ih => exact ih (hp a (hans _ _ _ ha))
  | @loop b k s t q _ ih =>
      obtain ⟨J, hJ, hstep⟩ := hp
      refine ih ?_
      rw [wp_andThen]
      refine wp_mono C ?_ (hstep s hJ)
      intro r u hu
      rcases r with e | more
      · exact hu
      · cases more with
        | false => exact hu
        | true => exact ⟨J, hu, hstep⟩

/-- What has been done on the way. -/
theorem RunsTo.guards {p q : Prog σ ε ν ξ κ ω α} {s t : σ} (h : p.RunsTo ans s q t)
    (hp : p.guards G s) : q.guards G t ∧ Relation.ReflTransGen G s t := by
  induction h with
  | stop _ => exact ⟨hp, .refl⟩
  | read _ ih => exact ih hp
  | upd _ ih => exact ⟨(ih hp.2).1, .head hp.1 (ih hp.2).2⟩
  | ask a _ _ ih => exact ih (hp a)
  | @loop b k s t q _ ih =>
      refine ih (guards_andThen (hp s).1 fun r => ?_)
      rcases r with e | more
      · exact fun u => (hp u).2 _
      · cases more with
        | false => exact fun u => (hp u).2 _
        | true => exact fun _ => hp

/-- A coroutine whose awaits keep to the contract ends as it has been proved to. -/
theorem Ends.sound (hans : ∀ c a s, ans c a s → C.Answer c a s)
    (haw : ∀ e s r t, aw e s r t → C.Inv s → C.Inv t ∧ C.Rely s t ∧ C.Ret e r t)
    {p : Prog σ ε ν ξ κ ω α} {s t : σ} {r : Except ξ α} {Q : Except ξ α → σ → Prop}
    (h : p.Ends ans aw s r t) (hp : p.wp C Q s) : Q r t := by
  induction h with
  | returns h => exact h.wp hans hp
  | awaits h ha _ ih =>
      obtain ⟨hinv, hk⟩ := h.wp hans hp
      obtain ⟨hv, hrely, hret⟩ := haw _ _ _ _ ha hinv
      exact ih (hk _ _ hv hrely hret)

/-! ### Executions -/

theorem Ends.read {k : σ → Prog σ ε ν ξ κ ω α} {s t : σ} {r : Except ξ α}
    (h : (k s).Ends ans aw s r t) : (Prog.read k).Ends ans aw s r t := by
  cases h with
  | returns h => exact .returns (.read h)
  | awaits h ha hk => exact .awaits (.read h) ha hk

theorem Ends.upd {f : σ → σ} {k : Prog σ ε ν ξ κ ω α} {s t : σ} {r : Except ξ α}
    (h : k.Ends ans aw (f s) r t) : (Prog.upd f k).Ends ans aw s r t := by
  cases h with
  | returns h => exact .returns (.upd h)
  | awaits h ha hk => exact .awaits (.upd h) ha hk

theorem Ends.ask {c : κ} {k : ω → Prog σ ε ν ξ κ ω α} {s t : σ} {r : Except ξ α} (a : ω)
    (ha : ans c a s) (h : (k a).Ends ans aw s r t) : (Prog.ask c k).Ends ans aw s r t := by
  cases h with
  | returns h => exact .returns (.ask a ha h)
  | awaits h hw hk => exact .awaits (.ask a ha h) hw hk

/-- Against the oracle, the code awaits nothing but what is `ok`. -/
def meets (O : Oracle σ ε ν ξ κ ω) (ok : ε → Bool) {α : Type} : Prog σ ε ν ξ κ ω α → σ → Bool
  | .done _, _ => true
  | .read k, s => (k s).meets O ok s
  | .upd f k, s => k.meets O ok (f s)
  | .user e k, s => ok e && (k (O.ret e s)).meets O ok s
  | .ask c k, s => (k (O.answer c s)).meets O ok s
  | .loop _ _, _ => false

/-- An oracle describes one outcome of a coroutine. -/
theorem Ends.of_exec {O : Oracle σ ε ν ξ κ ω} {ok : ε → Bool}
    (hans : ∀ c s, ans c (O.answer c s) s) (haw : ∀ e s, ok e = true → aw e s (O.ret e s) s)
    {p : Prog σ ε ν ξ κ ω α} {s t : σ} {r : Except ξ α} (hp : p.meets O ok s = true)
    (h : p.exec O s = some (r, t)) : p.Ends ans aw s r t := by
  induction p generalizing s with
  | done x =>
      cases h
      exact .returns (.stop trivial)
  | read k ih => exact .read (ih s hp h)
  | upd f k ih => exact .upd (ih hp h)
  | user e k ih =>
      have hboth := Bool.and_eq_true_iff.mp hp
      exact .awaits (.stop trivial) (haw e s hboth.1) (ih _ hboth.2 h)
  | ask c k ih => exact .ask _ (hans c s) (ih _ hp h)
  | loop b k => cases h

/-- An outcome of which only some of it is of interest. -/
theorem Ends.of_oracle (O : Oracle σ ε ν ξ κ ω) (ok : ε → Bool)
    (hans : ∀ c s, ans c (O.answer c s) s) (haw : ∀ e s, ok e = true → aw e s (O.ret e s) s)
    {p : Prog σ ε ν ξ κ ω α} {s : σ} (hp : p.meets O ok s = true)
    (good : Except ξ α → σ → Bool) (h : (p.exec O s).any (fun o => good o.1 o.2) = true) :
    ∃ r t, p.Ends ans aw s r t ∧ good r t = true := by
  obtain ⟨⟨r, t⟩, hexec, hgood⟩ := (Option.any_eq_true _ _).mp h
  exact ⟨r, t, .of_exec hans haw hp hexec, hgood⟩

/-- Up to where the code awaits or ends, against the answers of an oracle;
`none` at a loop. -/
def advance (O : Oracle σ ε ν ξ κ ω) {α : Type} :
    Prog σ ε ν ξ κ ω α → σ → Option (Prog σ ε ν ξ κ ω α × σ)
  | .done r, s => some (.done r, s)
  | .user e k, s => some (.user e k, s)
  | .read k, s => (k s).advance O s
  | .upd f k, s => k.advance O (f s)
  | .ask c k, s => (k (O.answer c s)).advance O s
  | .loop _ _, _ => none

theorem RunsTo.of_advance {O : Oracle σ ε ν ξ κ ω} (hans : ∀ c s, ans c (O.answer c s) s)
    {p q : Prog σ ε ν ξ κ ω α} {s t : σ} (h : p.advance O s = some (q, t)) :
    p.RunsTo ans s q t := by
  induction p generalizing s with
  | done r | user e k =>
      cases h
      exact .stop trivial
  | read k ih => exact .read (ih s h)
  | upd f k ih => exact .upd (ih h)
  | ask c k ih => exact .ask _ (hans c s) (ih _ h)
  | loop b k => cases h

end Prog

/-! ### Tasks among each other -/

/-- The tasks, each where it awaits or has ended, and the state they share. -/
structure Pool (σ ε ν ξ κ ω α : Type) where
  state : σ
  tasks : List (Prog σ ε ν ξ κ ω α)

/-- Again and again one of the tasks is resumed, and runs up to where it next
awaits or ends. -/
inductive Pool.Run (ans : κ → ω → σ → Prop) (ret : ε → Except ξ ν → σ → Prop) :
    Pool σ ε ν ξ κ ω α → Pool σ ε ν ξ κ ω α → Prop
  | start (p : Pool σ ε ν ξ κ ω α) : Run ans ret p p
  | resume {p p' : Pool σ ε ν ξ κ ω α} (h : Run ans ret p p') {i : Nat} {e : ε}
      {k : Except ξ ν → Prog σ ε ν ξ κ ω α} {r : Except ξ ν} {q : Prog σ ε ν ξ κ ω α} {t : σ}
      (hi : p'.tasks[i]? = some (.user e k)) (hr : ret e r p'.state)
      (hq : (k r).RunsTo ans p'.state q t) : Run ans ret p ⟨t, p'.tasks.set i q⟩

/-- The tasks are resumed in the given order with the given results. -/
def Pool.play (O : Oracle σ ε ν ξ κ ω) : List (Nat × Except ξ ν) → Pool σ ε ν ξ κ ω α →
    Option (Pool σ ε ν ξ κ ω α)
  | [], p => some p
  | (i, r) :: rest, p =>
      match p.tasks[i]? with
      | some (.user _ k) =>
          ((k r).advance O p.state).bind fun qt => play O rest ⟨qt.2, p.tasks.set i qt.1⟩
      | _ => none

theorem Pool.Run.of_play {ans : κ → ω → σ → Prop} {ret : ε → Except ξ ν → σ → Prop}
    {O : Oracle σ ε ν ξ κ ω} (hans : ∀ c s, ans c (O.answer c s) s) (hret : ∀ e r s, ret e r s)
    {p : Pool σ ε ν ξ κ ω α} (turns : List (Nat × Except ξ ν)) {p₁ p₂ : Pool σ ε ν ξ κ ω α}
    (h₁ : Pool.Run ans ret p p₁) (h : p₁.play O turns = some p₂) : Pool.Run ans ret p p₂ := by
  induction turns generalizing p₁ with
  | nil =>
      cases h
      exact h₁
  | cons turn turns ih =>
      obtain ⟨i, r⟩ := turn
      unfold Pool.play at h
      split at h
      · rename_i e k hi
        obtain ⟨⟨q, t⟩, hq, hrest⟩ := Option.bind_eq_some_iff.mp h
        exact ih (h₁.resume hi (hret e r _) (.of_advance hans hq)) hrest
      · cases h

/-- The `i`-th task can be verified by itself: it relies on no more than what
the others guarantee. -/
structure Separate (C : Nat → Contract σ ε ν ξ κ ω) (G : Nat → σ → σ → Prop)
    (Q : Nat → Except ξ α → σ → Prop) : Prop where
  rely : ∀ {i j s t}, i ≠ j → (C j).Inv s → G i s t → (C j).Inv t ∧ (C j).Rely s t
  stable : ∀ {i j r s t}, i ≠ j → Q j r s → G i s t → Q j r t

/-- Every task will end as it has been proved to, whatever the others do. -/
def Pool.Verified (C : Nat → Contract σ ε ν ξ κ ω) (G : Nat → σ → σ → Prop)
    (Q : Nat → Except ξ α → σ → Prop) (p : Pool σ ε ν ξ κ ω α) : Prop :=
  ∀ i (q : Prog σ ε ν ξ κ ω α), p.tasks[i]? = some q →
    q.Suspended ∧ q.wp (C i) (Q i) p.state ∧ q.guards (G i) p.state

section

variable {C : Nat → Contract σ ε ν ξ κ ω} {G : Nat → σ → σ → Prop}
  {Q : Nat → Except ξ α → σ → Prop}

/-- A task that waits or has ended does not mind what another one does. -/
theorem Separate.wp_other (hS : Separate C G Q) {i j : Nat} (hij : i ≠ j)
    {q : Prog σ ε ν ξ κ ω α} {s t : σ} (hq : q.Suspended) (hwp : q.wp (C j) (Q j) s)
    (hg : q.guards (G j) s) (h : Relation.ReflTransGen (G i) s t) :
    q.wp (C j) (Q j) t ∧ q.guards (G j) t := by
  induction h with
  | refl => exact ⟨hwp, hg⟩
  | tail _ hstep ih =>
      cases q with
      | done r => exact ⟨hS.stable hij ih.1 hstep, trivial⟩
      | user e k =>
          obtain ⟨⟨hinv, hk⟩, hg'⟩ := ih
          obtain ⟨hinv', hrely⟩ := hS.rely hij hinv hstep
          exact ⟨⟨hinv', fun u r hu hur hr => hk u r hu ((C j).trans hrely hur) hr⟩, hg'⟩
      | read _ | upd _ _ | ask _ _ | loop _ _ => cases hq

/-- **Soundness of pools.** Tasks that are verified by themselves end as they
have been proved to in every interleaving. -/
theorem Pool.Run.sound {ans : κ → ω → σ → Prop} {ret : ε → Except ξ ν → σ → Prop}
    (hS : Separate C G Q) (hans : ∀ j c a s, ans c a s → (C j).Answer c a s)
    (hret : ∀ j e r s, ret e r s → (C j).Ret e r s) {p p' : Pool σ ε ν ξ κ ω α}
    (h : Pool.Run ans ret p p') (hp : p.Verified C G Q) : p'.Verified C G Q := by
  induction h with
  | start => exact hp
  | @resume p' _ i e k r q t hi hr hq ih =>
      obtain ⟨-, ⟨hinv, hk⟩, hg⟩ := ih i _ hi
      have hrun := hk p'.state r hinv ((C i).refl _) (hret i e r _ hr)
      obtain ⟨hg', hsteps⟩ := hq.guards (hg r p'.state)
      intro j q' hj
      rw [List.getElem?_set] at hj
      split at hj
      · rename_i hij
        subst hij
        split at hj
        · cases hj
          exact ⟨hq.suspended, hq.wp (hans i) hrun, hg'⟩
        · cases hj
      · rename_i hij
        obtain ⟨hsus, hwp, hgj⟩ := ih j q' hj
        exact ⟨hsus, hS.wp_other hij hsus hwp hgj hsteps⟩

/-- What the tasks have done to the state together. -/
theorem Pool.Run.changes {ans : κ → ω → σ → Prop} {ret : ε → Except ξ ν → σ → Prop}
    {D : σ → σ → Prop} (hrefl : ∀ s, D s s) (htrans : ∀ {s t u}, D s t → D t u → D s u)
    {p p' : Pool σ ε ν ξ κ ω α} (hG : ∀ {i s t}, i < p.tasks.length → G i s t → D s t)
    (h : Pool.Run ans ret p p') (hp : ∀ i (q : Prog σ ε ν ξ κ ω α), p.tasks[i]? = some q →
      ∀ s, q.guards (G i) s) :
    p'.tasks.length = p.tasks.length ∧ D p.state p'.state := by
  have hall : (∀ i (q : Prog σ ε ν ξ κ ω α), p'.tasks[i]? = some q → ∀ s, q.guards (G i) s) ∧
      p'.tasks.length = p.tasks.length ∧ D p.state p'.state := by
    induction h with
    | start => exact ⟨hp, rfl, hrefl _⟩
    | @resume p' _ i e k r q t hi hr hq ih =>
        obtain ⟨hguards, hlen, hd⟩ := ih
        have hk : (k r).guards (G i) p'.state := hguards i _ hi p'.state r p'.state
        obtain ⟨hg', hsteps⟩ := hq.guards hk
        have hlt : i < p.tasks.length := hlen ▸ (List.getElem?_eq_some_iff.mp hi).1
        refine ⟨fun j q' hj s => ?_, by rw [List.length_set, hlen], ?_⟩
        · rw [List.getElem?_set] at hj
          split at hj
          · rename_i hij
            subst hij
            split at hj
            · cases hj
              exact hq.suspended.guards_any hg' s
            · cases hj
          · exact hguards j q' hj s
        · refine htrans hd ?_
          clear hr hq hi hg' hk
          induction hsteps with
          | refl => exact hrefl _
          | tail _ hstep ih => exact htrans ih (hG hlt hstep)
  exact hall.2

end

end Tokioop.Kit
