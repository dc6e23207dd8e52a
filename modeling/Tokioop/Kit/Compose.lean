import Tokioop.Kit.Guarantee

/-!
Properties of code that are checked part by part.

That a body keeps a contract and that its updates are of one kind are proved
in the same way: of its parts, with nothing to say about how the parts are put
together. A property is `Compositional` if that is all there is to it. What is
shown of a method for every compositional property that its single steps have
need not be shown again for each of them.
-/

namespace Tokioop.Kit

variable {σ ε ν ξ κ ω : Type}

namespace Prog

/-- A property of code that code made of parts with the property has. -/
structure Compositional (Φ : (α : Type) → Prog σ ε ν ξ κ ω α → Prop) : Prop where
  done : ∀ {α : Type} (r : Except ξ α), Φ α (.done r)
  read : ∀ {α : Type} {k : σ → Prog σ ε ν ξ κ ω α}, (∀ s, Φ α (k s)) → Φ α (.read k)
  andThen : ∀ {α β : Type} {p : Prog σ ε ν ξ κ ω α} {f : Except ξ α → Prog σ ε ν ξ κ ω β},
    Φ α p → (∀ r, Φ β (f r)) → Φ β (p.andThen f)
  callback : ∀ e, Φ ν (callback e)
  query : ∀ q, Φ ω (query q)
  repeatWhile : ∀ {body : Prog σ ε ν ξ κ ω Bool}, Φ Bool body → Φ Unit (repeatWhile body)

theorem compositional_keeps (C : Contract σ ε ν ξ κ ω) :
    Compositional fun _ (p : Prog σ ε ν ξ κ ω _) => Keeps C p where
  done := keeps_done
  read h s := h s s
  andThen := keeps_andThen
  callback := keeps_callback
  query := keeps_query
  repeatWhile := by
    intro body hb s hs
    refine wp_repeatWhile C (fun t => C.Inv t ∧ C.Rely s t) ⟨hs, C.refl s⟩ fun t ht => ?_
    refine wp_mono C ?_ (hb.after ht.1 ht.2)
    intro r u hu
    rcases r with e | more
    · exact hu
    · cases more with
      | false => exact hu
      | true => exact hu

theorem compositional_guarantees (G : σ → σ → Prop) :
    Compositional fun _ (p : Prog σ ε ν ξ κ ω _) => Guarantees G p where
  done := guarantees_done
  read h s := h s s
  andThen := guarantees_andThen
  callback := guarantees_callback
  query := guarantees_query
  repeatWhile := guarantees_repeatWhile

theorem holds_ite {Φ : (α : Type) → Prog σ ε ν ξ κ ω α → Prop} {α : Type} {c : Prop} [Decidable c]
    {p q : Prog σ ε ν ξ κ ω α} (hp : Φ α p) (hq : Φ α q) : Φ α (if c then p else q) := by
  by_cases h : c
  · simpa [h] using hp
  · simpa [h] using hq

namespace Compositional

variable {Φ : (α : Type) → Prog σ ε ν ξ κ ω α → Prop} (hΦ : Compositional Φ) {α β : Type}
include hΦ

theorem bind {p : Prog σ ε ν ξ κ ω α} {f : α → Prog σ ε ν ξ κ ω β} (hp : Φ α p)
    (hf : ∀ a, Φ β (f a)) : Φ β (p >>= f) := by
  refine hΦ.andThen hp fun r => ?_
  cases r with
  | ok a => exact hf a
  | error e => exact hΦ.done _

/-- Code that looks at the state first. -/
theorem get_bind {f : σ → Prog σ ε ν ξ κ ω β} (hf : ∀ s, Φ β (f s)) : Φ β (get >>= f) :=
  hΦ.bind (hΦ.read fun _ => hΦ.done _) hf

theorem discard {p : Prog σ ε ν ξ κ ω α} (hp : Φ α p) : Φ PUnit (discard p) :=
  hΦ.bind hp fun _ => hΦ.done _

theorem tryCatch {p : Prog σ ε ν ξ κ ω α} {h : ξ → Prog σ ε ν ξ κ ω α} (hp : Φ α p)
    (hh : ∀ e, Φ α (h e)) : Φ α (p.tryCatch h) := by
  refine hΦ.andThen hp fun r => ?_
  cases r with
  | ok a => exact hΦ.done _
  | error e => exact hh e

end Compositional

end Prog

end Tokioop.Kit
