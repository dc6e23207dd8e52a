import Tokioop.Kit.Runs

/-!
Programs of an object that calls back into code it does not control.

A method of such an object reads and updates the object's state, asks the
outside world for answers, and every now and then invokes a callback. While
a callback is running the object is open: the code behind the callback may
call any method again, at any depth, before it returns or raises. `Prog` is
the shape of one method body, `Host` a collection of methods with the steps
of the environment around them, and `Config` a moment of a run: the state,
the code being executed if any, and the callbacks that have not returned.

The language of the bodies has exceptions (`Prog.done` carries an `Except`)
and loops whose body says whether to go round again. Loops are not
unfolded by recursion in the host language, so nothing here needs a
termination argument; a run is a sequence of small steps.
-/

namespace Tokioop.Kit

/-- The body of a method over states `σ`, returning an `α` or raising a `ξ`.
`user e k` invokes the callback `e` and continues with what it returned or
raised; `ask q k` continues with an answer of the outside world to `q`. -/
inductive Prog (σ ε ν ξ κ ω : Type) : Type → Type 1
  | done {α : Type} (r : Except ξ α) : Prog σ ε ν ξ κ ω α
  | read {α : Type} (k : σ → Prog σ ε ν ξ κ ω α) : Prog σ ε ν ξ κ ω α
  | upd {α : Type} (f : σ → σ) (k : Prog σ ε ν ξ κ ω α) : Prog σ ε ν ξ κ ω α
  | user {α : Type} (e : ε) (k : Except ξ ν → Prog σ ε ν ξ κ ω α) : Prog σ ε ν ξ κ ω α
  | ask {α : Type} (q : κ) (k : ω → Prog σ ε ν ξ κ ω α) : Prog σ ε ν ξ κ ω α
  | loop {α : Type} (body : Prog σ ε ν ξ κ ω Bool)
      (k : Except ξ Unit → Prog σ ε ν ξ κ ω α) : Prog σ ε ν ξ κ ω α

namespace Prog

variable {σ ε ν ξ κ ω α β : Type}

/-- Continue with the outcome of `p`, whether it returned or raised. -/
def andThen {α : Type} : Prog σ ε ν ξ κ ω α → (Except ξ α → Prog σ ε ν ξ κ ω β) →
    Prog σ ε ν ξ κ ω β
  | .done r, f => f r
  | .read k, f => .read fun s => (k s).andThen f
  | .upd g k, f => .upd g (k.andThen f)
  | .user e k, f => .user e fun r => (k r).andThen f
  | .ask q k, f => .ask q fun a => (k a).andThen f
  | .loop b k, f => .loop b fun r => (k r).andThen f

/-- Sequencing: an exception skips the rest. -/
def bind (p : Prog σ ε ν ξ κ ω α) (f : α → Prog σ ε ν ξ κ ω β) : Prog σ ε ν ξ κ ω β :=
  p.andThen fun
    | .ok a => f a
    | .error e => .done (.error e)

/-- `try p except e: h e`. -/
def tryCatch (p : Prog σ ε ν ξ κ ω α) (h : ξ → Prog σ ε ν ξ κ ω α) : Prog σ ε ν ξ κ ω α :=
  p.andThen fun
    | .ok a => .done (.ok a)
    | .error e => h e

/-- `try p finally q`: `q` runs either way, and the outcome is that of `p`
unless `q` raises itself. -/
def tryFinally (p : Prog σ ε ν ξ κ ω α) (q : Prog σ ε ν ξ κ ω Unit) : Prog σ ε ν ξ κ ω α :=
  p.andThen fun r => q.andThen fun
    | .ok _ => .done r
    | .error e => .done (.error e)

instance : Monad (Prog σ ε ν ξ κ ω) where
  pure a := .done (.ok a)
  bind := bind

def get : Prog σ ε ν ξ κ ω σ := .read fun s => .done (.ok s)

/-- Update the state in one atomic step. -/
def modify (f : σ → σ) : Prog σ ε ν ξ κ ω Unit := .upd f (.done (.ok ()))

def raise (e : ξ) : Prog σ ε ν ξ κ ω α := .done (.error e)

def callback (e : ε) : Prog σ ε ν ξ κ ω ν := .user e .done

def query (q : κ) : Prog σ ε ν ξ κ ω ω := .ask q fun a => .done (.ok a)

/-- Repeat `body` until it answers `false` or raises. -/
def repeatWhile (body : Prog σ ε ν ξ κ ω Bool) : Prog σ ε ν ξ κ ω Unit := .loop body .done

/-- What one turn of a loop continues with. -/
def afterTurn (body : Prog σ ε ν ξ κ ω Bool) (k : Except ξ Unit → Prog σ ε ν ξ κ ω α) :
    Except ξ Bool → Prog σ ε ν ξ κ ω α
  | .ok true => .loop body k
  | .ok false => k (.ok ())
  | .error e => k (.error e)

end Prog

/-! ### Runs

Code runs when it is called: from a callback that is still open, or from the
top level when no callback is. The environment moves on its own, and is told
whether it does so at the top level. -/

/-- The methods of an object and the steps of the world around it. -/
structure Host (σ ε ν ξ κ ω π η : Type) where
  body : π → Prog σ ε ν ξ κ ω Unit
  env : η → σ → Option σ

/-- A moment of a run: `code` is what is being executed, `none` when control
is outside the object; `calls` are the callbacks that have not returned, the
innermost first, each with what its caller does next. -/
structure Config (σ ε ν ξ κ ω : Type) where
  state : σ
  code : Option (Prog σ ε ν ξ κ ω Unit)
  calls : List (ε × (Except ξ ν → Prog σ ε ν ξ κ ω Unit))

/-- Control is outside the object: at the top level or inside a callback. -/
def Config.Outside {σ ε ν ξ κ ω : Type} (c : Config σ ε ν ξ κ ω) : Prop := c.code = none

/-- No callback is open. -/
def Config.top {σ ε ν ξ κ ω : Type} (c : Config σ ε ν ξ κ ω) : Bool := c.calls.isEmpty

/-- The choices a run is made of. -/
inductive Move (ν ξ ω π η : Type)
  /-- Execute one step of the running code. -/
  | tau
  /-- The outside world answers the pending question. -/
  | answer (a : ω)
  /-- A method is called from outside. -/
  | call (p : π)
  /-- The innermost callback returns or raises. -/
  | ret (r : Except ξ ν)
  /-- The environment takes a step. -/
  | env (h : η)

variable {σ ε ν ξ κ ω π η : Type}

/-- A move and the `n` steps of code that follow it. -/
def Move.andRun (m : Move ν ξ ω π η) (n : Nat) : List (Move ν ξ ω π η) :=
  m :: List.replicate n .tau

/-- One step of a run, `none` when the move is not possible. -/
def Host.step (H : Host σ ε ν ξ κ ω π η) (c : Config σ ε ν ξ κ ω) :
    Move ν ξ ω π η → Option (Config σ ε ν ξ κ ω)
  | .tau =>
      match c.code with
      | some (.done _) => some { c with code := none }
      | some (.read k) => some { c with code := some (k c.state) }
      | some (.upd f k) => some { c with state := f c.state, code := some k }
      | some (.user e k) => some { c with code := none, calls := (e, k) :: c.calls }
      | some (.loop b k) => some { c with code := some (b.andThen (Prog.afterTurn b k)) }
      | _ => none
  | .answer a =>
      match c.code with
      | some (.ask _ k) => some { c with code := some (k a) }
      | _ => none
  | .call p => if c.code.isNone then some { c with code := some (H.body p) } else none
  | .ret r =>
      match c.code, c.calls with
      | none, (_, k) :: cs => some { c with code := some (k r), calls := cs }
      | _, _ => none
  | .env h => if c.code.isNone then (H.env h c.state).map fun s => { c with state := s } else none

/-- What the outside is allowed to do. The first argument of `call` and
`env` says whether the move is made at the top level. -/
structure Policy (σ ε ν ξ κ ω π η : Type) where
  call : Bool → π → σ → Prop
  env : Bool → η → σ → Prop
  ret : ε → Except ξ ν → σ → Prop
  answer : κ → ω → σ → Prop

/-- The move keeps to the policy in this configuration. -/
def Policy.Allows (P : Policy σ ε ν ξ κ ω π η) (c : Config σ ε ν ξ κ ω) :
    Move ν ξ ω π η → Prop
  | .tau => True
  | .answer a =>
      match c.code with
      | some (.ask q _) => P.answer q a c.state
      | _ => False
  | .call p => P.call c.top p c.state
  | .ret r =>
      match c.calls with
      | (e, _) :: _ => P.ret e r c.state
      | [] => False
  | .env h => P.env c.top h c.state

/-- A policy whose clauses can be evaluated can be evaluated. -/
instance Policy.decidableAllows (P : Policy σ ε ν ξ κ ω π η)
    [∀ b p s, Decidable (P.call b p s)] [∀ b h s, Decidable (P.env b h s)]
    [∀ e r s, Decidable (P.ret e r s)] [∀ q a s, Decidable (P.answer q a s)]
    (c : Config σ ε ν ξ κ ω) : (m : Move ν ξ ω π η) → Decidable (P.Allows c m)
  | .tau => .isTrue trivial
  | .answer a =>
      match h : c.code with
      | some (.ask q _) => decidable_of_iff (P.answer q a c.state) (by simp [Allows, h])
      | none => .isFalse (by simp [Allows, h])
      | some (.done _) => .isFalse (by simp [Allows, h])
      | some (.read _) => .isFalse (by simp [Allows, h])
      | some (.upd _ _) => .isFalse (by simp [Allows, h])
      | some (.user _ _) => .isFalse (by simp [Allows, h])
      | some (.loop _ _) => .isFalse (by simp [Allows, h])
  | .call p => inferInstanceAs (Decidable (P.call c.top p c.state))
  | .ret r =>
      match h : c.calls with
      | (e, _) :: _ => decidable_of_iff (P.ret e r c.state) (by simp [Allows, h])
      | [] => .isFalse (by simp [Allows, h])
  | .env h => inferInstanceAs (Decidable (P.env c.top h c.state))

/-- The configurations of runs that start at the top level in a state
satisfying `init` and keep to the policy. -/
abbrev Reach (H : Host σ ε ν ξ κ ω π η) (P : Policy σ ε ν ξ κ ω π η) (init : σ → Prop) :
    Config σ ε ν ξ κ ω → Prop :=
  Runs H.step P.Allows fun c => ∃ s, init s ∧ c = ⟨s, none, []⟩

end Tokioop.Kit
