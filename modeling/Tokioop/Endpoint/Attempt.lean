import Tokioop.Endpoint.Connect
import Tokioop.Kit.Compose
import Tokioop.Kit.Tasks

/-!
One attempt to connect.

`_connect_sock` works on what belongs to its address and on nothing else, and
relies on nobody else working on it. Whatever its calls and awaits end with,
it either leaves a socket that is open and connected, or a closed one if it
has made any.
-/

namespace Tokioop.Endpoint

open Kit Kit.Prog

variable {lib : Lib}

/-! ### Calls and awaits -/

section

variable {C : Contract Net Await Value Exc Call (Option Exc)} {s : Net}

theorem wp_call {c : Call} {Q : Except Exc Unit → Net → Prop}
    (hok : C.Answer c none s → Q (.ok ()) ((s.noted (.call c none)).effect c none))
    (herr : ∀ e, C.Answer c (some e) s →
      Q (.error e) ((s.noted (.call c (some e))).effect c (some e))) : (call c).wp C Q s := by
  unfold call
  rw [wp_bind, wp_query]
  intro raised ha
  cases raised with
  | none => exact hok ha
  | some e => exact herr e ha

theorem wp_await {a : Await} {Q : Except Exc Value → Net → Prop} (hs : C.Inv s)
    (h : ∀ t r, C.Inv t → C.Rely s t → C.Ret a r t → Q r ((t.noted (.await a r)).settled a r)) :
    (await a).wp C Q s := by
  unfold await
  rw [wp_andThen]
  refine ⟨hs, fun t r ht htr hr => ?_⟩
  have hq := h t r ht htr hr
  cases r with
  | ok v => exact hq
  | error e => exact hq

end

/-! ### Before there are sockets -/

/-- The coroutine has made no socket and no transport in between. -/
structure Still (s t : Net) : Prop where
  attempts : t.attempts = s.attempts
  given : t.given = s.given
  transport : t.transport = s.transport

theorem Still.refl (s : Net) : Still s s := ⟨rfl, rfl, rfl⟩

theorem Still.trans {s t u : Net} (h : Still s t) (h' : Still t u) : Still s u :=
  ⟨h'.attempts.trans h.attempts, h'.given.trans h.given, h'.transport.trans h.transport⟩

theorem wp_resolved {C : Contract Net Await Value Exc Call (Option Exc)}
    {address : Option String × Option String} {family type proto flags : Nat} {s : Net}
    (hI : ∀ s, C.Inv s) (hR : ∀ t, C.Rely s t → Still s t) :
    (resolved lib address family type proto flags).wp C (fun _ t => Still s t) s := by
  have hensure : (ensureResolved lib address family type proto flags).wp C
      (fun _ t => Still s t) s := by
    unfold ensureResolved
    split
    · exact .refl s
    · rw [wp_bind]
      refine wp_await (hI s) fun t r _ ht _ => ?_
      have hstill : ∀ step, Still s (t.noted step) := fun _ => (hR t ht).trans ⟨rfl, rfl, rfl⟩
      rcases r with e | v
      · exact hstill _
      · cases v with
        | infos infos => exact hstill _
        | unit | winner k => exact hstill _
  unfold resolved
  rw [wp_bind]
  refine wp_mono _ (fun r t ht => ?_) hensure
  cases r with
  | error e => exact ht
  | ok infos =>
      show wp _ (if infos = [] then _ else _) _ t
      split
      · exact ht
      · exact ht

/-- Nobody else changes anything while the coroutine waits. -/
def quietContract : Contract Net Await Value Exc Call (Option Exc) where
  Inv _ := True
  Rely s t := t = s
  Ret _ _ _ := True
  Answer _ _ _ := True
  refl _ := rfl
  trans h h' := h'.trans h

/-! ### What belongs to an address -/

/-- What is there for the `k`-th address. -/
def At (k : Nat) (x : Attempt) (s : Net) : Prop := s.attempts[k]? = some x

/-- One of the addresses has been tried. -/
def Net.Begun (s : Net) : Prop := ∃ j x, At j x s ∧ x.tried = true

/-- The update is one of the `k`-th attempt. -/
structure Within (k : Nat) (s t : Net) : Prop where
  others : ∀ j, j ≠ k → t.attempts[j]? = s.attempts[j]?
  length : t.attempts.length = s.attempts.length
  begun : s.Begun → t.Begun
  given : t.given = s.given
  transport : t.transport = s.transport

theorem Within.refl (k : Nat) (s : Net) : Within k s s := ⟨fun _ _ => rfl, rfl, id, rfl, rfl⟩

theorem Within.trans {k : Nat} {s t u : Net} (h : Within k s t) (h' : Within k t u) :
    Within k s u :=
  ⟨fun j hj => (h'.others j hj).trans (h.others j hj), h'.length.trans h.length,
    h'.begun ∘ h.begun, h'.given.trans h.given, h'.transport.trans h.transport⟩

theorem Within.noted (k : Nat) (s : Net) (step : Step) : Within k s (s.noted step) :=
  ⟨fun _ _ => rfl, rfl, id, rfl, rfl⟩

theorem within_modifyAttempt (k : Nat) (s : Net) {f : Attempt → Attempt}
    (hf : ∀ x, x.tried = true → (f x).tried = true) : Within k s (s.modifyAttempt k f) := by
  refine ⟨fun j hj => ?_, List.length_modify .., fun ⟨j, x, hx, ht⟩ => ?_, rfl, rfl⟩
  · simp [Net.modifyAttempt, Ne.symm hj]
  · by_cases hj : k = j
    · exact ⟨j, f x, by simp [At, Net.modifyAttempt, hj, show s.attempts[j]? = some x from hx],
        hf x ht⟩
    · exact ⟨j, x, by simpa [At, Net.modifyAttempt, hj] using hx, ht⟩

theorem At.modify {k : Nat} {x : Attempt} {s : Net} (h : At k x s) (f : Attempt → Attempt) :
    At k (f x) (s.modifyAttempt k f) := by
  simp [At, Net.modifyAttempt, show s.attempts[k]? = some x from h]

theorem At.modifySock {k : Nat} {x : Attempt} {s : Net} {sk : Sock} (h : At k x s)
    (hsk : x.sock = some sk) (f : Sock → Sock) :
    At k { x with sock := some (f sk) } (s.modifySock f (.attempt k)) := by
  have hx := h.modify fun x => { x with sock := x.sock.map f }
  rw [hsk] at hx
  exact hx

def Call.about (k : Nat) : Call → Bool
  | .socket j _ _ _ => j = k
  | .setblocking sock | .setsockopt sock _ | .bind sock _ | .close sock => sock = .attempt k
  | _ => false

theorem within_effect {k : Nat} {c : Call} (hc : c.about k = true) (s : Net) (r : Option Exc) :
    Within k s (s.effect c r) := by
  cases c with
  | socket j family type proto =>
      obtain rfl : j = k := by simpa [Call.about] using hc
      cases r with
      | none => exact within_modifyAttempt _ _ fun _ => id
      | some e => exact .refl _ _
  | setblocking sock | setsockopt sock o | bind sock address =>
      obtain rfl : sock = .attempt k := by simpa [Call.about] using hc
      cases r with
      | none => exact within_modifyAttempt _ _ fun _ => id
      | some e => exact .refl _ _
  | close sock =>
      obtain rfl : sock = .attempt k := by simpa [Call.about] using hc
      cases r <;> exact within_modifyAttempt _ _ fun _ => id
  | protocolFactory | makeTransport _ _ | makeDatagramTransport _ _ | startServing
  | removeStale _ | exceptionHandler _ _ => cases hc

@[simp] theorem effect_trail (s : Net) (c : Call) (r : Option Exc) :
    (s.effect c r).trail = s.trail := by
  unfold Net.effect
  split <;> first | rfl | (unfold Net.modifySock; split <;> rfl)

@[simp] theorem effect_server (s : Net) (c : Call) (r : Option Exc) :
    (s.effect c r).server = s.server := by
  unfold Net.effect
  split <;> first | rfl | (unfold Net.modifySock; split <;> rfl)

@[simp] theorem effect_sockets (s : Net) (c : Call) (r : Option Exc) :
    (s.effect c r).sockets = s.sockets := by
  unfold Net.effect
  split <;> first | rfl | (unfold Net.modifySock; split <;> rfl)

/-! ### What an attempt guarantees -/

theorem guarantees_call {k : Nat} {c : Call} (hc : c.about k = true) :
    Guarantees (Within k) (call c) := by
  refine guarantees_bind (guarantees_query c) fun raised => ?_
  refine guarantees_bind (guarantees_modify fun s => ?_) fun _ => ?_
  · exact (Within.noted k s _).trans (within_effect hc _ raised)
  · cases raised with
    | none => exact guarantees_done _
    | some e => exact guarantees_done _

theorem guarantees_connect (k : Nat) (address : Address) :
    Guarantees (Within k) (await (.connect (.attempt k) address)) := by
  refine guarantees_andThen (guarantees_callback _) fun r => ?_
  refine guarantees_bind (guarantees_modify fun s => ?_) fun _ => ?_
  · cases r with
    | ok v => exact (Within.noted k s _).trans (within_modifyAttempt k _ fun _ => id)
    | error e => exact .noted k s _
  · cases r with
    | ok v => exact guarantees_done _
    | error e => exact guarantees_done _

theorem guarantees_append (k : Nat) (e : OSError) : Guarantees (Within k) (append k e) :=
  guarantees_modify fun s => within_modifyAttempt k s fun _ => id

theorem guarantees_bindLocal (k family : Nat) (infos : List AddrInfo) :
    Guarantees (Within k) (bindLocal lib k family infos) := by
  induction infos with
  | nil =>
      refine guarantees_bind guarantees_get fun s => ?_
      split
      · exact guarantees_bind (guarantees_modify fun s => within_modifyAttempt k s fun _ => id)
          fun _ => guarantees_done _
      · exact guarantees_done _
  | cons l ls ih =>
      refine guarantees_ite ih (guarantees_andThen (guarantees_call (by simp [Call.about])) ?_)
      intro r
      rcases r with e | _
      · cases e with
        | osError e => exact guarantees_bind (guarantees_append k _) fun _ => ih
        | exceptionGroup _ _ | valueError _ | typeError _ | indexError _ | cancelled | exits _
        | other _ =>
            exact guarantees_done _
      · exact guarantees_done _

theorem guarantees_connectAttempt (k : Nat) (info : AddrInfo)
    (localAddrInfos : Option (List AddrInfo)) :
    Guarantees (Within k) (connectAttempt lib k info localAddrInfos) := by
  refine guarantees_bind (guarantees_call (by simp [Call.about])) fun _ => ?_
  refine guarantees_bind (guarantees_call (by simp [Call.about])) fun _ => ?_
  refine guarantees_bind ?_ fun _ => guarantees_discard (guarantees_connect k _)
  cases localAddrInfos with
  | none => exact guarantees_done _
  | some infos => exact guarantees_bindLocal k _ infos

theorem guarantees_connectSock (k : Nat) (info : AddrInfo)
    (localAddrInfos : Option (List AddrInfo)) :
    Guarantees (Within k) (connectSock lib k info localAddrInfos) := by
  refine guarantees_bind (guarantees_modify fun s => within_modifyAttempt k s fun _ _ => rfl)
    fun _ => ?_
  refine guarantees_tryCatch (guarantees_tryCatch (guarantees_connectAttempt k info _) ?_) ?_
  · intro e
    cases e with
    | osError e => exact guarantees_bind (guarantees_append k e) fun _ => guarantees_done _
    | exceptionGroup _ _ | valueError _ | typeError _ | indexError _ | cancelled | exits _
    | other _ =>
        exact guarantees_done _
  · refine fun e => guarantees_bind ?_ fun _ => guarantees_done _
    refine guarantees_bind guarantees_get fun s => guarantees_ite ?_ (guarantees_done _)
    refine guarantees_tryCatch (guarantees_call (by simp [Call.about])) fun e => ?_
    exact guarantees_ite (guarantees_done _) (guarantees_done _)

/-! ### How an attempt ends -/

/-- The socket of the attempt is open and connected, and bound to a local
address of its family if there are any to choose from. -/
def Ready (info : AddrInfo) (localAddrInfos : Option (List AddrInfo)) (x : Attempt) : Prop :=
  ∃ sk, x.sock = some sk ∧ sk.closes = 0 ∧ sk.blocking = false ∧ sk.peer = some info.address ∧
    ∀ infos, localAddrInfos = some infos →
      ∃ l ∈ infos, l.family = info.family ∧ sk.bound = some l.address

/-- Nothing is left open. -/
def Spent (x : Attempt) : Prop := ∀ sk, x.sock = some sk → sk.closes = 1

/-- Nothing is left open, and an `OSError` has been noted. -/
structure Failed (e : Exc) (x : Attempt) : Prop where
  spent : Spent x
  noted : ∀ err, e = .osError err → x.exceptions.getLast? = some err

def Outcome (info : AddrInfo) (localAddrInfos : Option (List AddrInfo)) (x : Attempt) :
    Except Exc Unit → Prop
  | .ok _ => Ready info localAddrInfos x
  | .error e => Failed e x

section

variable {C : Contract Net Await Value Exc Call (Option Exc)} {k : Nat} (hI : ∀ s, C.Inv s)
  (hR : ∀ {s t : Net}, s.Begun → C.Rely s t → t.attempts[k]? = s.attempts[k]?)

theorem wp_allBindsFailed {family : Nat} {s : Net} {x : Attempt} (hx : At k x s) :
    (allBindsFailed lib k family).wp C (fun r t => ∃ x' e, r = .error e ∧ At k x' t ∧
      x'.tried = x.tried ∧ x'.sock = x.sock) s := by
  unfold allBindsFailed
  rw [wp_bind, wp_get]
  dsimp only
  split
  · exact ⟨_, _, rfl, hx.modify _, rfl, rfl⟩
  · exact ⟨x, _, rfl, hx, rfl, rfl⟩

/-- Binding leaves the socket open; it succeeds with an address of the family. -/
theorem wp_bindLocal {family : Nat} (infos : List AddrInfo) {s : Net} {x : Attempt} {sk : Sock}
    (hx : At k x s) (hsk : x.sock = some sk) :
    (bindLocal lib k family infos).wp C (fun r t => ∃ x' sk', At k x' t ∧ x'.tried = x.tried ∧
      x'.sock = some sk' ∧ sk'.closes = sk.closes ∧ sk'.blocking = sk.blocking ∧
      (r = .ok () → ∃ l ∈ infos, l.family = family ∧ sk'.bound = some l.address)) s := by
  induction infos generalizing s x with
  | nil =>
      refine wp_mono C ?_ (wp_allBindsFailed hx)
      rintro r t ⟨x', e, rfl, hx', htried, hsk'⟩
      exact ⟨x', sk, hx', htried, hsk'.trans hsk, rfl, rfl, fun h => by cases h⟩
  | cons l ls ih =>
      have hrest : ∀ {u : Net} {y : Attempt}, At k y u → y.tried = x.tried → y.sock = some sk →
          (bindLocal lib k family ls).wp C (fun r t => ∃ x' sk', At k x' t ∧ x'.tried = x.tried ∧
            x'.sock = some sk' ∧ sk'.closes = sk.closes ∧ sk'.blocking = sk.blocking ∧
            (r = .ok () → ∃ m ∈ l :: ls, m.family = family ∧ sk'.bound = some m.address)) u := by
        intro u y hy htried hysk
        refine wp_mono C ?_ (ih hy hysk)
        rintro r t ⟨x', sk', hx', ht, hs, hc, hb, hbound⟩
        refine ⟨x', sk', hx', ht.trans htried, hs, hc, hb, fun hr => ?_⟩
        obtain ⟨m, hm, hfam⟩ := hbound hr
        exact ⟨m, List.mem_cons_of_mem _ hm, hfam⟩
      unfold bindLocal
      split
      · exact hrest hx rfl hsk
      · rename_i hfamily
        rw [wp_andThen]
        refine wp_call (fun _ => ?_) fun e _ => ?_
        · refine ⟨_, { sk with bound := some l.address }, hx.modify _, rfl, ?_, rfl, rfl,
            fun _ => ⟨l, List.mem_cons_self, not_not.mp hfamily, rfl⟩⟩
          rw [hsk]
          rfl
        · cases e with
          | osError e => exact hrest (hx.modify _) rfl hsk
          | exceptionGroup _ _ | valueError _ | typeError _ | indexError _ | cancelled | exits _
          | other _ =>
              exact ⟨x, sk, hx, rfl, hsk, rfl, rfl, fun h => by cases h⟩

include hI hR

theorem wp_connectAttempt {info : AddrInfo} {localAddrInfos : Option (List AddrInfo)} {s : Net}
    {x : Attempt} (hx : At k x s) (hbegun : x.tried = true) (hnone : x.sock = none) :
    (connectAttempt lib k info localAddrInfos).wp C (fun r t => ∃ x', At k x' t ∧
      x'.tried = x.tried ∧ (∀ sk, x'.sock = some sk → sk.closes = 0) ∧
      (r = .ok () → Ready info localAddrInfos x')) s := by
  unfold connectAttempt
  rw [wp_bind]
  refine wp_call (fun _ => ?_) fun e _ => ⟨x, hx, rfl, fun sk h => ?_, fun h => by cases h⟩
  · -- The socket has been made.
    rw [wp_bind]
    refine wp_call (fun _ => ?_) fun e _ =>
      ⟨{ x with sock := some .new }, hx.modify _, rfl, fun sk h => ?_, fun h => by cases h⟩
    · have hbind : ∀ u, At k { x with sock := some { Sock.new with blocking := false } } u →
          (bindAny lib k info.family localAddrInfos).wp C (fun r t =>
            ∃ x' sk', At k x' t ∧ x'.tried = x.tried ∧ x'.sock = some sk' ∧ sk'.closes = 0 ∧
            sk'.blocking = false ∧ (r = .ok () → ∀ infos, localAddrInfos = some infos →
              ∃ l ∈ infos, l.family = info.family ∧ sk'.bound = some l.address)) u := by
        intro u hblock
        cases localAddrInfos with
        | none => exact ⟨_, _, hblock, rfl, rfl, rfl, rfl, fun _ _ h => by cases h⟩
        | some infos =>
            refine wp_mono C ?_ (wp_bindLocal infos hblock rfl)
            rintro r t ⟨x', sk', hx', ht, hs, hc, hb, hbound⟩
            refine ⟨x', sk', hx', ht, hs, hc, hb, fun hr infos' h => ?_⟩
            cases h
            exact hbound hr
      rw [wp_bind]
      refine wp_mono C ?_ (hbind _ ((hx.modify fun x => { x with sock := some .new }).modify
        fun x => { x with sock := x.sock.map fun y => { y with blocking := false } }))
      rintro r t ⟨x', sk', hx', ht, hs, hc, hb, hbound⟩
      cases r with
      | error e =>
          refine ⟨x', hx', ht, fun sk h => ?_, fun h => by cases h⟩
          cases hs.symm.trans h
          exact hc
      | ok a =>
          show (discard (await _)).wp C _ t
          rw [wp_discard]
          refine wp_await (hI t) fun u r _ hu _ => ?_
          have hxu : At k x' u := (hR ⟨k, x', hx', ht.trans hbegun⟩ hu).trans hx'
          cases r with
          | error e =>
              refine ⟨x', hxu, ht, fun sk h => ?_, fun h => by cases h⟩
              cases hs.symm.trans h
              exact hc
          | ok v =>
              have hpeer : (x'.sock.map fun y => { y with peer := some info.address }) =
                  some { sk' with peer := some info.address } := by rw [hs]; rfl
              refine ⟨_, hxu.modify _, ht, fun sk h => ?_, fun _ => ?_⟩
              · cases hpeer.symm.trans h
                exact hc
              · exact ⟨_, hpeer, hc, hb, rfl, hbound rfl⟩
    · cases h
      rfl
  · rw [hnone] at h
    cases h

/-- The attempt ends with a socket that is ready, or with none that is open. -/
theorem wp_connectSock {info : AddrInfo} {localAddrInfos : Option (List AddrInfo)} {s : Net}
    {x : Attempt} (hx : At k x s) (hnone : x.sock = none) :
    (connectSock lib k info localAddrInfos).wp C (fun r t => ∃ x', At k x' t ∧ x'.tried = true ∧
      Outcome info localAddrInfos x' r) s := by
  have hclose : ∀ {e : Exc} {t : Net} {x' : Attempt}, At k x' t → x'.tried = true →
      (∀ sk, x'.sock = some sk → sk.closes = 0) →
      (∀ err, e = .osError err → x'.exceptions.getLast? = some err) →
      (closeQuietly k >>= fun _ => raise e : Coro Unit).wp C (fun r t => ∃ x', At k x' t ∧
        x'.tried = true ∧ Outcome info localAddrInfos x' r) t := by
    intro e t x' hx' ht hopen hnoted
    unfold closeQuietly
    rw [wp_bind, wp_bind, wp_get]
    show wp C (if (t.sock? (.attempt k)).isSome = true then _ else _) _ t
    have hsock : t.sock? (.attempt k) = x'.sock := by
      rw [Net.sock?, show t.attempts[k]? = some x' from hx']
      rfl
    rw [hsock]
    split
    · -- Closed, whether `close` raises or not.
      rename_i hsome
      obtain ⟨sk, hsk⟩ := Option.isSome_iff_exists.mp hsome
      have hclosed : ∀ (e' : Exc) (step : Step),
          (∀ err, e' = .osError err → x'.exceptions.getLast? = some err) →
          ∃ y, At k y ((t.noted step).modifySock (fun z => { z with closes := z.closes + 1 })
            (.attempt k)) ∧ y.tried = true ∧ Outcome info localAddrInfos y (.error e') := by
        intro e' step hnoted'
        refine ⟨_, At.modify (s := t.noted step) hx' _, ht, fun sk' h => ?_, hnoted'⟩
        rw [show x'.sock = some sk from hsk] at h
        cases h
        show sk.closes + 1 = 1
        rw [hopen sk hsk]
      rw [wp_tryCatch]
      refine wp_call (fun _ => hclosed e _ hnoted) fun e' _ => ?_
      show wp C (if e'.isOSError = true then _ else _) _ _
      split
      · exact hclosed e _ hnoted
      · rename_i hos
        exact hclosed e' _ fun err h => by subst h; exact absurd rfl hos
    · rename_i hsome
      refine ⟨x', hx', ht, fun sk h => ?_, hnoted⟩
      rw [h] at hsome
      exact absurd rfl hsome
  unfold connectSock
  rw [wp_bind, wp_modify, wp_tryCatch, wp_tryCatch]
  have htried : At k { x with tried := true } _ := hx.modify fun x => { x with tried := true }
  refine wp_mono C ?_ (wp_connectAttempt hI hR htried rfl hnone)
  rintro r t ⟨x', hx', ht, hopen, hready⟩
  cases r with
  | ok a => exact ⟨x', hx', ht, hready rfl⟩
  | error e =>
      cases e with
      | osError e =>
          refine hclose (hx'.modify fun x => { x with exceptions := x.exceptions ++ [e] }) ht hopen
            fun err h => ?_
          cases h
          simp
      | exceptionGroup _ _ | valueError _ | typeError _ | indexError _ | cancelled | exits _
      | other _ =>
          exact hclose hx' ht hopen fun err h => by cases h

end

end Tokioop.Endpoint
