import Tokioop.Endpoint.Attempt

/-!
What an attempt to connect reports.

An `OSError` that comes up in `_connect_sock` is noted among the exceptions of
its address, a failed `bind` under a message of its own. Where all of them have
failed the last one is taken back, raised, and noted again. Any other exception
is raised as it came up, unless closing the socket raises one in its place.
-/

namespace Tokioop.Endpoint

open Kit Kit.Prog

variable {lib : Lib} {k : Nat}

/-! ### What is in a trail -/

def Exc.osError? : Exc → Option OSError
  | .osError e => some e
  | _ => none

/-- What the step has ended with, if not with a result. -/
def Step.raised : Step → Option Exc
  | .call _ raised => raised
  | .await _ (.error e) => some e
  | .await _ (.ok _) => none

/-- The step is one of the `k`-th attempt. -/
def Step.about (k : Nat) : Step → Bool
  | .call c _ => c.about k
  | .await (.connect sock _) _ => sock = .attempt k
  | .await _ _ => false

/-- The error that the step leaves among the exceptions of the `k`-th attempt. -/
def Step.leaves (lib : Lib) (k : Nat) : Step → Option OSError
  | .call (.socket j _ _ _) raised => if j = k then raised.bind Exc.osError? else none
  | .call (.setblocking sock) raised =>
      if sock = .attempt k then raised.bind Exc.osError? else none
  | .call (.bind sock address) raised =>
      if sock = .attempt k then (raised.bind Exc.osError?).map (bindError lib address) else none
  | .await (.connect sock _) (.error e) => if sock = .attempt k then e.osError? else none
  | _ => none

/-- The errors that the steps leave, in their order. -/
def leftErrors (lib : Lib) (k : Nat) (steps : List Step) : List OSError :=
  steps.filterMap (Step.leaves lib k)

@[simp] theorem leftErrors_nil : leftErrors lib k [] = [] := rfl

theorem leftErrors_append (steps steps' : List Step) :
    leftErrors lib k (steps ++ steps') = leftErrors lib k steps ++ leftErrors lib k steps' :=
  List.filterMap_append

theorem Step.about_of_leaves {x : Step} {err : OSError} (h : x.leaves lib k = some err) :
    x.about k = true := by
  unfold Step.leaves at h
  split at h
  all_goals first
    | cases h
    | split at h
      · rename_i hk
        simp [Step.about, Call.about, hk]
      · cases h

theorem Step.about_inj {x : Step} {i j : Nat} (hi : x.about i = true) (hj : x.about j = true) :
    i = j := by
  unfold Step.about at hi hj
  split at hi
  · unfold Call.about at hi hj
    split at hi
    · exact (of_decide_eq_true hi).symm.trans (of_decide_eq_true hj)
    all_goals first
      | exact SockRef.attempt.inj ((of_decide_eq_true hi).symm.trans (of_decide_eq_true hj))
      | cases hi
  · exact SockRef.attempt.inj ((of_decide_eq_true hi).symm.trans (of_decide_eq_true hj))
  · cases hi

/-- What another attempt does leaves nothing. -/
theorem leftErrors_of_others {steps : List Step}
    (h : ∀ x ∈ steps, ∃ j, j ≠ k ∧ x.about j = true) : leftErrors lib k steps = [] := by
  refine List.filterMap_eq_nil_iff.mpr fun x hx => Option.eq_none_iff_forall_ne_some.mpr ?_
  intro err herr
  obtain ⟨j, hj, habout⟩ := h x hx
  exact hj (Step.about_inj habout (Step.about_of_leaves herr))

/-! ### What the steps of an attempt are -/

/-- The attempt has taken these steps in between. -/
structure Since (k : Nat) (s : Net) (steps : List Step) (t : Net) : Prop where
  trail : t.trail = s.trail ++ steps
  about : ∀ x ∈ steps, x.about k = true
  within : Within k s t

theorem Since.refl (k : Nat) (s : Net) : Since k s [] s :=
  ⟨(List.append_nil _).symm, fun _ h => (by cases h), .refl k s⟩

theorem Since.trans {s t u : Net} {steps steps' : List Step} (h : Since k s steps t)
    (h' : Since k t steps' u) : Since k s (steps ++ steps') u := by
  refine ⟨?_, fun x hx => ?_, h.within.trans h'.within⟩
  · rw [h'.trail, h.trail, List.append_assoc]
  · exact (List.mem_append.mp hx).elim (h.about x) (h'.about x)

theorem Since.modify {s t : Net} {steps : List Step} (h : Since k s steps t)
    {f : Attempt → Attempt} (hf : ∀ x, x.tried = true → (f x).tried = true) :
    Since k s steps (t.modifyAttempt k f) :=
  ⟨h.trail, h.about, h.within.trans (within_modifyAttempt k t hf)⟩

theorem since_call {c : Call} (hc : c.about k = true) (s : Net) (r : Option Exc) :
    Since k s [.call c r] ((s.noted (.call c r)).effect c r) := by
  refine ⟨?_, fun x hx => ?_, (Within.noted k s _).trans (within_effect hc _ r)⟩
  · rw [effect_trail]
    rfl
  · rw [List.mem_singleton.mp hx]
    exact hc

theorem since_connect (s : Net) (address : Address) (r : Except Exc Value) :
    Since k s [.await (.connect (.attempt k) address) r]
      ((s.noted (.await (.connect (.attempt k) address) r)).settled
        (.connect (.attempt k) address) r) := by
  have habout : ∀ x ∈ [Step.await (.connect (.attempt k) address) r], x.about k = true := by
    intro x hx
    rw [List.mem_singleton.mp hx]
    simp [Step.about]
  cases r with
  | ok v => exact ⟨rfl, habout, (Within.noted k s _).trans (within_modifyAttempt k _ fun _ => id)⟩
  | error e => exact ⟨rfl, habout, .noted k s _⟩

/-! ### The exceptions of an attempt -/

/-- `my_exceptions` of the `k`-th attempt. -/
def Net.errors (s : Net) (k : Nat) : List OSError := ((s.attempts[k]?).map (·.exceptions)).getD []

theorem At.errors {x : Attempt} {s : Net} (h : At k x s) : s.errors k = x.exceptions := by
  rw [Net.errors, show s.attempts[k]? = some x from h]
  rfl

theorem errors_modify {s : Net} {x : Attempt} (hx : At k x s) (f : Attempt → Attempt) :
    (s.modifyAttempt k f).errors k = (f x).exceptions := (hx.modify f).errors

theorem errors_modify_same (s : Net) (j : Nat) {f : Attempt → Attempt}
    (hf : ∀ x, (f x).exceptions = x.exceptions) : (s.modifyAttempt j f).errors k = s.errors k := by
  rw [Net.errors, Net.errors, Net.modifyAttempt, List.getElem?_modify]
  split
  · cases s.attempts[k]? with
    | none => rfl
    | some x => exact hf x
  · simp

theorem errors_modifySock (s : Net) (f : Sock → Sock) (sock : SockRef) :
    (s.modifySock f sock).errors k = s.errors k := by
  cases sock with
  | given => rfl
  | attempt j => exact errors_modify_same s j fun _ => rfl

theorem errors_effect (s : Net) (c : Call) (r : Option Exc) :
    (s.effect c r).errors k = s.errors k := by
  unfold Net.effect
  split
  · exact errors_modify_same s _ fun _ => rfl
  · exact errors_modifySock ..
  · exact errors_modifySock ..
  · exact errors_modifySock ..
  · exact errors_modifySock ..
  · rfl
  · rfl
  · rfl

theorem errors_settled (s : Net) (a : Await) (r : Except Exc Value) :
    (s.settled a r).errors k = s.errors k := by
  unfold Net.settled
  split
  · exact errors_modifySock ..
  · rfl

/-- None of the local addresses is of the family, which is what the error says. -/
def Unmatched (lib : Lib) (family : Nat) (localAddrInfos : Option (List AddrInfo))
    (err : OSError) : Prop :=
  (∃ infos, localAddrInfos = some infos ∧ ∀ l ∈ infos, l.family ≠ family) ∧
    err = ⟨false, none, "no matching local address with family=" ++ lib.reprFamily family ++
      " found"⟩

/-- The exceptions before and after these steps, which have ended so. An
`OSError` that is raised is not among them yet. -/
structure Blames (lib : Lib) (k family : Nat) (localAddrInfos : Option (List AddrInfo))
    (before : List OSError) (steps : List Step) (r : Except Exc Unit) (after : List OSError) :
    Prop where
  kept : (∀ err, r ≠ .error (.osError err)) → after = before ++ leftErrors lib k steps
  raised : ∀ err, r = .error (.osError err) → after ++ [err] = before ++ leftErrors lib k steps ∨
    before ++ leftErrors lib k steps = [] ∧ after = [] ∧ Unmatched lib family localAddrInfos err
  last : ∀ e, r = .error e → e.isOSError = false →
    ∃ step, steps.getLast? = some step ∧ step.raised = some e

section

variable {family : Nat} {localAddrInfos : Option (List AddrInfo)} {before mid after : List OSError}
  {steps steps' : List Step} {r : Except Exc Unit}

theorem Blames.ok (h : after = before ++ leftErrors lib k steps) :
    Blames lib k family localAddrInfos before steps (.ok ()) after :=
  ⟨fun _ => h, fun _ h => (by cases h), fun _ h => (by cases h)⟩

/-- The step has raised, and an `OSError` of it is what it leaves. -/
theorem Blames.error {step : Step} {e : Exc} (hraised : step.raised = some e)
    (hleaves : step.leaves lib k = e.osError?) :
    Blames lib k family localAddrInfos before [step] (.error e) before := by
  have hleft : leftErrors lib k [step] = e.osError?.toList := by
    rw [leftErrors, List.filterMap_cons, hleaves]
    cases e.osError? <;> rfl
  refine ⟨fun hno => ?_, fun err herr => .inl ?_, fun e' he' _ => ⟨step, rfl, ?_⟩⟩
  · rw [hleft]
    cases e with
    | osError err => exact absurd rfl (hno err)
    | exceptionGroup _ _ | valueError _ | typeError _ | indexError _ | cancelled | exits _
    | other _ =>
        exact (List.append_nil _).symm
  · cases herr
    rw [hleft]
    rfl
  · cases he'
    exact hraised

theorem Blames.after_steps (h : mid = before ++ leftErrors lib k steps)
    (h' : Blames lib k family localAddrInfos mid steps' r after) :
    Blames lib k family localAddrInfos before (steps ++ steps') r after := by
  have hleft : before ++ leftErrors lib k (steps ++ steps') = mid ++ leftErrors lib k steps' := by
    rw [leftErrors_append, h, List.append_assoc]
  refine ⟨?_, ?_, fun e he hos => ?_⟩
  · rw [hleft]
    exact h'.kept
  · rw [hleft]
    exact h'.raised
  · obtain ⟨step, hstep, hraised⟩ := h'.last e he hos
    refine ⟨step, ?_, hraised⟩
    rw [List.getLast?_append, hstep]
    rfl

end

/-- How the exceptions have come to be since `s`. -/
def Told (lib : Lib) (k family : Nat) (localAddrInfos : Option (List AddrInfo)) (s : Net)
    (r : Except Exc Unit) (t : Net) : Prop :=
  ∃ steps, Since k s steps t ∧
    Blames lib k family localAddrInfos (s.errors k) steps r (t.errors k)

section

variable {family : Nat} {localAddrInfos : Option (List AddrInfo)} {s t u : Net}
  {r : Except Exc Unit}

theorem Told.after {steps : List Step} (h : Since k s steps u)
    (herrors : u.errors k = s.errors k ++ leftErrors lib k steps)
    (h' : Told lib k family localAddrInfos u r t) : Told lib k family localAddrInfos s r t := by
  obtain ⟨steps', hsince, hblames⟩ := h'
  exact ⟨steps ++ steps', h.trans hsince, hblames.after_steps herrors⟩

theorem Told.after_call {c : Call} (hc : c.about k = true)
    (h : Told lib k family localAddrInfos ((s.noted (.call c none)).effect c none) r t) :
    Told lib k family localAddrInfos s r t := by
  refine h.after (since_call hc s none) ?_
  have hnone : leftErrors lib k [.call c none] = [] := by
    rw [leftErrors, List.filterMap_cons]
    cases c <;> simp [Step.leaves]
  rw [errors_effect, hnone, List.append_nil]
  rfl

theorem told_error {c : Call} {e : Exc} (hc : c.about k = true)
    (hleaves : Step.leaves lib k (.call c (some e)) = e.osError?) :
    Told lib k family localAddrInfos s (.error e)
      ((s.noted (.call c (some e))).effect c (some e)) := by
  refine ⟨_, since_call hc s (some e), ?_⟩
  rw [errors_effect]
  exact .error rfl hleaves

theorem told_ok : Told lib k family localAddrInfos s (.ok ()) s :=
  ⟨[], .refl k s, .ok (List.append_nil _).symm⟩

theorem Told.mono {localAddrInfos' : Option (List AddrInfo)}
    (h : Told lib k family localAddrInfos s r t)
    (himp : s.errors k = [] → ∀ err, Unmatched lib family localAddrInfos err →
      Unmatched lib family localAddrInfos' err) : Told lib k family localAddrInfos' s r t := by
  obtain ⟨steps, hsince, hblames⟩ := h
  refine ⟨steps, hsince, hblames.kept, fun err he => ?_, hblames.last⟩
  refine (hblames.raised err he).imp_right fun ⟨hnil, hafter, hun⟩ => ⟨hnil, hafter, ?_⟩
  exact himp (List.append_eq_nil_iff.mp hnil).1 err hun

end

/-! ### The attempt -/

section

variable {C : Contract Net Await Value Exc Call (Option Exc)} {family : Nat}

theorem told_allBindsFailed {s : Net} {x : Attempt} (hx : At k x s) :
    (allBindsFailed lib k family).wp C (Told lib k family (some []) s) s := by
  have hlast : ((s.attempts[k]?.map (·.exceptions)).bind List.getLast?) =
      x.exceptions.getLast? := by
    rw [show s.attempts[k]? = some x from hx]
    rfl
  unfold allBindsFailed
  rw [wp_bind, wp_get]
  dsimp only
  rw [hlast]
  split
  · -- The last one is taken back.
    rename_i err herr
    refine ⟨[], (Since.refl k s).modify fun _ => id, fun h => absurd rfl (h err), fun e he => ?_,
      fun e he hos => ?_⟩
    · cases he
      rw [errors_modify hx, hx.errors]
      obtain ⟨front, hfront⟩ := List.getLast?_eq_some_iff.mp herr
      dsimp only
      rw [hfront]
      exact .inl (by simp)
    · cases he
      cases hos
  · rename_i hnone
    have hnil : s.errors k = [] := hx.errors.trans (List.getLast?_eq_none_iff.mp hnone)
    refine ⟨[], .refl k s, fun h => absurd rfl (h _), fun e he => ?_, fun e he hos => ?_⟩
    · cases he
      refine .inr ⟨by rw [hnil]; rfl, hnil, ⟨[], rfl, fun l hl => ?_⟩, rfl⟩
      cases hl
    · cases he
      cases hos

theorem told_bindLocal (infos : List AddrInfo) {s : Net} {x : Attempt} (hx : At k x s) :
    (bindLocal lib k family infos).wp C (Told lib k family (some infos) s) s := by
  induction infos generalizing s x with
  | nil => exact told_allBindsFailed hx
  | cons l ls ih =>
      unfold bindLocal
      split
      · rename_i hfamily
        refine wp_mono C (fun r t ht => ht.mono fun _ err herr => ?_) (ih hx)
        obtain ⟨⟨infos, hinfos, hall⟩, htext⟩ := herr
        cases hinfos
        refine ⟨⟨_, rfl, fun l' hl' => ?_⟩, htext⟩
        rcases List.mem_cons.mp hl' with rfl | hl'
        · exact hfamily
        · exact hall l' hl'
      · have habout : (Call.bind (.attempt k) l.address).about k = true := by simp [Call.about]
        rw [wp_andThen]
        refine wp_call (fun _ => told_ok.after_call habout) fun e _ => ?_
        cases e with
        | osError e =>
            have hx' : At k { x with exceptions := x.exceptions ++ [bindError lib l.address e] }
                ((s.noted (.call (.bind (.attempt k) l.address) (some (.osError e)))).modifyAttempt
                  k fun x =>
                    { x with exceptions := x.exceptions ++ [bindError lib l.address e] }) :=
              At.modify (s := s.noted _) hx _
            have hsince := (since_call habout s (some (.osError e))).modify (f := fun x =>
              { x with exceptions := x.exceptions ++ [bindError lib l.address e] }) fun _ => id
            show wp C (append k _ >>= _) _ _
            unfold append
            rw [wp_bind, wp_modify]
            refine wp_mono C (fun r t ht => Told.after hsince ?_ (ht.mono fun hnil => ?_)) (ih hx')
            · refine hx'.errors.trans ?_
              rw [hx.errors, leftErrors, List.filterMap_cons]
              simp [Step.leaves, Exc.osError?]
            · exact absurd (hx'.errors.symm.trans hnil) (by simp)
        | exceptionGroup _ _ | valueError _ | typeError _ | indexError _ | cancelled | exits _
        | other _ =>
            exact told_error habout (by simp [Step.leaves, Exc.osError?])

/-- Nobody else has done anything. -/
def Unmoved (s t : Net) : Prop := Still s t ∧ t.trail = s.trail

theorem Unmoved.since {s t : Net} (h : Unmoved s t) : Since k s [] t := by
  refine ⟨h.2.trans (List.append_nil _).symm, fun _ hx => (by cases hx), fun j _ => ?_, ?_,
    fun ⟨j, x, hx, ht⟩ => ⟨j, x, ?_, ht⟩, h.1.given, h.1.transport⟩
  · rw [h.1.attempts]
  · rw [h.1.attempts]
  · rw [At, h.1.attempts]
    exact hx

theorem Unmoved.errors {s t : Net} (h : Unmoved s t) : t.errors k = s.errors k := by
  rw [Net.errors, Net.errors, h.1.attempts]

variable (hI : ∀ s, C.Inv s) (hR : ∀ {s t : Net}, s.Begun → C.Rely s t → Unmoved s t)
  {info : AddrInfo} {localAddrInfos : Option (List AddrInfo)}
include hI hR

theorem told_connect {s : Net} (hs : s.Begun) :
    (discard (await (.connect (.attempt k) info.address))).wp C
      (Told lib k family localAddrInfos s) s := by
  rw [wp_discard]
  refine wp_await (hI s) fun t r _ ht _ => ?_
  have hunmoved := hR hs ht
  have hsince := (hunmoved.since (k := k)).trans (since_connect t info.address r)
  have herrors : ((t.noted (.await (.connect (.attempt k) info.address) r)).settled
      (.connect (.attempt k) info.address) r).errors k = s.errors k :=
    (errors_settled ..).trans hunmoved.errors
  rcases r with e | v
  · refine ⟨_, hsince, ?_⟩
    rw [herrors]
    exact .error rfl (by simp [Step.leaves])
  · refine ⟨_, hsince, .ok ?_⟩
    rw [herrors]
    exact (List.append_nil _).symm

theorem told_connectAttempt {s : Net} {x : Attempt} (hx : At k x s) (htried : x.tried = true) :
    (connectAttempt lib k info localAddrInfos).wp C
      (Told lib k info.family localAddrInfos s) s := by
  have hbind : ∀ {u : Net} {y : Attempt}, At k y u → y.tried = true →
      (bindAny lib k info.family localAddrInfos >>= fun _ =>
        discard (await (.connect (.attempt k) info.address))).wp C
        (Told lib k info.family localAddrInfos u) u := by
    intro u y hy hty
    have hany : (bindAny lib k info.family localAddrInfos).wp C
        (Told lib k info.family localAddrInfos u) u := by
      cases localAddrInfos with
      | none => exact told_ok
      | some infos => exact told_bindLocal infos hy
    rw [wp_bind]
    refine wp_mono C (fun r t ht => ?_) hany
    rcases r with e | _
    · exact ht
    · obtain ⟨steps, hsince, hblames⟩ := ht
      refine wp_mono C (fun r v hv => hv.after hsince (hblames.kept fun err h => ?_))
        (told_connect hI hR (hsince.within.begun ⟨k, y, hy, hty⟩))
      cases h
  have hsocket : (Call.socket k info.family info.type info.proto).about k = true := by
    simp [Call.about]
  have hblocking : (Call.setblocking (.attempt k)).about k = true := by simp [Call.about]
  unfold connectAttempt
  rw [wp_bind]
  refine wp_call (fun _ => ?_) fun e _ => told_error hsocket (by simp [Step.leaves])
  refine wp_mono C (fun r t ht => Told.after_call hsocket ht) ?_
  show wp C (call (.setblocking (.attempt k)) >>= _) _ _
  rw [wp_bind]
  refine wp_call (fun _ => ?_) fun e _ => told_error hblocking (by simp [Step.leaves])
  refine wp_mono C (fun r t ht => Told.after_call hblocking ht) ?_
  have hmade := At.modify (s := s.noted (.call (.socket k info.family info.type info.proto) none))
    hx fun x => { x with sock := some .new }
  exact hbind (hmade.modify fun x =>
    { x with sock := x.sock.map fun y => { y with blocking := false } }) htried

omit hI hR

/-- What has been noted of an attempt that has failed: the errors of its steps,
or that there was no address to bind to. -/
def Noted (lib : Lib) (k family : Nat) (localAddrInfos : Option (List AddrInfo))
    (steps : List Step) (errors : List OSError) : Prop :=
  errors ≠ [] ∧ errors = leftErrors lib k steps ∨
    leftErrors lib k steps = [] ∧ ∃ err, errors = [err] ∧ Unmatched lib family localAddrInfos err

/-- A step of the attempt has raised it, after which the socket has been closed
at most. -/
def CameUp (k : Nat) (e : Exc) (steps : List Step) : Prop :=
  ∃ before step after, steps = before ++ step :: after ∧ step.about k = true ∧
    step.raised = some e ∧ ∀ x ∈ after, ∃ raised, x = .call (.close (.attempt k)) raised

structure Reported (lib : Lib) (k family : Nat) (localAddrInfos : Option (List AddrInfo))
    (steps : List Step) (r : Except Exc Unit) (errors : List OSError) : Prop where
  noted : ∀ err, r = .error (.osError err) → Noted lib k family localAddrInfos steps errors
  raised : ∀ e, r = .error e → e.isOSError = false → CameUp k e steps

theorem Reported.closed {steps : List Step} {r : Except Exc Unit} {errors : List OSError}
    (h : Reported lib k family localAddrInfos steps r errors) (raised : Option Exc) :
    Reported lib k family localAddrInfos (steps ++ [.call (.close (.attempt k)) raised]) r
      errors := by
  have hleft : leftErrors lib k (steps ++ [.call (.close (.attempt k)) raised]) =
      leftErrors lib k steps := by
    rw [leftErrors_append]
    exact List.append_nil _
  refine ⟨fun err he => ?_, fun e he hos => ?_⟩
  · unfold Noted
    rw [hleft]
    exact h.noted err he
  · obtain ⟨before, step, after, rfl, habout, hraised, hafter⟩ := h.raised e he hos
    refine ⟨before, step, after ++ [.call (.close (.attempt k)) raised], by simp, habout, hraised,
      fun x hx => ?_⟩
    rcases List.mem_append.mp hx with hx | hx
    · exact hafter x hx
    · exact ⟨raised, List.mem_singleton.mp hx⟩

theorem reported_closeQuietly {s t : Net} {e : Exc} {steps : List Step} (hst : Since k s steps t)
    (h : Reported lib k family localAddrInfos steps (.error e) (t.errors k)) :
    (closeQuietly k >>= fun _ => raise e : Coro Unit).wp C (fun r u => ∃ steps, Since k s steps u ∧
      Reported lib k family localAddrInfos steps r (u.errors k)) t := by
  have habout : (Call.close (.attempt k)).about k = true := by simp [Call.about]
  have hclosed : ∀ raised, Since k s (steps ++ [.call (.close (.attempt k)) raised])
      ((t.noted (.call (.close (.attempt k)) raised)).effect (.close (.attempt k)) raised) :=
    fun raised => hst.trans (since_call habout t raised)
  have hquiet : ∀ raised, ∃ steps', Since k s steps'
      ((t.noted (.call (.close (.attempt k)) raised)).effect (.close (.attempt k)) raised) ∧
      Reported lib k family localAddrInfos steps' (.error e)
        (((t.noted (.call (.close (.attempt k)) raised)).effect (.close (.attempt k))
          raised).errors k) := by
    intro raised
    refine ⟨_, hclosed raised, ?_⟩
    rw [errors_effect]
    exact h.closed raised
  unfold closeQuietly
  rw [wp_bind, wp_bind, wp_get]
  show wp C (if (t.sock? (.attempt k)).isSome = true then _ else _) _ t
  split
  · rw [wp_tryCatch]
    refine wp_call (fun _ => hquiet none) fun e' _ => ?_
    show wp C (if e'.isOSError = true then _ else _) _ _
    split
    · exact hquiet (some e')
    · -- What `close` raises takes the place of the exception.
      rename_i hos
      refine ⟨_, hclosed (some e'), fun err he => ?_, fun e'' he _ => ?_⟩
      · cases he
        exact absurd rfl hos
      · cases he
        exact ⟨steps, _, [], rfl, habout, rfl, fun x hx => (by cases hx)⟩
  · exact ⟨steps, hst, h⟩

include hI hR

/-- What has been noted and raised when an attempt has ended. -/
theorem reported_connectSock {s : Net} {x : Attempt} (hx : At k x s) (hnone : x.exceptions = []) :
    (connectSock lib k info localAddrInfos).wp C (fun r t => ∃ steps, Since k s steps t ∧
      Reported lib k info.family localAddrInfos steps r (t.errors k)) s := by
  have htried : At k { x with tried := true } _ := hx.modify fun x => { x with tried := true }
  have hbegun : Since k s [] (s.modifyAttempt k fun x => { x with tried := true }) :=
    (Since.refl k s).modify fun _ _ => rfl
  unfold connectSock
  rw [wp_bind, wp_modify, wp_tryCatch, wp_tryCatch]
  refine wp_mono C ?_ (told_connectAttempt hI hR htried rfl)
  rintro r t ⟨steps, hsince, hblames⟩
  replace hsince := hbegun.trans hsince
  rw [List.nil_append] at hsince
  rw [htried.errors] at hblames
  dsimp only at hblames
  rw [hnone] at hblames
  rcases r with e | _
  · cases e with
    | osError err =>
        have hlt : k < t.attempts.length := by
          rw [hsince.within.length]
          exact (List.getElem?_eq_some_iff.mp hx).1
        have hy : At k t.attempts[k] t := List.getElem?_eq_getElem hlt
        refine reported_closeQuietly (hsince.modify fun _ => id) ⟨fun err' he => ?_,
          fun e he hos => ?_⟩
        · cases he
          rw [errors_modify hy, ← hy.errors]
          rcases hblames.raised err rfl with h | ⟨hnil, hafter, hun⟩
          · exact .inl ⟨by simp, h⟩
          · exact .inr ⟨hnil, err, by rw [hafter]; rfl, hun⟩
        · cases he
          cases hos
    | exceptionGroup _ _ | valueError _ | typeError _ | indexError _ | cancelled | exits _
    | other _ =>
        refine reported_closeQuietly hsince ⟨fun err he => (by cases he), fun e he hos => ?_⟩
        obtain ⟨step, hstep, hraised⟩ := hblames.last e he hos
        obtain ⟨before, rfl⟩ := List.getLast?_eq_some_iff.mp hstep
        exact ⟨before, step, [], rfl, hsince.about step (by simp), hraised,
          fun x hx => (by cases hx)⟩
  · exact ⟨steps, hsince, fun err he => (by cases he), fun e he => (by cases he)⟩

end

end Tokioop.Endpoint
