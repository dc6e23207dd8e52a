import Mathlib.Algebra.BigOperators.Group.List.Basic
import Tokioop.Endpoint.Race
import Tokioop.Endpoint.Trace

/-!
Addresses in turn.

Without happy eyeballs `create_connection` goes on to the next address where
one has failed with an `OSError`, and with nothing else. Every address that has
been given up has a reason among the exceptions, which is what its calls have
raised, so that there is always something to raise in the end.
-/

namespace Tokioop.Endpoint

open Kit Kit.Prog

variable {lib : Lib}

/-! ### What is relied on -/

/-- Nobody but the coroutine changes its attempts any more. -/
def Net.Fixed (s : Net) : Prop := s.attempts = [] ∨ s.Begun

def connectContract : Contract Net Await Value Exc Call (Option Exc) where
  Inv _ := True
  Rely s t := t.given = s.given ∧ t.transport = s.transport ∧
    (s.Fixed → t.attempts = s.attempts) ∧ (s.Begun → t.trail = s.trail)
  Ret a r t := ∀ infos localAddrInfos, a = .race infos localAddrInfos →
    ∃ w, (∀ v, r = .ok v → v = .winner w) ∧ Over infos localAddrInfos w t
  Answer _ _ _ := True
  refl _ := ⟨rfl, rfl, fun _ => rfl, fun _ => rfl⟩
  trans {s t u} h h' := by
    refine ⟨h'.1.trans h.1, h'.2.1.trans h.2.1, fun hs => ?_, fun hs => ?_⟩
    · have heq := h.2.2.1 hs
      refine (h'.2.2.1 ?_).trans heq
      unfold Net.Fixed Net.Begun At at hs ⊢
      rw [heq]
      exact hs
    · have heq := h.2.2.1 (.inr hs)
      refine (h'.2.2.2 ?_).trans (h.2.2.2 hs)
      unfold Net.Begun At at hs ⊢
      rw [heq]
      exact hs

theorem over_nil {localAddrInfos : Option (List AddrInfo)} {s : Net} (hs : s.attempts = []) :
    Over [] localAddrInfos none s where
  length := by rw [hs]; rfl
  winner k h := by cases h
  losers k x _ hx := by
    rw [At, hs] at hx
    cases hx

/-- Awaits keep to the contract. -/
theorem awaited_sound {a : Await} {s t : Net} {r : Except Exc Value} (h : Awaited lib a s r t) :
    connectContract.Rely s t ∧ connectContract.Ret a r t := by
  by_cases ha : ∃ infos localAddrInfos, a = .race infos localAddrInfos
  · obtain ⟨infos, localAddrInfos, rfl⟩ := ha
    obtain ⟨w, hr, hover, hs, hgiven, htransport⟩ := race_over h
    have hfresh : ¬s.Begun := by
      rintro ⟨j, x, hx, htried⟩
      rw [at_idle hs hx] at htried
      cases htried
    refine ⟨⟨hgiven, htransport, fun hfixed => ?_, fun h => absurd h hfresh⟩, fun _ _ he => ?_⟩
    · -- Only a race of nobody finds the attempts settled.
      rcases hfixed with hnil | hbegun
      · have hempty : infos = [] := List.map_eq_nil_iff.mp (hs.symm.trans hnil)
        rw [hnil]
        exact List.length_eq_zero_iff.mp (hover.length.trans (by rw [hempty]; rfl))
      · exact absurd hbegun hfresh
    · cases he
      exact ⟨w, hr, hover⟩
  · cases h with
    | other h => exact ⟨connectContract.refl s, fun _ _ he => absurd he (h _ _)⟩
    | race => exact absurd ⟨_, _, rfl⟩ ha

/-! ### One address after the other -/

/-- The `j`-th attempt has failed with an `OSError`, and what has been noted are
the errors of its steps. -/
structure Lost (lib : Lib) (infos : List AddrInfo) (localAddrInfos : Option (List AddrInfo))
    (steps : List Step) (j : Nat) (x : Attempt) : Prop where
  tried : x.tried = true
  spent : Spent x
  noted : ∃ info, infos[j]? = some info ∧
    Noted lib j info.family localAddrInfos steps x.exceptions

theorem Noted.ne_nil {k family : Nat} {localAddrInfos : Option (List AddrInfo)}
    {steps : List Step} {errors : List OSError}
    (h : Noted lib k family localAddrInfos steps errors) : errors ≠ [] := by
  rcases h with ⟨hne, -⟩ | ⟨-, err, rfl, -⟩
  · exact hne
  · exact List.cons_ne_nil _ _

/-- Steps of another attempt make no difference to what has been noted. -/
theorem Lost.congr {infos : List AddrInfo} {localAddrInfos : Option (List AddrInfo)}
    {steps steps' : List Step} {j : Nat} {x : Attempt}
    (h : Lost lib infos localAddrInfos steps j x)
    (hleft : leftErrors lib j steps' = leftErrors lib j steps) :
    Lost lib infos localAddrInfos steps' j x := by
  obtain ⟨info, hinfo, hnoted⟩ := h.noted
  refine ⟨h.tried, h.spent, info, hinfo, ?_⟩
  unfold Noted
  rw [hleft]
  exact hnoted

/-- With these steps the first `k` addresses have been tried in vain, and none of
the others. -/
structure Tried (lib : Lib) (infos : List AddrInfo) (localAddrInfos : Option (List AddrInfo))
    (steps : List Step) (k : Nat) (s : Net) : Prop where
  length : s.attempts.length = infos.length
  lost : ∀ j x, j < k → At j x s → Lost lib infos localAddrInfos steps j x
  idle : ∀ j x, k ≤ j → At j x s → x = .idle
  about : ∀ x ∈ steps, ∃ j, j < k ∧ x.about j = true

/-- The result of trying them in turn. -/
def Sought (lib : Lib) (infos : List AddrInfo) (localAddrInfos : Option (List AddrInfo))
    (steps : List Step) : Except Exc (Option Nat) → Net → Prop
  | .ok (some m), s => s.attempts.length = infos.length ∧
      (∃ x info, At m x s ∧ infos[m]? = some info ∧ x.tried = true ∧
        Ready info localAddrInfos x) ∧
      (∀ j x, j < m → At j x s → Lost lib infos localAddrInfos steps j x) ∧
      ∀ j x, m < j → At j x s → x = .idle
  | .ok none, s => Tried lib infos localAddrInfos steps infos.length s
  | .error e, s => e.isOSError = false ∧ ∃ m, m < infos.length ∧ CameUp m e steps ∧
      s.attempts.length = infos.length ∧
      (∀ j x, j < m → At j x s → Lost lib infos localAddrInfos steps j x) ∧
      (∀ x, At m x s → x.tried = true ∧ Spent x) ∧ ∀ j x, m < j → At j x s → x = .idle

theorem CameUp.append {k : Nat} {e : Exc} {steps : List Step} (h : CameUp k e steps)
    (front : List Step) : CameUp k e (front ++ steps) := by
  obtain ⟨before, step, after, rfl, hrest⟩ := h
  exact ⟨front ++ before, step, after, (List.append_assoc ..).symm, hrest⟩

/-- An attempt of its own: how it ends, and what it reports. -/
theorem wp_connectSock_reported {k : Nat} {info : AddrInfo}
    {localAddrInfos : Option (List AddrInfo)} {s : Net} (hs : At k .idle s) :
    (connectSock lib k info localAddrInfos).wp connectContract (fun r t =>
      (∃ x, At k x t ∧ x.tried = true ∧ Outcome info localAddrInfos x r) ∧
      ∃ steps, Since k s steps t ∧
        Reported lib k info.family localAddrInfos steps r (t.errors k)) s := by
  have hfix : ∀ {u v : Net}, u.Begun → connectContract.Rely u v → v.attempts = u.attempts :=
    fun hu h => h.2.2.1 (.inr hu)
  refine wp_and _ ?_ ?_
  · exact wp_connectSock (fun _ => trivial) (fun hu h => congrArg (·[k]?) (hfix hu h)) hs rfl
  · exact reported_connectSock (fun _ => trivial)
      (fun hu h => ⟨⟨hfix hu h, h.1, h.2.1⟩, h.2.2.2 hu⟩) hs rfl

theorem wp_connectFirst {infos : List AddrInfo} {localAddrInfos : Option (List AddrInfo)}
    (rest done : List AddrInfo) (hinfos : infos = done ++ rest) {front : List Step} {s : Net}
    (hs : Tried lib infos localAddrInfos front done.length s) :
    (connectFirst lib localAddrInfos rest done.length).wp connectContract (fun r t =>
      (∃ steps, t.trail = s.trail ++ steps ∧
        Sought lib infos localAddrInfos (front ++ steps) r t) ∧
      t.given = s.given ∧ t.transport = s.transport) s := by
  induction rest generalizing done front s with
  | nil =>
      rw [List.append_nil] at hinfos
      subst hinfos
      refine ⟨⟨[], (List.append_nil _).symm, ?_⟩, rfl, rfl⟩
      rw [List.append_nil]
      exact hs
  | cons info rest ih =>
      have hk : done.length < s.attempts.length := by
        rw [hs.length, hinfos, List.length_append, List.length_cons]
        omega
      have hidle : At done.length .idle s := by
        have hx : At done.length s.attempts[done.length] s := List.getElem?_eq_getElem hk
        rw [hs.idle _ _ (Nat.le_refl _) hx] at hx
        exact hx
      have hinfo : infos[done.length]? = some info := by simp [hinfos]
      unfold connectFirst
      rw [wp_andThen]
      refine wp_mono _ ?_ (wp_connectSock_reported hidle)
      rintro r t ⟨⟨x, hx, htried, hout⟩, steps, hsince, hreported⟩
      have hw := hsince.within
      have hlost : ∀ j y, j < done.length → At j y t →
          Lost lib infos localAddrInfos (front ++ steps) j y := by
        intro j y hj hy
        refine (hs.lost j y hj ((hw.others j (Nat.ne_of_lt hj)).symm.trans hy)).congr ?_
        rw [leftErrors_append, leftErrors_of_others fun z hz =>
          ⟨_, Nat.ne_of_gt hj, hsince.about z hz⟩, List.append_nil]
      have hlater : ∀ j y, done.length < j → At j y t → y = .idle := fun j y hj hy =>
        hs.idle j y (Nat.le_of_lt hj) ((hw.others j (Nat.ne_of_gt hj)).symm.trans hy)
      have hlength := hw.length.trans hs.length
      cases r with
      | ok a =>
          exact ⟨⟨steps, hsince.trail, hlength, ⟨x, info, hx, hinfo, htried, hout⟩, hlost,
            hlater⟩, hw.given, hw.transport⟩
      | error e =>
          show wp _ (if e.isOSError = true then _ else _) _ t
          split
          · rename_i hos
            have hnoted : Noted lib done.length info.family localAddrInfos (front ++ steps)
                x.exceptions := by
              have hown : leftErrors lib done.length (front ++ steps) =
                  leftErrors lib done.length steps := by
                rw [leftErrors_append, leftErrors_of_others fun z hz =>
                  (hs.about z hz).imp fun j hj => ⟨Nat.ne_of_lt hj.1, hj.2⟩, List.nil_append]
              unfold Noted
              rw [hown, ← hx.errors]
              cases e with
              | osError err => exact hreported.noted err rfl
              | exceptionGroup _ _ | valueError _ | typeError _ | indexError _ | cancelled
              | exits _ | other _ =>
                  cases hos
            have hnext : Tried lib infos localAddrInfos (front ++ steps) (done ++ [info]).length
                t := by
              rw [List.length_append, List.length_singleton]
              refine ⟨hlength, fun j y hj hy => ?_, fun j y hj hy => hlater j y hj hy,
                fun z hz => ?_⟩
              · rcases Nat.lt_succ_iff_lt_or_eq.mp hj with hj | rfl
                · exact hlost j y hj hy
                · cases hx.symm.trans hy
                  exact ⟨htried, hout.spent, info, hinfo, hnoted⟩
              · rcases List.mem_append.mp hz with hz | hz
                · exact (hs.about z hz).imp fun j hj => ⟨Nat.lt_succ_of_lt hj.1, hj.2⟩
                · exact ⟨done.length, Nat.lt_succ_self _, hsince.about z hz⟩
            have hgo := ih (done ++ [info]) (by simp [hinfos]) hnext
            rw [List.length_append, List.length_singleton] at hgo
            refine wp_mono _ ?_ hgo
            rintro r u ⟨⟨steps', htrail, hu⟩, hgiven, htransport⟩
            refine ⟨⟨steps ++ steps', ?_, ?_⟩, hgiven.trans hw.given,
              htransport.trans hw.transport⟩
            · rw [htrail, hsince.trail, List.append_assoc]
            · rw [← List.append_assoc]
              exact hu
          · rename_i hos
            have hfalse := Bool.eq_false_iff.mpr hos
            refine ⟨⟨steps, hsince.trail, hfalse, done.length, ?_,
              (hreported.raised e rfl hfalse).append front, hlength, hlost, fun y hy => ?_,
              hlater⟩, hw.given, hw.transport⟩
            · rw [← hs.length]
              exact hk
            · cases hx.symm.trans hy
              exact ⟨htried, hout.spent⟩

/-- Trying in turn settles the attempts as a race does. -/
theorem Sought.over {infos : List AddrInfo} {localAddrInfos : Option (List AddrInfo)}
    {steps : List Step} {r : Except Exc (Option Nat)} {s : Net}
    (h : Sought lib infos localAddrInfos steps r s) :
    ∃ w, (∀ v, r = .ok v → v = w) ∧ (∀ e, r = .error e → w = none) ∧
      Over infos localAddrInfos w s := by
  have hidle : Spent .idle := fun sk h => by cases h
  rcases r with e | _ | m
  · obtain ⟨-, m, hm, -, hlength, hlost, hat, hlater⟩ := h
    refine ⟨none, fun v hv => ?_, fun _ _ => rfl, ⟨hlength, fun k hk => ?_, fun k x _ hx => ?_⟩⟩
    · cases hv
    · cases hk
    · rcases Nat.lt_trichotomy k m with hk | rfl | hk
      · exact (hlost k x hk hx).spent
      · exact (hat x hx).2
      · exact hlater k x hk hx ▸ hidle
  · refine ⟨none, fun v hv => ?_, fun _ _ => rfl, ⟨h.length, fun k hk => ?_, fun k x _ hx => ?_⟩⟩
    · cases hv
      rfl
    · cases hk
    · have hlt := (List.getElem?_eq_some_iff.mp hx).1
      exact (h.lost k x (h.length ▸ hlt) hx).spent
  · obtain ⟨hlength, hready, hlost, hlater⟩ := h
    refine ⟨some m, fun v hv => ?_, fun e he => ?_, ⟨hlength, fun k hk => ?_, fun k x hk hx => ?_⟩⟩
    · cases hv
      rfl
    · cases he
    · cases hk
      exact hready
    · rcases Nat.lt_trichotomy k m with hkm | rfl | hkm
      · exact (hlost k x hkm hx).spent
      · exact absurd rfl hk
      · exact hlater k x hkm hx ▸ hidle

/-! ### The outcome -/

/-- What is raised after all addresses have failed. -/
structure Aggregated (allErrors : Bool) (exceptions : List OSError) (e : Exc) : Prop where
  group : allErrors = true → e = .exceptionGroup "create_connection failed" exceptions
  alike : allErrors = false → ∀ err ∈ exceptions.head?, (∀ e' ∈ exceptions, e'.str = err.str) →
    e = .osError err
  unlike : allErrors = false → ∀ err ∈ exceptions.head?, (∃ e' ∈ exceptions, e'.str ≠ err.str) →
    e = .osError
      ⟨false, none, "Multiple exceptions: " ++ ", ".intercalate (exceptions.map (·.str))⟩

theorem connectFailure_aggregated {allErrors : Bool} {exceptions : List OSError}
    (h : exceptions ≠ []) :
    Aggregated allErrors exceptions (connectFailure allErrors exceptions) := by
  obtain ⟨first, rest, rfl⟩ := List.exists_cons_of_ne_nil h
  refine ⟨fun hall => by simp [connectFailure, hall], fun hall err he hsame => ?_,
    fun hall err he hdiff => ?_⟩
  · cases he
    have hrest : (rest.all fun e' => e'.str = first.str) = true := List.all_eq_true.mpr
      fun e' he' => decide_eq_true (hsame e' (List.mem_cons_of_mem _ he'))
    rw [connectFailure, hall, hrest]
    rfl
  · cases he
    obtain ⟨e', he', hne⟩ := hdiff
    have hmem : e' ∈ rest := (List.mem_cons.mp he').resolve_left fun h => hne (by rw [h])
    have hrest : (rest.all fun e' => e'.str = first.str) = false :=
      List.all_eq_false.mpr ⟨e', hmem, fun h => hne (of_decide_eq_true h)⟩
    rw [connectFailure, hall, hrest]
    rfl

/-- How connecting to one of the addresses ends when they are tried in turn. -/
def Turned (lib : Lib) (allErrors : Bool) (infos : List AddrInfo)
    (localAddrInfos : Option (List AddrInfo)) (steps : List Step) :
    Except Exc SockRef → Net → Prop
  | .ok ref, t => ∃ m, ref = .attempt m ∧
      Sought lib infos localAddrInfos steps (.ok (some m)) t
  | .error e, t => Sought lib infos localAddrInfos steps (.error e) t ∨
      Tried lib infos localAddrInfos steps infos.length t ∧
        infos.length ≤ t.exceptions.length ∧ Aggregated allErrors t.exceptions e

theorem Tried.length_le {infos : List AddrInfo} {localAddrInfos : Option (List AddrInfo)}
    {steps : List Step} {t : Net} (h : Tried lib infos localAddrInfos steps infos.length t) :
    infos.length ≤ t.exceptions.length := by
  have hone : ∀ n ∈ t.attempts.map fun x => x.exceptions.length, 1 ≤ n := by
    intro n hn
    obtain ⟨x, hx, rfl⟩ := List.mem_map.mp hn
    obtain ⟨k, hk⟩ := List.mem_iff_getElem?.mp hx
    have hlt := (List.getElem?_eq_some_iff.mp hk).1
    obtain ⟨info, -, hnoted⟩ := (h.lost k x (h.length ▸ hlt) hk).noted
    exact List.length_pos_iff.mpr hnoted.ne_nil
  have hsum := List.length_le_sum_of_one_le _ hone
  rw [List.length_map, h.length] at hsum
  rw [Net.exceptions, List.length_flatMap]
  exact hsum

theorem tried_nothing {infos : List AddrInfo} {localAddrInfos : Option (List AddrInfo)}
    {s : Net} (hs : s.attempts = infos.map fun _ => .idle) :
    Tried lib infos localAddrInfos [] ([] : List AddrInfo).length s := by
  refine ⟨by rw [hs, List.length_map], fun j x hj => ?_, fun j x _ hx => at_idle hs hx,
    fun x hx => ?_⟩
  · cases hj
  · cases hx

/-- **Connecting in turn.** -/
theorem connect_in_turn {a : ConnectionArgs} (hturns : a.happyEyeballs = false)
    {infos : List AddrInfo} {localAddrInfos : Option (List AddrInfo)} (hinfos : infos ≠ [])
    {s t : Net} {r : Except Exc SockRef}
    (h : (connectAny lib a infos localAddrInfos).Ends (fun _ _ _ => True) (Awaited lib) s r t) :
    ∃ steps, t.trail = s.trail ++ steps ∧
      Turned lib a.allErrors infos localAddrInfos steps r t := by
  refine h.sound (C := connectContract) (Q := fun r t => ∃ steps, t.trail = s.trail ++ steps ∧
    Turned lib a.allErrors infos localAddrInfos steps r t) (fun _ _ _ _ => trivial)
    (fun _ _ _ _ ha _ => ⟨trivial, awaited_sound ha⟩) ?_
  have hidle : Tried lib infos localAddrInfos [] ([] : List AddrInfo).length
      { s with attempts := infos.map fun _ => .idle } := tried_nothing rfl
  unfold connectAny anyWinner
  rw [wp_bind, wp_modify]
  show wp _ ((if a.happyEyeballs = true then _ else _) >>= _) _ _
  rw [hturns, if_neg Bool.false_ne_true, wp_bind]
  refine wp_mono _ ?_ (wp_connectFirst infos [] rfl hidle)
  rintro r u ⟨⟨steps, htrail, hu⟩, -, -⟩
  rw [List.nil_append] at hu
  rcases r with e | _ | m
  · exact ⟨steps, htrail, .inl hu⟩
  · refine ⟨steps, htrail, .inr ⟨hu, hu.length_le, connectFailure_aggregated fun hnil => ?_⟩⟩
    have hle := hu.length_le
    rw [hnil] at hle
    exact hinfos (List.length_eq_zero_iff.mp (Nat.le_zero.mp hle))
  · exact ⟨steps, htrail, m, rfl, hu⟩

def plainArgs : ConnectionArgs :=
  ⟨some "localhost", some "80", false, 0, 0, 0, none, none, none, false, false, false, none, false⟩

def Await.plain : Await → Bool
  | .race _ _ => false
  | _ => true

theorem awaited_plain {a : Await} {s : Net} {r : Except Exc Value} (h : a.plain = true) :
    Awaited lib a s r s :=
  .other fun _ _ ha => by subst ha; cases h

/-- Neither address has a route or a listener. -/
def unreachable : Oracle Net Await Value Exc Call (Option Exc) where
  ret
    | .connect (.attempt 0) _, _ => .error (.osError ⟨false, some 101, "Network is unreachable"⟩)
    | .connect (.attempt _) _, _ => .error (.osError ⟨false, some 111, "Connection refused"⟩)
    | _, _ => .ok .unit
  answer _ _ := none

def loopbacks : List AddrInfo :=
  [⟨afInet6, sockStream, 6, "", "('::1', 80, 0, 0)"⟩,
    ⟨afInet, sockStream, 6, "", "('127.0.0.1', 80)"⟩]

theorem connect_in_turn_example : ∃ (r : Except Exc SockRef) (t : Net),
    r = .error (.osError ⟨false, none,
      "Multiple exceptions: [Errno 101] Network is unreachable, [Errno 111] Connection refused"⟩) ∧
    ∃ steps, t.trail = steps ∧ Turned plainLib false loopbacks none steps r t := by
  obtain ⟨r, t, hends, hgood⟩ : ∃ r t, (connectAny plainLib plainArgs loopbacks none).Ends
      (fun _ _ _ => True) (Awaited plainLib) (.start none) r t ∧
      decide (r = .error (.osError ⟨false, none,
        "Multiple exceptions: [Errno 101] Network is unreachable, [Errno 111] Connection refused"
        ⟩)) = true :=
    Ends.of_oracle unreachable Await.plain (fun _ _ => trivial) (fun _ _ => awaited_plain)
      (by decide +kernel) _ (by decide +kernel)
  exact ⟨r, t, of_decide_eq_true hgood, connect_in_turn rfl (List.cons_ne_nil _ _) hends⟩

end Tokioop.Endpoint
