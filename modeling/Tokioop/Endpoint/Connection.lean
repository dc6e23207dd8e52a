import Tokioop.Endpoint.Turns

/-!
What `create_connection` leaves behind.

Whatever its calls and awaits end with, every socket that it has made has been
closed once, but for the one that has been connected; that one belongs to the
transport, which is closed if the coroutine raises. The exceptions are the
steps between the two: a connected socket is not closed where `setblocking`,
the protocol factory or the constructor of the transport raises, nor where a
race is cancelled that has been won.
-/

namespace Tokioop.Endpoint

open Kit Kit.Prog

variable {lib : Lib}

/-! ### The socket to go on with -/

theorem Still.fixed {s t : Net} (h : Still s t) (hs : s.Fixed) : t.Fixed := by
  unfold Net.Fixed Net.Begun At at hs ⊢
  rw [h.attempts]
  exact hs

theorem Over.congr {infos : List AddrInfo} {localAddrInfos : Option (List AddrInfo)}
    {w : Option Nat} {s t : Net} (h : Over infos localAddrInfos w s)
    (ht : t.attempts = s.attempts) : Over infos localAddrInfos w t := by
  refine ⟨by rw [ht]; exact h.length, fun k hk => ?_, fun k x hk hx => ?_⟩
  · obtain ⟨x, info, hx, hrest⟩ := h.winner k hk
    exact ⟨x, info, hx.congr (by rw [ht]), hrest⟩
  · exact h.losers k x hk (At.congr hx (by rw [ht]))

theorem wp_resolved_fixed {address : Option String × Option String}
    {family type proto flags : Nat} {s : Net} (hs : s.Fixed) :
    (resolved lib address family type proto flags).wp connectContract
      (fun _ t => Still s t) s :=
  wp_resolved (fun _ => trivial) fun _ h => ⟨h.2.2.1 hs, h.1, h.2.1⟩

/-- The last thing that has happened is that the race raised. -/
def RaceRaised (e : Exc) (t : Net) : Prop :=
  ∃ infos localAddrInfos, t.trail.getLast? = some (.await (.race infos localAddrInfos) (.error e))

/-- Whether a socket has been arrived at, and what there is besides. -/
def Arrived (s : Net) : Except Exc SockRef → Net → Prop
  | .ok .given, t => Still s t
  | .ok (.attempt k), t => t.given = s.given ∧ t.transport = s.transport ∧
      ∃ infos localAddrInfos, Over infos localAddrInfos (some k) t
  | .error e, t => t.given = s.given ∧ t.transport = s.transport ∧
      ∃ infos localAddrInfos w, Over infos localAddrInfos w t ∧ (w.isSome = true → RaceRaised e t)

theorem arrived_nothing {s t : Net} {e : Exc} (h : Still s t) (hs : s.attempts = []) :
    Arrived s (.error e) t :=
  ⟨h.given, h.transport, [], none, none, over_nil (h.attempts.trans hs), fun h => by cases h⟩

theorem wp_connectAny {a : ConnectionArgs} {infos : List AddrInfo}
    {localAddrInfos : Option (List AddrInfo)} {s : Net} :
    (connectAny lib a infos localAddrInfos).wp connectContract (Arrived s) s := by
  have hsought : (anyWinner lib a infos localAddrInfos).wp connectContract (fun r t =>
        (t.given = s.given ∧ t.transport = s.transport) ∧
        ∃ w, (∀ v, r = .ok v → v = w) ∧ Over infos localAddrInfos w t ∧
          (∀ e, r = .error e → w.isSome = true → RaceRaised e t))
      { s with attempts := infos.map fun _ => .idle } := by
    unfold anyWinner
    split
    · unfold race
      rw [wp_bind]
      refine wp_await trivial fun t r _ ht hret => ?_
      obtain ⟨w, hw, hover⟩ := hret _ _ rfl
      have hover' : ∀ step, Over infos localAddrInfos w (t.noted step) := fun _ => hover.congr rfl
      rcases r with e | v
      · refine ⟨⟨ht.1, ht.2.1⟩, w, fun v hv => ?_, hover' _, fun e' he _ => ?_⟩
        · cases hv
        · cases he
          exact ⟨infos, localAddrInfos, List.getLast?_concat⟩
      · obtain rfl := hw v rfl
        refine ⟨⟨ht.1, ht.2.1⟩, w, fun v hv => ?_, hover' _, fun e he => ?_⟩
        · cases hv
          rfl
        · cases he
    · refine wp_mono _ ?_ (wp_connectFirst infos [] rfl (tried_nothing rfl))
      rintro r t ⟨⟨steps, -, h⟩, hgiven, htransport⟩
      obtain ⟨w, hw, hnone, hover⟩ := h.over
      refine ⟨⟨hgiven, htransport⟩, w, hw, hover, fun e he hsome => ?_⟩
      rw [hnone e he] at hsome
      cases hsome
  unfold connectAny
  rw [wp_bind, wp_modify]
  show wp _ (anyWinner lib a infos localAddrInfos >>= _) _ _
  rw [wp_bind]
  refine wp_mono _ ?_ hsought
  rintro r t ⟨⟨hgiven, htransport⟩, w, hw, hover, hraised⟩
  rcases r with e | _ | k
  · exact ⟨hgiven, htransport, infos, localAddrInfos, w, hover, hraised e rfl⟩
  · obtain rfl := hw _ rfl
    exact ⟨hgiven, htransport, infos, localAddrInfos, none, hover, fun h => by cases h⟩
  · obtain rfl := hw _ rfl
    exact ⟨hgiven, htransport, infos, localAddrInfos, hover⟩

theorem wp_connectionSocket {a : ConnectionArgs} {s : Net} (hs : s.attempts = []) :
    (connectionSocket lib a).wp connectContract (Arrived s) s := by
  unfold connectionSocket
  split
  · split
    · exact arrived_nothing (.refl s) hs
    · rw [wp_bind]
      refine wp_mono _ (fun r t ht => ?_) (wp_resolved_fixed (.inl hs))
      rcases r with e | infos
      · exact arrived_nothing ht hs
      · have hgo : ∀ localAddrInfos u, Still s u →
            (connectAny lib a (a.ordered lib infos) localAddrInfos).wp connectContract
              (Arrived s) u := by
          intro localAddrInfos u hu
          refine wp_mono _ (fun r v hv => ?_) wp_connectAny
          rcases r with e | _ | k
          · exact ⟨hv.1.trans hu.given, hv.2.1.trans hu.transport, hv.2.2⟩
          · exact hu.trans hv
          · exact ⟨hv.1.trans hu.given, hv.2.1.trans hu.transport, hv.2.2⟩
        have hlocal : (localAddresses lib a).wp connectContract (fun _ u => Still s u) t := by
          unfold localAddresses
          split
          · exact ht
          · rw [wp_bind]
            refine wp_mono _ (fun r u hu => ?_) (wp_resolved_fixed (ht.fixed (.inl hs)))
            cases r with
            | error e => exact ht.trans hu
            | ok infos => exact ht.trans hu
        show wp _ (localAddresses lib a >>= _) _ t
        rw [wp_bind]
        refine wp_mono _ (fun r u hu => ?_) hlocal
        cases r with
        | error e => exact arrived_nothing hu hs
        | ok localAddrInfos => exact hgo localAddrInfos u hu
  · split
    · exact arrived_nothing (.refl s) hs
    · split
      · exact arrived_nothing (.refl s) hs
      · exact Still.refl s

/-! ### Handing it over -/

/-- The last thing that has happened is that one of the calls raised that make
a transport for the socket. -/
def HandoverRaised (sock : SockRef) (e : Exc) (t : Net) : Prop :=
  ∃ c, t.trail.getLast? = some (.call c (some e)) ∧
    (c = .setblocking sock ∨ c = .protocolFactory ∨ ∃ ssl, c = .makeTransport sock ssl)

/-- How handing over the socket ends. -/
structure Handed (sock : SockRef) (s : Net) (r : Except Exc Unit) (t : Net) : Prop where
  attempts : t.attempts = s.attempts
  given : t.given.map (·.closes) = s.given.map (·.closes)
  returned : r = .ok () → t.transport = some ⟨sock, false⟩
  raised : ∀ e, r = .error e → t.transport = some ⟨sock, true⟩ ∨
    t.transport = none ∧ HandoverRaised sock e t

theorem Net.modifyAttempt_self {k : Nat} {x : Attempt} {s : Net} {f : Attempt → Attempt}
    (hx : At k x s) (hf : f x = x) : s.modifyAttempt k f = s := by
  have hlist : s.attempts.modify k f = s.attempts := by
    refine List.ext_getElem? fun j => ?_
    rw [List.getElem?_modify]
    split
    · rename_i hj
      subst hj
      rw [show s.attempts[k]? = some x from hx]
      simp [hf]
    · simp
  rw [Net.modifyAttempt, hlist]

theorem wp_createConnectionTransport {sock : SockRef} {ssl : Bool} {s : Net} (hs : s.Fixed)
    (hnone : s.transport = none)
    (hsock : ∀ k, sock = .attempt k → ∃ x sk, At k x s ∧ x.sock = some sk ∧
      sk.blocking = false) :
    (createConnectionTransport sock ssl).wp connectContract (Handed sock s) s := by
  have hfail : ∀ {c : Call} {e : Exc} {t : Net}, t.attempts = s.attempts →
      t.given.map (·.closes) = s.given.map (·.closes) → t.transport = none →
      (c = .setblocking sock ∨ c = .protocolFactory ∨ ∃ ssl, c = .makeTransport sock ssl) →
      Handed sock s (.error e) (t.noted (.call c (some e))) := by
    intro c e t hattempts hgiven htransport hc
    refine ⟨hattempts, hgiven, fun h => ?_, fun e' he => .inr ⟨htransport, ?_⟩⟩
    · cases h
    · cases he
      exact ⟨c, List.getLast?_concat, hc⟩
  -- A socket that has been connected does not block as it is.
  have hblock : ∀ t : Net, t.attempts = s.attempts → t.given = s.given →
      t.transport = s.transport →
      let u := t.modifySock (fun x => { x with blocking := false }) sock
      u.attempts = s.attempts ∧ u.given.map (·.closes) = s.given.map (·.closes) ∧
        u.transport = none := by
    intro t hattempts hgiven htransport
    cases sock with
    | given =>
        refine ⟨hattempts, ?_, htransport.trans hnone⟩
        show (t.given.map _).map _ = _
        rw [hgiven, Option.map_map]
        rfl
    | attempt k =>
        obtain ⟨x, sk, hx, hsk, hb⟩ := hsock k rfl
        have hxt : At k x t := hx.congr (by rw [hattempts])
        have hf : { x with sock := x.sock.map fun y => { y with blocking := false } } = x := by
          obtain ⟨tried, exceptions, o⟩ := x
          obtain ⟨b, options, bound, peer, closes⟩ := sk
          cases hsk
          cases hb
          rfl
        show (t.modifyAttempt k _).attempts = _ ∧ _
        rw [Net.modifySock, Net.modifyAttempt_self hxt hf]
        exact ⟨hattempts, by rw [hgiven], htransport.trans hnone⟩
  unfold createConnectionTransport
  rw [wp_bind]
  refine wp_call (fun _ => ?_) fun e _ => hfail rfl rfl hnone (.inl rfl)
  obtain ⟨hattempts, hgiven, htransport⟩ :=
    hblock (s.noted (.call (.setblocking sock) none)) rfl rfl rfl
  rw [wp_bind]
  refine wp_call (fun _ => ?_) fun e _ => hfail hattempts hgiven htransport (.inr (.inl rfl))
  rw [wp_bind]
  refine wp_call (fun _ => ?_) fun e _ =>
    hfail hattempts hgiven htransport (.inr (.inr ⟨ssl, rfl⟩))
  rw [wp_tryCatch, wp_discard]
  refine wp_await trivial fun u r _ hu _ => ?_
  have hattempts' : u.attempts = s.attempts := by
    refine (hu.2.2.1 ?_).trans hattempts
    unfold Net.Fixed Net.Begun At at hs ⊢
    rw [← hattempts] at hs
    exact hs
  have hgiven' : u.given.map (·.closes) = s.given.map (·.closes) :=
    (congrArg _ hu.1).trans hgiven
  have htransport' : u.transport = some ⟨sock, false⟩ := hu.2.1
  rcases r with e | v
  · refine ⟨hattempts', hgiven', fun h => ?_, fun _ _ => .inl ?_⟩
    · cases h
    · show u.transport.map _ = _
      rw [htransport']
      rfl
  · refine ⟨hattempts', hgiven', fun _ => htransport', fun e h => ?_⟩
    cases h

/-! ### All of it -/

/-- Where the sockets are when one of them, if any, has been arrived at. -/
structure Accounted (given : Option Sock) (sock : Option SockRef) (t : Net) : Prop where
  given : t.given.map (·.closes) = given.map (·.closes)
  connected : ∀ k, sock = some (.attempt k) → ∃ x sk, At k x t ∧ x.sock = some sk ∧
    sk.closes = 0 ∧ sk.peer.isSome = true
  closed : ∀ k x, sock ≠ some (.attempt k) → At k x t → Spent x

/-- How the transport and the outcome go together. -/
structure Concluded (sock : Option SockRef) (r : Except Exc Unit) (t : Net) : Prop where
  returned : r = .ok () → ∃ ref, sock = some ref ∧ t.transport = some ⟨ref, false⟩
  raised : ∀ e, r = .error e → (∃ ref, sock = some ref ∧ t.transport = some ⟨ref, true⟩) ∨
    t.transport = none ∧ (sock = none ∨ RaceRaised e t ∨
      ∃ ref, sock = some ref ∧ HandoverRaised ref e t)

theorem Over.accounted {infos : List AddrInfo} {localAddrInfos : Option (List AddrInfo)}
    {w : Option Nat} {given : Option Sock} {t : Net} (h : Over infos localAddrInfos w t)
    (hgiven : t.given.map (·.closes) = given.map (·.closes)) :
    Accounted given (w.map .attempt) t := by
  refine ⟨hgiven, fun k hk => ?_, fun k x hk hx => h.losers k x (fun hw => hk ?_) hx⟩
  · obtain ⟨j, hw, hj⟩ := Option.map_eq_some_iff.mp hk
    cases hj
    obtain ⟨x, info, hx, -, -, sk, hsk, hc, -, hp, -⟩ := h.winner k hw
    exact ⟨x, sk, hx, hsk, hc, by rw [hp]; rfl⟩
  · rw [hw]
    rfl

theorem accounted_given {s t : Net} (hs : s.attempts = []) (h : t.attempts = s.attempts)
    (hgiven : t.given.map (·.closes) = s.given.map (·.closes)) :
    Accounted s.given (some .given) t := by
  refine ⟨hgiven, fun k hk => ?_, fun k x _ hx => ?_⟩
  · cases hk
  · rw [At, h, hs] at hx
    cases hx

theorem wp_checkConnectionArgs {C : Contract Net Await Value Exc Call (Option Exc)}
    {a : ConnectionArgs} {s : Net} :
    (checkConnectionArgs a).wp C (fun _ t => t = s) s := by
  have hssl : (checkSslSocket a.sock).wp C (fun _ t => t = s) s := by
    unfold checkSslSocket
    split
    · split
      · exact rfl
      · exact rfl
    · exact rfl
  unfold checkConnectionArgs
  split
  · exact rfl
  · split
    · exact rfl
    · split
      · exact rfl
      · split
        · exact rfl
        · exact hssl

theorem wp_createConnection {a : ConnectionArgs} {s : Net} (hs : s.attempts = [])
    (hnone : s.transport = none) :
    (createConnection lib a).wp connectContract
      (fun r t => ∃ sock, Accounted s.given sock t ∧ Concluded sock r t) s := by
  have hnothing : ∀ {e : Exc} {t : Net}, t.transport = none → ∀ {infos localAddrInfos w},
      Over infos localAddrInfos w t → t.given = s.given → (w.isSome = true → RaceRaised e t) →
      ∃ sock, Accounted s.given sock t ∧ Concluded sock (.error e) t := by
    intro e t htransport infos localAddrInfos w hover hgiven hraised
    refine ⟨_, hover.accounted (by rw [hgiven]), fun h => ?_, fun e' he => .inr ⟨htransport, ?_⟩⟩
    · cases h
    · cases he
      cases w with
      | none => exact .inl rfl
      | some k => exact .inr (.inl (hraised rfl))
  unfold createConnection
  rw [wp_bind]
  refine wp_mono _ ?_ wp_checkConnectionArgs
  rintro r _ rfl
  rcases r with e | _
  · have hover : Over [] none none _ := over_nil hs
    exact hnothing hnone hover rfl fun h => by cases h
  show wp _ (connectionSocket lib a >>= _) _ _
  rw [wp_bind]
  refine wp_mono _ ?_ (wp_connectionSocket hs)
  rintro r t ht
  rcases r with e | _ | k
  · obtain ⟨hgiven, htransport, infos, localAddrInfos, w, hover, hraised⟩ := ht
    exact hnothing (htransport.trans hnone) hover hgiven hraised
  · -- The socket that was passed.
    refine wp_mono _ ?_ (wp_createConnectionTransport (ht.fixed (.inl hs))
      (ht.transport.trans hnone) fun k hk => by cases hk)
    rintro r u hu
    refine ⟨some .given, accounted_given hs (hu.attempts.trans ht.attempts)
      (hu.given.trans (by rw [ht.given])), fun h => ⟨_, rfl, hu.returned h⟩, fun e he => ?_⟩
    exact (hu.raised e he).imp (fun h => ⟨_, rfl, h⟩)
      fun h => ⟨h.1, .inr (.inr ⟨_, rfl, h.2⟩)⟩
  · obtain ⟨hgiven, htransport, infos, localAddrInfos, hover⟩ := ht
    obtain ⟨x, info, hx, -, htried, sk, hsk, -, hb, -, -⟩ := hover.winner k rfl
    refine wp_mono _ ?_ (wp_createConnectionTransport (.inr ⟨k, x, hx, htried⟩)
      (htransport.trans hnone) fun j hj => ?_)
    · rintro r u hu
      refine ⟨some (.attempt k), (hover.congr hu.attempts).accounted
        (hu.given.trans (by rw [hgiven])), fun h => ⟨_, rfl, hu.returned h⟩, fun e he => ?_⟩
      exact (hu.raised e he).imp (fun h => ⟨_, rfl, h⟩)
        fun h => ⟨h.1, .inr (.inr ⟨_, rfl, h.2⟩)⟩
    · cases hj
      exact ⟨x, sk, hx, hsk, hb⟩

/-- **What `create_connection` leaves behind.** -/
theorem create_connection_sockets {a : ConnectionArgs} {given : Option Sock}
    {r : Except Exc Unit} {t : Net}
    (h : (createConnection lib a).Ends (fun _ _ _ => True) (Awaited lib) (.start given) r t) :
    ∃ sock, Accounted given sock t ∧ Concluded sock r t :=
  h.sound (fun _ _ _ _ => trivial)
    (fun _ _ _ _ ha _ => ⟨trivial, awaited_sound ha⟩) (wp_createConnection rfl rfl)

/-- A name with an IPv6 and an IPv4 address, where nobody listens on the
former, and a protocol factory that raises. -/
def twoAddresses : Oracle Net Await Value Exc Call (Option Exc) where
  ret
    | .getaddrinfo .. , _ =>
        .ok (.infos [⟨afInet6, sockStream, 6, "", "('::1', 80, 0, 0)"⟩,
          ⟨afInet, sockStream, 6, "", "('127.0.0.1', 80)"⟩])
    | .connect (.attempt 0) _, _ => .error (.osError ⟨false, some 111, "Connection refused"⟩)
    | _, _ => .ok .unit
  answer c _ := if c = .protocolFactory then some (.other 0) else none

/-- The first socket has been closed, the second one nobody will close. -/
theorem create_connection_sockets_example : ∃ (r : Except Exc Unit) (t : Net),
    (t.attempts.map fun x => x.sock.map (·.closes)) = [some 1, some 0] ∧ t.transport = none ∧
    ∃ sock, Accounted none sock t ∧ Concluded sock r t := by
  obtain ⟨r, t, hends, hgood⟩ : ∃ r t, (createConnection plainLib plainArgs).Ends
      (fun _ _ _ => True) (Awaited plainLib) (.start none) r t ∧
      ((t.attempts.map fun x => x.sock.map (·.closes)) = [some 1, some 0] &&
        t.transport.isNone) = true :=
    Ends.of_oracle twoAddresses Await.plain (fun _ _ => trivial) (fun _ _ => awaited_plain)
      (by decide +kernel) _ (by decide +kernel)
  have hboth := Bool.and_eq_true_iff.mp hgood
  exact ⟨r, t, of_decide_eq_true hboth.1, Option.isNone_iff_eq_none.mp hboth.2,
    create_connection_sockets hends⟩

end Tokioop.Endpoint
