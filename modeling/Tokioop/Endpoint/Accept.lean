import Tokioop.Endpoint.Connection

/-!
Sockets that are there already.

`create_unix_connection` has only one address to connect to, and
`connect_accepted_socket` and `_accept_connection2` none; what is left is to
hand the socket over.
-/

namespace Tokioop.Endpoint

open Kit Kit.Prog

variable {lib : Lib}

/-! ### UNIX connections -/

structure UnixArgs where
  path : Option String
  ssl : Bool
  sock : Option GivenSock
  serverHostname : Option String
  sslHandshakeTimeout : Bool
  sslShutdownTimeout : Bool

def checkUnixArgs (a : UnixArgs) : Coro Unit :=
  if a.ssl then
    if a.serverHostname.isNone then
      raise (.valueError "you have to pass server_hostname when using ssl")
    else pure ()
  else if a.serverHostname.isSome then
    raise (.valueError "server_hostname is only meaningful with ssl")
  else if a.sslHandshakeTimeout then
    raise (.valueError "ssl_handshake_timeout is only meaningful with ssl")
  else if a.sslShutdownTimeout then
    raise (.valueError "ssl_shutdown_timeout is only meaningful with ssl")
  else pure ()

/-- The socket is closed by whatever keeps it from being connected. -/
def connectPath (path : String) : Coro SockRef := do
  modify fun s => { s with attempts := [{ Attempt.idle with tried := true }] }
  call (.socket 0 afUnix sockStream 0)
  tryCatch
    (do
      call (.setblocking (.attempt 0))
      discard (await (.connect (.attempt 0) path)))
    fun e => do
      call (.close (.attempt 0))
      raise e
  pure (.attempt 0)

def unixSocket (a : UnixArgs) : Coro SockRef :=
  match a.path with
  | some path =>
      if a.sock.isSome then
        raise (.valueError "path and sock can not be specified at the same time")
      else connectPath path
  | none =>
      match a.sock with
      | none => raise (.valueError "no path and sock were specified")
      | some g =>
          if g.family ≠ afUnix ∨ g.type ≠ sockStream then
            raise (.valueError ("A UNIX Domain Stream Socket was expected, got " ++ g.repr))
          else do
            call (.setblocking .given)
            pure .given

def createUnixConnection (a : UnixArgs) : Coro Unit := do
  checkUnixArgs a
  let sock ← unixSocket a
  createConnectionTransport sock a.ssl

/-! ### Accepted connections -/

structure AcceptedArgs where
  sock : GivenSock
  ssl : Bool
  sslHandshakeTimeout : Bool
  sslShutdownTimeout : Bool

def checkAcceptedArgs (a : AcceptedArgs) : Coro Unit :=
  if a.sock.type ≠ sockStream then
    raise (.valueError ("A Stream Socket was expected, got " ++ a.sock.repr))
  else if a.sslHandshakeTimeout && !a.ssl then
    raise (.valueError "ssl_handshake_timeout is only meaningful with ssl")
  else if a.sslShutdownTimeout && !a.ssl then
    raise (.valueError "ssl_shutdown_timeout is only meaningful with ssl")
  else checkSslSocket (some a.sock)

def connectAcceptedSocket (a : AcceptedArgs) : Coro Unit := do
  checkAcceptedArgs a
  createConnectionTransport .given a.ssl

def Exc.isExit : Exc → Bool
  | .exits _ => true
  | _ => false

/-- The outer `except` clauses of `_accept_connection2`. -/
def acceptFailed (debug : Bool) (e : Exc) : Coro Unit :=
  if e.isExit then raise e
  else if debug then
    call (.exceptionHandler "Error on transport creation for incoming connection" e)
  else pure ()

/-- The socket is one that `_accept_connection` has accepted. -/
def acceptConnection2 (ssl debug : Bool) : Coro Unit :=
  tryCatch
    (do
      call .protocolFactory
      call (.makeTransport .given ssl)
      tryCatch (discard (await .waiter)) fun e => do
        modify fun s => { s with transport := s.transport.map fun x => { x with closed := true } }
        raise e)
    (acceptFailed debug)

/-! ### What they leave behind -/

/-- How the transport and the outcome go together where no race is lost. -/
structure Settled (sock : Option SockRef) (r : Except Exc Unit) (t : Net) : Prop where
  returned : r = .ok () → ∃ ref, sock = some ref ∧ t.transport = some ⟨ref, false⟩
  raised : ∀ e, r = .error e → (∃ ref, sock = some ref ∧ t.transport = some ⟨ref, true⟩) ∨
    t.transport = none ∧ (sock = none ∨ ∃ ref, sock = some ref ∧ HandoverRaised ref e t)

theorem Handed.settled {sock : SockRef} {s t : Net} {r : Except Exc Unit}
    (h : Handed sock s r t) : Settled (some sock) r t :=
  ⟨fun hr => ⟨sock, rfl, h.returned hr⟩, fun e he => (h.raised e he).imp
    (fun ht => ⟨sock, rfl, ht⟩) fun ht => ⟨ht.1, .inr ⟨sock, rfl, ht.2⟩⟩⟩

theorem settled_nothing {e : Exc} {t : Net} (ht : t.transport = none) :
    Settled none (.error e) t := by
  refine ⟨fun h => ?_, fun _ _ => .inr ⟨ht, .inl rfl⟩⟩
  cases h

theorem accounted_nothing {given : Option Sock} {t : Net}
    (hgiven : t.given.map (·.closes) = given.map (·.closes)) (ht : ∀ k x, At k x t → Spent x) :
    Accounted given none t := by
  refine ⟨hgiven, fun k hk => ?_, fun k x _ hx => ht k x hx⟩
  cases hk

/-- The socket of the only attempt is connected, or it has been closed. -/
def Reached {α : Type} (s : Net) (r : Except Exc α) (t : Net) : Prop :=
  (t.given = s.given ∧ t.transport = s.transport) ∧ ∃ x, t.attempts = [x] ∧ x.tried = true ∧
    ((∃ a, r = .ok a) → ∃ sk, x.sock = some sk ∧ sk.closes = 0 ∧ sk.blocking = false ∧
      sk.peer.isSome = true) ∧ ((∃ e, r = .error e) → Spent x)

/-- Whatever has been raised, the socket is closed. -/
theorem wp_closeOnly {s t : Net} {x : Attempt} {sk : Sock} {e : Exc} (hx : t.attempts = [x])
    (htried : x.tried = true) (hsk : x.sock = some sk) (hc : sk.closes = 0)
    (hgiven : t.given = s.given) (htransport : t.transport = s.transport) :
    (call (.close (.attempt 0)) >>= fun _ => raise e : Coro Unit).wp connectContract
      (Reached s) t := by
  have hclosed : ∀ (step : Step) (e' : Exc), Reached s (.error e' : Except Exc Unit)
      ((t.noted step).modifySock (fun y => { y with closes := y.closes + 1 }) (.attempt 0)) := by
    intro step e'
    refine ⟨⟨hgiven, htransport⟩,
      { x with sock := x.sock.map fun y => { y with closes := y.closes + 1 } }, ?_, htried,
      fun ⟨_, h⟩ => ?_, fun _ sk' h => ?_⟩
    · show t.attempts.modify 0 _ = _
      rw [hx]
      rfl
    · cases h
    · rw [hsk] at h
      cases h
      show sk.closes + 1 = 1
      rw [hc]
  rw [wp_bind]
  exact wp_call (fun _ => hclosed _ e) fun e' _ => hclosed _ e'

theorem wp_connectPath {path : String} {s : Net} :
    (connectPath path).wp connectContract (fun r t => Reached s r t ∧
      ∀ ref, r = .ok ref → ref = .attempt 0) s := by
  unfold connectPath
  rw [wp_bind, wp_modify]
  show wp _ (call _ >>= _) _ _
  rw [wp_bind]
  refine wp_call (fun _ => ?_) fun e _ =>
    ⟨⟨⟨rfl, rfl⟩, _, rfl, rfl, fun ⟨_, h⟩ => ?_, fun _ _ h => ?_⟩, fun _ h => ?_⟩
  · show wp _ (Prog.tryCatch _ _ >>= _) _ _
    rw [wp_bind]
    refine wp_mono (Q := Reached s) _ ?_ ?_
    · rintro r t ht
      rcases r with e | _
      · obtain ⟨hrest, x, hx, htried, -, hspent⟩ := ht
        refine ⟨⟨hrest, x, hx, htried, fun ⟨_, h⟩ => ?_, fun _ => hspent ⟨e, rfl⟩⟩, fun _ h => ?_⟩
        · cases h
        · cases h
      · obtain ⟨hrest, x, hx, htried, hopen, -⟩ := ht
        refine ⟨⟨hrest, x, hx, htried, fun _ => hopen ⟨(), rfl⟩, fun ⟨_, h⟩ => ?_⟩, fun _ h => ?_⟩
        · cases h
        · cases h
          rfl
    · rw [wp_tryCatch, wp_bind]
      refine wp_call (fun _ => ?_) fun e _ =>
        wp_closeOnly rfl rfl rfl rfl rfl rfl
      show wp _ (discard (await _)) _ _
      rw [wp_discard]
      refine wp_await trivial fun t r _ ht _ => ?_
      have hfixed := ht.2.2.1 (.inr ⟨0, _, rfl, rfl⟩)
      rcases r with e | v
      · exact wp_closeOnly hfixed rfl rfl rfl ht.1 ht.2.1
      · refine ⟨⟨ht.1, ht.2.1⟩, ⟨true, [], some { Sock.new with
          blocking := false, peer := some path }⟩, ?_, rfl, fun _ => ⟨_, rfl, rfl, rfl, rfl⟩,
          fun ⟨_, h⟩ => ?_⟩
        · show t.attempts.modify 0 _ = _
          rw [hfixed]
          rfl
        · cases h
  · cases h
  · cases h
  · cases h

theorem wp_checkUnixArgs {C : Contract Net Await Value Exc Call (Option Exc)} {a : UnixArgs}
    {s : Net} : (checkUnixArgs a).wp C (fun _ t => t = s) s := by
  unfold checkUnixArgs
  split
  · split
    · exact rfl
    · exact rfl
  · split
    · exact rfl
    · split
      · exact rfl
      · split
        · exact rfl
        · exact rfl

theorem wp_createUnixConnection {a : UnixArgs} {given : Option Sock} :
    (createUnixConnection a).wp connectContract
      (fun r t => ∃ sock, Accounted given sock t ∧ Settled sock r t) (.start given) := by
  have hrefused : ∀ {e : Exc} {t : Net}, t.given = given → t.transport = none → t.attempts = [] →
      ∃ sock, Accounted given sock t ∧ Settled sock (.error e) t := by
    intro e t hgiven htransport hattempts
    refine ⟨none, accounted_nothing (by rw [hgiven]) fun k x hx => ?_, settled_nothing htransport⟩
    rw [At, hattempts] at hx
    cases hx
  unfold createUnixConnection
  rw [wp_bind]
  refine wp_mono _ ?_ wp_checkUnixArgs
  rintro r _ rfl
  rcases r with e | _
  · exact hrefused rfl rfl rfl
  show wp _ (unixSocket a >>= _) _ _
  rw [wp_bind]
  unfold unixSocket
  split
  · split
    · exact hrefused rfl rfl rfl
    · refine wp_mono _ ?_ wp_connectPath
      rintro r t ⟨⟨⟨hgiven, htransport⟩, x, hx, htried, hopen, hspent⟩, href⟩
      have hclosed : ∀ {u : Net}, u.attempts = t.attempts → ∀ k y, At k y u → k = 0 ∧ y = x := by
        intro u hu k y hy
        rw [At, hu, hx] at hy
        cases k with
        | zero =>
            cases hy
            exact ⟨rfl, rfl⟩
        | succ k => cases hy
      rcases r with e | ref
      · refine ⟨none, accounted_nothing (by rw [hgiven]; rfl) fun k y hy => ?_,
          settled_nothing htransport⟩
        obtain ⟨-, rfl⟩ := hclosed rfl k y hy
        exact hspent ⟨e, rfl⟩
      · obtain rfl := href ref rfl
        obtain ⟨sk, hsk, hc, hb, hpeer⟩ := hopen ⟨_, rfl⟩
        have hx0 : At 0 x t := by rw [At, hx]; rfl
        refine wp_mono _ ?_ (wp_createConnectionTransport (.inr ⟨0, x, hx0, htried⟩) htransport
          fun k hk => ?_)
        · rintro r u hu
          refine ⟨some (.attempt 0), ⟨hu.given.trans (by rw [hgiven]; rfl), fun k hk => ?_,
            fun k y hk hy => ?_⟩, hu.settled⟩
          · cases hk
            exact ⟨x, sk, hx0.congr (by rw [hu.attempts]), hsk, hc, hpeer⟩
          · obtain ⟨rfl, -⟩ := hclosed hu.attempts k y hy
            exact absurd rfl hk
        · cases hk
          exact ⟨x, sk, hx0, hsk, hb⟩
  · split
    · exact hrefused rfl rfl rfl
    · split
      · exact hrefused rfl rfl rfl
      · rw [wp_bind]
        refine wp_call (fun _ => ?_) fun e _ => hrefused rfl rfl rfl
        show wp _ (createConnectionTransport .given a.ssl) _ _
        refine wp_mono _ ?_ (wp_createConnectionTransport (.inl rfl) rfl fun k hk => ?_)
        · rintro r u hu
          refine ⟨some .given, accounted_given (s := .start given) rfl hu.attempts
            (hu.given.trans ?_), hu.settled⟩
          cases given with
          | none => rfl
          | some sk => rfl
        · cases hk

/-- **What `create_unix_connection` leaves behind.** -/
theorem create_unix_connection_sockets {a : UnixArgs} {given : Option Sock} {r : Except Exc Unit}
    {t : Net} (h : (createUnixConnection a).Ends (fun _ _ _ => True) (Awaited lib)
      (.start given) r t) : ∃ sock, Accounted given sock t ∧ Settled sock r t :=
  h.sound (fun _ _ _ _ => trivial) (fun _ _ _ _ ha _ => ⟨trivial, awaited_sound ha⟩)
    wp_createUnixConnection

/-- Nobody listens at the path. -/
theorem create_unix_connection_sockets_example : ∃ (r : Except Exc Unit) (t : Net),
    (t.attempts.map fun x => x.sock.map (·.closes)) = [some 1] ∧
    ∃ sock, Accounted none sock t ∧ Settled sock r t := by
  obtain ⟨r, t, hends, hgood⟩ : ∃ r t,
      (createUnixConnection ⟨some "/run/app.sock", false, none, none, false, false⟩).Ends
      (fun _ _ _ => True) (Awaited plainLib) (.start none) r t ∧
      decide ((t.attempts.map fun x => x.sock.map (·.closes)) = [some 1]) = true :=
    Ends.of_oracle unreachable Await.plain (fun _ _ => trivial) (fun _ _ => awaited_plain)
      (by decide +kernel) _ (by decide +kernel)
  exact ⟨r, t, of_decide_eq_true hgood, create_unix_connection_sockets hends⟩

theorem wp_connectAcceptedSocket {a : AcceptedArgs} {given : Option Sock} :
    (connectAcceptedSocket a).wp connectContract
      (fun r t => ∃ sock, Accounted given sock t ∧ Settled sock r t) (.start given) := by
  have hcheck : (checkAcceptedArgs a).wp connectContract (fun _ t => t = .start given)
      (.start given) := by
    unfold checkAcceptedArgs checkSslSocket
    split
    · exact rfl
    · split
      · exact rfl
      · split
        · exact rfl
        · dsimp only
          split
          · exact rfl
          · exact rfl
  unfold connectAcceptedSocket
  rw [wp_bind]
  refine wp_mono _ ?_ hcheck
  rintro r _ rfl
  rcases r with e | _
  · refine ⟨none, accounted_nothing rfl fun k x hx => ?_, settled_nothing rfl⟩
    cases hx
  · refine wp_mono _ ?_ (wp_createConnectionTransport (.inl rfl) rfl fun k hk => ?_)
    · exact fun r u hu =>
        ⟨some .given, accounted_given (s := .start given) rfl hu.attempts hu.given, hu.settled⟩
    · cases hk

/-- **What `connect_accepted_socket` leaves behind.** -/
theorem connect_accepted_socket_sockets {a : AcceptedArgs} {given : Option Sock}
    {r : Except Exc Unit} {t : Net} (h : (connectAcceptedSocket a).Ends (fun _ _ _ => True)
      (Awaited lib) (.start given) r t) : ∃ sock, Accounted given sock t ∧ Settled sock r t :=
  h.sound (fun _ _ _ _ => trivial) (fun _ _ _ _ ha _ => ⟨trivial, awaited_sound ha⟩)
    wp_connectAcceptedSocket

/-- There will be no connection because of `e`. -/
def Broken (e : Exc) (t : Net) : Prop :=
  t.transport = some ⟨.given, true⟩ ∧ .await .waiter (.error e) ∈ t.trail ∨
    t.transport = none ∧ ∃ c, .call c (some e) ∈ t.trail ∧
      (c = .protocolFactory ∨ ∃ ssl, c = .makeTransport .given ssl)

/-- How a call of the exception handler ends that this has been raised from. -/
def reported : Option Exc → Except Exc Unit
  | none => .ok ()
  | some e => .error e

/-- How the task of an accepted connection ends. Its socket is in no case
closed other than by the transport. -/
structure Accepted (debug : Bool) (given : Option Sock) (r : Except Exc Unit) (t : Net) :
    Prop where
  given : t.given = given
  outcome : r = .ok () ∧ t.transport = some ⟨.given, false⟩ ∨ ∃ e, Broken e t ∧
    (e.isExit = true → r = .error e) ∧
    (e.isExit = false → debug = false → r = .ok ()) ∧
    (e.isExit = false → debug = true → ∃ raised, r = reported raised ∧
      t.trail.getLast? = some (.call
        (.exceptionHandler "Error on transport creation for incoming connection" e) raised))

theorem wp_acceptFailed {C : Contract Net Await Value Exc Call (Option Exc)} {debug : Bool}
    {e : Exc} {given : Option Sock} {s : Net} (hgiven : s.given = given) (hs : Broken e s) :
    (acceptFailed debug e).wp C (Accepted debug given) s := by
  unfold acceptFailed
  split
  · rename_i hexit
    refine ⟨hgiven, .inr ⟨e, hs, fun _ => rfl, fun h => ?_, fun h => ?_⟩⟩
    · rw [hexit] at h
      cases h
    · rw [hexit] at h
      cases h
  · split
    · rename_i hexit hdebug
      have hbroken : ∀ step, Broken e (s.noted step) := by
        intro step
        refine hs.imp (fun h => ⟨h.1, List.mem_append_left _ h.2⟩) fun ⟨ht, c, hc, hkind⟩ => ?_
        exact ⟨ht, c, List.mem_append_left _ hc, hkind⟩
      have hheard : ∀ raised : Option Exc, Accepted debug given (reported raised)
          (s.noted (.call (.exceptionHandler
            "Error on transport creation for incoming connection" e) raised)) := by
        intro raised
        refine ⟨hgiven, .inr ⟨e, hbroken _, fun h => absurd h hexit, fun _ h => ?_,
          fun _ _ => ⟨raised, rfl, List.getLast?_concat⟩⟩⟩
        rw [hdebug] at h
        cases h
      exact wp_call (fun _ => hheard none) fun e' _ => hheard (some e')
    · rename_i hexit hdebug
      exact ⟨hgiven, .inr ⟨e, hs, fun h => absurd h hexit, fun _ _ => rfl,
        fun _ h => absurd h hdebug⟩⟩

/-- **What becomes of an accepted connection.** -/
theorem accept_connection2_outcome {ssl debug : Bool} {given : Option Sock} {r : Except Exc Unit}
    {t : Net} (h : (acceptConnection2 ssl debug).Ends (fun _ _ _ => True) (fun _ s _ t => t = s)
      (.start given) r t) : Accepted debug given r t := by
  refine h.sound (C := quietContract) (fun _ _ _ _ => trivial)
    (fun _ _ _ _ ha _ => ⟨trivial, ha, trivial⟩) ?_
  unfold acceptConnection2
  rw [wp_tryCatch, wp_bind]
  refine wp_call (fun _ => ?_) fun e _ => wp_acceptFailed rfl (.inr ⟨rfl, .protocolFactory, ?_⟩)
  · show wp _ (call _ >>= _) _ _
    rw [wp_bind]
    refine wp_call (fun _ => ?_) fun e _ =>
      wp_acceptFailed rfl (.inr ⟨rfl, .makeTransport .given ssl, ?_⟩)
    · rw [wp_tryCatch, wp_discard]
      refine wp_await trivial fun t r _ ht _ => ?_
      obtain rfl : t = _ := ht
      rcases r with e | v
      · exact wp_acceptFailed rfl (.inl ⟨rfl, List.mem_append_right _ List.mem_cons_self⟩)
      · exact ⟨rfl, .inl ⟨rfl, rfl⟩⟩
    · exact ⟨List.mem_append_right _ List.mem_cons_self, .inr ⟨ssl, rfl⟩⟩
  · exact ⟨List.mem_append_right _ List.mem_cons_self, .inl rfl⟩

/-- A protocol factory that raises. -/
theorem accept_connection2_outcome_example : ∃ (r : Except Exc Unit) (t : Net),
    (r = .ok () ∧ t.transport = none) ∧ Accepted false (some .new) r t := by
  obtain ⟨r, t, hends, hgood⟩ : ∃ r t, (acceptConnection2 false false).Ends
      (fun _ _ _ => True) (fun _ s _ t => t = s) (.start (some .new)) r t ∧
      (r = .ok () && t.transport.isNone) = true :=
    Ends.of_oracle twoAddresses (fun _ => true) (fun _ _ => trivial) (fun _ _ _ => rfl)
      (by decide +kernel) _ (by decide +kernel)
  have hboth := Bool.and_eq_true_iff.mp hgood
  exact ⟨r, t, ⟨of_decide_eq_true hboth.1, Option.isNone_iff_eq_none.mp hboth.2⟩,
    accept_connection2_outcome hends⟩

end Tokioop.Endpoint
