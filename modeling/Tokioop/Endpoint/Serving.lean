import Tokioop.Endpoint.Race
import Tokioop.Endpoint.Serve

/-!
What `create_server` leaves behind.

The list that the coroutine keeps is that of the sockets which are open, at
every step of its loop. So a failure has all of them closed, unless a `close`
raises itself, and the server gets all of them, each bound to its address.
-/

namespace Tokioop.Endpoint

open Kit Kit.Prog

variable {lib : Lib} {a : ServerArgs} {infos : List AddrInfo}

/-! ### The sockets that are open -/

def Net.isOpen (s : Net) (k : Nat) : Bool := (s.sock? (.attempt k)).any fun sk => sk.closes = 0

/-- The open sockets in the order of their addresses. -/
def Net.opened (s : Net) : List SockRef :=
  ((List.range s.attempts.length).filter s.isOpen).map .attempt

theorem At.isOpen {k : Nat} {x : Attempt} {s : Net} (h : At k x s) :
    s.isOpen k = x.sock.any fun sk => sk.closes = 0 := by
  rw [Net.isOpen, Net.sock?, show s.attempts[k]? = some x from h]
  rfl

theorem Spent.not_open {k : Nat} {x : Attempt} {s : Net} (hx : At k x s) (h : Spent x) :
    s.isOpen k = false := by
  rw [hx.isOpen]
  cases hs : x.sock with
  | none => rfl
  | some sk => simp [h sk hs]

theorem exists_of_isOpen {k : Nat} {s : Net} (h : s.isOpen k = true) :
    ∃ x sk, At k x s ∧ x.sock = some sk ∧ sk.closes = 0 := by
  cases hx : s.attempts[k]? with
  | none =>
      rw [Net.isOpen, Net.sock?, hx] at h
      cases h
  | some x =>
      rw [At.isOpen hx, Option.any_eq_true] at h
      obtain ⟨sk, hsk, hc⟩ := h
      exact ⟨x, sk, hx, hsk, of_decide_eq_true hc⟩

theorem isOpen_congr {k : Nat} {s t : Net} (h : t.attempts[k]? = s.attempts[k]?) :
    t.isOpen k = s.isOpen k := by
  rw [Net.isOpen, Net.isOpen, Net.sock?, Net.sock?, h]

theorem filter_range_of_le {p : Nat → Bool} {k n : Nat} (hk : k ≤ n)
    (hp : ∀ j, k ≤ j → p j = false) : (List.range n).filter p = (List.range k).filter p := by
  induction hk with
  | refl => rfl
  | @step n hn ih => simp [List.range_succ, List.filter_append, ih, hp n hn]

/-- The last of the open sockets. -/
theorem opened_push {k : Nat} {s t : Net} (hlength : t.attempts.length = s.attempts.length)
    (hothers : ∀ j, j ≠ k → t.attempts[j]? = s.attempts[j]?)
    (hlater : ∀ j, k ≤ j → s.isOpen j = false) (hopen : t.isOpen k = true) :
    t.opened = s.opened ++ [.attempt k] := by
  have hlt : k < s.attempts.length := by
    by_contra hge
    rw [Net.isOpen, Net.sock?, List.getElem?_eq_none (by omega)] at hopen
    cases hopen
  have hsame : ∀ j ∈ List.range k, t.isOpen j = s.isOpen j := fun j hj =>
    isOpen_congr (hothers j (Nat.ne_of_lt (List.mem_range.mp hj)))
  rw [Net.opened, Net.opened, hlength, filter_range_of_le (Nat.le_of_lt hlt) hlater,
    filter_range_of_le (k := k + 1) hlt fun j hj => ?_, List.range_succ, List.filter_append,
    List.filter_congr hsame]
  · simp [hopen]
  · exact (isOpen_congr (hothers j (Nat.ne_of_gt hj))).trans (hlater j (Nat.le_of_lt hj))

theorem opened_same {k : Nat} {s t : Net} (hlength : t.attempts.length = s.attempts.length)
    (hothers : ∀ j, j ≠ k → t.attempts[j]? = s.attempts[j]?) (hs : s.isOpen k = false)
    (ht : t.isOpen k = false) : t.opened = s.opened := by
  rw [Net.opened, Net.opened, hlength]
  refine congrArg _ (List.filter_congr fun j _ => ?_)
  by_cases hj : j = k
  · rw [hj, hs, ht]
  · exact isOpen_congr (hothers j hj)

/-! ### One address -/

/-- The update is one of the `k`-th socket. -/
structure Amid (k : Nat) (s t : Net) : Prop where
  others : ∀ j, j ≠ k → t.attempts[j]? = s.attempts[j]?
  length : t.attempts.length = s.attempts.length
  given : t.given = s.given
  transport : t.transport = s.transport
  server : t.server = s.server
  trail : s.trail <+: t.trail

theorem Amid.refl (k : Nat) (s : Net) : Amid k s s :=
  ⟨fun _ _ => rfl, rfl, rfl, rfl, rfl, List.prefix_refl _⟩

theorem Amid.trans {k : Nat} {s t u : Net} (h : Amid k s t) (h' : Amid k t u) : Amid k s u :=
  ⟨fun j hj => (h'.others j hj).trans (h.others j hj), h'.length.trans h.length,
    h'.given.trans h.given, h'.transport.trans h.transport, h'.server.trans h.server,
    h.trail.trans h'.trail⟩

theorem amid_noted (k : Nat) (s : Net) (step : Step) : Amid k s (s.noted step) :=
  ⟨fun _ _ => rfl, rfl, rfl, rfl, rfl, List.prefix_append _ _⟩

theorem amid_sockets (k : Nat) (s : Net) (sockets : List SockRef) :
    Amid k s { s with sockets } := ⟨fun _ _ => rfl, rfl, rfl, rfl, rfl, List.prefix_refl _⟩

theorem amid_modifyAttempt (k : Nat) (s : Net) (f : Attempt → Attempt) :
    Amid k s (s.modifyAttempt k f) := by
  refine ⟨fun j hj => ?_, List.length_modify .., rfl, rfl, rfl, List.prefix_refl _⟩
  simp [Net.modifyAttempt, Ne.symm hj]

theorem amid_call {k : Nat} {c : Call} (hc : c.about k = true) (s : Net) (r : Option Exc) :
    Amid k s ((s.noted (.call c r)).effect c r) := by
  have hw := within_effect hc (s.noted (.call c r)) r
  refine ⟨hw.others, hw.length, hw.given, hw.transport, ?_, ?_⟩
  · rw [effect_server]
    rfl
  · rw [effect_trail]
    exact List.prefix_append _ _

/-- The socket listens where it should. -/
def Placed (a : ServerArgs) (info : AddrInfo) (x : Attempt) : Prop :=
  ∃ sk, x.sock = some sk ∧ sk.closes = 0 ∧ sk.bound = some info.address ∧
    sk.options = a.options info.family

/-- The address has been passed over: the kernel would not make a socket, or
does not have the address. -/
def Skipped (k : Nat) (info : AddrInfo) (s : Net) : Prop :=
  ∃ e, .call (.socket k info.family info.type info.proto) (some (.osError e)) ∈ s.trail ∨
    .call (.bind (.attempt k) info.address) (some (.osError e)) ∈ s.trail ∧
      e.errno = some eaddrnotavail

theorem Skipped.mono {k : Nat} {info : AddrInfo} {s t : Net} (h : Skipped k info s)
    (ht : s.trail <+: t.trail) : Skipped k info t :=
  h.imp fun _ he => he.imp (fun h => ht.subset h) fun h => ⟨ht.subset h.1, h.2⟩

/-- The socket is open and on the list. -/
def Kept (k : Nat) (base : List SockRef) (t : Net) : Prop :=
  t.sockets = base ++ [.attempt k] ∧ ∃ x sk, At k x t ∧ x.sock = some sk ∧ sk.closes = 0

/-- There is none that is open, and the list is as it was. -/
def Gone (k : Nat) (base : List SockRef) (t : Net) : Prop :=
  t.sockets = base ∧ ∃ x, At k x t ∧ Spent x

/-- The loop has got to the next address, where `P` holds of the socket if
there is one. -/
structure Listened (P : Attempt → Prop) (k : Nat) (info : AddrInfo) (base : List SockRef)
    (s : Net) (r : Except Exc Unit) (t : Net) : Prop where
  amid : Amid k s t
  listed : Kept k base t ∨ Gone k base t
  returned : r = .ok () → (∃ x, At k x t ∧ P x) ∧ Kept k base t ∨
    Gone k base t ∧ Skipped k info t

theorem Kept.raised {P : Attempt → Prop} {k : Nat} {info : AddrInfo} {base : List SockRef}
    {s t : Net} {e : Exc} (h : Kept k base t) (hamid : Amid k s t) :
    Listened P k info base s (.error e) t :=
  ⟨hamid, .inl h, fun hr => by cases hr⟩

theorem Gone.raised {P : Attempt → Prop} {k : Nat} {info : AddrInfo} {base : List SockRef}
    {s t : Net} {e : Exc} (h : Gone k base t) (hamid : Amid k s t) :
    Listened P k info base s (.error e) t :=
  ⟨hamid, .inr h, fun hr => by cases hr⟩

section

variable {C : Contract Net Await Value Exc Call (Option Exc)} {k : Nat}

theorem wp_setOptions (os : List SockOption) {s : Net} {x : Attempt} {sk : Sock} (hx : At k x s)
    (hsk : x.sock = some sk) :
    (setOptions (.attempt k) os).wp C (fun r t => (Amid k s t ∧ t.sockets = s.sockets) ∧
      ∃ x' sk', At k x' t ∧ x'.exceptions = x.exceptions ∧ x'.sock = some sk' ∧
        sk'.closes = sk.closes ∧ (r = .ok () → sk' = { sk with options := sk.options ++ os })) s
    := by
  induction os generalizing s x sk with
  | nil =>
      refine ⟨⟨.refl k s, rfl⟩, x, sk, hx, rfl, hsk, rfl, fun _ => ?_⟩
      rw [List.append_nil]
  | cons o os ih =>
      unfold setOptions
      rw [wp_bind]
      have hcall := amid_call (k := k) (c := .setsockopt (.attempt k) o) (by simp [Call.about]) s
      refine wp_call (fun _ => ?_) fun e _ => ?_
      · have hx' := At.modifySock (s := s.noted (.call (.setsockopt (.attempt k) o) none)) hx hsk
          fun y => { y with options := y.options ++ [o] }
        refine wp_mono C ?_ (ih hx' rfl)
        rintro r t ⟨⟨hamid, hsockets⟩, x', sk', hx'', he, hsk', hc, ho⟩
        refine ⟨⟨(hcall none).trans hamid, hsockets⟩, x', sk', hx'', he, hsk', hc, fun hr => ?_⟩
        rw [ho hr, List.append_assoc]
        rfl
      · refine ⟨⟨hcall (some e), rfl⟩, x, sk, hx, rfl, hsk, rfl, fun h => ?_⟩
        cases h

/-- The last socket of the list is taken off it and closed, whether `close`
raises or not. -/
theorem wp_closeLast {s : Net} {x : Attempt} {sk : Sock} {base : List SockRef} (hx : At k x s)
    (hsk : x.sock = some sk) (hc : sk.closes = 0) (hbase : s.sockets = base ++ [.attempt k]) :
    (modify (fun s => { s with sockets := s.sockets.dropLast }) >>= fun _ =>
      call (.close (.attempt k)) : Coro Unit).wp C (fun _ t => Amid k s t ∧ Gone k base t) s := by
  rw [wp_bind, wp_modify]
  have hclosed : ∀ r, Amid k s ((({ s with sockets := s.sockets.dropLast } : Net).noted
        (.call (.close (.attempt k)) r)).effect (.close (.attempt k)) r) ∧
      Gone k base ((({ s with sockets := s.sockets.dropLast } : Net).noted
        (.call (.close (.attempt k)) r)).effect (.close (.attempt k)) r) := by
    intro r
    refine ⟨(amid_sockets k s _).trans
      (amid_call (k := k) (c := .close (.attempt k)) (by simp [Call.about]) _ r), ?_, _,
      At.modify (s := Net.noted _ (.call (.close (.attempt k)) r)) hx fun x =>
        { x with sock := x.sock.map fun y => { y with closes := y.closes + 1 } }, fun sk' h => ?_⟩
    · rw [effect_sockets]
      show s.sockets.dropLast = base
      rw [hbase, List.dropLast_concat]
    · rw [hsk] at h
      cases h
      show sk.closes + 1 = 1
      rw [hc]
  exact wp_call (fun _ => hclosed none) fun e _ => hclosed (some e)

theorem wp_bindServer {info : AddrInfo} {s : Net} {x : Attempt} {sk : Sock}
    {base : List SockRef} (hx : At k x s) (hsk : x.sock = some sk) (hc : sk.closes = 0)
    (hbase : s.sockets = base ++ [.attempt k]) :
    (bindServer lib k info).wp C (Listened
      (fun x' => x'.sock = some { sk with bound := some info.address }) k info base s) s := by
  unfold bindServer
  rw [wp_andThen]
  refine wp_call (fun _ => ?_) fun e _ => ?_
  · have hx' := At.modify (s := s.noted (.call (.bind (.attempt k) info.address) none)) hx
      fun x => { x with sock := x.sock.map fun y => { y with bound := some info.address } }
    rw [hsk] at hx'
    have hkept : Kept k base ((s.noted (.call (.bind (.attempt k) info.address) none)).effect
        (.bind (.attempt k) info.address) none) := ⟨hbase, _, _, hx', rfl, hc⟩
    exact ⟨amid_call (by simp [Call.about]) s none, .inl hkept,
      fun _ => .inl ⟨⟨_, hx', rfl⟩, hkept⟩⟩
  · have hamid : Amid k s (s.noted (.call (.bind (.attempt k) info.address) (some e))) :=
      amid_call (c := .bind (.attempt k) info.address) (by simp [Call.about]) s (some e)
    have hkept : Kept k base (s.noted (.call (.bind (.attempt k) info.address) (some e))) :=
      ⟨hbase, x, sk, hx, hsk, hc⟩
    cases e with
    | osError err =>
        show wp C (if err.errno = some eaddrnotavail then _ else _) _ _
        split
        · -- Passed over.
          rename_i herrno
          refine wp_mono C ?_ (wp_closeLast (s := s.noted _) hx hsk hc hbase)
          rintro r t ⟨ht, hgone⟩
          refine ⟨hamid.trans ht, .inr hgone, fun _ => .inr ⟨hgone, err, .inr ⟨?_, herrno⟩⟩⟩
          exact ht.trail.subset (by simp [Net.noted])
        · exact hkept.raised hamid
    | exceptionGroup _ _ | valueError _ | typeError _ | indexError _ | cancelled | exits _
    | other _ =>
        exact hkept.raised hamid

theorem wp_listenOn {info : AddrInfo} {s : Net} (hx : At k .idle s) :
    (listenOn lib a k info).wp C (Listened (Placed a info) k info s.sockets s) s := by
  unfold listenOn
  rw [wp_andThen]
  refine wp_call (fun _ => ?_) fun e _ => ?_
  · -- The socket has been made; it is the last of the list from now on.
    have hsocket := amid_call (k := k) (c := .socket k info.family info.type info.proto)
      (by simp [Call.about]) s none
    have hx' := At.modify
      (s := s.noted (.call (.socket k info.family info.type info.proto) none)) hx
      fun x => { x with sock := some .new }
    show wp C (modify _ >>= _) _ _
    rw [wp_bind, wp_modify]
    show wp C (setOptions _ _ >>= _) _ _
    rw [wp_bind]
    refine wp_mono C ?_ (wp_setOptions _ hx' rfl)
    rintro r t ⟨⟨hamid, hsockets⟩, x', sk', hxt, -, hsk', hc, hoptions⟩
    have hst : Amid k s t := hsocket.trans ((amid_sockets k _ _).trans hamid)
    have hbase : t.sockets = s.sockets ++ [.attempt k] := hsockets
    rcases r with e | _
    · exact Kept.raised ⟨hbase, x', sk', hxt, hsk', hc⟩ hst
    · refine wp_mono C ?_ (wp_bindServer hxt hsk' hc hbase)
      rintro r u ⟨htu, hlisted, hreturned⟩
      refine ⟨hst.trans htu, hlisted, fun hr => (hreturned hr).imp_left fun hbound => ?_⟩
      obtain ⟨⟨y, hy, hsk⟩, hkept⟩ := hbound
      exact ⟨⟨y, hy, _, hsk, hc, rfl, by rw [hoptions rfl]; rfl⟩, hkept⟩
  · have hamid : Amid k s (s.noted
        (.call (.socket k info.family info.type info.proto) (some e))) :=
      amid_call (c := .socket k info.family info.type info.proto) (by simp [Call.about]) s (some e)
    have hgone : Gone k s.sockets (s.noted
        (.call (.socket k info.family info.type info.proto) (some e))) :=
      ⟨rfl, .idle, hx, fun sk h => by cases h⟩
    show wp C (if e.isOSError = true then _ else _) _ _
    split
    · cases e with
      | osError err =>
          exact ⟨hamid, .inr hgone, fun _ => .inr ⟨hgone, err, .inl (by simp [Net.noted])⟩⟩
      | exceptionGroup _ _ | valueError _ | typeError _ | indexError _ | cancelled | exits _
      | other _ =>
          rename_i hos
          cases hos
    · exact hgone.raised hamid

end

/-! ### All of them -/

/-- The list is that of the open sockets, and all others are closed. -/
structure Listed (s : Net) : Prop where
  sockets : s.sockets = s.opened
  spent : ∀ j x, At j x s → s.isOpen j = false → Spent x

/-- The first `k` addresses have been gone through. -/
structure Placing (a : ServerArgs) (infos : List AddrInfo) (k : Nat) (s : Net) : Prop where
  length : s.attempts.length = infos.length
  listed : Listed s
  done : ∀ j x info, j < k → At j x s → infos[j]? = some info →
    Placed a info x ∨ Spent x ∧ Skipped j info s
  idle : ∀ j x, k ≤ j → At j x s → x = .idle

theorem Placing.not_open {k : Nat} {s : Net} (h : Placing a infos k s) {j : Nat} (hj : k ≤ j) :
    s.isOpen j = false := by
  cases hx : s.attempts[j]? with
  | none => rw [Net.isOpen, Net.sock?, hx]; rfl
  | some x =>
      refine Spent.not_open hx ?_
      rw [h.idle j x hj hx]
      exact fun sk h => by cases h

/-- The body of the loop keeps the list. -/
theorem Placing.listened {P : Attempt → Prop} {k : Nat} {info : AddrInfo} {s t : Net}
    {r : Except Exc Unit} (h : Placing a infos k s) (ht : Listened P k info s.sockets s r t) :
    Listed t := by
  have hothers : ∀ j x, j ≠ k → At j x t → t.isOpen j = false → Spent x := fun j x hj hx hopen =>
    h.listed.spent j x ((ht.amid.others j hj).symm.trans hx)
      ((isOpen_congr (ht.amid.others j hj)).symm.trans hopen)
  rcases ht.listed with ⟨hsockets, x, sk, hx, hsk, hc⟩ | ⟨hsockets, x, hx, hspent⟩
  · have hopen : t.isOpen k = true := by rw [hx.isOpen, hsk]; simp [hc]
    refine ⟨?_, fun j y hy hj => ?_⟩
    · rw [hsockets, h.listed.sockets]
      exact (opened_push ht.amid.length ht.amid.others (fun j hj => h.not_open hj) hopen).symm
    · by_cases hjk : j = k
      · rw [hjk, hopen] at hj
        cases hj
      · exact hothers j y hjk hy hj
  · refine ⟨?_, fun j y hy hj => ?_⟩
    · rw [hsockets, h.listed.sockets]
      exact (opened_same ht.amid.length ht.amid.others (h.not_open (Nat.le_refl _))
        (hspent.not_open hx)).symm
    · by_cases hjk : j = k
      · subst hjk
        cases hx.symm.trans hy
        exact hspent
      · exact hothers j y hjk hy hj

theorem Placing.next {k : Nat} {info : AddrInfo} {s t : Net} (h : Placing a infos k s)
    (hinfo : infos[k]? = some info)
    (ht : Listened (Placed a info) k info s.sockets s (.ok ()) t) :
    Placing a infos (k + 1) t := by
  refine ⟨ht.amid.length.trans h.length, h.listened ht, fun j x i hj hx hi => ?_,
    fun j x hj hx => ?_⟩
  · rcases Nat.lt_succ_iff_lt_or_eq.mp hj with hj | rfl
    · exact (h.done j x i hj ((ht.amid.others j (Nat.ne_of_lt hj)).symm.trans hx) hi).imp_right
        fun hs => ⟨hs.1, hs.2.mono ht.amid.trail⟩
    · cases hinfo.symm.trans hi
      rcases ht.returned rfl with ⟨⟨y, hy, hplaced⟩, -⟩ | ⟨⟨-, y, hy, hspent⟩, hskipped⟩
      · cases hy.symm.trans hx
        exact .inl hplaced
      · cases hy.symm.trans hx
        exact .inr ⟨hspent, hskipped⟩
  · exact h.idle j x (Nat.le_of_succ_le hj)
      ((ht.amid.others j (Nat.ne_of_gt hj)).symm.trans hx)

section

variable {C : Contract Net Await Value Exc Call (Option Exc)}

theorem wp_listenAll (rest done : List AddrInfo) (hinfos : infos = done ++ rest) {s : Net}
    (hs : Placing a infos done.length s) :
    (listenAll lib a rest done.length).wp C (fun r t => (t.given = s.given ∧
      t.server = s.server) ∧ Listed t ∧
      (r = .ok () → Placing a infos infos.length t ∧ s.trail <+: t.trail)) s := by
  induction rest generalizing done s with
  | nil =>
      rw [List.append_nil] at hinfos
      subst hinfos
      exact ⟨⟨rfl, rfl⟩, hs.listed, fun _ => ⟨hs, List.prefix_refl _⟩⟩
  | cons info rest ih =>
      have hinfo : infos[done.length]? = some info := by simp [hinfos]
      have hidle : At done.length .idle s := by
        have hlt : done.length < s.attempts.length := by
          rw [hs.length, hinfos, List.length_append, List.length_cons]
          omega
        have hx : At done.length s.attempts[done.length] s := List.getElem?_eq_getElem hlt
        rw [hs.idle _ _ (Nat.le_refl _) hx] at hx
        exact hx
      unfold listenAll
      rw [wp_bind]
      refine wp_mono C ?_ (wp_listenOn hidle)
      rintro r t ht
      rcases r with e | _
      · exact ⟨⟨ht.amid.given, ht.amid.server⟩, hs.listened ht, fun h => by cases h⟩
      · have hgo := ih (done ++ [info]) (by simp [hinfos]) (s := t) (by
          rw [List.length_append]
          exact hs.next hinfo ht)
        rw [List.length_append, List.length_singleton] at hgo
        refine wp_mono C ?_ hgo
        rintro r u ⟨⟨hgiven, hserver⟩, hlisted, hu⟩
        exact ⟨⟨hgiven.trans ht.amid.given, hserver.trans ht.amid.server⟩, hlisted,
          fun hr => ⟨(hu hr).1, ht.amid.trail.trans (hu hr).2⟩⟩

/-- The last thing that has happened is that closing one of the sockets raised. -/
def CloseRaised (e : Exc) (t : Net) : Prop :=
  ∃ sock, t.trail.getLast? = some (.call (.close sock) (some e))

/-- Closing the open sockets of a list closes each of them, up to one where `close` raises. -/
theorem wp_closeAll (ks : List Nat) (hnodup : ks.Nodup) {s : Net}
    (hopen : ∀ k ∈ ks, s.isOpen k = true) :
    (closeAll (ks.map .attempt)).wp C (fun r t => (t.given = s.given ∧ t.server = s.server) ∧
      (∀ e, r = .error e → CloseRaised e t) ∧ (r = .ok () →
        (∀ j, j ∉ ks → t.attempts[j]? = s.attempts[j]?) ∧
        ∀ j x, j ∈ ks → At j x t → Spent x)) s := by
  induction ks generalizing s with
  | nil =>
      refine ⟨⟨rfl, rfl⟩, fun e h => ?_, fun _ => ⟨fun _ _ => rfl, fun j x hj => ?_⟩⟩
      · cases h
      · cases hj
  | cons k ks ih =>
      obtain ⟨hk, hnodup'⟩ := List.nodup_cons.mp hnodup
      show (call (.close (.attempt k)) >>= fun _ => closeAll (ks.map .attempt)).wp C _ s
      rw [wp_bind]
      have hamid : ∀ r, Amid k s ((s.noted (.call (.close (.attempt k)) r)).effect
          (.close (.attempt k)) r) := amid_call (by simp [Call.about]) s
      refine wp_call (fun _ => ?_) fun e _ => ⟨⟨(hamid (some e)).given, (hamid (some e)).server⟩,
        fun e' he => ?_, fun h => ?_⟩
      · refine wp_mono C ?_ (ih hnodup' fun j hj => ?_)
        · rintro r t ⟨⟨hgiven, hserver⟩, herr, hok⟩
          refine ⟨⟨hgiven.trans (hamid none).given, hserver.trans (hamid none).server⟩, herr,
            fun hr => ⟨fun j hj => ?_, fun j x hj hx => ?_⟩⟩
          · rw [List.mem_cons, not_or] at hj
            exact ((hok hr).1 j hj.2).trans ((hamid none).others j hj.1)
          · rcases List.mem_cons.mp hj with rfl | hj
            · -- It was open before, and has been closed once since.
              obtain ⟨y, sk, hy, hsk, hc⟩ := exists_of_isOpen (hopen j List.mem_cons_self)
              have hy' := At.modify (s := s.noted (.call (.close (.attempt j)) none)) hy
                fun x => { x with sock := x.sock.map fun y => { y with closes := y.closes + 1 } }
              cases (((hok hr).1 j hk).trans hy').symm.trans hx
              intro sk' h
              rw [hsk] at h
              cases h
              show sk.closes + 1 = 1
              rw [hc]
            · exact (hok hr).2 j x hj hx
        · exact (isOpen_congr ((hamid none).others j fun h => hk (h ▸ hj))).trans
            (hopen j (List.mem_cons_of_mem _ hj))
      · cases he
        refine ⟨.attempt k, ?_⟩
        rw [effect_trail]
        exact List.getLast?_concat
      · cases h

/-- Either some of the addresses are listened on and the others have been passed
over, or everything is closed again. -/
theorem wp_bindAll {s : Net} (hs : s.attempts = infos.map fun _ => .idle) (hnil : s.sockets = []) :
    (bindAll lib a infos).wp C (fun r t => (t.given = s.given ∧ t.server = s.server) ∧
      (r = .ok () → (Placing a infos infos.length t ∧ s.trail <+: t.trail) ∧ t.sockets ≠ []) ∧
      ∀ e, r = .error e → (∀ j x, At j x t → Spent x) ∨ CloseRaised e t) s := by
  have hstart : Placing a infos ([] : List AddrInfo).length s := by
    have hnone : ∀ j x, At j x s → Spent x := fun j x hx sk h => by
      rw [at_idle hs hx] at h
      cases h
    have hclosed : ∀ j, s.isOpen j = false := by
      intro j
      cases hx : s.attempts[j]? with
      | none => rw [Net.isOpen, Net.sock?, hx]; rfl
      | some x => exact (hnone j x hx).not_open hx
    refine ⟨by rw [hs, List.length_map], ⟨?_, fun j x hx _ => hnone j x hx⟩, fun j x i hj => ?_,
      fun j x _ hx => at_idle hs hx⟩
    · rw [hnil, Net.opened, List.filter_eq_nil_iff.mpr fun j _ => by simp [hclosed j]]
      rfl
    · cases hj
  have hclose : ∀ {e : Exc} {t : Net}, t.given = s.given → t.server = s.server → Listed t →
      (do closeAll (← get).sockets; raise e : Coro Unit).wp C (fun r u =>
        (u.given = s.given ∧ u.server = s.server) ∧
        (r = .ok () → (Placing a infos infos.length u ∧ s.trail <+: u.trail) ∧ u.sockets ≠ []) ∧
        ∀ e, r = .error e → (∀ j x, At j x u → Spent x) ∨ CloseRaised e u) t := by
    intro e t hgiven hserver ht
    rw [wp_bind, wp_get]
    show wp C (closeAll t.sockets >>= _) _ t
    rw [wp_bind, ht.sockets]
    refine wp_mono C ?_ (wp_closeAll _ (List.nodup_range.filter _) fun k hk =>
      (List.mem_filter.mp hk).2)
    rintro r u ⟨⟨hgiven', hserver'⟩, herr, hok⟩
    rcases r with e' | _
    · refine ⟨⟨hgiven'.trans hgiven, hserver'.trans hserver⟩, fun h => ?_, fun e'' he => .inr ?_⟩
      · cases h
      · cases he
        exact herr _ rfl
    · obtain ⟨hothers, hclosed⟩ := hok rfl
      refine ⟨⟨hgiven'.trans hgiven, hserver'.trans hserver⟩, fun h => ?_,
        fun e'' _ => .inl fun j x hx => ?_⟩
      · cases h
      · by_cases hj : j ∈ (List.range t.attempts.length).filter t.isOpen
        · exact hclosed j x hj hx
        · have hxt : At j x t := (hothers j hj).symm.trans hx
          refine ht.spent j x hxt (Bool.eq_false_iff.mpr fun hopen => hj ?_)
          have hlt := (List.getElem?_eq_some_iff.mp hxt).1
          exact List.mem_filter.mpr ⟨List.mem_range.mpr hlt, hopen⟩
  unfold bindAll
  rw [wp_tryCatch, wp_bind]
  refine wp_mono C ?_ (wp_listenAll infos [] rfl hstart)
  rintro r t ⟨⟨hgiven, hserver⟩, hlisted, hplaced⟩
  rcases r with e | _
  · exact hclose hgiven hserver hlisted
  · show wp C (checkBound infos) _ t
    unfold checkBound
    rw [wp_bind, wp_get]
    show wp C (if t.sockets = [] then _ else _) _ t
    split
    · exact hclose hgiven hserver hlisted
    · rename_i hne
      refine ⟨⟨hgiven, hserver⟩, fun _ => ⟨hplaced rfl, hne⟩, fun e h => ?_⟩
      cases h

end

/-! ### The server -/

def Sock.unblocked (sk : Sock) : Sock := { sk with blocking := false }

/-- At most, some of the sockets do not block any more. -/
structure Softened (s t : Net) : Prop where
  length : t.attempts.length = s.attempts.length
  socks : ∀ ref, t.sock? ref = s.sock? ref ∨ t.sock? ref = (s.sock? ref).map Sock.unblocked
  sockets : t.sockets = s.sockets
  trail : s.trail <+: t.trail

theorem Softened.refl (s : Net) : Softened s s :=
  ⟨rfl, fun _ => .inl rfl, rfl, List.prefix_refl _⟩

theorem Softened.trans {s t u : Net} (h : Softened s t) (h' : Softened t u) : Softened s u := by
  refine ⟨h'.length.trans h.length, fun ref => ?_, h'.sockets.trans h.sockets,
    h.trail.trans h'.trail⟩
  rcases h'.socks ref with h' | h' <;> rcases h.socks ref with h | h
  · exact .inl (h'.trans h)
  · exact .inr (h'.trans h)
  · exact .inr (by rw [h', h])
  · refine .inr ?_
    rw [h', h, Option.map_map]
    rfl

theorem sock?_modifySock (s : Net) (f : Sock → Sock) (ref ref' : SockRef) :
    (s.modifySock f ref).sock? ref' =
      if ref' = ref then (s.sock? ref').map f else s.sock? ref' := by
  cases ref with
  | given =>
      cases ref' with
      | given => rfl
      | attempt j => rfl
  | attempt k =>
      cases ref' with
      | given => rfl
      | attempt j =>
          by_cases hj : k = j
          · subst hj
            cases h : s.attempts[k]? with
            | none => simp [Net.modifySock, Net.modifyAttempt, Net.sock?, h]
            | some x => simp [Net.modifySock, Net.modifyAttempt, Net.sock?, h]
          · simp [Net.modifySock, Net.modifyAttempt, Net.sock?, hj, Ne.symm hj]

theorem softened_noted (s : Net) (step : Step) : Softened s (s.noted step) :=
  ⟨rfl, fun _ => .inl rfl, rfl, List.prefix_append _ _⟩

theorem softened_setblocking (s : Net) (sock : SockRef) :
    Softened s ((s.noted (.call (.setblocking sock) none)).effect (.setblocking sock) none) := by
  refine (softened_noted s _).trans ⟨?_, fun ref => ?_, effect_sockets .., ?_⟩
  · cases sock with
    | given => rfl
    | attempt k => exact List.length_modify ..
  · show (Net.modifySock _ Sock.unblocked sock).sock? ref = _ ∨
      (Net.modifySock _ Sock.unblocked sock).sock? ref = _
    rw [sock?_modifySock]
    split
    · exact .inr rfl
    · exact .inl rfl
  · exact (effect_trail ..).symm ▸ List.prefix_refl _

/-- An attempt and its socket, before and after. -/
theorem Softened.at {s t : Net} (h : Softened s t) {k : Nat} {x : Attempt} (hx : At k x t) :
    ∃ y, At k y s ∧ (x.sock = y.sock ∨ x.sock = y.sock.map Sock.unblocked) := by
  have hlt : k < s.attempts.length := h.length ▸ (List.getElem?_eq_some_iff.mp hx).1
  have hy : At k s.attempts[k] s := List.getElem?_eq_getElem hlt
  have hsock : ∀ {u : Net} {z : Attempt}, At k z u → u.sock? (.attempt k) = z.sock := by
    intro u z hz
    rw [Net.sock?, show u.attempts[k]? = some z from hz]
    rfl
  have hor := h.socks (.attempt k)
  rw [hsock hx, hsock hy] at hor
  exact ⟨_, hy, hor⟩

theorem Softened.isOpen {s t : Net} (h : Softened s t) (k : Nat) : t.isOpen k = s.isOpen k := by
  rw [Net.isOpen, Net.isOpen]
  rcases h.socks (.attempt k) with hsock | hsock
  · rw [hsock]
  · rw [hsock]
    cases s.sock? (.attempt k) with
    | none => rfl
    | some sk => rfl

theorem Softened.spent {s t : Net} (h : Softened s t) {k : Nat}
    (hs : ∀ x, At k x s → Spent x) {x : Attempt} (hx : At k x t) : Spent x := by
  obtain ⟨y, hy, hor⟩ := h.at hx
  intro sk hsk
  rcases hor with hor | hor
  · exact hs y hy sk (hor.symm.trans hsk)
  · obtain ⟨sk', hsk', rfl⟩ := Option.map_eq_some_iff.mp (hor.symm.trans hsk)
    exact hs y hy sk' hsk'

theorem Softened.placing {s t : Net} (h : Softened s t) (hs : Placing a infos infos.length s) :
    Placing a infos infos.length t := by
  have hopened : t.opened = s.opened := by
    rw [Net.opened, Net.opened, h.length]
    exact congrArg _ (List.filter_congr fun j _ => h.isOpen j)
  refine ⟨h.length.trans hs.length, ⟨?_, fun j x hx hj => ?_⟩, fun j x info hj hx hinfo => ?_,
    fun j x hj hx => ?_⟩
  · rw [h.sockets, hs.listed.sockets, hopened]
  · exact h.spent (fun y hy => hs.listed.spent j y hy ((h.isOpen j).symm.trans hj)) hx
  · obtain ⟨y, hy, hor⟩ := h.at hx
    rcases hs.done j y info hj hy hinfo with ⟨sk, hsk, hc, hb, ho⟩ | ⟨hspent, hskipped⟩
    · rcases hor with hor | hor
      · exact .inl ⟨sk, hor.trans hsk, hc, hb, ho⟩
      · exact .inl ⟨sk.unblocked, by rw [hor, hsk]; rfl, hc, hb, ho⟩
    · refine .inr ⟨h.spent (fun z hz => ?_) hx, hskipped.mono h.trail⟩
      cases hy.symm.trans hz
      exact hspent
  · have hlt := (List.getElem?_eq_some_iff.mp hx).1
    rw [h.length, hs.length] at hlt
    omega

/-- The first thing that has happened is that the hosts have been looked up. -/
def Resolved (a : ServerArgs) (found : List AddrInfo) (t : Net) : Prop :=
  [.await (.gather a.host.hosts a.port a.family a.flags) (.ok (.infos found))] <+: t.trail

/-- Each of the sockets is open and where it should be; there is at least one.
The addresses are those that the hosts have. -/
def Offers (lib : Lib) (a : ServerArgs) (t : Net) : Prop :=
  t.attempts = [] ∧ t.sockets = [.given] ∨
    t.sockets ≠ [] ∧ ∃ found, Resolved a found t ∧
      Placing a (lib.setOrder found) (lib.setOrder found).length t

theorem Softened.offers {s t : Net} (h : Softened s t) (hs : Offers lib a s) :
    Offers lib a t := by
  rcases hs with ⟨hattempts, hsockets⟩ | ⟨hne, found, hfound, hs⟩
  · refine .inl ⟨List.length_eq_zero_iff.mp ?_, h.sockets.trans hsockets⟩
    rw [h.length, hattempts]
    rfl
  · exact .inr ⟨by rw [h.sockets]; exact hne, found, hfound.trans h.trail, h.placing hs⟩

theorem Softened.closes {s t : Net} (h : Softened s t) :
    t.given.map (·.closes) = s.given.map (·.closes) := by
  rcases h.socks .given with hg | hg
  · exact congrArg _ hg
  · rw [show t.given = s.given.map Sock.unblocked from hg, Option.map_map]
    rfl

def Nonblocking (t : Net) (ref : SockRef) : Prop :=
  ∀ sk, t.sock? ref = some sk → sk.blocking = false

theorem Softened.nonblocking {s t : Net} (h : Softened s t) {ref : SockRef}
    (hs : Nonblocking s ref) : Nonblocking t ref := by
  intro sk hsk
  rcases h.socks ref with hor | hor
  · exact hs sk (hor.symm.trans hsk)
  · obtain ⟨sk', hsk', rfl⟩ := Option.map_eq_some_iff.mp (hor.symm.trans hsk)
    rfl

/-- The last thing that has happened is that something raised after the loop. -/
def LateRaised (e : Exc) (t : Net) : Prop :=
  (∃ sock, t.trail.getLast? = some (.call (.setblocking sock) (some e))) ∨
    t.trail.getLast? = some (.call .startServing (some e)) ∨
    t.trail.getLast? = some (.await .sleep (.error e))

theorem wp_unblockAll {C : Contract Net Await Value Exc Call (Option Exc)} (refs : List SockRef)
    {s : Net} : (unblockAll refs).wp C (fun r t => Softened s t ∧
      (r = .ok () → ∀ ref ∈ refs, Nonblocking t ref) ∧
      ∀ e, r = .error e → LateRaised e t) s := by
  induction refs generalizing s with
  | nil =>
      refine ⟨.refl s, fun _ ref h => ?_, fun e h => ?_⟩
      · cases h
      · cases h
  | cons ref refs ih =>
      unfold unblockAll
      rw [wp_bind]
      refine wp_call (fun _ => ?_) fun e _ => ⟨softened_noted s _, fun h => ?_, fun e' he => ?_⟩
      · refine wp_mono C ?_ ih
        rintro r t ⟨ht, hok, herr⟩
        refine ⟨(softened_setblocking s ref).trans ht, fun hr ref' hmem => ?_, herr⟩
        rcases List.mem_cons.mp hmem with rfl | hmem
        · refine ht.nonblocking fun sk hsk => ?_
          change (Net.modifySock _ Sock.unblocked ref').sock? ref' = some sk at hsk
          rw [sock?_modifySock, if_pos rfl] at hsk
          obtain ⟨sk', -, rfl⟩ := Option.map_eq_some_iff.mp hsk
          rfl
        · exact hok hr ref' hmem
      · cases h
      · cases he
        exact .inl ⟨ref, List.getLast?_concat⟩

/-- How the sockets of a server have been made. -/
def Collected (lib : Lib) (a : ServerArgs) (s : Net) (r : Except Exc Unit) (t : Net) : Prop :=
  (t.given = s.given ∧ t.server = s.server) ∧ (r = .ok () → Offers lib a t) ∧
    ∀ e, r = .error e → (∀ j x, At j x t → Spent x) ∨ CloseRaised e t

theorem collected_nothing {s t : Net} {e : Exc} (hs : t.attempts = []) (hgiven : t.given = s.given)
    (hserver : t.server = s.server) : Collected lib a s (.error e) t := by
  refine ⟨⟨hgiven, hserver⟩, fun h => ?_, fun _ _ => .inl fun j x hx => ?_⟩
  · cases h
  · rw [At, hs] at hx
    cases hx

/-- Nothing is listened on without addresses. -/
theorem Placing.sockets_nil {s : Net} (h : Placing a [] 0 s) : s.sockets = [] := by
  rw [h.listed.sockets, Net.opened, h.length]
  rfl

/-- Looking up the hosts, which is the first thing that is done. -/
theorem wp_serverInfos {s : Net} (htrail : s.trail = []) :
    (serverInfos lib a).wp quietContract (fun r t =>
      (t.attempts = s.attempts ∧ t.sockets = s.sockets ∧ t.given = s.given ∧
        t.server = s.server) ∧
      ∀ infos, r = .ok infos → infos = [] ∨
        ∃ found, Resolved a found t ∧ infos = lib.setOrder found) s := by
  unfold serverInfos
  rw [wp_bind]
  refine wp_await trivial fun t r _ ht _ => ?_
  obtain rfl : t = s := ht
  rcases r with e | v
  · exact ⟨⟨rfl, rfl, rfl, rfl⟩, fun _ h => by cases h⟩
  · cases v with
    | infos found =>
        refine ⟨⟨rfl, rfl, rfl, rfl⟩, fun infos h => .inr ⟨found, ?_, ?_⟩⟩
        · show _ <+: t.trail ++ _
          rw [htrail]
          exact List.prefix_refl _
        · cases h
          rfl
    | unit | winner _ =>
        refine ⟨⟨rfl, rfl, rfl, rfl⟩, fun infos h => .inl ?_⟩
        cases h
        rfl

theorem wp_serverSockets {s : Net} (hs : s.attempts = []) (hnil : s.sockets = [])
    (htrail : s.trail = []) :
    (serverSockets lib a).wp quietContract (Collected lib a s) s := by
  unfold serverSockets
  split
  · split
    · exact collected_nothing hs rfl rfl
    · rw [wp_bind]
      refine wp_mono _ ?_ (wp_serverInfos htrail)
      rintro r t ⟨⟨hattempts, hsockets, hgiven, hserver⟩, hfound⟩
      rcases r with e | infos
      · exact collected_nothing (hattempts.trans hs) hgiven hserver
      · show wp _ (modify _ >>= fun _ => bindAll lib a infos) _ t
        rw [wp_bind, wp_modify]
        refine wp_mono _ ?_ (wp_bindAll rfl (hsockets.trans hnil))
        rintro r u ⟨⟨hgiven', hserver'⟩, hok, herr⟩
        refine ⟨⟨hgiven'.trans hgiven, hserver'.trans hserver⟩, fun hr => ?_, herr⟩
        obtain ⟨⟨hplacing, hprefix⟩, hne⟩ := hok hr
        rcases hfound infos rfl with rfl | ⟨found, hresolved, rfl⟩
        · exact absurd hplacing.sockets_nil hne
        · exact .inr ⟨hne, found, hresolved.trans hprefix, hplacing⟩
  · split
    · exact collected_nothing hs rfl rfl
    · split
      · exact collected_nothing hs rfl rfl
      · refine ⟨⟨rfl, rfl⟩, fun _ => .inl ⟨hs, rfl⟩, fun e h => ?_⟩
        cases h

theorem wp_checkServerArgs {C : Contract Net Await Value Exc Call (Option Exc)} {s : Net} :
    (checkServerArgs a).wp C (fun _ t => t = s) s := by
  have hssl : (checkSslSocket a.sock).wp C (fun _ t => t = s) s := by
    unfold checkSslSocket
    split
    · split
      · exact rfl
      · exact rfl
    · exact rfl
  unfold checkServerArgs
  split
  · exact rfl
  · split
    · exact rfl
    · split
      · exact rfl
      · exact hssl

/-- What there is when `create_server` has ended. -/
structure Served (lib : Lib) (a : ServerArgs) (given : Option Sock) (r : Except Exc Unit)
    (t : Net) : Prop where
  given : t.given.map (·.closes) = given.map (·.closes)
  returned : r = .ok () → Offers lib a t ∧ t.server = some t.sockets ∧ ∀ ref ∈ t.sockets,
    Nonblocking t ref
  raised : ∀ e, r = .error e → t.server = none ∧ ((∀ j x, At j x t → Spent x) ∨ CloseRaised e t) ∨
    Offers lib a t ∧ LateRaised e t

theorem wp_startServer {given : Option Sock} {s : Net} (hs : Offers lib a s)
    (hsoft : ∀ ref ∈ s.sockets, Nonblocking s ref)
    (hgiven : s.given.map (·.closes) = given.map (·.closes)) :
    (startServer a).wp quietContract (Served lib a given) s := by
  -- What is left to do does not touch the sockets.
  have hserve : ∀ t : Net, t.attempts = s.attempts → t.given = s.given → t.sockets = s.sockets →
      s.trail <+: t.trail → Softened s t := by
    intro t hattempts hgiven hsockets htrail
    refine ⟨by rw [hattempts], fun ref => .inl ?_, hsockets, htrail⟩
    cases ref with
    | given => exact hgiven
    | attempt k => rw [Net.sock?, Net.sock?, hattempts]
  have hdone : ∀ t : Net, t.server = some s.sockets → Softened s t →
      Served lib a given (.ok ()) t := by
    intro t hserver ht
    refine ⟨ht.closes.trans hgiven, fun _ => ⟨ht.offers hs, by rw [hserver, ht.sockets],
      fun ref href => ht.nonblocking (hsoft ref (ht.sockets ▸ href))⟩, fun e h => ?_⟩
    cases h
  have hlate : ∀ (t : Net) (e : Exc), LateRaised e t → Softened s t →
      Served lib a given (.error e) t := by
    intro t e hraised ht
    refine ⟨ht.closes.trans hgiven, fun h => ?_, fun e' he => .inr ⟨ht.offers hs, ?_⟩⟩
    · cases h
    · cases he
      exact hraised
  unfold startServer
  rw [wp_bind, wp_modify]
  show wp _ (if a.startServing = true then _ else _) _ _
  split
  · rw [wp_bind]
    refine wp_call (fun _ => ?_) fun e _ => ?_
    · show wp _ (discard (await .sleep)) _ _
      rw [wp_discard]
      refine wp_await trivial fun t r _ ht _ => ?_
      obtain rfl : t = _ := ht
      have htrail : ∀ x y : Step, s.trail <+: (s.trail ++ [x]) ++ [y] := fun x y =>
        (List.prefix_append _ _).trans (List.prefix_append _ _)
      rcases r with e | v
      · exact hlate _ e (.inr (.inr List.getLast?_concat)) (hserve _ rfl rfl rfl (htrail _ _))
      · exact hdone _ rfl (hserve _ rfl rfl rfl (htrail _ _))
    · exact hlate _ e (.inr (.inl List.getLast?_concat))
        (hserve _ rfl rfl rfl (List.prefix_append _ _))
  · exact hdone _ rfl (hserve _ rfl rfl rfl (List.prefix_refl _))

theorem wp_createServer {given : Option Sock} :
    (createServer lib a).wp quietContract (Served lib a given) (.start given) := by
  have hnothing : ∀ {r : Except Exc Unit} {e : Exc} {t : Net}, Collected lib a (.start given) r t →
      r = .error e → Served lib a given (.error e) t := by
    rintro r e t ⟨⟨hgiven, hserver⟩, -, herr⟩ rfl
    refine ⟨by rw [hgiven]; rfl, fun h => ?_, fun e' he => .inl ⟨hserver, ?_⟩⟩
    · cases h
    · cases he
      exact herr _ rfl
  unfold createServer
  rw [wp_bind]
  refine wp_mono _ ?_ wp_checkServerArgs
  rintro r _ rfl
  rcases r with e | _
  · exact hnothing (collected_nothing rfl rfl rfl) rfl
  show wp _ (serverSockets lib a >>= _) _ _
  rw [wp_bind]
  refine wp_mono _ ?_ (wp_serverSockets rfl rfl rfl)
  rintro r t ht
  rcases r with e | _
  · exact hnothing ht rfl
  obtain ⟨⟨hgiven, -⟩, hok, -⟩ := ht
  show wp _ (unblockAll t.sockets >>= _) _ t
  rw [wp_bind]
  refine wp_mono _ ?_ (wp_unblockAll t.sockets)
  rintro r u ⟨hsoft, hunblocked, herr⟩
  have hgiven' : u.given.map (·.closes) = given.map (·.closes) :=
    hsoft.closes.trans (by rw [hgiven]; rfl)
  rcases r with e | _
  · refine ⟨hgiven', fun h => ?_, fun e' he => .inr ⟨hsoft.offers (hok rfl), herr e' ?_⟩⟩
    · cases h
    · exact he
  · exact wp_startServer (hsoft.offers (hok rfl))
      (fun ref href => hunblocked rfl ref (hsoft.sockets ▸ href)) hgiven'

/-- **What `create_server` leaves behind.** -/
theorem create_server_sockets {given : Option Sock} {r : Except Exc Unit} {t : Net}
    (h : (createServer lib a).Ends (fun _ _ _ => True) (fun _ s _ t => t = s) (.start given) r t) :
    Served lib a given r t :=
  h.sound (fun _ _ _ _ => trivial) (fun _ _ _ _ ha _ => ⟨trivial, ha, trivial⟩) wp_createServer

/-- A host with three addresses: the second one is gone again, and the third
one is taken. -/
def threeAddresses : Oracle Net Await Value Exc Call (Option Exc) where
  ret
    | .gather .. , _ => .ok (.infos [⟨afInet, sockStream, 6, "", "('127.0.0.1', 80)"⟩,
        ⟨afInet, sockStream, 6, "", "('10.0.0.7', 80)"⟩,
        ⟨afInet6, sockStream, 6, "", "('::1', 80, 0, 0)"⟩])
    | _, _ => .ok .unit
  answer
    | .bind (.attempt 1) _, _ => some (.osError ⟨false, some 99, "Cannot assign requested address"⟩)
    | .bind (.attempt 2) _, _ => some (.osError ⟨false, some 98, "Address already in use"⟩)
    | _, _ => none

def plainServerArgs : ServerArgs :=
  ⟨.one "localhost", some "80", 0, 1, none, .none, none, false, false, false, false, true⟩

/-- All three have been closed. -/
theorem create_server_sockets_example : ∃ (r : Except Exc Unit) (t : Net),
    (t.attempts.map fun x => x.sock.map (·.closes)) = [some 1, some 1, some 1] ∧
    Served plainLib plainServerArgs none r t := by
  obtain ⟨r, t, hends, hgood⟩ : ∃ r t, (createServer plainLib plainServerArgs).Ends
      (fun _ _ _ => True) (fun _ s _ t => t = s) (.start none) r t ∧
      decide ((t.attempts.map fun x => x.sock.map (·.closes)) = [some 1, some 1, some 1]) = true :=
    Ends.of_oracle threeAddresses (fun _ => true) (fun _ _ => trivial) (fun _ _ _ => rfl)
      (by decide +kernel) _ (by decide +kernel)
  exact ⟨r, t, of_decide_eq_true hgood, create_server_sockets hends⟩

end Tokioop.Endpoint
