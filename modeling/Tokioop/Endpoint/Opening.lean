import Tokioop.Endpoint.Datagram
import Tokioop.Endpoint.Serving

/-!
What `create_datagram_endpoint` does with its addresses and sockets.

Addresses of the two sides that are of one family and protocol make a pair, and
all such pairs are tried until a socket can be set up as the arguments ask for.
A socket that cannot be is closed before the next pair is tried.
-/

namespace Tokioop.Endpoint

open Kit Kit.Prog

variable {lib : Lib} {a : DatagramArgs}

/-! ### Joined addresses -/

def lastAddress (infos : List AddrInfo) (key : Nat × Nat) : Option Address :=
  (infos.filter fun i => i.key = key).getLast?.map (·.address)

/-- Updates that take nothing from what they replace. -/
theorem foldl_last {σ τ : Type} {f : τ → Option σ → σ} (hf : ∀ x y o, f y (some (f x o)) = f y o)
    (xs : List τ) (o : Option σ) :
    xs.foldl (fun o x => some (f x o)) o = (xs.getLast?.map fun x => f x o).or o := by
  induction xs generalizing o with
  | nil => rfl
  | cons x xs ih =>
      rw [List.foldl_cons, ih]
      cases h : xs.getLast? with
      | none => simp [List.getLast?_eq_none_iff.mp h]
      | some y => simp [List.getLast?_cons, h, hf]

def joined (localInfos remoteInfos : List AddrInfo) : AddrInfos :=
  joinRemote remoteInfos (joinLocal localInfos [])

theorem lookup_joined (localInfos remoteInfos : List AddrInfo) (key : Nat × Nat) :
    (joined localInfos remoteInfos).lookup key =
      if lastAddress localInfos key = none ∧ lastAddress remoteInfos key = none then none
      else some (lastAddress localInfos key, lastAddress remoteInfos key) := by
  have hlocal : (joinLocal localInfos []).lookup key =
      (lastAddress localInfos key).map fun l => (some l, none) := by
    rw [joinLocal, Dict.lookup_collect, foldl_last fun _ _ _ => rfl, lastAddress, Option.map_map]
    exact Option.or_none
  rw [joined, joinRemote, Dict.lookup_collect, foldl_last fun _ _ _ => rfl, hlocal, lastAddress,
    lastAddress]
  cases (localInfos.filter fun i => i.key = key).getLast? <;>
    cases (remoteInfos.filter fun i => i.key = key).getLast? <;> simp

theorem lastAddress_eq_none {infos : List AddrInfo} {key : Nat × Nat} :
    lastAddress infos key = none ↔ ∀ i ∈ infos, i.key ≠ key := by
  simp [lastAddress]

theorem nodup_joined (localInfos remoteInfos : List AddrInfo) :
    ((joined localInfos remoteInfos).map Prod.fst).Nodup :=
  Dict.nodup_collect _ (Dict.nodup_collect _ List.nodup_nil)

theorem mem_pairs {infos : AddrInfos} {p : Pair} : p ∈ a.pairs infos ↔
    ((p.family, p.proto), p.localAddress, p.remoteAddress) ∈ infos ∧ a.complete p = true := by
  rw [DatagramArgs.pairs, List.mem_filter]
  refine and_congr_left fun _ => ⟨fun h => ?_, fun h => List.mem_map.mpr ⟨_, h, rfl⟩⟩
  obtain ⟨x, hx, rfl⟩ := List.mem_map.mp h
  exact hx

/-- **Which pairs are tried.** For every family and protocol there is the pair of the last
addresses found for it, if none is missing, and no other. -/
theorem pairs_joined (a : DatagramArgs) (localInfos remoteInfos : List AddrInfo) :
    ((a.pairs (joined localInfos remoteInfos)).map fun p => (p.family, p.proto)).Nodup ∧
      ∀ p, p ∈ a.pairs (joined localInfos remoteInfos) ↔
        (∃ i ∈ localInfos ++ remoteInfos, i.key = (p.family, p.proto)) ∧
        p.localAddress = lastAddress localInfos (p.family, p.proto) ∧
        p.remoteAddress = lastAddress remoteInfos (p.family, p.proto) ∧ a.complete p = true := by
  refine ⟨?_, fun p => ?_⟩
  · refine List.Nodup.sublist (List.Sublist.map _ List.filter_sublist) ?_
    rw [List.map_map]
    exact nodup_joined localInfos remoteInfos
  · have hfound : (∃ i ∈ localInfos ++ remoteInfos, i.key = (p.family, p.proto)) ↔
        ¬(lastAddress localInfos (p.family, p.proto) = none ∧
          lastAddress remoteInfos (p.family, p.proto) = none) := by
      rw [lastAddress_eq_none, lastAddress_eq_none, ← List.forall_mem_append]
      simp
    rw [mem_pairs, Dict.mem_iff_lookup (nodup_joined _ _), lookup_joined, hfound]
    split
    · rename_i h
      simp [h]
    · rename_i h
      rw [Option.some_inj, Prod.mk.injEq]
      exact ⟨fun ⟨⟨hl, hr⟩, hc⟩ => ⟨h, hl.symm, hr.symm, hc⟩,
        fun ⟨_, hl, hr, hc⟩ => ⟨⟨hl.symm, hr.symm⟩, hc⟩⟩

def plainDatagramArgs : DatagramArgs :=
  ⟨some ⟨.pair (some "localhost") (some "9"), true, "('localhost', 9)"⟩,
    some ⟨.pair (some "dns") (some "53"), true, "('dns', 53)"⟩, 0, 0, 0, false, false, none⟩

/-- An IPv6 and an IPv4 address on the one side, two IPv4 addresses on the other:
the one pair has the last of them. -/
theorem pairs_joined_example :
    let pairs := plainDatagramArgs.pairs (joined
      [⟨afInet6, sockDgram, 17, "", "('::1', 9, 0, 0)"⟩,
        ⟨afInet, sockDgram, 17, "", "('127.0.0.1', 9)"⟩]
      [⟨afInet, sockDgram, 17, "", "('10.0.0.1', 53)"⟩,
        ⟨afInet, sockDgram, 17, "", "('10.0.0.2', 53)"⟩])
    pairs.length = 1 ∧
      ⟨afInet, 17, some "('127.0.0.1', 9)", some "('10.0.0.2', 53)"⟩ ∈ pairs ∧
      ⟨afInet, 17, some "('127.0.0.1', 9)", some "('10.0.0.1', 53)"⟩ ∉ pairs := by
  refine ⟨by decide +kernel, ?_, fun hmem => ?_⟩
  · exact ((pairs_joined ..).2 _).mpr (by decide +kernel)
  · exact absurd (((pairs_joined ..).2 _).mp hmem) (by decide +kernel)

/-! ### The pairs there are -/

/-- The addresses of one side, and what has happened to get them. -/
inductive Resolves (lib : Lib) (a : DatagramArgs) : Option DgAddr → List AddrInfo → List Step → Prop
  | none : Resolves lib a none [] []
  | numeric {d : DgAddr} {host port : Option String} {info : AddrInfo}
      (hkind : d.kind = .pair host port)
      (hinfo : lib.ipaddrInfo host port a.family sockDgram a.proto = some info) :
      Resolves lib a (some d) [info] []
  | name {d : DgAddr} {host port : Option String} {infos : List AddrInfo}
      (hkind : d.kind = .pair host port)
      (hinfo : lib.ipaddrInfo host port a.family sockDgram a.proto = none) :
      Resolves lib a (some d) infos
        [.await (.getaddrinfo host port a.family sockDgram a.proto a.flags) (.ok (.infos infos))]

/-- The pairs of the addresses of both sides, which are the first that has been
looked up. -/
def Joins (lib : Lib) (a : DatagramArgs) (pairs : List Pair) (trail : List Step) : Prop :=
  ∃ localInfos remoteInfos steps steps',
    Resolves lib a a.localAddr localInfos steps ∧
    Resolves lib a a.remoteAddr remoteInfos steps' ∧ steps ++ steps' <+: trail ∧
    pairs = a.pairs (joined localInfos remoteInfos)

/-- What is tried for the arguments. -/
def Offered (lib : Lib) (a : DatagramArgs) (pairs : List Pair) (trail : List Step) : Prop :=
  pairs ≠ [] ∧ (∀ p ∈ pairs, a.complete p = true) ∧
    if (a.hasLocal || a.hasRemote) = false then pairs = [⟨a.family, a.proto, none, none⟩]
    else if a.family = afUnix then
      pairs = [⟨a.family, a.proto, a.localAddr.map (·.str), a.remoteAddr.map (·.str)⟩]
    else Joins lib a pairs trail

theorem Offered.mono {pairs : List Pair} {trail trail' : List Step}
    (h : Offered lib a pairs trail) (ht : trail <+: trail') : Offered lib a pairs trail' := by
  obtain ⟨hne, hcomplete, hpairs⟩ := h
  refine ⟨hne, hcomplete, ?_⟩
  split
  · rename_i hneither
    rwa [if_pos hneither] at hpairs
  · rename_i hsome
    rw [if_neg hsome] at hpairs
    split
    · rename_i hunix
      rwa [if_pos hunix] at hpairs
    · rename_i hunix
      rw [if_neg hunix] at hpairs
      obtain ⟨localInfos, remoteInfos, steps, steps', hlocal, hremote, hprefix, heq⟩ := hpairs
      exact ⟨localInfos, remoteInfos, steps, steps', hlocal, hremote, hprefix.trans ht, heq⟩

theorem wp_resolveSide {o : Option DgAddr} {s : Net} :
    (resolveSide lib a o).wp quietContract (fun r t => Still s t ∧
      ∀ infos, r = .ok infos → ∃ steps, t.trail = s.trail ++ steps ∧ Resolves lib a o infos steps) s
    := by
  unfold resolveSide
  split
  · exact ⟨.refl s, fun infos h => by cases h; exact ⟨[], (List.append_nil _).symm, .none⟩⟩
  · rename_i d
    split
    · rename_i host port hkind
      unfold resolved ensureResolved
      split
      · rename_i info hinfo
        exact ⟨.refl s, fun infos h => by
          cases h
          exact ⟨[], (List.append_nil _).symm, .numeric hkind hinfo⟩⟩
      · rename_i hinfo
        rw [wp_bind, wp_bind]
        refine wp_await trivial fun t r _ ht _ => ?_
        obtain rfl : t = s := ht
        rcases r with e | v
        · exact ⟨⟨rfl, rfl, rfl⟩, fun _ h => by cases h⟩
        · cases v with
          | infos infos =>
              show wp _ (if infos = [] then _ else _) _ _
              split
              · exact ⟨⟨rfl, rfl, rfl⟩, fun _ h => by cases h⟩
              · refine ⟨⟨rfl, rfl, rfl⟩, fun infos' h => ?_⟩
                cases h
                exact ⟨_, rfl, .name hkind hinfo⟩
          | unit | winner _ => exact ⟨⟨rfl, rfl, rfl⟩, fun _ h => by cases h⟩
    · exact ⟨.refl s, fun _ h => by cases h⟩
    · exact ⟨.refl s, fun _ h => by cases h⟩

theorem wp_joinedPairs {s : Net} (htrail : s.trail = []) : (joinedPairs lib a).wp quietContract
    (fun r t => Still s t ∧ ∀ pairs, r = .ok pairs → pairs ≠ [] ∧
      (∀ p ∈ pairs, a.complete p = true) ∧ Joins lib a pairs t.trail) s := by
  have herror : ∀ {e : Exc} {t : Net}, Still s t → Still s t ∧
      ∀ pairs, (.error e : Except Exc (List Pair)) = .ok pairs → pairs ≠ [] ∧
        (∀ p ∈ pairs, a.complete p = true) ∧ Joins lib a pairs t.trail :=
    fun ht => ⟨ht, fun _ h => by cases h⟩
  unfold joinedPairs
  rw [wp_bind]
  refine wp_mono _ (fun r t ht => ?_) wp_resolveSide
  rcases r with e | localInfos
  · exact herror ht.1
  obtain ⟨ht, hlocal⟩ := ht
  obtain ⟨steps, hsteps, hlocal⟩ := hlocal localInfos rfl
  show wp _ (resolveSide lib a a.remoteAddr >>= _) _ t
  rw [wp_bind]
  refine wp_mono _ (fun r u hu => ?_) wp_resolveSide
  rcases r with e | remoteInfos
  · exact herror (ht.trans hu.1)
  obtain ⟨hu, hremote⟩ := hu
  obtain ⟨steps', hsteps', hremote⟩ := hremote remoteInfos rfl
  show wp _ (if a.pairs (joined localInfos remoteInfos) = [] then _ else _) _ u
  split
  · exact herror (ht.trans hu)
  · rename_i hne
    refine ⟨ht.trans hu, fun pairs h => ?_⟩
    cases h
    refine ⟨hne, fun p hp => (List.mem_filter.mp hp).2,
      localInfos, remoteInfos, steps, steps', hlocal, hremote, ?_, rfl⟩
    rw [hsteps', hsteps, htrail]
    exact List.prefix_refl _

theorem wp_removeStale {d : DgAddr} {s : Net} :
    (removeStale d).wp quietContract (fun _ t => Still s t) s := by
  unfold removeStale
  split
  · rw [wp_tryCatch]
    refine wp_call (fun _ => ⟨rfl, rfl, rfl⟩) fun e _ => ?_
    show wp _ (if e.isOSError = true then _ else _) _ _
    split
    · exact ⟨rfl, rfl, rfl⟩
    · exact ⟨rfl, rfl, rfl⟩
  · exact .refl s

theorem wp_unixPairs {s : Net} : (unixPairs a).wp quietContract
    (fun r t => Still s t ∧ ∀ pairs, r = .ok pairs →
      pairs = [⟨a.family, a.proto, a.localAddr.map (·.str), a.remoteAddr.map (·.str)⟩]) s := by
  have hstale : (removeStaleAny a.localAddr).wp quietContract (fun _ t => Still s t) s := by
    unfold removeStaleAny
    split
    · exact .refl s
    · exact wp_removeStale
  unfold unixPairs
  split
  · exact ⟨.refl s, fun _ h => by cases h⟩
  · rw [wp_bind]
    refine wp_mono _ (fun r t ht => ?_) hstale
    rcases r with e | _
    · exact ⟨ht, fun _ h => by cases h⟩
    · refine ⟨ht, fun pairs h => ?_⟩
      cases h
      rfl

/-- A side that has an address has one in the pair that is made of the two. -/
theorem complete_unix : a.complete
    ⟨a.family, a.proto, a.localAddr.map (·.str), a.remoteAddr.map (·.str)⟩ = true := by
  unfold DatagramArgs.complete DatagramArgs.hasLocal DatagramArgs.hasRemote
  cases a.localAddr <;> cases a.remoteAddr <;> simp

theorem wp_addrPairs {s : Net} (htrail : s.trail = []) : (addrPairs lib a).wp quietContract
    (fun r t => Still s t ∧ ∀ pairs, r = .ok pairs → Offered lib a pairs t.trail) s := by
  unfold addrPairs
  split
  · rename_i hneither
    have hfalse : (a.hasLocal || a.hasRemote) = false := by simpa using hneither
    split
    · exact ⟨.refl s, fun _ h => by cases h⟩
    · refine ⟨.refl s, fun pairs h => ?_⟩
      cases h
      refine ⟨List.cons_ne_nil _ _, fun p hp => ?_, by rw [if_pos hfalse]⟩
      rw [List.mem_singleton.mp hp]
      rw [Bool.or_eq_false_iff] at hfalse
      simp [DatagramArgs.complete, hfalse.1, hfalse.2]
  · rename_i hsome
    have htrue : ¬(a.hasLocal || a.hasRemote) = false := by simpa using hsome
    split
    · rename_i hunix
      refine wp_mono _ (fun r t ht => ⟨ht.1, fun pairs h => ?_⟩) wp_unixPairs
      obtain rfl := ht.2 pairs h
      refine ⟨List.cons_ne_nil _ _, fun p hp => ?_, by rw [if_neg htrue, if_pos hunix]⟩
      rw [List.mem_singleton.mp hp]
      exact complete_unix
    · rename_i hunix
      refine wp_mono _ (fun r t ht => ⟨ht.1, fun pairs h => ?_⟩) (wp_joinedPairs htrail)
      obtain ⟨hne, hcomplete, hjoins⟩ := ht.2 pairs h
      exact ⟨hne, hcomplete, by rw [if_neg htrue, if_neg hunix]; exact hjoins⟩

/-! ### One pair -/

/-- The socket is set up as the arguments ask for. -/
def Fits (a : DatagramArgs) (p : Pair) (x : Attempt) : Prop :=
  ∃ sk, x.sock = some sk ∧ sk.closes = 0 ∧ sk.blocking = false ∧ sk.options = a.options ∧
    sk.bound = (if a.hasLocal then p.localAddress else none) ∧
    sk.peer = if a.hasRemote && !a.allowBroadcast then p.remoteAddress else none

/-- Nothing is left open, and there is one exception. -/
structure Dropped (x : Attempt) : Prop where
  spent : Spent x
  noted : ∃ e, x.exceptions = [e]

section

variable {k : Nat} {p : Pair}

theorem wp_bindDatagram {C : Contract Net Await Value Exc Call (Option Exc)}
    (hp : a.complete p = true) {s : Net} {x : Attempt} {sk : Sock} (hx : At k x s)
    (hsk : x.sock = some sk) :
    (bindDatagram a k p).wp C (fun r t => Amid k s t ∧ ∃ x' sk', At k x' t ∧
      x'.exceptions = x.exceptions ∧ x'.sock = some sk' ∧ sk'.closes = sk.closes ∧
      (r = .ok () → sk' = { sk with bound := if a.hasLocal then p.localAddress else sk.bound })) s
    := by
  unfold bindDatagram
  split
  · rename_i hlocal
    have hsome : p.localAddress = some (Address.orNone p.localAddress) := by
      cases h : p.localAddress with
      | none => simp [DatagramArgs.complete, hlocal, h] at hp
      | some l => rfl
    have hbind := amid_call (k := k) (c := .bind (.attempt k) (Address.orNone p.localAddress))
      (by simp [Call.about]) s
    refine wp_call (fun _ => ⟨hbind none, ?_⟩) fun e _ =>
      ⟨hbind (some e), x, sk, hx, rfl, hsk, rfl, fun h => by cases h⟩
    refine ⟨_, _, At.modifySock (s := s.noted _) hx hsk fun y =>
      { y with bound := some (.orNone p.localAddress) }, rfl, rfl, rfl, fun _ => ?_⟩
    rw [← hsome]
  · exact ⟨.refl k s, x, sk, hx, rfl, hsk, rfl, fun _ => rfl⟩

/-- The address that a socket for the pair sends to by default. -/
def DatagramArgs.target (a : DatagramArgs) (p : Pair) : Option Address :=
  if a.hasRemote then p.remoteAddress else none

theorem wp_connectDatagram (hp : a.complete p = true) {s : Net} {x : Attempt} {sk : Sock}
    (hx : At k x s) (hsk : x.sock = some sk) :
    (connectDatagram a k p).wp quietContract (fun r t => Amid k s t ∧ ∃ x' sk', At k x' t ∧
      x'.exceptions = x.exceptions ∧ x'.sock = some sk' ∧ sk'.closes = sk.closes ∧
      ∀ address, r = .ok address → address = a.target p ∧ sk' = { sk with peer :=
        if a.hasRemote && !a.allowBroadcast then p.remoteAddress else sk.peer }) s := by
  have hsame : ∀ {o : Option Address}, o = a.target p →
      (a.hasRemote && !a.allowBroadcast) = false →
      Amid k s s ∧ ∃ x' sk', At k x' s ∧ x'.exceptions = x.exceptions ∧ x'.sock = some sk' ∧
        sk'.closes = sk.closes ∧ ∀ address, (.ok o : Except Exc (Option Address)) = .ok address →
          address = a.target p ∧ sk' = { sk with peer :=
            if a.hasRemote && !a.allowBroadcast then p.remoteAddress else sk.peer } := by
    intro o ho h
    refine ⟨.refl k s, x, sk, hx, rfl, hsk, rfl, fun address hr => ?_⟩
    cases hr
    exact ⟨ho, by rw [h]; rfl⟩
  unfold connectDatagram
  split
  · rename_i hremote
    have htarget : p.remoteAddress = a.target p := (if_pos hremote).symm
    split
    · rename_i hb
      exact hsame htarget (by rw [hb, Bool.not_true, Bool.and_false])
    · rename_i hb
      have hsome : p.remoteAddress = some (Address.orNone p.remoteAddress) := by
        cases h : p.remoteAddress with
        | none => simp [DatagramArgs.complete, hremote, h] at hp
        | some l => rfl
      rw [wp_bind, wp_discard]
      refine wp_await trivial fun t r _ ht _ => ?_
      obtain rfl : t = s := ht
      rcases r with e | v
      · refine ⟨amid_noted k t _, x, sk, hx, rfl, hsk, rfl, fun _ h => ?_⟩
        cases h
      · refine ⟨(amid_noted k t _).trans (amid_modifyAttempt k _ _), _, _,
          At.modifySock (s := t.noted _) hx hsk fun y =>
            { y with peer := some (.orNone p.remoteAddress) }, rfl, rfl, rfl, fun address h => ?_⟩
        cases h
        rw [← hsome]
        exact ⟨htarget, by simp [hremote, hb]⟩
  · rename_i hremote
    exact hsame (if_neg hremote).symm (by rw [Bool.eq_false_iff.mpr hremote, Bool.false_and])

/-- How setting up a socket for a pair ends. -/
structure SetUp (a : DatagramArgs) (k : Nat) (p : Pair) (s : Net) (r : Except Exc (Option Address))
    (t : Net) : Prop where
  amid : Amid k s t
  attempt : ∃ x, At k x t ∧ x.exceptions = [] ∧ (∀ sk, x.sock = some sk → sk.closes = 0) ∧
    ∀ address, r = .ok address → Fits a p x ∧ address = a.target p

theorem wp_openDatagram (hp : a.complete p = true) {s : Net} (hx : At k .idle s) :
    (openDatagram a k p).wp quietContract (SetUp a k p s) s := by
  have hfailed : ∀ {e : Exc} {t : Net} {x : Attempt} {sk : Sock}, Amid k s t → At k x t →
      x.exceptions = [] → x.sock = some sk → sk.closes = 0 → SetUp a k p s (.error e) t := by
    intro e t x sk hamid hx he hsk hc
    refine ⟨hamid, x, hx, he, fun sk' h => ?_, fun _ h => ?_⟩
    · cases hsk.symm.trans h
      exact hc
    · cases h
  have hsocket := amid_call (k := k) (c := .socket k p.family sockDgram p.proto)
    (by simp [Call.about]) s
  unfold openDatagram
  rw [wp_bind]
  refine wp_call (fun _ => ?_) fun e _ => ⟨hsocket (some e), .idle, hx, rfl, fun sk h => ?_,
    fun _ h => ?_⟩
  · have hx' := At.modify (s := s.noted (.call (.socket k p.family sockDgram p.proto) none)) hx
      fun x => { x with sock := some .new }
    show wp _ (setOptions _ _ >>= _) _ _
    rw [wp_bind]
    refine wp_mono _ ?_ (wp_setOptions a.options hx' rfl)
    rintro r t ⟨⟨hamid, -⟩, x₁, sk₁, hx₁, he₁, hsk₁, hc₁, ho₁⟩
    replace hamid := (hsocket none).trans hamid
    rcases r with e | _
    · exact hfailed hamid hx₁ he₁ hsk₁ hc₁
    have hblocking := amid_call (k := k) (c := .setblocking (.attempt k)) (by simp [Call.about]) t
    show wp _ (call _ >>= _) _ t
    rw [wp_bind]
    refine wp_call (fun _ => ?_) fun e _ =>
      hfailed (hamid.trans (hblocking (some e))) hx₁ he₁ hsk₁ hc₁
    replace hamid := hamid.trans (hblocking none)
    have hx₂ := At.modifySock (s := t.noted (.call (.setblocking (.attempt k)) none)) hx₁ hsk₁
      fun y => { y with blocking := false }
    show wp _ (bindDatagram a k p >>= _) _ _
    rw [wp_bind]
    refine wp_mono _ ?_ (wp_bindDatagram hp hx₂ rfl)
    rintro r u ⟨hamid', x₃, sk₃, hx₃, he₃, hsk₃, hc₃, hb₃⟩
    replace hamid := hamid.trans hamid'
    rcases r with e | _
    · exact hfailed hamid hx₃ (he₃.trans he₁) hsk₃ (hc₃.trans hc₁)
    refine wp_mono _ ?_ (wp_connectDatagram hp hx₃ hsk₃)
    rintro r v ⟨hamid', x₄, sk₄, hx₄, he₄, hsk₄, hc₄, hp₄⟩
    replace hamid := hamid.trans hamid'
    rcases r with e | address
    · exact hfailed hamid hx₄ (he₄.trans (he₃.trans he₁)) hsk₄ (hc₄.trans (hc₃.trans hc₁))
    · obtain ⟨htarget, rfl⟩ := hp₄ address rfl
      obtain rfl := hb₃ rfl
      obtain rfl := ho₁ rfl
      refine ⟨hamid, x₄, hx₄, he₄.trans (he₃.trans he₁), fun sk h => ?_, fun _ h => ?_⟩
      · cases hsk₄.symm.trans h
        rfl
      · cases h
        exact ⟨⟨_, hsk₄, rfl, rfl, rfl, rfl, rfl⟩, htarget⟩
  · cases h
  · cases h

/-- The socket of the pair is closed, whether `close` raises or not. -/
theorem wp_closeMade {C : Contract Net Await Value Exc Call (Option Exc)} {s : Net} {x : Attempt}
    (hx : At k x s) (hc : ∀ sk, x.sock = some sk → sk.closes = 0) :
    (closeMade k).wp C (fun _ t => Amid k s t ∧ ∃ x', At k x' t ∧
      x'.exceptions = x.exceptions ∧ Spent x') s := by
  have hsock : s.sock? (.attempt k) = x.sock := by
    rw [Net.sock?, show s.attempts[k]? = some x from hx]
    rfl
  unfold closeMade
  rw [wp_bind, wp_get]
  show wp C (if (s.sock? (.attempt k)).isSome = true then _ else _) _ s
  rw [hsock]
  split
  · rename_i hsome
    obtain ⟨sk, hsk⟩ := Option.isSome_iff_exists.mp hsome
    have hclose := amid_call (k := k) (c := .close (.attempt k)) (by simp [Call.about]) s
    have hclosed : ∀ step, ∃ x', At k x' ((s.noted step).modifySock
        (fun y => { y with closes := y.closes + 1 }) (.attempt k)) ∧
        x'.exceptions = x.exceptions ∧ Spent x' := by
      refine fun step => ⟨_, At.modifySock (s := s.noted step) hx hsk _, rfl, fun sk' h => ?_⟩
      cases h
      show sk.closes + 1 = 1
      rw [hc sk hsk]
    exact wp_call (fun _ => ⟨hclose none, hclosed _⟩) fun e _ => ⟨hclose (some e), hclosed _⟩
  · rename_i hsome
    refine ⟨.refl k s, x, hx, rfl, fun sk h => ?_⟩
    rw [h] at hsome
    exact absurd rfl hsome

end

/-! ### One pair after the other -/

/-- The first `k` pairs have been tried in vain, and none of those after the `m`-th. -/
structure Past (n k m : Nat) (s : Net) : Prop where
  length : s.attempts.length = n
  dropped : ∀ j x, j < k → At j x s → Dropped x
  idle : ∀ j x, m ≤ j → At j x s → x = .idle

/-- The pair that a socket has been set up for. -/
def Chosen (a : DatagramArgs) (pairs : List Pair) (ref : SockRef) (address : Option Address)
    (t : Net) : Prop :=
  ∃ m p x, ref = .attempt m ∧ pairs[m]? = some p ∧ At m x t ∧ Fits a p x ∧ address = a.target p ∧
    Past pairs.length m (m + 1) t

/-- No socket has been set up, and nothing is open. An exception that has not been
kept is the one that is raised, else it is the first one. -/
structure Failing (n : Nat) (e : Exc) (t : Net) : Prop where
  length : t.attempts.length = n
  spent : ∀ j x, At j x t → Spent x
  first : (∀ j x, At j x t → Dropped x) → ∃ x err, At 0 x t ∧ x.exceptions = [err] ∧
    e = .osError err

def Found (a : DatagramArgs) (pairs : List Pair) :
    Except Exc (SockRef × Option Address) → Net → Prop
  | .ok o, t => Chosen a pairs o.1 o.2 t
  | .error e, t => Failing pairs.length e t

theorem Past.amid {n k : Nat} {s t : Net} (h : Past n k k s) (ht : Amid k s t) :
    Past n k (k + 1) t := by
  refine ⟨ht.length.trans h.length, fun j x hj hx => ?_, fun j x hj hx => ?_⟩
  · exact h.dropped j x hj ((ht.others j (Nat.ne_of_lt hj)).symm.trans hx)
  · exact h.idle j x (Nat.le_of_succ_le hj) ((ht.others j (Nat.ne_of_gt hj)).symm.trans hx)

/-- The `k`-th pair ends the loop. -/
theorem Past.failing {n k : Nat} {s : Net} {x : Attempt} {e : Exc} (h : Past n k (k + 1) s)
    (hx : At k x s) (hspent : Spent x) (hnone : x.exceptions = []) : Failing n e s := by
  refine ⟨h.length, fun j y hy => ?_, fun hall => ?_⟩
  · rcases Nat.lt_trichotomy j k with hj | rfl | hj
    · exact (h.dropped j y hj hy).spent
    · cases hx.symm.trans hy
      exact hspent
    · rw [h.idle j y hj hy]
      exact fun sk hsk => by cases hsk
  · obtain ⟨err, herr⟩ := (hall k x hx).noted
    rw [hnone] at herr
    cases herr

theorem wp_openFirst {pairs : List Pair} (hpairs : pairs ≠ [])
    (hcomplete : ∀ p ∈ pairs, a.complete p = true) (rest done : List Pair)
    (hrest : pairs = done ++ rest) {s : Net} (hs : Past pairs.length done.length done.length s) :
    (openFirst a rest done.length).wp quietContract (fun r t => Found a pairs r t ∧
      t.given = s.given ∧ t.transport = s.transport ∧ s.trail <+: t.trail) s := by
  induction rest generalizing done s with
  | nil =>
      rw [List.append_nil] at hrest
      subst hrest
      refine ⟨⟨hs.length, fun j x hx => ?_, fun hall => ?_⟩, rfl, rfl, List.prefix_refl _⟩
      · have hlt := (List.getElem?_eq_some_iff.mp hx).1
        exact (hs.dropped j x (hs.length ▸ hlt) hx).spent
      · have hpos : 0 < s.attempts.length := hs.length ▸ List.length_pos_iff.mpr hpairs
        obtain ⟨x, attempts, hcons⟩ := List.exists_cons_of_length_pos hpos
        have hx : At 0 x s := by rw [At, hcons]; rfl
        obtain ⟨err, herr⟩ := (hall 0 x hx).noted
        refine ⟨x, err, hx, herr, ?_⟩
        rw [Net.exceptions, hcons, List.flatMap_cons, herr]
        rfl
  | cons p rest ih =>
      have hp : pairs[done.length]? = some p := by simp [hrest]
      have hidle : At done.length .idle s := by
        have hlt : done.length < s.attempts.length := by
          rw [hs.length, hrest, List.length_append, List.length_cons]
          omega
        have hx : At done.length s.attempts[done.length] s := List.getElem?_eq_getElem hlt
        rw [hs.idle _ _ (Nat.le_refl _) hx] at hx
        exact hx
      unfold openFirst
      rw [wp_andThen]
      refine wp_mono _ ?_ (wp_openDatagram (hcomplete p (List.mem_of_getElem? hp)) hidle)
      rintro r t ⟨hamid, x, hx, hnone, hc, hok⟩
      have hpast := hs.amid hamid
      -- After an exception the socket is closed.
      have hclose : ∀ {f : Unit → Coro (SockRef × Option Address)},
          (∀ u x', Amid done.length t u → Past pairs.length done.length (done.length + 1) u →
            At done.length x' u → x'.exceptions = [] → Spent x' →
            (f ()).wp quietContract (fun r v => Found a pairs r v ∧
              v.given = s.given ∧ v.transport = s.transport ∧ s.trail <+: v.trail) u) →
          (closeMade done.length >>= f).wp quietContract (fun r v => Found a pairs r v ∧
            v.given = s.given ∧ v.transport = s.transport ∧ s.trail <+: v.trail) t := by
        intro f hf
        rw [wp_bind]
        refine wp_mono _ ?_ (wp_closeMade hx hc)
        rintro r u ⟨htu, x', hx', hexc, hspent⟩
        have hu := hs.amid (hamid.trans htu)
        rcases r with e | _
        · exact ⟨hu.failing hx' hspent (hexc.trans hnone), htu.given.trans hamid.given,
            htu.transport.trans hamid.transport, hamid.trail.trans htu.trail⟩
        · exact hf u x' htu hu hx' (hexc.trans hnone) hspent
      rcases r with e | address
      · have hraise : ∀ e, (closeMade done.length >>= fun _ => raise e :
            Coro (SockRef × Option Address)).wp quietContract (fun r v => Found a pairs r v ∧
              v.given = s.given ∧ v.transport = s.transport ∧ s.trail <+: v.trail) t := fun e =>
          hclose fun u x' htu hu hx' hexc hspent => ⟨hu.failing hx' hspent hexc,
            htu.given.trans hamid.given, htu.transport.trans hamid.transport,
            hamid.trail.trans htu.trail⟩
        cases e with
        | osError err =>
            refine hclose fun u x' htu hu hx' hexc hspent => ?_
            have hnext : Past pairs.length (done ++ [p]).length (done ++ [p]).length
                (u.modifyAttempt done.length fun y =>
                  { y with exceptions := y.exceptions ++ [err] }) := by
              have hmod := amid_modifyAttempt done.length u fun y =>
                { y with exceptions := y.exceptions ++ [err] }
              rw [List.length_append, List.length_singleton]
              refine ⟨hmod.length.trans hu.length, fun j y hj hy => ?_, fun j y hj hy => ?_⟩
              · rcases Nat.lt_succ_iff_lt_or_eq.mp hj with hj | rfl
                · exact hu.dropped j y hj ((hmod.others j (Nat.ne_of_lt hj)).symm.trans hy)
                · cases (hx'.modify _).symm.trans hy
                  exact ⟨hspent, err, by rw [hexc]; rfl⟩
              · exact hu.idle j y hj ((hmod.others j (Nat.ne_of_gt hj)).symm.trans hy)
            have hgo := ih (done ++ [p]) (by simp [hrest]) hnext
            rw [List.length_append, List.length_singleton] at hgo
            refine wp_mono _ ?_ hgo
            rintro r v ⟨hv, hgiven, htransport, htrail⟩
            exact ⟨hv, hgiven.trans (htu.given.trans hamid.given),
              htransport.trans (htu.transport.trans hamid.transport),
              (hamid.trail.trans htu.trail).trans htrail⟩
        | exceptionGroup _ _ | valueError _ | typeError _ | indexError _ | cancelled | exits _
        | other _ =>
            exact hraise _
      · obtain ⟨hfits, htarget⟩ := hok address rfl
        exact ⟨⟨done.length, p, x, rfl, hp, hx, hfits, htarget, hpast⟩, hamid.given,
          hamid.transport, hamid.trail⟩

/-! ### All of it -/

/-- The last thing that has happened is that a call raised that makes the transport. -/
def MakeRaised (sock : SockRef) (address : Option Address) (e : Exc) (t : Net) : Prop :=
  t.trail.getLast? = some (.call .protocolFactory (some e)) ∨
    t.trail.getLast? = some (.call (.makeDatagramTransport sock address) (some e))

structure Endowed (sock : SockRef) (address : Option Address) (s : Net) (r : Except Exc Unit)
    (t : Net) : Prop where
  attempts : t.attempts = s.attempts
  given : t.given = s.given
  trail : s.trail <+: t.trail
  returned : r = .ok () → t.transport = some ⟨sock, false⟩
  raised : ∀ e, r = .error e → t.transport = some ⟨sock, true⟩ ∨
    t.transport = none ∧ MakeRaised sock address e t

theorem wp_createDatagramTransport {sock : SockRef} {address : Option Address} {s : Net}
    (hnone : s.transport = none) : (createDatagramTransport sock address).wp quietContract
      (Endowed sock address s) s := by
  have hfail : ∀ {e : Exc} {t : Net}, t.attempts = s.attempts → t.given = s.given →
      s.trail <+: t.trail → t.transport = none → MakeRaised sock address e t →
      Endowed sock address s (.error e) t := by
    intro e t hattempts hgiven htrail htransport hraised
    refine ⟨hattempts, hgiven, htrail, fun h => ?_, fun e' he => .inr ⟨htransport, ?_⟩⟩
    · cases h
    · cases he
      exact hraised
  unfold createDatagramTransport
  rw [wp_bind]
  have htwo : ∀ x y : Step, s.trail <+: (s.trail ++ [x]) ++ [y] := fun x y =>
    (List.prefix_append _ _).trans (List.prefix_append _ _)
  refine wp_call (fun _ => ?_) fun e _ =>
    hfail rfl rfl (List.prefix_append _ _) hnone (.inl List.getLast?_concat)
  rw [wp_bind]
  refine wp_call (fun _ => ?_) fun e _ =>
    hfail rfl rfl (htwo _ _) hnone (.inr List.getLast?_concat)
  rw [wp_tryCatch, wp_discard]
  refine wp_await trivial fun u r _ hu _ => ?_
  obtain rfl : u = _ := hu
  have hthree : ∀ x y z : Step, s.trail <+: ((s.trail ++ [x]) ++ [y]) ++ [z] := fun x y z =>
    (htwo x y).trans (List.prefix_append _ _)
  rcases r with e | v
  · refine ⟨rfl, rfl, hthree _ _ _, fun h => ?_, fun _ _ => .inl rfl⟩
    cases h
  · refine ⟨rfl, rfl, hthree _ _ _, fun _ => rfl, fun e h => ?_⟩
    cases h

/-- The socket of the endpoint, and the address it sends to by default. -/
def Selected (lib : Lib) (a : DatagramArgs) (sock : SockRef) (address : Option Address)
    (t : Net) : Prop :=
  sock = .given ∧ address = none ∧ t.attempts = [] ∨
    ∃ pairs, Offered lib a pairs t.trail ∧ Chosen a pairs sock address t

/-- What `create_datagram_endpoint` leaves behind: nothing has been tried, nothing
has worked, or there is a socket, which the transport has got. -/
inductive Left (lib : Lib) (a : DatagramArgs) (r : Except Exc Unit) (t : Net) : Prop
  | refused {e : Exc} (hr : r = .error e) (ht : t.transport = none) (h : t.attempts = [])
  | failed {e : Exc} {pairs : List Pair} (hr : r = .error e) (ht : t.transport = none)
      (hp : Offered lib a pairs t.trail) (h : Failing pairs.length e t)
  | opened {sock : SockRef} {address : Option Address} (hr : r = .ok ())
      (ht : t.transport = some ⟨sock, false⟩) (h : Selected lib a sock address t)
  | closed {e : Exc} {sock : SockRef} {address : Option Address} (hr : r = .error e)
      (ht : t.transport = some ⟨sock, true⟩) (h : Selected lib a sock address t)
  | lost {e : Exc} {sock : SockRef} {address : Option Address} (hr : r = .error e)
      (ht : t.transport = none) (h : Selected lib a sock address t)
      (hraised : MakeRaised sock address e t)

theorem Chosen.congr {pairs : List Pair} {sock : SockRef} {address : Option Address} {s t : Net}
    (h : Chosen a pairs sock address s) (ht : t.attempts = s.attempts) :
    Chosen a pairs sock address t := by
  have hat : ∀ {j x}, At j x t ↔ At j x s := by
    intro j x
    rw [At, At, ht]
  obtain ⟨m, p, x, hsock, hp, hx, hfits, haddress, hpast⟩ := h
  exact ⟨m, p, x, hsock, hp, hat.mpr hx, hfits, haddress, by rw [ht]; exact hpast.length,
    fun j y hj hy => hpast.dropped j y hj (hat.mp hy),
    fun j y hj hy => hpast.idle j y hj (hat.mp hy)⟩

theorem wp_transportOf {sock : SockRef} {address : Option Address} {s : Net}
    (hs : Selected lib a sock address s) (hnone : s.transport = none) :
    (createDatagramTransport sock address).wp quietContract
      (fun r t => Left lib a r t ∧ t.given = s.given) s := by
  refine wp_mono _ ?_ (wp_createDatagramTransport hnone)
  rintro r t ht
  have hsel : Selected lib a sock address t := by
    refine hs.imp (fun h => ⟨h.1, h.2.1, ht.attempts.trans h.2.2⟩) fun ⟨pairs, hp, h⟩ => ?_
    exact ⟨pairs, hp.mono ht.trail, h.congr ht.attempts⟩
  refine ⟨?_, ht.given⟩
  cases r with
  | ok _ => exact .opened rfl (ht.returned rfl) hsel
  | error e =>
      rcases ht.raised e rfl with h | ⟨h, hraised⟩
      · exact .closed rfl h hsel
      · exact .lost rfl h hsel hraised

theorem wp_createDatagramEndpoint {given : Option Sock} :
    (createDatagramEndpoint lib a).wp quietContract (fun r t => Left lib a r t ∧
      t.given.map (·.closes) = given.map (·.closes)) (.start given) := by
  have hpairs : ∀ {s : Net}, Still (.start given) s → ∀ {pairs}, Offered lib a pairs s.trail →
      (do
        modify fun s => { s with attempts := pairs.map fun _ => .idle }
        openFirst a pairs 0 : Coro (SockRef × Option Address)).wp quietContract
        (fun r t => Found a pairs r t ∧ t.given = given ∧ t.transport = none ∧
          s.trail <+: t.trail) s := by
    intro s hs pairs hp
    rw [wp_bind, wp_modify]
    refine wp_mono _ ?_ (wp_openFirst hp.1 hp.2.1 pairs [] rfl ⟨List.length_map _,
      fun j x hj => ?_, fun j x _ hx => ?_⟩)
    · rintro r t ⟨h, hgiven, htransport, htrail⟩
      exact ⟨h, hgiven.trans hs.given, htransport.trans hs.transport, htrail⟩
    · cases hj
    · rw [At, List.getElem?_map, Option.map_eq_some_iff] at hx
      obtain ⟨_, -, rfl⟩ := hx
      rfl
  have hrefused : ∀ {e : Exc} {t : Net}, Still (.start given) t →
      Left lib a (.error e) t ∧ t.given.map (·.closes) = given.map (·.closes) := fun h =>
    ⟨.refused rfl h.transport h.attempts, by rw [h.given]; rfl⟩
  unfold createDatagramEndpoint
  rw [wp_bind]
  unfold datagramSocket
  split
  · -- The socket that was passed.
    split
    · exact hrefused (.refl _)
    · split
      · exact hrefused (.refl _)
      · rw [wp_bind]
        refine wp_call (fun _ => ?_) fun e _ => hrefused ⟨rfl, rfl, rfl⟩
        show wp _ (createDatagramTransport .given none) _ _
        have hsel : Selected lib a .given none ((Net.noted (.start given)
            (.call (.setblocking .given) none)).effect (.setblocking .given) none) :=
          .inl ⟨rfl, rfl, rfl⟩
        refine wp_mono _ ?_ (wp_transportOf hsel rfl)
        rintro r t ⟨ht, hgiven⟩
        refine ⟨ht, ?_⟩
        rw [hgiven]
        cases given with
        | none => rfl
        | some sk => rfl
  · rw [wp_bind]
    refine wp_mono _ ?_ (wp_addrPairs rfl)
    rintro r t ⟨ht, hoffered⟩
    rcases r with e | pairs
    · exact hrefused ht
    · have hp := hoffered pairs rfl
      refine wp_mono _ ?_ (hpairs ht hp)
      rintro r u ⟨hu, hgiven, htransport, htrail⟩
      have hpu := hp.mono htrail
      rcases r with e | ⟨sock, address⟩
      · exact ⟨.failed rfl htransport hpu hu, by rw [hgiven]⟩
      · refine wp_mono _ ?_ (wp_transportOf (.inr ⟨pairs, hpu, hu⟩) htransport)
        rintro r v ⟨hv, hgiven'⟩
        exact ⟨hv, by rw [hgiven', hgiven]⟩

/-- **What `create_datagram_endpoint` leaves behind.** -/
theorem create_datagram_endpoint_sockets {given : Option Sock} {r : Except Exc Unit} {t : Net}
    (h : (createDatagramEndpoint lib a).Ends (fun _ _ _ => True) (fun _ s _ t => t = s)
      (.start given) r t) :
    Left lib a r t ∧ t.given.map (·.closes) = given.map (·.closes) :=
  h.sound (fun _ _ _ _ => trivial) (fun _ _ _ _ ha _ => ⟨trivial, ha, trivial⟩)
    wp_createDatagramEndpoint

/-- Two families on one side and three addresses on the other; the connection
to the first pair is refused. -/
def twoSides : Oracle Net Await Value Exc Call (Option Exc) where
  ret
    | .getaddrinfo (some "localhost") .. , _ =>
        .ok (.infos [⟨afInet6, sockDgram, 17, "", "('::1', 9, 0, 0)"⟩,
          ⟨afInet, sockDgram, 17, "", "('127.0.0.1', 9)"⟩])
    | .getaddrinfo .. , _ =>
        .ok (.infos [⟨afInet, sockDgram, 17, "", "('10.0.0.1', 53)"⟩,
          ⟨afInet, sockDgram, 17, "", "('10.0.0.2', 53)"⟩,
          ⟨afInet6, sockDgram, 17, "", "('fd00::1', 53, 0, 0)"⟩])
    | .connect (.attempt 0) _, _ => .error (.osError ⟨false, some 101, "Network is unreachable"⟩)
    | _, _ => .ok .unit
  answer _ _ := none

/-- The second pair has the last address of its family. -/
theorem create_datagram_endpoint_sockets_example : ∃ (r : Except Exc Unit) (t : Net),
    (t.attempts.map fun x => x.sock.map fun sk => (sk.closes, sk.bound, sk.peer)) =
      [some (1, some "('::1', 9, 0, 0)", none),
        some (0, some "('127.0.0.1', 9)", some "('10.0.0.2', 53)")] ∧
    Left plainLib plainDatagramArgs r t := by
  obtain ⟨r, t, hends, hgood⟩ : ∃ r t, (createDatagramEndpoint plainLib plainDatagramArgs).Ends
      (fun _ _ _ => True) (fun _ s _ t => t = s) (.start none) r t ∧
      decide ((t.attempts.map fun x => x.sock.map fun sk => (sk.closes, sk.bound, sk.peer)) =
        [some (1, some "('::1', 9, 0, 0)", none),
          some (0, some "('127.0.0.1', 9)", some "('10.0.0.2', 53)")]) = true :=
    Ends.of_oracle twoSides (fun _ => true) (fun _ _ => trivial) (fun _ _ _ => rfl)
      (by decide +kernel) _ (by decide +kernel)
  exact ⟨r, t, of_decide_eq_true hgood, (create_datagram_endpoint_sockets hends).1⟩

end Tokioop.Endpoint
