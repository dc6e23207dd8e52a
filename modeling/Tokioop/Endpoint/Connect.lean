import Tokioop.Endpoint.State

/-!
`create_connection`, `create_unix_connection` and `connect_accepted_socket`.
-/

namespace Tokioop.Endpoint

open Kit Kit.Prog

variable (lib : Lib)

/-! ### One address -/

def bindError (address : Address) (e : OSError) : OSError :=
  let message := "error while attempting to bind on address " ++ address ++ ": " ++ lib.lower e.str
  match e.errno with
  | some n => ⟨e.timeout, some n, message⟩
  -- `OSError(None, msg)` prints its `None`.
  | none => ⟨false, none, "[Errno None] " ++ message⟩

def append (k : Nat) (e : OSError) : Coro Unit :=
  modify fun s => s.modifyAttempt k fun x => { x with exceptions := x.exceptions ++ [e] }

/-- The `else` clause of the loop over the local addresses; `pop` takes the last exception. -/
def allBindsFailed (k family : Nat) : Coro Unit := do
  match ((← get).attempts[k]?.map (·.exceptions)).bind List.getLast? with
  | some e => do
      modify fun s => s.modifyAttempt k fun x => { x with exceptions := x.exceptions.dropLast }
      raise (.osError e)
  | none =>
      let message := "no matching local address with family=" ++ lib.reprFamily family ++ " found"
      raise (.osError ⟨false, none, message⟩)

def bindLocal (k family : Nat) : List AddrInfo → Coro Unit
  | [] => allBindsFailed lib k family
  | l :: ls =>
      if l.family ≠ family then bindLocal k family ls
      else (call (.bind (.attempt k) l.address)).andThen fun
        | .ok _ => pure ()
        | .error (.osError e) => do
            append k (bindError lib l.address e)
            bindLocal k family ls
        | .error e => raise e

/-- Local addresses are optional. -/
def bindAny (k family : Nat) : Option (List AddrInfo) → Coro Unit
  | none => pure ()
  | some infos => bindLocal lib k family infos

/-- The inner `try` of `_connect_sock`. -/
def connectAttempt (k : Nat) (info : AddrInfo) (localAddrInfos : Option (List AddrInfo)) :
    Coro Unit := do
  call (.socket k info.family info.type info.proto)
  call (.setblocking (.attempt k))
  bindAny lib k info.family localAddrInfos
  discard (await (.connect (.attempt k) info.address))

/-- `sock.close()`, whose `OSError` is passed over. -/
def closeQuietly (k : Nat) : Coro Unit := do
  if ((← get).sock? (.attempt k)).isSome then
    tryCatch (call (.close (.attempt k))) fun e => if e.isOSError then pure () else raise e
  else pure ()

def connectSock (k : Nat) (info : AddrInfo) (localAddrInfos : Option (List AddrInfo)) :
    Coro Unit := do
  modify fun s => s.modifyAttempt k fun x => { x with tried := true }
  tryCatch
    (tryCatch (connectAttempt lib k info localAddrInfos) fun
      | .osError e => do
          append k e
          raise (.osError e)
      | e => raise e)
    fun e => do
      closeQuietly k
      raise e

/-! ### All of them -/

def connectFirst (localAddrInfos : Option (List AddrInfo)) :
    List AddrInfo → Nat → Coro (Option Nat)
  | [], _ => pure none
  | info :: rest, k =>
      (connectSock lib k info localAddrInfos).andThen fun
        | .ok _ => pure (some k)
        | .error e => if e.isOSError then connectFirst localAddrInfos rest (k + 1) else raise e

def raceTasks (infos : List AddrInfo) (localAddrInfos : Option (List AddrInfo)) :
    List (Coro Unit) :=
  infos.mapIdx fun k info => do
    discard (await .start)
    connectSock lib k info localAddrInfos

def race (infos : List AddrInfo) (localAddrInfos : Option (List AddrInfo)) :
    Coro (Option Nat) := do
  match ← await (.race infos localAddrInfos) with
  | .winner k => pure k
  | _ => pure none

def connectFailure (allErrors : Bool) (exceptions : List OSError) : Exc :=
  match exceptions with
  | [] =>
      if allErrors then .valueError "second argument (exceptions) must be a non-empty sequence"
      else .osError ⟨true, none, "create_connection failed"⟩
  | e :: rest =>
      if allErrors then .exceptionGroup "create_connection failed" exceptions
      else if rest.all fun e' => e'.str = e.str then .osError e
      else
        .osError
          ⟨false, none, "Multiple exceptions: " ++ ", ".intercalate (exceptions.map (·.str))⟩

def ensureResolved (address : Option String × Option String) (family type proto flags : Nat) :
    Coro (List AddrInfo) :=
  match lib.ipaddrInfo address.1 address.2 family type proto with
  | some info => pure [info]
  | none => do
      match ← await (.getaddrinfo address.1 address.2 family type proto flags) with
      | .infos infos => pure infos
      | _ => pure []

/-- Addresses, and an error if there are none. -/
def resolved (address : Option String × Option String) (family type proto flags : Nat) :
    Coro (List AddrInfo) := do
  let infos ← ensureResolved lib address family type proto flags
  if infos = [] then raise (.osError ⟨false, none, "getaddrinfo() returned empty list"⟩)
  else pure infos

/-! ### Transports -/

def createConnectionTransport (sock : SockRef) (ssl : Bool) : Coro Unit := do
  call (.setblocking sock)
  call .protocolFactory
  call (.makeTransport sock ssl)
  tryCatch (discard (await .waiter)) fun e => do
    modify fun s => { s with transport := s.transport.map fun x => { x with closed := true } }
    raise e

/-- What is known of a socket that the caller passes. -/
structure GivenSock where
  repr : String
  family : Nat
  type : Nat
  isSSL : Bool

structure ConnectionArgs where
  host : Option String
  port : Option String
  ssl : Bool
  family : Nat
  proto : Nat
  flags : Nat
  sock : Option GivenSock
  localAddr : Option (Option String × Option String)
  serverHostname : Option String
  sslHandshakeTimeout : Bool
  sslShutdownTimeout : Bool
  happyEyeballs : Bool
  interleave : Option Nat
  allErrors : Bool

/-- `base_events._check_ssl_socket`. -/
def checkSslSocket : Option GivenSock → Coro Unit
  | some g => if g.isSSL then raise (.typeError "Socket cannot be of type SSLSocket") else pure ()
  | none => pure ()

/-- What is raised before anything has been done. -/
def checkConnectionArgs (a : ConnectionArgs) : Coro Unit := do
  if a.serverHostname.isSome && !a.ssl then
    raise (.valueError "server_hostname is only meaningful with ssl")
  else if a.serverHostname.isNone && a.ssl && (a.host.getD "").isEmpty then
    raise (.valueError "You must set server_hostname when using ssl without a host")
  else if a.sslHandshakeTimeout && !a.ssl then
    raise (.valueError "ssl_handshake_timeout is only meaningful with ssl")
  else if a.sslShutdownTimeout && !a.ssl then
    raise (.valueError "ssl_shutdown_timeout is only meaningful with ssl")
  else checkSslSocket a.sock

/-- The order in which the addresses are tried. -/
def ConnectionArgs.ordered (a : ConnectionArgs) (infos : List AddrInfo) : List AddrInfo :=
  match a.interleave with
  | some 0 => infos
  | some n => lib.interleaveAddrinfos infos n
  | none => if a.happyEyeballs then lib.interleaveAddrinfos infos 1 else infos

/-- One after the other, or all at once with a head start for those before. -/
def anyWinner (a : ConnectionArgs) (infos : List AddrInfo)
    (localAddrInfos : Option (List AddrInfo)) : Coro (Option Nat) :=
  if a.happyEyeballs then race infos localAddrInfos
  else connectFirst lib localAddrInfos infos 0

/-- Connect to one of the addresses. -/
def connectAny (a : ConnectionArgs) (infos : List AddrInfo)
    (localAddrInfos : Option (List AddrInfo)) : Coro SockRef := do
  modify fun s => { s with attempts := infos.map fun _ => .idle }
  match ← anyWinner lib a infos localAddrInfos with
  | some k => pure (.attempt k)
  | none => raise (connectFailure a.allErrors (← get).exceptions)

def localAddresses (a : ConnectionArgs) : Coro (Option (List AddrInfo)) :=
  match a.localAddr with
  | none => pure none
  | some address => do
      let infos ← resolved lib address a.family sockStream a.proto a.flags
      pure (some infos)

/-- A connected socket: the one passed, or one made for `host` and `port`. -/
def connectionSocket (a : ConnectionArgs) : Coro SockRef :=
  if a.host.isSome || a.port.isSome then
    if a.sock.isSome then
      raise (.valueError "host/port and sock can not be specified at the same time")
    else do
      let infos ← resolved lib (a.host, a.port) a.family sockStream a.proto a.flags
      let localAddrInfos ← localAddresses lib a
      connectAny lib a (a.ordered lib infos) localAddrInfos
  else
    match a.sock with
    | none => raise (.valueError "host and port was not specified and no sock specified")
    | some g =>
        if g.type ≠ sockStream then
          raise (.valueError ("A Stream Socket was expected, got " ++ g.repr))
        else pure .given

def createConnection (a : ConnectionArgs) : Coro Unit := do
  checkConnectionArgs a
  let sock ← connectionSocket lib a
  createConnectionTransport sock a.ssl

end Tokioop.Endpoint
