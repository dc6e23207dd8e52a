import Tokioop.Endpoint.Connect

/-!
`create_server`.

One listening socket is made for each address that the hosts resolve to. An
address is passed over if the kernel does not know its family or does not have
it; everything else that goes wrong makes the coroutine close what it has got
so far.
-/

namespace Tokioop.Endpoint

open Kit Kit.Prog

variable (lib : Lib)

def eaddrnotavail : Int := 99

inductive HostArg
  | none
  | one (host : String)
  | many (hosts : List (Option String))

def HostArg.hosts : HostArg → List (Option String)
  | .none => [Option.none]
  | .one host => if host = "" then [Option.none] else [some host]
  | .many hosts => hosts

def HostArg.isSome : HostArg → Bool
  | .none => false
  | .one _ | .many _ => true

inductive SslArg
  | none
  | flag
  | context
  deriving DecidableEq

structure ServerArgs where
  host : HostArg
  port : Option String
  family : Nat
  flags : Nat
  sock : Option GivenSock
  ssl : SslArg
  reuseAddress : Option Bool
  reusePort : Bool
  keepAlive : Bool
  sslHandshakeTimeout : Bool
  sslShutdownTimeout : Bool
  startServing : Bool

/-- What is raised before anything has been done. -/
def checkServerArgs (a : ServerArgs) : Coro Unit := do
  if a.ssl = .flag then raise (.typeError "ssl argument must be an SSLContext or None")
  else if a.sslHandshakeTimeout && a.ssl = .none then
    raise (.valueError "ssl_handshake_timeout is only meaningful with ssl")
  else if a.sslShutdownTimeout && a.ssl = .none then
    raise (.valueError "ssl_shutdown_timeout is only meaningful with ssl")
  else checkSslSocket a.sock

/-! ### Listening sockets -/

/-- The options of a socket, in the order in which they are set. -/
def ServerArgs.options (a : ServerArgs) (family : Nat) : List SockOption :=
  (if a.reuseAddress.getD true then [.reuseAddr] else []) ++
    (if a.reusePort && (family = afInet || family = afInet6) then [.reusePort] else []) ++
    (if a.keepAlive then [.keepAlive] else []) ++ if family = afInet6 then [.v6Only] else []

def setOptions (sock : SockRef) : List SockOption → Coro Unit
  | [] => pure ()
  | o :: rest => do
      call (.setsockopt sock o)
      setOptions sock rest

/-- An address that the machine does not have is passed over. -/
def bindServer (k : Nat) (info : AddrInfo) : Coro Unit :=
  (call (.bind (.attempt k) info.address)).andThen fun
    | .ok _ => pure ()
    | .error (.osError e) =>
        if e.errno = some eaddrnotavail then do
          modify fun s => { s with sockets := s.sockets.dropLast }
          call (.close (.attempt k))
        else raise (.osError (bindError lib info.address e))
    | .error e => raise e

/-- The body of the loop over the addresses. -/
def listenOn (a : ServerArgs) (k : Nat) (info : AddrInfo) : Coro Unit :=
  (call (.socket k info.family info.type info.proto)).andThen fun
    | .ok _ => do
        modify fun s => { s with sockets := s.sockets ++ [.attempt k] }
        setOptions (.attempt k) (a.options info.family)
        bindServer lib k info
    | .error e => if e.isOSError then pure () else raise e

def listenAll (a : ServerArgs) : List AddrInfo → Nat → Coro Unit
  | [], _ => pure ()
  | info :: rest, k => do
      listenOn lib a k info
      listenAll a rest (k + 1)

def closeAll : List SockRef → Coro Unit
  | [] => pure ()
  | sock :: rest => do
      call (.close sock)
      closeAll rest

/-- `"%r" % [info[4] for info in infos]`. -/
def reprAddresses (infos : List AddrInfo) : String :=
  "[" ++ ", ".intercalate (infos.map (·.address)) ++ "]"

def noneBound (infos : List AddrInfo) : Exc :=
  .osError ⟨false, none, "could not bind on any address out of " ++ reprAddresses infos⟩

/-- Nobody listens on nothing. -/
def checkBound (infos : List AddrInfo) : Coro Unit := do
  if (← get).sockets = [] then raise (noneBound infos) else pure ()

def bindAll (a : ServerArgs) (infos : List AddrInfo) : Coro Unit :=
  tryCatch
    (do
      listenAll lib a infos 0
      checkBound infos)
    fun e => do
      closeAll (← get).sockets
      raise e

/-! ### The server -/

def serverInfos (a : ServerArgs) : Coro (List AddrInfo) := do
  match ← await (.gather a.host.hosts a.port a.family a.flags) with
  | .infos infos => pure (lib.setOrder infos)
  | _ => pure []

/-- The sockets to listen on: the one passed, or those made for `host` and `port`. -/
def serverSockets (a : ServerArgs) : Coro Unit :=
  if a.host.isSome || a.port.isSome then
    if a.sock.isSome then
      raise (.valueError "host/port and sock can not be specified at the same time")
    else do
      let infos ← serverInfos lib a
      modify fun s => { s with attempts := infos.map fun _ => .idle }
      bindAll lib a infos
  else
    match a.sock with
    | none => raise (.valueError "Neither host/port nor sock were specified")
    | some g =>
        if g.type ≠ sockStream then
          raise (.valueError ("A Stream Socket was expected, got " ++ g.repr))
        else modify fun s => { s with sockets := [.given] }

def unblockAll : List SockRef → Coro Unit
  | [] => pure ()
  | sock :: rest => do
      call (.setblocking sock)
      unblockAll rest

def startServer (a : ServerArgs) : Coro Unit := do
  modify fun s => { s with server := some s.sockets }
  if a.startServing then do
    call .startServing
    discard (await .sleep)
  else pure ()

def createServer (a : ServerArgs) : Coro Unit := do
  checkServerArgs a
  serverSockets lib a
  unblockAll (← get).sockets
  startServer a

end Tokioop.Endpoint
