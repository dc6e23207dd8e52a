import Tokioop.Endpoint.Serve
import Tokioop.Kit.Dict

/-!
`create_datagram_endpoint`.

A local and a remote address go together if they are of one family and
protocol. The pairs are tried in turn, one socket for each, and the first
exception is raised if none of them works.
-/

namespace Tokioop.Endpoint

open Kit Kit.Prog

variable (lib : Lib)

inductive DgKind
  | pair (host port : Option String)
  | path
  | other

/-- The argument `local_addr` or `remote_addr`; `str` is what it is formatted as. -/
structure DgAddr where
  kind : DgKind
  truthy : Bool
  str : String

def DgAddr.isPath (d : DgAddr) : Bool :=
  match d.kind with
  | .path => true
  | .pair _ _ | .other => false

structure DatagramArgs where
  localAddr : Option DgAddr
  remoteAddr : Option DgAddr
  family : Nat
  proto : Nat
  flags : Nat
  reusePort : Bool
  allowBroadcast : Bool
  sock : Option GivenSock

def DatagramArgs.hasLocal (a : DatagramArgs) : Bool := a.localAddr.any (·.truthy)

def DatagramArgs.hasRemote (a : DatagramArgs) : Bool := a.remoteAddr.any (·.truthy)

/-- The addresses for a family and a protocol. -/
structure Pair where
  family : Nat
  proto : Nat
  localAddress : Option Address
  remoteAddress : Option Address
  deriving DecidableEq

/-! ### Joining addresses -/

def AddrInfo.key (i : AddrInfo) : Nat × Nat := (i.family, i.proto)

abbrev AddrInfos := List ((Nat × Nat) × Option Address × Option Address)

/-- `addr_infos[key][0] = address`. -/
def joinLocal (infos : List AddrInfo) : AddrInfos → AddrInfos :=
  Dict.collect AddrInfo.key (fun i v => (some i.address, (v.getD (none, none)).2)) infos

/-- `addr_infos[key][1] = address`. -/
def joinRemote (infos : List AddrInfo) : AddrInfos → AddrInfos :=
  Dict.collect AddrInfo.key (fun i v => ((v.getD (none, none)).1, some i.address)) infos

/-- The pair has an address for each side that there is to be one for. -/
def DatagramArgs.complete (a : DatagramArgs) (p : Pair) : Bool :=
  !(a.hasLocal && p.localAddress.isNone || a.hasRemote && p.remoteAddress.isNone)

def DatagramArgs.pairs (a : DatagramArgs) (addrInfos : AddrInfos) : List Pair :=
  (addrInfos.map fun x => ⟨x.1.1, x.1.2, x.2.1, x.2.2⟩).filter a.complete

/-- The addresses of one side, where there is to be one. -/
def resolveSide (a : DatagramArgs) : Option DgAddr → Coro (List AddrInfo)
  | none => pure []
  | some d =>
      match d.kind with
      | .pair host port => resolved lib (host, port) a.family sockDgram a.proto a.flags
      | .path | .other => raise (.typeError "2-tuple is expected")

def joinedPairs (a : DatagramArgs) : Coro (List Pair) := do
  let localInfos ← resolveSide lib a a.localAddr
  let remoteInfos ← resolveSide lib a a.remoteAddr
  let pairs := a.pairs (joinRemote remoteInfos (joinLocal localInfos []))
  if pairs = [] then raise (.valueError "can not get address information") else pure pairs

/-- What a socket of an earlier process has left behind is removed, if it can be. -/
def removeStale (d : DgAddr) : Coro Unit :=
  if d.truthy && d.str.toList.head? != some '\x00' then
    tryCatch (call (.removeStale d.str)) fun e => if e.isOSError then pure () else raise e
  else pure ()

def removeStaleAny : Option DgAddr → Coro Unit
  | none => pure ()
  | some d => removeStale d

def unixPairs (a : DatagramArgs) : Coro (List Pair) :=
  if [a.localAddr, a.remoteAddr].any (fun o => o.any fun d => !d.isPath) then
    raise (.typeError "string is expected")
  else do
    removeStaleAny a.localAddr
    pure [⟨a.family, a.proto, a.localAddr.map (·.str), a.remoteAddr.map (·.str)⟩]

def addrPairs (a : DatagramArgs) : Coro (List Pair) :=
  if !(a.hasLocal || a.hasRemote) then
    if a.family = 0 then raise (.valueError "unexpected address family")
    else pure [⟨a.family, a.proto, none, none⟩]
  else if a.family = afUnix then unixPairs a
  else joinedPairs lib a

/-! ### Opening a socket -/

def DatagramArgs.options (a : DatagramArgs) : List SockOption :=
  (if a.reusePort then [.reusePort] else []) ++ if a.allowBroadcast then [.broadcast] else []

/-- An address that is not there is `None`. -/
def Address.orNone (address : Option Address) : Address := address.getD "None"

def bindDatagram (a : DatagramArgs) (k : Nat) (p : Pair) : Coro Unit :=
  if a.hasLocal then call (.bind (.attempt k) (Address.orNone p.localAddress)) else pure ()

/-- Connect the socket, unless it is to broadcast; the result is where it sends to. -/
def connectDatagram (a : DatagramArgs) (k : Nat) (p : Pair) : Coro (Option Address) :=
  if a.hasRemote then
    if a.allowBroadcast then pure p.remoteAddress
    else do
      discard (await (.connect (.attempt k) (Address.orNone p.remoteAddress)))
      pure p.remoteAddress
  else pure none

def openDatagram (a : DatagramArgs) (k : Nat) (p : Pair) : Coro (Option Address) := do
  call (.socket k p.family sockDgram p.proto)
  setOptions (.attempt k) a.options
  call (.setblocking (.attempt k))
  bindDatagram a k p
  connectDatagram a k p

/-- The socket is closed if it has been made. -/
def closeMade (k : Nat) : Coro Unit := do
  if ((← get).sock? (.attempt k)).isSome then call (.close (.attempt k)) else pure ()

def raiseFirst : List OSError → Exc
  | [] => .indexError "list index out of range"
  | e :: _ => .osError e

def openFirst (a : DatagramArgs) : List Pair → Nat → Coro (SockRef × Option Address)
  | [], _ => do raise (raiseFirst (← get).exceptions)
  | p :: rest, k =>
      (openDatagram a k p).andThen fun
        | .ok address => pure (.attempt k, address)
        | .error (.osError e) => do
            closeMade k
            append k e
            openFirst a rest (k + 1)
        | .error e => do
            closeMade k
            raise e

/-! ### The endpoint -/

/-- The arguments that change a socket, as the error message lists them. -/
def DatagramArgs.problems (a : DatagramArgs) : List String :=
  let addr (k : String) (o : Option DgAddr) : List String :=
    (o.toList.filter (·.truthy)).map fun d => k ++ "=" ++ d.str
  let number (k : String) (n : Nat) : List String :=
    if n = 0 then [] else [k ++ "=" ++ toString n]
  let flag (k : String) (b : Bool) : List String := if b then [k ++ "=True"] else []
  addr "local_addr" a.localAddr ++ addr "remote_addr" a.remoteAddr ++ number "family" a.family ++
    number "proto" a.proto ++ number "flags" a.flags ++ flag "reuse_port" a.reusePort ++
    flag "allow_broadcast" a.allowBroadcast

def modifiersMessage (problems : List String) : String :=
  "socket modifier keyword arguments can not be used when sock is specified. (" ++
    ", ".intercalate problems ++ ")"

/-- A datagram socket, and the address it sends to by default. -/
def datagramSocket (a : DatagramArgs) : Coro (SockRef × Option Address) :=
  match a.sock with
  | some g =>
      if g.type = sockStream then
        raise (.valueError ("A datagram socket was expected, got " ++ g.repr))
      else if a.problems ≠ [] then raise (.valueError (modifiersMessage a.problems))
      else do
        call (.setblocking .given)
        pure (.given, none)
  | none => do
      let pairs ← addrPairs lib a
      modify fun s => { s with attempts := pairs.map fun _ => .idle }
      openFirst a pairs 0

def createDatagramTransport (sock : SockRef) (address : Option Address) : Coro Unit := do
  call .protocolFactory
  call (.makeDatagramTransport sock address)
  tryCatch (discard (await .waiter)) fun e => do
    modify fun s => { s with transport := s.transport.map fun x => { x with closed := true } }
    raise e

def createDatagramEndpoint (a : DatagramArgs) : Coro Unit := do
  let opened ← datagramSocket lib a
  createDatagramTransport opened.1 opened.2

end Tokioop.Endpoint
