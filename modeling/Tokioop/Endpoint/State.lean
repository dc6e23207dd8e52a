import Tokioop.Kit.Prog

/-!
What the coroutines that set up connections and servers work with.

Such a coroutine goes through the addresses that a name resolves to and makes
at most one socket for each of them; the caller may have passed one besides.
An address is known by its `repr`. What the kernel, the protocol factory and
the constructors of transports do is not ours: a `Call` returns or raises, an
`Await` ends with a result or an exception, which may be a cancellation. The
`trail` records all of them with their outcomes, so that nothing is assumed
about two calls that are alike.
-/

namespace Tokioop.Endpoint

open Kit Kit.Prog

abbrev Address := String

structure OSError where
  -- It is a `TimeoutError`.
  timeout : Bool
  errno : Option Int
  text : String
  deriving DecidableEq, Repr

def OSError.str (e : OSError) : String :=
  match e.errno with
  | some n => "[Errno " ++ toString n ++ "] " ++ e.text
  | none => e.text

inductive Exc
  | osError (e : OSError)
  | exceptionGroup (message : String) (exceptions : List OSError)
  | valueError (message : String)
  | typeError (message : String)
  | indexError (message : String)
  | cancelled
  -- `SystemExit` and `KeyboardInterrupt`.
  | exits (n : Nat)
  | other (n : Nat)
  deriving DecidableEq, Repr

def Exc.isOSError : Exc → Bool
  | .osError _ => true
  | _ => false

structure AddrInfo where
  family : Nat
  type : Nat
  proto : Nat
  canonname : String
  address : Address
  deriving DecidableEq, Repr

def afInet : Nat := 2
def afInet6 : Nat := 10
def afUnix : Nat := 1
def sockStream : Nat := 1
def sockDgram : Nat := 2

/-- The functions of the standard library that are used. -/
structure Lib where
  lower : String → String
  reprFamily : Nat → String
  -- `base_events._ipaddr_info` and `base_events._interleave_addrinfos`.
  ipaddrInfo : Option String → Option String → Nat → Nat → Nat → Option AddrInfo
  interleaveAddrinfos : List AddrInfo → Nat → List AddrInfo
  -- The order in which a set made of the list is gone through.
  setOrder : List AddrInfo → List AddrInfo

/-- Names are looked up, and addresses taken in the order in which they come. -/
def plainLib : Lib :=
  ⟨String.toLower, toString, fun _ _ _ _ _ => none, fun infos _ => infos, List.eraseDups⟩

/-- The socket that the caller passed, or the one made for the `k`-th address. -/
inductive SockRef
  | given
  | attempt (k : Nat)
  deriving DecidableEq, Repr

/-- `reusePort` is set by `base_events._set_reuseport`. -/
inductive SockOption
  | reuseAddr
  | reusePort
  | keepAlive
  | v6Only
  | broadcast
  deriving DecidableEq, Repr

inductive Call
  | socket (k family type proto : Nat)
  | setblocking (sock : SockRef)
  | setsockopt (sock : SockRef) (option : SockOption)
  | bind (sock : SockRef) (address : Address)
  | close (sock : SockRef)
  | protocolFactory
  | makeTransport (sock : SockRef) (ssl : Bool)
  | makeDatagramTransport (sock : SockRef) (address : Option Address)
  | startServing
  -- Remove what is left of a UNIX socket at the path.
  | removeStale (path : String)
  | exceptionHandler (message : String) (exception : Exc)
  deriving DecidableEq, Repr

inductive Await
  | getaddrinfo (host port : Option String) (family type proto flags : Nat)
  -- `gather` of one `_create_server_getaddrinfo` for each host.
  | gather (hosts : List (Option String)) (port : Option String) (family flags : Nat)
  | connect (sock : SockRef) (address : Address)
  -- `staggered_race` of one `_connect_sock` for each address.
  | race (infos : List AddrInfo) (localAddrInfos : Option (List AddrInfo))
  -- The first step of a task.
  | start
  | waiter
  | sleep
  deriving DecidableEq, Repr

/-- What an await returns. -/
inductive Value
  | unit
  | infos (infos : List AddrInfo)
  | winner (k : Option Nat)
  deriving DecidableEq, Repr

structure Sock where
  blocking : Bool
  options : List SockOption
  bound : Option Address
  peer : Option Address
  closes : Nat
  deriving DecidableEq, Repr

def Sock.new : Sock := ⟨true, [], none, none, 0⟩

/-- What there is for one address: `my_exceptions` and `sock`. -/
structure Attempt where
  tried : Bool
  exceptions : List OSError
  sock : Option Sock
  deriving DecidableEq, Repr

def Attempt.idle : Attempt := ⟨false, [], none⟩

/-- A transport that has been constructed, and whether it has been closed. -/
structure Held where
  sock : SockRef
  closed : Bool
  deriving DecidableEq, Repr

inductive Step
  | call (c : Call) (raised : Option Exc)
  | await (a : Await) (r : Except Exc Value)

structure Net where
  attempts : List Attempt
  given : Option Sock
  transport : Option Held
  -- The list `sockets` of `create_server`, and what its server has got.
  sockets : List SockRef
  server : Option (List SockRef)
  trail : List Step

def Net.start (given : Option Sock) : Net := ⟨[], given, none, [], none, []⟩

/-- A coroutine; a call answers with what it raised. -/
abbrev Coro := Prog Net Await Value Exc Call (Option Exc)

namespace Net

def modifyAttempt (s : Net) (k : Nat) (f : Attempt → Attempt) : Net :=
  { s with attempts := s.attempts.modify k f }

def modifySock (s : Net) (f : Sock → Sock) : SockRef → Net
  | .given => { s with given := s.given.map f }
  | .attempt k => s.modifyAttempt k fun x => { x with sock := x.sock.map f }

/-- The effect of a call; a socket whose `close` raises is closed nevertheless. -/
def effect (s : Net) : Call → Option Exc → Net
  | .socket k _ _ _, none => s.modifyAttempt k fun x => { x with sock := some .new }
  | .setblocking sock, none => s.modifySock (fun x => { x with blocking := false }) sock
  | .setsockopt sock o, none => s.modifySock (fun x => { x with options := x.options ++ [o] }) sock
  | .bind sock address, none => s.modifySock (fun x => { x with bound := some address }) sock
  | .close sock, _ => s.modifySock (fun x => { x with closes := x.closes + 1 }) sock
  | .makeTransport sock _, none | .makeDatagramTransport sock _, none =>
      { s with transport := some ⟨sock, false⟩ }
  | _, _ => s

/-- The effect of an await that has ended. -/
def settled (s : Net) : Await → Except Exc Value → Net
  | .connect sock address, .ok _ => s.modifySock (fun x => { x with peer := some address }) sock
  | _, _ => s

def noted (s : Net) (step : Step) : Net := { s with trail := s.trail ++ [step] }

def sock? (s : Net) : SockRef → Option Sock
  | .given => s.given
  | .attempt k => s.attempts[k]?.bind (·.sock)

/-- `exceptions`, with the sublists in place. -/
def exceptions (s : Net) : List OSError := s.attempts.flatMap (·.exceptions)

end Net

def call (c : Call) : Coro Unit := do
  let raised ← query c
  modify fun s => (s.noted (.call c raised)).effect c raised
  match raised with
  | none => pure ()
  | some e => raise e

def await (a : Await) : Coro Value :=
  (callback a).andThen fun r => do
    modify fun s => (s.noted (.await a r)).settled a r
    match r with
    | .ok v => pure v
    | .error e => raise e

end Tokioop.Endpoint
