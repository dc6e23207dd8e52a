import Tokioop.Kit.Calls
import Tokioop.Kit.Contract
import Tokioop.Fd.DrainStall
import Tokioop.Fd.LevelTriggered
import Tokioop.Fd.Registry
import Tokioop.Fd.Represents
import Tokioop.Fd.Removed
import Tokioop.Loop.Wakeup
import Tokioop.Loop.Complete
import Tokioop.Loop.Park
import Tokioop.Loop.Snapshot
import Tokioop.Loop.Ready
import Tokioop.Loop.Timers
import Tokioop.Loop.Context
import Tokioop.Transport.State
import Tokioop.Transport.Stream
import Tokioop.Transport.Write
import Tokioop.Transport.Teardown
import Tokioop.Transport.Reading
import Tokioop.Transport.Replay
import Tokioop.Transport.Eof
import Tokioop.Transport.Mode
import Tokioop.Transport.Aside
import Tokioop.Transport.Rules
import Tokioop.Transport.Writing
import Tokioop.Transport.Once
import Tokioop.Transport.Outlive
import Tokioop.Transport.Grammar
import Tokioop.Transport.Sendfile
import Tokioop.Transport.Fallback
import Tokioop.Datagram.State
import Tokioop.Datagram.Transport
import Tokioop.Datagram.Rules
import Tokioop.Datagram.Reading
import Tokioop.Datagram.Grammar
import Tokioop.Datagram.Once
import Tokioop.Datagram.Outlive
import Tokioop.Fd.SockOps
import Tokioop.Loop.Closed
import Tokioop.Kit.Exec
import Tokioop.Transport.Torn
import Tokioop.Transport.Watched
import Tokioop.Transport.Progress
import Tokioop.Transport.WriteSend
import Tokioop.Transport.Gap
import Tokioop.Kit.Trace
import Tokioop.Datagram.Order
import Tokioop.Loop.Signals
import Tokioop.Locks.State
import Tokioop.Locks.Reentry
import Tokioop.Kit.Noted
import Tokioop.Loop.TimerOrder
import Tokioop.Datagram.Frame
import Tokioop.Datagram.Account
import Tokioop.Datagram.Ledger
import Tokioop.Server.Accept
import Tokioop.Kit.Bytes
import Tokioop.Kit.IpText
import Tokioop.Kit.Utf8
import Tokioop.Fd.Address
import Tokioop.Loop.Report
import Tokioop.Fd.SendAll
import Tokioop.Fd.SockSendfile
import Tokioop.Transport.Views
import Tokioop.Transport.EmptyWaiter
import Tokioop.Transport.Awaiting
import Tokioop.Transport.Restored
import Tokioop.Fd.Rendezvous
import Tokioop.Kit.Guarantee
import Tokioop.Kit.Coupled
import Tokioop.Kit.Compose
import Tokioop.Transport.Apart
import Tokioop.Transport.Onward
import Tokioop.Transport.Heard
import Tokioop.Transport.Connection
import Tokioop.Transport.Flow
import Tokioop.Kit.Tasks
import Tokioop.Kit.Dict
import Tokioop.Endpoint.State
import Tokioop.Endpoint.Connect
import Tokioop.Endpoint.Attempt
import Tokioop.Endpoint.Trace
import Tokioop.Endpoint.Race
import Tokioop.Endpoint.Turns
import Tokioop.Endpoint.Connection
import Tokioop.Endpoint.Serve
import Tokioop.Endpoint.Serving
import Tokioop.Endpoint.Datagram
import Tokioop.Endpoint.Opening
import Tokioop.Endpoint.Accept
import Tokioop.Executor.State
import Tokioop.Executor.Shutdown
import Tokioop.Kit.Potential
import Tokioop.Loop.Waiting
import Tokioop.Loop.Turn
import Tokioop.Loop.Due
