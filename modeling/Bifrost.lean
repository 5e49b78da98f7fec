import Bifrost.Lib.Abi
import Bifrost.Lib.Proc
import Bifrost.Lib.Run
import Bifrost.Primitives.Chain
import Bifrost.Primitives.Method
import Bifrost.Eth
import Bifrost.Lib.Collections
import Bifrost.Socket.Message
import Bifrost.Submits.Signature
import Bifrost.Events.Event
import Bifrost.Relayer.State
import Bifrost.Relayer.Fetch
import Bifrost.Submits.Submit
import Bifrost.Events.Rbc
import Bifrost.Events.RoundUp
import Bifrost.Periodic.Vsp
import Bifrost.Events.RbcSpec
import Bifrost.Loop
import Bifrost.Loop.Handling
import Bifrost.Loop.Coherent
import Bifrost.Loop.Exec
import Bifrost.Loop.Relay
import Bifrost.Loop.Settled
import Bifrost.Loop.Outcome
import Bifrost.Events.Primary
import Bifrost.Periodic.VspSpec
import Bifrost.Events.Handler
import Bifrost.Loop.AuthCache
import Bifrost.Loop.Authority
import Bifrost.Votes.Poll
import Bifrost.Votes.RoundControl
import Bifrost.Lib.Bisect
import Bifrost.Submits.Canonical
import Bifrost.Utils.Height
import Bifrost.Events.RoundUpPrimary
import Bifrost.Bootstrap.Latest
import Bifrost.Bootstrap.Pending
import Bifrost.Lib.WorkQueue
import Bifrost.Loop.FanOut
import Bifrost.Loop.Grace
import Bifrost.Loop.Lifecycle
import Bifrost.Bootstrap.Window
import Bifrost.Primitives.MethodCodec
import Bifrost.Loop.Consistent
import Bifrost.Loop.Previous
import Bifrost.Periodic.VspFailed
import Bifrost.Events.Routing
import Bifrost.Periodic.PriceUp
import Bifrost.Events.Delay
import Bifrost.Lib.Store
import Bifrost.Relayer.Metric
import Bifrost.Submits.Merge
import Bifrost.Loop.Dues
import Bifrost.Loop.Watch
import Bifrost.Loop.Gauge
import Bifrost.Events.RoundUpTriples
import Bifrost.Lib.Interleave
import Bifrost.Lib.Quorum
import Bifrost.Loop.Handled
import Bifrost.Loop.Network
import Bifrost.Loop.Ballot
import Bifrost.Loop.Drain
import Bifrost.Loop.Fast
import Bifrost.Loop.Certify
import Bifrost.Loop.Recover
import Bifrost.Relayer.Launch
import Bifrost.Periodic.HeartBeat
import Bifrost.Loop.Launched
import Bifrost.Relayer.Heights
import Bifrost.Loop.Delivery
import Bifrost.Loop.Indexed
import Bifrost.Loop.Patience
import Bifrost.Loop.Spread
import Bifrost.Loop.Schedule
