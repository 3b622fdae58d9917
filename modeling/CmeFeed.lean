import CmeFeed.Reactive.Replica
import CmeFeed.Ladders
import CmeFeed.InstrumentController
import CmeFeed.Replay
import CmeFeed.ChannelController
import CmeFeed.InstrumentView
import CmeFeed.Arbitration
import CmeFeed.ChannelImpl
import CmeFeed.Download
import CmeFeed.Publication
import CmeFeed.Recovery
import CmeFeed.Registry
import CmeFeed.Synchrony
import CmeFeed.Bytes
import CmeFeed.Datagram
import CmeFeed.Dispatch
import CmeFeed.Framing
import CmeFeed.Reactive.Copies
import CmeFeed.ReplayCycle
import CmeFeed.Subscriptions
import CmeFeed.Uninitialised
import CmeFeed.Sequences
import CmeFeed.LadderLaws
import CmeFeed.LadderOrder
import CmeFeed.Rebuild
import CmeFeed.SequenceNumbers
import CmeFeed.Definitions
import CmeFeed.HeaderOnly
import CmeFeed.EventTimes
import CmeFeed.LimitPrices
import CmeFeed.Vectors
import CmeFeed.LadderBounds
import CmeFeed.Reactive.Writes
import CmeFeed.ChannelReplay
import CmeFeed.Statistics
import CmeFeed.Sessions
import CmeFeed.Feeds
import CmeFeed.Demand
import CmeFeed.EventLoop
import CmeFeed.Lines
import CmeFeed.Reactive.Refinement
import CmeFeed.Reactive.Broadcast
import CmeFeed.ControllerRuns
import CmeFeed.UnknownSymbols
import CmeFeed.ChannelReset
import CmeFeed.Listeners
import CmeFeed.LoopReplay
import CmeFeed.WireReplay
import CmeFeed.Host
import CmeFeed.Configuration
import CmeFeed.Completeness
import CmeFeed.Startup
import CmeFeed.Buffers
import CmeFeed.Latencies
