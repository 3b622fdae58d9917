import CmeFeed.ChannelController
import CmeFeed.SymbolController
import CmeFeed.MulticastReceiver

/-!
# The channel

The channel owns the six receivers, the two controllers and the symbols that
wait for the download. What the controllers ask of it in the course of a call
is executed here, in the order they ask: they do not read the registry or the
receivers in between, and the download calls come when the instrument table is
final.
-/

set_option autoImplicit false

namespace CmeFeed

open Reactive

structure ChannelImpl (F : Floats) where
  incrementala_ : MulticastReceiver Packet := {}
  incrementalb_ : MulticastReceiver Packet := {}
  snapshota_ : MulticastReceiver Packet := {}
  snapshotb_ : MulticastReceiver Packet := {}
  instrumenta_ : MulticastReceiver Packet := {}
  instrumentb_ : MulticastReceiver Packet := {}
  symbol_controller_ : SymbolController
  channel_controller_ : ChannelController F
  pendingsubscription_ : List String := []

inductive FeedType where
  | Instrument | Snapshot | Incremental
  deriving DecidableEq, Repr

inductive ChannelCall where
  | Subscribe (inst : Instrument)
  | SubscribeSymbol (symbol : String)
  | OnPacket (type : FeedType) (data : Packet)

namespace ChannelImpl

variable {F : Floats}

def startIncrementalFeed (ch : ChannelImpl F) : ChannelImpl F :=
  {ch with incrementala_ := ch.incrementala_.join, incrementalb_ := ch.incrementalb_.join}

def startSnapshotFeed (ch : ChannelImpl F) : ChannelImpl F :=
  {ch with snapshota_ := ch.snapshota_.join, snapshotb_ := ch.snapshotb_.join}

def stopSnapshotFeed (ch : ChannelImpl F) : ChannelImpl F :=
  {ch with snapshota_ := ch.snapshota_.leave, snapshotb_ := ch.snapshotb_.leave}

def startInstrumentFeed (ch : ChannelImpl F) : ChannelImpl F :=
  {ch with instrumenta_ := ch.instrumenta_.join, instrumentb_ := ch.instrumentb_.join}

def isSnapshotFeedActive (ch : ChannelImpl F) : Bool :=
  ch.snapshota_.isActive || ch.snapshotb_.isActive

def subscribeToSnapshotsForInstrument (ch : ChannelImpl F) (securityid : UInt32) :
    ChannelImpl F :=
  let ch := {ch with
    channel_controller_ := ch.channel_controller_.addOutOfSyncInstrument securityid}
  if !ch.isSnapshotFeedActive then ch.startSnapshotFeed else ch

def unsubscribeToSnapshotsForInstrument (ch : ChannelImpl F) (securityid : UInt32) :
    ChannelImpl F :=
  let r := ch.channel_controller_.removeOutOfSyncInstrument securityid
  let ch := {ch with channel_controller_ := r.1}
  if r.2 then
    if ch.isSnapshotFeedActive then
      if !ch.channel_controller_.hasOutOfSyncInstruments then ch.stopSnapshotFeed else ch
    else ch
  else ch

/-- Listeners and the report of a packet gap do not call back. -/
def execute (ch : ChannelImpl F) : Effect F → ChannelImpl F
  | .SubscribeToSnapshotsForInstrument securityid =>
    ch.subscribeToSnapshotsForInstrument securityid
  | .UnsubscribeToSnapshotsForInstrument securityid =>
    ch.unsubscribeToSnapshotsForInstrument securityid
  | .NotifyBookRefresh _ _ => ch
  | .packetGap _ _ => ch

def perform (ch : ChannelImpl F) (r : ChannelController F × List (Effect F)) : ChannelImpl F :=
  r.2.foldl execute {ch with channel_controller_ := r.1}

def subscribe (ch : ChannelImpl F) (inst : Instrument) : ChannelImpl F :=
  (ch.perform (ch.channel_controller_.subscribe inst)).startIncrementalFeed

/-- Every pending symbol is looked up and subscribed to, known or not. -/
def stopInstrumentFeed (ch : ChannelImpl F) : ChannelImpl F :=
  let ch := {ch with instrumenta_ := ch.instrumenta_.leave, instrumentb_ := ch.instrumentb_.leave}
  let ch := ch.pendingsubscription_.foldl
    (fun ch symbol => ch.subscribe (ch.symbol_controller_.getInstrument symbol)) ch
  {ch with pendingsubscription_ := []}

def executeDownload (ch : ChannelImpl F) : DownloadCall → ChannelImpl F
  | .SubscribeInstrumentDownload => ch.startInstrumentFeed
  | .UnsubscribeInstrumentDownload => ch.stopInstrumentFeed

def subscribeSymbol (ch : ChannelImpl F) (symbol : String) : ChannelImpl F :=
  {ch with pendingsubscription_ := ch.pendingsubscription_++[symbol]}

def onPacket (ch : ChannelImpl F) (type : FeedType) (data : Packet) : ChannelImpl F :=
  match type with
  | .Instrument =>
    let r := ch.symbol_controller_.onInstrumentPacket data
    r.2.foldl executeDownload {ch with symbol_controller_ := r.1}
  | .Snapshot => ch.perform (ch.channel_controller_.onSnapshotPacket data)
  | .Incremental => ch.perform (ch.channel_controller_.onIncrementalPacket data)

/-- The constructor, with what the memory of the instrument controllers to
come holds. -/
def construct (memory : UInt32 → Indeterminate) : ChannelImpl F :=
  SymbolController.construct.2.foldl executeDownload
    {symbol_controller_ := SymbolController.construct.1
     channel_controller_ := {memory := memory}}

def call (ch : ChannelImpl F) : ChannelCall → ChannelImpl F
  | .Subscribe inst => ch.subscribe inst
  | .SubscribeSymbol symbol => ch.subscribeSymbol symbol
  | .OnPacket type data => ch.onPacket type data

end ChannelImpl

end CmeFeed
