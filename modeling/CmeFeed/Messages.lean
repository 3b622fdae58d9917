import Mathlib.Data.Int.Basic

/-!
# Decoded messages

The SBE decoders are generated at build time. A message is modelled by what
their accessors return: the template id of its header, and for each layout
`T` the fields `Message::Get<T>()` reads when the bytes of the message are
decoded under that layout, whichever template the sender used. Accessors that
no handler reads are left out.
-/

set_option autoImplicit false

namespace CmeFeed

structure Decimal where
  mantissa : ℤ
  exponent : ℤ
  deriving DecidableEq, Repr

structure DecimalNull extends Decimal where
  mantissaNullValue : ℤ
  exponentNullValue : ℤ
  deriving DecidableEq, Repr

inductive MDUpdateAction where
  | New | Change | Delete | DeleteThru | DeleteFrom | other
  deriving DecidableEq, Repr

inductive MDEntryTypeBook where
  | Bid | Offer | ImpliedBid | ImpliedOffer | BookReset | other
  deriving DecidableEq, Repr

inductive MDEntryTypeDailyStatistics where
  | SettlementPrice | ClearedVolume | OpenInterest | FixingPrice | other
  deriving DecidableEq, Repr

inductive MDEntryTypeStatistics where
  | OpenPrice | HighTrade | LowTrade | HighestBid | LowestOffer | other
  deriving DecidableEq, Repr

inductive MDEntryType where
  | Bid | Offer | ImpliedBid | ImpliedOffer | Trade | OpenPrice | SettlementPrice
  | TradingSessionHighPrice | TradingSessionLowPrice | ClearedVolume | OpenInterest
  | BookReset | SessionHighBid | SessionLowOffer | FixingPrice | ElectronicVolume
  | ThresholdLimitsandPriceBandVariation | other
  deriving DecidableEq, Repr

/-- The two fields every repeating group of the incremental feed has. -/
structure EntryHeader where
  securityID : Int32
  rptSeq : UInt32
  deriving DecidableEq, Repr

structure MDIncrementalRefreshBook32.NoMDEntries extends EntryHeader where
  mDEntryPx : Decimal
  mDEntrySize : ℤ
  mDPriceLevel : UInt8
  mDUpdateAction : MDUpdateAction
  mDEntryType : MDEntryTypeBook
  deriving DecidableEq, Repr

structure MDIncrementalRefreshDailyStatistics33.NoMDEntries extends EntryHeader where
  mDEntryPx : Decimal
  mDEntrySize : ℤ
  mDEntryType : MDEntryTypeDailyStatistics
  deriving DecidableEq, Repr

structure MDIncrementalRefreshLimitsBanding34.NoMDEntries extends EntryHeader where
  highLimitPrice : DecimalNull
  lowLimitPrice : DecimalNull
  deriving DecidableEq, Repr

structure MDIncrementalRefreshSessionStatistics35.NoMDEntries extends EntryHeader where
  mDEntryPx : Decimal
  mDEntryType : MDEntryTypeStatistics
  deriving DecidableEq, Repr

structure MDIncrementalRefreshTrade36.NoMDEntries extends EntryHeader
  deriving DecidableEq, Repr

structure MDIncrementalRefreshTradeSummary42.NoMDEntries extends EntryHeader
  deriving DecidableEq, Repr

structure MDIncrementalRefreshVolume37.NoMDEntries extends EntryHeader where
  mDEntrySize : ℤ
  deriving DecidableEq, Repr

/-- An entry of any of the seven templates the channel dispatches; the
constructor selects the overload of `OnIncremental`. -/
inductive Entry where
  | book32 (e : MDIncrementalRefreshBook32.NoMDEntries)
  | dailyStatistics33 (e : MDIncrementalRefreshDailyStatistics33.NoMDEntries)
  | limitsBanding34 (e : MDIncrementalRefreshLimitsBanding34.NoMDEntries)
  | sessionStatistics35 (e : MDIncrementalRefreshSessionStatistics35.NoMDEntries)
  | trade36 (e : MDIncrementalRefreshTrade36.NoMDEntries)
  | tradeSummary42 (e : MDIncrementalRefreshTradeSummary42.NoMDEntries)
  | volume37 (e : MDIncrementalRefreshVolume37.NoMDEntries)
  deriving DecidableEq, Repr

namespace Entry

def header : Entry → EntryHeader
  | book32 e => e.toEntryHeader
  | dailyStatistics33 e => e.toEntryHeader
  | limitsBanding34 e => e.toEntryHeader
  | sessionStatistics35 e => e.toEntryHeader
  | trade36 e => e.toEntryHeader
  | tradeSummary42 e => e.toEntryHeader
  | volume37 e => e.toEntryHeader

def securityID (e : Entry) : Int32 := e.header.securityID

def rptSeq (e : Entry) : UInt32 := e.header.rptSeq

end Entry

structure IncrementalRefresh (E : Type) where
  noMDEntries : List E := []
  endOfEvent : Bool := false
  deriving DecidableEq, Repr

def IncrementalRefresh.map {E : Type} (f : E → Entry) (m : IncrementalRefresh E) :
    IncrementalRefresh Entry :=
  ⟨m.noMDEntries.map f,m.endOfEvent⟩

structure SecurityStatus30 where
  securityGroup : String := ""
  securityID : Int32 := 0
  securityIDNullValue : Int32 := 2147483647
  endOfEvent : Bool := false
  deriving DecidableEq, Repr

structure SnapshotFullRefresh38.NoMDEntries where
  mDEntryPx : Decimal
  mDEntrySize : ℤ
  mDPriceLevel : UInt8
  mDEntryType : MDEntryType
  deriving DecidableEq, Repr

structure SnapshotFullRefresh38 where
  securityID : Int32 := 0
  rptSeq : UInt32 := 0
  noMDEntries : List SnapshotFullRefresh38.NoMDEntries := []
  lowLimitPrice : DecimalNull := ⟨⟨0,0⟩,0,0⟩
  highLimitPrice : DecimalNull := ⟨⟨0,0⟩,0,0⟩
  deriving DecidableEq, Repr

inductive SecurityUpdateAction where
  | Add | Modify | Delete | other
  deriving DecidableEq, Repr

inductive EventType where
  | Activation | LastEligibleTradeDate | other
  deriving DecidableEq, Repr

/-- The fields the three definition layouts share. The last two are not sent:
they are the values the uninitialised locals `activationdatetime` and
`expirydatetime` of `HandleDefinition` happen to hold when the message is
handled. -/
structure MDInstrumentDefinition where
  totNumReports : UInt32 := 0
  securityUpdateAction : SecurityUpdateAction := .Add
  securityID : Int32 := 0
  symbol : String := ""
  securityGroup : String := ""
  securityType : String := ""
  marketSegmentID : ℤ := 0
  noEvents : List (EventType × UInt64) := []
  noMDFeedTypes : List (String × ℤ) := []
  activationdatetime : UInt64 := 0
  expirydatetime : UInt64 := 0
  deriving DecidableEq, Repr

structure Message where
  templateId : ℕ
  mDIncrementalRefreshBook32 : IncrementalRefresh MDIncrementalRefreshBook32.NoMDEntries := {}
  mDIncrementalRefreshDailyStatistics33 :
    IncrementalRefresh MDIncrementalRefreshDailyStatistics33.NoMDEntries := {}
  mDIncrementalRefreshLimitsBanding34 :
    IncrementalRefresh MDIncrementalRefreshLimitsBanding34.NoMDEntries := {}
  mDIncrementalRefreshSessionStatistics35 :
    IncrementalRefresh MDIncrementalRefreshSessionStatistics35.NoMDEntries := {}
  mDIncrementalRefreshTrade36 :
    IncrementalRefresh MDIncrementalRefreshTrade36.NoMDEntries := {}
  mDIncrementalRefreshTradeSummary42 :
    IncrementalRefresh MDIncrementalRefreshTradeSummary42.NoMDEntries := {}
  mDIncrementalRefreshVolume37 :
    IncrementalRefresh MDIncrementalRefreshVolume37.NoMDEntries := {}
  securityStatus30 : SecurityStatus30 := {}
  snapshotFullRefresh38 : SnapshotFullRefresh38 := {}
  mDInstrumentDefinitionFuture27 : MDInstrumentDefinition := {}
  mDInstrumentDefinitionOption41 : MDInstrumentDefinition := {}
  mDInstrumentDefinitionSpread29 : MDInstrumentDefinition := {}
  deriving DecidableEq, Repr

/-- A datagram as the controllers see it: the number `GetSeqNum` returns and
the messages that `HasNextMessage`/`NextMessage` have yet to yield. -/
structure Packet where
  seqnum : UInt32
  messages : List Message
  deriving DecidableEq, Repr

def Packet.number (p : Packet) : ℕ := p.seqnum.toNat

end CmeFeed
