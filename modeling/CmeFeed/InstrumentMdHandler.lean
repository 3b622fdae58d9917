import CmeFeed.DepthBook
import CmeFeed.Messages

/-!
# The market data handler of one instrument

The handler keeps the main and the implied book, the session statistics and
the pending-change flag. Trades and status events reach no listener (the calls
are commented out in the source) and change nothing. Calls to the channel
context are returned in the order they are made.
-/

set_option autoImplicit false

namespace CmeFeed

/-- The floating-point arithmetic of the source, of which nothing is assumed:
`double` and `float`, the product of a mantissa and a power of ten, the
narrowing of a `double` argument to `float`, and `==` on `float`. -/
structure Floats where
  Double : Type
  Float : Type
  decimal : ℤ → ℤ → Double
  narrow : Double → Float
  eq : Float → Float → Bool
  zero : Double

instance (F : Floats) : BEq F.Float := ⟨F.eq⟩

/-- Exact decimals in place of `double` and `float`, for runs on fixed inputs
whose prices both types represent exactly. -/
def Floats.exact : Floats where
  Double := Rat
  Float := Rat
  decimal m e := if 0 ≤ e then (m*10^e.toNat : ℤ) else mkRat m (10^(-e).toNat)
  narrow p := p
  eq p q := decide (p = q)
  zero := 0

def Floats.price (F : Floats) (p : Decimal) : F.Double := F.decimal p.mantissa p.exponent

structure Instrument where
  securityid : Int32 := 0
  symbol : String := ""
  securitygroup : String := ""
  type : String := ""
  activationdatetime : UInt64 := 0
  expirationdatetime : UInt64 := 0
  marketsegmentid : ℤ := 0
  marketdepth : ℤ := 0
  implmarketdepth : ℤ := 0
  deriving DecidableEq, Repr

/-- The key of the instrument in the channel: its id as an `uint32_t`. -/
def Instrument.key (i : Instrument) : UInt32 := i.securityid.toUInt32

/-- The id listeners get: the `int` sign-extended to `uint64_t`. -/
def Instrument.id (i : Instrument) : UInt64 := i.securityid.toInt64.toUInt64

structure SessionStatistics (F : Floats) where
  lowlimitprice : F.Double := F.zero
  highlimitprice : F.Double := F.zero
  openingprice : F.Double := F.zero
  fixingprice : F.Double := F.zero
  sessionhighbid : F.Double := F.zero
  sessionlowask : F.Double := F.zero
  sessionhighprice : F.Double := F.zero
  sessionlowprice : F.Double := F.zero
  settlement : F.Double := F.zero
  openinterest : ℤ := 0
  clearedvolume : ℤ := 0
  electronicvolume : ℤ := 0
  thresholdprice : F.Double := F.zero
  thresholdvolume : ℤ := 0

inductive Effect (F : Floats) where
  | SubscribeToSnapshotsForInstrument (securityid : UInt32)
  | UnsubscribeToSnapshotsForInstrument (securityid : UInt32)
  | NotifyBookRefresh (id : UInt64) (book : DepthBook F.Float)
  | packetGap (expected : ℤ) (seqnum : UInt32)

structure InstrumentMdHandler (F : Floats) where
  instrument_ : Instrument
  book_ : DepthBook F.Float
  implbook_ : DepthBook F.Float
  statistics_ : SessionStatistics F := {}
  statechange_ : Bool

structure Books (F : Floats) where
  main : DepthBook F.Float
  impl : DepthBook F.Float

/-- The conversion of an `int` depth to the `uint32_t` capacity of a ladder. -/
def depthSize (depth : ℤ) : ℕ := (depth%2^32).toNat

def Books.empty (F : Floats) (i : Instrument) : Books F :=
  ⟨.ofSize (depthSize i.marketdepth),.ofSize (depthSize i.implmarketdepth)⟩

variable {F : Floats}

def handleBidEntry (entry : MDIncrementalRefreshBook32.NoMDEntries) (book : DepthBook F.Float) :
    DepthBook F.Float :=
  let level : ℤ := entry.mDPriceLevel.toNat
  let price := F.price entry.mDEntryPx
  let volume := entry.mDEntrySize
  match entry.mDUpdateAction with
  | .New => book.addBid level (F.narrow price) volume
  | .Change => book.updateBid level (F.narrow price) volume
  | .Delete => book.deleteBid level (F.narrow price)
  | .DeleteFrom => book.deleteBidFrom level
  | .DeleteThru => book.deleteBidThru level
  | .other => book

def handleAskEntry (entry : MDIncrementalRefreshBook32.NoMDEntries) (book : DepthBook F.Float) :
    DepthBook F.Float :=
  let level : ℤ := entry.mDPriceLevel.toNat
  let price := F.price entry.mDEntryPx
  let volume := entry.mDEntrySize
  match entry.mDUpdateAction with
  | .New => book.addAsk level (F.narrow price) volume
  | .Change => book.updateAsk level (F.narrow price) volume
  | .Delete => book.deleteAsk level (F.narrow price)
  | .DeleteFrom => book.deleteAskFrom level
  | .DeleteThru => book.deleteAskThru level
  | .other => book

namespace InstrumentMdHandler

/-- The constructor leaves `statechange_` indeterminate. -/
def construct (instrument : Instrument) (statechange : Bool) : InstrumentMdHandler F where
  instrument_ := instrument
  book_ := .ofSize (depthSize instrument.marketdepth)
  implbook_ := .ofSize (depthSize instrument.implmarketdepth)
  statechange_ := statechange

def clearState (h : InstrumentMdHandler F) : InstrumentMdHandler F :=
  {h with statechange_ := false, book_ := h.book_.clear, implbook_ := h.implbook_.clear}

def onIncrementalBook (h : InstrumentMdHandler F)
    (entry : MDIncrementalRefreshBook32.NoMDEntries) : InstrumentMdHandler F :=
  let h := {h with statechange_ := true}
  match entry.mDEntryType with
  | .Bid => {h with book_ := handleBidEntry entry h.book_}
  | .Offer => {h with book_ := handleAskEntry entry h.book_}
  | .ImpliedBid => {h with implbook_ := handleBidEntry entry h.implbook_}
  | .ImpliedOffer => {h with implbook_ := handleAskEntry entry h.implbook_}
  | .BookReset => h.clearState
  | .other => h

def onIncrementalDailyStatistics (h : InstrumentMdHandler F)
    (entry : MDIncrementalRefreshDailyStatistics33.NoMDEntries) : InstrumentMdHandler F :=
  let price := F.price entry.mDEntryPx
  let volume := entry.mDEntrySize
  match entry.mDEntryType with
  | .SettlementPrice => {h with statistics_ := {h.statistics_ with settlement := price}}
  | .FixingPrice => {h with statistics_ := {h.statistics_ with fixingprice := price}}
  | .ClearedVolume => {h with statistics_ := {h.statistics_ with clearedvolume := volume}}
  | .OpenInterest => {h with statistics_ := {h.statistics_ with openinterest := volume}}
  | .other => h

def onIncrementalSessionStatistics (h : InstrumentMdHandler F)
    (entry : MDIncrementalRefreshSessionStatistics35.NoMDEntries) : InstrumentMdHandler F :=
  let price := F.price entry.mDEntryPx
  match entry.mDEntryType with
  | .OpenPrice => {h with statistics_ := {h.statistics_ with openingprice := price}}
  | .LowTrade => {h with statistics_ := {h.statistics_ with sessionlowprice := price}}
  | .HighTrade => {h with statistics_ := {h.statistics_ with sessionhighprice := price}}
  | .LowestOffer => {h with statistics_ := {h.statistics_ with sessionlowask := price}}
  | .HighestBid => {h with statistics_ := {h.statistics_ with sessionhighbid := price}}
  | .other => h

/-- The banding overload tests neither price for null. -/
def onIncrementalLimitsBanding (h : InstrumentMdHandler F)
    (entry : MDIncrementalRefreshLimitsBanding34.NoMDEntries) : InstrumentMdHandler F :=
  let highprice := F.price entry.highLimitPrice.toDecimal
  let lowprice := F.price entry.lowLimitPrice.toDecimal
  {h with statistics_ :=
    {h.statistics_ with lowlimitprice := lowprice, highlimitprice := highprice}}

def onIncrementalVolume (h : InstrumentMdHandler F)
    (entry : MDIncrementalRefreshVolume37.NoMDEntries) : InstrumentMdHandler F :=
  {h with statistics_ := {h.statistics_ with electronicvolume := entry.mDEntrySize}}

def onIncremental (h : InstrumentMdHandler F) : Entry → InstrumentMdHandler F
  | .book32 e => h.onIncrementalBook e
  | .dailyStatistics33 e => h.onIncrementalDailyStatistics e
  | .limitsBanding34 e => h.onIncrementalLimitsBanding e
  | .sessionStatistics35 e => h.onIncrementalSessionStatistics e
  | .trade36 _ => h
  | .tradeSummary42 _ => h
  | .volume37 e => h.onIncrementalVolume e

def onSecurityStatus (h : InstrumentMdHandler F) (_ : SecurityStatus30) :
    InstrumentMdHandler F := h

def reset (h : InstrumentMdHandler F) : InstrumentMdHandler F := h

def snapshotEntry (h : InstrumentMdHandler F) (entry : SnapshotFullRefresh38.NoMDEntries) :
    InstrumentMdHandler F :=
  let level : ℤ := entry.mDPriceLevel.toNat
  let price := F.price entry.mDEntryPx
  let volume := entry.mDEntrySize
  match entry.mDEntryType with
  | .Bid => {h with book_ := h.book_.addBid level (F.narrow price) volume}
  | .Offer => {h with book_ := h.book_.addAsk level (F.narrow price) volume}
  | .ImpliedBid => {h with implbook_ := h.implbook_.addBid level (F.narrow price) volume}
  | .ImpliedOffer => {h with implbook_ := h.implbook_.addAsk level (F.narrow price) volume}
  | .Trade => h
  | .OpenPrice => {h with statistics_ := {h.statistics_ with openingprice := price}}
  | .SettlementPrice => {h with statistics_ := {h.statistics_ with settlement := price}}
  | .TradingSessionHighPrice =>
    {h with statistics_ := {h.statistics_ with sessionhighprice := price}}
  | .TradingSessionLowPrice =>
    {h with statistics_ := {h.statistics_ with sessionlowprice := price}}
  | .ClearedVolume => {h with statistics_ := {h.statistics_ with clearedvolume := volume}}
  | .OpenInterest => {h with statistics_ := {h.statistics_ with openinterest := volume}}
  | .BookReset => h
  | .SessionHighBid => {h with statistics_ := {h.statistics_ with sessionhighbid := price}}
  | .SessionLowOffer => {h with statistics_ := {h.statistics_ with sessionlowask := price}}
  | .FixingPrice => {h with statistics_ := {h.statistics_ with fixingprice := price}}
  | .ElectronicVolume => {h with statistics_ := {h.statistics_ with electronicvolume := volume}}
  | .ThresholdLimitsandPriceBandVariation =>
    {h with statistics_ := {h.statistics_ with thresholdprice := price, thresholdvolume := volume}}
  | .other => h

/-- The limit prices are stored together, on a test of the low one only. -/
def snapshotLimits (h : InstrumentMdHandler F) (refresh : SnapshotFullRefresh38) :
    InstrumentMdHandler F :=
  if refresh.lowLimitPrice.mantissa ≠ refresh.lowLimitPrice.mantissaNullValue ∧
      refresh.lowLimitPrice.exponent ≠ refresh.lowLimitPrice.exponentNullValue then
    {h with statistics_ := {h.statistics_ with
      lowlimitprice := F.price refresh.lowLimitPrice.toDecimal
      highlimitprice := F.price refresh.highLimitPrice.toDecimal}}
  else h

def onSnapshot (h : InstrumentMdHandler F) (refresh : SnapshotFullRefresh38) :
    InstrumentMdHandler F :=
  (refresh.noMDEntries.foldl snapshotEntry h.clearState).snapshotLimits refresh

def notifications (h : InstrumentMdHandler F) : List (Effect F) :=
  [.NotifyBookRefresh h.instrument_.id h.book_,.NotifyBookRefresh h.instrument_.id h.implbook_]

def onChannelReset (h : InstrumentMdHandler F) : InstrumentMdHandler F × List (Effect F) :=
  (h.clearState,h.clearState.notifications)

def commit (h : InstrumentMdHandler F) : InstrumentMdHandler F × List (Effect F) :=
  if h.statechange_ then ({h with statechange_ := false},h.notifications) else (h,[])

def books (h : InstrumentMdHandler F) : Books F := ⟨h.book_,h.implbook_⟩

@[simp] theorem commit_instrument (h : InstrumentMdHandler F) :
    h.commit.1.instrument_ = h.instrument_ := by
  unfold commit
  split_ifs <;> rfl

@[simp] theorem commit_books (h : InstrumentMdHandler F) : h.commit.1.books = h.books := by
  unfold commit
  split_ifs <;> rfl

@[simp] theorem commit_statechange (h : InstrumentMdHandler F) :
    h.commit.1.statechange_ = false := by
  unfold commit
  split_ifs with hc
  · rfl
  · simpa using hc

end InstrumentMdHandler

end CmeFeed
