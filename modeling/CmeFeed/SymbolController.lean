import Mathlib.Logic.Function.Basic
import CmeFeed.InstrumentMdHandler
import CmeFeed.Reactive.Run

/-!
# The instrument download

The instrument feed repeats numbered packets of definitions. The controller
accepts them in order from the first one, starts again at a gap, and gives the
feed up when it has seen the reported number of definitions.
-/

set_option autoImplicit false

namespace CmeFeed

open Reactive

inductive DownloadState where
  | INIT | DOWNLOADING | DOWNLOADED
  deriving DecidableEq, Repr

inductive DownloadCall where
  | SubscribeInstrumentDownload
  | UnsubscribeInstrumentDownload
  deriving DecidableEq, Repr

structure SymbolController where
  state_ : DownloadState
  totalnumreports_ : ℤ
  processedreports_ : ℤ
  expectedseqnum_ : ℤ
  instruments_ : String → Option Instrument

namespace MDInstrumentDefinition

/-- The two local times after the loop over the events; the case `Activation`
falls through. -/
def eventTimes (d : MDInstrumentDefinition) : UInt64 × UInt64 :=
  d.noEvents.foldl (fun t event =>
    match event.1 with
    | .Activation => (event.2,event.2)
    | .LastEligibleTradeDate => (t.1,event.2)
    | .other => t) (d.activationdatetime,d.expirydatetime)

def depths (d : MDInstrumentDefinition) : ℤ × ℤ :=
  d.noMDFeedTypes.foldl (fun t feed =>
    if feed.1 = "GBX" then (feed.2,t.2)
    else if feed.1 = "GBI" then (t.1,feed.2) else t) (0,0)

def instrument (d : MDInstrumentDefinition) : Instrument where
  securityid := d.securityID
  symbol := d.symbol
  securitygroup := d.securityGroup
  type := d.securityType
  activationdatetime := d.eventTimes.1
  expirationdatetime := d.eventTimes.2
  marketsegmentid := d.marketSegmentID
  marketdepth := d.depths.1
  implmarketdepth := d.depths.2

end MDInstrumentDefinition

/-- The definition under the layout the template id selects. -/
def Message.definition (m : Message) : Option MDInstrumentDefinition :=
  if m.templateId = 27 then some m.mDInstrumentDefinitionFuture27
  else if m.templateId = 41 then some m.mDInstrumentDefinitionOption41
  else if m.templateId = 29 then some m.mDInstrumentDefinitionSpread29
  else none

def Packet.definitions (p : Packet) : List MDInstrumentDefinition :=
  p.messages.filterMap Message.definition

namespace SymbolController

def resetState (c : SymbolController) : SymbolController :=
  {c with expectedseqnum_ := 1, totalnumreports_ := 0, processedreports_ := 0
          instruments_ := fun _ => none}

def initial : SymbolController := ⟨.INIT,0,0,1,fun _ => none⟩

def construct : SymbolController × List DownloadCall :=
  (initial,[.SubscribeInstrumentDownload])

def switchState (c : SymbolController) (_oldstate newstate : DownloadState) :
    SymbolController × List DownloadCall :=
  ({c with state_ := newstate},
    match newstate with
    | .DOWNLOADED => [.UnsubscribeInstrumentDownload]
    | _ => [])

def downloadComplete (c : SymbolController) : Bool :=
  decide (c.totalnumreports_ ≤ c.processedreports_)

/-- `emplace` keeps an instrument that is there, and a modification is made to
a copy. -/
def handleDefinition (c : SymbolController) (definition : MDInstrumentDefinition) :
    SymbolController :=
  let symbol := definition.symbol
  let instruments :=
    match definition.securityUpdateAction with
    | .Add =>
      if c.instruments_ symbol = none then
        Function.update c.instruments_ symbol (some definition.instrument)
      else c.instruments_
    | .Modify => c.instruments_
    | .Delete => Function.update c.instruments_ symbol none
    | .other => c.instruments_
  {c with instruments_ := instruments, processedreports_ := c.processedreports_+1}

def onInstrument (c : SymbolController) (definition : MDInstrumentDefinition) :
    SymbolController × List DownloadCall :=
  match c.state_ with
  | .INIT =>
    let r := switchState {c with totalnumreports_ := definition.totNumReports.toInt32.toInt}
      .INIT .DOWNLOADING
    (r.1.handleDefinition definition,r.2)
  | .DOWNLOADING =>
    let c := c.handleDefinition definition
    if c.downloadComplete then switchState c .DOWNLOADING .DOWNLOADED else (c,[])
  | .DOWNLOADED => (c,[])

def handleMessage (c : SymbolController) (m : Message) : SymbolController × List DownloadCall :=
  match m.definition with
  | some definition => c.onInstrument definition
  | none => (c,[])

/-- Reads the packet to its end: it has no next message afterwards. -/
def handlePacket (c : SymbolController) (packet : Packet) :
    (SymbolController × List DownloadCall) × Packet :=
  (run handleMessage c packet.messages,{packet with messages := []})

/-- The number expected next, as the comparisons with an `uint32_t` take it. -/
def expected (c : SymbolController) : ℤ := c.expectedseqnum_%2^32

def onInstrumentPacket (c : SymbolController) (packet : Packet) :
    SymbolController × List DownloadCall :=
  if (packet.number:ℤ) = c.expected ∧ c.state_ ≠ .DOWNLOADED then
    let r := c.handlePacket packet
    let r' := if r.1.1.state_ = .INIT then (r.1.1.handlePacket r.2).1 else (r.1.1,[])
    ({r'.1 with expectedseqnum_ := r'.1.expectedseqnum_+1},r.1.2++r'.2)
  else if c.expected < packet.number then
    if c.state_ = .DOWNLOADING then switchState c.resetState .DOWNLOADING .INIT else (c,[])
  else (c,[])

def getInstrument (c : SymbolController) (symbol : String) : Instrument :=
  match c.instruments_ symbol with
  | some inst => inst
  | none => {}

end SymbolController

end CmeFeed
