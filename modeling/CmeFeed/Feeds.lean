import CmeFeed.HeaderOnly
import CmeFeed.Subscriptions

/-!
# Starting and stopping the lines

Besides the calls of its controllers the channel has public functions that
join and leave each of its six lines, one by one, by feed or all together.
They move receivers only, with one exception: the symbols that wait for the
download are subscribed to when the instrument feed is stopped, by whomever.
-/

set_option autoImplicit false

namespace CmeFeed

open Reactive

variable {F : Floats}

/-- The clean-up of an instrument is left to be done. -/
def ChannelController.unsubscribe (cc : ChannelController F) (_securityid : UInt32) :
    ChannelController F := cc

namespace ChannelImpl

def receiver (ch : ChannelImpl F) : FeedType → Feed → MulticastReceiver Packet
  | .Incremental, .A => ch.incrementala_
  | .Incremental, .B => ch.incrementalb_
  | .Snapshot, .A => ch.snapshota_
  | .Snapshot, .B => ch.snapshotb_
  | .Instrument, .A => ch.instrumenta_
  | .Instrument, .B => ch.instrumentb_

def withReceiver (ch : ChannelImpl F) (r : MulticastReceiver Packet) :
    FeedType → Feed → ChannelImpl F
  | .Incremental, .A => {ch with incrementala_ := r}
  | .Incremental, .B => {ch with incrementalb_ := r}
  | .Snapshot, .A => {ch with snapshota_ := r}
  | .Snapshot, .B => {ch with snapshotb_ := r}
  | .Instrument, .A => {ch with instrumenta_ := r}
  | .Instrument, .B => {ch with instrumentb_ := r}

def start (ch : ChannelImpl F) (type : FeedType) (feed : Feed) : ChannelImpl F :=
  ch.withReceiver (ch.receiver type feed).join type feed

def stop (ch : ChannelImpl F) (type : FeedType) (feed : Feed) : ChannelImpl F :=
  ch.withReceiver (ch.receiver type feed).leave type feed

def startIncrementalA (ch : ChannelImpl F) : ChannelImpl F := ch.start .Incremental .A

def stopIncrementalA (ch : ChannelImpl F) : ChannelImpl F := ch.stop .Incremental .A

def startIncrementalB (ch : ChannelImpl F) : ChannelImpl F := ch.start .Incremental .B

def stopIncrementalB (ch : ChannelImpl F) : ChannelImpl F := ch.stop .Incremental .B

def startSnapshotA (ch : ChannelImpl F) : ChannelImpl F := ch.start .Snapshot .A

def stopSnapshotA (ch : ChannelImpl F) : ChannelImpl F := ch.stop .Snapshot .A

def startSnapshotB (ch : ChannelImpl F) : ChannelImpl F := ch.start .Snapshot .B

def stopSnapshotB (ch : ChannelImpl F) : ChannelImpl F := ch.stop .Snapshot .B

def startInstrumentA (ch : ChannelImpl F) : ChannelImpl F := ch.start .Instrument .A

def stopInstrumentA (ch : ChannelImpl F) : ChannelImpl F := ch.stop .Instrument .A

def startInstrumentB (ch : ChannelImpl F) : ChannelImpl F := ch.start .Instrument .B

def stopInstrumentB (ch : ChannelImpl F) : ChannelImpl F := ch.stop .Instrument .B

def stopIncrementalFeed (ch : ChannelImpl F) : ChannelImpl F :=
  ch.stopIncrementalA.stopIncrementalB

def startAll (ch : ChannelImpl F) : ChannelImpl F :=
  ch.startIncrementalFeed.startSnapshotFeed.startInstrumentFeed

def stopAll (ch : ChannelImpl F) : ChannelImpl F :=
  ch.stopIncrementalFeed.stopSnapshotFeed.stopInstrumentFeed

def unsubscribe (ch : ChannelImpl F) (securityid : UInt32) : ChannelImpl F :=
  {ch with channel_controller_ := ch.channel_controller_.unsubscribe securityid}

def unsubscribeSymbol (ch : ChannelImpl F) (symbol : String) : ChannelImpl F :=
  let _ := (ch.symbol_controller_.getInstrument symbol).securityid
  ch

/-- The calls of the receivers and of the clients of a channel. Those that only
the controllers make, through their context, are not among them. -/
inductive PublicCall where
  | call (c : ChannelCall)
  | Start (type : FeedType) (feed : Feed)
  | Stop (type : FeedType) (feed : Feed)
  | StartFeed (type : FeedType)
  | StopFeed (type : FeedType)
  | StartAll
  | StopAll
  | Unsubscribe (securityid : UInt32)
  | UnsubscribeSymbol (symbol : String)

def startFeed (ch : ChannelImpl F) : FeedType → ChannelImpl F
  | .Incremental => ch.startIncrementalFeed
  | .Snapshot => ch.startSnapshotFeed
  | .Instrument => ch.startInstrumentFeed

def stopFeed (ch : ChannelImpl F) : FeedType → ChannelImpl F
  | .Incremental => ch.stopIncrementalFeed
  | .Snapshot => ch.stopSnapshotFeed
  | .Instrument => ch.stopInstrumentFeed

def publicCall (ch : ChannelImpl F) : PublicCall → ChannelImpl F
  | .call c => ch.call c
  | .Start type feed => ch.start type feed
  | .Stop type feed => ch.stop type feed
  | .StartFeed type => ch.startFeed type
  | .StopFeed type => ch.stopFeed type
  | .StartAll => ch.startAll
  | .StopAll => ch.stopAll
  | .Unsubscribe securityid => ch.unsubscribe securityid
  | .UnsubscribeSymbol symbol => ch.unsubscribeSymbol symbol

structure Logic (F : Floats) where
  symbol_controller_ : SymbolController
  channel_controller_ : ChannelController F
  pendingsubscription_ : List String

def logic (ch : ChannelImpl F) : Logic F :=
  ⟨ch.symbol_controller_,ch.channel_controller_,ch.pendingsubscription_⟩

theorem logic_eq_iff {ch ch' : ChannelImpl F} :
    ch.logic = ch'.logic ↔ ch.symbol_controller_ = ch'.symbol_controller_ ∧
      ch.channel_controller_ = ch'.channel_controller_ ∧
      ch.pendingsubscription_ = ch'.pendingsubscription_ :=
  Logic.mk.injEq .. ▸ Iff.rfl

theorem withReceiver_logic (ch : ChannelImpl F) (r : MulticastReceiver Packet) (type : FeedType)
    (feed : Feed) : (ch.withReceiver r type feed).logic = ch.logic := by
  cases type <;> cases feed <;> rfl

theorem execute_controller (ch : ChannelImpl F) (e : Effect F) :
    (ch.execute e).channel_controller_ =
      match e with
      | .SubscribeToSnapshotsForInstrument k => ch.channel_controller_.addOutOfSyncInstrument k
      | .UnsubscribeToSnapshotsForInstrument k =>
        (ch.channel_controller_.removeOutOfSyncInstrument k).1
      | _ => ch.channel_controller_ := by
  cases e with
  | SubscribeToSnapshotsForInstrument k =>
    dsimp only [execute, subscribeToSnapshotsForInstrument]
    split_ifs <;> rfl
  | UnsubscribeToSnapshotsForInstrument k =>
    dsimp only [execute, unsubscribeToSnapshotsForInstrument]
    split_ifs <;> rfl
  | NotifyBookRefresh id book => rfl
  | packetGap expected seqnum => rfl

theorem execute_logic {ch ch' : ChannelImpl F} (h : ch.logic = ch'.logic) (e : Effect F) :
    (ch.execute e).logic = (ch'.execute e).logic := by
  obtain ⟨hsymbols,hcontroller,hpending⟩ := logic_eq_iff.mp h
  obtain ⟨hs,hp⟩ := execute_download ch e
  obtain ⟨hs',hp'⟩ := execute_download ch' e
  refine logic_eq_iff.mpr ⟨?_,?_,?_⟩
  · rw [hs, hs', hsymbols]
  · rw [execute_controller, execute_controller, hcontroller]
  · rw [hp, hp', hpending]

theorem foldl_logic {A : Type} {f : ChannelImpl F → A → ChannelImpl F}
    (hf : ∀ ch ch' a, ch.logic = ch'.logic → (f ch a).logic = (f ch' a).logic)
    {ch ch' : ChannelImpl F} (h : ch.logic = ch'.logic) (as : List A) :
    (as.foldl f ch).logic = (as.foldl f ch').logic := by
  induction as generalizing ch ch' with
  | nil => exact h
  | cons a as ih => exact ih (hf ch ch' a h)

theorem perform_logic {ch ch' : ChannelImpl F} (h : ch.logic = ch'.logic)
    (r : ChannelController F × List (Effect F)) : (ch.perform r).logic = (ch'.perform r).logic := by
  obtain ⟨hsymbols,-,hpending⟩ := logic_eq_iff.mp h
  have hstart : ({ch with channel_controller_ := r.1} : ChannelImpl F).logic =
      ({ch' with channel_controller_ := r.1} : ChannelImpl F).logic :=
    logic_eq_iff.mpr ⟨hsymbols,rfl,hpending⟩
  exact foldl_logic (fun _ _ e ht => execute_logic ht e) hstart r.2

theorem subscribe_logic {ch ch' : ChannelImpl F} (h : ch.logic = ch'.logic) (i : Instrument) :
    (ch.subscribe i).logic = (ch'.subscribe i).logic := by
  have hcontroller := (logic_eq_iff.mp h).2.1
  change (ch.perform _).logic = (ch'.perform _).logic
  rw [hcontroller]
  exact perform_logic h _

theorem stopInstrumentFeed_logic {ch ch' : ChannelImpl F} (h : ch.logic = ch'.logic) :
    ch.stopInstrumentFeed.logic = ch'.stopInstrumentFeed.logic := by
  have hpending := (logic_eq_iff.mp h).2.2
  have hleft : ch.stopInstrumentA.stopInstrumentB.logic =
      ch'.stopInstrumentA.stopInstrumentB.logic := h
  have hdrained := foldl_logic (f := fun ch symbol =>
      ch.subscribe (ch.symbol_controller_.getInstrument symbol))
    (fun t t' s ht => by
      rw [(logic_eq_iff.mp ht).1]
      exact subscribe_logic ht _) hleft ch.pendingsubscription_
  obtain ⟨hsymbols,hcontroller,-⟩ := logic_eq_iff.mp hdrained
  refine logic_eq_iff.mpr ⟨hsymbols.trans ?_,hcontroller.trans ?_,rfl⟩ <;>
    rw [hpending] <;> rfl

theorem executeDownload_logic {ch ch' : ChannelImpl F} (h : ch.logic = ch'.logic)
    (d : DownloadCall) : (ch.executeDownload d).logic = (ch'.executeDownload d).logic := by
  cases d with
  | SubscribeInstrumentDownload => exact h
  | UnsubscribeInstrumentDownload => exact stopInstrumentFeed_logic h

theorem call_logic {ch ch' : ChannelImpl F} (h : ch.logic = ch'.logic) (c : ChannelCall) :
    (ch.call c).logic = (ch'.call c).logic := by
  obtain ⟨hsymbols,hcontroller,hpending⟩ := logic_eq_iff.mp h
  cases c with
  | Subscribe inst => exact subscribe_logic h inst
  | SubscribeSymbol symbol =>
    exact logic_eq_iff.mpr ⟨hsymbols,hcontroller,congrArg (·++[symbol]) hpending⟩
  | OnPacket type data =>
    cases type with
    | Instrument =>
      have hmoved : ∀ c, ({ch with symbol_controller_ := c} : ChannelImpl F).logic =
          ({ch' with symbol_controller_ := c} : ChannelImpl F).logic :=
        fun _ => logic_eq_iff.mpr ⟨rfl,hcontroller,hpending⟩
      dsimp only [call, onPacket]
      rw [hsymbols]
      exact foldl_logic (fun _ _ d ht => executeDownload_logic ht d) (hmoved _) _
    | Snapshot =>
      dsimp only [call, onPacket]
      rw [hcontroller]
      exact perform_logic h _
    | Incremental =>
      dsimp only [call, onPacket]
      rw [hcontroller]
      exact perform_logic h _

def PublicCall.reaching : PublicCall → Option PublicCall
  | .call c => some (.call c)
  | .StopFeed .Instrument => some (.StopFeed .Instrument)
  | .StopAll => some (.StopFeed .Instrument)
  | _ => none

theorem publicCall_logic {ch ch' : ChannelImpl F} (h : ch.logic = ch'.logic) (c : PublicCall) :
    (ch.publicCall c).logic =
      match c.reaching with
      | some c' => (ch'.publicCall c').logic
      | none => ch'.logic := by
  cases c with
  | call c => exact call_logic h c
  | Start type feed => exact (withReceiver_logic ch _ type feed).trans h
  | Stop type feed => exact (withReceiver_logic ch _ type feed).trans h
  | StartFeed type => cases type <;> exact h
  | StopFeed type =>
    cases type with
    | Instrument => exact stopInstrumentFeed_logic h
    | Snapshot => exact h
    | Incremental => exact h
  | StartAll => exact h
  | StopAll =>
    have hstopped : ch.stopIncrementalFeed.stopSnapshotFeed.logic = ch'.logic := h
    exact stopInstrumentFeed_logic hstopped
  | Unsubscribe securityid => exact h
  | UnsubscribeSymbol symbol => exact h

/-- Joining and leaving lines by hand, and unsubscribing, leave no trace in the
controllers, the download and the queue of symbols: after any run of public
calls these are as if only the calls that reach them had been made, on a
channel whose lines may be in any state. -/
theorem lines_inert (ch ch' : ChannelImpl F) (h : ch.logic = ch'.logic) (calls : List PublicCall) :
    (calls.foldl publicCall ch).logic =
      ((calls.filterMap PublicCall.reaching).foldl publicCall ch').logic := by
  induction calls generalizing ch ch' with
  | nil => exact h
  | cons c calls ih =>
    have hstep := publicCall_logic h c
    cases hc : c.reaching with
    | none =>
      rw [hc] at hstep
      rw [List.filterMap_cons_none hc]
      exact ih _ _ hstep
    | some c' =>
      rw [hc] at hstep
      rw [List.filterMap_cons_some hc]
      exact ih _ _ hstep

theorem lines_inert_sample :
    let ch : ChannelImpl .exact := construct fun _ => ⟨0,false⟩
    let calls : List PublicCall := [.Start .Snapshot .A,
      .call (.Subscribe {symbol := "ES", securityid := 1}),.Unsubscribe 1,.StopAll]
    (calls.foldl publicCall ch).logic =
      ([PublicCall.call (.Subscribe {symbol := "ES", securityid := 1}),
        .StopFeed .Instrument].foldl publicCall (ch.stop .Instrument .A)).logic := by
  intro ch calls
  have halike : ch.logic = (ch.stop .Instrument .A).logic :=
    (withReceiver_logic ch _ .Instrument .A).symm
  exact lines_inert ch (ch.stop .Instrument .A) halike calls

end ChannelImpl

end CmeFeed
