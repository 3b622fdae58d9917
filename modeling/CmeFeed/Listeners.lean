import CmeFeed.ControllerRuns
import CmeFeed.Reactive.Broadcast

/-!
# The listeners of a channel

Clients register listeners with the channel and remove them again, while the
event loop runs. The context of the controllers passes a refreshed book to all
listeners of the channel. Listeners do not call back.
-/

set_option autoImplicit false

namespace CmeFeed

open Reactive

variable {F : Floats}

abbrev Listener := ℕ

abbrev Quote (F : Floats) := Listener × (UInt64 × DepthBook F.Float)

/-- The channel with its member `mdlisteners`. -/
structure ListenedChannel (F : Floats) where
  impl : ChannelImpl F
  mdlisteners : List Listener := []

namespace ListenedChannel

def registerMarketDataListener (lc : ListenedChannel F) (listener : Listener) :
    ListenedChannel F := {lc with mdlisteners := lc.mdlisteners++[listener]}

/-- Erases what `find` has found; to erase the end of the vector is undefined. -/
def removeMarketDataListener (lc : ListenedChannel F) (listener : Listener) :
    Option (ListenedChannel F) :=
  if listener ∈ lc.mdlisteners then
    some {lc with mdlisteners := lc.mdlisteners.erase listener}
  else none

def getMarketDataListeners (lc : ListenedChannel F) : List Listener := lc.mdlisteners

def notifyBookRefresh (lc : ListenedChannel F) (id : UInt64) (book : DepthBook F.Float) :
    List (Quote F) := lc.getMarketDataListeners.map fun listener => (listener,(id,book))

def execute (lc : ListenedChannel F) : Effect F → ListenedChannel F × List (Quote F)
  | .NotifyBookRefresh id book => (lc,lc.notifyBookRefresh id book)
  | e => ({lc with impl := lc.impl.execute e},[])

def perform (lc : ListenedChannel F) (r : ChannelController F × List (Effect F)) :
    ListenedChannel F × List (Quote F) :=
  run execute {lc with impl := {lc.impl with channel_controller_ := r.1}} r.2

def subscribe (lc : ListenedChannel F) (inst : Instrument) :
    ListenedChannel F × List (Quote F) :=
  let r := lc.perform (lc.impl.channel_controller_.subscribe inst)
  ({r.1 with impl := r.1.impl.startIncrementalFeed},r.2)

def stopInstrumentFeed (lc : ListenedChannel F) : ListenedChannel F × List (Quote F) :=
  let lc := {lc with impl := lc.impl.stopInstrumentA.stopInstrumentB}
  let r := run (fun lc symbol => lc.subscribe (lc.impl.symbol_controller_.getInstrument symbol))
    lc lc.impl.pendingsubscription_
  ({r.1 with impl := {r.1.impl with pendingsubscription_ := []}},r.2)

def executeDownload (lc : ListenedChannel F) :
    DownloadCall → ListenedChannel F × List (Quote F)
  | .SubscribeInstrumentDownload => ({lc with impl := lc.impl.startInstrumentFeed},[])
  | .UnsubscribeInstrumentDownload => lc.stopInstrumentFeed

def onPacket (lc : ListenedChannel F) (type : FeedType) (data : Packet) :
    ListenedChannel F × List (Quote F) :=
  match type with
  | .Instrument =>
    let r := lc.impl.symbol_controller_.onInstrumentPacket data
    run executeDownload {lc with impl := {lc.impl with symbol_controller_ := r.1}} r.2
  | .Snapshot => lc.perform (lc.impl.channel_controller_.onSnapshotPacket data)
  | .Incremental => lc.perform (lc.impl.channel_controller_.onIncrementalPacket data)

/-- The calls that do not reach the controllers do not reach listeners either. -/
def publicCall (lc : ListenedChannel F) :
    ChannelImpl.PublicCall → ListenedChannel F × List (Quote F)
  | .call (.Subscribe inst) => lc.subscribe inst
  | .call (.OnPacket type data) => lc.onPacket type data
  | .StopFeed .Instrument => lc.stopInstrumentFeed
  | .StopAll => stopInstrumentFeed {lc with impl := lc.impl.stopIncrementalFeed.stopSnapshotFeed}
  | c => ({lc with impl := lc.impl.publicCall c},[])

def handleReceiveFrom (lc : ListenedChannel F) (type : FeedType) (feed : Feed)
    (rest : List Packet) (data : Packet) : ListenedChannel F × List (Quote F) :=
  let lc := {lc with
    impl := lc.impl.withReceiver {lc.impl.receiver type feed with ready := rest} type feed}
  let r := lc.onPacket type data
  ({r.1 with impl :=
      r.1.impl.withReceiver (r.1.impl.receiver type feed).async_receive_from type feed},r.2)

def loopStep (lc : ListenedChannel F) :
    ChannelImpl.LoopEvent → ListenedChannel F × List (Quote F)
  | .handled type feed =>
    match (lc.impl.receiver type feed).ready, (lc.impl.receiver type feed).data_ with
    | _::rest, some data => lc.handleReceiveFrom type feed rest data
    | _, _ => (lc,[])
  | .client c => lc.publicCall c
  | e => ({lc with impl := (lc.impl.loopStep e).1},[])

def step (lc : ListenedChannel F) :
    AudienceEvent ChannelImpl.LoopEvent Listener → Option (ListenedChannel F × List (Quote F))
  | .input e => some (lc.loopStep e)
  | .register listener => some (lc.registerMarketDataListener listener,[])
  | .remove listener => (lc.removeMarketDataListener listener).map fun lc => (lc,[])

def quotes (lc : ListenedChannel F) (books : List (UInt64 × DepthBook F.Float)) :
    List (Quote F) := books.flatMap fun b => lc.mdlisteners.map fun listener => (listener,b)

theorem run_execute (lc : ListenedChannel F) (effects : List (Effect F)) :
    run execute lc effects = ({lc with impl := effects.foldl ChannelImpl.execute lc.impl},
      lc.quotes (notified effects)) := by
  induction effects generalizing lc with
  | nil => rfl
  | cons e effects ih =>
    rw [run_cons, ih]
    cases e <;> rfl

theorem perform_eq (lc : ListenedChannel F) (r : ChannelController F × List (Effect F)) :
    lc.perform r = ({lc with impl := lc.impl.perform r},lc.quotes (notified r.2)) :=
  run_execute _ r.2

theorem subscribe_eq (lc : ListenedChannel F) (i : Instrument) :
    lc.subscribe i = ({lc with impl := lc.impl.subscribe i},[]) := by
  unfold subscribe
  rw [perform_eq, ChannelController.subscribe_notified]
  rfl

theorem stopInstrumentFeed_eq (lc : ListenedChannel F) :
    lc.stopInstrumentFeed = ({lc with impl := lc.impl.stopInstrumentFeed},[]) := by
  have hdrained : ∀ (symbols : List String) (t : ListenedChannel F),
      run (fun lc symbol => lc.subscribe (lc.impl.symbol_controller_.getInstrument symbol)) t
        symbols = ({t with impl := symbols.foldl (fun ch symbol =>
          ch.subscribe (ch.symbol_controller_.getInstrument symbol)) t.impl},[]) := by
    intro symbols
    induction symbols with
    | nil => exact fun _ => rfl
    | cons symbol symbols ih =>
      intro t
      rw [run_cons, subscribe_eq, ih]
      rfl
  unfold stopInstrumentFeed
  dsimp only
  rw [hdrained]
  rfl

theorem drained_notified (ch : ChannelImpl F) (cc : ChannelController F) :
    notified (run ChannelController.onInput cc ch.drained).2 = [] := by
  unfold ChannelImpl.drained
  induction ch.pendingsubscription_ generalizing cc with
  | nil => rfl
  | cons symbol symbols ih =>
    rw [List.map_cons, run_cons, notified_append, ih, List.append_nil]
    exact ChannelController.subscribe_notified cc _

theorem stopInstrumentFeed_quotes (lc : ListenedChannel F) (cc : ChannelController F)
    (ch : ChannelImpl F) :
    lc.stopInstrumentFeed = ({lc with impl := lc.impl.stopInstrumentFeed},
      lc.quotes (notified (run ChannelController.onInput cc ch.drained).2)) := by
  rw [stopInstrumentFeed_eq, drained_notified]
  rfl

theorem onPacket_instrument_eq (lc : ListenedChannel F) (p : Packet) :
    lc.onPacket .Instrument p = ({lc with impl := lc.impl.onPacket .Instrument p},[]) := by
  rw [ChannelImpl.onPacket_instrument]
  unfold onPacket
  dsimp only
  rw [SymbolController.onInstrumentPacket_calls]
  by_cases hc : lc.impl.symbol_controller_.Completes p
  · rw [if_pos hc, if_pos hc]
    exact (run_singleton executeDownload _ _).trans (stopInstrumentFeed_eq _)
  · rw [if_neg hc, if_neg hc]
    rfl

theorem publicCall_eq (lc : ListenedChannel F) (c : ChannelImpl.PublicCall) :
    lc.publicCall c =
      ({lc with impl := lc.impl.publicCall c},lc.quotes (lc.impl.refreshes c)) := by
  cases c with
  | call c =>
    cases c with
    | Subscribe inst =>
      have hsilent : lc.impl.refreshes (.call (.Subscribe inst)) = [] := by
        unfold ChannelImpl.refreshes
        exact (congrArg _ (List.append_nil _)).trans (ChannelController.subscribe_notified _ inst)
      rw [hsilent]
      exact subscribe_eq lc inst
    | SubscribeSymbol symbol => rfl
    | OnPacket type data =>
      cases type with
      | Instrument =>
        have hsilent : lc.impl.refreshes (.call (.OnPacket .Instrument data)) = [] := by
          dsimp only [ChannelImpl.refreshes, ChannelImpl.inputs]
          split_ifs
          · exact drained_notified _ _
          · rfl
        rw [hsilent]
        exact onPacket_instrument_eq lc data
      | Snapshot =>
        have hone : lc.impl.refreshes (.call (.OnPacket .Snapshot data)) =
            notified (lc.impl.channel_controller_.onSnapshotPacket data).2 :=
          congrArg notified (List.append_nil _)
        rw [hone]
        exact perform_eq lc _
      | Incremental =>
        have hone : lc.impl.refreshes (.call (.OnPacket .Incremental data)) =
            notified (lc.impl.channel_controller_.onIncrementalPacket data).2 :=
          congrArg notified (List.append_nil _)
        rw [hone]
        exact perform_eq lc _
  | StopFeed type =>
    cases type with
    | Instrument => exact stopInstrumentFeed_quotes lc _ _
    | Snapshot => rfl
    | Incremental => rfl
  | StopAll => exact stopInstrumentFeed_quotes _ _ _
  | Start type feed => rfl
  | Stop type feed => rfl
  | StartFeed type => rfl
  | StartAll => rfl
  | Unsubscribe securityid => rfl
  | UnsubscribeSymbol symbol => rfl

theorem loopStep_eq (lc : ListenedChannel F) (e : ChannelImpl.LoopEvent) :
    lc.loopStep e = ({lc with impl := (lc.impl.refreshStep e).1},
      lc.quotes (lc.impl.refreshStep e).2) := by
  unfold ChannelImpl.refreshStep ChannelImpl.loopInputs
  cases e with
  | datagram type feed d => rfl
  | aborted type feed => rfl
  | client c =>
    dsimp only [loopStep, ChannelImpl.loopStep]
    rw [List.flatMap_singleton]
    exact publicCall_eq lc c
  | handled type feed =>
    dsimp only [loopStep, ChannelImpl.loopStep]
    cases (lc.impl.receiver type feed).ready with
    | nil => rfl
    | cons d rest =>
      cases (lc.impl.receiver type feed).data_ with
      | none => rfl
      | some data =>
        set r : MulticastReceiver Packet := {lc.impl.receiver type feed with ready := rest}
        have hpacket := publicCall_eq
          {lc with impl := lc.impl.withReceiver r type feed} (.call (.OnPacket type data))
        rw [ChannelImpl.refreshes_logic (ChannelImpl.withReceiver_logic _ r type feed)] at hpacket
        dsimp only
        rw [List.flatMap_singleton]
        unfold handleReceiveFrom
        dsimp only [publicCall] at hpacket ⊢
        rw [hpacket]
        rfl

theorem quotes_append (lc : ListenedChannel F) (a b : List (UInt64 × DepthBook F.Float)) :
    lc.quotes (a++b) = lc.quotes a ++ lc.quotes b := List.flatMap_append

theorem run_loopStep (lc : ListenedChannel F) (events : List ChannelImpl.LoopEvent) :
    run loopStep lc events =
      ({lc with impl := (run ChannelImpl.refreshStep lc.impl events).1},
        lc.quotes (run ChannelImpl.refreshStep lc.impl events).2) := by
  induction events generalizing lc with
  | nil => rfl
  | cons e events ih =>
    rw [run_cons, loopStep_eq, ih, run_cons, quotes_append]
    rfl

/-- Whatever the order of datagrams, handlers and clients, the controller of the
channel is where a run of its own takes it, but for the registry, and the
listeners are told of all the books of that run, and of no others. -/
theorem loop_controller (memory : UInt32 → Indeterminate) (ls : List Listener)
    (events : List ChannelImpl.LoopEvent) :
    let lc : ListenedChannel F := ⟨.construct memory,ls⟩
    let r := run loopStep lc events
    let alone := run ChannelController.onInput ({memory := memory} : ChannelController F)
      (observe ChannelImpl.loopStep ChannelImpl.loopInputs lc.impl events)
    r.1.impl.channel_controller_ = alone.1.withOutOfSync r.1.impl.registry ∧
      r.2 = lc.quotes (notified alone.2) := by
  intro lc r alone
  obtain ⟨hdrives,hemitted⟩ :=
    ChannelImpl.loop_refines.run (ChannelImpl.construct_drives memory) events
  have hrun : r = ({lc with impl := (run ChannelImpl.refreshStep lc.impl events).1},
      lc.quotes (run ChannelImpl.refreshStep lc.impl events).2) := run_loopStep lc events
  rw [show alone = run ChannelController.onInput {memory := memory} _ from rfl,
    ← ChannelImpl.observe_refreshStep, hrun]
  exact ⟨hdrives,congrArg lc.quotes hemitted⟩

theorem step_eq (s : ChannelImpl F × List Listener)
    (e : AudienceEvent ChannelImpl.LoopEvent Listener) :
    step ⟨s.1,s.2⟩ e = (broadcast ChannelImpl.refreshStep s e).map fun r =>
      (⟨r.1.1,r.1.2⟩,r.2) := by
  cases e with
  | input e => exact congrArg some (loopStep_eq ⟨s.1,s.2⟩ e)
  | register listener => rfl
  | remove listener =>
    dsimp only [step, removeMarketDataListener, broadcast]
    split_ifs <;> rfl

theorem run_step (lc : ListenedChannel F)
    (events : List (AudienceEvent ChannelImpl.LoopEvent Listener)) :
    runPartial step lc events =
      (runPartial (broadcast ChannelImpl.refreshStep) (lc.impl,lc.mdlisteners) events).map
        fun r => (⟨r.1.1,r.1.2⟩,r.2) :=
  runPartial_map (fun s : ChannelImpl F × List Listener => (⟨s.1,s.2⟩ : ListenedChannel F))
    step_eq (lc.impl,lc.mdlisteners) events

/-- Whatever happens on the lines, a run that begins without listeners is
defined exactly if each listener is removed, at any time, at most as often as it
was registered before. -/
theorem removals_defined (ch : ChannelImpl F)
    (events : List (AudienceEvent ChannelImpl.LoopEvent Listener)) :
    (runPartial step ({impl := ch} : ListenedChannel F) events).isSome ↔
      ∀ pre listener post, events = pre++.remove listener::post →
        AudienceEvent.removals listener pre < AudienceEvent.registrations listener pre := by
  rw [run_step, Option.isSome_map, broadcast_defined]
  simp only [List.count_nil, Nat.zero_add]

/-- Listeners do not disturb each other: what one is told, and the channel, are
as if no other listener were ever registered or removed. -/
theorem listeners_independent (lc : ListenedChannel F) (listener : Listener)
    (events : List (AudienceEvent ChannelImpl.LoopEvent Listener))
    (r : ListenedChannel F × List (Quote F)) (h : runPartial step lc events = some r) :
    ∃ r', runPartial step
        {lc with mdlisteners := List.replicate (lc.mdlisteners.count listener) listener}
        (events.filter (AudienceEvent.concerns listener)) = some r' ∧
      inbox listener r'.2 = inbox listener r.2 ∧ r'.1.impl = r.1.impl := by
  rw [run_step] at h
  obtain ⟨b,hb,rfl⟩ := Option.map_eq_some_iff.mp h
  obtain ⟨b',hb',hinbox⟩ := listener_alone ChannelImpl.refreshStep listener
    List.count_replicate_self hb
  refine ⟨(⟨b'.1.1,b'.1.2⟩,b'.2),?_,hinbox,?_⟩
  · rw [run_step]
    exact Option.map_eq_some_iff.mpr ⟨b',hb',rfl⟩
  · dsimp only
    rw [broadcast_machine _ hb, broadcast_machine _ hb', AudienceEvent.inputs_filter]

def audienceEvents : List (AudienceEvent ChannelImpl.LoopEvent Listener) :=
  [.register 1,.register 2,.input (.client (.call (.Subscribe sampleInstrument))),
    .input (.client (.call (.OnPacket .Snapshot ⟨1,[snapshotMessage (sampleSnapshot 1)]⟩))),
    .remove 2,
    .input (.client (.call (.OnPacket .Incremental ⟨5,[bookMessage [newBid 7 2 102] true]⟩)))]

theorem listeners_independent_sample :
    ∃ r r', runPartial step ({impl := .construct fun _ => ⟨12,true⟩} : ListenedChannel .exact)
        audienceEvents = some r ∧
      runPartial step ({impl := .construct fun _ => ⟨12,true⟩} : ListenedChannel .exact)
        (audienceEvents.filter (AudienceEvent.concerns 1)) = some r' ∧
      inbox 1 r'.2 = inbox 1 r.2 := by
  obtain ⟨r,hrun⟩ : ∃ r, runPartial step
      ({impl := .construct fun _ => ⟨12,true⟩} : ListenedChannel .exact) audienceEvents = some r :=
    ⟨_,rfl⟩
  obtain ⟨r',hrun',hinbox,-⟩ := listeners_independent _ 1 audienceEvents r hrun
  exact ⟨r,r',hrun,hrun',hinbox⟩

end ListenedChannel

end CmeFeed
