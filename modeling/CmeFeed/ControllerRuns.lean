import CmeFeed.ChannelReplay
import CmeFeed.Lines
import CmeFeed.Reactive.Refinement

/-!
# The channel controller within the channel

The channel calls its controller with instruments and packets, and executes
what the controller asks for in return. What it executes changes the registry
and the lines, which the controller does not read: inside the event loop the
controller makes the run that it makes alone.
-/

set_option autoImplicit false

namespace CmeFeed

open Reactive

variable {F : Floats}

namespace ChannelController

def withOutOfSync (ids : List UInt32) (cc : ChannelController F) : ChannelController F :=
  {cc with outofsync_instruments_ := ids}

variable (ids : List UInt32)

theorem withOutOfSync_find (cc : ChannelController F) (k : UInt32) :
    (cc.withOutOfSync ids).getInstrumentController k = cc.getInstrumentController k := rfl

theorem deliver_withOutOfSync (cc : ChannelController F) (k : UInt32) (d : Delivery) :
    (cc.withOutOfSync ids).deliver k d =
      ((cc.deliver k d).1.withOutOfSync ids,(cc.deliver k d).2) := by
  unfold deliver
  rw [withOutOfSync_find]
  cases cc.getInstrumentController k <;> rfl

theorem subscribe_withOutOfSync (cc : ChannelController F) (instrument : Instrument) :
    (cc.withOutOfSync ids).subscribe instrument =
      ((cc.subscribe instrument).1.withOutOfSync ids,(cc.subscribe instrument).2) := by
  unfold subscribe
  rw [withOutOfSync_find]
  cases cc.getInstrumentController instrument.key <;> rfl

theorem onIncrementalMessage_withOutOfSync (cc : ChannelController F) (m : Message) :
    (cc.withOutOfSync ids).onIncrementalMessage m =
      ((cc.onIncrementalMessage m).1.withOutOfSync ids,(cc.onIncrementalMessage m).2) := by
  unfold onIncrementalMessage
  cases m.incremental with
  | some message =>
    have hentries := run_unnoticed onEntry (withOutOfSync ids)
      (fun s e => deliver_withOutOfSync ids s _ _) cc message.noMDEntries
    dsimp only [handleIncrementalMessage]
    rw [hentries]
    cases message.endOfEvent <;> rfl
  | none =>
    dsimp only
    split_ifs
    · rfl
    · dsimp only [handleIncrementalSecurityStatus]
      split_ifs <;> rfl
    · rfl

theorem onInput_withOutOfSync (cc : ChannelController F) (input : ChannelInput) :
    (cc.withOutOfSync ids).onInput input =
      ((cc.onInput input).1.withOutOfSync ids,(cc.onInput input).2) := by
  cases input with
  | subscribe instrument => exact subscribe_withOutOfSync ids cc instrument
  | packet p =>
    cases p with
    | snapshot p =>
      exact run_unnoticed handleSnapshotMessage (withOutOfSync ids)
        (fun s m => deliver_withOutOfSync ids s _ _) cc p.messages
    | incremental p =>
      by_cases hp : cc.Processes p
      · have hp' : (cc.withOutOfSync ids).Processes p := hp
        have hmoved : ({cc.withOutOfSync ids with expectedseqnum_ := (p.seqnum+1).toNat} :
            ChannelController F) =
              withOutOfSync ids {cc with expectedseqnum_ := (p.seqnum+1).toNat} := rfl
        have hmessages := run_unnoticed onIncrementalMessage (withOutOfSync ids)
          (fun s m => onIncrementalMessage_withOutOfSync ids s m)
          {cc with expectedseqnum_ := (p.seqnum+1).toNat} p.messages
        dsimp only [onInput, onPacket]
        rw [onIncrementalPacket_processed hp, onIncrementalPacket_processed hp']
        dsimp only
        rw [hmoved, hmessages]
        rfl
      · have hp' : ¬(cc.withOutOfSync ids).Processes p := hp
        dsimp only [onInput, onPacket]
        rw [onIncrementalPacket_unprocessed hp, onIncrementalPacket_unprocessed hp']

theorem run_withOutOfSync (cc : ChannelController F) (inputs : List ChannelInput) :
    run onInput (cc.withOutOfSync ids) inputs =
      ((run onInput cc inputs).1.withOutOfSync ids,(run onInput cc inputs).2) :=
  run_unnoticed onInput (withOutOfSync ids) (onInput_withOutOfSync ids) cc inputs

end ChannelController

namespace ChannelImpl

def drained (ch : ChannelImpl F) : List ChannelInput :=
  ch.pendingsubscription_.map fun symbol =>
    .subscribe (ch.symbol_controller_.getInstrument symbol)

/-- The packet that completes the download brings the subscriptions of the
symbols that wait, as does the end of the instrument feed. -/
def inputs (ch : ChannelImpl F) : PublicCall → List ChannelInput
  | .call (.Subscribe inst) => [.subscribe inst]
  | .call (.SubscribeSymbol _) => []
  | .call (.OnPacket .Instrument data) =>
    if ch.symbol_controller_.Completes data then
      drained {ch with symbol_controller_ := (ch.symbol_controller_.onInstrumentPacket data).1}
    else []
  | .call (.OnPacket .Snapshot data) => [.packet (.snapshot data)]
  | .call (.OnPacket .Incremental data) => [.packet (.incremental data)]
  | .StopFeed .Instrument => ch.drained
  | .StopAll => ch.drained
  | _ => []

/-- The channel's controller is the other one but for the registry. -/
def Drives (cc : ChannelController F) (ch : ChannelImpl F) : Prop :=
  ch.channel_controller_ = cc.withOutOfSync ch.registry

theorem execute_drives {cc : ChannelController F} {ch : ChannelImpl F} (h : Drives cc ch)
    (e : Effect F) : Drives cc (ch.execute e) := by
  unfold Drives registry at *
  rw [execute_controller]
  cases e with
  | SubscribeToSnapshotsForInstrument k =>
    dsimp only [ChannelController.addOutOfSyncInstrument]
    split_ifs
    · exact h
    · rw [h]
      rfl
  | UnsubscribeToSnapshotsForInstrument k =>
    dsimp only [ChannelController.removeOutOfSyncInstrument]
    split_ifs
    · rw [h]
      rfl
    · exact h
  | NotifyBookRefresh id book => exact h
  | packetGap expected seqnum => exact h

theorem foldl_execute_drives {cc : ChannelController F} {ch : ChannelImpl F} (h : Drives cc ch)
    (effects : List (Effect F)) : Drives cc (effects.foldl execute ch) := by
  induction effects generalizing ch with
  | nil => exact h
  | cons e effects ih => exact ih (execute_drives h e)

theorem onInput_drives {cc : ChannelController F} {ch : ChannelImpl F} (h : Drives cc ch)
    (input : ChannelInput) :
    Drives (cc.onInput input).1 (ch.perform (ch.channel_controller_.onInput input)) ∧
      (ch.channel_controller_.onInput input).2 = (cc.onInput input).2 := by
  have hstep := ChannelController.onInput_withOutOfSync ch.registry cc input
  rw [show cc.withOutOfSync ch.registry = ch.channel_controller_ from h.symm] at hstep
  rw [hstep]
  exact ⟨foldl_execute_drives rfl _,rfl⟩

theorem subscribe_drives {cc : ChannelController F} {ch : ChannelImpl F} (h : Drives cc ch)
    (i : Instrument) : Drives (cc.subscribe i).1 (ch.subscribe i) :=
  (onInput_drives h (.subscribe i)).1

theorem subscribes_drives {cc : ChannelController F} {ch : ChannelImpl F} (h : Drives cc ch)
    (symbols : List String) :
    Drives (run ChannelController.onInput cc (symbols.map fun symbol =>
        .subscribe (ch.symbol_controller_.getInstrument symbol))).1
      (symbols.foldl (fun ch symbol =>
        ch.subscribe (ch.symbol_controller_.getInstrument symbol)) ch) := by
  induction symbols generalizing cc ch with
  | nil => exact h
  | cons symbol symbols ih =>
    have hstep := subscribe_drives h (ch.symbol_controller_.getInstrument symbol)
    have hrest := ih hstep
    rw [(subscribe_download ch _).1] at hrest
    exact hrest

theorem stopInstrumentFeed_drives {cc : ChannelController F} {ch : ChannelImpl F}
    (h : Drives cc ch) :
    Drives (run ChannelController.onInput cc ch.drained).1 ch.stopInstrumentFeed := by
  have hleft : Drives cc ch.stopInstrumentA.stopInstrumentB := h
  exact subscribes_drives hleft ch.pendingsubscription_

theorem publicCall_drives {cc : ChannelController F} {ch : ChannelImpl F} (h : Drives cc ch)
    (c : PublicCall) :
    Drives (run ChannelController.onInput cc (ch.inputs c)).1 (ch.publicCall c) := by
  cases c with
  | call c =>
    cases c with
    | Subscribe inst => exact subscribe_drives h inst
    | SubscribeSymbol symbol => exact h
    | OnPacket type data =>
      cases type with
      | Instrument =>
        have hmoved : Drives cc {ch with
            symbol_controller_ := (ch.symbol_controller_.onInstrumentPacket data).1} := h
        dsimp only [publicCall, call, inputs]
        rw [onPacket_instrument]
        split_ifs
        · exact stopInstrumentFeed_drives hmoved
        · exact hmoved
      | Snapshot => exact (onInput_drives h (.packet (.snapshot data))).1
      | Incremental => exact (onInput_drives h (.packet (.incremental data))).1
  | Start type feed => cases type <;> cases feed <;> exact h
  | Stop type feed => cases type <;> cases feed <;> exact h
  | StartFeed type => cases type <;> exact h
  | StopFeed type =>
    cases type with
    | Instrument => exact stopInstrumentFeed_drives h
    | Snapshot => exact h
    | Incremental => exact h
  | StartAll => exact h
  | StopAll =>
    have hstopped : Drives cc ch.stopIncrementalFeed.stopSnapshotFeed := h
    exact stopInstrumentFeed_drives hstopped
  | Unsubscribe securityid => exact h
  | UnsubscribeSymbol symbol => exact h

theorem inputs_logic {ch ch' : ChannelImpl F} (h : ch.logic = ch'.logic) (c : PublicCall) :
    ch.inputs c = ch'.inputs c := by
  obtain ⟨hsymbols,-,hpending⟩ := logic_eq_iff.mp h
  have hdrained : ch.drained = ch'.drained := by
    unfold drained
    rw [hsymbols, hpending]
  cases c with
  | call c =>
    cases c with
    | OnPacket type data =>
      cases type with
      | Instrument =>
        dsimp only [inputs, drained]
        rw [hsymbols, hpending]
      | Snapshot => rfl
      | Incremental => rfl
    | Subscribe inst => rfl
    | SubscribeSymbol symbol => rfl
  | StopFeed type =>
    cases type with
    | Instrument => exact hdrained
    | Snapshot => rfl
    | Incremental => rfl
  | StopAll => exact hdrained
  | Start type feed => rfl
  | Stop type feed => rfl
  | StartFeed type => rfl
  | StartAll => rfl
  | Unsubscribe securityid => rfl
  | UnsubscribeSymbol symbol => rfl

def loopInputs (ch : ChannelImpl F) (e : LoopEvent) : List ChannelInput :=
  (ch.loopStep e).2.flatMap fun c => ch.inputs c.publicCall

def refreshes (ch : ChannelImpl F) (c : PublicCall) : List (UInt64 × DepthBook F.Float) :=
  notified (run ChannelController.onInput ch.channel_controller_ (ch.inputs c)).2

theorem refreshes_logic {ch ch' : ChannelImpl F} (h : ch.logic = ch'.logic) (c : PublicCall) :
    ch.refreshes c = ch'.refreshes c := by
  unfold refreshes
  rw [inputs_logic h, (logic_eq_iff.mp h).2.1]

def refreshStep (ch : ChannelImpl F) (e : LoopEvent) :
    ChannelImpl F × List (UInt64 × DepthBook F.Float) :=
  ((ch.loopStep e).1,
    notified (run ChannelController.onInput ch.channel_controller_ (ch.loopInputs e)).2)

theorem run_refreshStep (ch : ChannelImpl F) (events : List LoopEvent) :
    (run refreshStep ch events).1 = (run loopStep ch events).1 := by
  induction events generalizing ch with
  | nil => rfl
  | cons e events ih => exact ih _

theorem observe_refreshStep {A : Type} (obs : ChannelImpl F → LoopEvent → List A)
    (ch : ChannelImpl F) (events : List LoopEvent) :
    observe refreshStep obs ch events = observe loopStep obs ch events := by
  induction events generalizing ch with
  | nil => rfl
  | cons e events ih => exact congrArg (obs ch e ++ ·) (ih _)

theorem loopStep_drives {cc : ChannelController F} {ch : ChannelImpl F} (h : Drives cc ch)
    (e : LoopEvent) :
    Drives (run ChannelController.onInput cc (ch.loopInputs e)).1 (ch.loopStep e).1 := by
  have hline : ∀ (t : ChannelImpl F) (r : MulticastReceiver Packet) (type : FeedType)
      (feed : Feed), Drives cc t → Drives cc (t.withReceiver r type feed) := by
    intro t r type feed ht
    unfold Drives registry at *
    rw [(logic_eq_iff.mp (withReceiver_logic t r type feed)).2.1]
    exact ht
  unfold loopInputs
  cases e with
  | datagram t f d => exact hline ch _ t f h
  | aborted t f => exact hline ch _ t f h
  | client c =>
    have hcall := publicCall_drives h c
    dsimp only [loopStep]
    rw [List.flatMap_singleton]
    exact hcall
  | handled t f =>
    dsimp only [loopStep]
    cases (ch.receiver t f).ready with
    | nil => exact h
    | cons d rest =>
      cases (ch.receiver t f).data_ with
      | none => exact h
      | some data =>
        have hcall := publicCall_drives (hline ch {ch.receiver t f with ready := rest} t f h)
          (.call (.OnPacket t data))
        rw [inputs_logic (withReceiver_logic ch _ t f)] at hcall
        dsimp only
        rw [List.flatMap_singleton]
        unfold Drives registry at *
        dsimp only [handleReceiveFrom]
        rw [(logic_eq_iff.mp (withReceiver_logic _ _ t f)).2.1]
        exact hcall

/-- A step of the loop makes a run of the controller. -/
theorem loop_refines :
    Refines (Drives (F := F)) loopInputs notified ChannelController.onInput refreshStep where
  states _ _ e h := loopStep_drives h e
  outputs cc ch e h := by
    unfold refreshStep
    rw [show ch.channel_controller_ = cc.withOutOfSync ch.registry from h,
      ChannelController.run_withOutOfSync]
  shown_nil := notified_nil
  shown_append := notified_append

theorem construct_drives (memory : UInt32 → Indeterminate) :
    Drives {memory := memory} (construct memory : ChannelImpl F) := rfl

end ChannelImpl

end CmeFeed
