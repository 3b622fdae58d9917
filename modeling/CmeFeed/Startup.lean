import CmeFeed.Completeness
import CmeFeed.Host

/-!
# Coming up

A channel comes up by itself: once the loop has handed on a cycle of the
instrument feed, the download is complete, the lines of this feed are left, and
the symbols that waited have their instruments. From a snapshot on that is not
older than the incremental packets so far, their books are up to date.
-/

set_option autoImplicit false

namespace CmeFeed

open Reactive

variable {F : Floats}

/-- The packets have all those of the cycle in the end, each before a later one,
after any of them in any order. -/
def ReplayCycle.Delivered (cycle : ReplayCycle) (packets : List Packet) : Prop :=
  (∀ p ∈ packets, p ∈ cycle.packets) ∧ ∃ earlier later, packets = earlier++later ∧
    Gapless Packet.number 1 later ∧ ∀ p ∈ cycle.packets, p ∈ later

def ReplayCycle.instrument (cycle : ReplayCycle) (symbol : String) : Instrument :=
  (cycle.table symbol).getD {}

namespace SymbolController

theorem getInstrument_table {c : SymbolController} {cycle : ReplayCycle}
    (h : c.instruments_ = cycle.table) (symbol : String) :
    c.getInstrument symbol = cycle.instrument symbol := by
  unfold getInstrument ReplayCycle.instrument
  rw [h]
  cases cycle.table symbol <;> rfl

theorem delivered_complete {cycle : ReplayCycle} (hsize : 2 ≤ cycle.size)
    (hsmall : cycle.size < 2^31) {packets : List Packet} (h : cycle.Delivered packets) :
    (run onInstrumentPacket initial packets).1.state_ = .DOWNLOADED ∧
      (run onInstrumentPacket initial packets).1.instruments_ = cycle.table := by
  obtain ⟨hpackets,earlier,later,rfl,hgapless,hall⟩ := h
  obtain ⟨k,done,hstage⟩ :
      ∃ k done, Stage cycle k done (run onInstrumentPacket initial earlier).1 :=
    reachable_stage earlier fun p hp => hpackets p (List.mem_append_left _ hp)
  obtain ⟨-,k',done',-,hend,-,hnumbers⟩ := hstage.gapless hsize (e := 1) (fun _ => by omega)
    (fun p hp => hpackets p (List.mem_append_right _ hp)) hgapless
  rw [run_append_state]
  have hcomplete : (run onInstrumentPacket (run onInstrumentPacket initial earlier).1
      later).1.state_ = .DOWNLOADED := by
    by_contra hopen
    have hmore := hend.more hsize hopen
    have hnext : k'+1 ∈ cycle.packets.map Packet.number := by
      rw [cycle.numbered, List.mem_range'_1]
      omega
    obtain ⟨p,hp,hnumber⟩ := List.mem_map.mp hnext
    have := hnumbers hopen p (hall p hp)
    omega
  have hdone : done' = cycle.definitions := by
    rw [hend.complete hcomplete, ReplayCycle.max_total hsize, if_pos hsmall, Int.toNat_natCast,
      ReplayCycle.size, List.take_length]
  exact ⟨hcomplete,hend.progress.table.1.trans (by rw [hdone]; rfl)⟩

end SymbolController

namespace ChannelImpl

def LoopCall.download : LoopCall → Option Packet
  | .OnPacket .Instrument _ data => some data
  | _ => none

def downloads (ch : ChannelImpl F) (events : List LoopEvent) : List Packet :=
  (run loopStep ch events).2.filterMap LoopCall.download

theorem onPacket_symbols (ch : ChannelImpl F) (type : FeedType) (feed : Feed) (p : Packet) :
    (ch.onPacket type p).symbol_controller_ = (run SymbolController.onInstrumentPacket
      ch.symbol_controller_ ([LoopCall.OnPacket type feed p].filterMap LoopCall.download)).1 := by
  cases type with
  | Instrument =>
    rw [onPacket_instrument]
    split_ifs
    · exact (stopInstrumentFeed_spec _).1
    · rfl
  | Snapshot => exact (foldl_execute_download _ _).1
  | Incremental => exact (foldl_execute_download _ _).1

theorem loopStep_symbols (ch : ChannelImpl F) {e : LoopEvent} (he : ∀ c, e ≠ .client c) :
    (ch.loopStep e).1.symbol_controller_ = (run SymbolController.onInstrumentPacket
      ch.symbol_controller_ ((ch.loopStep e).2.filterMap LoopCall.download)).1 := by
  cases e with
  | datagram t f d => exact (logic_eq_iff.mp (withReceiver_logic ch _ t f)).1
  | aborted t f => exact (logic_eq_iff.mp (withReceiver_logic ch _ t f)).1
  | client c => exact absurd rfl (he c)
  | handled t f =>
    unfold loopStep
    dsimp only
    cases (ch.receiver t f).ready with
    | nil => rfl
    | cons d rest =>
      cases (ch.receiver t f).data_ with
      | none => rfl
      | some data =>
        set popped := ch.withReceiver {ch.receiver t f with ready := rest} t f
        have hpopped : popped.symbol_controller_ = ch.symbol_controller_ :=
          (logic_eq_iff.mp (withReceiver_logic ch _ t f)).1
        have hpacket := onPacket_symbols popped t f data
        rw [hpopped] at hpacket
        exact (logic_eq_iff.mp (withReceiver_logic _ _ t f)).1.trans hpacket

theorem run_symbols (ch : ChannelImpl F) {events : List LoopEvent}
    (hevents : ∀ e ∈ events, ∀ c, e ≠ .client c) :
    (run loopStep ch events).1.symbol_controller_ =
      (run SymbolController.onInstrumentPacket ch.symbol_controller_ (ch.downloads events)).1 := by
  induction events generalizing ch with
  | nil => rfl
  | cons e events ih =>
    unfold downloads at ih ⊢
    rw [run_cons, List.filterMap_append, run_append_state,
      ← loopStep_symbols ch (hevents e (by simp))]
    exact ih _ fun x hx => hevents x (by simp [hx])

theorem Tracks.congr {ch ch' : ChannelImpl F} {early late : List String}
    (h : ch.Tracks early late) (heq : ch'.logic = ch.logic) : ch'.Tracks early late := by
  obtain ⟨hsymbols,hcontroller,hpending⟩ := logic_eq_iff.mp heq
  constructor
  · rw [hsymbols, hpending]
    unfold Exists
    rw [hcontroller]
    exact h.waiting
  · rw [hsymbols, hpending]
    unfold Exists keyOf
    rw [hcontroller, hsymbols]
    exact h.resolved

theorem perform_tracks {ch : ChannelImpl F} {early late : List String} (h : ch.Tracks early late)
    (p : FeedPacket) : (ch.perform (ch.channel_controller_.onPacket p)).Tracks early late := by
  obtain ⟨hsymbols,hpending⟩ := foldl_execute_download
    {ch with channel_controller_ := (ch.channel_controller_.onPacket p).1}
    (ch.channel_controller_.onPacket p).2
  set performed := ch.perform (ch.channel_controller_.onPacket p)
  have hkey : ∀ s, performed.keyOf s = ch.keyOf s := fun s =>
    congrArg (fun c => (SymbolController.getInstrument c s).key) hsymbols
  constructor
  · intro hs
    obtain ⟨hwaits,hlate,hnone⟩ := h.waiting (hsymbols ▸ hs)
    exact ⟨hpending.trans hwaits,hlate,fun k hk => hnone k ((perform_exists ch p k).mp hk)⟩
  · intro hs
    obtain ⟨hdrained,hexists⟩ := h.resolved (hsymbols ▸ hs)
    refine ⟨hpending.trans hdrained,fun k => (perform_exists ch p k).trans ?_⟩
    simp only [hkey, hexists k]

theorem onPacket_tracks {ch : ChannelImpl F} {early late : List String} (h : ch.Tracks early late)
    (type : FeedType) (p : Packet) : (ch.onPacket type p).Tracks early late := by
  cases type with
  | Instrument => exact onInstrumentPacket_tracks h p
  | Snapshot => exact perform_tracks h (.snapshot p)
  | Incremental => exact perform_tracks h (.incremental p)

def awaiting (memory : UInt32 → Indeterminate) (symbols : List String) : ChannelImpl F :=
  (symbols.map ChannelCall.SubscribeSymbol).foldl call (construct memory)

theorem awaiting_tracks (memory : UInt32 → Indeterminate) (symbols : List String) :
    (awaiting memory symbols : ChannelImpl F).Tracks symbols [] := by
  have htracks := calls_tracks (construct_tracks memory) (symbols.map .SubscribeSymbol)
    (downloads_symbols symbols) (F := F)
  obtain ⟨hlate,hearly⟩ := queuedSymbols_open
    (show (construct memory : ChannelImpl F).symbol_controller_.state_ ≠ .DOWNLOADED by nofun)
    symbols
  rw [hlate, hearly] at htracks
  exact htracks

def Left (ch : ChannelImpl F) : Prop :=
  ch.symbol_controller_.state_ = .DOWNLOADED →
    ∀ feed, (ch.receiver .Instrument feed).joined_ = false

theorem execute_instrument (ch : ChannelImpl F) (e : Effect F) (feed : Feed) :
    (ch.execute e).receiver .Instrument feed = ch.receiver .Instrument feed := by
  cases e with
  | SubscribeToSnapshotsForInstrument k =>
    dsimp only [execute, subscribeToSnapshotsForInstrument]
    cases feed <;> split_ifs <;> rfl
  | UnsubscribeToSnapshotsForInstrument k =>
    dsimp only [execute, unsubscribeToSnapshotsForInstrument]
    cases feed <;> split_ifs <;> rfl
  | NotifyBookRefresh id book => rfl
  | packetGap expected seqnum => rfl

theorem perform_instrument (ch : ChannelImpl F) (r : ChannelController F × List (Effect F))
    (feed : Feed) : (ch.perform r).receiver .Instrument feed = ch.receiver .Instrument feed := by
  have hall : ∀ (effects : List (Effect F)) (t : ChannelImpl F),
      (effects.foldl execute t).receiver .Instrument feed = t.receiver .Instrument feed := by
    intro effects
    induction effects with
    | nil => exact fun _ => rfl
    | cons e effects ih => exact fun t => (ih _).trans (execute_instrument t e feed)
  refine (hall r.2 _).trans ?_
  cases feed <;> rfl

theorem stopInstrumentFeed_left (ch : ChannelImpl F) (feed : Feed) :
    (ch.stopInstrumentFeed.receiver .Instrument feed).joined_ = false := by
  have hall : ∀ (symbols : List String) (t : ChannelImpl F),
      (symbols.foldl (fun ch symbol =>
        ch.subscribe (ch.symbol_controller_.getInstrument symbol)) t).receiver .Instrument feed =
          t.receiver .Instrument feed := by
    intro symbols
    induction symbols with
    | nil => exact fun _ => rfl
    | cons s symbols ih =>
      intro t
      have hperform := perform_instrument t
        (t.channel_controller_.subscribe (t.symbol_controller_.getInstrument s)) feed
      refine (ih _).trans (Eq.trans ?_ hperform)
      cases feed <;> rfl
  have hdrained := hall ch.pendingsubscription_ ch.stopInstrumentA.stopInstrumentB
  have hleft : (ch.stopInstrumentA.stopInstrumentB.receiver .Instrument feed).joined_ = false := by
    cases feed with
    | A => exact MulticastReceiver.leave_joined ch.instrumenta_
    | B => exact MulticastReceiver.leave_joined ch.instrumentb_
  rw [← hdrained] at hleft
  cases feed <;> exact hleft

theorem onPacket_left {ch : ChannelImpl F} (h : ch.Left) (type : FeedType) (p : Packet) :
    (ch.onPacket type p).Left := by
  have hperform : ∀ r, (ch.perform r).Left := by
    intro r hs feed
    have hsymbols : (ch.perform r).symbol_controller_ = ch.symbol_controller_ :=
      (foldl_execute_download _ _).1
    rw [hsymbols] at hs
    rw [perform_instrument]
    exact h hs feed
  cases type with
  | Snapshot => exact hperform _
  | Incremental => exact hperform _
  | Instrument =>
    rw [onPacket_instrument]
    by_cases hc : ch.symbol_controller_.Completes p
    · rw [if_pos hc]
      exact fun _ => stopInstrumentFeed_left _
    · rw [if_neg hc]
      intro hs feed
      have hbefore : ch.symbol_controller_.state_ = .DOWNLOADED := by
        by_contra hopen
        exact hc ⟨hopen,hs⟩
      have hleft := h hbefore feed
      cases feed <;> exact hleft

theorem withReceiver_left {ch : ChannelImpl F} (h : ch.Left) {r : MulticastReceiver Packet}
    {type : FeedType} {feed : Feed} (hr : r.joined_ = (ch.receiver type feed).joined_) :
    (ch.withReceiver r type feed).Left := by
  intro hs feed'
  rw [(logic_eq_iff.mp (withReceiver_logic ch r type feed)).1] at hs
  rw [receiver_withReceiver]
  split_ifs with hline
  · obtain ⟨rfl,rfl⟩ := hline
    exact hr.trans (h hs feed)
  · exact h hs feed'

theorem awaiting_left (memory : UInt32 → Indeterminate) (symbols : List String) :
    (awaiting memory symbols : ChannelImpl F).Left := by
  intro hs
  rw [awaiting, foldl_symbols_download] at hs
  cases hs

/-- The download of the cycle is complete, its lines are left, and there are
controllers for the symbols and for no others. -/
structure Up (cycle : ReplayCycle) (symbols : List String) (ch : ChannelImpl F) : Prop where
  downloaded : ch.symbol_controller_.state_ = .DOWNLOADED
  table : ch.symbol_controller_.instruments_ = cycle.table
  left : ∀ feed, (ch.receiver .Instrument feed).joined_ = false
  drained : ch.pendingsubscription_ = []
  exist : ∀ k, ch.Exists k ↔ ∃ s ∈ symbols, (cycle.instrument s).key = k

theorem run_up {memory : UInt32 → Indeterminate} {symbols : List String} {cycle : ReplayCycle}
    (hsize : 2 ≤ cycle.size) (hsmall : cycle.size < 2^31) {first second : List LoopEvent}
    (hevents : ∀ e ∈ first++second, ∀ c, e ≠ .client c)
    (hdelivered : cycle.Delivered ((awaiting memory symbols : ChannelImpl F).downloads first)) :
    Up cycle symbols
      (run loopStep (awaiting memory symbols : ChannelImpl F) (first++second)).1 := by
  set start : ChannelImpl F := awaiting memory symbols
  have hinitial : start.symbol_controller_ = SymbolController.initial :=
    foldl_symbols_download _ symbols
  obtain ⟨hdone,htable⟩ := SymbolController.delivered_complete hsize hsmall hdelivered
  rw [← hinitial, ← run_symbols start fun e he => hevents e (List.mem_append_left _ he)]
    at hdone htable
  have hsymbols : (run loopStep start (first++second)).1.symbol_controller_ =
      (run loopStep start first).1.symbol_controller_ := by
    rw [run_append_state, run_symbols _ fun e he => hevents e (List.mem_append_right _ he)]
    exact congrArg Prod.fst (SymbolController.run_downloaded _ hdone _)
  have htracks : (run loopStep start (first++second)).1.Tracks symbols [] :=
    run_keeps (Tracks · symbols []) (fun h _ t f _ => h.congr (withReceiver_logic _ _ t f))
      onPacket_tracks (awaiting_tracks memory symbols) hevents
  have hleft : (run loopStep start (first++second)).1.Left :=
    run_keeps Left withReceiver_left onPacket_left (awaiting_left memory symbols) hevents
  have hcomplete := (congrArg SymbolController.state_ hsymbols).trans hdone
  have hinstruments := (congrArg SymbolController.instruments_ hsymbols).trans htable
  obtain ⟨hdrained,hexists⟩ := htracks.resolved hcomplete
  refine ⟨hcomplete,hinstruments,hleft hcomplete,hdrained,fun k => ?_⟩
  rw [hexists]
  unfold keyOf
  simp only [SymbolController.getInstrument_table hinstruments]

theorem awaiting_runs (memory : UInt32 → Indeterminate) (symbols : List String)
    (events : List LoopEvent) :
    let start : ChannelImpl F := awaiting memory symbols
    (run loopStep start events).1.channel_controller_ =
      (run ChannelController.onInput ({memory := memory} : ChannelController F)
        (observe loopStep loopInputs start events)).1.withOutOfSync
          (run loopStep start events).1.registry := by
  intro start
  have hall : ∀ (symbols : List String) (t : ChannelImpl F), Drives {memory := memory} t →
      Drives {memory := memory} ((symbols.map ChannelCall.SubscribeSymbol).foldl call t) := by
    intro symbols
    induction symbols with
    | nil => exact fun _ ht => ht
    | cons s symbols ih => exact fun t ht => ih (t.subscribeSymbol s) ht
  have hdrives := (loop_refines.run (hall symbols _ (construct_drives memory)) events).1
  rw [run_refreshStep, observe_refreshStep] at hdrives
  exact hdrives

/-- Among inputs that follow others is a snapshot of the instrument that is not
older than the incremental packets before it, of which there are some. -/
def Refreshed (s : UInt32) (upto : ℕ → ℕ) (earlier later : List ChannelInput) : Prop :=
  ∃ before p after r, later = before++.packet (.snapshot p)::after ∧
    .snapshot r ∈ FeedPacket.deliveries s (.snapshot p) ∧
    nextNumber (earlier++before) ≠ 0 ∧ upto (nextNumber (earlier++before)) ≤ r.rptSeq.toNat

/-- A channel whose clients have subscribed to some symbols and let the loop run
comes up. When a cycle of the instrument feed has been handed on, in whatever
order its packets first came, the download is complete for good, and the symbols
have their controllers. When after that a snapshot comes behind some incremental
packet, not older than those so far, and no incremental packet is lost on both
lines, the controller is in `SYNC` and has reached every entry that has come in. -/
theorem comes_up (memory : UInt32 → Indeterminate) (symbols : List String) (cycle : ReplayCycle)
    (hsize : 2 ≤ cycle.size) (hsmall : cycle.size < 2^31) (first second : List LoopEvent)
    (hevents : ∀ e ∈ first++second, ∀ c, e ≠ .client c)
    (hdelivered : cycle.Delivered ((awaiting memory symbols : ChannelImpl F).downloads first)) :
    let start : ChannelImpl F := awaiting memory symbols
    let ch := (run loopStep start (first++second)).1
    let inputs := observe loopStep loopInputs start (first++second)
    Up cycle symbols ch ∧ ∀ symbol ∈ symbols, ∀ packets upto,
      Published (cycle.instrument symbol).key packets upto → Supplied packets 0 inputs →
      Refreshed (cycle.instrument symbol).key upto (observe loopStep loopInputs start first)
        (observe loopStep loopInputs (run loopStep start first).1 second) →
      ∃ c, ch.channel_controller_.getInstrumentController (cycle.instrument symbol).key = some c ∧
        c.state_ = .SYNC ∧ upto (nextNumber inputs) ≤ c.reached ∧
        ∀ hist, (∀ input ∈ inputs,
            input.Truthful F c.instrument_ hist (cycle.instrument symbol).key) →
          c.mdhandler_.books = bookAt F c.instrument_ hist c.reached := by
  intro start ch inputs
  refine ⟨run_up hsize hsmall hevents hdelivered,fun symbol hsymbol packets upto hpublished
    hsupplied ⟨before,p,after,r,hlater,hr,hstarted,hnew⟩ => ?_⟩
  set s := (cycle.instrument symbol).key
  have hinputs : inputs = (observe loopStep loopInputs start first++before)++
      .packet (.snapshot p)::after := by
    rw [show inputs = _ from observe_append loopStep loopInputs start first second, hlater,
      List.append_assoc]
  have hfind : ∀ events k,
      (run loopStep start events).1.channel_controller_.getInstrumentController k =
        (run ChannelController.onInput ({memory := memory} : ChannelController F)
          (observe loopStep loopInputs start events)).1.getInstrumentController k := by
    intro events k
    rw [awaiting_runs memory symbols events]
    rfl
  -- The controller is there when the snapshot comes.
  have hup : Up cycle symbols (run loopStep start (first++[])).1 :=
    run_up hsize hsmall (fun e he => hevents e (by simpa using Or.inl he)) hdelivered
  obtain ⟨c₀,hc₀⟩ := (hup.exist s).mpr ⟨symbol,hsymbol,rfl⟩
  rw [List.append_nil, hfind] at hc₀
  have hexists : ((run ChannelController.onInput ({memory := memory} : ChannelController F)
      (observe loopStep loopInputs start first++before)).1.getInstrumentController s).isSome := by
    rw [run_append_state, Option.isSome_iff_ne_none]
    intro hnone
    rw [(ChannelController.run_absent hnone).1] at hc₀
    cases hc₀
  rw [hinputs] at hsupplied
  obtain ⟨c,hc,hsync,hle⟩ :=
    ChannelController.refreshed_current hpublished hsupplied hr hstarted hnew hexists
  rw [← hinputs] at hc hle
  refine ⟨c,(hfind _ s).trans hc,hsync,?_,fun hist htruth =>
    (ChannelController.fresh_told hc htruth).replayed⟩
  rw [InstrumentController.reached_started (by rw [hsync]; nofun)]
  omega

def startupPacket : Packet where
  seqnum := 1
  messages :=
    [{templateId := 27, mDInstrumentDefinitionFuture27 :=
        {totNumReports := 2, securityID := 7, symbol := "ESH8",
         noMDFeedTypes := [("GBX",10),("GBI",2)]}},
      {templateId := 27, mDInstrumentDefinitionFuture27 := {totNumReports := 2, symbol := "NQH8"}}]

def startupCycle : ReplayCycle where
  packets := [startupPacket]
  numbered := rfl
  reported d hd := by
    have htwo : d = startupPacket.definitions.head (by decide) ∨
        d = startupPacket.definitions.getLast (by decide) := by
      simpa [startupPacket, Packet.definitions, Message.definition] using hd
    rcases htwo with rfl | rfl <;> rfl

def startupEvents : List LoopEvent × List LoopEvent :=
  ([.datagram .Instrument .A startupPacket,.handled .Instrument .A],
    [.datagram .Incremental .A (ChannelController.samplePackets 2),.handled .Incremental .A,
      .datagram .Snapshot .B ⟨1,[snapshotMessage (sampleSnapshot 2)]⟩,.handled .Snapshot .B,
      .datagram .Incremental .B (ChannelController.samplePackets 3),.handled .Incremental .B])

theorem comes_up_sample :
    let ch := (run loopStep (awaiting (fun _ => ⟨12,true⟩) ["ESH8"] : ChannelImpl .exact)
      (startupEvents.1++startupEvents.2)).1
    Up startupCycle ["ESH8"] ch ∧ ∃ c, ch.channel_controller_.getInstrumentController 7 = some c ∧
      c.state_ = .SYNC ∧ 3 ≤ c.reached := by
  intro ch
  have hdelivered : startupCycle.Delivered
      ((awaiting (fun _ => ⟨12,true⟩) ["ESH8"] : ChannelImpl .exact).downloads startupEvents.1) :=
    ⟨fun p hp => hp,[],_,rfl,⟨Nat.le_refl 1,trivial⟩,fun p hp => hp⟩
  obtain ⟨hup,hserved⟩ := comes_up (F := .exact) (fun _ => ⟨12,true⟩) ["ESH8"] startupCycle
    (by decide) (by decide) startupEvents.1 startupEvents.2 (by simp [startupEvents]) hdelivered
  have hsupplied : Supplied ChannelController.samplePackets 0 (observe loopStep loopInputs
      (awaiting (fun _ => ⟨12,true⟩) ["ESH8"] : ChannelImpl .exact)
      (startupEvents.1++startupEvents.2)) := by
    change Supplied _ 0 [.subscribe (startupCycle.instrument "ESH8"),
      .packet (.incremental (ChannelController.samplePackets 2)),
      .packet (.snapshot ⟨1,[snapshotMessage (sampleSnapshot 2)]⟩),
      .packet (.incremental (ChannelController.samplePackets 3))]
    simp [Supplied, ChannelInput.advance, ChannelController.samplePackets, Packet.number]
  refine ⟨hup,?_⟩
  obtain ⟨c,hc,hsync,hle,-⟩ := hserved "ESH8" (List.mem_singleton.mpr rfl)
    ChannelController.samplePackets _ ChannelController.samplePackets_published hsupplied
    ⟨[.packet (.incremental (ChannelController.samplePackets 2))],_,_,sampleSnapshot 2,rfl,
      List.mem_singleton.mpr rfl,by decide,by decide⟩
  exact ⟨c,hc,hsync,hle⟩

end ChannelImpl

end CmeFeed
