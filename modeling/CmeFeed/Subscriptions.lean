import CmeFeed.ReplayCycle
import CmeFeed.Registry

/-!
# Subscribing by symbol

A symbol is queued until the download knows it. The queue is drained by the
packet that completes the download, and by nothing else: a symbol that is
queued later stays there.
-/

set_option autoImplicit false

namespace CmeFeed

open Reactive

variable {F : Floats}

namespace SymbolController

theorem handleMessage_calls (c : SymbolController) (m : Message) :
    ∀ d ∈ (c.handleMessage m).2, d = .UnsubscribeInstrumentDownload := by
  unfold handleMessage
  cases m.definition with
  | none => simp
  | some d =>
    dsimp only [onInstrument]
    cases c.state_ with
    | INIT => simp [switchState]
    | DOWNLOADING =>
      dsimp only
      split_ifs <;> simp [switchState]
    | DOWNLOADED => simp

def Completes (c : SymbolController) (packet : Packet) : Prop :=
  c.state_ ≠ .DOWNLOADED ∧ (c.onInstrumentPacket packet).1.state_ = .DOWNLOADED

instance (c : SymbolController) (packet : Packet) : Decidable (c.Completes packet) :=
  inferInstanceAs (Decidable (_ ∧ _))

/-- The feed is given up by the packet that completes the download. -/
theorem onInstrumentPacket_calls (c : SymbolController) (packet : Packet) :
    (c.onInstrumentPacket packet).2 =
      if c.Completes packet then [.UnsubscribeInstrumentDownload] else [] := by
  have hall : ∀ d ∈ (c.onInstrumentPacket packet).2, d = .UnsubscribeInstrumentDownload := by
    by_cases ha : c.Accepts packet
    · rw [onInstrumentPacket_accepted c packet ha]
      exact run_outputs handleMessage _ handleMessage_calls c packet.messages
    by_cases hr : c.Restarts packet
    · rw [onInstrumentPacket_restarted c packet hr]
      simp
    · rw [onInstrumentPacket_ignored c packet ha hr]
      simp
  have hgiven : given (c.onInstrumentPacket packet).2 = if c.Completes packet then 1 else 0 :=
    (onInstrumentPacket_gives c packet).given
  have hcount := List.eq_replicate_of_mem hall
  have hlength : given (c.onInstrumentPacket packet).2 =
      (c.onInstrumentPacket packet).2.length := by
    rw [given, List.count_eq_length]
    exact fun d hd => (hall d hd).symm
  rw [hcount, ← hlength, hgiven]
  by_cases hc : c.Completes packet
  · rw [if_pos hc, if_pos hc]
    rfl
  · rw [if_neg hc, if_neg hc]
    rfl

end SymbolController

namespace ChannelImpl

def Exists (ch : ChannelImpl F) (k : UInt32) : Prop :=
  ∃ c, ch.channel_controller_.getInstrumentController k = some c

theorem perform_find (ch : ChannelImpl F) (p : FeedPacket) (k : UInt32) :
    (ch.perform (ch.channel_controller_.onPacket p)).channel_controller_.getInstrumentController k =
      ChannelController.soloState k ch.channel_controller_
        (ChannelController.packetDeliveries k ch.channel_controller_ p) :=
  (foldl_execute_find _ _ k).trans (ChannelController.onPacket_projects k _ p).1

theorem perform_exists (ch : ChannelImpl F) (p : FeedPacket) (k : UInt32) :
    (ch.perform (ch.channel_controller_.onPacket p)).Exists k ↔ ch.Exists k := by
  unfold Exists
  rw [perform_find, ChannelController.soloState]
  cases ch.channel_controller_.getInstrumentController k <;> simp

def keyOf (ch : ChannelImpl F) (symbol : String) : UInt32 :=
  (ch.symbol_controller_.getInstrument symbol).key

theorem execute_download (ch : ChannelImpl F) (e : Effect F) :
    (ch.execute e).symbol_controller_ = ch.symbol_controller_ ∧
      (ch.execute e).pendingsubscription_ = ch.pendingsubscription_ := by
  cases e with
  | SubscribeToSnapshotsForInstrument k =>
    dsimp only [execute, subscribeToSnapshotsForInstrument]
    split_ifs <;> exact ⟨rfl,rfl⟩
  | UnsubscribeToSnapshotsForInstrument k =>
    dsimp only [execute, unsubscribeToSnapshotsForInstrument]
    split_ifs <;> exact ⟨rfl,rfl⟩
  | NotifyBookRefresh id book => exact ⟨rfl,rfl⟩
  | packetGap expected seqnum => exact ⟨rfl,rfl⟩

theorem foldl_execute_download (ch : ChannelImpl F) (effects : List (Effect F)) :
    (effects.foldl execute ch).symbol_controller_ = ch.symbol_controller_ ∧
      (effects.foldl execute ch).pendingsubscription_ = ch.pendingsubscription_ := by
  induction effects generalizing ch with
  | nil => exact ⟨rfl,rfl⟩
  | cons e effects ih =>
    obtain ⟨hsymbols,hpending⟩ := execute_download ch e
    obtain ⟨hsymbols',hpending'⟩ := ih (ch.execute e)
    exact ⟨hsymbols'.trans hsymbols,hpending'.trans hpending⟩

theorem subscribe_download (ch : ChannelImpl F) (i : Instrument) :
    (ch.subscribe i).symbol_controller_ = ch.symbol_controller_ ∧
      (ch.subscribe i).pendingsubscription_ = ch.pendingsubscription_ :=
  foldl_execute_download _ _

theorem subscribe_exists (ch : ChannelImpl F) (i : Instrument) (k : UInt32) :
    (ch.subscribe i).Exists k ↔ ch.Exists k ∨ i.key = k := by
  have hfind : (ch.subscribe i).channel_controller_.getInstrumentController k =
      (ch.channel_controller_.subscribe i).1.getInstrumentController k :=
    foldl_execute_find _ _ k
  rw [Exists, Exists, hfind]
  unfold ChannelController.subscribe
  cases hi : ch.channel_controller_.getInstrumentController i.key with
  | some c =>
    refine (or_iff_left_of_imp fun hk => ?_).symm
    exact ⟨c,hk ▸ hi⟩
  | none =>
    have hemplace := Controllers.find_emplace ch.channel_controller_.instrument_controllers_
      i.key k _ (InstrumentController.construct_keyed i (ch.channel_controller_.memory i.key)) hi
    dsimp only
    change (∃ c, Controllers.find _ k = some c) ↔ _
    rw [hemplace]
    by_cases hk : i.key = k
    · simp [hk]
    · rw [if_neg hk, or_iff_left hk]
      rfl

theorem subscribe_symbols (ch : ChannelImpl F) (symbols : List String) :
    let r := symbols.foldl (fun ch symbol =>
      ch.subscribe (ch.symbol_controller_.getInstrument symbol)) ch
    r.symbol_controller_ = ch.symbol_controller_ ∧
      ∀ k, r.Exists k ↔ ch.Exists k ∨ ∃ s ∈ symbols, ch.keyOf s = k := by
  induction symbols generalizing ch with
  | nil => simp
  | cons symbol symbols ih =>
    obtain ⟨hsymbols,-⟩ := subscribe_download ch (ch.symbol_controller_.getInstrument symbol)
    obtain ⟨hend,hexists⟩ := ih (ch.subscribe (ch.symbol_controller_.getInstrument symbol))
    constructor
    · exact hend.trans hsymbols
    · intro k
      rw [List.foldl_cons, hexists k, subscribe_exists, or_assoc]
      simp only [keyOf, hsymbols, List.mem_cons, exists_eq_or_imp]

theorem stopInstrumentFeed_spec (ch : ChannelImpl F) :
    ch.stopInstrumentFeed.symbol_controller_ = ch.symbol_controller_ ∧
      ch.stopInstrumentFeed.pendingsubscription_ = [] ∧
      ∀ k, ch.stopInstrumentFeed.Exists k ↔
        ch.Exists k ∨ ∃ s ∈ ch.pendingsubscription_, ch.keyOf s = k := by
  obtain ⟨hsymbols,hexists⟩ := subscribe_symbols
    {ch with instrumenta_ := ch.instrumenta_.leave, instrumentb_ := ch.instrumentb_.leave}
    ch.pendingsubscription_
  exact ⟨hsymbols,rfl,hexists⟩

theorem onPacket_instrument (ch : ChannelImpl F) (p : Packet) :
    let moved := {ch with symbol_controller_ := (ch.symbol_controller_.onInstrumentPacket p).1}
    ch.onPacket .Instrument p =
      if ch.symbol_controller_.Completes p then moved.stopInstrumentFeed else moved := by
  unfold onPacket
  dsimp only
  rw [SymbolController.onInstrumentPacket_calls]
  by_cases hc : ch.symbol_controller_.Completes p
  · rw [if_pos hc, if_pos hc]
    rfl
  · rw [if_neg hc, if_neg hc]
    rfl

/-- What became of the symbols `early`, queued while the download was open, and
`late`, queued since. -/
structure Tracks (ch : ChannelImpl F) (early late : List String) : Prop where
  waiting : ch.symbol_controller_.state_ ≠ .DOWNLOADED →
    ch.pendingsubscription_ = early ∧ late = [] ∧ ∀ k, ¬ch.Exists k
  resolved : ch.symbol_controller_.state_ = .DOWNLOADED →
    ch.pendingsubscription_ = late ∧ ∀ k, ch.Exists k ↔ ∃ s ∈ early, ch.keyOf s = k

theorem construct_tracks (memory : UInt32 → Indeterminate) :
    (construct memory : ChannelImpl F).Tracks [] [] := by
  refine ⟨fun _ => ⟨rfl,rfl,fun k => ?_⟩,nofun⟩
  rintro ⟨c,hc⟩
  exact absurd ((Controllers.find_empty k).symm.trans hc) nofun

def queued (complete : Bool) (ch : ChannelImpl F) : ChannelCall → List String
  | .SubscribeSymbol symbol =>
    if decide (ch.symbol_controller_.state_ = .DOWNLOADED) = complete then [symbol] else []
  | _ => []

theorem subscribeSymbol_tracks {ch : ChannelImpl F} {early late : List String}
    (h : ch.Tracks early late) (symbol : String) :
    (ch.subscribeSymbol symbol).Tracks (early++ch.queued false (.SubscribeSymbol symbol))
      (late++ch.queued true (.SubscribeSymbol symbol)) := by
  by_cases hs : ch.symbol_controller_.state_ = .DOWNLOADED
  · obtain ⟨hpending,hexists⟩ := h.resolved hs
    simp only [queued, hs, decide_true, Bool.true_eq_false, if_false, if_true, List.append_nil]
    constructor
    · exact fun hopen => absurd hs hopen
    · exact fun _ => ⟨congrArg (·++[symbol]) hpending,hexists⟩
  · obtain ⟨hpending,hlate,hnone⟩ := h.waiting hs
    simp only [queued, hs, decide_false, Bool.false_eq_true, if_false, if_true, List.append_nil]
    constructor
    · exact fun _ => ⟨congrArg (·++[symbol]) hpending,hlate,hnone⟩
    · exact fun hdone => absurd hdone hs

/-- The queue is drained by the packet that completes the download. -/
theorem onInstrumentPacket_tracks {ch : ChannelImpl F} {early late : List String}
    (h : ch.Tracks early late) (p : Packet) : (ch.onPacket .Instrument p).Tracks early late := by
  rw [onPacket_instrument]
  by_cases hc : ch.symbol_controller_.Completes p
  · obtain ⟨hpending,hlate,hnone⟩ := h.waiting hc.1
    obtain ⟨hsymbols,hdrained,hexists⟩ := stopInstrumentFeed_spec
      {ch with symbol_controller_ := (ch.symbol_controller_.onInstrumentPacket p).1}
    rw [if_pos hc]
    constructor
    · intro hopen
      rw [hsymbols] at hopen
      exact absurd hc.2 hopen
    · refine fun _ => ⟨hdrained.trans hlate.symm,fun k => ?_⟩
      rw [hexists, ← hpending]
      simp only [keyOf, hsymbols]
      exact or_iff_right (hnone k)
  · rw [if_neg hc]
    by_cases hs : ch.symbol_controller_.state_ = .DOWNLOADED
    · have hfrozen := (ch.symbol_controller_.onInstrumentPacket_gives p).frozen hs
      rw [hfrozen]
      exact h
    · have hopen : (ch.symbol_controller_.onInstrumentPacket p).1.state_ ≠ .DOWNLOADED :=
        fun hdone => hc ⟨hs,hdone⟩
      constructor
      · exact fun _ => h.waiting hs
      · exact fun hdone => absurd hdone hopen

def Downloads : ChannelCall → Prop
  | .SubscribeSymbol _ => True
  | .OnPacket type _ => type = .Instrument
  | .Subscribe _ => False

theorem call_tracks {ch : ChannelImpl F} {early late : List String}
    (h : ch.Tracks early late) {c : ChannelCall} (hc : Downloads c) :
    (ch.call c).Tracks (early++ch.queued false c) (late++ch.queued true c) := by
  cases c with
  | Subscribe inst => exact hc.elim
  | SubscribeSymbol symbol => exact subscribeSymbol_tracks h symbol
  | OnPacket type data =>
    have hnone : ∀ complete, ch.queued complete (.OnPacket type data) = [] := fun _ => rfl
    rw [hnone, hnone, List.append_nil, List.append_nil, show type = .Instrument from hc]
    exact onInstrumentPacket_tracks h data

def queuedSymbols (complete : Bool) : ChannelImpl F → List ChannelCall → List String
  | _, [] => []
  | ch, c::cs => ch.queued complete c++queuedSymbols complete (ch.call c) cs

theorem calls_tracks {ch : ChannelImpl F} {early late : List String} (h : ch.Tracks early late)
    (calls : List ChannelCall) (hcalls : ∀ c ∈ calls, Downloads c) :
    (calls.foldl call ch).Tracks (early++queuedSymbols false ch calls)
      (late++queuedSymbols true ch calls) := by
  induction calls generalizing ch early late with
  | nil =>
    rw [queuedSymbols, queuedSymbols, List.append_nil, List.append_nil]
    exact h
  | cons c calls ih =>
    rw [queuedSymbols, queuedSymbols, ← List.append_assoc, ← List.append_assoc]
    exact ih (call_tracks h (hcalls c (by simp))) fun x hx => hcalls x (by simp [hx])

theorem queuedSymbols_mem {complete : Bool} {ch : ChannelImpl F} {calls : List ChannelCall}
    {s : String} (hs : s ∈ queuedSymbols complete ch calls) : .SubscribeSymbol s ∈ calls := by
  induction calls generalizing ch with
  | nil => exact absurd hs List.not_mem_nil
  | cons c calls ih =>
    rcases List.mem_append.mp hs with hs | hs
    · cases c with
      | Subscribe inst => exact absurd hs List.not_mem_nil
      | SubscribeSymbol symbol =>
        unfold queued at hs
        split_ifs at hs with hqueued
        · rw [List.mem_singleton.mp hs]
          exact List.mem_cons_self
        · exact absurd hs List.not_mem_nil
      | OnPacket type data => exact absurd hs List.not_mem_nil
    · exact List.mem_cons_of_mem c (ih hs)

theorem queuedSymbols_packets (complete : Bool) (ch : ChannelImpl F) (packets : List Packet) :
    queuedSymbols complete ch (packets.map (.OnPacket .Instrument)) = [] := by
  induction packets generalizing ch with
  | nil => rfl
  | cons p packets ih => exact ih _

theorem downloads_symbols (symbols : List String) :
    ∀ c ∈ symbols.map ChannelCall.SubscribeSymbol, Downloads c := by
  intro c hc
  obtain ⟨s,-,rfl⟩ := List.mem_map.mp hc
  trivial

theorem downloads_packets (packets : List Packet) :
    ∀ c ∈ packets.map (ChannelCall.OnPacket .Instrument), Downloads c := by
  intro c hc
  obtain ⟨p,-,rfl⟩ := List.mem_map.mp hc
  rfl

/-- The ids that have a controller when the download and all calls are done are
those of the symbols subscribed to, whatever the order of calls and packets,
exactly if those queued in time make up for the others. -/
theorem symbols_commute (memory : UInt32 → Indeterminate) (symbols : List String)
    (packets : List Packet) (calls : List ChannelCall)
    (hcalls : Interleaving (symbols.map .SubscribeSymbol)
      (packets.map (.OnPacket .Instrument)) calls)
    (hdone : (calls.foldl call (construct memory : ChannelImpl F)).symbol_controller_.state_ =
      .DOWNLOADED) :
    let ch : ChannelImpl F := calls.foldl call (construct memory)
    (∀ k, ch.Exists k ↔ ∃ s ∈ symbols, ch.keyOf s = k) ↔
      ∀ s ∈ symbols, ∃ t ∈ queuedSymbols false (construct memory : ChannelImpl F) calls,
        ch.keyOf t = ch.keyOf s := by
  intro ch
  have hdownloads : ∀ c ∈ calls, Downloads c := by
    intro c hc
    rcases (hcalls.mem_iff c).mp hc with hc | hc
    · exact downloads_symbols symbols c hc
    · exact downloads_packets packets c hc
  have hexists : ∀ k, ch.Exists k ↔
      ∃ t ∈ queuedSymbols false (construct memory) calls, ch.keyOf t = k :=
    ((calls_tracks (construct_tracks memory) calls hdownloads).resolved hdone).2
  have hmem : ∀ t ∈ queuedSymbols false (construct memory : ChannelImpl F) calls,
      t ∈ symbols := by
    intro t ht
    rcases (hcalls.mem_iff _).mp (queuedSymbols_mem ht) with hcall | hcall
    · simpa using hcall
    · simp at hcall
  constructor
  · intro hall s hs
    exact (hexists _).mp ((hall _).mpr ⟨s,hs,rfl⟩)
  · intro hqueued k
    rw [hexists]
    constructor
    · rintro ⟨t,ht,hk⟩
      exact ⟨t,hmem t ht,hk⟩
    · rintro ⟨s,hs,hk⟩
      obtain ⟨t,ht,hkey⟩ := hqueued s hs
      exact ⟨t,ht,hkey.trans hk⟩

def definitionPacket (number : UInt32) (symbol : String) (securityID : Int32) : Packet where
  seqnum := number
  messages := [{templateId := 27, mDInstrumentDefinitionFuture27 :=
    {totNumReports := 2, symbol := symbol, securityID := securityID}}]

theorem symbols_commute_sample :
    let calls : List ChannelCall := [.SubscribeSymbol "ESH8",
      .OnPacket .Instrument (definitionPacket 1 "ESH8" 7),.SubscribeSymbol "ESM8",
      .OnPacket .Instrument (definitionPacket 2 "ESM8" 8)]
    let ch : ChannelImpl .exact := calls.foldl call (construct fun _ => ⟨0,false⟩)
    ch.Exists 7 ∧ ch.Exists 8 := by
  intro calls ch
  have hall := (symbols_commute (F := .exact) (fun _ => ⟨0,false⟩) ["ESH8","ESM8"]
    [definitionPacket 1 "ESH8" 7,definitionPacket 2 "ESM8" 8] calls
    (.left (.right (.left (.right .nil)))) (by decide)).mpr (by decide)
  exact ⟨(hall 7).mpr (by decide),(hall 8).mpr (by decide)⟩

/-- A symbol that is queued when the download is complete is not resolved,
though the table has it. -/
theorem symbols_commute_late :
    let calls : List ChannelCall := [.OnPacket .Instrument (definitionPacket 1 "ESH8" 7),
      .OnPacket .Instrument (definitionPacket 2 "ESM8" 8),.SubscribeSymbol "ESH8"]
    let ch : ChannelImpl .exact := calls.foldl call (construct fun _ => ⟨0,false⟩)
    ch.symbol_controller_.state_ = .DOWNLOADED ∧
      ch.symbol_controller_.instruments_ "ESH8" ≠ none ∧ ch.keyOf "ESH8" = 7 ∧ ¬ch.Exists 7 := by
  intro calls ch
  have hdone : ch.symbol_controller_.state_ = .DOWNLOADED := by decide
  have hqueued : queuedSymbols false (construct fun _ => ⟨0,false⟩ : ChannelImpl .exact) calls =
      [] := by decide
  have htracks := calls_tracks (construct_tracks (F := .exact) fun _ => ⟨0,false⟩) calls
    (by simp [calls, Downloads])
  rw [hqueued] at htracks
  refine ⟨hdone,by decide,by decide,fun h => ?_⟩
  obtain ⟨t,ht,-⟩ := ((htracks.resolved hdone).2 7).mp h
  exact absurd ht List.not_mem_nil

theorem foldl_packets_download (ch : ChannelImpl F) (packets : List Packet) :
    ((packets.map (.OnPacket .Instrument)).foldl call ch).symbol_controller_ =
      (run SymbolController.onInstrumentPacket ch.symbol_controller_ packets).1 := by
  induction packets generalizing ch with
  | nil => rfl
  | cons p packets ih =>
    have hfirst : (ch.onPacket .Instrument p).symbol_controller_ =
        (ch.symbol_controller_.onInstrumentPacket p).1 := by
      rw [onPacket_instrument]
      by_cases hc : ch.symbol_controller_.Completes p
      · rw [if_pos hc]
        exact (stopInstrumentFeed_spec _).1
      · rw [if_neg hc]
    rw [run_cons, ← hfirst]
    exact ih (ch.onPacket .Instrument p)

theorem foldl_symbols_download (ch : ChannelImpl F) (symbols : List String) :
    ((symbols.map .SubscribeSymbol).foldl call ch).symbol_controller_ =
      ch.symbol_controller_ := by
  induction symbols generalizing ch with
  | nil => rfl
  | cons s symbols ih => exact ih (ch.subscribeSymbol s)

theorem queuedSymbols_open {ch : ChannelImpl F} (hch : ch.symbol_controller_.state_ ≠ .DOWNLOADED)
    (symbols : List String) :
    queuedSymbols true ch (symbols.map .SubscribeSymbol) = [] ∧
      queuedSymbols false ch (symbols.map .SubscribeSymbol) = symbols := by
  induction symbols generalizing ch with
  | nil => exact ⟨rfl,rfl⟩
  | cons s symbols ih =>
    obtain ⟨hlate,hearly⟩ := ih (show (ch.subscribeSymbol s).symbol_controller_.state_ ≠ _ from hch)
    have hopen : decide (ch.symbol_controller_.state_ = .DOWNLOADED) = false := by simpa using hch
    constructor
    · rw [List.map_cons, queuedSymbols, queued, hopen]
      exact hlate
    · rw [List.map_cons, queuedSymbols, queued, hopen]
      exact congrArg (s::·) hearly

/-- A fresh download completes with the last definition of the first cycle, and
resolves the symbols that wait for it, exactly for the sizes from two on that
the `int` can hold. -/
theorem download_exact (memory : UInt32 → Indeterminate) (cycle : ReplayCycle)
    (symbols : List String) :
    let waiting : ChannelImpl F := (symbols.map .SubscribeSymbol).foldl call (construct memory)
    let ch := (cycle.packets.map (.OnPacket .Instrument)).foldl call waiting
    (SymbolController.CompletesExactly cycle
        (observe SymbolController.onInstrumentPacket SymbolController.packetStates
          SymbolController.construct.1 cycle.packets) ∧
      ch.pendingsubscription_ = [] ∧ ∀ s ∈ symbols, ch.Exists (ch.keyOf s)) ↔
        2 ≤ cycle.size ∧ cycle.size < 2^31 := by
  intro waiting ch
  rw [← SymbolController.completes_exactly]
  refine and_iff_left_of_imp fun hexact => ?_
  have hsize := ((SymbolController.completes_exactly cycle).mp hexact).1
  have hwaiting : waiting.symbol_controller_ = SymbolController.initial :=
    foldl_symbols_download _ symbols
  have hdone : ch.symbol_controller_.state_ = .DOWNLOADED := by
    have hcomplete := ((SymbolController.initial_stage cycle).copies hsize .one).2.1
    rw [show ch.symbol_controller_ = _ from foldl_packets_download waiting cycle.packets, hwaiting]
    exact hcomplete
  obtain ⟨hlate,hearly⟩ := queuedSymbols_open
    (show (construct memory : ChannelImpl F).symbol_controller_.state_ ≠ .DOWNLOADED by nofun)
    symbols
  have htracks := calls_tracks (construct_tracks memory) (symbols.map .SubscribeSymbol)
    (downloads_symbols symbols) (F := F)
  rw [hlate, hearly] at htracks
  have hend := calls_tracks htracks _ (downloads_packets cycle.packets)
  rw [queuedSymbols_packets, queuedSymbols_packets, List.append_nil] at hend
  obtain ⟨hpending,hexists⟩ := hend.resolved hdone
  exact ⟨hpending,fun s hs => (hexists _).mpr ⟨s,by simpa using hs,rfl⟩⟩

/-- The only definition of a cycle does not complete the download. -/
theorem download_exact_single :
    let cycle := SymbolController.sampleCycle 1 (by decide)
    cycle.size = 1 ∧ ¬SymbolController.CompletesExactly cycle
      (observe SymbolController.onInstrumentPacket SymbolController.packetStates
        SymbolController.construct.1 cycle.packets) := by
  intro cycle
  have hsize : cycle.size = 1 := by decide
  refine ⟨hsize,fun hexact => ?_⟩
  have := ((SymbolController.completes_exactly cycle).mp hexact).1
  omega

end ChannelImpl

end CmeFeed
