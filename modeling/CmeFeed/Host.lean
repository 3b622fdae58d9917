import CmeFeed.LoopReplay

/-!
# What the host is sent

The plugin subscribes to one symbol and registers one listener, which sends the
host a message for every book it is told of. The message names the symbol and
not the id, and a main and an implied book look alike: what the host gets is
right because the channel has one instrument and books come in pairs.
-/

set_option autoImplicit false

namespace CmeFeed

open Reactive

variable {F : Floats}

structure Depth (F : Floats) where
  symbol : String
  bid_prices : List F.Double
  bid_volumes : List ℤ
  ask_prices : List F.Double
  ask_volumes : List ℤ
  timestamps : List ℤ

structure Timings where
  rec_ts : ℤ
  dec_ts : ℤ
  presend_ts : ℤ
  send_ts : ℤ

namespace DepthList

variable {P : Type}

def get (l : DepthList P) (level : ℕ) : Option (PriceLevel P) := l.levels_[level]?

def size (l : DepthList P) : ℕ := l.levels_.length

end DepthList

/-- The symbol the plugin subscribes to and puts into every message. -/
def pluginSymbol : String := "ESH8"

/-- The loop over one side of a book, level by level. A `float` becomes a
`double`. -/
def sendSide (widen : F.Float → F.Double) (side : DepthList F.Float) : List F.Double × List ℤ :=
  (List.range side.size).foldl (fun r i => (side.get i).elim r fun level =>
    (r.1++[widen level.price],r.2++[level.quantity])) ([],[])

def send (widen : F.Float → F.Double) (timings : Timings) (book : DepthBook F.Float) :
    Depth F :=
  let bids := sendSide widen book.bids_
  let asks := sendSide widen book.asks_
  {symbol := pluginSymbol
   bid_prices := bids.1, bid_volumes := bids.2, ask_prices := asks.1, ask_volumes := asks.2
   timestamps := [timings.rec_ts,timings.dec_ts,timings.presend_ts,timings.send_ts]}

/-- The listener does not look at the id. -/
def onQuote (widen : F.Float → F.Double) (timings : Timings) (_securityid : UInt64)
    (book : DepthBook F.Float) : Depth F := send widen timings book

def hostMessages (widen : F.Float → F.Double) (clock : ℕ → Timings)
    (books : List (UInt64 × DepthBook F.Float)) : List (Depth F) :=
  books.mapIdx fun n b => onQuote widen (clock n) b.1 b.2

theorem foldl_indices {A B : Type} (f : B → A → B) (as : List A) (b : B) :
    (List.range as.length).foldl (fun r i => as[i]?.elim r (f r)) b = as.foldl f b := by
  induction as using List.reverseRecOn with
  | nil => rfl
  | append_singleton as a ih =>
    rw [List.length_append, List.length_singleton, List.range_succ, List.foldl_append,
      List.foldl_append, ← ih, List.foldl_cons, List.foldl_nil, List.foldl_cons, List.foldl_nil,
      List.getElem?_concat_length]
    refine congrArg (f · a) (List.foldl_ext _ _ _ fun r i hi => ?_)
    rw [List.getElem?_append_left (List.mem_range.mp hi)]

theorem sendSide_eq (widen : F.Float → F.Double) (side : DepthList F.Float) :
    sendSide widen side =
      (side.levels_.map fun l => widen l.price,side.levels_.map PriceLevel.quantity) := by
  have hloop : ∀ (levels : List (PriceLevel F.Float)) (r : List F.Double × List ℤ),
      levels.foldl (fun r l => (r.1++[widen l.price],r.2++[l.quantity])) r =
        (r.1++levels.map fun l => widen l.price,r.2++levels.map PriceLevel.quantity) := by
    intro levels
    induction levels with
    | nil => simp
    | cons l levels ih =>
      intro r
      rw [List.foldl_cons, ih]
      simp
  have hindices := foldl_indices (fun (r : List F.Double × List ℤ) (l : PriceLevel F.Float) =>
    (r.1++[widen l.price],r.2++[l.quantity])) side.levels_ ([],[])
  exact hindices.trans (hloop side.levels_ ([],[]))

namespace ChannelController

theorem commit_ids (cc : ChannelController F) :
    ∀ n ∈ notified cc.commit.2, ∃ k, n.1 = keyId k := by
  intro n hn
  unfold commit Controllers.commit at hn
  rw [notified_flatMap] at hn
  obtain ⟨p,-,hp⟩ := List.mem_flatMap.mp hn
  refine ⟨p.2.mdhandler_.instrument_.key,?_⟩
  rw [InstrumentController.commit_notified] at hp
  split_ifs at hp
  · simp only [List.mem_cons, List.not_mem_nil, or_false] at hp
    rcases hp with rfl | rfl <;> exact (keyId_key _).symm
  · cases hp

theorem run_ids (cc : ChannelController F) (inputs : List ChannelInput) :
    ∀ n ∈ notified (run onInput cc inputs).2, ∃ k, n.1 = keyId k := by
  intro n hn
  rw [run_notified] at hn
  obtain ⟨t,-,ht⟩ := List.mem_flatMap.mp hn
  exact t.commit_ids n ht

theorem onInput_absent {s : UInt32} {cc : ChannelController F} {input : ChannelInput}
    (h : (cc.onInput input).1.getInstrumentController s = none) :
    cc.getInstrumentController s = none ∧ notifiedOf s (cc.onInput input).2 = [] := by
  cases input with
  | subscribe i =>
    have hfind := (subscribe_find cc i s).symm.trans h
    exact ⟨(Option.or_eq_none_iff.mp hfind).1,notifiedOf_silent s (subscribe_notified cc i)⟩
  | packet p =>
    obtain ⟨hstate,hbooks⟩ := onPacket_projects s cc p
    have hnone : cc.getInstrumentController s = none :=
      Option.map_eq_none_iff.mp (hstate.symm.trans h)
    refine ⟨hnone,hbooks.trans ?_⟩
    unfold soloBooks
    rw [hnone]

theorem run_absent {s : UInt32} {cc : ChannelController F} {inputs : List ChannelInput}
    (h : (run onInput cc inputs).1.getInstrumentController s = none) :
    cc.getInstrumentController s = none ∧ notifiedOf s (run onInput cc inputs).2 = [] := by
  induction inputs generalizing cc with
  | nil => exact ⟨h,rfl⟩
  | cons input inputs ih =>
    obtain ⟨hnext,hrest⟩ := ih h
    obtain ⟨hnone,hfirst⟩ := onInput_absent hnext
    rw [run_cons, notifiedOf_append, hfirst, hrest]
    exact ⟨hnone,rfl⟩

theorem run_told {cc : ChannelController F} {inputs : List ChannelInput}
    {n : UInt64 × DepthBook F.Float} (hn : n ∈ notified (run onInput cc inputs).2) :
    ∃ k c, n.1 = keyId k ∧ (run onInput cc inputs).1.getInstrumentController k = some c := by
  obtain ⟨k,hk⟩ := run_ids cc inputs n hn
  cases hc : (run onInput cc inputs).1.getInstrumentController k with
  | some c => exact ⟨k,c,hk,hc⟩
  | none =>
    have hbook : n.2 ∈ notifiedOf k (run onInput cc inputs).2 :=
      List.mem_filterMap.mpr ⟨n,hn,if_pos hk⟩
    rw [(run_absent hc).2] at hbook
    cases hbook

end ChannelController

namespace ChannelImpl

/-- The channel has waited for one symbol, and has its instrument since the
download is complete. -/
structure Devoted (symbol : String) (ch : ChannelImpl F) : Prop where
  waiting : ch.symbol_controller_.state_ ≠ .DOWNLOADED →
    ch.pendingsubscription_ = [symbol] ∧
      ∀ k, ch.channel_controller_.getInstrumentController k = none
  resolved : ch.symbol_controller_.state_ = .DOWNLOADED →
    ch.pendingsubscription_ = [] ∧
      ∀ k c, ch.channel_controller_.getInstrumentController k = some c →
        c.instrument_ = ch.symbol_controller_.getInstrument symbol

theorem Devoted.congr {symbol : String} {ch ch' : ChannelImpl F} (h : ch.Devoted symbol)
    (heq : ch'.logic = ch.logic) : ch'.Devoted symbol := by
  obtain ⟨hsymbols,hcontroller,hpending⟩ := logic_eq_iff.mp heq
  constructor
  · rw [hsymbols, hcontroller, hpending]
    exact h.waiting
  · rw [hsymbols, hcontroller, hpending]
    exact h.resolved

theorem perform_devoted {symbol : String} {ch : ChannelImpl F} (h : ch.Devoted symbol)
    (p : FeedPacket) :
    (ch.perform (ch.channel_controller_.onPacket p)).Devoted symbol := by
  obtain ⟨hsymbols,hpending⟩ := foldl_execute_download
    {ch with channel_controller_ := (ch.channel_controller_.onPacket p).1}
    (ch.channel_controller_.onPacket p).2
  set performed := ch.perform (ch.channel_controller_.onPacket p)
  have hfind := perform_find ch p
  constructor
  · intro hs
    obtain ⟨hwaits,hnone⟩ := h.waiting (hsymbols ▸ hs)
    refine ⟨hpending.trans hwaits,fun k => ?_⟩
    rw [hfind, ChannelController.soloState, hnone]
    rfl
  · intro hs
    obtain ⟨hdrained,hall⟩ := h.resolved (hsymbols ▸ hs)
    refine ⟨hpending.trans hdrained,fun k c hc => ?_⟩
    rw [hfind] at hc
    obtain ⟨c₀,hc₀,rfl⟩ := Option.map_eq_some_iff.mp hc
    rw [InstrumentController.run_instrument, hall k c₀ hc₀]
    exact congrArg (SymbolController.getInstrument · symbol) hsymbols.symm

theorem subscribe_found {ch : ChannelImpl F} {i : Instrument}
    (h : ∀ k, ch.channel_controller_.getInstrumentController k = none) {k : UInt32}
    {c : InstrumentController F}
    (hc : (ch.subscribe i).channel_controller_.getInstrumentController k = some c) :
    c.instrument_ = i := by
  have hfind : (ch.subscribe i).channel_controller_.getInstrumentController k =
      (ch.channel_controller_.subscribe i).1.getInstrumentController k :=
    foldl_execute_find _ _ k
  rw [hfind, ChannelController.subscribe_find, h k, Option.none_or] at hc
  split_ifs at hc
  obtain rfl := Option.some.inj hc
  rfl

theorem stopInstrumentFeed_one {ch : ChannelImpl F} {symbol : String}
    (h : ch.pendingsubscription_ = [symbol]) :
    ch.stopInstrumentFeed.channel_controller_ =
      (ch.stopInstrumentA.stopInstrumentB.subscribe
        (ch.symbol_controller_.getInstrument symbol)).channel_controller_ := by
  have hdrained : ch.stopInstrumentFeed.channel_controller_ =
      (ch.pendingsubscription_.foldl (fun ch symbol =>
        ch.subscribe (ch.symbol_controller_.getInstrument symbol))
          ch.stopInstrumentA.stopInstrumentB).channel_controller_ := rfl
  rw [hdrained, h]
  rfl

theorem onInstrumentPacket_devoted {symbol : String} {ch : ChannelImpl F} (h : ch.Devoted symbol)
    (p : Packet) : (ch.onPacket .Instrument p).Devoted symbol := by
  rw [onPacket_instrument]
  by_cases hc : ch.symbol_controller_.Completes p
  · obtain ⟨hwaits,hnone⟩ := h.waiting hc.1
    rw [if_pos hc]
    set moved : ChannelImpl F := {ch with
      symbol_controller_ := (ch.symbol_controller_.onInstrumentPacket p).1}
    obtain ⟨hsymbols,hdrained,-⟩ := stopInstrumentFeed_spec moved
    have hdone : moved.stopInstrumentFeed.symbol_controller_.state_ = .DOWNLOADED := by
      rw [hsymbols]
      exact hc.2
    set left := moved.stopInstrumentA.stopInstrumentB
    have hleft : ∀ k, left.channel_controller_.getInstrumentController k = none := hnone
    refine ⟨fun hopen => absurd hdone hopen,fun _ => ⟨hdrained,fun k c hfound => ?_⟩⟩
    rw [stopInstrumentFeed_one (show moved.pendingsubscription_ = [symbol] from hwaits)] at hfound
    rw [hsymbols]
    exact subscribe_found hleft hfound
  · rw [if_neg hc]
    by_cases hs : ch.symbol_controller_.state_ = .DOWNLOADED
    · rw [(ch.symbol_controller_.onInstrumentPacket_gives p).frozen hs]
      exact h
    · have hopen : (ch.symbol_controller_.onInstrumentPacket p).1.state_ ≠ .DOWNLOADED :=
        fun hdone => hc ⟨hs,hdone⟩
      exact ⟨fun _ => h.waiting hs,fun hdone => absurd hdone hopen⟩

theorem onPacket_devoted {symbol : String} {ch : ChannelImpl F} (h : ch.Devoted symbol)
    (type : FeedType) (p : Packet) : (ch.onPacket type p).Devoted symbol := by
  cases type with
  | Instrument => exact onInstrumentPacket_devoted h p
  | Snapshot => exact perform_devoted h (.snapshot p)
  | Incremental => exact perform_devoted h (.incremental p)

theorem loopStep_keeps (Inv : ChannelImpl F → Prop)
    (hline : ∀ {ch}, Inv ch → ∀ {r type feed}, r.joined_ = (ch.receiver type feed).joined_ →
      Inv (ch.withReceiver r type feed))
    (hpacket : ∀ {ch}, Inv ch → ∀ type data, Inv (ch.onPacket type data))
    {ch : ChannelImpl F} (h : Inv ch) {e : LoopEvent} (he : ∀ c, e ≠ .client c) :
    Inv (ch.loopStep e).1 := by
  cases e with
  | datagram t f d => exact hline h (MulticastReceiver.datagram_frame _ d).1
  | aborted t f => exact hline h rfl
  | client c => exact absurd rfl (he c)
  | handled t f =>
    unfold loopStep
    dsimp only
    cases (ch.receiver t f).ready with
    | nil => exact h
    | cons d rest =>
      cases (ch.receiver t f).data_ with
      | none => exact h
      | some data =>
        have hpopped : Inv (ch.withReceiver {ch.receiver t f with ready := rest} t f) :=
          hline h rfl
        exact hline (hpacket hpopped t data) (MulticastReceiver.async_receive_from_frame _).1

theorem run_keeps (Inv : ChannelImpl F → Prop)
    (hline : ∀ {ch}, Inv ch → ∀ {r type feed}, r.joined_ = (ch.receiver type feed).joined_ →
      Inv (ch.withReceiver r type feed))
    (hpacket : ∀ {ch}, Inv ch → ∀ type data, Inv (ch.onPacket type data))
    {ch : ChannelImpl F} (h : Inv ch) {events : List LoopEvent}
    (hevents : ∀ e ∈ events, ∀ c, e ≠ .client c) : Inv (run loopStep ch events).1 :=
  run_invariant loopStep Inv (fun e => ∀ c, e ≠ .client c)
    (fun _ _ he h => loopStep_keeps Inv hline hpacket h he) ch events hevents h

theorem construct_devoted (memory : UInt32 → Indeterminate) (symbol : String) :
    ((construct memory : ChannelImpl F).subscribeSymbol symbol).Devoted symbol :=
  ⟨fun _ => ⟨rfl,Controllers.find_empty⟩,nofun⟩

end ChannelImpl

/-- What the thread of the plugin does before it runs the loop. -/
def pluginStart (memory : UInt32 → Indeterminate) (handler : Listener) : ListenedChannel F :=
  let channel := ({impl := .construct memory} : ListenedChannel F)
  let channel := channel.registerMarketDataListener handler
  (channel.publicCall (.call (.SubscribeSymbol pluginSymbol))).1

theorem quotes_one (lc : ListenedChannel F) {handler : Listener}
    (h : lc.mdlisteners = [handler]) (books : List (UInt64 × DepthBook F.Float)) :
    (lc.quotes books).map Prod.snd = books := by
  unfold ListenedChannel.quotes
  rw [h]
  induction books with
  | nil => rfl
  | cons b books ih => exact congrArg (b::·) ih

theorem booksOf_all {s : UInt32} {books : List (UInt64 × DepthBook F.Float)}
    (h : ∀ n ∈ books, n.1 = keyId s) : booksOf s books = books.map Prod.snd := by
  induction books with
  | nil => rfl
  | cons n books ih =>
    have hfirst : booksOf s [n] = [n.2] := by
      simp [booksOf, h n List.mem_cons_self]
    rw [← List.singleton_append, booksOf_append, hfirst, ih fun m hm => h m (by simp [hm])]
    rfl

theorem hostMessages_eq (widen : F.Float → F.Double) (clock : ℕ → Timings)
    (books : List (UInt64 × DepthBook F.Float)) :
    hostMessages widen clock books =
      (books.map Prod.snd).mapIdx fun n book => send widen (clock n) book := by
  refine List.ext_getElem? fun n => ?_
  unfold hostMessages onQuote
  rw [List.getElem?_mapIdx, List.getElem?_mapIdx, List.getElem?_map, Option.map_map]
  rfl

section
variable {ch : ChannelImpl F} {memory : UInt32 → Indeterminate} {inputs : List ChannelInput}

theorem devoted_books (hdevoted : ch.Devoted pluginSymbol)
    (hfind : ∀ k, ch.channel_controller_.getInstrumentController k =
      (run ChannelController.onInput ({memory := memory} : ChannelController F)
        inputs).1.getInstrumentController k) :
    let alone := run ChannelController.onInput ({memory := memory} : ChannelController F) inputs
    let i := ch.symbol_controller_.getInstrument pluginSymbol
    (notified alone.2).map Prod.snd = [] ∨ ch.symbol_controller_.state_ = .DOWNLOADED ∧
      ∃ c, alone.1.getInstrumentController i.key = some c ∧ c.instrument_ = i ∧
        (notified alone.2).map Prod.snd = notifiedOf i.key alone.2 := by
  intro alone i
  have htold : ∀ n ∈ notified alone.2, ch.symbol_controller_.state_ = .DOWNLOADED ∧
      n.1 = keyId i.key ∧ ∃ c, alone.1.getInstrumentController i.key = some c ∧
        c.instrument_ = i := by
    intro n hn
    obtain ⟨k,c,hid,hc⟩ := ChannelController.run_told hn
    have hchannel := (hfind k).trans hc
    have hdone : ch.symbol_controller_.state_ = .DOWNLOADED := by
      by_contra hopen
      rw [(hdevoted.waiting hopen).2 k] at hchannel
      cases hchannel
    have hinstrument := (hdevoted.resolved hdone).2 k c hchannel
    have hkey : c.instrument_.key = k :=
      (ch.channel_controller_.instrument_controllers_.keyed k c hchannel).1
    have hsame : k = i.key := hkey.symm.trans (congrArg Instrument.key hinstrument)
    exact ⟨hdone,hsame ▸ hid,c,hsame ▸ hc,hinstrument⟩
  cases hnotified : notified alone.2 with
  | nil => exact Or.inl rfl
  | cons n books =>
    obtain ⟨hdone,-,c,hc,hinstrument⟩ := htold n (hnotified ▸ List.mem_cons_self)
    refine Or.inr ⟨hdone,c,hc,hinstrument,?_⟩
    rw [← hnotified, ← booksOf_all fun m hm => (htold m hm).2.1]
    rfl

end

theorem plugin_runs (memory : UInt32 → Indeterminate) (handler : Listener)
    {events : List ChannelImpl.LoopEvent} (hevents : ∀ e ∈ events, ∀ c, e ≠ .client c) :
    let r := run ListenedChannel.loopStep (pluginStart memory handler : ListenedChannel F) events
    let start : ChannelImpl F := (ChannelImpl.construct memory).subscribeSymbol pluginSymbol
    let alone := run ChannelController.onInput ({memory := memory} : ChannelController F)
      (observe ChannelImpl.refreshStep ChannelImpl.loopInputs start events)
    r.1.impl.Devoted pluginSymbol ∧
      (∀ k, r.1.impl.channel_controller_.getInstrumentController k =
        alone.1.getInstrumentController k) ∧
      r.2.map Prod.snd = notified alone.2 := by
  intro r start alone
  have hstart : ChannelImpl.Drives {memory := memory} start := rfl
  obtain ⟨hdrives,hemitted⟩ := ChannelImpl.loop_refines.run hstart events
  have hrun : r = (⟨(run ChannelImpl.refreshStep start events).1,[handler]⟩,
      ListenedChannel.quotes ⟨start,[handler]⟩ (notified alone.2)) := by
    rw [← hemitted]
    exact ListenedChannel.run_loopStep ⟨start,[handler]⟩ events
  rw [hrun]
  refine ⟨?_,fun k => ?_,quotes_one _ rfl _⟩
  · rw [ChannelImpl.run_refreshStep]
    exact ChannelImpl.run_keeps (ChannelImpl.Devoted pluginSymbol)
      (fun h _ t f _ => h.congr (ChannelImpl.withReceiver_logic _ _ t f))
      ChannelImpl.onPacket_devoted (ChannelImpl.construct_devoted memory pluginSymbol) hevents
  · have hcontroller : (run ChannelImpl.refreshStep start events).1.channel_controller_ =
        alone.1.withOutOfSync _ := hdrives
    change (run ChannelImpl.refreshStep start
      events).1.channel_controller_.getInstrumentController k = _
    rw [hcontroller]
    rfl

def hostEvents : List ChannelImpl.LoopEvent :=
  [.datagram .Instrument .A ⟨1,[{templateId := 27, mDInstrumentDefinitionFuture27 :=
      {totNumReports := 2, securityID := 7, symbol := "ESH8",
       noMDFeedTypes := [("GBX",10),("GBI",2)]}},
      {templateId := 27, mDInstrumentDefinitionFuture27 :=
        {totNumReports := 2, symbol := "NQH8"}}]⟩,.handled .Instrument .A,
    .datagram .Snapshot .B ⟨1,[snapshotMessage (sampleSnapshot 1)]⟩,.handled .Snapshot .B,
    .datagram .Incremental .A ⟨5,[bookMessage [newBid 7 2 102] true]⟩,.handled .Incremental .A]

structure Depth.Within (m : Depth F) (n : ℕ) : Prop where
  bid_volumes : m.bid_volumes.length = m.bid_prices.length
  ask_volumes : m.ask_volumes.length = m.ask_prices.length
  bids : m.bid_prices.length ≤ n
  asks : m.ask_prices.length ≤ n

theorem send_within (widen : F.Float → F.Double) (timings : Timings) {book : DepthBook F.Float}
    {n : ℕ} (hbids : book.bids_.levels_.length ≤ n) (hasks : book.asks_.levels_.length ≤ n) :
    (send widen timings book).Within n := by
  unfold send
  simp only [sendSide_eq]
  exact ⟨by simp,by simp,by simpa using hbids,by simpa using hasks⟩

namespace InstrumentController

variable {i : Instrument}

/-- The controller is sound, and listeners were told of books within the depths of
the instrument only, a main and an implied one in turn. -/
structure Fitting (i : Instrument) (c : InstrumentController F)
    (books : List (DepthBook F.Float)) : Prop where
  sound : c.Sound i
  told : ∃ ps : List (Books F), books = ps.flatMap (fun b => [b.main,b.impl]) ∧
    ∀ b ∈ ps, b.Fits i

theorem deliver_fitting {s : UInt32} {c : InstrumentController F} (d : Delivery)
    {books : List (DepthBook F.Float)} (hk : c.Keyed s) (h : c.Fitting i books) :
    (c.deliver d).1.Fitting i (books++notifiedOf s (c.deliver d).2) := by
  refine ⟨deliver_sound c d h.sound,?_⟩
  obtain ⟨ps,rfl,hps⟩ := h.told
  by_cases hcommit : d = .commit
  · subst hcommit
    rw [show (c.deliver .commit).2 = c.commit.2 from rfl, commit_notifiedOf hk]
    split_ifs
    · refine ⟨ps++[c.mdhandler_.books],?_,fun b hb => ?_⟩
      · rw [List.flatMap_append, List.flatMap_singleton]
      · rcases List.mem_append.mp hb with hb | hb
        · exact hps b hb
        · rw [List.mem_singleton.mp hb]
          exact h.sound.fits
    · exact ⟨ps,List.append_nil _,hps⟩
  · rw [notifiedOf_silent s (c.deliver_silent d hcommit), List.append_nil]
    exact ⟨ps,rfl,hps⟩

theorem fitting_attended (i : Instrument) (s : UInt32) :
    Attended i s (fun _ => True) (Fitting (F := F) i) where
  constructed m := ⟨construct_sound i m,[],rfl,nofun⟩
  delivered hk h _ := deliver_fitting _ hk h

end InstrumentController

theorem getElem?_flatMap_pair (ps : List (Books F)) (n : ℕ) :
    (ps.flatMap fun b => [b.main,b.impl])[n]? =
      ps[n/2]?.map fun b => if n%2 = 0 then b.main else b.impl := by
  induction ps generalizing n with
  | nil => simp
  | cons b ps ih =>
    match n with
    | 0 => rfl
    | 1 => rfl
    | n+2 =>
      have hhalf : (n+2)/2 = n/2+1 := by omega
      have hsame : (n+2)%2 = n%2 := by omega
      rw [hhalf, hsame, List.getElem?_cons_succ, ← ih]
      rfl

/-- Whatever comes in on the lines, the messages to the host come in pairs, each
with as many prices as volumes on a side, and no more than the market depth of
the instrument in the first of a pair and its implied depth in the second. -/
theorem host_depths (widen : F.Float → F.Double) (clock : ℕ → Timings)
    (memory : UInt32 → Indeterminate) (handler : Listener) (events : List ChannelImpl.LoopEvent)
    (hevents : ∀ e ∈ events, ∀ c, e ≠ .client c) :
    let r := run ListenedChannel.loopStep (pluginStart memory handler : ListenedChannel F) events
    let i := r.1.impl.symbol_controller_.getInstrument pluginSymbol
    let messages := hostMessages widen clock (r.2.map Prod.snd)
    messages.length%2 = 0 ∧ ∀ (n : ℕ) (m : Depth F), messages[n]? = some m →
      m.Within (depthSize (if n%2 = 0 then i.marketdepth else i.implmarketdepth)) := by
  intro r i messages
  obtain ⟨hdevoted,hfind,hbooks⟩ := plugin_runs (F := F) memory handler hevents
  obtain ⟨ps,hpairs,hps⟩ : ∃ ps : List (Books F),
      (r.2.map Prod.snd).map Prod.snd = ps.flatMap (fun b => [b.main,b.impl]) ∧
        ∀ b ∈ ps, b.Fits i := by
    rw [hbooks]
    rcases devoted_books hdevoted hfind with hnone | ⟨-,c,hc,hinstrument,htold⟩
    · exact ⟨[],hnone,nofun⟩
    · have hfitting := ChannelController.fresh_attends
        (InstrumentController.fitting_attended c.instrument_ _) hc fun _ _ _ _ _ _ => trivial
      obtain ⟨ps,heq,hps⟩ := hfitting.told
      rw [hinstrument] at hps
      exact ⟨ps,htold.trans heq,hps⟩
  have hmessages : messages = (ps.flatMap fun b => [b.main,b.impl]).mapIdx
      fun n book => send widen (clock n) book := by
    rw [← hpairs]
    exact hostMessages_eq widen clock _
  constructor
  · rw [hmessages, List.length_mapIdx, List.length_flatMap]
    simp
  · intro n m hm
    rw [hmessages, List.getElem?_mapIdx, getElem?_flatMap_pair, Option.map_map] at hm
    obtain ⟨b,hb,rfl⟩ := Option.map_eq_some_iff.mp hm
    have hfits := hps b (List.mem_of_getElem? hb)
    have hwithin : ∀ x, (b.ladder x).levels_.length ≤ i.depth x :=
      fun x => (hfits x).1 ▸ (hfits x).2
    dsimp only [Function.comp]
    split_ifs
    · exact send_within widen _ (hwithin .bid) (hwithin .offer)
    · exact send_within widen _ (hwithin .impliedBid) (hwithin .impliedOffer)

theorem host_depths_sample :
    let r := run ListenedChannel.loopStep
      (pluginStart (fun _ => ⟨12,true⟩) 1 : ListenedChannel .exact) hostEvents
    let messages := hostMessages id (fun n => ⟨n,n,n,n⟩) (r.2.map Prod.snd)
    (messages.map fun m => m.bid_prices.length) = [2,0] ∧ messages.length%2 = 0 :=
  ⟨rfl,(host_depths (F := .exact) id (fun n => ⟨n,n,n,n⟩) (fun _ => ⟨12,true⟩) 1 hostEvents
    (by simp [hostEvents])).1⟩

end CmeFeed
